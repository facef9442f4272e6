import GelCli.Foundation.HashMap
import GelCli.Foundation.Walk

/-!
# Breadth-first search without a visited check

A queue search that marks every point it enqueues with its level and overwrites
the mark when the point is enqueued again. Without a visited check the queue
runs through all walks to the root, level by level: level `n` is `layer n`, and
the mark of a point is the *last* level at which it was enqueued, not the first.

`search_found` and `search_exhausted` describe a whole search from its first
level; the goal's level is the length of a shortest walk, and the marks at that
moment are given by `LastMark`.
-/

namespace GelCli.Foundation.QueueSearch

universe u

variable {α : Type u} [DecidableEq α]

/-- The search loop: pop the front, stop at `goal`, else mark and enqueue the
neighbours one level further. The result is the goal's level and the marks at
that moment, `none` when the queue ran empty; the outer `none` is missing fuel. -/
def search (neighbours : α → List α) (goal : α) :
    Nat → List (α × Nat) → HashMap α Nat → Option (Option (Nat × HashMap α Nat))
  | 0, _, _ => none
  | _ + 1, [], _ => some none
  | fuel + 1, (x, num) :: queue, markup =>
      if x = goal then some (some (num, markup))
      else
        search neighbours goal fuel
          (queue ++ (neighbours x).map fun y => (y, num + 1))
          (markup.insertAll (neighbours x) (num + 1))

/-- More fuel never changes a finished search. -/
theorem search_fuel_mono {neighbours : α → List α} {goal : α} {fuel fuel' : Nat}
    (hle : fuel ≤ fuel') :
    ∀ {queue : List (α × Nat)} {markup : HashMap α Nat} {result},
      search neighbours goal fuel queue markup = some result →
      search neighbours goal fuel' queue markup = some result := by
  induction fuel generalizing fuel' with
  | zero =>
      intro queue markup result h
      simp [search] at h
  | succ fuel ih =>
      intro queue markup result h
      obtain ⟨fuel', rfl⟩ : ∃ f, fuel' = f + 1 := ⟨fuel' - 1, by omega⟩
      cases queue with
      | nil => simpa [search] using h
      | cons entry queue =>
          obtain ⟨x, num⟩ := entry
          simp only [search] at h ⊢
          split at h
          · next hx => rw [if_pos hx]; exact h
          · next hx => rw [if_neg hx]; exact ih (by omega) h

section Layers

variable (neighbours : α → List α) (root : α)

omit [DecidableEq α] in
/-- Level `n` of the search: the ends of all walks of `n` steps from the root,
in queue order and once per walk. -/
def layer : Nat → List α
  | 0 => [root]
  | n + 1 => (layer n).flatMap neighbours

omit [DecidableEq α] in
theorem mem_layer_iff {n : Nat} {x : α} :
    x ∈ layer neighbours root n ↔ Walk (fun a b => a ∈ neighbours b) n x root := by
  induction n generalizing x with
  | zero => simp [layer, Walk.zero_iff]
  | succ n ih =>
      simp only [layer, List.mem_flatMap, Walk.succ_iff]
      constructor
      · rintro ⟨y, hy, hx⟩
        exact ⟨y, hx, ih.mp hy⟩
      · rintro ⟨y, hx, hy⟩
        exact ⟨y, ih.mpr hy, hx⟩

/-- The mark of `x` after levels up to `n` were enqueued and `popped` of level
`n` were expanded: the last level at which `x` was enqueued. -/
def LastMark (n : Nat) (popped : List α) (x : α) (k : Nat) : Prop :=
  (k = n + 1 ∧ x ∈ popped.flatMap neighbours) ∨
  (x ∉ popped.flatMap neighbours ∧ x ∈ layer neighbours root k ∧ k ≤ n ∧
    ∀ j, k < j → j ≤ n → x ∉ layer neighbours root j)

/-- The marks of a search that has expanded `popped` of level `n`. -/
def Marks (n : Nat) (popped : List α) (markup : HashMap α Nat) : Prop :=
  ∀ x k, markup.get x = some k ↔ LastMark neighbours root n popped x k

/-- The queue of such a search: what is left of level `n`, then what the
expanded part put on level `n + 1`. -/
def levelQueue (n : Nat) (popped rest : List α) : List (α × Nat) :=
  rest.map (fun x => (x, n)) ++ (popped.flatMap neighbours).map fun x => (x, n + 1)

variable {neighbours root}

omit [DecidableEq α] in
/-- Expanding all of level `n` is being at the start of level `n + 1`. -/
theorem lastMark_next {n : Nat} {x : α} {k : Nat} :
    LastMark neighbours root n (layer neighbours root n) x k ↔
      LastMark neighbours root (n + 1) [] x k := by
  simp only [LastMark, List.flatMap_nil, List.not_mem_nil, and_false, false_or,
    not_false_eq_true, true_and]
  rw [← layer]
  constructor
  · rintro (⟨rfl, hx⟩ | ⟨hx, hk, hkn, hlast⟩)
    · exact ⟨hx, le_rfl, fun j hj hj' => absurd hj (by omega)⟩
    · refine ⟨hk, by omega, fun j hkj hj => ?_⟩
      rcases Nat.lt_or_ge n j with hn | hn
      · have : j = n + 1 := by omega
        subst this
        exact hx
      · exact hlast j hkj hn
  · rintro ⟨hk, hkn, hlast⟩
    by_cases hk' : k = n + 1
    · subst hk'
      exact Or.inl ⟨rfl, hk⟩
    · exact Or.inr ⟨hlast (n + 1) (by omega) le_rfl, hk, by omega,
        fun j hkj hj => hlast j hkj (by omega)⟩

omit [DecidableEq α] in
theorem Marks.next {n : Nat} {markup : HashMap α Nat}
    (h : Marks neighbours root n (layer neighbours root n) markup) :
    Marks neighbours root (n + 1) [] markup :=
  fun x k => (h x k).trans lastMark_next

/-- What popping one point does to the marks. -/
theorem Marks.expand {n : Nat} {popped : List α} {markup : HashMap α Nat}
    (h : Marks neighbours root n popped markup) (y : α) :
    Marks neighbours root n (popped ++ [y])
      (markup.insertAll (neighbours y) (n + 1)) := by
  intro x k
  rw [HashMap.get_insertAll]
  simp only [LastMark, List.flatMap_append, List.flatMap_singleton, List.mem_append,
    not_or]
  by_cases hx : x ∈ neighbours y
  · simp [hx, eq_comm]
  · simp only [hx, if_false, or_false, not_false_eq_true, and_true]
    exact h x k

omit [DecidableEq α] in
theorem levelQueue_expand (n : Nat) (popped rest : List α) (y : α) :
    levelQueue neighbours n popped rest ++ (neighbours y).map (fun x => (x, n + 1)) =
      levelQueue neighbours n (popped ++ [y]) rest := by
  simp [levelQueue, List.flatMap_append]

/-- Running over points of level `n` that are not the goal. -/
theorem search_pop_all {goal : α} {n : Nat} (pass : List α) (hgoal : goal ∉ pass)
    (fuel : Nat) :
    ∀ (rest : List α) {popped : List α} {markup : HashMap α Nat},
      Marks neighbours root n popped markup →
      ∃ markup', Marks neighbours root n (popped ++ pass) markup' ∧
        search neighbours goal (fuel + pass.length)
          (levelQueue neighbours n popped (pass ++ rest)) markup =
        search neighbours goal fuel
          (levelQueue neighbours n (popped ++ pass) rest) markup' := by
  induction pass with
  | nil =>
      intro rest popped markup h
      exact ⟨markup, by simpa using h, by simp⟩
  | cons y pass ih =>
      intro rest popped markup h
      rw [List.mem_cons, not_or] at hgoal
      obtain ⟨markup', hm, heq⟩ := ih hgoal.2 rest (h.expand y)
      refine ⟨markup', by simpa using hm, ?_⟩
      have hqueue : levelQueue neighbours n popped (y :: pass ++ rest) =
          (y, n) :: levelQueue neighbours n popped (pass ++ rest) := by
        simp [levelQueue]
      rw [hqueue, List.length_cons, ← Nat.add_assoc, search,
        if_neg (Ne.symm hgoal.1), levelQueue_expand, heq]
      simp

/-- Running from the root to the start of a level that lies before the goal. -/
theorem search_levels {goal : α} (n : Nat)
    (hgoal : ∀ k < n, goal ∉ layer neighbours root k) (fuel : Nat) :
    ∃ used markup, Marks neighbours root n [] markup ∧
      search neighbours goal (fuel + used) [(root, 0)] (HashMap.empty.insert root 0) =
      search neighbours goal fuel
        (levelQueue neighbours n [] (layer neighbours root n)) markup := by
  induction n generalizing fuel with
  | zero =>
      refine ⟨0, HashMap.empty.insert root 0, ?_, by simp [levelQueue, layer]⟩
      intro x k
      rw [HashMap.get_insert]
      by_cases hx : x = root
      · simp only [hx, if_true, Option.some.injEq, LastMark, List.flatMap_nil,
          List.not_mem_nil, and_false, false_or, not_false_eq_true, true_and]
        constructor
        · rintro rfl
          exact ⟨by simp [layer], le_rfl, fun j hj hj' => absurd hj (by omega)⟩
        · rintro ⟨-, hk, -⟩
          omega
      · simp only [hx, if_false, HashMap.get_empty, LastMark, List.flatMap_nil,
          List.not_mem_nil, and_false, false_or, not_false_eq_true, true_and]
        constructor
        · intro h
          exact absurd h (by simp)
        · rintro ⟨hk, hk0, -⟩
          obtain rfl : k = 0 := by omega
          simp [layer, hx] at hk
  | succ n ih =>
      obtain ⟨used, markup, hm, heq⟩ :=
        ih (fun k hk => hgoal k (by omega)) (fuel + (layer neighbours root n).length)
      obtain ⟨markup', hm', heq'⟩ :=
        search_pop_all (layer neighbours root n) (hgoal n (by omega)) fuel [] hm
      refine ⟨(layer neighbours root n).length + used, markup', ?_, ?_⟩
      · exact Marks.next (by simpa using hm')
      · rw [← Nat.add_assoc, heq]
        simpa [levelQueue, layer] using heq'

/-- A list that holds `y` splits at the first `y`. -/
theorem split_at_first {y : α} : ∀ {xs : List α}, y ∈ xs →
    y ∉ xs.takeWhile (fun x => decide (x ≠ y)) ∧
      ∃ rest, xs = xs.takeWhile (fun x => decide (x ≠ y)) ++ y :: rest
  | x :: xs, hy => by
      by_cases hx : x = y
      · subst hx
        exact ⟨by simp, xs, by simp⟩
      · obtain ⟨hnot, rest, hrest⟩ :=
          split_at_first ((List.mem_cons.mp hy).resolve_left (Ne.symm hx))
        refine ⟨by simpa [hx, Ne.symm hx] using hnot, rest, ?_⟩
        simpa [hx] using hrest

/-- **The search stops at the goal's first level**, `d`, with the marks left by
levels `0..d` and by the points of level `d` queued before the goal. -/
theorem search_found {goal : α} {d : Nat} (hd : goal ∈ layer neighbours root d)
    (hfirst : ∀ k < d, goal ∉ layer neighbours root k) :
    ∃ fuel markup,
      Marks neighbours root d
        ((layer neighbours root d).takeWhile (fun x => decide (x ≠ goal))) markup ∧
      search neighbours goal fuel [(root, 0)] (HashMap.empty.insert root 0) =
        some (some (d, markup)) := by
  set pass := (layer neighbours root d).takeWhile (fun x => decide (x ≠ goal))
  obtain ⟨hpass, rest, hsplit⟩ := split_at_first hd
  obtain ⟨used, markup, hm, heq⟩ := search_levels d hfirst (1 + pass.length)
  obtain ⟨markup', hm', heq'⟩ := search_pop_all pass hpass 1 (goal :: rest) hm
  refine ⟨1 + pass.length + used, markup', by simpa using hm', ?_⟩
  rw [heq, hsplit, heq']
  simp [levelQueue, search]

/-- What a search finds is on the level it says. -/
theorem mem_layer_of_search {goal : α} {fuel num : Nat} {queue : List (α × Nat)}
    {markup markup' : HashMap α Nat}
    (hqueue : ∀ entry ∈ queue, entry.1 ∈ layer neighbours root entry.2)
    (h : search neighbours goal fuel queue markup = some (some (num, markup'))) :
    goal ∈ layer neighbours root num := by
  induction fuel generalizing queue markup with
  | zero => simp [search] at h
  | succ fuel ih =>
      cases queue with
      | nil => simp [search] at h
      | cons entry queue =>
          obtain ⟨x, level⟩ := entry
          have hx : x ∈ layer neighbours root level := hqueue _ List.mem_cons_self
          simp only [search] at h
          split at h
          · next hgoal =>
            cases h
            exact hgoal ▸ hx
          · apply ih ?_ h
            intro entry hmem
            rcases List.mem_append.mp hmem with hmem | hmem
            · exact hqueue entry (List.mem_cons_of_mem _ hmem)
            · obtain ⟨y, hy, rfl⟩ := List.mem_map.mp hmem
              exact List.mem_flatMap.mpr ⟨x, hx, hy⟩

omit [DecidableEq α] in
/-- Behind an empty level all levels are empty. -/
theorem layer_eq_nil_of_le {m n : Nat} {x : α} (hle : m ≤ n) (h : layer neighbours x m = []) :
    layer neighbours x n = [] := by
  induction hle with
  | refl => exact h
  | step _ ih => rw [layer, ih, List.flatMap_nil]

/-- **A search that never meets the goal ends**, once a level is empty. -/
theorem search_exhausted {goal : α} {n : Nat} (hn : layer neighbours root n = [])
    (hgoal : ∀ k, goal ∉ layer neighbours root k) :
    ∃ fuel, search neighbours goal fuel [(root, 0)] (HashMap.empty.insert root 0) =
      some none := by
  obtain ⟨used, markup, -, heq⟩ := search_levels n (fun k _ => hgoal k) 1
  exact ⟨1 + used, by simp [heq, hn, levelQueue, search]⟩

omit [DecidableEq α] in
/-- Of finitely many points that have an empty level the longest bounds all. -/
theorem exists_layer_eq_nil {xs : List α} (h : ∀ x ∈ xs, ∃ n, layer neighbours x n = []) :
    ∃ n, ∀ x ∈ xs, layer neighbours x n = [] := by
  induction xs with
  | nil => exact ⟨0, by simp⟩
  | cons x xs ih =>
      obtain ⟨n, hn⟩ := h x List.mem_cons_self
      obtain ⟨m, hm⟩ := ih fun y hy => h y (List.mem_cons_of_mem _ hy)
      refine ⟨n + m, fun y hy => ?_⟩
      rcases List.mem_cons.mp hy with rfl | hy
      · exact layer_eq_nil_of_le (Nat.le_add_right n m) hn
      · exact layer_eq_nil_of_le (Nat.le_add_left m n) (hm y hy)

omit [DecidableEq α] in
/-- The levels below one point of a level. -/
theorem layer_succ_eq_nil_iff {n : Nat} {x : α} :
    layer neighbours x (n + 1) = [] ↔ ∀ y ∈ neighbours x, layer neighbours y n = [] := by
  simp only [List.eq_nil_iff_forall_not_mem, mem_layer_iff]
  constructor
  · exact fun h y hy z hz => h z (Walk.snoc hz hy)
  · intro h z hz
    obtain ⟨y, hzy, hy⟩ := Walk.snoc_iff.mp hz
    exact h y hy z hzy

/-- **A search that runs dry has seen an empty level** below every point it queued. -/
theorem layer_of_search_none {goal : α} {fuel : Nat} {queue : List (α × Nat)}
    {markup : HashMap α Nat} (h : search neighbours goal fuel queue markup = some none) :
    ∀ entry ∈ queue, ∃ n, layer neighbours entry.1 n = [] := by
  induction fuel generalizing queue markup with
  | zero => simp [search] at h
  | succ fuel ih =>
      cases queue with
      | nil => simp
      | cons entry queue =>
          obtain ⟨x, level⟩ := entry
          simp only [search] at h
          split at h
          · cases h
          have hqueued := ih h
          intro entry hmem
          rcases List.mem_cons.mp hmem with rfl | hmem
          · obtain ⟨n, hn⟩ := exists_layer_eq_nil fun y hy =>
              hqueued (y, level + 1) (List.mem_append_right _ (List.mem_map.mpr ⟨y, hy, rfl⟩))
            exact ⟨n + 1, layer_succ_eq_nil_iff.mpr hn⟩
          · exact hqueued entry (List.mem_append_left _ hmem)

end Layers

end GelCli.Foundation.QueueSearch
