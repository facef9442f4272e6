import Mathlib.Logic.Relation
import GelCli.Foundation.Dict

/-!
# Draining the edges of a graph

Edges grouped by their targets in a dictionary. A worklist takes the edges out of the
dictionary, those into a point it visits, and goes on with their sources; what is left
is the edges from whose targets no point of the worklist can be reached.
-/

namespace GelCli.Foundation

universe u v

variable {κ : Type u} {ι : Type v} [DecidableEq κ]

/-! ## Values in groups -/

namespace Dict

variable {d : Dict κ (List ι)}

def groupOf (d : Dict κ (List ι)) (k : κ) : List ι := (d.get k).getD []

/-- `d.entry(k).or_insert_with(Vec::new).push(x)` -/
def push (d : Dict κ (List ι)) (k : κ) (x : ι) : Dict κ (List ι) := d.set k (d.groupOf k ++ [x])

def grouped (d : Dict κ (List ι)) : List ι := d.items.flatMap Prod.snd

theorem groupOf_push (d : Dict κ (List ι)) (k j : κ) (x : ι) :
    (d.push k x).groupOf j = if j = k then d.groupOf k ++ [x] else d.groupOf j := by
  unfold push groupOf
  rw [get_set]
  split <;> rfl

theorem groupOf_erase (d : Dict κ (List ι)) (k j : κ) :
    (d.erase k).groupOf j = if j = k then [] else d.groupOf j := by
  unfold groupOf
  rw [get_erase]
  split <;> rfl

theorem grouped_perm (d : Dict κ (List ι)) (k : κ) :
    d.grouped.Perm (d.groupOf k ++ (d.erase k).grouped) := by
  cases h : d.get k with
  | none =>
      rw [erase_of_get_eq_none h, groupOf, h]
      exact .refl _
  | some xs =>
      have hperm := (items_perm_cons_erase h).flatMap_right Prod.snd
      rw [groupOf, h]
      simpa [grouped] using hperm

theorem mem_grouped {x : ι} : x ∈ d.grouped ↔ ∃ k, x ∈ d.groupOf k := by
  constructor
  · intro h
    obtain ⟨⟨k, xs⟩, hitem, hx⟩ := List.mem_flatMap.mp h
    refine ⟨k, ?_⟩
    rw [groupOf, get_eq_some.mpr hitem]
    exact hx
  · rintro ⟨k, hx⟩
    exact (d.grouped_perm k).mem_iff.mpr (List.mem_append_left _ hx)

theorem erase_set (e : Dict κ (List ι)) (k : κ) (v : List ι) : (e.set k v).erase k = e.erase k := by
  apply ext
  show (setItems k v e.items).filter _ = e.items.filter _
  induction e.items with
  | nil => simp [setItems]
  | cons item rest ih =>
      unfold setItems
      split
      · next h => simp [h]
      · next h =>
        rw [List.filter_cons_of_pos (by simpa using h), List.filter_cons_of_pos (by simpa using h),
          ih]

theorem grouped_push_perm (d : Dict κ (List ι)) (k : κ) (x : ι) :
    (d.push k x).grouped.Perm (x :: d.grouped) := by
  have hpush := (d.push k x).grouped_perm k
  rw [groupOf_push, if_pos rfl, push, erase_set, List.append_assoc, List.singleton_append] at hpush
  exact hpush.trans (List.perm_middle.trans ((d.grouped_perm k).symm.cons x))

/-- What is in the groups after values were pushed one by one. -/
theorem grouped_foldl_push {α : Type*} {key : α → κ} {val : α → ι} (l : List α)
    (d : Dict κ (List ι)) :
    (l.foldl (fun d a => d.push (key a) (val a)) d).grouped.Perm (d.grouped ++ l.map val) := by
  induction l generalizing d with
  | nil => simp
  | cons a l ih =>
      rw [List.foldl_cons, List.map_cons]
      exact (ih _).trans (((d.grouped_push_perm _ _).append_right _).trans List.perm_middle.symm)

theorem groupOf_foldl_push {α : Type*} {key : α → κ} {val : α → ι} (l : List α)
    (d : Dict κ (List ι)) (k : κ) :
    (l.foldl (fun d a => d.push (key a) (val a)) d).groupOf k =
      d.groupOf k ++ (l.filter fun a => key a = k).map val := by
  induction l generalizing d with
  | nil => simp
  | cons a l ih =>
      rw [List.foldl_cons, ih, groupOf_push]
      by_cases h : key a = k
      · simp [h]
      · simp [h, Ne.symm h]

end Dict

/-! ## Draining -/

section Drain

variable (source : ι → κ)

/-- One turn of a loop that pops a point and takes the edges into it; the top of the
queue stands first. -/
def drainTurn (queue : List κ) (d : Dict κ (List ι)) :
    (List κ × Dict κ (List ι)) ⊕ Dict κ (List ι) :=
  match queue with
  | [] => .inr d
  | k :: queue => .inl (((d.groupOf k).map source).reverse ++ queue, d.erase k)

def drainLoop : Nat → List κ → Dict κ (List ι) → Option (Dict κ (List ι))
  | 0, _, _ => none
  | fuel + 1, queue, d =>
      match drainTurn source queue d with
      | .inl (queue, d) => drainLoop fuel queue d
      | .inr d => some d

variable {source}

/-- The points that are queued or may still be get fewer. -/
theorem pending_drainTurn {queue queue' : List κ} {d d' : Dict κ (List ι)}
    (h : drainTurn source queue d = .inl (queue', d')) :
    queue'.length + d'.grouped.length < queue.length + d.grouped.length := by
  cases queue with
  | nil => cases h
  | cons k queue =>
      cases h
      have hlength := (d.grouped_perm k).length_eq
      simp only [List.length_append, List.length_reverse, List.length_map, List.length_cons]
        at hlength ⊢
      omega

theorem drainLoop_isSome {fuel : Nat} {queue : List κ} {d : Dict κ (List ι)}
    (h : queue.length + d.grouped.length < fuel) : (drainLoop source fuel queue d).isSome := by
  induction fuel generalizing queue d with
  | zero => cases h
  | succ fuel ih =>
      unfold drainLoop
      split
      · next hturn =>
        exact ih (Nat.lt_of_lt_of_le (pending_drainTurn hturn) (Nat.le_of_lt_succ h))
      · rfl

variable (source)

def drain (queue : List κ) (d : Dict κ (List ι)) : Dict κ (List ι) :=
  (drainLoop source (queue.length + d.grouped.length + 1) queue d).get
    (drainLoop_isSome (Nat.lt_succ_self _))

/-- An edge from `a` into `b`. -/
def Edge (d : Dict κ (List ι)) (a b : κ) : Prop := ∃ x ∈ d.groupOf b, source x = a

/-- From `k` a point of the queue can be reached. -/
def Reaches (queue : List κ) (d : Dict κ (List ι)) (k : κ) : Prop :=
  ∃ r ∈ queue, Relation.ReflTransGen (Edge source d) k r

variable {source}

theorem edge_erase {d : Dict κ (List ι)} {k a b : κ} :
    Edge source (d.erase k) a b ↔ b ≠ k ∧ Edge source d a b := by
  unfold Edge
  rw [Dict.groupOf_erase]
  by_cases h : b = k <;> simp [h]

/-- What the queue is after a turn can be reached exactly from where it could before,
but for the point that was popped. -/
theorem reaches_drainTurn {queue : List κ} {d : Dict κ (List ι)} {k j : κ} :
    Reaches source (k :: queue) d j ↔
      j = k ∨ Reaches source (((d.groupOf k).map source).reverse ++ queue) (d.erase k) j := by
  have hsources : ∀ a, a ∈ ((d.groupOf k).map source).reverse ↔ Edge source d a k := by
    intro a
    rw [List.mem_reverse, List.mem_map]
    rfl
  constructor
  · rintro ⟨r, hr, hpath⟩
    induction hpath using Relation.ReflTransGen.head_induction_on with
    | refl =>
        rcases List.mem_cons.mp hr with rfl | hr
        · exact .inl rfl
        · exact .inr ⟨r, List.mem_append_right _ hr, .refl⟩
    | @head a b hedge _ ih =>
        rcases ih with rfl | ⟨r', hr', hpath⟩
        · exact .inr ⟨a, List.mem_append_left _ ((hsources a).mpr hedge), .refl⟩
        · by_cases hb : b = k
          · subst hb
            exact .inr ⟨a, List.mem_append_left _ ((hsources a).mpr hedge), .refl⟩
          · exact .inr ⟨r', hr', .head (edge_erase.mpr ⟨hb, hedge⟩) hpath⟩
  · rintro (rfl | ⟨r, hr, hpath⟩)
    · exact ⟨j, List.mem_cons_self, .refl⟩
    · have hle : Edge source (d.erase k) ≤ Edge source d := fun a b h => (edge_erase.mp h).2
      have hpath : Relation.ReflTransGen (Edge source d) j r :=
        Relation.ReflTransGen.mono hle j r hpath
      rcases List.mem_append.mp hr with hr | hr
      · exact ⟨k, List.mem_cons_self, hpath.tail ((hsources r).mp hr)⟩
      · exact ⟨r, List.mem_cons_of_mem _ hr, hpath⟩

/-- The edges that are left are those whose targets do not reach the queue. -/
theorem groupOf_drainLoop {fuel : Nat} {queue : List κ} {d d' : Dict κ (List ι)}
    (h : drainLoop source fuel queue d = some d') (j : κ) :
    (Reaches source queue d j → d'.groupOf j = []) ∧
      (¬ Reaches source queue d j → d'.groupOf j = d.groupOf j) := by
  induction fuel generalizing queue d with
  | zero => cases h
  | succ fuel ih =>
      cases queue with
      | nil =>
          cases h
          refine ⟨?_, fun _ => rfl⟩
          rintro ⟨r, hr, -⟩
          cases hr
      | cons k queue =>
          obtain ⟨hreached, hleft⟩ := ih h
          rw [reaches_drainTurn]
          by_cases hj : j = k
          · -- the group of the popped point is taken, whatever is left
            subst hj
            refine ⟨fun _ => ?_, fun hnot => absurd (.inl rfl) hnot⟩
            by_cases hr : Reaches source (((d.groupOf j).map source).reverse ++ queue)
                (d.erase j) j
            · exact hreached hr
            · rw [hleft hr, Dict.groupOf_erase, if_pos rfl]
          · refine ⟨fun hr => hreached (hr.resolve_left hj), fun hnot => ?_⟩
            rw [hleft fun hr => hnot (.inr hr), Dict.groupOf_erase, if_neg hj]

theorem groupOf_drain (queue : List κ) (d : Dict κ (List ι)) (j : κ) :
    (Reaches source queue d j → (drain source queue d).groupOf j = []) ∧
      (¬ Reaches source queue d j → (drain source queue d).groupOf j = d.groupOf j) :=
  groupOf_drainLoop (Option.some_get _).symm j

/-- Draining takes edges away and copies none. -/
theorem grouped_drainLoop {fuel : Nat} {queue : List κ} {d d' : Dict κ (List ι)}
    (h : drainLoop source fuel queue d = some d') : d'.grouped.Subperm d.grouped := by
  induction fuel generalizing queue d with
  | zero => cases h
  | succ fuel ih =>
      cases queue with
      | nil =>
          cases h
          exact .refl _
      | cons k queue =>
          refine (ih h).trans ?_
          rw [(d.grouped_perm k).subperm_left]
          exact (List.sublist_append_right _ _).subperm

end Drain

end GelCli.Foundation
