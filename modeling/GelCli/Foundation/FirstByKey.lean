import Mathlib.Data.List.Basic
import Mathlib.Data.List.Induction

/-!
# The first of each key

A list without the elements whose key came before: the first element of every key stays,
and the keys stand in the order in which they came.
-/

namespace GelCli.Foundation

variable {α κ : Type} [DecidableEq κ] {key : α → κ} {l : List α}

def pushNew (key : α → κ) (kept : List α) (a : α) : List α :=
  if kept.any fun b => key b = key a then kept else kept ++ [a]

def firstByKey (key : α → κ) (l : List α) : List α := l.foldl (pushNew key) []

theorem pushNew_of_mem {kept : List α} {a : α} (h : key a ∈ kept.map key) :
    pushNew key kept a = kept := by
  obtain ⟨b, hb, hkey⟩ := List.mem_map.mp h
  exact if_pos (List.any_eq_true.mpr ⟨b, hb, decide_eq_true hkey⟩)

theorem pushNew_of_not_mem {kept : List α} {a : α} (h : key a ∉ kept.map key) :
    pushNew key kept a = kept ++ [a] := by
  refine if_neg fun hany => h ?_
  obtain ⟨b, hb, hkey⟩ := List.any_eq_true.mp hany
  exact List.mem_map.mpr ⟨b, hb, of_decide_eq_true hkey⟩

theorem firstByKey_concat (l : List α) (a : α) :
    firstByKey key (l ++ [a]) = pushNew key (firstByKey key l) a := by
  rw [firstByKey, List.foldl_append, List.foldl_cons, List.foldl_nil]
  rfl

theorem firstByKey_map {β : Type} (f : β → α) (l : List β) :
    firstByKey key (l.map f) = (firstByKey (fun b => key (f b)) l).map f := by
  induction l using List.reverseRecOn with
  | nil => rfl
  | append_singleton l b ih =>
      rw [List.map_append, List.map_singleton, firstByKey_concat, firstByKey_concat, ih]
      have hkeys : ((firstByKey (fun b => key (f b)) l).map f).map key =
          (firstByKey (fun b => key (f b)) l).map fun b => key (f b) := List.map_map
      by_cases hb : key (f b) ∈ (firstByKey (fun b => key (f b)) l).map fun b => key (f b)
      · rw [pushNew_of_mem hb, pushNew_of_mem (hkeys ▸ hb)]
      · rw [pushNew_of_not_mem hb, pushNew_of_not_mem (hkeys ▸ hb), List.map_append,
          List.map_singleton]

/-- No key is lost. -/
theorem mem_map_firstByKey {k : κ} : k ∈ (firstByKey key l).map key ↔ k ∈ l.map key := by
  induction l using List.reverseRecOn with
  | nil => rfl
  | append_singleton l a ih =>
      rw [firstByKey_concat, List.map_append, List.mem_append, ← ih, List.map_singleton,
        List.mem_singleton]
      by_cases ha : key a ∈ (firstByKey key l).map key
      · rw [pushNew_of_mem ha]
        refine ⟨.inl, ?_⟩
        rintro (hk | rfl)
        · exact hk
        · exact ha
      · rw [pushNew_of_not_mem ha, List.map_append, List.mem_append, List.map_singleton,
          List.mem_singleton]

/-- The keys stand in the order in which they came. -/
theorem pairwise_firstByKey :
    ((firstByKey key l).map key).Pairwise fun k k' =>
      (l.map key).idxOf k < (l.map key).idxOf k' := by
  induction l using List.reverseRecOn with
  | nil => exact .nil
  | append_singleton l a ih =>
      have hidx : ∀ k ∈ (firstByKey key l).map key,
          ((l ++ [a]).map key).idxOf k = (l.map key).idxOf k := by
        intro k hk
        rw [List.map_append, List.idxOf_append_of_mem (mem_map_firstByKey.mp hk)]
      have hold : ((firstByKey key l).map key).Pairwise fun k k' =>
          ((l ++ [a]).map key).idxOf k < ((l ++ [a]).map key).idxOf k' := by
        refine ih.imp_of_mem fun {k k'} hk hk' hlt => ?_
        rwa [hidx k hk, hidx k' hk']
      rw [firstByKey_concat]
      by_cases ha : key a ∈ (firstByKey key l).map key
      · rwa [pushNew_of_mem ha]
      · have hkeys : (firstByKey key l ++ [a]).map key = (firstByKey key l).map key ++ [key a] :=
          List.map_append
        rw [pushNew_of_not_mem ha, hkeys]
        refine List.pairwise_append.mpr ⟨hold, List.pairwise_singleton _ _, fun k hk k' hk' => ?_⟩
        rw [List.mem_singleton.mp hk', hidx k hk, List.map_append,
          List.idxOf_append_of_notMem fun hmem => ha (mem_map_firstByKey.mpr hmem)]
        have hlt := List.idxOf_lt_length_of_mem (mem_map_firstByKey.mp hk)
        omega

theorem nodup_firstByKey : ((firstByKey key l).map key).Nodup :=
  pairwise_firstByKey.imp fun h heq => absurd (heq ▸ h) (Nat.lt_irrefl _)

/-- What stays is the first of its key. -/
theorem first_of_mem_firstByKey {x : α} (h : x ∈ firstByKey key l) :
    ∃ before after, l = before ++ x :: after ∧ ∀ y ∈ before, key y ≠ key x := by
  induction l using List.reverseRecOn with
  | nil => cases h
  | append_singleton l a ih =>
      have hold : x ∈ firstByKey key l → ∃ before after, l ++ [a] = before ++ x :: after ∧
          ∀ y ∈ before, key y ≠ key x := by
        intro hx
        obtain ⟨before, after, rfl, hfirst⟩ := ih hx
        exact ⟨before, after ++ [a], by rw [List.append_assoc, List.cons_append], hfirst⟩
      rw [firstByKey_concat] at h
      by_cases ha : key a ∈ (firstByKey key l).map key
      · rw [pushNew_of_mem ha] at h
        exact hold h
      · rw [pushNew_of_not_mem ha] at h
        rcases List.mem_append.mp h with hx | hx
        · exact hold hx
        · obtain rfl := List.mem_singleton.mp hx
          refine ⟨l, [], rfl, fun y hy heq => ha ?_⟩
          rw [mem_map_firstByKey, ← heq]
          exact List.mem_map_of_mem hy

end GelCli.Foundation
