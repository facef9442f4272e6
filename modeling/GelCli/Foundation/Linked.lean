import Mathlib.Data.List.Perm.Basic
import Mathlib.Data.List.Nodup

/-!
# Linked records

Records that each name their own id and the id before it. `Linked p xs` says that
`xs` follow one another from `p`. Where no two records name the same id before them,
there is only one order in which all of them can.
-/

namespace GelCli.Foundation

universe u v

variable {α : Type u} {κ : Type v} (parent id : α → κ)

def Linked : κ → List α → Prop
  | _, [] => True
  | p, x :: xs => parent x = p ∧ Linked (id x) xs

/-- The id behind the last record. -/
def endId : κ → List α → κ
  | p, [] => p
  | _, x :: xs => endId (id x) xs

variable {parent id}

theorem linked_append {p : κ} {xs ys : List α} :
    Linked parent id p (xs ++ ys) ↔
      Linked parent id p xs ∧ Linked parent id (endId id p xs) ys := by
  induction xs generalizing p with
  | nil => exact ⟨fun h => ⟨trivial, h⟩, fun h => h.2⟩
  | cons x xs ih =>
      rw [List.cons_append, Linked, Linked, ih, and_assoc]
      rfl

/-- The parents are the start and the ids but the last. -/
theorem Linked.map_parent {p : κ} {xs : List α} {x : α} (h : Linked parent id p (xs ++ [x])) :
    (xs ++ [x]).map parent = p :: xs.map id := by
  induction xs generalizing p with
  | nil =>
      obtain ⟨hx, -⟩ := h
      rw [List.nil_append, List.map_singleton, hx]
      rfl
  | cons y xs ih =>
      obtain ⟨hy, hxs⟩ := h
      rw [List.cons_append, List.map_cons, hy, ih hxs, List.map_cons]

/-- Records with the same ids that are linked from the same start have the same parents. -/
theorem Linked.map_parent_eq {β : Type*} {parent' id' : β → κ} {p : κ} {xs : List α} {ys : List β}
    (h : Linked parent id p xs) (h' : Linked parent' id' p ys) (hids : xs.map id = ys.map id') :
    xs.map parent = ys.map parent' := by
  induction xs generalizing p ys with
  | nil => rw [List.map_eq_nil_iff.mp hids.symm]; rfl
  | cons x xs ih =>
      cases ys with
      | nil => cases hids
      | cons y ys =>
          obtain ⟨hid, hids⟩ := List.cons.inj hids
          rw [List.map_cons, List.map_cons, h.1, h'.1, ih h.2 (hid ▸ h'.2) hids]

/-- Being linked is a matter of the ids and the parents. -/
theorem Linked.of_map {β : Type*} {parent' id' : β → κ} {p : κ} {xs : List α} {ys : List β}
    (h : Linked parent id p xs) (hparents : xs.map parent = ys.map parent')
    (hids : xs.map id = ys.map id') : Linked parent' id' p ys := by
  induction xs generalizing p ys with
  | nil => rw [List.map_eq_nil_iff.mp hids.symm]; trivial
  | cons x xs ih =>
      cases ys with
      | nil => cases hids
      | cons y ys =>
          obtain ⟨hparent, hparents⟩ := List.cons.inj hparents
          obtain ⟨hid, hids⟩ := List.cons.inj hids
          exact ⟨hparent.symm.trans h.1, hid ▸ ih h.2 hparents hids⟩

/-- **There is one order** in which records with different parents are linked. -/
theorem Linked.unique {p : κ} {xs ys : List α} (h : Linked parent id p xs)
    (h' : Linked parent id p ys) (hperm : xs.Perm ys) (hnodup : (xs.map parent).Nodup) :
    xs = ys := by
  induction xs generalizing p ys with
  | nil => exact (List.nil_perm.mp hperm).symm
  | cons x xs ih =>
      cases ys with
      | nil => exact absurd hperm.length_eq (Nat.succ_ne_zero _)
      | cons y ys =>
          obtain ⟨hx, hxs⟩ := h
          obtain ⟨hy, hys⟩ := h'
          have hxy : x = y :=
            List.inj_on_of_nodup_map hnodup List.mem_cons_self
              (hperm.mem_iff.mpr List.mem_cons_self) (hx.trans hy.symm)
          subst hxy
          rw [ih hxs hys hperm.cons_inv (List.nodup_cons.mp hnodup).2]

end GelCli.Foundation
