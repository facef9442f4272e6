import Mathlib.Data.List.Infix
import Mathlib.Data.List.Nodup

/-!
# Histories whose ids name their parents

An id is made from the id before it and a text, and two ids made after different ids
differ. A `Lineage` is a list of ids each made after the one before it. An id that
two lineages share is preceded by the same ids in both, so a lineage is determined
by its last id and no id occurs in it twice.
-/

namespace GelCli.Foundation

universe u v

structure Naming (Id : Type u) (Text : Type v) where
  initial : Id
  make : Id → Text → Id
  ne_initial : ∀ parent text, make parent text ≠ initial
  parent_eq : ∀ {parent parent' text text'}, make parent text = make parent' text' →
    parent = parent'

namespace Naming

variable {Id : Type u} {Text : Type v} (N : Naming Id Text)

/-- What the next id is made after. -/
def last (ids : List Id) : Id := ids.getLast?.getD N.initial

inductive Lineage : List Id → Prop where
  | nil : Lineage []
  | make {ids : List Id} (text : Text) : Lineage ids → Lineage (ids ++ [N.make (N.last ids) text])

variable {N}

@[simp]
theorem last_append (ids : List Id) (id : Id) : N.last (ids ++ [id]) = id := by
  simp [last]

theorem Lineage.of_append_singleton {ids : List Id} {id : Id} (h : N.Lineage (ids ++ [id])) :
    N.Lineage ids ∧ ∃ text, id = N.make (N.last ids) text := by
  generalize hlist : ids ++ [id] = list at h
  cases h with
  | nil => simp at hlist
  | make text h =>
      obtain ⟨rfl, hid⟩ := List.append_inj' hlist rfl
      exact ⟨h, text, List.singleton_inj.mp hid⟩

theorem Lineage.of_append {ids rest : List Id} (h : N.Lineage (ids ++ rest)) : N.Lineage ids := by
  induction rest using List.reverseRecOn with
  | nil => rwa [List.append_nil] at h
  | append_singleton rest id ih =>
      rw [← List.append_assoc] at h
      exact ih h.of_append_singleton.1

theorem Lineage.of_prefix {ids list : List Id} (h : N.Lineage list) (hbegins : ids <+: list) :
    N.Lineage ids := by
  obtain ⟨rest, rfl⟩ := hbegins
  exact h.of_append

theorem Lineage.last_eq_initial {ids : List Id} (h : N.Lineage ids) :
    N.last ids = N.initial ↔ ids = [] := by
  cases h with
  | nil => exact ⟨fun _ => rfl, fun _ => rfl⟩
  | make text h =>
      rw [last_append]
      constructor
      · intro heq
        exact absurd heq (N.ne_initial _ _)
      · intro heq
        simp at heq

/-- **A lineage is determined by its last id.** -/
theorem Lineage.unique {ids ids' : List Id} {id : Id} (h : N.Lineage (ids ++ [id]))
    (h' : N.Lineage (ids' ++ [id])) : ids = ids' := by
  induction ids using List.reverseRecOn generalizing ids' id with
  | nil =>
      obtain ⟨-, text, hid⟩ := h.of_append_singleton
      obtain ⟨hids', text', hid'⟩ := h'.of_append_singleton
      have hlast : N.last ids' = N.initial := (N.parent_eq (hid.symm.trans hid')).symm
      exact (hids'.last_eq_initial.mp hlast).symm
  | append_singleton ids before ih =>
      obtain ⟨hids, text, hid⟩ := h.of_append_singleton
      obtain ⟨hids', text', hid'⟩ := h'.of_append_singleton
      have hlast : N.last ids' = before := by
        have hparent := N.parent_eq (hid'.symm.trans hid)
        rwa [last_append] at hparent
      rcases List.eq_nil_or_concat ids' with rfl | ⟨ids₁, id₁, rfl⟩
      · -- the id was made after another one, so there is one before it
        have hnil := hids.last_eq_initial.mp (by rw [last_append, ← hlast]; rfl)
        simp at hnil
      · rw [List.concat_eq_append] at hids' hlast ⊢
        rw [last_append] at hlast
        subst hlast
        rw [ih hids hids']

theorem Lineage.nodup {ids : List Id} (h : N.Lineage ids) : ids.Nodup := by
  induction ids using List.reverseRecOn with
  | nil => exact List.nodup_nil
  | append_singleton ids id ih =>
      have hids := h.of_append_singleton.1
      refine List.nodup_append.mpr ⟨ih hids, List.nodup_singleton id, ?_⟩
      rintro a ha b hb rfl
      obtain rfl := List.mem_singleton.mp hb
      -- up to the earlier place the lineage is the same, and yet shorter
      obtain ⟨before, after, rfl⟩ := List.append_of_mem ha
      have hshort : N.Lineage (before ++ [a]) :=
        hids.of_prefix ⟨after, by simp⟩
      have hsame := hshort.unique h
      have hlength := congrArg List.length hsame
      simp only [List.length_append, List.length_cons] at hlength
      omega

/-- An id that two lineages share has the same ids before it in both. -/
theorem Lineage.prefix_of_mem {ids ids' : List Id} {id : Id} (h : N.Lineage ids)
    (h' : N.Lineage ids') (hid : id ∈ ids) (hid' : id ∈ ids') :
    ∃ before, before ++ [id] <+: ids ∧ before ++ [id] <+: ids' := by
  obtain ⟨before, after, rfl⟩ := List.append_of_mem hid
  obtain ⟨before', after', rfl⟩ := List.append_of_mem hid'
  have hbegins : before ++ [id] <+: before ++ id :: after := ⟨after, by simp⟩
  have hbegins' : before' ++ [id] <+: before' ++ id :: after' := ⟨after', by simp⟩
  have hsame := (h.of_prefix hbegins).unique (h'.of_prefix hbegins')
  subst hsame
  exact ⟨before, hbegins, hbegins'⟩

/-- A lineage that ends in an id of another one is the beginning of it. -/
theorem Lineage.prefix_of_last_mem {ids ids' : List Id} {id : Id} (h : N.Lineage (ids ++ [id]))
    (h' : N.Lineage ids') (hid : id ∈ ids') : ids ++ [id] <+: ids' := by
  obtain ⟨before, hbegins, hbegins'⟩ := h.prefix_of_mem h' (by simp) hid
  have hsame := (h.of_prefix hbegins).unique h
  exact hsame ▸ hbegins'

end Naming

end GelCli.Foundation
