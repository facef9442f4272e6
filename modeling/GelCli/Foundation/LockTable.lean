import Mathlib.Logic.Basic

/-!
# Shared and exclusive locks

Who holds a lock and how: any number of parties share it, or one party has it alone. A
lock is granted to a party when no other one is in the way; a party that holds it already
changes how it holds it.
-/

namespace GelCli.Foundation

universe u

inductive LockType where
  | shared
  | exclusive
deriving DecidableEq, Repr

abbrev LockTable (Party : Type u) := List (Party × LockType)

namespace LockTable

variable {Party : Type u} [DecidableEq Party]

def grants (table : LockTable Party) (p : Party) (type : LockType) : Bool :=
  table.all fun holder => holder.1 = p || (type = .shared && holder.2 = .shared)

def grant (table : LockTable Party) (p : Party) (type : LockType) : LockTable Party :=
  table.filter (fun holder => holder.1 ≠ p) ++ [(p, type)]

def release (table : LockTable Party) (p : Party) : LockTable Party :=
  table.filter fun holder => holder.1 ≠ p

variable {table : LockTable Party} {p q : Party} {type other : LockType}

@[simp] theorem mem_release : (q, other) ∈ table.release p ↔ q ≠ p ∧ (q, other) ∈ table := by
  rw [release, List.mem_filter, and_comm]
  simp

@[simp] theorem mem_grant :
    (q, other) ∈ table.grant p type ↔
      q = p ∧ other = type ∨ q ≠ p ∧ (q, other) ∈ table := by
  rw [grant, List.mem_append, List.mem_singleton, Prod.mk.injEq, or_comm]
  exact or_congr_right mem_release

/-- A party that holds the lock alone is the only one that holds it. -/
def Exclusive (table : LockTable Party) : Prop :=
  ∀ p q type, (p, LockType.exclusive) ∈ table → (q, type) ∈ table → q = p

omit [DecidableEq Party] in
theorem Exclusive.nil : Exclusive ([] : LockTable Party) := nofun

theorem Exclusive.release (h : Exclusive table) : Exclusive (table.release p) := by
  intro q r type hq hr
  exact h q r type (mem_release.mp hq).2 (mem_release.mp hr).2

/-- A holder that changes how it holds the lock, or a new one, meets no other holder that
is in its way. -/
theorem Exclusive.grant (h : Exclusive table) (hgrants : table.grants p type = true) :
    Exclusive (table.grant p type) := by
  have hother : ∀ q other, q ≠ p → (q, other) ∈ table → type = .shared ∧ other = .shared := by
    intro q other hne hmem
    simpa [hne] using List.all_eq_true.mp hgrants (q, other) hmem
  intro q r other hq hr
  rcases mem_grant.mp hq with ⟨rfl, hexclusive⟩ | ⟨hqp, hqold⟩
  · rcases mem_grant.mp hr with ⟨rfl, -⟩ | ⟨hrp, hr⟩
    · rfl
    · have hshared := (hother r other hrp hr).1
      rw [← hexclusive] at hshared
      cases hshared
  · rcases mem_grant.mp hr with ⟨rfl, -⟩ | ⟨-, hrold⟩
    · have hshared := (hother q .exclusive hqp hqold).2
      cases hshared
    · exact h q r other hqold hrold

/-- Whoever has the lock alone may hold it as it likes. -/
theorem Exclusive.grants (h : Exclusive table) (hp : (p, LockType.exclusive) ∈ table) :
    table.grants p type = true := by
  refine List.all_eq_true.mpr ?_
  rintro ⟨q, other⟩ hq
  simp [h p q other hp hq]

end LockTable

end GelCli.Foundation
