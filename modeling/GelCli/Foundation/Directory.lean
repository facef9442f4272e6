import Mathlib.Logic.Function.Basic

/-!
# Names and what they name

A directory, a table of branches or any other store of named things in which
names are linked, unlinked and renamed one at a time.
-/

namespace GelCli.Foundation

universe u v

/-- What each name names, if anything. -/
abbrev Directory (Name : Type u) (Node : Type v) := Name → Option Node

namespace Directory

variable {Name : Type u} {Node : Type v} [DecidableEq Name]

def link (d : Directory Name Node) (name : Name) (node : Node) : Directory Name Node :=
  Function.update d name (some node)

def unlink (d : Directory Name Node) (name : Name) : Directory Name Node :=
  Function.update d name none

/-- The new name names what the old one named, which names nothing any more. -/
def rename (d : Directory Name Node) (old new : Name) : Directory Name Node :=
  Function.update (Function.update d old none) new (d old)

variable {d : Directory Name Node} {name other old new : Name} {node : Node}

@[simp] theorem link_self : d.link name node name = some node := by
  simp [link]

theorem link_of_ne (h : other ≠ name) : d.link name node other = d other := by
  simp [link, h]

@[simp] theorem unlink_self : d.unlink name name = none := by
  simp [unlink]

theorem unlink_of_ne (h : other ≠ name) : d.unlink name other = d other := by
  simp [unlink, h]

@[simp] theorem rename_new : d.rename old new new = d old := by
  simp [rename]

theorem rename_old (h : old ≠ new) : d.rename old new old = none := by
  simp [rename, h]

theorem rename_of_ne (hold : other ≠ old) (hnew : other ≠ new) :
    d.rename old new other = d other := by
  simp [rename, hold, hnew]

/-- A name that still names something after an unlink named it before. -/
theorem of_unlink_eq_some (h : d.unlink name other = some node) : d other = some node := by
  by_cases hname : other = name
  · subst hname
    simp at h
  · rwa [unlink_of_ne hname] at h

/-- What a name names after a rename, the new name named before, or it is the new
name and the old one named it. -/
theorem of_rename_eq_some (h : d.rename old new other = some node) :
    other = new ∧ d old = some node ∨ other ≠ new ∧ d other = some node := by
  by_cases hnew : other = new
  · subst hnew
    exact .inl ⟨rfl, by simpa using h⟩
  · refine .inr ⟨hnew, ?_⟩
    by_cases hold : other = old
    · subst hold
      rw [rename_old hnew] at h
      cases h
    · rwa [rename_of_ne hold hnew] at h

end Directory

end GelCli.Foundation
