import Mathlib.Data.List.Infix

/-!
# Savepoints

A transaction keeps what it held at each savepoint. Savepoints go by numbers: the newest
one of a number counts, and a rollback drops every one that is newer. Over a
transaction that only ever grows by one entry, with a savepoint behind each, the
savepoints are the beginnings of what it holds.
-/

namespace GelCli.Foundation

universe u

/-- The newest savepoint stands first. -/
structure Transaction (σ : Type u) where
  content : σ
  savepoints : List (Nat × σ)

namespace Transaction

variable {σ : Type u}

def declare (t : Transaction σ) (name : Nat) : Transaction σ :=
  { t with savepoints := (name, t.content) :: t.savepoints }

def rollbackTo (t : Transaction σ) (name : Nat) : Option (Transaction σ) :=
  match t.savepoints.dropWhile fun savepoint => savepoint.1 != name with
  | [] => none
  | savepoint :: older => some ⟨savepoint.2, savepoint :: older⟩

theorem rollbackTo_of_head {t : Transaction σ} {name : Nat} {content : σ}
    {older : List (Nat × σ)} (h : t.savepoints = (name, content) :: older) :
    t.rollbackTo name = some ⟨content, (name, content) :: older⟩ := by
  rw [rollbackTo, h, List.dropWhile_cons_of_neg (by simp)]

theorem rollbackTo_of_older {t : Transaction σ} {name newest : Nat} {content content' : σ}
    {older : List (Nat × σ)} (hne : newest ≠ name)
    (h : t.savepoints = (newest, content') :: (name, content) :: older) :
    t.rollbackTo name = some ⟨content, (name, content) :: older⟩ := by
  rw [rollbackTo, h, List.dropWhile_cons_of_pos (by simpa using hne),
    List.dropWhile_cons_of_neg (by simp)]

end Transaction

/-! ## A savepoint behind each entry -/

section Marks

variable {α : Type u}

/-- The savepoints when one was declared at the start and one behind each entry. -/
def marks (content : List α) : List (Nat × List α) :=
  content.inits.reverse.map fun part => (part.length, part)

theorem inits_concat (content : List α) (a : α) :
    (content ++ [a]).inits = content.inits ++ [content ++ [a]] := by
  rw [List.inits_append]
  rfl

@[simp] theorem marks_nil : marks ([] : List α) = [(0, [])] := rfl

@[simp] theorem marks_concat (content : List α) (a : α) :
    marks (content ++ [a]) = (content.length + 1, content ++ [a]) :: marks content := by
  rw [marks, inits_concat, List.reverse_append, List.map_append, List.reverse_singleton,
    List.map_singleton, List.length_append]
  rfl

/-- The newest savepoint is the one behind all of the content. -/
theorem marks_eq_cons (content : List α) :
    marks content = (content.length, content) :: (marks content).tail := by
  rcases List.eq_nil_or_concat' content with rfl | ⟨content, a, rfl⟩
  · rfl
  · rw [marks_concat, List.tail_cons, List.length_append]
    rfl

end Marks

namespace Transaction

variable {α : Type u} {t : Transaction (List α)}

/-- A rollback to the last savepoint changes nothing. -/
theorem rollbackTo_last (h : t.savepoints = marks t.content) :
    t.rollbackTo t.content.length = some t := by
  rw [marks_eq_cons] at h
  rw [rollbackTo_of_head h, ← h]

/-- A rollback to the savepoint before takes the last entry away. -/
theorem rollbackTo_before {content : List α} {a : α} (hcontent : t.content = content ++ [a])
    (h : t.savepoints = marks t.content) :
    t.rollbackTo content.length = some ⟨content, marks content⟩ := by
  rw [hcontent, marks_concat, marks_eq_cons] at h
  rw [rollbackTo_of_older (Nat.succ_ne_self _) h, ← marks_eq_cons]

end Transaction

end GelCli.Foundation
