import GelCli.Foundation.Text

/-!
# Lines

Texts taken apart into lines and put together again, with or without an indentation.
-/

namespace GelCli.Foundation.Text

/-- A character before the first of some lines. -/
def consLine (c : Char) : List Text → List Text
  | [] => [[c]]
  | line :: rest => (c :: line) :: rest

/-- `str::lines`: a line ends with a line feed, and with the carriage return before it. -/
def lines : Text → List Text
  | [] => []
  | c :: t =>
      if c = '\n' then [] :: lines t
      else if c = '\r' ∧ t.head? = some '\n' then lines t
      else consLine c (lines t)

def unlines (ls : List Text) : Text := ls.flatMap (· ++ ['\n'])

def indentLines (ls : List Text) : Text := ls.flatMap fun line => ' ' :: ' ' :: line ++ ['\n']

theorem newline_notMem_of_mem_lines {t line : Text} (h : line ∈ lines t) : '\n' ∉ line := by
  induction t generalizing line with
  | nil => cases h
  | cons c t ih =>
      rw [lines] at h
      split at h
      · rcases List.mem_cons.mp h with rfl | h
        · exact List.not_mem_nil
        · exact ih h
      · next hc =>
        split at h
        · exact ih h
        · cases hlines : lines t with
          | nil =>
              rw [hlines] at h
              obtain rfl := List.mem_singleton.mp h
              exact fun hmem => hc (List.mem_singleton.mp hmem).symm
          | cons first rest =>
              rw [hlines] at h ih
              rcases List.mem_cons.mp h with rfl | h
              · intro hmem
                rcases List.mem_cons.mp hmem with heq | hmem
                · exact hc heq.symm
                · exact ih List.mem_cons_self hmem
              · exact ih (List.mem_cons_of_mem first h)

/-- A line that a line feed ends, without the carriage return before it. -/
theorem lines_append_newline {line : Text} (h : '\n' ∉ line) (t : Text) :
    ∃ kept, lines (line ++ '\n' :: t) = kept :: lines t ∧ (line = kept ∨ line = kept ++ ['\r']) := by
  induction line with
  | nil => exact ⟨[], rfl, Or.inl rfl⟩
  | cons c line ih =>
      obtain ⟨hc, hline⟩ := not_or.mp (mt List.mem_cons.mpr h)
      obtain ⟨kept, hlines, hkept⟩ := ih hline
      rw [List.cons_append, lines, if_neg (Ne.symm hc), hlines]
      by_cases hreturn : c = '\r' ∧ (line ++ '\n' :: t).head? = some '\n'
      · rw [if_pos hreturn]
        obtain ⟨rfl, hhead⟩ := hreturn
        cases line with
        | nil =>
            refine ⟨kept, rfl, Or.inr ?_⟩
            rcases hkept with hkept | hkept
            · rw [← hkept]
              rfl
            · exact absurd hkept (by simp)
        | cons d line =>
            cases hhead
            exact absurd List.mem_cons_self hline
      · rw [if_neg hreturn]
        refine ⟨c :: kept, rfl, ?_⟩
        rcases hkept with rfl | rfl
        · exact Or.inl rfl
        · exact Or.inr rfl

theorem lines_of_newline_notMem {line : Text} (h : '\n' ∉ line) (hne : line ≠ []) :
    lines line = [line] := by
  induction line with
  | nil => exact absurd rfl hne
  | cons c line ih =>
      obtain ⟨hc, hline⟩ := not_or.mp (mt List.mem_cons.mpr h)
      have hhead : ¬ (c = '\r' ∧ line.head? = some '\n') := by
        rintro ⟨-, hhead⟩
        exact hline (List.mem_of_mem_head? hhead)
      rw [lines, if_neg (Ne.symm hc), if_neg hhead]
      cases line with
      | nil => rfl
      | cons d line =>
          rw [ih hline (List.cons_ne_nil d line)]
          rfl

/-- Lines joined by line feeds are read back up to the carriage returns at their ends. -/
theorem exists_mem_lines_intercalate {ls : List Text} (h : ∀ l ∈ ls, '\n' ∉ l) {a rest : Text}
    {c : Char} (hc : c ≠ '\r') (hline : a ++ c :: rest ∈ ls) :
    ∃ kept, a ++ c :: kept ∈ lines (['\n'].intercalate ls) := by
  induction ls with
  | nil => cases hline
  | cons line ls ih =>
      have hnot := h line List.mem_cons_self
      cases ls with
      | nil =>
          obtain rfl := List.mem_singleton.mp hline
          rw [List.intercalate_singleton,
            lines_of_newline_notMem hnot (List.append_ne_nil_of_right_ne_nil _ (List.cons_ne_nil _ _))]
          exact ⟨rest, List.mem_singleton_self _⟩
      | cons next ls =>
          rw [List.intercalate_cons_cons, List.append_assoc, List.singleton_append]
          obtain ⟨kept, hlines, hkept⟩ := lines_append_newline hnot (['\n'].intercalate (next :: ls))
          rw [hlines]
          rcases List.mem_cons.mp hline with rfl | hmem
          · rcases hkept with rfl | hkept
            · exact ⟨rest, List.mem_cons_self⟩
            · -- the carriage return is the end of the rest
              rcases List.eq_nil_or_concat rest with rfl | ⟨body, d, rfl⟩
              · have hlast := (List.append_inj_right' hkept rfl)
                exact absurd (List.cons.inj hlast).1 hc
              · have hbody : (a ++ c :: body) ++ [d] = kept ++ ['\r'] := by simpa using hkept
                obtain ⟨rfl, -⟩ := List.append_inj' hbody rfl
                exact ⟨body, List.mem_cons_self⟩
          · obtain ⟨kept', hmem⟩ := ih (fun l hl => h l (List.mem_cons_of_mem line hl)) hmem
            exact ⟨kept', List.mem_cons_of_mem kept hmem⟩

/-- The line feeds inside a text, each with the indentation of the next line behind it. -/
def relined (t : Text) : Text := t.flatMap fun c => if c = '\n' then ['\n', ' ', ' '] else [c]

theorem length_relined (t : Text) : (relined t).length = t.length + 2 * t.count '\n' := by
  induction t with
  | nil => rfl
  | cons c t ih =>
      rw [relined] at ih
      rw [relined, List.flatMap_cons, List.length_append, ih, List.count_cons, List.length_cons]
      by_cases hc : c = '\n'
      · simp [hc]
        omega
      · simp [hc]
        omega

/-- The texts of one line are the ones that stay as they are. -/
theorem relined_eq_self {t : Text} : relined t = t ↔ '\n' ∉ t := by
  constructor
  · intro h hmem
    have hlength := length_relined t
    have hcount := List.count_pos_iff.mpr hmem
    rw [h] at hlength
    omega
  · intro h
    rw [relined, List.flatMap_congr (g := fun c => [c])]
    · exact List.flatMap_singleton' t
    · intro c hc
      rw [if_neg]
      rintro rfl
      exact h hc

/-! ## Line boundaries -/

/-- The characters `str.splitlines` ends a line at. -/
def isLineBoundary (c : Char) : Bool :=
  ['\n', '\r', '\x0b', '\x0c', '\x1c', '\x1d', '\x1e', '\u0085', '\u2028', '\u2029'].contains c

/-- `str.splitlines`: a carriage return and the line feed behind it end one line. -/
def splitlines : Text → List Text
  | [] => []
  | c :: t =>
      if c = '\r' ∧ t.head? = some '\n' then splitlines t
      else if isLineBoundary c then [] :: splitlines t
      else consLine c (splitlines t)

/-- Some text, all of it within a line. -/
def OneLine (t : Text) : Prop := ∀ c ∈ t, isLineBoundary c = false

theorem OneLine.append {t u : Text} (ht : OneLine t) (hu : OneLine u) : OneLine (t ++ u) := by
  intro c hc
  rcases List.mem_append.mp hc with hc | hc
  · exact ht c hc
  · exact hu c hc

theorem splitlines_cons {c : Char} (h : isLineBoundary c = false) (t : Text) :
    splitlines (c :: t) = consLine c (splitlines t) := by
  have hreturn : c ≠ '\r' := by
    rintro rfl
    cases h
  rw [splitlines, if_neg fun hc => hreturn hc.1, if_neg (by rw [h]; exact Bool.false_ne_true)]

theorem splitlines_append {line : Text} (h : OneLine line) (t : Text) :
    splitlines (line ++ '\n' :: t) = line :: splitlines t := by
  induction line with
  | nil => rfl
  | cons c line ih =>
      rw [List.cons_append, splitlines_cons (h c List.mem_cons_self),
        ih fun d hd => h d (List.mem_cons_of_mem c hd)]
      rfl

/-- Lines that are written are read. -/
theorem splitlines_unlines {ls : List Text} (h : ∀ line ∈ ls, OneLine line) :
    splitlines (unlines ls) = ls := by
  induction ls with
  | nil => rfl
  | cons line ls ih =>
      rw [unlines, List.flatMap_cons, List.append_assoc, List.singleton_append,
        splitlines_append (h line List.mem_cons_self)]
      exact congrArg (line :: ·) (ih fun l hl => h l (List.mem_cons_of_mem line hl))

end GelCli.Foundation.Text
