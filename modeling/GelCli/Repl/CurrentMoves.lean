import GelCli.Repl.Current

/-!
# Lines that begin with complete statements

What `current` finds in a line does not depend on complete statements that stand in front,
apart from the ends of lines: a `\r` in front of a `\n`, and a cursor behind a command that
fills the line.
-/

namespace GelCli.Repl.Completion

open GelCli.Foundation GelCli.Repl.Backslash
open Text

/-! ## Complete commands -/

/-- A statement of a backslash command that its line end or its semicolon ends. -/
def endsAt : Option Quote → Text → Bool
  | _, [] => false
  | quote, c :: rest => isLineEnd c || (c = ';' ∧ quote = none) || endsAt (quoteAfter quote c) rest

def Statement.Complete : Statement → Prop
  | .edgeql _ => True
  | .backslash s => endsAt none s = true

theorem endsAt_append {quote : Option Quote} {s : Text} (h : endsAt quote s = true) (t : Text) :
    endsAt quote (s ++ t) = true := by
  induction s generalizing quote with
  | nil => cases h
  | cons c s ih =>
      rw [List.cons_append, endsAt]
      rw [endsAt, Bool.or_eq_true] at h
      rcases h with h | h
      · rw [h, Bool.true_or]
      · rw [ih h, Bool.or_true]

/-- The two kinds of ends, or an end further on. -/
theorem endsAt_cons {quote : Option Quote} {c : Char} {rest : Text}
    (h : endsAt quote (c :: rest) = true) (hline : isLineEnd c = false)
    (hsemi : ¬ (c = ';' ∧ quote = none)) : endsAt (quoteAfter quote c) rest = true := by
  rw [endsAt, hline, decide_eq_false hsemi] at h
  exact h

theorem firstStatement_goesOn {quote : Option Quote} {c : Char} (hline : isLineEnd c = false)
    (hsemi : ¬ (c = ';' ∧ quote = none)) (rest : Text) :
    firstStatement quote (c :: rest) =
      (firstStatement (quoteAfter quote c) rest).map (c :: ·) id := by
  rw [firstStatement, if_neg (by rw [hline]; exact Bool.false_ne_true), if_neg hsemi]

/-- A statement that is complete has the same text in front of other statements, unless the
two characters of a line end come together. -/
theorem firstStatement_append_of_endsAt {quote : Option Quote} {t more : Text}
    (h : endsAt quote t = true)
    (hseam : (firstStatement quote t).2 = [] → (firstStatement quote t).1.getLast? = some '\r' →
      more.head? ≠ some '\n') :
    firstStatement quote (t ++ more) =
      ((firstStatement quote t).1, (firstStatement quote t).2 ++ more) := by
  induction t generalizing quote with
  | nil => cases h
  | cons c t ih =>
      rw [List.cons_append]
      by_cases hline : isLineEnd c = true
      · rw [firstStatement_lineEnd hline] at hseam ⊢
        rw [firstStatement_lineEnd hline, lineEnd, lineEnd]
        cases t with
        | nil =>
            have hnext : ¬ (c = '\r' ∧ more.head? = some '\n') := by
              rintro ⟨rfl, hmore⟩
              exact hseam rfl rfl hmore
            rw [List.nil_append, if_neg hnext, if_neg (by rintro ⟨-, ⟨⟩⟩)]
            rfl
        | cons d t =>
            rw [List.cons_append, List.head?_cons, List.head?_cons]
            split
            · rfl
            · rfl
      · have hline := Bool.eq_false_iff.mpr hline
        by_cases hsemi : c = ';' ∧ quote = none
        · obtain ⟨rfl, rfl⟩ := hsemi
          rfl
        · have hends := endsAt_cons h hline hsemi
          rw [firstStatement_goesOn hline hsemi] at hseam ⊢
          rw [firstStatement_goesOn hline hsemi, ih hends]
          · rfl
          · intro hnil hlast
            refine hseam hnil ?_
            have hne : (firstStatement (quoteAfter quote c) t).1 ≠ [] := by
              intro heq
              rw [heq] at hlast
              cases hlast
            show (c :: (firstStatement (quoteAfter quote c) t).1).getLast? = some '\r'
            rw [List.getLast?_cons_of_ne_nil hne, hlast]

/-- At the seam the second character belongs to the statement in front. -/
theorem firstStatement_seam {quote : Option Quote} {t : Text} (h : endsAt quote t = true)
    (hall : firstStatement quote t = (t, [])) (hlast : t.getLast? = some '\r') (more : Text) :
    firstStatement quote (t ++ '\n' :: more) = (t ++ ['\n'], more) := by
  induction t generalizing quote with
  | nil => cases h
  | cons c t ih =>
      rw [List.cons_append]
      by_cases hline : isLineEnd c = true
      · rw [firstStatement_lineEnd hline] at hall ⊢
        have hnil : t = [] := by
          rw [lineEnd] at hall
          split at hall
          · next hpair =>
            obtain ⟨t, rfl⟩ := List.head?_eq_some_iff.mp hpair.2
            obtain rfl : t = [] := (Prod.mk.inj hall).2
            cases hlast
          · exact (Prod.mk.inj hall).2
        subst hnil
        obtain rfl : c = '\r' := Option.some.inj hlast
        rfl
      · have hline := Bool.eq_false_iff.mpr hline
        by_cases hsemi : c = ';' ∧ quote = none
        · obtain ⟨rfl, rfl⟩ := hsemi
          rw [firstStatement_semicolon] at hall
          obtain rfl := (Prod.mk.inj hall).2
          cases hlast
        · have hends := endsAt_cons h hline hsemi
          have hne : t ≠ [] := by
            rintro rfl
            cases hends
          rw [firstStatement_goesOn hline hsemi] at hall ⊢
          have hrest : firstStatement (quoteAfter quote c) t = (t, []) := by
            obtain ⟨hfst, hsnd⟩ := Prod.mk.inj hall
            exact Prod.ext (List.cons.inj hfst).2 hsnd
          rw [List.getLast?_cons_of_ne_nil hne] at hlast
          rw [ih hends hrest hlast]
          rfl

/-! ## Statements in front of more text -/

variable {edgeql : Edgeql}

theorem trimStart_append_of_ne_nil {t : Text} (h : trimStart t ≠ []) (more : Text) :
    (trimStart (t ++ more)).head? = (trimStart t).head? := by
  have happend : trimStart (t ++ more) = trimStart t ++ more := by
    induction t with
    | nil => exact absurd rfl h
    | cons c t ih =>
        by_cases hc : isWhitespace c = true
        · rw [trimStart, List.dropWhile_cons_of_pos hc] at h
          rw [List.cons_append, trimStart, List.dropWhile_cons_of_pos hc, trimStart,
            List.dropWhile_cons_of_pos hc]
          exact ih h
        · have hc := Bool.eq_false_iff.mpr hc
          rw [List.cons_append, trimStart_of_head hc, trimStart_of_head hc]
          rfl
  rw [happend, List.head?_append_of_ne_nil _ h]

theorem trimStart_ne_nil_of_mem {c : Char} {t : Text} (h : c ∈ t) (hc : isWhitespace c = false) :
    trimStart t ≠ [] := by
  intro hnil
  have hall : ∀ c ∈ t, isWhitespace c = true := by
    have hsplit := leadingBlank_append_trimStart t
    rw [hnil, List.append_nil] at hsplit
    intro c hc
    rw [← hsplit] at hc
    exact isWhitespace_of_mem_leadingBlank hc
  rw [hall c h] at hc
  cases hc

/-- The statement of a command is the first one of the text. -/
theorem Begins.first {rest s behind : Text}
    (h : Begins edgeql rest (.backslash s) behind) : firstStatement none rest = (s, behind) := by
  obtain ⟨hback, hfull⟩ := h.cuts
  rw [fullStatement_eq (opensQuote_of_trimStart hback), Option.some.injEq] at hfull
  have hfirst := splitAtByte_firstStatement rest
  rw [hfull] at hfirst
  have hsplit : splitAtByte rest (byteLen s) = some (s, behind) :=
    splitAtByte_eq_some.mpr ⟨h.split, rfl⟩
  exact Option.some.inj (hfirst.symm.trans hsplit)

theorem begins_backslash {rest s behind : Text} (hempty : edgeql.isEmpty rest = false)
    (hback : (trimStart rest).head? = some '\\') (h : firstStatement none rest = (s, behind)) :
    Begins edgeql rest (.backslash s) behind := by
  have hne : rest ≠ [] := by
    rintro rfl
    cases hback
  have hsplit := firstStatement_append none rest
  have hnonempty := firstStatement_ne_nil hne none
  have hfull := fullStatement_eq (opensQuote_of_trimStart hback)
  rw [h] at hsplit hnonempty hfull
  exact ⟨hsplit.symm, hnonempty, hempty, hback, hfull⟩

/-- The last statement and the text behind it share a line end. -/
def Seam (sts : List Statement) (more : Text) : Prop :=
  (∃ s, sts.getLast? = some (.backslash s) ∧ s.getLast? = some '\r') ∧ more.head? = some '\n'

theorem Begins.append (h : edgeql.Lawful) {rest behind : Text} {st : Statement}
    (hbegins : Begins edgeql rest st behind) (hcomplete : st.Complete) {more : Text}
    (hseam : behind = [] → ¬ Seam [st] more) :
    Begins edgeql (rest ++ more) st (behind ++ more) := by
  have hempty : edgeql.isEmpty (rest ++ more) = false := by
    rw [Bool.eq_false_iff]
    intro hempty
    have hfalse := hbegins.notEmpty
    rw [h.empty_prefix rest more hempty] at hfalse
    cases hfalse
  cases st with
  | edgeql s =>
      obtain ⟨hback, hfull⟩ := hbegins.cuts
      obtain ⟨front, after, hrest, -⟩ := h.semicolon _ _ hfull
      have hne : trimStart rest ≠ [] :=
        trimStart_ne_nil_of_mem (c := ';') (by rw [hrest]; simp) rfl
      refine ⟨?_, hbegins.nonempty, hempty, ?_, h.stable _ _ _ hfull⟩
      · rw [hbegins.split, List.append_assoc]
      · rw [trimStart_append_of_ne_nil hne]
        exact hback
  | backslash s =>
      obtain ⟨hback, -⟩ := hbegins.cuts
      have hfirst := hbegins.first
      have hne : trimStart rest ≠ [] := by
        intro hnil
        rw [hnil] at hback
        cases hback
      have hends : endsAt none rest = true := by
        rw [hbegins.split]
        exact endsAt_append hcomplete behind
      refine begins_backslash hempty ?_ ?_
      · rw [trimStart_append_of_ne_nil hne]
        exact hback
      · rw [firstStatement_append_of_endsAt hends, hfirst]
        rw [hfirst]
        intro hnil hlast hmore
        exact hseam hnil ⟨⟨s, rfl, hlast⟩, hmore⟩

theorem Splits.eq_nil {behind : Text} {sts : List Statement} (h : Splits edgeql [] sts behind) :
    sts = [] := by
  cases h with
  | nil => rfl
  | @cons _ next _ st sts hbegins hsplits =>
      exact absurd (List.append_eq_nil_iff.mp hbegins.split.symm).1 hbegins.nonempty

theorem Splits.append (h : edgeql.Lawful) {rest behind : Text} {sts : List Statement}
    (hsplits : Splits edgeql rest sts behind) (hcomplete : ∀ st ∈ sts, st.Complete) {more : Text}
    (hseam : behind = [] → ¬ Seam sts more) :
    Splits edgeql (rest ++ more) sts (behind ++ more) := by
  induction hsplits with
  | nil behind => exact .nil _
  | @cons rest next behind st sts hbegins hsplits ih =>
      have hfirst : next = [] → ¬ Seam [st] more := by
        rintro rfl
        obtain rfl := hsplits.eq_nil
        exact hseam hsplits.split.symm
      refine .cons (hbegins.append h (hcomplete st List.mem_cons_self) hfirst)
        (ih (fun st hst => hcomplete st (List.mem_cons_of_mem _ hst)) ?_)
      rintro hnil ⟨⟨s, hlast, hcr⟩, hmore⟩
      refine hseam hnil ⟨⟨s, ?_, hcr⟩, hmore⟩
      have hne : sts ≠ [] := by
        rintro rfl
        cases hlast
      rw [List.getLast?_cons_of_ne_nil hne, hlast]

theorem byteLen_eq_zero {t : Text} : byteLen t = 0 ↔ t = [] := by
  constructor
  · intro h
    have hlen := length_le_byteLen t
    exact List.length_eq_zero_iff.mp (by omega)
  · rintro rfl
    rfl

theorem byteLen_pos {t : Text} (h : t ≠ []) : 0 < byteLen t :=
  Nat.pos_of_ne_zero fun hzero => h (byteLen_eq_zero.mp hzero)

theorem byteLen_text_le {st : Statement} {sts : List Statement} (h : st ∈ sts) :
    byteLen st.text ≤ byteLen (texts sts) := by
  induction sts with
  | nil => cases h
  | cons st' sts ih =>
      rw [texts, List.flatMap_cons, byteLen_append]
      rcases List.mem_cons.mp h with rfl | h
      · omega
      · exact Nat.le_add_left_of_le (ih h)

/-- Statements that are shorter than the line do not fill it. -/
theorem not_fillsLine {data : Text} {sts : List Statement}
    (h : byteLen (texts sts) < byteLen data) : ∀ st ∈ sts, ¬ st.FillsLine data := by
  rintro st hst ⟨s, rfl, hlen⟩
  have hle : byteLen s ≤ byteLen (texts sts) := byteLen_text_le hst
  omega

theorem Splits.nonempty {rest behind : Text} {sts : List Statement}
    (h : Splits edgeql rest sts behind) : ∀ st ∈ sts, st.text ≠ [] := by
  induction h with
  | nil => exact fun st hst => absurd hst List.not_mem_nil
  | cons hbegins hsplits ih =>
      intro st hst
      rcases List.mem_cons.mp hst with rfl | hst
      · exact hbegins.nonempty
      · exact ih st hst

/-- Only a statement that stands alone is as long as all of them. -/
theorem eq_singleton_of_byteLen {sts : List Statement} (hne : ∀ st ∈ sts, st.text ≠ [])
    {st : Statement} (hst : st ∈ sts) (hlen : byteLen st.text = byteLen (texts sts)) :
    sts = [st] := by
  cases sts with
  | nil => cases hst
  | cons first sts =>
      rw [texts, List.flatMap_cons, byteLen_append] at hlen
      have hfirst := byteLen_pos (hne first List.mem_cons_self)
      rcases List.mem_cons.mp hst with rfl | hst
      · cases sts with
        | nil => rfl
        | cons next sts =>
            have hnext := byteLen_pos (hne next (List.mem_cons_of_mem _ List.mem_cons_self))
            rw [List.flatMap_cons, byteLen_append] at hlen
            omega
      · have hle : byteLen st.text ≤ byteLen (sts.flatMap Statement.text) := byteLen_text_le hst
        omega

/-! ## Moved cursors -/

/-- A text that is split into complete statements, with nothing left. -/
structure Consumed (edgeql : Edgeql) (a : Text) (sts : List Statement) : Prop where
  splits : Splits edgeql a sts []
  complete : ∀ st ∈ sts, st.Complete

def shift (n : Nat) (r : Nat × Current) : Nat × Current := (n + r.1, r.2)

theorem Consumed.texts_eq {a : Text} {sts : List Statement} (h : Consumed edgeql a sts) :
    texts sts = a := by
  rw [h.splits.split, List.append_nil]

theorem Lands.unique {data before rest : Text} {pos : Nat} {r r' : Nat × Current}
    (h : Lands edgeql data pos before rest r) (h' : Lands edgeql data pos before rest r')
    (hdata : data = before ++ rest) : r = r' := by
  have heq := h.currentFrom hdata (Nat.lt_succ_self _)
  rw [h'.currentFrom hdata (Nat.lt_succ_self _)] at heq
  exact (Option.some.inj heq).symm

/-- The turns behind the first one are the same behind other text. -/
theorem Lands.shift {a b before rest : Text} {c : Nat} {r : Nat × Current} (ha : a ≠ [])
    (h : Lands edgeql b c before rest r) (hb : b = before ++ rest)
    (hfirst : before = [] → ∀ s, Begins edgeql rest (.backslash s) [] → c < byteLen s) :
    Lands edgeql (a ++ b) (byteLen a + c) (a ++ before) rest (shift (byteLen a) r) := by
  have hpos := byteLen_pos ha
  have hoffset : ∀ t : Text, byteLen a + byteLen t = byteLen (a ++ t) :=
    fun t => (byteLen_append a t).symm
  induction h with
  | @empty before rest hempty =>
      rw [Completion.shift, hoffset]
      exact .empty hempty
  | @unfinished before rest cont hempty hback hfull =>
      rw [Completion.shift, hoffset]
      exact .unfinished hempty hback hfull
  | @stops before rest behind st hbegins hstops =>
      rw [Completion.shift, hoffset]
      refine .stops hbegins (.inl ?_)
      have hlt : c < byteLen (before ++ st.text) := by
        rcases hstops with hlt | ⟨s, rfl, hlen⟩
        · exact hlt
        · -- the command fills the line, and nothing stands before or behind it
          have hsplit := congrArg byteLen (hb.trans (congrArg (before ++ ·) hbegins.split))
          simp only [byteLen_append, Statement.text] at hsplit
          obtain rfl : before = [] := byteLen_eq_zero.mp (by omega)
          obtain rfl : behind = [] := byteLen_eq_zero.mp (by omega)
          exact hfirst rfl s hbegins
      rw [List.append_assoc, byteLen_append a]
      omega
  | @goesOn before rest behind st r hbegins hstops hlands ih =>
      obtain ⟨hle, -⟩ := not_or.mp hstops
      have hsplit : b = before ++ st.text ++ behind := by
        rw [hb, hbegins.split, List.append_assoc]
      refine .goesOn hbegins ?_ ?_
      · rintro (hlt | ⟨s, rfl, hlen⟩)
        · rw [List.append_assoc, byteLen_append a] at hlt
          omega
        · have hlenb := congrArg byteLen hsplit
          simp only [byteLen_append, Statement.text] at hlenb hlen
          omega
      · rw [List.append_assoc]
        refine ih hsplit fun hnil => ?_
        exact absurd (List.append_eq_nil_iff.mp hnil).2 hbegins.nonempty

end GelCli.Repl.Completion
