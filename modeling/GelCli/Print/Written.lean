import GelCli.Foundation.JsonText
import GelCli.Print.Rules

/-!
# What an operation writes

The rules of `Prints` leave layout and trailing commas aside. Without trailing commas the
text itself can be said: `Adds` says what an operation that returns has written behind all
that was there, and the rule for blocks shows that a rollback loses nothing and leaves nothing
behind.
-/

namespace GelCli.Print

open GelCli.Foundation
open GelCli.Foundation.JsonText

variable {cfg : PrinterConfig}

/-! ## Texts -/

def CString.text (s : CString) : Text := s.toStr.toList

def textOf (strings : List CString) : Text := strings.flatMap CString.text

@[simp] theorem textOf_append (a b : List CString) : textOf (a ++ b) = textOf a ++ textOf b :=
  List.flatMap_append

@[simp] theorem textOf_singleton (s : CString) : textOf [s] = s.text := List.append_nil _

/-- All that has been written and not rolled back. -/
def written (p : Printer) : Text := textOf (p.stream ++ p.buffer)

theorem renderAll_toList (hcolors : cfg.colors = false) (strings : List CString) :
    (renderAll cfg strings).toList = textOf strings := by
  induction strings with
  | nil => rfl
  | cons s strings ih =>
      rw [renderAll, List.map_cons, String.join_cons, String.toList_append]
      rw [renderAll] at ih
      rw [ih, render, hcolors]
      rfl

/-! ## Operations -/

/-- Whenever the operation returns, it has added such a text. -/
def Adds (op : Printer → Except Printer Printer) (adds : Delim → Text → Delim → Prop) : Prop :=
  ∀ p p', op p = .ok p' → ∃ t, written p' = written p ++ t ∧ adds p.delim t p'.delim

theorem Adds.mono {op : Printer → Except Printer Printer} {adds adds' : Delim → Text → Delim → Prop}
    (h : Adds op adds) (himp : ∀ d t d', adds d t d' → adds' d t d') : Adds op adds' := by
  intro p p' hop
  obtain ⟨t, hwritten, ht⟩ := h p p' hop
  exact ⟨t, hwritten, himp _ _ _ ht⟩

theorem Adds.seq {f g : Printer → Except Printer Printer} {A B : Delim → Text → Delim → Prop}
    (hf : Adds f A) (hg : Adds g B) : Adds (fun p => f p >>= g)
      (fun d t d' => ∃ a b mid, A d a mid ∧ B mid b d' ∧ t = a ++ b) := by
  intro p p' hop
  cases hmid : f p with
  | error q =>
      simp only [hmid, bind, Except.bind] at hop
      cases hop
  | ok q =>
      simp only [hmid, bind, Except.bind] at hop
      obtain ⟨a, hwritten, ha⟩ := hf p q hmid
      obtain ⟨b, hwritten', hb⟩ := hg q p' hop
      exact ⟨a ++ b, by rw [hwritten', hwritten, List.append_assoc], a, b, q.delim, ha, hb, rfl⟩

theorem adds_skip : Adds (fun p => .ok p) (fun d t d' => t = [] ∧ d' = d) := by
  intro p p' hop
  obtain rfl := Except.ok.inj hop
  exact ⟨[], (List.append_nil _).symm, rfl, rfl⟩

theorem advance_state {p p' : Printer} {graphemes : List String}
    (h : advance p graphemes = .ok p') : ∃ c, p' = { p with column := c } := by
  induction graphemes generalizing p with
  | nil => exact ⟨p.column, (Except.ok.inj h).symm⟩
  | cons g graphemes ih =>
      rw [advance] at h
      split at h
      · split at h
        · cases h
        · obtain ⟨c, rfl⟩ := ih h
          exact ⟨c, rfl⟩
      · obtain ⟨c, rfl⟩ := ih h
        exact ⟨c, rfl⟩

theorem write_ok {p p' : Printer} {s : CString} (h : write cfg s p = .ok p') :
    ∃ c, p' = { p with column := c, buffer := p.buffer ++ [s] } := by
  rw [write] at h
  cases hadvance : advance p (cfg.graphemes s.toStr) with
  | error q =>
      rw [hadvance] at h
      cases h
  | ok q =>
      rw [hadvance] at h
      obtain ⟨c, rfl⟩ := advance_state hadvance
      simp only [bind, Except.bind] at h
      split at h
      · cases h
      · exact ⟨c, (Except.ok.inj h).symm⟩

theorem written_push (p : Printer) (c : Nat) (s : CString) :
    written { p with column := c, buffer := p.buffer ++ [s] } = written p ++ s.text := by
  rw [written, written, ← List.append_assoc, textOf_append, textOf_singleton]

variable (cfg) in
theorem adds_write (s : CString) :
    Adds (write cfg s) (fun d t d' => t = s.text ∧ d' = d) := by
  intro p p' hop
  obtain ⟨c, rfl⟩ := write_ok hop
  exact ⟨s.text, written_push p c s, rfl, rfl⟩

/-! ## Layout -/

theorem text_newline : (unstyled [.newline]).text = ['\n'] := rfl

theorem blank_newline : Blank ['\n'] := by
  intro c hc
  rw [List.mem_singleton.mp hc]
  rfl

theorem text_spaces (n : Nat) : (unstyled [.spaces n]).text = List.replicate n ' ' := by
  show (String.join [String.ofList (List.replicate n ' ')]).toList = _
  rw [String.join_cons, String.join_nil, String.append_empty, String.toList_ofList]

theorem blank_spaces (n : Nat) : Blank (unstyled [.spaces n]).text := by
  intro c hc
  rw [text_spaces] at hc
  rw [List.eq_of_mem_replicate hc]
  rfl

theorem written_commitLine (p : Printer) : written (commitLine p) = written p ++ ['\n'] := by
  simp [written, commitLine, flushBuf, text_newline]

theorem written_writeIndent (p : Printer) :
    written (writeIndent p) = written p ++ (unstyled [.spaces p.curIndent]).text := by
  simp [written, writeIndent]

theorem written_commit (p : Printer) : written (commit cfg p) = written p := by
  rw [written, (commit_eq cfg p).2.1, written]

/-- The comma that is owed. -/
def owed (d : Delim) : Text := if d = .comma then [','] else []

/-- The comma that is owed is written, on a line of its own outside flow. -/
def payComma (cfg : PrinterConfig) (p : Printer) : Except Printer Printer :=
  if p.delim = .comma then
    if p.flow then write cfg (unstyled [.comma, .spaces 1]) p
    else write cfg (unstyled [.comma]) p >>= fun p => .ok (commitLine p)
  else .ok p

def indentLine (p : Printer) : Printer :=
  { (if !p.flow && p.delim ≠ .field then writeIndent p else p) with delim := .none }

theorem delimit_eq (p : Printer) :
    delimit cfg p = payComma cfg p >>= fun p => .ok (indentLine p) := by
  rw [delimit, payComma]
  by_cases hdelim : p.delim = .comma
  · simp only [if_pos hdelim]
    cases p.flow with
    | true => rfl
    | false =>
        cases write cfg (unstyled [.comma]) p <;> rfl
  · simp only [if_neg hdelim]
    rfl

variable (cfg) in
theorem adds_payComma :
    Adds (payComma cfg) (fun d t _ => ∃ blanks, Blank blanks ∧ t = owed d ++ blanks) := by
  intro p p' hop
  rw [payComma] at hop
  by_cases hdelim : p.delim = .comma
  · rw [if_pos hdelim] at hop
    have howed : ∀ blanks, owed p.delim ++ blanks = ',' :: blanks := by
      intro blanks
      rw [owed, if_pos hdelim]
      rfl
    -- in flow the comma is followed by a blank, out of flow by a new line
    cases hflow : p.flow with
    | true =>
        rw [hflow, if_pos rfl] at hop
        obtain ⟨t, hwritten, rfl, -⟩ := adds_write cfg _ p p' hop
        exact ⟨_, hwritten, [' '], List.all_eq_true.mp (by decide +kernel), (howed _).symm⟩
    | false =>
        rw [hflow, if_neg (by decide)] at hop
        cases hwrite : write cfg (unstyled [.comma]) p with
        | error q =>
            rw [hwrite] at hop
            cases hop
        | ok q =>
            rw [hwrite] at hop
            obtain rfl := Except.ok.inj hop
            obtain ⟨t, hwritten, rfl, -⟩ := adds_write cfg _ p q hwrite
            refine ⟨[',', '\n'], ?_, ['\n'], blank_newline, (howed _).symm⟩
            rw [written_commitLine, hwritten, List.append_assoc]
            rfl
  · rw [if_neg hdelim] at hop
    obtain rfl := Except.ok.inj hop
    have howed : owed p.delim = [] := if_neg hdelim
    exact ⟨[], (List.append_nil _).symm, [], blank_nil, by rw [howed]; rfl⟩

theorem written_indentLine (p : Printer) :
    ∃ blanks, Blank blanks ∧ written (indentLine p) = written p ++ blanks := by
  rw [indentLine]
  split
  · exact ⟨_, blank_spaces p.curIndent, written_writeIndent p⟩
  · exact ⟨[], blank_nil, (List.append_nil _).symm⟩

variable (cfg) in
theorem adds_delimit :
    Adds (delimit cfg) (fun d t d' =>
      d' = .none ∧ ∃ blanks, Blank blanks ∧ t = owed d ++ blanks) := by
  intro p p' hop
  rw [delimit_eq] at hop
  cases hpay : payComma cfg p with
  | error q =>
      rw [hpay] at hop
      cases hop
  | ok q =>
      rw [hpay] at hop
      obtain rfl := Except.ok.inj hop
      obtain ⟨_, hwritten, blanks, hblanks, rfl⟩ := adds_payComma cfg p q hpay
      obtain ⟨blanks', hblanks', hwritten'⟩ := written_indentLine q
      refine ⟨owed p.delim ++ (blanks ++ blanks'), ?_, rfl, _, hblanks.append hblanks', rfl⟩
      rw [hwritten', hwritten]
      simp only [List.append_assoc]

/-- Without trailing commas only the delimiter changes. -/
theorem adds_comma (htrailing : cfg.trailingComma = false) :
    Adds (comma cfg) (fun _ t d' => t = [] ∧ d' = .comma) := by
  intro p p' hop
  rw [comma, htrailing, Bool.not_false, Bool.or_true, if_pos rfl] at hop
  obtain rfl := Except.ok.inj hop
  exact ⟨[], (List.append_nil _).symm, rfl, rfl⟩

variable (cfg) in
/-- Before a closing bracket the comma that is owed is dropped. -/
theorem written_beforeClose (p : Printer) :
    ∃ blanks, Blank blanks ∧ written (beforeClose cfg p) = written p ++ blanks ∧
      (beforeClose cfg p).delim = .none := by
  have hline : ∃ blanks, Blank blanks ∧
      written (if p.delim = .comma && !p.flow then commitLine p else p) = written p ++ blanks := by
    split
    · exact ⟨_, blank_newline, written_commitLine p⟩
    · exact ⟨[], blank_nil, (List.append_nil _).symm⟩
  obtain ⟨blanks, hblanks, hwritten⟩ := hline
  rw [beforeClose]
  generalize (if p.delim = .comma && !p.flow then commitLine p else p) = q at hwritten ⊢
  simp only
  split
  · refine ⟨blanks ++ (unstyled [.spaces (q.curIndent - cfg.indent)]).text,
      hblanks.append (blank_spaces _), ?_, rfl⟩
    rw [written_writeIndent, ← List.append_assoc, ← hwritten]
    rfl
  · exact ⟨blanks, hblanks, hwritten, rfl⟩

variable (cfg) in
theorem adds_closeBlock (val : CString) (flag : Bool) :
    Adds (closeBlock cfg val flag)
      (fun _ t d' => d' = .none ∧ ∃ blanks, Blank blanks ∧ t = blanks ++ val.text) := by
  intro p p' hop
  obtain ⟨blanks, hblanks, hwritten, hdelim⟩ := written_beforeClose cfg p
  rw [closeBlock_eq] at hop
  cases hwrite : write cfg val (beforeClose cfg p) with
  | error q =>
      rw [hwrite] at hop
      cases hop
  | ok q =>
      rw [hwrite] at hop
      obtain rfl := Except.ok.inj hop
      obtain ⟨t, hwritten', rfl, hdelim'⟩ := adds_write cfg val _ q hwrite
      refine ⟨blanks ++ val.text, ?_, ?_, blanks, hblanks, rfl⟩
      · rw [← List.append_assoc, ← hwritten, ← hwritten']
        cases flag <;> rfl
      · rw [hdelim] at hdelim'
        cases flag <;> exact hdelim'

/-! ## Blocks -/

/-- What opening a block leaves: where no other block has the line, all text is committed. -/
structure OpenedBlock (p p₁ : Printer) (val : CString) (flag : Bool) : Prop where
  written : written p₁ = written p ++ val.text
  delim : p₁.delim = .none
  own : flag = !p.flow
  flow : p₁.flow = true
  committed : flag = true → p₁.committed = p₁.buffer.length

theorem openBlock_eq_bind (val : CString) (p : Printer) :
    openBlock cfg val p = write cfg val { p with delim := .none } >>= fun p =>
      if p.flow then .ok (false, p) else .ok (true, { commit cfg p with flow := true }) := rfl

theorem openBlock_returns {p : Printer} (val : CString) (hflow : p.flow = false) :
    ∃ p₁, openBlock cfg val p = .ok (true, p₁) := by
  obtain ⟨c, hwrite⟩ := @write_broken cfg { p with delim := .none } hflow val
  rw [openBlock_eq_bind, hwrite]
  exact ⟨_, if_neg (by rw [hflow]; exact Bool.false_ne_true)⟩

theorem openBlock_ok {p p₁ : Printer} {val : CString} {flag : Bool}
    (h : openBlock cfg val p = .ok (flag, p₁)) : OpenedBlock p p₁ val flag := by
  rw [openBlock_eq_bind] at h
  cases hwrite : write cfg val { p with delim := .none } with
  | error q =>
      rw [hwrite] at h
      cases h
  | ok q =>
      rw [hwrite] at h
      obtain ⟨c, rfl⟩ := write_ok hwrite
      have hwritten := written_push { p with delim := .none } c val
      cases hflow : p.flow with
      | true =>
          simp only [bind, Except.bind, hflow, if_true] at h
          cases h
          exact ⟨hwritten, rfl, by rw [hflow]; rfl, rfl, fun h => (by cases h)⟩
      | false =>
          simp only [bind, Except.bind, hflow] at h
          cases h
          obtain ⟨hcommitted, -, -, -, hdelim⟩ := commit_eq cfg
            { p with delim := .none, flow := false, column := c, buffer := p.buffer ++ [val] }
          exact ⟨(written_commit _).trans hwritten, hdelim, by rw [hflow]; rfl, rfl,
            fun _ => hcommitted⟩

variable (cfg) in
/-- **A rollback** puts the text back to what it was when the block was opened. -/
theorem written_reopenBlock {p₁ p₂ : Printer} (hcommitted : p₁.committed = p₁.buffer.length)
    (hkept : Kept p₁ p₂) :
    written (reopenBlock cfg p₂) = written p₁ ++ ['\n'] ∧ (reopenBlock cfg p₂).delim = .none ∧
      (reopenBlock cfg p₂).flow = false := by
  have htake : p₂.buffer.take p₂.committed = p₁.buffer := by
    obtain ⟨added, hadded⟩ := hkept.buffer
    rw [hkept.committed, hcommitted, ← hadded, List.take_left]
  refine ⟨?_, rfl, rfl⟩
  have hline := written_commitLine (rollback { p₂ with delim := .none, flow := false })
  have hback : written (rollback { p₂ with delim := .none, flow := false }) = written p₁ := by
    show textOf (p₂.stream ++ p₂.buffer.take p₂.committed) = textOf (p₁.stream ++ p₁.buffer)
    rw [htake, hkept.stream]
  rw [← hback]
  exact hline

theorem write_error {p p' : Printer} {s : CString} (hflow : p.flow = true)
    (h : write cfg s p = .error p') : ∃ c, p' = { p with column := c } := by
  cases hput : put cfg s (p.delim, p.column) with
  | some pos =>
      rw [(write_fit cfg hflow hput).1] at h
      cases h
  | none =>
      obtain ⟨c, heq⟩ := write_overflow cfg hflow hput
      exact ⟨c, Except.error.inj (h.symm.trans heq)⟩

section Blocks

variable {f : Printer → Except Printer Printer} {F : Pos → Option Pos} {S : List Token → Prop}
  {pre post : Delim → Prop}

theorem Prints.ok_flows (hf : Prints pre post f F S) {p p' : Printer} (hflow : p.flow = true)
    (hpre : pre p.delim) (h : f p = .ok p') : Kept p p' ∧ p'.flow = true := by
  cases hfits : F (p.delim, p.column) with
  | some pos =>
      obtain ⟨q, ts, hop, hflows, -⟩ := hf.fit p pos hflow hpre hfits
      obtain rfl := Except.ok.inj (h.symm.trans hop)
      exact ⟨hflows.kept, hflows.flow⟩
  | none =>
      obtain ⟨q, hop, -⟩ := hf.overflow p hflow hpre hfits
      rw [h] at hop
      cases hop

theorem Prints.error_kept (hf : Prints pre post f F S) {p p' : Printer} (hflow : p.flow = true)
    (hpre : pre p.delim) (h : f p = .error p') : Kept p p' := by
  cases hfits : F (p.delim, p.column) with
  | some pos =>
      obtain ⟨q, ts, hop, -⟩ := hf.fit p pos hflow hpre hfits
      rw [h] at hop
      cases hop
  | none =>
      obtain ⟨q, hop, hkept, -⟩ := hf.overflow p hflow hpre hfits
      obtain rfl := Except.error.inj (h.symm.trans hop)
      exact hkept

/-- An attempt that fails has only written behind the opening bracket. -/
theorem attempt_kept (hf : Prints pre anyDelim f F S) {closing : CString} {flag : Bool}
    {p p' : Printer} (hflow : p.flow = true) (hpre : pre p.delim)
    (h : (f p >>= closeBlock cfg closing flag) = .error p') : Kept p p' := by
  cases hop : f p with
  | error q =>
      rw [hop] at h
      obtain rfl := Except.error.inj h
      exact hf.error_kept hflow hpre hop
  | ok q =>
      rw [hop] at h
      obtain ⟨hkept, hflow'⟩ := hf.ok_flows hflow hpre hop
      have hclose : closeBlock cfg closing flag q = .error p' := h
      rw [closeBlock_eq, beforeClose_flow hflow'] at hclose
      cases hwrite : write cfg closing { q with delim := .none } with
      | error q' =>
          rw [hwrite] at hclose
          obtain rfl := Except.error.inj hclose
          obtain ⟨c, rfl⟩ := @write_error cfg { q with delim := .none } q' closing hflow' hwrite
          exact hkept.trans ⟨rfl, rfl, rfl, rfl, List.prefix_refl _⟩
      | ok q' =>
          rw [hwrite] at hclose
          cases hclose

theorem closeBlock_returns {p : Printer} (closing : CString) (flag : Bool)
    (hflow : p.flow = false) : ∃ p', closeBlock cfg closing flag p = .ok p' := by
  obtain ⟨c, hwrite⟩ := write_broken cfg (beforeClose_broken cfg hflow).1 closing
  rw [closeBlock_eq, hwrite]
  exact ⟨_, rfl⟩

variable {A : Delim → Text → Delim → Prop}

/-- What a block writes: its contents between its brackets, with blanks at their ends. -/
def blockAdds (A : Delim → Text → Delim → Prop) (opening closing : CString) (t : Text) : Prop :=
  ∃ before inner after d, Blank before ∧ Blank after ∧ A .none inner d ∧
    t = opening.text ++ before ++ inner ++ after ++ closing.text

theorem attempt_adds (hadds : Adds f A) {closing : CString} {flag : Bool} {p p' : Printer}
    (hdelim : p.delim = .none) (h : (f p >>= closeBlock cfg closing flag) = .ok p') :
    ∃ inner after d, Blank after ∧ A .none inner d ∧ p'.delim = .none ∧
      written p' = written p ++ (inner ++ after ++ closing.text) := by
  obtain ⟨t, hwritten, inner, _, d, hinner, ⟨hnone, after, hafter, rfl⟩, rfl⟩ :=
    hadds.seq (adds_closeBlock cfg closing flag) p p' h
  rw [hdelim] at hinner
  exact ⟨inner, after, d, hafter, hinner, hnone, by rw [hwritten, List.append_assoc]⟩

/-- **A block writes its contents once**, whether it stays on the line or is rolled back. -/
theorem adds_block (hf : Prints pre anyDelim f F S) (hpre : pre .none) (hadds : Adds f A)
    (opening closing : CString) :
    Adds (block cfg opening f closing)
      (fun _ t d' => d' = .none ∧ blockAdds A opening closing t) := by
  intro p p' hop
  rw [block_eq] at hop
  cases hopen : openBlock cfg opening p with
  | error q =>
      rw [hopen] at hop
      cases hop
  | ok opened =>
      obtain ⟨flag, p₁⟩ := opened
      have hopened := openBlock_ok hopen
      rw [hopen] at hop
      have hattempt : blockAttempt cfg f closing flag p₁ = .ok p' := hop
      rw [blockAttempt] at hattempt
      -- what a first attempt that fails has written is rolled back before the second one
      cases hfirst : f p₁ >>= closeBlock cfg closing flag with
      | ok q =>
          rw [hfirst] at hattempt
          obtain rfl := Except.ok.inj hattempt
          obtain ⟨inner, after, d, hafter, hinner, hdelim, hwritten⟩ :=
            attempt_adds hadds hopened.delim hfirst
          refine ⟨_, ?_, hdelim, [], inner, after, d, blank_nil, hafter, hinner, rfl⟩
          rw [hwritten, hopened.written]
          simp only [List.append_assoc, List.append_nil]
      | error p₂ =>
          rw [hfirst] at hattempt
          cases flag with
          | false => cases hattempt
          | true =>
              have hkept := attempt_kept hf hopened.flow (hopened.delim ▸ hpre) hfirst
              obtain ⟨hreopened, hdelim₂, -⟩ :=
                written_reopenBlock cfg (hopened.committed rfl) hkept
              obtain ⟨inner, after, d, hafter, hinner, hdelim, hwritten⟩ :=
                attempt_adds hadds hdelim₂ hattempt
              refine ⟨_, ?_, hdelim, ['\n'], inner, after, d, blank_newline, hafter, hinner, rfl⟩
              rw [hwritten, hreopened, hopened.written]
              simp only [List.append_assoc]

/-- Outside flow a block always returns. -/
theorem block_returns (hf : Prints pre anyDelim f F S) (hpre : pre .none)
    (opening closing : CString) {p : Printer} (hflow : p.flow = false) : ∃ p', block cfg opening f closing p = .ok p' := by
  obtain ⟨p₁, hopen⟩ := openBlock_returns opening hflow
  have hopened := openBlock_ok hopen
  rw [block_eq, hopen]
  show ∃ p', blockAttempt cfg f closing true p₁ = .ok p'
  rw [blockAttempt]
  cases hfirst : f p₁ >>= closeBlock cfg closing true with
  | ok q => exact ⟨q, rfl⟩
  | error p₂ =>
      have hkept := attempt_kept hf hopened.flow (hopened.delim ▸ hpre) hfirst
      obtain ⟨-, hdelim, hflow'⟩ := written_reopenBlock cfg (hopened.committed rfl) hkept
      obtain ⟨q, ts, hop, hbroken, -⟩ := hf.broken _ hflow' (hdelim ▸ hpre)
      simp only [if_true]
      rw [hop]
      exact closeBlock_returns closing true hbroken

end Blocks

end GelCli.Print
