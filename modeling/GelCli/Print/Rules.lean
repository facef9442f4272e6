import Mathlib.Tactic.Set
import GelCli.Print.Content

/-!
# Rules for printer operations

`Prints pre post op fits shows` says everything later proofs need to know about
an operation. On one line it succeeds exactly when the position (the pending
delimiter and the column) has a successor under `fits`, and when it throws it
has only appended to the buffer; with the line broken up it never throws. In
both layouts it adds a text from `shows`. The rules compose such statements, and
the rule for blocks contains the rollback.
-/

namespace GelCli.Print

variable (cfg : PrinterConfig)

/-! ## Positions on a line -/

/-- The pending delimiter and the column. -/
abbrev Pos := Delim × Nat

def put (s : CString) (pos : Pos) : Option Pos :=
  let graphemes := cfg.graphemes s.toStr
  if "\n" ∈ graphemes ∨ cfg.maxWidth < pos.2 + graphemes.length then none
  else some (pos.1, pos.2 + graphemes.length)

def fitDelimit (pos : Pos) : Option Pos :=
  if pos.1 = .comma then put cfg (unstyled [.comma, .spaces 1]) pos |>.map fun pos => (.none, pos.2)
  else some (.none, pos.2)

def fitComma (pos : Pos) : Option Pos := some (.comma, pos.2)

def fitDots (pos : Pos) : Option Pos := fitDelimit cfg pos >>= put cfg (unstyled [.dots])

def fitClose (val : CString) (pos : Pos) : Option Pos := put cfg val (.none, pos.2)

/-! ## What a printer shows -/

/-- The tokens printed so far, with the comma the printer still owes. -/
def shown (p : Printer) : List Token :=
  tokens (p.stream ++ p.buffer) ++ if p.delim = .comma then [.comma] else []

theorem shown_of_delim {p : Printer} (h : p.delim ≠ .comma) :
    shown p = tokens (p.stream ++ p.buffer) := by
  simp [shown, h]

/-- Equal but for trailing commas. -/
def Same (a b : List Token) : Prop := strip a = strip b

theorem Same.trans_append {a b c ts us : List Token} (hab : Same b (a ++ ts))
    (hbc : Same c (b ++ us)) : Same c (a ++ (ts ++ us)) := by
  unfold Same at *
  rw [hbc, strip_append_left hab, List.append_assoc]

/-- Nothing the printer could roll back to has changed: the buffer has grown. -/
structure Kept (p p' : Printer) : Prop where
  stream : p'.stream = p.stream
  committed : p'.committed = p.committed
  committedIndent : p'.committedIndent = p.committedIndent
  curIndent : p'.curIndent = p.curIndent
  buffer : p.buffer <+: p'.buffer

theorem Kept.refl (p : Printer) : Kept p p := ⟨rfl, rfl, rfl, rfl, List.prefix_refl _⟩

theorem Kept.trans {p q r : Printer} (h : Kept p q) (h' : Kept q r) : Kept p r :=
  ⟨h'.stream.trans h.stream, h'.committed.trans h.committed,
    h'.committedIndent.trans h.committedIndent, h'.curIndent.trans h.curIndent,
    h.buffer.trans h'.buffer⟩

/-- A successful operation on one line. -/
structure Flows (p p' : Printer) (pos : Pos) : Prop where
  kept : Kept p p'
  flow : p'.flow = true
  pos : (p'.delim, p'.column) = pos

theorem Flows.trans {p q r : Printer} {pos pos' : Pos} (h : Flows p q pos)
    (h' : Flows q r pos') : Flows p r pos' :=
  ⟨h.kept.trans h'.kept, h'.flow, h'.pos⟩

/-- An operation, where it fits on a line and what it shows. -/
structure Prints (pre post : Delim → Prop) (op : Printer → Except Printer Printer)
    (fits : Pos → Option Pos) (shows : List Token → Prop) : Prop where
  fit : ∀ p pos, p.flow = true → pre p.delim → fits (p.delim, p.column) = some pos →
    ∃ p' ts, op p = .ok p' ∧ Flows p p' pos ∧ post p'.delim ∧
      shows ts ∧ Same (shown p') (shown p ++ ts)
  overflow : ∀ p, p.flow = true → pre p.delim → fits (p.delim, p.column) = none →
    ∃ p', op p = .error p' ∧ Kept p p' ∧ p'.flow = true
  broken : ∀ p, p.flow = false → pre p.delim →
    ∃ p' ts, op p = .ok p' ∧ p'.flow = false ∧ p'.curIndent = p.curIndent ∧
      post p'.delim ∧ shows ts ∧ Same (shown p') (shown p ++ ts)

def anyDelim : Delim → Prop := fun _ => True

def noDelim : Delim → Prop := fun delim => delim = .none

/-! ## Writing -/

theorem advance_flow {p : Printer} (hflow : p.flow = true) (graphemes : List String) :
    ("\n" ∈ graphemes ∧ ∃ c, advance p graphemes = .error { p with column := c }) ∨
      ("\n" ∉ graphemes ∧
        advance p graphemes = .ok { p with column := p.column + graphemes.length }) := by
  induction graphemes generalizing p with
  | nil => exact Or.inr ⟨List.not_mem_nil, rfl⟩
  | cons g graphemes ih =>
      unfold advance
      by_cases hg : g = "\n"
      · refine Or.inl ⟨by simp [hg], p.column, ?_⟩
        rw [if_pos hg, if_pos hflow]
      · rw [if_neg hg]
        rcases @ih { p with column := p.column + 1 } hflow with ⟨hmem, c, heq⟩ | ⟨hmem, heq⟩
        · exact Or.inl ⟨List.mem_cons_of_mem _ hmem, c, heq⟩
        · refine Or.inr ⟨by simp [Ne.symm hg, hmem], ?_⟩
          rw [heq, List.length_cons, Nat.add_assoc, Nat.add_comm 1]

theorem advance_broken {p : Printer} (hflow : p.flow = false) (graphemes : List String) :
    ∃ c, advance p graphemes = .ok { p with column := c } := by
  induction graphemes generalizing p with
  | nil => exact ⟨p.column, rfl⟩
  | cons g graphemes ih =>
      unfold advance
      by_cases hg : g = "\n"
      · obtain ⟨c, heq⟩ := @ih { p with column := 0 } hflow
        exact ⟨c, by simpa [hg, hflow] using heq⟩
      · obtain ⟨c, heq⟩ := @ih { p with column := p.column + 1 } hflow
        exact ⟨c, by simpa [hg] using heq⟩

theorem write_fit {p : Printer} {s : CString} {pos : Pos} (hflow : p.flow = true)
    (hput : put cfg s (p.delim, p.column) = some pos) :
    write cfg s p = .ok { p with column := pos.2, buffer := p.buffer ++ [s] } ∧
      pos.1 = p.delim := by
  simp only [put] at hput
  split at hput
  · cases hput
  · next hfit =>
      rw [not_or] at hfit
      obtain rfl := Option.some.inj hput
      rcases advance_flow hflow (cfg.graphemes s.toStr) with ⟨hmem, -⟩ | ⟨-, heq⟩
      · exact absurd hmem hfit.1
      · refine ⟨?_, rfl⟩
        simp only [write, heq, bind, Except.bind]
        rw [if_neg fun h => hfit.2 h.2]

theorem write_overflow {p : Printer} {s : CString} (hflow : p.flow = true)
    (hput : put cfg s (p.delim, p.column) = none) :
    ∃ c, write cfg s p = .error { p with column := c } := by
  simp only [put] at hput
  split at hput
  · next hover =>
      rcases advance_flow hflow (cfg.graphemes s.toStr) with ⟨-, c, heq⟩ | ⟨hmem, heq⟩
      · exact ⟨c, by simp [write, heq, bind, Except.bind]⟩
      · refine ⟨p.column + (cfg.graphemes s.toStr).length, ?_⟩
        simp only [write, heq, bind, Except.bind]
        rw [if_pos ⟨hflow, hover.resolve_left hmem⟩]
  · cases hput

theorem write_broken {p : Printer} (hflow : p.flow = false) (s : CString) :
    ∃ c, write cfg s p = .ok { p with column := c, buffer := p.buffer ++ [s] } := by
  obtain ⟨c, heq⟩ := advance_broken hflow (cfg.graphemes s.toStr)
  refine ⟨c, ?_⟩
  simp only [write, heq, bind, Except.bind]
  rw [if_neg fun h => by simp [hflow] at h]

theorem prints_write (s : CString) :
    Prints noDelim noDelim (write cfg s) (put cfg s) (fun ts => ts = s.tokens) where
  fit := by
    intro p pos hflow hdelim hput
    obtain ⟨heq, hpos⟩ := write_fit cfg hflow hput
    refine ⟨_, _, heq, ⟨⟨rfl, rfl, rfl, rfl, List.prefix_append _ _⟩, hflow, ?_⟩,
      hdelim, rfl, ?_⟩
    · exact Prod.ext hpos.symm rfl
    · have hdelim : p.delim = .none := hdelim
      simp [Same, shown, hdelim]
  overflow := by
    intro p hflow hdelim hput
    obtain ⟨c, heq⟩ := write_overflow cfg hflow hput
    exact ⟨_, heq, ⟨rfl, rfl, rfl, rfl, List.prefix_refl _⟩, hflow⟩
  broken := by
    intro p hflow hdelim
    obtain ⟨c, heq⟩ := write_broken cfg hflow s
    refine ⟨_, _, heq, hflow, rfl, hdelim, rfl, ?_⟩
    have hdelim : p.delim = .none := hdelim
    simp [Same, shown, hdelim]

/-! ## Sequences -/

/-- Concatenation of texts. -/
def seqShows (shows shows' : List Token → Prop) (ts : List Token) : Prop :=
  ∃ a b, shows a ∧ shows' b ∧ ts = a ++ b

variable {cfg}

theorem Prints.seq {pre mid post : Delim → Prop} {f g : Printer → Except Printer Printer}
    {F G : Pos → Option Pos} {S T : List Token → Prop} (hf : Prints pre mid f F S)
    (hg : Prints mid post g G T) :
    Prints pre post (fun p => f p >>= g) (fun pos => F pos >>= G) (seqShows S T) where
  fit := by
    intro p pos hflow hpre hfits
    -- in flow `g` starts where `f` stopped, and both must fit
    cases hF : F (p.delim, p.column) with
    | none =>
        rw [hF] at hfits
        cases hfits
    | some pos' =>
        rw [hF] at hfits
        obtain ⟨p', ts, hop, hflows, hmid, hts, hsame⟩ := hf.fit p pos' hflow hpre hF
        have hG : G (p'.delim, p'.column) = some pos := by
          rw [hflows.pos]
          exact hfits
        obtain ⟨p'', ts', hop', hflows', hpost, hts', hsame'⟩ :=
          hg.fit p' pos hflows.flow hmid hG
        refine ⟨p'', ts ++ ts', ?_, hflows.trans hflows', hpost, ⟨ts, ts', hts, hts', rfl⟩,
          hsame.trans_append hsame'⟩
        simpa [hop, bind, Except.bind] using hop'
  overflow := by
    intro p hflow hpre hfits
    -- the overflow is in `f`, or in `g` behind an `f` that fits
    cases hF : F (p.delim, p.column) with
    | none =>
        obtain ⟨p', hop, hkept, hflow'⟩ := hf.overflow p hflow hpre hF
        exact ⟨p', by simp [hop, bind, Except.bind], hkept, hflow'⟩
    | some pos' =>
        rw [hF] at hfits
        obtain ⟨p', ts, hop, hflows, hmid, -, -⟩ := hf.fit p pos' hflow hpre hF
        have hG : G (p'.delim, p'.column) = none := by
          rw [hflows.pos]
          exact hfits
        obtain ⟨p'', hop', hkept, hflow'⟩ := hg.overflow p' hflows.flow hmid hG
        refine ⟨p'', ?_, hflows.kept.trans hkept, hflow'⟩
        simpa [hop, bind, Except.bind] using hop'
  broken := by
    intro p hflow hpre
    obtain ⟨p', ts, hop, hflow', hindent, hmid, hts, hsame⟩ := hf.broken p hflow hpre
    obtain ⟨p'', ts', hop', hflow'', hindent', hpost, hts', hsame'⟩ :=
      hg.broken p' hflow' hmid
    refine ⟨p'', ts ++ ts', ?_, hflow'', hindent'.trans hindent, hpost,
      ⟨ts, ts', hts, hts', rfl⟩, hsame.trans_append hsame'⟩
    simpa [hop, bind, Except.bind] using hop'

/-- Texts may be replaced by texts that differ in trailing commas only. -/
theorem Prints.shows_mono {pre post : Delim → Prop} {op : Printer → Except Printer Printer}
    {fits : Pos → Option Pos} {S T : List Token → Prop} (h : Prints pre post op fits S)
    (hST : ∀ ts, S ts → ∃ ts', T ts' ∧ Same ts ts') : Prints pre post op fits T where
  fit := by
    intro p pos hflow hpre hfits
    obtain ⟨p', ts, hop, hflows, hpost, hts, hsame⟩ := h.fit p pos hflow hpre hfits
    obtain ⟨ts', hts', hss⟩ := hST ts hts
    exact ⟨p', ts', hop, hflows, hpost, hts', hsame.trans (strip_append_right hss _)⟩
  overflow := h.overflow
  broken := by
    intro p hflow hpre
    obtain ⟨p', ts, hop, hflow', hindent, hpost, hts, hsame⟩ := h.broken p hflow hpre
    obtain ⟨ts', hts', hss⟩ := hST ts hts
    exact ⟨p', ts', hop, hflow', hindent, hpost, hts', hsame.trans (strip_append_right hss _)⟩

theorem Prints.delim_mono {pre pre' post post' : Delim → Prop}
    {op : Printer → Except Printer Printer} {fits : Pos → Option Pos}
    {S : List Token → Prop} (h : Prints pre post op fits S)
    (hpre : ∀ delim, pre' delim → pre delim) (hpost : ∀ delim, post delim → post' delim) :
    Prints pre' post' op fits S where
  fit := by
    intro p pos hflow hp hfits
    obtain ⟨p', ts, hop, hflows, hq, hts⟩ := h.fit p pos hflow (hpre _ hp) hfits
    exact ⟨p', ts, hop, hflows, hpost _ hq, hts⟩
  overflow := fun p hflow hp => h.overflow p hflow (hpre _ hp)
  broken := by
    intro p hflow hp
    obtain ⟨p', ts, hop, hflow', hindent, hq, hts⟩ := h.broken p hflow (hpre _ hp)
    exact ⟨p', ts, hop, hflow', hindent, hpost _ hq, hts⟩

/-- The operation that does nothing. -/
theorem prints_skip : Prints anyDelim anyDelim (fun p => .ok p) some (fun ts => ts = []) where
  fit := by
    intro p pos hflow _ hfits
    refine ⟨p, [], rfl, ⟨Kept.refl p, hflow, Option.some.inj hfits⟩, trivial, rfl, ?_⟩
    rw [List.append_nil]
    rfl
  overflow := by
    intro p _ _ hfits
    cases hfits
  broken := by
    intro p hflow _
    refine ⟨p, [], rfl, hflow, rfl, trivial, rfl, ?_⟩
    rw [List.append_nil]
    rfl

/-! ## Delimiters -/

variable (cfg) in
theorem prints_delimit : Prints anyDelim noDelim (delimit cfg) (fitDelimit cfg)
    (fun ts => ts = []) where
  fit := by
    intro p pos hflow _ hfits
    by_cases hdelim : p.delim = .comma
    · simp only [fitDelimit, hdelim, if_true, Option.map_eq_some_iff] at hfits
      -- in flow the comma is written with a blank, which has to fit
      obtain ⟨pos', hput, rfl⟩ := hfits
      obtain ⟨heq, -⟩ := write_fit cfg hflow (hdelim ▸ hput)
      refine ⟨{ p with delim := .none, column := pos'.2,
                       buffer := p.buffer ++ [unstyled [.comma, .spaces 1]] }, [], ?_,
        ⟨⟨rfl, rfl, rfl, rfl, List.prefix_append _ _⟩, hflow, rfl⟩, rfl, rfl, ?_⟩
      · simp [delimit, hdelim, hflow, heq, bind, Except.bind]
      · simp [Same, shown, hdelim]
    · simp only [fitDelimit, hdelim, if_false, Option.some.injEq] at hfits
      subst hfits
      refine ⟨{ p with delim := .none }, [], ?_, ⟨⟨rfl, rfl, rfl, rfl, List.prefix_refl _⟩,
        hflow, rfl⟩, rfl, rfl, ?_⟩
      · simp [delimit, hdelim, hflow, bind, Except.bind]
      · simp [Same, shown, hdelim]
  overflow := by
    intro p hflow _ hfits
    by_cases hdelim : p.delim = .comma
    · simp only [fitDelimit, hdelim, if_true, Option.map_eq_none_iff] at hfits
      obtain ⟨c, heq⟩ := write_overflow cfg hflow (hdelim ▸ hfits)
      refine ⟨{ p with column := c }, ?_, ⟨rfl, rfl, rfl, rfl, List.prefix_refl _⟩, hflow⟩
      simp only [delimit, if_pos hdelim, if_pos hflow, heq, bind, Except.bind]
    · simp [fitDelimit, hdelim] at hfits
  broken := by
    intro p hflow _
    by_cases hdelim : p.delim = .comma
    · obtain ⟨c, heq⟩ := write_broken cfg hflow (unstyled [.comma])
      refine ⟨{ writeIndent (commitLine
          { p with column := c, buffer := p.buffer ++ [unstyled [.comma]] }) with
            delim := .none }, [], ?_, hflow, rfl, rfl, rfl, ?_⟩
      · -- out of flow the line ends behind the comma
        simp [delimit, hdelim, hflow, heq, bind, Except.bind, commitLine, flushBuf]
      · simp [Same, shown, hdelim, writeIndent, commitLine, flushBuf]
    · by_cases hfield : p.delim = .field
      · refine ⟨{ p with delim := .none }, [], ?_, hflow, rfl, rfl, rfl, ?_⟩
        · simp [delimit, hfield, bind, Except.bind]
        · simp [Same, shown, hdelim]
      · refine ⟨{ writeIndent p with delim := .none }, [], ?_, hflow, rfl, rfl, rfl, ?_⟩
        · simp [delimit, hdelim, hflow, hfield, bind, Except.bind]
        · simp [Same, shown, hdelim, writeIndent]

theorem prints_comma : Prints noDelim anyDelim (comma cfg) fitComma
    (fun ts => ts = [.comma]) where
  fit := by
    intro p pos hflow hdelim hfits
    have hdelim : p.delim = .none := hdelim
    refine ⟨{ p with delim := .comma }, _, ?_, ⟨⟨rfl, rfl, rfl, rfl, List.prefix_refl _⟩,
      hflow, Option.some.inj hfits⟩, trivial, rfl, ?_⟩
    · simp [comma, hflow]
    · simp [Same, shown, hdelim]
  overflow := by
    intro p _ _ hfits
    cases hfits
  broken := by
    intro p hflow hdelim
    have hdelim : p.delim = .none := hdelim
    cases htrailing : cfg.trailingComma with
    | true =>
        obtain ⟨c, heq⟩ := write_broken cfg hflow (unstyled [.comma])
        refine ⟨commitLine { p with column := c, buffer := p.buffer ++ [unstyled [.comma]] },
          _, ?_, hflow, rfl, trivial, rfl, ?_⟩
        · simp [comma, hflow, htrailing, heq, bind, Except.bind]
        · simp [Same, shown, hdelim, commitLine, flushBuf]
    | false =>
        refine ⟨{ p with delim := .comma }, _, ?_, hflow, rfl, trivial, rfl, ?_⟩
        · simp [comma, htrailing]
        · simp [Same, shown, hdelim]

/-- The dots themselves, with the hint when they stand on a line of their own. -/
def writeDots (cfg : PrinterConfig) (p : Printer) : Except Printer Printer :=
  if p.flow then write cfg (unstyled [.dots]) p
  else do
    let p ← write cfg (unstyled [.dots]) p
    write cfg ⟨.muted, [.hint (cfg.maxItems.getD 0), .newline]⟩ p

theorem prints_writeDots : Prints noDelim noDelim (writeDots cfg) (put cfg (unstyled [.dots]))
    (fun ts => ts = [.dots]) where
  fit := by
    intro p pos hflow hdelim hfits
    have hop : writeDots cfg p = write cfg (unstyled [.dots]) p :=
      if_pos hflow
    rw [hop]
    exact (prints_write cfg (unstyled [.dots])).fit p pos hflow hdelim hfits
  overflow := by
    intro p hflow hdelim hfits
    have hop : writeDots cfg p = write cfg (unstyled [.dots]) p :=
      if_pos hflow
    rw [hop]
    exact (prints_write cfg (unstyled [.dots])).overflow p hflow hdelim hfits
  broken := by
    intro p hflow hdelim
    have hop : writeDots cfg p = write cfg (unstyled [.dots]) p >>=
        write cfg ⟨.muted, [.hint (cfg.maxItems.getD 0), .newline]⟩ :=
      if_neg (by simp [hflow])
    have hseq := (prints_write cfg (unstyled [.dots])).seq
      (prints_write cfg ⟨.muted, [.hint (cfg.maxItems.getD 0), .newline]⟩)
    obtain ⟨p', ts, heq, hflow', hindent, hdelim', ⟨a, b, rfl, rfl, rfl⟩, hsame⟩ :=
      hseq.broken p hflow hdelim
    exact ⟨p', _, hop.trans heq, hflow', hindent, hdelim', rfl, hsame⟩

theorem prints_ellipsis : Prints anyDelim noDelim (ellipsis cfg) (fitDots cfg)
    (fun ts => ts = [.dots]) := by
  refine Prints.shows_mono (Prints.seq (prints_delimit cfg) prints_writeDots) ?_
  rintro ts ⟨a, b, rfl, rfl, rfl⟩
  exact ⟨_, rfl, rfl⟩

/-! ## Blocks -/

/-- A printer that has just opened a block of its own at `p`: the opening bracket
is committed, what follows may be rolled back. -/
structure Opened (p p' : Printer) (opening : List Token) : Prop where
  flow : p'.flow = true
  delim : p'.delim = .none
  committed : p'.committed = p'.buffer.length
  committedIndent : p'.committedIndent = p.curIndent
  curIndent : p'.curIndent = p.curIndent
  shown : shown p' = shown p ++ opening

variable (cfg) in
/-- Committing moves text at most from the buffer to the stream. -/
theorem commit_eq (p : Printer) :
    (commit cfg p).committed = (commit cfg p).buffer.length ∧
      (commit cfg p).stream ++ (commit cfg p).buffer = p.stream ++ p.buffer ∧
      (commit cfg p).committedIndent = p.curIndent ∧
      (commit cfg p).curIndent = p.curIndent ∧ (commit cfg p).delim = p.delim := by
  simp only [commit]
  split <;> simp [flushBuf]

theorem openBlock_eq {p : Printer} (hdelim : p.delim = .none) (s : CString) :
    openBlock cfg s p = write cfg s p >>= fun p =>
      if p.flow then .ok (false, p) else .ok (true, { commit cfg p with flow := true }) := by
  have hp : { p with delim := .none } = p := by rw [← hdelim]
  rw [openBlock, hp]

variable (cfg) in
theorem openBlock_broken {p : Printer} (hflow : p.flow = false) (hdelim : p.delim = .none)
    (s : CString) : ∃ p', openBlock cfg s p = .ok (true, p') ∧ Opened p p' s.tokens := by
  obtain ⟨c, heq⟩ := write_broken cfg hflow s
  set q : Printer := { p with column := c, buffer := p.buffer ++ [s] }
  obtain ⟨hcommitted, htext, hindent, hcur, hdel⟩ := commit_eq cfg q
  have hdel : (commit cfg q).delim = .none := hdel.trans hdelim
  refine ⟨{ commit cfg q with flow := true }, ?_, rfl, hdel, hcommitted, hindent, hcur, ?_⟩
  · rw [openBlock_eq hdelim, heq]
    exact if_neg (by simp [q, hflow])
  · simp only [shown, hdel, hdelim, htext]
    simp [q]

theorem openBlock_fit {p : Printer} {s : CString} {pos : Pos} (hflow : p.flow = true)
    (hdelim : p.delim = .none) (hput : put cfg s (p.delim, p.column) = some pos) :
    ∃ p', openBlock cfg s p = .ok (false, p') ∧ Flows p p' pos ∧ p'.delim = .none ∧
      shown p' = shown p ++ s.tokens := by
  obtain ⟨heq, hpos⟩ := write_fit cfg hflow hput
  refine ⟨{ p with column := pos.2, buffer := p.buffer ++ [s] }, ?_,
    ⟨⟨rfl, rfl, rfl, rfl, List.prefix_append _ _⟩, hflow, Prod.ext hpos.symm rfl⟩,
    hdelim, ?_⟩
  · rw [openBlock_eq hdelim, heq]
    exact if_pos hflow
  · simp [shown, hdelim]

theorem openBlock_overflow {p : Printer} {s : CString} (hflow : p.flow = true)
    (hdelim : p.delim = .none) (hput : put cfg s (p.delim, p.column) = none) :
    ∃ p', openBlock cfg s p = .error p' ∧ Kept p p' ∧ p'.flow = true := by
  obtain ⟨c, heq⟩ := write_overflow cfg hflow hput
  refine ⟨{ p with column := c }, ?_, ⟨rfl, rfl, rfl, rfl, List.prefix_refl _⟩, hflow⟩
  rw [openBlock_eq hdelim, heq]
  rfl

variable (cfg) in
/-- **Rolling back** after an attempt that only appended puts the printer right
behind the opening bracket again, one level further in. -/
theorem reopenBlock_eq {p p₁ p₂ : Printer} {opening : List Token} (hopen : Opened p p₁ opening)
    (hkept : Kept p₁ p₂) :
    (reopenBlock cfg p₂).flow = false ∧ (reopenBlock cfg p₂).delim = .none ∧
      (reopenBlock cfg p₂).curIndent = p.curIndent + cfg.indent ∧
      shown (reopenBlock cfg p₂) = shown p₁ := by
  have htake : p₂.buffer.take p₁.buffer.length = p₁.buffer := by
    obtain ⟨added, hadded⟩ := hkept.buffer
    rw [← hadded, List.take_left]
  have hindent : p₂.committedIndent = p.curIndent :=
    hkept.committedIndent.trans hopen.committedIndent
  refine ⟨rfl, rfl, by simp [reopenBlock, commitLine, flushBuf, rollback, hindent], ?_⟩
  simp [shown, reopenBlock, commitLine, flushBuf, rollback, hkept.committed,
    hopen.committed, htake, hkept.stream, hopen.delim]

/-- The printer as `closeBlock` is about to write the bracket. -/
def beforeClose (cfg : PrinterConfig) (p : Printer) : Printer :=
  let p := if p.delim = .comma && !p.flow then commitLine p else p
  let p := { p with delim := .none }
  if !p.flow then writeIndent { p with curIndent := p.curIndent - cfg.indent } else p

theorem closeBlock_eq (val : CString) (flag : Bool) (p : Printer) :
    closeBlock cfg val flag p = write cfg val (beforeClose cfg p) >>= fun p =>
      .ok (if flag then { p with flow := false } else p) := rfl

theorem beforeClose_flow {p : Printer} (hflow : p.flow = true) :
    beforeClose cfg p = { p with delim := .none } := by
  simp [beforeClose, hflow]

variable (cfg) in
theorem beforeClose_broken {p : Printer} (hflow : p.flow = false) :
    (beforeClose cfg p).flow = false ∧ (beforeClose cfg p).delim = .none ∧
      (beforeClose cfg p).curIndent = p.curIndent - cfg.indent ∧
      tokens ((beforeClose cfg p).stream ++ (beforeClose cfg p).buffer) =
        tokens (p.stream ++ p.buffer) := by
  by_cases hdelim : p.delim = .comma <;>
    simp [beforeClose, hflow, hdelim, writeIndent, commitLine, flushBuf]

/-- The comma that is owed before a closing bracket is dropped. -/
theorem Same.close {p : Printer} {ts : List Token} {s : String}
    (h : ts = tokens (p.stream ++ p.buffer) ++ [.closing s]) :
    Same ts (shown p ++ [.closing s]) := by
  subst h
  unfold shown
  split
  · rw [List.append_assoc]
    exact strip_append_right (by rfl) _
  · rw [List.append_nil]
    rfl

theorem closeBlock_fit {p : Printer} {style : Style} {s : String} {pos : Pos} (flag : Bool)
    (hflow : p.flow = true)
    (hfits : fitClose cfg (styled style (.closing s)) (p.delim, p.column) = some pos) :
    ∃ p', closeBlock cfg (styled style (.closing s)) flag p = .ok p' ∧ Kept p p' ∧
      p'.flow = !flag ∧ (p'.delim, p'.column) = pos ∧ p'.delim = .none ∧
      Same (shown p') (shown p ++ [.closing s]) := by
  rw [closeBlock_eq, beforeClose_flow hflow]
  obtain ⟨heq, hpos⟩ := write_fit cfg (p := { p with delim := .none }) hflow hfits
  rw [heq]
  cases flag with
  | true =>
      refine ⟨_, rfl, ⟨rfl, rfl, rfl, rfl, List.prefix_append _ _⟩, rfl, Prod.ext hpos.symm rfl,
        rfl, Same.close ?_⟩
      simp [shown]
  | false =>
      refine ⟨_, rfl, ⟨rfl, rfl, rfl, rfl, List.prefix_append _ _⟩, hflow, Prod.ext hpos.symm rfl,
        rfl, Same.close ?_⟩
      simp [shown]

/-- A bracket that does not fit leaves the text as it was. -/
theorem closeBlock_error {p : Printer} {style : Style} {s : String} (flag : Bool)
    (hflow : p.flow = true)
    (hfits : fitClose cfg (styled style (.closing s)) (p.delim, p.column) = none) :
    ∃ c, closeBlock cfg (styled style (.closing s)) flag p =
      .error { p with delim := .none, column := c } := by
  rw [closeBlock_eq, beforeClose_flow hflow]
  obtain ⟨c, heq⟩ := write_overflow cfg (p := { p with delim := .none }) hflow hfits
  rw [heq]
  exact ⟨c, rfl⟩

theorem closeBlock_overflow {p : Printer} {style : Style} {s : String} (flag : Bool)
    (hflow : p.flow = true)
    (hfits : fitClose cfg (styled style (.closing s)) (p.delim, p.column) = none) :
    ∃ p', closeBlock cfg (styled style (.closing s)) flag p = .error p' ∧ Kept p p' ∧
      p'.flow = true := by
  obtain ⟨c, heq⟩ := closeBlock_error flag hflow hfits
  exact ⟨_, heq, ⟨rfl, rfl, rfl, rfl, List.prefix_refl _⟩, hflow⟩

variable (cfg) in
theorem closeBlock_broken {p : Printer} (style : Style) (s : String) (flag : Bool)
    (hflow : p.flow = false) :
    ∃ p', closeBlock cfg (styled style (.closing s)) flag p = .ok p' ∧ p'.flow = false ∧
      p'.delim = .none ∧ p'.curIndent = p.curIndent - cfg.indent ∧
      Same (shown p') (shown p ++ [.closing s]) := by
  obtain ⟨hflow', hdelim, hindent, htokens⟩ := beforeClose_broken cfg hflow
  rw [closeBlock_eq]
  obtain ⟨c, heq⟩ := write_broken cfg hflow' (styled style (.closing s))
  rw [heq]
  have hshown : tokens ((beforeClose cfg p).stream ++
      ((beforeClose cfg p).buffer ++ [styled style (.closing s)])) =
      tokens (p.stream ++ p.buffer) ++ [.closing s] := by
    rw [← List.append_assoc, tokens_append, htokens]
    simp
  cases flag with
  | true =>
      refine ⟨_, rfl, rfl, hdelim, hindent, Same.close ?_⟩
      simpa [shown, hdelim] using hshown
  | false =>
      refine ⟨_, rfl, hflow', hdelim, hindent, Same.close ?_⟩
      simpa [shown, hdelim] using hshown

/-- A block once its bracket is written: the attempt, then the second one if the
block owns the line. -/
def blockAttempt (cfg : PrinterConfig) (f : Printer → Except Printer Printer)
    (closing : CString) (flag : Bool) (p : Printer) : Except Printer Printer :=
  match f p >>= closeBlock cfg closing flag with
  | .ok p => .ok p
  | .error p =>
      if flag then
        f (reopenBlock cfg p) >>= closeBlock cfg closing flag
      else .error p

theorem block_eq (opening : CString) (f : Printer → Except Printer Printer)
    (closing : CString) (p : Printer) :
    block cfg opening f closing p = openBlock cfg opening p >>= fun fp =>
      blockAttempt cfg f closing fp.1 fp.2 := rfl

section Blocks

variable {f : Printer → Except Printer Printer} {F : Pos → Option Pos}
  {S : List Token → Prop} {pre : Delim → Prop} (hf : Prints pre anyDelim f F S)
  (style : Style) (s : String)

include hf

/-- The first attempt at a block, on one line, when it fits. -/
theorem attempt_fit {p : Printer} {pos : Pos} (flag : Bool) (hflow : p.flow = true)
    (hpre : pre p.delim)
    (hfits : (F (p.delim, p.column) >>= fitClose cfg (styled style (.closing s))) = some pos) :
    ∃ p' ts, (f p >>= closeBlock cfg (styled style (.closing s)) flag) = .ok p' ∧
      Kept p p' ∧ p'.flow = !flag ∧ (p'.delim, p'.column) = pos ∧ p'.delim = .none ∧
      S ts ∧ Same (shown p') (shown p ++ (ts ++ [.closing s])) := by
  cases hF : F (p.delim, p.column) with
  | none =>
      rw [hF] at hfits
      cases hfits
  | some pos' =>
      rw [hF] at hfits
      obtain ⟨q, ts, hop, hflows, -, hts, hsame⟩ := hf.fit p pos' hflow hpre hF
      have hclose : fitClose cfg (styled style (.closing s)) (q.delim, q.column) = some pos := by
        rw [hflows.pos]
        exact hfits
      obtain ⟨p', hop', hkept, hflow', hpos, hdelim', hsame'⟩ :=
        closeBlock_fit flag hflows.flow hclose
      rw [hop]
      exact ⟨p', ts, hop', hflows.kept.trans hkept, hflow', hpos, hdelim',
        hts, hsame.trans_append hsame'⟩

/-- The first attempt at a block when it does not fit. -/
theorem attempt_overflow {p : Printer} (flag : Bool) (hflow : p.flow = true)
    (hpre : pre p.delim)
    (hfits : (F (p.delim, p.column) >>= fitClose cfg (styled style (.closing s))) = none) :
    ∃ p', (f p >>= closeBlock cfg (styled style (.closing s)) flag) = .error p' ∧
      Kept p p' ∧ p'.flow = true := by
  cases hF : F (p.delim, p.column) with
  | none =>
      obtain ⟨q, hop, hkept⟩ := hf.overflow p hflow hpre hF
      rw [hop]
      exact ⟨q, rfl, hkept⟩
  | some pos' =>
      rw [hF] at hfits
      obtain ⟨q, ts, hop, hflows, -, -, -⟩ := hf.fit p pos' hflow hpre hF
      have hclose : fitClose cfg (styled style (.closing s)) (q.delim, q.column) = none := by
        rw [hflows.pos]
        exact hfits
      obtain ⟨p', hop', hkept, hflow'⟩ := closeBlock_overflow flag hflows.flow hclose
      rw [hop]
      exact ⟨p', hop', hflows.kept.trans hkept, hflow'⟩

/-- The second attempt, after rolling back, always succeeds. -/
theorem reprint (hpre : pre .none) {p p₁ p₂ : Printer} {opening : List Token}
    (hopen : Opened p p₁ opening) (hkept : Kept p₁ p₂) :
    ∃ p' ts, (f (reopenBlock cfg p₂) >>= closeBlock cfg (styled style (.closing s)) true) =
        .ok p' ∧
      p'.flow = false ∧ p'.delim = .none ∧ p'.curIndent = p.curIndent ∧ S ts ∧
      Same (shown p') (shown p ++ (opening ++ (ts ++ [.closing s]))) := by
  obtain ⟨hflow, hdelim, hindent, hshown⟩ := reopenBlock_eq cfg hopen hkept
  obtain ⟨q, ts, hop, hflow', hindent', -, hts, hsame⟩ := hf.broken _ hflow (hdelim ▸ hpre)
  obtain ⟨p', hop', hflow'', hdelim', hindent'', hsame'⟩ :=
    closeBlock_broken cfg style s true hflow'
  rw [hop]
  refine ⟨p', ts, hop', hflow'', hdelim', ?_, hts, ?_⟩
  · rw [hindent'', hindent', hindent, Nat.add_sub_cancel]
  · have hall := hsame.trans_append hsame'
    rwa [hshown, hopen.shown, List.append_assoc] at hall

/-- **A block shows its contents between its brackets**, on one line or broken. -/
theorem prints_block (hpre : pre .none) (opening : String) :
    Prints noDelim noDelim
      (block cfg (styled style (.opening opening)) f (styled style (.closing s)))
      (fun pos => put cfg (styled style (.opening opening)) pos >>= fun pos =>
        F pos >>= fitClose cfg (styled style (.closing s)))
      (fun ts => ∃ inner, S inner ∧ ts = .opening opening :: inner ++ [.closing s]) where
  fit := by
    intro p pos hflow hdelim hfits
    have hdelim : p.delim = .none := hdelim
    -- no attempt is made unless the opening bracket itself fits
    cases hput : put cfg (styled style (.opening opening)) (p.delim, p.column) with
    | none =>
        rw [hput] at hfits
        cases hfits
    | some pos' =>
        rw [hput] at hfits
        obtain ⟨q, hop, hflows, hdelim', hshown⟩ := openBlock_fit hflow hdelim hput
        rw [← hflows.pos] at hfits
        obtain ⟨p', ts, hop', hkept, hflow', hpos, hdelim'', hts, hsame⟩ :=
          attempt_fit hf style s false hflows.flow (hdelim' ▸ hpre) hfits
        refine ⟨p', _, ?_, ⟨hflows.kept.trans hkept, hflow', hpos⟩, hdelim'', ⟨ts, hts, rfl⟩, ?_⟩
        · rw [block_eq, hop]
          show blockAttempt _ _ _ _ _ = _
          rw [blockAttempt, hop']
        · rw [hshown] at hsame
          simpa using hsame
  overflow := by
    intro p hflow hdelim hfits
    have hdelim : p.delim = .none := hdelim
    cases hput : put cfg (styled style (.opening opening)) (p.delim, p.column) with
    | none =>
        obtain ⟨p', hop, hkept⟩ := openBlock_overflow hflow hdelim hput
        refine ⟨p', ?_, hkept⟩
        rw [block_eq, hop]
        rfl
    | some pos' =>
        rw [hput] at hfits
        obtain ⟨q, hop, hflows, hdelim', -⟩ := openBlock_fit hflow hdelim hput
        rw [← hflows.pos] at hfits
        obtain ⟨p', hop', hkept, hflow'⟩ :=
          attempt_overflow hf style s false hflows.flow (hdelim' ▸ hpre) hfits
        refine ⟨p', ?_, hflows.kept.trans hkept, hflow'⟩
        rw [block_eq, hop]
        show blockAttempt _ _ _ _ _ = _
        rw [blockAttempt, hop']
        rfl
  broken := by
    intro p hflow hdelim
    obtain ⟨q, hop, hopen⟩ :=
      openBlock_broken cfg hflow hdelim (styled style (.opening opening))
    -- the block is tried on one line first, and printed over several lines if it does not fit
    cases hfits : F (q.delim, q.column) >>= fitClose cfg (styled style (.closing s)) with
    | some pos =>
        obtain ⟨p', ts, hop', hkept, hflow', -, hdelim', hts, hsame⟩ :=
          attempt_fit hf style s true hopen.flow (hopen.delim ▸ hpre) hfits
        refine ⟨p', _, ?_, hflow', hkept.curIndent.trans hopen.curIndent, hdelim',
          ⟨ts, hts, rfl⟩, ?_⟩
        · rw [block_eq, hop]
          show blockAttempt _ _ _ _ _ = _
          rw [blockAttempt, hop']
        · rw [hopen.shown] at hsame
          simpa using hsame
    | none =>
        obtain ⟨p₂, hop', hkept, -⟩ :=
          attempt_overflow hf style s true hopen.flow (hopen.delim ▸ hpre) hfits
        obtain ⟨p', ts, hop'', hflow', hdelim', hindent, hts, hsame⟩ :=
          reprint hf style s hpre hopen hkept
        refine ⟨p', _, ?_, hflow', hindent, hdelim', ⟨ts, hts, rfl⟩, ?_⟩
        · rw [block_eq, hop]
          show blockAttempt _ _ _ _ _ = _
          rw [blockAttempt, hop']
          exact hop''
        · simpa using hsame

end Blocks

end GelCli.Print
