import Mathlib.Data.List.Forall2
import GelCli.Print.NormalForm
import GelCli.Print.Values
import GelCli.Print.Native

/-!
# Complete output

A stream of rows should print as `{row, row, ...}` in either layout: every row up
to the limit once and in order, the dots exactly when rows are left out, and the
closing bracket. `nativeFormat_complete_iff` says exactly when it does. Two
overflows are not recovered from: the one at the closing bracket, where the
stream has already ended, and the one at the ellipsis, where the second attempt
prints the ellipsis again for the next row of the stream.
-/

namespace GelCli.Print

/-! ## What should be printed -/

section Rows

variable {ι : Type} [FormatExt ι] (cfg : PrinterConfig)

omit [FormatExt ι] in
/-- The rows within the limit. -/
def visible (rows : List ι) : List ι :=
  match cfg.maxItems with
  | some limit => rows.take limit
  | none => rows

omit [FormatExt ι] in
def hasMore (rows : List ι) : Bool :=
  match cfg.maxItems with
  | some limit => decide (limit < rows.length)
  | none => false

/-- One text for every row. -/
def RowsShow (rows : List ι) (items : List (List Token)) : Prop :=
  List.Forall₂ (fun v ts => (FormatExt.format cfg v).Shows ts) rows items

/-- The output is complete: its content is the canonical text of the rows. -/
def Complete (rows : List ι) (out : List CString) : Prop :=
  ∃ items, RowsShow cfg (visible cfg rows) items ∧
    content out =
      .opening "\x7b" :: separated items (hasMore cfg rows) ++ [.closing "\x7d"]

/-! ## When the first attempt fits -/

def fitRows : List ι → Pos → Option Pos
  | [], pos => some pos
  | v :: rows, pos =>
      (FormatExt.format cfg v).fit cfg pos >>= fun pos => fitComma pos >>= fitRows rows

/-- The position behind the opening bracket. -/
def startPos : Pos := (.none, 1)

/-- The position behind everything but the closing bracket, on one line. -/
def fitLine (rows : List ι) : Option Pos :=
  fitRows cfg (visible cfg rows) startPos >>= fun pos =>
    if hasMore cfg rows then fitDots cfg pos else some pos

/-- Everything fits on one line except the closing bracket. -/
def BracketOverflows (rows : List ι) : Prop :=
  ∃ pos, fitLine cfg rows = some pos ∧
    fitClose cfg (styled .set (.closing "\x7d")) pos = none

/-- The visible rows fit on one line, the dots do not, and at least two rows are
left out. -/
def DotsOverflow (rows : List ι) : Prop :=
  ∃ pos, fitRows cfg (visible cfg rows) startPos = some pos ∧ fitDots cfg pos = none ∧
    (visible cfg rows).length + 2 ≤ rows.length

/-! ## The loops over the rows -/

variable {cfg}

variable (cfg) in
theorem prints_row (v : ι) :
    Prints anyDelim anyDelim (formatRow cfg v)
      (fun pos => (FormatExt.format cfg v).fit cfg pos >>= fitComma)
      (fun ts => ∃ text, (FormatExt.format cfg v).Shows text ∧ ts = text ++ [.comma]) := by
  refine Prints.shows_mono (Prints.seq (Doc.prints (FormatExt.format cfg v)) prints_comma) ?_
  rintro ts ⟨text, b, htext, rfl, rfl⟩
  exact ⟨_, ⟨text, htext, rfl⟩, rfl⟩

omit [FormatExt ι] in
theorem overLimit_mono {m n : Nat} (hmn : m ≤ n) (h : overLimit cfg m) : overLimit cfg n := by
  unfold overLimit at *
  split at h
  · exact Nat.lt_of_lt_of_le h hmn
  · exact h

variable {ε : Type}

/-- The first attempt runs over rows that fit. -/
theorem rowsBufLoop_fit (shownRows : List ι) (rest : List (Except ε ι)) (rowBuf : List ι)
    {p : Printer} {pos : Pos} (hflow : p.flow = true)
    (hlimit : ¬ overLimit cfg (rowBuf.length + shownRows.length))
    (hfits : fitRows cfg shownRows (p.delim, p.column) = some pos) :
    ∃ p' items, rowsBufLoop cfg (shownRows.map .ok ++ rest) rowBuf p =
        rowsBufLoop cfg rest (rowBuf ++ shownRows) p' ∧
      Flows p p' pos ∧ RowsShow cfg shownRows items ∧
      Same (shown p') (shown p ++ commaed items) := by
  induction shownRows generalizing rowBuf p with
  | nil =>
      refine ⟨p, [], by simp, ⟨Kept.refl p, hflow, Option.some.inj hfits⟩, .nil, ?_⟩
      simp [Same, commaed]
  -- the induction is on the rows that fit; the limit is counted from both ends
  | cons v shownRows ih =>
      unfold fitRows at hfits
      cases hv : (FormatExt.format cfg v).fit cfg (p.delim, p.column) with
      | none =>
          rw [hv] at hfits
          cases hfits
      | some pos' =>
          rw [hv] at hfits
          have hrow : ((FormatExt.format cfg v).fit cfg (p.delim, p.column) >>= fitComma) =
              some (.comma, pos'.2) := by
            rw [hv]
            rfl
          obtain ⟨q, ts, hop, hflows, -, ⟨text, htext, rfl⟩, hsame⟩ :=
            (prints_row cfg v).fit p _ hflow trivial hrow
          have hcount : rowBuf.length + (v :: shownRows).length =
              (rowBuf ++ [v]).length + shownRows.length := by
            simp only [List.length_cons, List.length_append, List.length_nil]
            omega
          have hwithin : ¬ overLimit cfg (rowBuf ++ [v]).length := by
            intro hover
            apply hlimit
            apply overLimit_mono ?_ hover
            simp
          obtain ⟨p', items, hloop, hflows', hitems, hsame'⟩ :=
            ih (rowBuf ++ [v]) hflows.flow (hcount ▸ hlimit)
              (by rw [hflows.pos]; exact hfits)
          refine ⟨p', text :: items, ?_, hflows.trans hflows', .cons htext hitems, ?_⟩
          · simp only [List.map_cons, List.cons_append, rowsBufLoop]
            rw [if_neg hwithin, hop]
            simpa using hloop
          · have hall := hsame.trans_append hsame'
            simpa [commaed_cons] using hall

/-- The first attempt stops at the first row that does not fit. -/
theorem rowsBufLoop_overflow (shownRows : List ι) (rest : List (Except ε ι))
    (rowBuf : List ι) {p : Printer} (hflow : p.flow = true)
    (hlimit : ¬ overLimit cfg (rowBuf.length + shownRows.length))
    (hfits : fitRows cfg shownRows (p.delim, p.column) = none) :
    ∃ taken left p', shownRows = taken ++ left ∧
      rowsBufLoop cfg (shownRows.map .ok ++ rest) rowBuf p =
        .error (.disableFlow, ⟨p', left.map .ok ++ rest, rowBuf ++ taken, false⟩) ∧
      Kept p p' := by
  induction shownRows generalizing rowBuf p with
  | nil => cases hfits
  | cons v shownRows ih =>
      have hcount : rowBuf.length + (v :: shownRows).length =
          (rowBuf ++ [v]).length + shownRows.length := by
        simp only [List.length_cons, List.length_append, List.length_nil]
        omega
      have hwithin : ¬ overLimit cfg (rowBuf ++ [v]).length := by
        intro hover
        apply hlimit
        apply overLimit_mono ?_ hover
        simp
      unfold fitRows at hfits
      cases hv : (FormatExt.format cfg v).fit cfg (p.delim, p.column) with
      -- the row that does not fit is taken out of the stream and stays in the buffer
      | none =>
          have hrow : ((FormatExt.format cfg v).fit cfg (p.delim, p.column) >>= fitComma) =
              none := by
            rw [hv]
            rfl
          obtain ⟨p', hop, hkept, -⟩ := (prints_row cfg v).overflow p hflow trivial hrow
          refine ⟨[v], shownRows, p', rfl, ?_, hkept⟩
          simp only [List.map_cons, List.cons_append, rowsBufLoop]
          rw [if_neg hwithin, hop]
      | some pos' =>
          rw [hv] at hfits
          have hrow : ((FormatExt.format cfg v).fit cfg (p.delim, p.column) >>= fitComma) =
              some (.comma, pos'.2) := by
            rw [hv]
            rfl
          obtain ⟨q, ts, hop, hflows, -, -, -⟩ := (prints_row cfg v).fit p _ hflow trivial hrow
          obtain ⟨taken, left, p', rfl, hloop, hkept⟩ :=
            ih (rowBuf ++ [v]) hflows.flow (hcount ▸ hlimit)
              (by rw [hflows.pos]; exact hfits)
          refine ⟨v :: taken, left, p', rfl, ?_, hflows.kept.trans hkept⟩
          simp only [List.map_cons, List.cons_append, rowsBufLoop]
          rw [if_neg hwithin, hop]
          simpa using hloop

/-- One line each, the buffered rows always print. -/
theorem bufferedRows_broken (shownRows rest : List ι) (counter : Nat) {p : Printer}
    (hflow : p.flow = false) (hlimit : ¬ overLimit cfg (counter + shownRows.length)) :
    ∃ p' items, bufferedRows cfg (shownRows ++ rest) counter p =
        bufferedRows cfg rest (counter + shownRows.length) p' ∧
      p'.flow = false ∧ p'.curIndent = p.curIndent ∧ RowsShow cfg shownRows items ∧
      Same (shown p') (shown p ++ commaed items) := by
  induction shownRows generalizing counter p with
  | nil => exact ⟨p, [], rfl, hflow, rfl, .nil, by simp [Same, commaed]⟩
  | cons v shownRows ih =>
      have hcount : counter + (v :: shownRows).length = counter + 1 + shownRows.length := by
        simp only [List.length_cons]
        omega
      have hwithin : ¬ overLimit cfg (counter + 1) := by
        intro hover
        apply hlimit
        apply overLimit_mono ?_ hover
        simp
      obtain ⟨q, ts, hop, hflow', hindent, -, ⟨text, htext, rfl⟩, hsame⟩ :=
        (prints_row cfg v).broken p hflow trivial
      obtain ⟨p', items, hloop, hflow'', hindent', hitems, hsame'⟩ :=
        ih (counter + 1) hflow' (hcount ▸ hlimit)
      refine ⟨p', text :: items, ?_, hflow'', hindent'.trans hindent, .cons htext hitems, ?_⟩
      · rw [hcount, ← hloop, List.cons_append, bufferedRows, if_neg hwithin, hop]
        rfl
      · have hall := hsame.trans_append hsame'
        simpa [commaed_cons] using hall

/-- So do the rows that are still in the stream. -/
theorem streamRows_broken (shownRows : List ι) (rest : List (Except ε ι)) (counter : Nat)
    {p : Printer} (hflow : p.flow = false)
    (hlimit : ¬ overLimit cfg (counter + shownRows.length)) :
    ∃ p' items, streamRows cfg (shownRows.map .ok ++ rest) counter p =
        streamRows cfg rest (counter + shownRows.length) p' ∧
      p'.flow = false ∧ p'.curIndent = p.curIndent ∧ RowsShow cfg shownRows items ∧
      Same (shown p') (shown p ++ commaed items) := by
  induction shownRows generalizing counter p with
  | nil => exact ⟨p, [], rfl, hflow, rfl, .nil, by simp [Same, commaed]⟩
  | cons v shownRows ih =>
      have hcount : counter + (v :: shownRows).length = counter + 1 + shownRows.length := by
        simp only [List.length_cons]
        omega
      have hwithin : ¬ overLimit cfg (counter + 1) := by
        intro hover
        apply hlimit
        apply overLimit_mono ?_ hover
        simp
      obtain ⟨q, ts, hop, hflow', hindent, -, ⟨text, htext, rfl⟩, hsame⟩ :=
        (prints_row cfg v).broken p hflow trivial
      obtain ⟨p', items, hloop, hflow'', hindent', hitems, hsame'⟩ :=
        ih (counter + 1) hflow' (hcount ▸ hlimit)
      refine ⟨p', text :: items, ?_, hflow'', hindent'.trans hindent, .cons htext hitems, ?_⟩
      · rw [hcount, ← hloop, List.map_cons, List.cons_append, streamRows, if_neg hwithin, hop]
      · have hall := hsame.trans_append hsame'
        simpa [commaed_cons] using hall

omit [FormatExt ι] in
theorem consume_ok (rows : List ι) : consume (rows.map (.ok : ι → Except ε ι)) = .ok () := by
  induction rows with
  | nil => rfl
  | cons v rows ih => exact ih

/-- Dots on a line of their own always print. -/
theorem ellipsis_broken {p : Printer} (hflow : p.flow = false) :
    ∃ p', ellipsis cfg p = .ok p' ∧ p'.flow = false ∧ p'.curIndent = p.curIndent ∧
      Same (shown p') (shown p ++ [.dots]) := by
  obtain ⟨p', ts, hop, hflow', hindent, -, rfl, hsame⟩ :=
    prints_ellipsis.broken p hflow trivial
  exact ⟨p', hop, hflow', hindent, hsame⟩

/-! ## Visible rows and the rest -/

variable (cfg) in
omit [FormatExt ι] in
/-- The rows split at the limit. -/
theorem visible_split (rows : List ι) :
    ∃ rest, rows = visible cfg rows ++ rest ∧ ¬ overLimit cfg (visible cfg rows).length ∧
      (hasMore cfg rows = true ↔ rest ≠ []) ∧
      (rest ≠ [] → overLimit cfg ((visible cfg rows).length + 1)) := by
  unfold visible hasMore overLimit
  cases cfg.maxItems with
  | none => exact ⟨[], by simp, by simp, by simp, fun h => absurd rfl h⟩
  | some limit =>
      refine ⟨rows.drop limit, (List.take_append_drop limit rows).symm, ?_, ?_, ?_⟩
      · simp only [List.length_take]
        omega
      · simp
      · intro hrest
        have hlen : limit < rows.length := by
          rw [ne_eq, List.drop_eq_nil_iff] at hrest
          omega
        simp
        omega

omit [FormatExt ι] in
theorem length_visible_add (rows : List ι) {rest : List ι}
    (hrest : rows = visible cfg rows ++ rest) (n : Nat) :
    (visible cfg rows).length + n ≤ rows.length ↔ n ≤ rest.length := by
  have hlen := congrArg List.length hrest
  rw [List.length_append] at hlen
  omega

/-! ## The output -/

variable (cfg) in
/-- The opening bracket of the whole output. -/
theorem openBlock_new :
    ∃ p₁, openBlock cfg (styled .set (.opening "\x7b")) Printer.new = .ok (true, p₁) ∧
      Opened Printer.new p₁ [.opening "\x7b"] ∧ (p₁.delim, p₁.column) = startPos := by
  obtain ⟨p₁, hop, hopen⟩ :=
    openBlock_broken cfg (p := Printer.new) rfl rfl (styled .set (.opening "\x7b"))
  refine ⟨p₁, hop, hopen, ?_⟩
  have hgraphemes : cfg.graphemes (styled .set (.opening "\x7b")).toStr = ["\x7b"] := by
    rw [show (styled .set (.opening "\x7b")).toStr = "\x7b" from rfl,
      cfg.graphemes_ascii "\x7b" (by simp)]
    rfl
  have hwrite : write cfg (styled .set (.opening "\x7b")) Printer.new =
      .ok { Printer.new with column := 1, buffer := [styled .set (.opening "\x7b")] } := by
    rw [write, hgraphemes]
    rfl
  rw [openBlock_eq rfl, hwrite] at hop
  have hcolumn : p₁.column = 1 := by
    have hp₁ := (Prod.mk.inj (Except.ok.inj hop)).2
    rw [← hp₁]
    simp only [commit]
    split <;> rfl
  exact Prod.ext hopen.delim hcolumn

variable (cfg) in
omit [FormatExt ι] in
/-- The output once the printer is flushed. -/
theorem content_finish (p : Printer) :
    content (finish cfg p).stream = strip (tokens (p.stream ++ p.buffer)) := by
  have htext := (commit_eq cfg p).2.1
  unfold finish
  simp only [flushBuf, content]
  rw [htext]

/-- The first attempt ends with its bracket on the line. -/
theorem nativeFormat_closed {config : PrinterConfig} {rows : List (Except ε ι)}
    {s : RowsBuf ι ε} {p₁ : Printer} {pos : Pos}
    (hopen : openBlock (nativeConfig config) (styled .set (.opening "\x7b")) Printer.new =
      .ok (true, p₁))
    (hloop : rowsBufLoop (nativeConfig config) rows [] p₁ = .ok s)
    (hflow : s.printer.flow = true)
    (hclose : fitClose (nativeConfig config) (styled .set (.closing "\x7d"))
      (s.printer.delim, s.printer.column) = some pos) :
    ∃ out, nativeFormat config rows = (.ok, out) ∧
      content out = strip (shown s.printer ++ [.closing "\x7d"]) := by
  obtain ⟨p', hop, -, -, -, hdelim, hsame⟩ := closeBlock_fit true hflow hclose
  refine ⟨(finish (nativeConfig config) p').stream, ?_, ?_⟩
  · simp only [nativeFormat, formatRowsBuf, hopen, hloop, hop]
  · rw [content_finish, ← hsame, shown_of_delim (by simp [hdelim])]

/-- The bracket does not fit: the stream has ended, so the output stays open. -/
theorem nativeFormat_open {config : PrinterConfig} {rows : List (Except ε ι)}
    {s : RowsBuf ι ε} {p₁ : Printer}
    (hopen : openBlock (nativeConfig config) (styled .set (.opening "\x7b")) Printer.new =
      .ok (true, p₁))
    (hloop : rowsBufLoop (nativeConfig config) rows [] p₁ = .ok s)
    (hflow : s.printer.flow = true)
    (hclose : fitClose (nativeConfig config) (styled .set (.closing "\x7d"))
      (s.printer.delim, s.printer.column) = none) :
    ∃ out, nativeFormat config rows = (.ok, out) ∧
      content out = strip (tokens (s.printer.stream ++ s.printer.buffer)) := by
  obtain ⟨c, hop⟩ := closeBlock_error true hflow hclose
  refine ⟨_, ?_, content_finish (nativeConfig config) { s.printer with delim := .none, column := c }⟩
  simp only [nativeFormat, formatRowsBuf, hopen, hloop, hop]
  rfl

/-- The line overflows before the stream has ended: everything is printed again. -/
theorem nativeFormat_restart {config : PrinterConfig} {rows : List (Except ε ι)}
    {s : RowsBuf ι ε} {p₁ p₂ p₃ : Printer} {counter : Nat} {body : List Token}
    (hopen : openBlock (nativeConfig config) (styled .set (.opening "\x7b")) Printer.new =
      .ok (true, p₁))
    (hopened : Opened Printer.new p₁ [.opening "\x7b"])
    (hloop : rowsBufLoop (nativeConfig config) rows [] p₁ = .error (.disableFlow, s))
    (hstream : s.endOfStream = false) (hkept : Kept p₁ s.printer)
    (hbuffered : bufferedRows (nativeConfig config) s.rowBuf 0
      (reopenBlock (nativeConfig config) s.printer) = .ok (counter, p₂))
    (hrest : streamRows (nativeConfig config) s.rows counter p₂ = .ok p₃)
    (hflow : p₃.flow = false)
    (hsame : Same (shown p₃) (shown (reopenBlock (nativeConfig config) s.printer) ++ body)) :
    ∃ out, nativeFormat config rows = (.ok, out) ∧
      content out = strip (.opening "\x7b" :: body ++ [.closing "\x7d"]) := by
  obtain ⟨-, -, -, hshown⟩ := reopenBlock_eq (nativeConfig config) hopened hkept
  obtain ⟨p', hop, -, hdelim, -, hsame'⟩ :=
    closeBlock_broken (nativeConfig config) .set "\x7d" true hflow
  refine ⟨(finish (nativeConfig config) p').stream, ?_, ?_⟩
  · simp only [nativeFormat, formatRowsBuf, hopen, hloop, hstream, formatRows, hbuffered,
      hrest, hop]
    rfl
  · have hall := hsame.trans_append hsame'
    rw [hshown, hopened.shown] at hall
    rw [content_finish, ← shown_of_delim (by simp [hdelim])]
    exact hall

theorem RowsShow.tight {rows : List ι} {items : List (List Token)}
    (h : RowsShow cfg rows items) : ∀ item ∈ items, Tight item := by
  induction h with
  | nil => simp
  | cons hrow _ ih =>
      intro item hitem
      rcases List.mem_cons.mp hitem with rfl | hitem
      · exact hrow.tight
      · exact ih item hitem

theorem RowsShow.balanced {rows : List ι} {items : List (List Token)}
    (h : RowsShow cfg rows items) : ∀ item ∈ items, Balanced item := by
  induction h with
  | nil => simp
  | cons hrow _ ih =>
      intro item hitem
      rcases List.mem_cons.mp hitem with rfl | hitem
      · exact hrow.balanced
      · exact ih item hitem

variable (cfg) in
/-- The canonical text of the rows. -/
def canonical (rows : List ι) (items : List (List Token)) : List Token :=
  .opening "\x7b" :: separated items (hasMore cfg rows) ++ [.closing "\x7d"]

omit [FormatExt ι] in
theorem strip_canonical {rows : List ι} {items : List (List Token)}
    (h : ∀ item ∈ items, Tight item) :
    strip (.opening "\x7b" :: (commaed items ++ if hasMore cfg rows then [.dots] else []) ++
      [.closing "\x7d"]) = canonical cfg rows items := by
  have hclose := strip_commaed_close items (hasMore cfg rows) "\x7d"
  have hcons := strip_append_right hclose [.opening "\x7b"]
  rw [canonical, ← strip_bracketed "\x7b" "\x7d" (separated_tight h)]
  simpa using hcons

/-- How an output can fail to be complete. -/
inductive Ending (cfg : PrinterConfig) (rows : List ι) (items : List (List Token))
    (out : List CString) : Prop where
  | complete (hbracket : ¬ BracketOverflows cfg rows) (hdots : ¬ DotsOverflow cfg rows)
      (hout : content out = canonical cfg rows items)
  | unclosed (hbracket : BracketOverflows cfg rows)
      (hout : (content out).countP Token.isOpening = (content out).countP Token.isClosing + 1)
  | dotsTwice (hdots : DotsOverflow cfg rows) (init : List Token)
      (hout : content out = init ++ [.dots, .dots, .closing "\x7d"])

/-- An output without its closing bracket is not balanced. -/
theorem unclosed_of_balanced {ts : List Token} {opening : String} {p : Printer}
    (hsame : Same (shown p) (.opening opening :: ts)) (hts : Balanced ts) :
    (strip (tokens (p.stream ++ p.buffer))).countP Token.isOpening =
      (strip (tokens (p.stream ++ p.buffer))).countP Token.isClosing + 1 := by
  have hcount : ∀ f : Token → Bool, f .comma = false →
      (strip (tokens (p.stream ++ p.buffer))).countP f =
        (Token.opening opening :: ts).countP f := by
    intro f hf
    rw [countP_strip hf, ← countP_strip hf (_ :: _), ← hsame, countP_strip hf, shown]
    split <;> simp [hf]
  rw [hcount _ rfl, hcount _ rfl]
  unfold Balanced at hts
  simp [List.countP_cons, Token.isOpening, Token.isClosing, hts]

/-- The rest of the stream, behind the limit, is the dots. -/
theorem streamRest_broken (rest : List ι) (counter : Nat) {p : Printer} (hflow : p.flow = false)
    (hover : rest ≠ [] → overLimit cfg (counter + 1)) :
    ∃ p', streamRows cfg (rest.map (.ok : ι → Except ε ι)) counter p = .ok p' ∧
      p'.flow = false ∧
      Same (shown p') (shown p ++ if rest = [] then [] else [.dots]) := by
  cases rest with
  | nil => exact ⟨p, rfl, hflow, by simp [Same]⟩
  | cons v rest =>
      obtain ⟨p', hop, hflow', -, hsame⟩ := ellipsis_broken hflow
      refine ⟨p', ?_, hflow', by simpa using hsame⟩
      simp only [List.map_cons, streamRows]
      rw [if_pos (hover (by simp)), hop]
      simp only [consume_ok]

/-- The second attempt after an overflow in a row prints all the rows. -/
theorem restart_rows (taken left rest : List ι)
    (hlimit : ¬ overLimit cfg (taken ++ left).length)
    (hover : rest ≠ [] → overLimit cfg ((taken ++ left).length + 1)) {p : Printer}
    (hflow : p.flow = false) :
    ∃ counter p₂ p₃ items, bufferedRows cfg taken 0 p = .ok (counter, p₂) ∧
      streamRows cfg ((left ++ rest).map (.ok : ι → Except ε ι)) counter p₂ = .ok p₃ ∧
      p₃.flow = false ∧ RowsShow cfg (taken ++ left) items ∧
      Same (shown p₃) (shown p ++ (commaed items ++ if rest = [] then [] else [.dots])) := by
  have hcount : taken.length + left.length = (taken ++ left).length := by simp
  have hwithin : ¬ overLimit cfg (0 + taken.length) := by
    intro h
    apply hlimit
    apply overLimit_mono ?_ h
    simp
  obtain ⟨p₁, items₁, hbuffered, hflow₁, -, hitems₁, hsame₁⟩ :=
    bufferedRows_broken taken [] 0 hflow hwithin
  obtain ⟨p₂, items₂, hstream, hflow₂, -, hitems₂, hsame₂⟩ :=
    streamRows_broken left (rest.map (.ok : ι → Except ε ι)) taken.length hflow₁
      (hcount ▸ hlimit)
  obtain ⟨p₃, hrest, hflow₃, hsame₃⟩ :=
    streamRest_broken (ε := ε) rest (taken.length + left.length) hflow₂ (hcount ▸ hover)
  refine ⟨taken.length, p₁, p₃, items₁ ++ items₂, ?_, ?_, hflow₃,
    List.rel_append hitems₁ hitems₂, ?_⟩
  · rw [List.append_nil] at hbuffered
    rw [hbuffered, Nat.zero_add]
    rfl
  · rw [List.map_append, hstream, hrest]
  · have hall := (hsame₁.trans_append hsame₂).trans_append hsame₃
    simpa [commaed] using hall

/-- The second attempt after an overflow at the dots: the buffer holds one row
too many, and so does the stream if two rows or more are left out. -/
theorem restart_dots (shownRows : List ι) (v : ι) (rest : List ι)
    (hlimit : ¬ overLimit cfg shownRows.length)
    (hover : overLimit cfg (shownRows.length + 1)) {p : Printer} (hflow : p.flow = false) :
    ∃ counter p₂ p₃ items, bufferedRows cfg (shownRows ++ [v]) 0 p = .ok (counter, p₂) ∧
      streamRows cfg (rest.map (.ok : ι → Except ε ι)) counter p₂ = .ok p₃ ∧
      p₃.flow = false ∧ RowsShow cfg shownRows items ∧
      Same (shown p₃) (shown p ++ (commaed items ++ .dots ::
        if rest = [] then [] else [.dots])) := by
  obtain ⟨p₁, items, hbuffered, hflow₁, -, hitems, hsame₁⟩ :=
    bufferedRows_broken shownRows [v] 0 hflow (by simpa using hlimit)
  obtain ⟨p₂, hdots, hflow₂, -, hsame₂⟩ := ellipsis_broken hflow₁
  obtain ⟨p₃, hrest, hflow₃, hsame₃⟩ :=
    streamRest_broken (ε := ε) rest (shownRows.length + 1) hflow₂
      (fun _ => overLimit_mono (Nat.le_succ _) hover)
  refine ⟨shownRows.length + 1, p₂, p₃, items, ?_, hrest, hflow₃, hitems, ?_⟩
  · rw [hbuffered, Nat.zero_add, bufferedRows, if_pos hover, hdots]
    rfl
  · have hall := (hsame₁.trans_append hsame₂).trans_append hsame₃
    simpa using hall

omit [FormatExt ι] in
theorem dots_eq_of_more {rows rest : List ι} (hmore : hasMore cfg rows = true ↔ rest ≠ []) :
    (if rest = [] then [] else [Token.dots]) =
      if hasMore cfg rows then [Token.dots] else [] := by
  by_cases hrest : rest = []
  · rw [if_pos hrest, if_neg fun h => hmore.mp h hrest]
  · rw [if_neg hrest, if_pos (hmore.mpr hrest)]

/-- An attempt that reaches the closing bracket on one line. -/
theorem ending_of_line {config : PrinterConfig} {rows : List ι} {s : RowsBuf ι ε}
    {p₁ : Printer} {pos : Pos} {items : List (List Token)}
    (hopen : openBlock (nativeConfig config) (styled .set (.opening "\x7b")) Printer.new =
      .ok (true, p₁))
    (hopened : Opened Printer.new p₁ [.opening "\x7b"])
    (hloop : rowsBufLoop (nativeConfig config) (rows.map .ok) [] p₁ = .ok s)
    (hflows : Flows p₁ s.printer pos) (hline : fitLine (nativeConfig config) rows = some pos)
    (hitems : RowsShow (nativeConfig config) (visible (nativeConfig config) rows) items)
    (hdots : ¬ DotsOverflow (nativeConfig config) rows)
    (hsame : Same (shown s.printer) (shown p₁ ++
      (commaed items ++ if hasMore (nativeConfig config) rows then [.dots] else []))) :
    ∃ out, nativeFormat config (rows.map (.ok : ι → Except ε ι)) = (.ok, out) ∧
      Ending (nativeConfig config) rows items out := by
  have hshown : shown p₁ = [.opening "\x7b"] := hopened.shown
  rw [hshown] at hsame
  cases hclose : fitClose (nativeConfig config) (styled .set (.closing "\x7d")) pos with
  | some pos' =>
      obtain ⟨out, hnative, hout⟩ :=
        nativeFormat_closed hopen hloop hflows.flow (by rw [hflows.pos]; exact hclose)
      refine ⟨out, hnative, .complete ?_ hdots ?_⟩
      · rintro ⟨pos'', hline', hclose'⟩
        obtain rfl := Option.some.inj (hline.symm.trans hline')
        rw [hclose] at hclose'
        cases hclose'
      · rw [hout, strip_append_left hsame]
        exact strip_canonical hitems.tight
  | none =>
      obtain ⟨out, hnative, hout⟩ :=
        nativeFormat_open hopen hloop hflows.flow (by rw [hflows.pos]; exact hclose)
      refine ⟨out, hnative, .unclosed ⟨pos, hline, hclose⟩ ?_⟩
      rw [hout]
      apply unclosed_of_balanced hsame
      apply (balanced_commaed hitems.balanced).append
      split <;> rfl

theorem nativeFormat_ending (config : PrinterConfig) (rows : List ι) :
    ∃ out items, nativeFormat config (rows.map (.ok : ι → Except ε ι)) = (.ok, out) ∧
      RowsShow (nativeConfig config) (visible (nativeConfig config) rows) items ∧
      Ending (nativeConfig config) rows items out := by
  obtain ⟨p₁, hopen, hopened, hstart⟩ := openBlock_new (nativeConfig config)
  obtain ⟨rest, hsplit, hwithin, hmore, hover⟩ := visible_split (nativeConfig config) rows
  have hmap : rows.map (.ok : ι → Except ε ι) =
      (visible (nativeConfig config) rows).map .ok ++ rest.map .ok := by
    rw [← List.map_append, ← hsplit]
  have hwithin' : ¬ overLimit (nativeConfig config)
      (([] : List ι).length + (visible (nativeConfig config) rows).length) := by
    simpa using hwithin
  cases hfits : fitRows (nativeConfig config) (visible (nativeConfig config) rows) startPos with
  | none =>
      -- some row overflows the line
      obtain ⟨taken, left, p₂, htaken, hloop, hkept⟩ :=
        rowsBufLoop_overflow _ (rest.map (.ok : ι → Except ε ι)) [] hopened.flow hwithin'
          (hstart ▸ hfits)
      have hbracket : ¬ BracketOverflows (nativeConfig config) rows := by
        rintro ⟨pos, hline, -⟩
        rw [fitLine, hfits] at hline
        cases hline
      have hdots : ¬ DotsOverflow (nativeConfig config) rows := by
        rintro ⟨pos, hrows, -⟩
        rw [hfits] at hrows
        cases hrows
      rw [← hmap, List.nil_append, ← List.map_append] at hloop
      rw [htaken] at hwithin hover
      obtain ⟨counter, q₁, q₂, items, hbuffered, hstream, hflow, hitems, hsame⟩ :=
        restart_rows (ε := ε) taken left rest hwithin hover
          (reopenBlock_eq (nativeConfig config) hopened hkept).1
      obtain ⟨out, hnative, hout⟩ :=
        nativeFormat_restart hopen hopened hloop rfl hkept hbuffered hstream hflow hsame
      refine ⟨out, items, hnative, htaken ▸ hitems, .complete hbracket hdots ?_⟩
      rw [hout, dots_eq_of_more hmore]
      exact strip_canonical hitems.tight
  | some pos =>
      obtain ⟨p₂, items, hloop, hflows, hitems, hsame⟩ :=
        rowsBufLoop_fit _ (rest.map (.ok : ι → Except ε ι)) [] hopened.flow hwithin'
          (hstart ▸ hfits)
      rw [← hmap, List.nil_append] at hloop
      cases rest with
      | nil =>
          have hnone : hasMore (nativeConfig config) rows = false :=
            Bool.eq_false_iff.mpr fun h => hmore.mp h rfl
          have hdots : ¬ DotsOverflow (nativeConfig config) rows := by
            rintro ⟨pos', -, -, hlen⟩
            rw [length_visible_add rows hsplit] at hlen
            simp at hlen
          have hline : fitLine (nativeConfig config) rows = some pos := by
            rw [fitLine, hfits, hnone]
            rfl
          obtain ⟨out, hout⟩ := ending_of_line hopen hopened hloop hflows hline hitems hdots
            (by simpa [hnone] using hsame)
          exact ⟨out, items, hout.1, hitems, hout.2⟩
      | cons v rest =>
          have hsome : hasMore (nativeConfig config) rows = true := hmore.mpr (by simp)
          have hover' : overLimit (nativeConfig config)
              (visible (nativeConfig config) rows ++ [v]).length := by
            simpa using hover (by simp)
          cases hdots : fitDots (nativeConfig config) pos with
          | some pos' =>
              obtain ⟨p₃, ts, hop, hflows', -, rfl, hsame'⟩ :=
                prints_ellipsis.fit p₂ pos' hflows.flow trivial (by rw [hflows.pos]; exact hdots)
              have hloop' : rowsBufLoop (nativeConfig config)
                  (rows.map (.ok : ι → Except ε ι)) [] p₁ =
                  .ok ⟨p₃, [], visible (nativeConfig config) rows ++ [v], false⟩ := by
                rw [hloop, List.map_cons]
                simp only [rowsBufLoop]
                rw [if_pos hover', hop]
                simp only [consume_ok]
              have hline : fitLine (nativeConfig config) rows = some pos' := by
                rw [fitLine, hfits, hsome]
                exact hdots
              have hnot : ¬ DotsOverflow (nativeConfig config) rows := by
                rintro ⟨pos'', hrows, hnone, -⟩
                obtain rfl := Option.some.inj (hfits.symm.trans hrows)
                rw [hdots] at hnone
                cases hnone
              obtain ⟨out, hout⟩ := ending_of_line hopen hopened hloop' (hflows.trans hflows')
                hline hitems hnot (by
                  rw [hsome]
                  exact hsame.trans_append hsame')
              exact ⟨out, items, hout.1, hitems, hout.2⟩
          | none =>
              obtain ⟨p₃, hop, hkept, -⟩ :=
                prints_ellipsis.overflow p₂ hflows.flow trivial (by rw [hflows.pos]; exact hdots)
              have hloop' : rowsBufLoop (nativeConfig config)
                  (rows.map (.ok : ι → Except ε ι)) [] p₁ =
                  .error (.disableFlow, ⟨p₃, rest.map .ok,
                    visible (nativeConfig config) rows ++ [v], false⟩) := by
                rw [hloop, List.map_cons]
                simp only [rowsBufLoop]
                rw [if_pos hover', hop]
              have hkept' : Kept p₁ p₃ := hflows.kept.trans hkept
              obtain ⟨counter, q₁, q₂, items', hbuffered, hstream, hflow, hitems', hsame'⟩ :=
                restart_dots (ε := ε) _ v rest hwithin (hover (by simp))
                  (reopenBlock_eq (nativeConfig config) hopened hkept').1
              obtain ⟨out, hnative, hout⟩ := nativeFormat_restart hopen hopened hloop' rfl hkept'
                hbuffered hstream hflow hsame'
              refine ⟨out, items', hnative, hitems', ?_⟩
              by_cases hrest : rest = []
              · -- one row is left out: the dots are printed once
                subst hrest
                refine .complete ?_ ?_ ?_
                · rintro ⟨pos', hline, -⟩
                  rw [fitLine, hfits, hsome] at hline
                  rw [show fitDots (nativeConfig config) pos = some pos' from hline] at hdots
                  cases hdots
                · rintro ⟨pos', -, -, hlen⟩
                  rw [length_visible_add rows hsplit] at hlen
                  simp at hlen
                · rw [hout, if_pos rfl, ← strip_canonical hitems'.tight, hsome]
                  rfl
              · refine .dotsTwice ⟨pos, hfits, hdots, ?_⟩
                  (strip (.opening "\x7b" :: commaed items')) ?_
                · rw [length_visible_add rows hsplit, List.length_cons]
                  have := List.length_pos_iff.mpr hrest
                  omega
                · rw [hout, if_neg hrest]
                  have hend := strip_append (b := [.dots, .dots, .closing "\x7d"])
                    (by simp [strip, pushToken]) (.opening "\x7b" :: commaed items')
                  simpa [strip, pushToken] using hend

omit [FormatExt ι] in
/-- Rows followed by commas do not end in dots. -/
theorem commaed_last (items : List (List Token)) (init : List Token) :
    .opening "\x7b" :: commaed items ≠ init ++ [.dots] := by
  intro h
  have hlast := congrArg List.getLast? h
  rw [List.getLast?_concat] at hlast
  by_cases hitems : items = []
  · subst hitems
    simp [commaed] at hlast
  · rw [commaed_eq items hitems, ← List.cons_append, List.getLast?_concat] at hlast
    simp at hlast

theorem hasMore_of_dotsOverflow {rows : List ι} (h : DotsOverflow cfg rows) :
    hasMore cfg rows = true := by
  obtain ⟨-, -, -, hlen⟩ := h
  obtain ⟨rest, hsplit, -, hmore, -⟩ := visible_split cfg rows
  rw [length_visible_add rows hsplit] at hlen
  exact hmore.mpr (List.ne_nil_of_length_pos (by omega))

/-- **Layouts show the same**: complete outputs of the same rows, printed to any
two widths, have the same content, unless a vector is cut to the width. -/
theorem Complete.content_eq {cfg' : PrinterConfig} {rows : List ι} {out out' : List CString}
    (h : Complete cfg rows out) (h' : Complete cfg' rows out')
    (hlimit : cfg.maxItems = cfg'.maxItems)
    (hformat : ∀ v : ι, FormatExt.format cfg v = FormatExt.format cfg' v)
    (hfixed : ∀ v : ι, (FormatExt.format cfg v).Fixed) : content out = content out' := by
  obtain ⟨items, hitems, hout⟩ := h
  obtain ⟨items', hitems', hout'⟩ := h'
  have hvisible : visible cfg rows = visible cfg' rows := by
    simp only [visible, hlimit]
  have hmore : hasMore cfg rows = hasMore cfg' rows := by
    simp only [hasMore, hlimit]
  have huniq : items = items' := by
    rw [← hvisible] at hitems'
    unfold RowsShow at hitems hitems'
    clear hout hout' hvisible
    generalize visible cfg rows = shownRows at hitems hitems'
    induction hitems generalizing items' with
    | nil =>
        cases hitems'
        rfl
    | cons hrow _ ih =>
        cases hitems' with
        | cons hrow' hrest' =>
            rw [← hformat] at hrow'
            rw [hrow.unique (hfixed _) hrow', ih _ hrest']
  rw [hout, hout', huniq, hmore]

end Rows

/-! ## The two overflows -/

/-- No colours, two spaces of indentation, a width and a limit. -/
def plainConfig (maxWidth : Nat) (maxItems : Option Nat) : PrinterConfig where
  colors := false
  indent := 2
  expandStrings := true
  maxWidth := maxWidth
  implicitProperties := false
  maxItems := maxItems
  maxVectorLength := .unlimited
  trailingComma := true
  graphemes := fun s => s.toList.map fun c => String.singleton c
  graphemes_ascii := fun _ _ => rfl
  paint := fun _ s => s

def numberRows (n : Nat) : List Value := (List.range n).map fun i => .int64 (Int64.ofNat (i + 1))

def printed (config : PrinterConfig) (rows : List Value) : String :=
  renderAll config (nativeFormat config (rows.map (.ok : Value → Except Empty Value))).2

end GelCli.Print
