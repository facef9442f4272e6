import GelCli.Print.Formatter

/-!
# Printing a stream of rows

`format_rows_buf`, `format_rows` and `_native_format` of `src/print/mod.rs`. The
rows are first printed on one line while they arrive and are kept in a buffer;
when the line overflows, the buffered rows are printed again one a line and the
rest of the stream follows.
-/

namespace GelCli.Print

/-- What can be printed: a value says which formatter calls print it. -/
class FormatExt (ι : Type) where
  format : PrinterConfig → ι → Doc

inductive Exception (ε : Type) where
  | disableFlow
  | error (e : ε)

/-- How `_native_format` ends: `panic` is the message of `unwrap_exc`. -/
inductive Outcome (ε : Type) where
  | ok
  | err (e : ε)
  | panic (message : String)

section Rows

variable {ι ε : Type} [FormatExt ι] (cfg : PrinterConfig)

def formatRow (v : ι) (p : Printer) : Except Printer Printer :=
  (FormatExt.format cfg v).format cfg p >>= comma cfg

def overLimit (n : Nat) : Prop :=
  match cfg.maxItems with
  | some limit => n > limit
  | none => False

instance (n : Nat) : Decidable (overLimit cfg n) := by
  unfold overLimit
  cases cfg.maxItems with
  | none => exact instDecidableFalse
  | some limit => exact Nat.decLt limit n

/-- Consume extra items if any. -/
def consume : List (Except ε ι) → Except ε Unit
  | [] => .ok ()
  | .ok _ :: rows => consume rows
  | .error e :: _ => .error e

/-- What `format_rows_buf` has when it stops: the printer, the rows it did not
take from the stream, the rows it did take and its end-of-stream flag. -/
structure RowsBuf (ι ε : Type) where
  printer : Printer
  rows : List (Except ε ι)
  rowBuf : List ι
  endOfStream : Bool

def rowsBufLoop : List (Except ε ι) → List ι → Printer →
    Except (Exception ε × RowsBuf ι ε) (RowsBuf ι ε)
  | [], rowBuf, p => .ok ⟨p, [], rowBuf, false⟩
  | .error e :: rows, rowBuf, p => .error (.error e, ⟨p, rows, rowBuf, false⟩)
  | .ok v :: rows, rowBuf, p =>
      let rowBuf := rowBuf ++ [v]
      if overLimit cfg rowBuf.length then
        match ellipsis cfg p with
        | .error p => .error (.disableFlow, ⟨p, rows, rowBuf, false⟩)
        | .ok p =>
            match consume rows with
            | .error e => .error (.error e, ⟨p, [], rowBuf, false⟩)
            | .ok () => .ok ⟨p, [], rowBuf, false⟩
      else
        match formatRow cfg v p with
        | .error p => .error (.disableFlow, ⟨p, rows, rowBuf, false⟩)
        | .ok p => rowsBufLoop rows rowBuf p

def formatRowsBuf (rows : List (Except ε ι)) (p : Printer) :
    Except (Exception ε × RowsBuf ι ε) (RowsBuf ι ε) :=
  match openBlock cfg (styled .set (.opening "\x7b")) p with
  | .error p => .error (.disableFlow, ⟨p, rows, [], false⟩)
  | .ok (_, p) =>
      match rowsBufLoop cfg rows [] p with
      | .error e => .error e
      | .ok s =>
          match closeBlock cfg (styled .set (.closing "\x7d")) true s.printer with
          | .error p => .error (.disableFlow, { s with printer := p, endOfStream := true })
          | .ok p => .ok { s with printer := p, endOfStream := true }

/-- The `for v in buffered_rows` loop, with its counter. -/
def bufferedRows : List ι → Nat → Printer → Except Printer (Nat × Printer)
  | [], counter, p => .ok (counter, p)
  | v :: buffered, counter, p =>
      if overLimit cfg (counter + 1) then do
        let p ← ellipsis cfg p
        .ok (counter + 1, p)
      else do
        let p ← formatRow cfg v p
        bufferedRows buffered (counter + 1) p

def streamRows : List (Except ε ι) → Nat → Printer →
    Except (Exception ε × Printer) Printer
  | [], _, p => .ok p
  | .error e :: _, _, p => .error (.error e, p)
  | .ok v :: rows, counter, p =>
      if overLimit cfg (counter + 1) then
        match ellipsis cfg p with
        | .error p => .error (.disableFlow, p)
        | .ok p =>
            match consume rows with
            | .error e => .error (.error e, p)
            | .ok () => .ok p
      else
        match formatRow cfg v p with
        | .error p => .error (.disableFlow, p)
        | .ok p => streamRows rows (counter + 1) p

def formatRows (buffered : List ι) (rows : List (Except ε ι)) (p : Printer) :
    Except (Exception ε × Printer) Printer :=
  match bufferedRows cfg buffered 0 (reopenBlock cfg p) with
  | .error p => .error (.disableFlow, p)
  | .ok (counter, p) =>
      match streamRows cfg rows counter p with
      | .error e => .error e
      | .ok p =>
          match closeBlock cfg (styled .set (.closing "\x7d")) true p with
          | .error p => .error (.disableFlow, p)
          | .ok p => .ok p

/-- The printer that `_native_format` makes of a configuration. -/
def nativeConfig (config : PrinterConfig) : PrinterConfig :=
  { config with trailingComma := true }

/-- `_native_format`, with what it wrote to its output. -/
def nativeFormat (config : PrinterConfig) (rows : List (Except ε ι)) :
    Outcome ε × List CString :=
  let cfg := nativeConfig config
  match formatRowsBuf cfg rows Printer.new with
  | .ok s => (.ok, (finish cfg s.printer).stream)
  | .error (.disableFlow, s) =>
      if !s.endOfStream then
        match formatRows cfg s.rowBuf s.rows s.printer with
        | .ok p => (.ok, (finish cfg p).stream)
        | .error (.disableFlow, p) => (.panic "no DisableFlow allowed", p.stream)
        | .error (.error e, p) => (.err e, p.stream)
      else (.ok, (finish cfg s.printer).stream)
  | .error (.error e, s) => (.err e, s.printer.stream)

end Rows

end GelCli.Print
