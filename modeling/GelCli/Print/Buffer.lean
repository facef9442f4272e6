import Mathlib.Init

/-!
# The printer

The `Printer` of `src/print/mod.rs` and its operations in `src/print/buffer.rs`.
A block is first printed on one line (flow); what does not fit throws
`DisableFlow`, the block rolls back to its opening bracket and is printed again
one element a line.

An operation is a function `Printer → Except Printer Printer`: `error` is the
`DisableFlow` exception together with the state in which it leaves the printer.
The text buffers hold the strings as they were pushed, each cut into pieces that
say what they are for; `Printer.render` is the text itself.
-/

namespace GelCli.Print

/-! ## Styled strings -/

inductive Style where
  | string | number | boolean | uuid | enum | cast | set | array | tuple
  | tupleField | object | linkProperty | pointer | error
deriving DecidableEq, Repr

/-- How a string is styled: by the styler, by `muted()` or by `unstyled()`. -/
inductive Coloring where
  | style (style : Style)
  | muted
  | unstyled
deriving DecidableEq, Repr

/-- A part of a pushed string, under the role it has in the output. -/
inductive Piece where
  | text (s : String)
  | opening (s : String)
  | closing (s : String)
  | comma
  | dots
  | hint (limit : Nat)
  | spaces (n : Nat)
  | newline
deriving DecidableEq, Repr

def Piece.plain : Piece → String
  | .text s => s
  | .opening s => s
  | .closing s => s
  | .comma => ","
  | .dots => "..."
  | .hint limit => " (further results hidden `\\set limit " ++ toString limit ++ "`)"
  | .spaces n => String.ofList (List.replicate n ' ')
  | .newline => "\n"

structure CString where
  coloring : Coloring
  pieces : List Piece
deriving DecidableEq, Repr

def CString.toStr (s : CString) : String := String.join (s.pieces.map Piece.plain)

def styled (style : Style) (piece : Piece) : CString := ⟨.style style, [piece]⟩

def unstyled (pieces : List Piece) : CString := ⟨.unstyled, pieces⟩

/-! ## The printer's state -/

inductive VectorLimit where
  | unlimited
  | fixed (limit : Nat)
  | auto
deriving DecidableEq, Repr

/-- The `// config` half of the printer, with the two crates it prints through:
`unicode_segmentation` for the width of a string, `colorful` for its escapes. -/
structure PrinterConfig where
  colors : Bool
  indent : Nat
  expandStrings : Bool
  maxWidth : Nat
  implicitProperties : Bool
  maxItems : Option Nat
  maxVectorLength : VectorLimit
  trailingComma : Bool
  graphemes : String → List String
  /-- Printable ASCII characters are graphemes of their own. -/
  graphemes_ascii : ∀ s : String, (∀ c ∈ s.toList, ' ' ≤ c ∧ c ≤ '~') →
    graphemes s = s.toList.map fun c => String.singleton c
  paint : Coloring → String → String

inductive Delim where
  | none
  | comma
  | field
deriving DecidableEq, Repr

/-- The `// state` half. -/
structure Printer where
  buffer : List CString
  stream : List CString
  delim : Delim
  flow : Bool
  committed : Nat
  committedIndent : Nat
  committedColumn : Nat
  column : Nat
  curIndent : Nat
deriving DecidableEq, Repr

def Printer.new : Printer where
  buffer := []
  stream := []
  delim := .none
  flow := false
  committed := 0
  committedIndent := 0
  committedColumn := 0
  column := 0
  curIndent := 0

variable (cfg : PrinterConfig)

def render (s : CString) : String :=
  if cfg.colors then cfg.paint s.coloring s.toStr else s.toStr

/-- The text that a list of pushed strings amounts to. -/
def renderAll (strings : List CString) : String := String.join (strings.map (render cfg))

/-! ## Operations -/

def highWaterMark : Nat := 4096

def flushBuf (p : Printer) : Printer :=
  { p with stream := p.stream ++ p.buffer, buffer := [], committed := 0 }

/-- The pass over the graphemes of a string to be written. -/
def advance (p : Printer) : List String → Except Printer Printer
  | [] => .ok p
  | g :: graphemes =>
      if g = "\n" then
        if p.flow then .error p else advance { p with column := 0 } graphemes
      else advance { p with column := p.column + 1 } graphemes

def write (s : CString) (p : Printer) : Except Printer Printer := do
  let p ← advance p (cfg.graphemes s.toStr)
  if p.flow ∧ cfg.maxWidth < p.column then
    .error p
  else
    .ok { p with buffer := p.buffer ++ [s] }

def commitLine (p : Printer) : Printer :=
  let buffer := p.buffer ++ [unstyled [.newline]]
  flushBuf { p with column := 0, buffer := buffer, committed := buffer.length,
                    committedIndent := p.curIndent, committedColumn := 0 }

def commit (p : Printer) : Printer :=
  let p := { p with committed := p.buffer.length, committedIndent := p.curIndent,
                    committedColumn := p.column }
  if (renderAll cfg p.buffer).utf8ByteSize > highWaterMark then flushBuf p else p

/-- The pieces of 32 spaces are pushed as one. -/
def writeIndent (p : Printer) : Printer :=
  { p with buffer := p.buffer ++ [unstyled [.spaces p.curIndent]],
           column := p.column + p.curIndent }

def rollback (p : Printer) : Printer :=
  { p with buffer := p.buffer.take p.committed, curIndent := p.committedIndent,
           column := p.committedColumn }

def finish (p : Printer) : Printer := flushBuf (commit cfg p)

def openBlock (val : CString) (p : Printer) : Except Printer (Bool × Printer) := do
  let p ← write cfg val { p with delim := .none }
  if p.flow then
    .ok (false, p)
  else
    .ok (true, { commit cfg p with flow := true })

def reopenBlock (p : Printer) : Printer :=
  let p := commitLine (rollback { p with delim := .none, flow := false })
  { p with curIndent := p.curIndent + cfg.indent }

def comma (p : Printer) : Except Printer Printer :=
  if p.flow || !cfg.trailingComma then
    .ok { p with delim := .comma }
  else do
    let p ← write cfg (unstyled [.comma]) p
    .ok (commitLine p)

def delimit (p : Printer) : Except Printer Printer := do
  let p ←
    if p.delim = .comma then
      if p.flow then
        write cfg (unstyled [.comma, .spaces 1]) p
      else do
        let p ← write cfg (unstyled [.comma]) p
        .ok (commitLine p)
    else .ok p
  let p := if !p.flow && p.delim ≠ .field then writeIndent p else p
  .ok { p with delim := .none }

def ellipsis (p : Printer) : Except Printer Printer := do
  let p ← delimit cfg p
  if p.flow then
    write cfg (unstyled [.dots]) p
  else do
    let p ← write cfg (unstyled [.dots]) p
    write cfg ⟨.muted, [.hint (cfg.maxItems.getD 0), .newline]⟩ p

def field (p : Printer) : Except Printer Printer :=
  write cfg (unstyled [.text ": "]) { p with delim := .field }

def closeBlock (val : CString) (flag : Bool) (p : Printer) : Except Printer Printer := do
  let p := if p.delim = .comma && !p.flow then commitLine p else p
  let p := { p with delim := .none }
  let p := if !p.flow then writeIndent { p with curIndent := p.curIndent - cfg.indent } else p
  let p ← write cfg val p
  .ok (if flag then { p with flow := false } else p)

def block (opening : CString) (f : Printer → Except Printer Printer) (closing : CString)
    (p : Printer) : Except Printer Printer := do
  let (flag, p) ← openBlock cfg opening p
  match f p >>= closeBlock cfg closing flag with
  | .ok p => .ok p
  | .error p =>
      if flag then
        f (reopenBlock cfg p) >>= closeBlock cfg closing flag
      else .error p

end GelCli.Print
