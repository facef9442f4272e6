import GelCli.Print.Buffer

/-!
# The formatter

`src/print/formatter.rs`. A `format` method is generic in its `Formatter` and
sees nothing of the printer but four settings, so what it does is a tree of
formatter calls; `Doc` is that tree and `Doc.format` runs it on a printer.
-/

namespace GelCli.Print

/-! ## Trees of formatter calls -/

inductive Field where
  | object (name : String) (linkprop : Bool)
  | tuple (name : String)
deriving DecidableEq, Repr

mutual
/-- One value: a constant, a cast string, a bracketed block (with an ellipsis
after its entries if `more`) or a vector cut to the width. -/
inductive Doc where
  | const (style : Style) (text : String)
  | typed (typ : String) (text : String)
  | block (style : Style) (opening closing : String) (entries : Entries) (more : Bool)
  | vector (items : List String)

/-- The entries of a block, each followed by a `comma()`. -/
inductive Entries where
  | nil
  | cons (field : Option Field) (value : Doc) (entries : Entries)
end

namespace Doc

def number (text : String) : Doc := .const .number text
def string (text : String) : Doc := .const .string text
def uuid (text : String) : Doc := .const .uuid text
def bool (text : String) : Doc := .const .boolean text
def enum (text : String) : Doc := .const .enum text
def «nil» : Doc := .const .set "\x7b\x7d"

def set (entries : Entries) (more : Bool) : Doc :=
  .block .set "\x7b" "\x7d" entries more

def tuple (entries : Entries) : Doc := .block .tuple "(" ")" entries false

def namedTuple (entries : Entries) : Doc := .block .tuple "(" ")" entries false

def call (name : String) (entries : Entries) : Doc :=
  .block .tuple (name ++ "(") ")" entries false

def array (typeName : Option String) (entries : Entries) (more : Bool) : Doc :=
  match typeName with
  | some typeName => .block .array ("<" ++ typeName ++ ">[") "]" entries more
  | none => .block .array "[" "]" entries more

def object (typeName : Option String) (entries : Entries) : Doc :=
  match typeName with
  | some typeName =>
      if typeName = "std::FreeObject" then .block .object "\x7b" "\x7d" entries false
      else .block .object (typeName ++ " \x7b") "\x7d" entries false
  | none => .block .object "Object \x7b" "\x7d" entries false

def jsonObject (entries : Entries) : Doc := .block .object "\x7b" "\x7d" entries false

end Doc

/-! ## Running them on the printer -/

variable (cfg : PrinterConfig)

def formatConst (style : Style) (text : String) (p : Printer) :
    Except Printer Printer := do
  let p ← delimit cfg p
  write cfg (styled style (.text text)) p

/-- `char::escape_default` of the standard library. -/
def escapeDefaultChar (c : Char) : String :=
  if c = '\t' then "\\t"
  else if c = '\r' then "\\r"
  else if c = '\n' then "\\n"
  else if c = '\'' then "\\'"
  else if c = '"' then "\\\""
  else if c = '\\' then "\\\\"
  else if ' ' ≤ c ∧ c ≤ '~' then String.singleton c
  else "\\u\x7b" ++ String.ofList (Nat.toDigits 16 c.toNat) ++ "\x7d"

def escapeDefault (s : String) : String := String.join (s.toList.map escapeDefaultChar)

def formatTyped (typ text : String) (p : Printer) : Except Printer Printer := do
  let p ← delimit cfg p
  let p ← write cfg (styled .cast (.text ("<" ++ typ ++ ">"))) p
  write cfg (styled .string (.text ("'" ++ escapeDefault text ++ "'"))) p

def Field.format : Field → Printer → Except Printer Printer
  | .object name linkprop, p => do
      let p ← delimit cfg p
      let p ← write cfg (styled (if linkprop then .linkProperty else .pointer) (.text name)) p
      field cfg p
  | .tuple name, p => do
      let p ← delimit cfg p
      let p ← write cfg (styled .tupleField (.text name)) p
      write cfg (styled .tuple (.text " := ")) p

/-! ### Vectors cut to the width -/

/-- What the closure `first_try` leaves behind, also when it fails. -/
structure VectorTry where
  printer : Printer
  printed : Nat
  savepoint : Nat × Nat

def vectorTail : String := ", ...],"

def firstTry : List String → VectorTry → Except VectorTry VectorTry
  | [], t => .ok t
  | item :: items, t =>
      match formatConst cfg .number item t.printer >>= comma cfg with
      | .error p => .error { t with printer := p }
      | .ok p =>
          let colLeft := cfg.maxWidth - p.column
          if colLeft > vectorTail.length then
            firstTry items
              { printer := p, printed := t.printed + 1,
                savepoint := (p.buffer.length, p.column) }
          else .error { t with printer := p }

/-- The items after `iter.by_ref().take(3)` decide about the dots. -/
def threeItems (items : List String) (dots : CString) (p : Printer) :
    Except Printer Printer := do
  let p ← (items.take 3).foldlM
    (fun p item => formatConst cfg .number item p >>= comma cfg) p
  if items.drop 3 ≠ [] then
    let p ← delimit cfg p
    write cfg dots p
  else .ok p

def vectorClose (flag : Bool) : Printer → Except Printer Printer :=
  closeBlock cfg (styled .array (.closing "]")) flag

/-- `first_try().and_then(close_block)`. -/
def vectorAttempt (items : List String) (flag : Bool) (p : Printer) :
    Except VectorTry Printer :=
  match firstTry cfg items ⟨p, 0, p.buffer.length, p.column⟩ with
  | .error t => .error t
  | .ok t =>
      match vectorClose cfg flag t.printer with
      | .ok p => .ok p
      | .error p => .error { t with printer := p }

/-- Back to the savepoint, then the dots on the same line. -/
def vectorElided (flag : Bool) (t : VectorTry) : Except Printer Printer :=
  let p := { t.printer with buffer := t.printer.buffer.take t.savepoint.1,
                            column := t.savepoint.2 }
  delimit cfg p >>= write cfg (unstyled [.dots]) >>= vectorClose cfg flag

def vectorInBlock (items : List String) (flag : Bool) (p : Printer) :
    Except Printer Printer :=
  threeItems cfg items (unstyled [.dots, .newline]) (reopenBlock cfg p) >>=
    vectorClose cfg flag

/-- What follows the opening bracket. -/
def vectorRest (items : List String) (flag : Bool) (p : Printer) :
    Except Printer Printer :=
  if p.flow then
    match vectorAttempt cfg items flag p with
    | .ok p => .ok p
    | .error t =>
        if flag then
          if t.printed ≥ 3 then
            match vectorElided cfg flag t with
            | .ok p => .ok p
            | .error p => vectorInBlock cfg items flag p
          else vectorInBlock cfg items flag t.printer
        else .error t.printer
  else
    threeItems cfg items (unstyled [.dots]) p >>= vectorClose cfg flag

def autoSizedVector (items : List String) (p : Printer) : Except Printer Printer := do
  let p ← delimit cfg p
  let (flag, p) ← openBlock cfg (styled .array (.opening "<ext::pgvector::vector>[")) p
  vectorRest cfg items flag p

mutual
def Doc.format : Doc → Printer → Except Printer Printer
  | .const style text, p => formatConst cfg style text p
  | .typed typ text, p => formatTyped cfg typ text p
  | .block style opening closing entries more, p => do
      let p ← delimit cfg p
      block cfg (styled style (.opening opening))
        (fun p => do
          let p ← Entries.format entries p
          if more then ellipsis cfg p else .ok p)
        (styled style (.closing closing)) p
  | .vector items, p => autoSizedVector cfg items p

def Entries.format : Entries → Printer → Except Printer Printer
  | .nil, p => .ok p
  | .cons fld value entries, p => do
      let p ← match fld with
        | some fld => fld.format cfg p
        | none => .ok p
      let p ← Doc.format value p
      let p ← comma cfg p
      Entries.format entries p
end

end GelCli.Print
