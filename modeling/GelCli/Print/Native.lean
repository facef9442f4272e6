import GelCli.Print.Rows

/-!
# The native format of values

`impl FormatExt for Value` of `src/print/native.rs`. Numbers and dates that the
protocol crate renders by `to_string` or `{:?}` are given by that text.
-/

namespace GelCli.Print

/-! ## Values -/

structure ShapeElement where
  flagImplicit : Bool
  flagLinkProperty : Bool
  name : String
deriving DecidableEq, Repr

/-- The scalars that are printed by `typed`. -/
inductive TypedKind where
  | configMemory | datetime | localDatetime | localDate | localTime | duration
  | relativeDuration | dateDuration
deriving DecidableEq, Repr

def TypedKind.name : TypedKind → String
  | .configMemory => "cfg::memory"
  | .datetime => "datetime"
  | .localDatetime => "cal::local_datetime"
  | .localDate => "cal::local_date"
  | .localTime => "cal::local_time"
  | .duration => "duration"
  | .relativeDuration => "cal::relative_duration"
  | .dateDuration => "cal::date_duration"

inductive Value where
  | nothing
  | uuid (text : String)
  | str (s : String)
  | bytes (b : List UInt8)
  | int16 (v : Int16)
  | int32 (v : Int32)
  | int64 (v : Int64)
  | float32 (text : String)
  | float64 (text : String)
  | bigInt (v : Int)
  | decimal (text : String)
  | bool (v : Bool)
  | typed (kind : TypedKind) (text : String)
  | json (text : String)
  | set (items : List Value)
  | object (shape : List ShapeElement) (fields : List (Option Value))
  | sparseObject (pairs : List (String × Option Value))
  | tuple (items : List Value)
  | namedTuple (shape : List ShapeElement) (fields : List Value)
  | sqlRow (shape : List ShapeElement) (fields : List (Option Value))
  | array (items : List Value)
  | vector (items : List String)
  | enum (v : String)
  | range (lower upper : Option Value) (incLower incUpper empty : Bool)
  | postGis (wkt : String)

/-! ## Texts of scalars -/

/-- Lower-case hexadecimal digits, padded with zeros. -/
def hex (width n : Nat) : String :=
  let digits := Nat.toDigits 16 n
  String.ofList (List.replicate (width - digits.length) '0' ++ digits)

def formatStringChar (expanded : Bool) (c : Char) : String :=
  let n := c.toNat
  if n ≤ 0x08 ∨ n = 0x0B ∨ n = 0x0C ∨ (0x0E ≤ n ∧ n ≤ 0x1F) ∨ n = 0x7F then "\\x" ++ hex 2 n
  else if 0x80 ≤ n ∧ n ≤ 0x9F then "\\u" ++ hex 4 n
  else if c = '\'' then "\\'"
  else if c = '\\' then "\\\\"
  else if c = '\r' ∧ !expanded then "\\r"
  else if c = '\n' ∧ !expanded then "\\n"
  else if c = '\t' ∧ !expanded then "\\t"
  else String.singleton c

def formatString (s : String) (expanded : Bool) : String :=
  "'" ++ String.join (s.toList.map (formatStringChar expanded)) ++ "'"

def formatByte (b : UInt8) : String :=
  let n := b.toNat
  if n ≤ 0x08 ∨ n = 0x0B ∨ n = 0x0C ∨ (0x0E ≤ n ∧ n ≤ 0x1F) ∨ 0x7F ≤ n then "\\x" ++ hex 2 n
  else if n = 39 then "\\'"
  else if n = 13 then "\\r"
  else if n = 10 then "\\n"
  else if n = 9 then "\\t"
  else if n = 92 then "\\\\"
  else String.singleton (Char.ofNat n)

def formatBytes (bytes : List UInt8) : String :=
  "b'" ++ String.join (bytes.map formatByte) ++ "'"

/-- `trim_end_matches('0')`. -/
def trimEndZeros (txt : List Char) : List Char :=
  (txt.reverse.dropWhile fun c => c = '0').reverse

def formatBigint (v : Int) : String :=
  let txt := (toString v).toList
  let noZeros := trimEndZeros txt
  let zeros := txt.length - noZeros.length
  if zeros > 5 then String.ofList noZeros ++ "e" ++ toString zeros ++ "n"
  else String.ofList txt ++ "n"

/-- On the text of `BigDecimal::to_string`. -/
def formatDecimal (text : String) : String :=
  let txt := text.toList
  if '.' ∈ txt then
    if "0.00000".toList.isPrefixOf txt then
      let noZeros := (txt.drop 2).dropWhile fun c => c = '0'
      let zeros := txt.length - 2 - noZeros.length
      "0." ++ String.ofList noZeros ++ "e-" ++ toString zeros
    else text ++ "n"
  else
    let noZeros := trimEndZeros txt
    let zeros := txt.length - noZeros.length
    if zeros > 5 then String.ofList noZeros ++ ".0e" ++ toString zeros ++ "n"
    else text ++ ".0n"

/-! ## Format -/

def Entries.ofList : List (Option Field × Doc) → Entries
  | [] => .nil
  | (fld, value) :: entries => .cons fld value (Entries.ofList entries)

/-- The items within the limit, and whether there are more. -/
def limited (limit : Option Nat) (docs : List Doc) : Entries × Bool :=
  match limit with
  | some limit =>
      (.ofList ((docs.take limit).map fun doc => (none, doc)), decide (docs.length > limit))
  | none => (.ofList (docs.map fun doc => (none, doc)), false)

/-- The name that `__tname__` gives an object. -/
def objectTypeName : List (ShapeElement × Option Value) → Option String
  | [] => none
  | (fld, value) :: fields =>
      if fld.name = "__tname__" then
        match value with
        | some (.str typeName) => some typeName
        | _ => none
      else objectTypeName fields

def objectField (fld : ShapeElement) : Field :=
  if fld.flagLinkProperty then .object ("@" ++ fld.name) true else .object fld.name false

/-- The fields of an object that are shown: the `id` when there are no others. -/
def objectEntries (implicitProperties : Bool) (fields : List (ShapeElement × Doc)) :
    List (Option Field × Doc) :=
  let shown := fields.filter fun entry => !entry.1.flagImplicit || implicitProperties
  if shown.isEmpty then
    match fields.find? fun entry => entry.1.name == "id" with
    | some (fld, value) => [(some (.object fld.name false), value)]
    | none => []
  else shown.map fun entry => (some (objectField entry.1), entry.2)

def tupleEntries (fields : List (ShapeElement × Doc)) : List (Option Field × Doc) :=
  fields.map fun entry => (some (.tuple entry.1.name), entry.2)

def boolText (v : Bool) : String := if v then "true" else "false"

def rangeEntries (lower upper : Doc) (incLower incUpper empty : Bool) :
    List (Option Field × Doc) :=
  (none, lower) ::
    if !empty then
      (none, upper) ::
        (if !incLower then [(some (.tuple "inc_lower"), .bool (boolText incLower))] else []) ++
        (if incUpper then [(some (.tuple "inc_upper"), .bool (boolText incUpper))] else [])
    else [(some (.tuple "empty"), .bool (boolText empty))]

section Format

variable (cfg : PrinterConfig)

mutual
def Value.format : Value → Doc
  | .nothing => .uuid "Nothing"
  | .uuid text => .uuid text
  | .str s => .string (formatString s cfg.expandStrings)
  | .bytes b => .string (formatBytes b)
  | .int16 v => .number (toString v)
  | .int32 v => .number (toString v)
  | .int64 v => .number (toString v)
  | .float32 text => .number text
  | .float64 text => .number text
  | .bigInt v => .number (formatBigint v)
  | .decimal text => .number (formatDecimal text)
  | .bool v => .bool (boolText v)
  | .typed kind text => .typed kind.name text
  | .json text => .string text
  | .set items =>
      let entries := limited cfg.maxItems (Value.formatAll items)
      .set entries.1 entries.2
  | .object shape fields =>
      .object (objectTypeName (shape.zip fields))
        (.ofList (objectEntries cfg.implicitProperties (shape.zip (Value.formatFields fields))))
  | .sparseObject pairs =>
      .object (some "SparseObject")
        (.ofList ((Value.formatPairs pairs).map fun pair =>
          (some (.object pair.1 false), pair.2)))
  | .tuple items => .tuple (.ofList ((Value.formatAll items).map fun doc => (none, doc)))
  | .namedTuple shape fields =>
      .namedTuple (.ofList (tupleEntries (shape.zip (Value.formatAll fields))))
  | .sqlRow shape fields =>
      .namedTuple (.ofList (tupleEntries (shape.zip (Value.formatFields fields))))
  | .array items =>
      let entries := limited cfg.maxItems (Value.formatAll items)
      .array none entries.1 entries.2
  | .vector items =>
      match cfg.maxVectorLength with
      | .fixed limit =>
          let entries := limited (some limit) (items.map Doc.number)
          .array (some "ext::pgvector::vector") entries.1 entries.2
      | .unlimited =>
          .array (some "ext::pgvector::vector")
            (.ofList (items.map fun item => (none, Doc.number item))) false
      | .auto => .vector items
  | .enum v => .enum v
  | .range lower upper incLower incUpper empty =>
      .call "range" (.ofList (rangeEntries (Value.formatOption lower) (Value.formatOption upper)
        incLower incUpper empty))
  | .postGis wkt => .string wkt

def Value.formatOption : Option Value → Doc
  | some value => value.format
  | none => .nil

def Value.formatAll : List Value → List Doc
  | [] => []
  | value :: values => value.format :: Value.formatAll values

def Value.formatFields : List (Option Value) → List Doc
  | [] => []
  | value :: values => Value.formatOption value :: Value.formatFields values

def Value.formatPairs : List (String × Option Value) → List (String × Doc)
  | [] => []
  | (name, value) :: pairs => (name, Value.formatOption value) :: Value.formatPairs pairs
end

end Format

instance : FormatExt Value where
  format := Value.format

/-- The instance for `Option<Value>`. -/
instance : FormatExt (Option Value) where
  format := Value.formatOption

end GelCli.Print
