import GelCli.Prompt.Combinators

/-!
# Reading a query variable

`VariableInput::parse` of `src/prompt/variable.rs` for every type that a descriptor is
turned into: scalars, arrays, tuples and named tuples.
-/

namespace GelCli.Prompt

open GelCli.Foundation

/-! ## Types and values -/

inductive Scalar where
  | str | uuid | int16 | int32 | int64 | float32 | float64 | bool | bigint | decimal | json
deriving DecidableEq, Repr

/-- A named tuple has its element types under the names of its shape. -/
inductive VarType where
  | scalar (scalar : Scalar)
  | array (elementType : VarType)
  | tuple (elementTypes : List VarType)
  | namedTuple (elements : List (Text × VarType))

inductive Value (V : Type) where
  | str (value : Text)
  | int (value : Int)
  | bool (value : Bool)
  | json (text : Text)
  | other (value : V)
  | array (items : List (Value V))
  | tuple (items : List (Value V))
  | namedTuple (shape : List Text) (fields : List (Value V))

/-- The conversions of other crates, and where `serde_json` ends the first value of a text,
in bytes: it reads whole characters. -/
structure Library (V : Type) where
  unquoteString : Text → Except Text Text
  isAlphanumeric : Char → Bool
  uuid : Text → Except Text V
  float32 : Text → Option V
  float64 : Text → Option V
  bigint : Text → Except Text V
  decimal : Text → Except Text V
  byteOffset : Text → Except Text Nat
  boundary : ∀ s n, byteOffset s = .ok n →
    ∃ before after, Text.splitAtByte s n = some (before, after)

/-! ## Scalars -/

section Parsing

variable {V : Type} (lib : Library V)

def parseFloat (ctx : String) (convert : Text → Option V) : Parser (Value V) := fun input =>
  context ctx ((recognizeFloatOrExceptions input).next fun rest digits =>
    match convert digits with
    | some value => .ok rest (.other value)
    | none => .error (.kind "Float" rest))

def parseBool : Parser (Value V) := fun input =>
  context "bool" (altern (map (fun _ => .bool true) (tagNoCase "true".toList))
    (map (fun _ => .bool false) (tagNoCase "false".toList)) input)

def recognizeBigint : Parser Text :=
  recognize (preceded sign (preceded digit1 (exponent digit1)))

def parseConverted (ctx : String) (recognized : Parser Text) (convert : Text → Except Text V) :
    Parser (Value V) := fun input =>
  context ctx (map .other (fun input => mapRes convert .external input (recognized input)) input)

/-- `Json::parse` -/
def parseJson : Parser (Value V) := fun s =>
  context "json"
    (match lib.byteOffset s with
    | .error reason => .error (.json reason)
    | .ok offset =>
        match Text.splitAtByte s offset with
        | some (before, after) => .ok after (.json before)
        | none => .panic)

def parseScalar (scalar : Scalar) (forceQuotedStrings : Bool) : Parser (Value V) :=
  match scalar with
  | .str => map .str (parseStr lib.unquoteString forceQuotedStrings)
  | .uuid => parseConverted "uuid"
      (takeWhileMN 32 36 fun c => lib.isAlphanumeric c || c = '-') lib.uuid
  | .int16 => fun input => context "int16" (map .int (int 16) input)
  | .int32 => fun input => context "int32" (map .int (int 32) input)
  | .int64 => fun input => context "int64" (map .int (int 64) input)
  | .float32 => parseFloat "float32" lib.float32
  | .float64 => parseFloat "float64" lib.float64
  | .bool => parseBool
  | .bigint => parseConverted "bigint" recognizeBigint lib.bigint
  | .decimal => parseConverted "decimal" recognizeFloatParts lib.decimal
  | .json => parseJson lib

/-! ## Named tuples -/

def isIdent (c : Char) : Bool := c.isAlphanum || c = '_' || c = '-'

def identifier {α : Type} (names : List Text) (get : Text → Option α) : Parser (Text × α) :=
  fun input => (takeWhile0 isIdent input).next fun rest ident =>
    match get ident with
    | some elementType => .ok rest (ident, elementType)
    | none => .error (.unknownIdentifier names)

/-- The name of an element, and the operator behind it. -/
def fieldName {α : Type} (names : List Text) (get : Text → Option α) : Parser (Text × α) :=
  terminated (fun input => context "identifier" (whiteSpace (identifier names get) input))
    (fun input => context "assignment_op" (whiteSpace (tag ":=".toList) input))

/-- `self.shape.elements.iter().position(|e| e.name == name)` -/
def position (names : List Text) (name : Text) : Option Nat :=
  if name ∈ names then some (names.idxOf name) else none

/-- The first name that stands twice. -/
def duplicate (names : List Text) : Option Text :=
  (names.zipIdx.find? fun x => x.1 ∈ names.take x.2).map Prod.fst

/-- The elements in the order of the shape; a name that is not in it panics, if it is
compared with another. -/
def namedTupleValue (names : List Text) (rest : Text) (result : List (Text × Value V)) :
    Parsed (Value V) :=
  if result.length < names.length then
    .error (.missingElements (names.filter fun name => !result.any fun t => t.1 = name))
  else
    match duplicate (result.map Prod.fst) with
    | some name => .error (.duplicateElement name)
    | none =>
        if 2 ≤ result.length ∧ result.any fun t => (position names t.1).isNone then .panic
        else
          .ok rest (.namedTuple names ((result.mergeSort fun a b =>
            (position names a.1).getD 0 ≤ (position names b.1).getD 0).map Prod.snd))

/-! ## All types -/

def comma : Parser Unit := whiteSpace (char ',')

def parseArray (element : Parser (Value V)) : Parser (Value V) := fun input =>
  context "array" (map .array
    (preceded (whiteSpace (char '['))
      (terminated (trailingSeparatedList0 comma element) (preceded multispace0 (char ']')))) input)

/-- `delimited(white_space(char('(')), body, ..)` -/
def parseTuple (elements : Nat) (body : Parser (List (Value V))) : Parser (Value V) := fun input =>
  context "tuple" (map .tuple
    (preceded (whiteSpace (char '('))
      (terminated body
        (preceded (cond (decide (0 < elements)) (opt comma))
          (preceded multispace0 (char ')'))))) input)

/-- An element of a named tuple: its name, then its value. -/
def parseField (names : List Text) (get : Text → Option (Parser (Value V))) :
    Parser (Text × Value V) := fun input =>
  (fieldName names get input).next fun rest element =>
    (context "named_tuple_element" (element.2 rest)).next fun rest value =>
      .ok rest (element.1, value)

def parseNamedTuple (names : List Text) (get : Text → Option (Parser (Value V))) :
    Parser (Value V) := fun input =>
  context "named_tuple"
    ((preceded (whiteSpace (char '('))
      (terminated (trailingSeparatedList0 comma (parseField names get))
        (preceded multispace0 (char ')'))) input).next (namedTupleValue names))

mutual

def parse : VarType → (forceQuotedStrings : Bool) → Parser (Value V)
  | .scalar scalar, forceQuotedStrings => parseScalar lib scalar forceQuotedStrings
  | .array elementType, _ => parseArray (parse elementType true)
  | .tuple elementTypes, _ => parseTuple elementTypes.length (parseElements elementTypes true)
  | .namedTuple elements, _ => parseNamedTuple (elements.map Prod.fst) (parserOf elements)

/-- The elements of a tuple; there is a comma before each but the first. -/
def parseElements : List VarType → (first : Bool) → Parser (List (Value V))
  | [], _ => fun input => .ok input []
  | elementType :: elementTypes, first => fun input =>
      (cond (!first) comma input).next fun rest _ =>
        (parse elementType true rest).next fun rest value =>
          (parseElements elementTypes false rest).next fun rest values => .ok rest (value :: values)

/-- `self.element_types.get(ident)`: of two elements of one name the last counts. -/
def parserOf : List (Text × VarType) → Text → Option (Parser (Value V))
  | [], _ => none
  | (name, elementType) :: elements, ident =>
      match parserOf elements ident with
      | some parser => some parser
      | none => if name = ident then some (parse elementType true) else none

end

end Parsing

end GelCli.Prompt
