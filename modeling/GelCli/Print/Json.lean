import GelCli.Print.Native
import GelCli.Print.Written

/-!
# Printing JSON

`src/print/json.rs`, and `json_to_string` and `json_item_to_string` of `src/print/mod.rs`.
Both print through a printer without trailing commas; the first puts the items in brackets.
-/

namespace GelCli.Print

open GelCli.Foundation
open GelCli.Foundation.JsonText

/-- What the `serde_json` crate does: the texts of strings and numbers are literals of JSON.
`readNumber` is a reader of number literals. -/
class SerdeJson (N : Type) where
  stringText : String → String
  numberText : N → String
  readNumber : Text → Option N
  string_literal : ∀ s, StringLiteral s (stringText s).toList
  number_literal : ∀ n, NumberLiteral readNumber n (numberText n).toList

/-! ## Values -/

section Format

variable {N : Type} [SerdeJson N]

def pairEntries (pairs : List (String × Doc)) : Entries :=
  .ofList (pairs.map fun pair => (some (.object pair.1 false), pair.2))

mutual

/-- `Value::format` of `json.rs`. -/
def jsonFormat : JsonValue N → Doc
  | .null => .bool "null"
  | .bool v => .bool (if v then "true" else "false")
  | .string s => .string (SerdeJson.stringText N s)
  | .number n => .number (SerdeJson.numberText n)
  | .array items => .array none (.ofList ((jsonFormatAll items).map fun doc => (none, doc))) false
  | .object dict => .jsonObject (pairEntries (jsonFormatPairs dict))

def jsonFormatAll : List (JsonValue N) → List Doc
  | [] => []
  | item :: items => jsonFormat item :: jsonFormatAll items

/-- A key is printed as its JSON string. -/
def jsonFormatPairs : List (String × JsonValue N) → List (String × Doc)
  | [] => []
  | (key, value) :: dict =>
      (SerdeJson.stringText N key, jsonFormat value) :: jsonFormatPairs dict

end

instance formatExtJson : FormatExt (JsonValue N) where
  format _ := jsonFormat

end Format

/-! ## Texts -/

/-- Where the code panics: `unwrap_exc` and `unreachable!()`. -/
inductive JsonPanic where
  | noDisableFlowAllowed
  | unreachable
deriving DecidableEq, Repr

/-- The printer that both functions make of a configuration. -/
def jsonConfig (config : PrinterConfig) : PrinterConfig := { config with trailingComma := false }

section Strings

variable {ι : Type} [FormatExt ι] (cfg : PrinterConfig)

def formatRowsStr (items : List ι) (opening closing : String) (reopen : Bool) (p : Printer) :
    Except Printer Printer := do
  let p ←
    if reopen then .ok (reopenBlock cfg p)
    else do
      let (_, p) ← openBlock cfg (unstyled [.opening opening]) p
      .ok p
  let p ← items.foldlM (fun p v => formatRow cfg v p) p
  closeBlock cfg (unstyled [.closing closing]) true p

/-- `json_to_string`, with what it wrote to its output. -/
def jsonToString (config : PrinterConfig) (items : List ι) : Except JsonPanic (List CString) :=
  let cfg := jsonConfig config
  match formatRowsStr cfg items "[" "]" false Printer.new with
  | .ok p => .ok (finish cfg p).stream
  | .error p =>
      match formatRowsStr cfg items "[" "]" true p with
      | .ok p => .ok (finish cfg p).stream
      | .error _ => .error .noDisableFlowAllowed

/-- `json_item_to_string` -/
def jsonItemToString (config : PrinterConfig) (item : ι) : Except JsonPanic (List CString) :=
  let cfg := jsonConfig config
  match (FormatExt.format cfg item).format cfg Printer.new with
  | .ok p => .ok (finish cfg p).stream
  | .error _ => .error .unreachable

end Strings

end GelCli.Print
