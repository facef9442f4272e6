import GelCli.Foundation.Text

/-!
# JSON values

The values that `json.loads` returns and how a program reads them: by key, and by
the kind it expects. Numbers are integers, and the keys of an object do not repeat.
-/

namespace GelCli.Foundation

inductive Json where
  | null
  | bool (b : Bool)
  | num (n : Int)
  | str (s : Text)
  | arr (items : List Json)
  | obj (fields : List (String × Json))

namespace Json

/-! ## Reading -/

def find? (key : String) : Json → Option Json
  | .obj fields => fields.lookup key
  | _ => none

/-- `value.get(key)`: a key that is absent reads as `None`. -/
def get (key : String) (value : Json) : Json := (value.find? key).getD .null

def str? : Json → Option Text
  | .str s => some s
  | _ => none

/-- An integer. Python counts a boolean as one, and every caller rules it out. -/
def int? : Json → Option Int
  | .num n => some n
  | _ => none

def bool? : Json → Option Bool
  | .bool b => some b
  | _ => none

def arr? : Json → Option (List Json)
  | .arr items => some items
  | _ => none

def isObj : Json → Bool
  | .obj _ => true
  | _ => false

@[simp] theorem get_obj (key : String) (fields : List (String × Json)) :
    (Json.obj fields).get key = (fields.lookup key).getD .null := rfl

@[simp] theorem str?_eq_some {value : Json} {s : Text} :
    value.str? = some s ↔ value = .str s := by
  cases value <;> simp [str?]

@[simp] theorem int?_eq_some {value : Json} {n : Int} :
    value.int? = some n ↔ value = .num n := by
  cases value <;> simp [int?]

@[simp] theorem bool?_eq_some {value : Json} {b : Bool} :
    value.bool? = some b ↔ value = .bool b := by
  cases value <;> simp [bool?]

@[simp] theorem arr?_eq_some {value : Json} {items : List Json} :
    value.arr? = some items ↔ value = .arr items := by
  cases value <;> simp [arr?]

/-! ## `repr`

The text of a value in an error. Characters outside ASCII print as themselves. -/

def reprQuote (s : Text) : Char := if '\'' ∈ s ∧ '"' ∉ s then '"' else '\''

def reprChar (quote c : Char) : Text :=
  if c = quote ∨ c = '\\' then ['\\', c]
  else if c = '\n' then ['\\', 'n']
  else if c = '\r' then ['\\', 'r']
  else if c = '\t' then ['\\', 't']
  else if c < ' ' ∨ c = '\x7f' then
    ['\\', 'x', Nat.digitChar (c.toNat / 16), Nat.digitChar (c.toNat % 16)]
  else [c]

def reprText (s : Text) : String :=
  String.ofList (reprQuote s :: s.flatMap (reprChar (reprQuote s)) ++ [reprQuote s])

mutual

def repr : Json → String
  | .null => "None"
  | .bool b => if b then "True" else "False"
  | .num n => toString n
  | .str s => reprText s
  | .arr items => "[" ++ ", ".intercalate (reprItems items) ++ "]"
  | .obj fields => "\x7b" ++ ", ".intercalate (reprFields fields) ++ "\x7d"

def reprItems : List Json → List String
  | [] => []
  | item :: rest => repr item :: reprItems rest

def reprFields : List (String × Json) → List String
  | [] => []
  | (key, value) :: rest => (reprText key.toList ++ ": " ++ repr value) :: reprFields rest

end

end Json

end GelCli.Foundation
