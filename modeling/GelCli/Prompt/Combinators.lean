import GelCli.Prompt.PrintedString

/-!
# The combinators of the variable parsers

The parsers of `nom` that `src/prompt/variable.rs` puts together. They count in
characters where they count at all, and the text is cut between two of them.
-/

namespace GelCli.Prompt

open GelCli.Foundation

abbrev Parser (α : Type) := Text → Parsed α

section Sequences

variable {α β : Type}

def Parsed.next : Parsed α → (Text → α → Parsed β) → Parsed β
  | .ok rest value, f => f rest value
  | .error e, _ => .error e
  | .failure e, _ => .failure e
  | .panic, _ => .panic

def map (f : α → β) (parser : Parser α) : Parser β := fun input =>
  (parser input).next fun rest value => .ok rest (f value)

/-- An error is no failure, and consumes nothing. -/
def opt (parser : Parser α) : Parser (Option α) := fun input =>
  match parser input with
  | .ok rest value => .ok rest (some value)
  | .error _ => .ok input none
  | .failure e => .failure e
  | .panic => .panic

def cond (p : Bool) (parser : Parser α) : Parser (Option α) :=
  if p then map some parser else fun input => .ok input none

/-- An error becomes a failure. -/
def cut (parser : Parser α) : Parser α := fun input =>
  match parser input with
  | .error e => .failure e
  | parsed => parsed

def preceded (first : Parser α) (second : Parser β) : Parser β := fun input =>
  (first input).next fun rest _ => second rest

def terminated (first : Parser α) (second : Parser β) : Parser α := fun input =>
  (first input).next fun rest value => (second rest).next fun rest _ => .ok rest value

end Sequences

/-! ## Characters -/

def tag (t : Text) : Parser Text := fun input =>
  if t.isPrefixOf input then .ok (input.drop t.length) t else .error (.kind "Tag" input)

/-- Only ASCII letters are asked for, and no other character has one of them as its small
letter. -/
def tagNoCase (t : Text) : Parser Text := fun input =>
  if t.isPrefixOf (input.map Char.toLower) then
    .ok (input.drop t.length) (input.take t.length)
  else .error (.kind "Tag" input)

def takeWhile0 (p : Char → Bool) : Parser Text := fun input =>
  .ok (input.dropWhile p) (input.takeWhile p)

def takeWhile1 (kind : String) (p : Char → Bool) : Parser Text := fun input =>
  if input.takeWhile p = [] then .error (.kind kind input)
  else .ok (input.dropWhile p) (input.takeWhile p)

def digit1 : Parser Text := takeWhile1 "Digit" Char.isDigit

def multispace0 : Parser Text := takeWhile0 fun c => c = ' ' || c = '\t' || c = '\r' || c = '\n'

/-- `take_while_m_n`: the place of the first other character is found in bytes, and as many
characters are taken. -/
def takeWhileMN (m n : Nat) (p : Char → Bool) : Parser Text := fun input =>
  let take (count : Nat) : Parsed Text :=
    if count ≤ input.length then .ok (input.drop count) (input.take count)
    else .error (.kind "TakeWhileMN" input)
  let index := Text.byteLen (input.takeWhile p)
  if input.takeWhile p = input then
    if n ≤ index then take n
    else if m ≤ index then .ok [] input
    else .error (.kind "TakeWhileMN" input)
  else if m ≤ index then take (min index n)
  else .error (.kind "TakeWhileMN" input)

def whiteSpace {α : Type} (parser : Parser α) : Parser α :=
  preceded multispace0 (terminated parser multispace0)

/-! ## Numbers -/

def sign : Parser (Option Unit) := opt (altern (char '+') (char '-'))

def exponent (digits : Parser Text) : Parser (Option Text) :=
  opt (preceded (altern (char 'e') (char 'E')) (preceded sign (cut digits)))

/-- `i16`, `i32` and `i64`: digits with a sign, up to the first other character, that fit. -/
def int (bits : Nat) : Parser Int := fun input =>
  (sign input).next fun rest _ =>
    let digits := rest.takeWhile Char.isDigit
    let value : Int := digits.foldl (fun n c => 10 * n + (c.toNat - '0'.toNat)) 0
    let value := if input.head? = some '-' then -value else value
    if digits = [] ∨ value < -2 ^ (bits - 1) ∨ 2 ^ (bits - 1) ≤ value then
      .error (.kind "Digit" input)
    else .ok (rest.dropWhile Char.isDigit) value

def recognizeFloat : Parser Text :=
  recognize (preceded sign
    (preceded
      (altern
        (preceded digit1 (map (fun _ => ()) (opt (preceded (char '.') (opt digit1)))))
        (preceded (char '.') (map (fun _ => ()) digit1)))
      (exponent digit1)))

def recognizeFloatOrExceptions : Parser Text :=
  altern recognizeFloat
    (altern (tagNoCase "nan".toList)
      (altern (tagNoCase "inf".toList) (tagNoCase "infinity".toList)))

/-- `recognize_float_parts`: there are digits before or behind the point. -/
def recognizeFloatParts : Parser Text :=
  recognize fun input =>
    (preceded sign (takeWhile0 Char.isDigit) input).next fun rest integer =>
      (opt (preceded (char '.') (takeWhile0 Char.isDigit)) rest).next fun rest fraction =>
        if integer = [] ∧ fraction.getD [] = [] then .error (.kind "Float" input)
        else opt (preceded (altern (char 'e') (char 'E')) (cut (int 32))) rest

/-! ## Lists -/

section Lists

variable {α β : Type}

/-- The turns of `separated_list0` behind the first element. Every turn takes something
off the input; a list that is out of turns counts as a panic. -/
def separatedTurns (sep : Parser β) (f : Parser α) : Nat → Text → List α → Parsed (List α)
  | 0, _, _ => .panic
  | turns + 1, input, values =>
      match sep input with
      | .error _ => .ok input values
      | .failure e => .failure e
      | .panic => .panic
      | .ok rest _ =>
          if rest.length = input.length then .error (.kind "SeparatedList" rest)
          else
            match f rest with
            | .error _ => .ok input values
            | .failure e => .failure e
            | .panic => .panic
            | .ok rest value => separatedTurns sep f turns rest (values ++ [value])

def separatedList0 (sep : Parser β) (f : Parser α) : Parser (List α) := fun input =>
  match f input with
  | .error _ => .ok input []
  | .failure e => .failure e
  | .panic => .panic
  | .ok rest value => separatedTurns sep f (input.length + 1) rest [value]

def trailingSeparatedList0 (sep : Parser β) (f : Parser α) : Parser (List α) := fun input =>
  (separatedList0 sep f input).next fun rest values =>
    (cond (!values.isEmpty) (opt sep) rest).next fun rest _ => .ok rest values

end Lists

end GelCli.Prompt
