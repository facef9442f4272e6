import GelCli.Foundation.ByteIndex

/-!
# Reading a quoted string

`quoted_str` of `src/prompt/variable.rs`, over the combinators it is made of. The end
of a literal is looked for by characters and the text is then cut at that number of
bytes; cutting inside a character panics.

`unquote` is `unquote_string` of the parser crate.
-/

namespace GelCli.Prompt

open GelCli.Foundation

/-! ## Combinators -/

inductive ParsingError where
  | expected (c : Char) (input : Text)
  | missingEndQuote (str : Text)
  | invalidQuotedString (input reason : Text)
  | context (ctx : String) (other : ParsingError)
  | or (first second : ParsingError)
  | alt (input : Text) (other : ParsingError)
  | kind (kind : String) (input : Text)
  | external (input reason : Text)
  | json (reason : Text)
  | unknownIdentifier (names : List Text)
  | missingElements (names : List Text)
  | duplicateElement (name : Text)
deriving DecidableEq, Repr

/-- `IResult`, with the panic of a cut inside a character. A failure is final where an
error leaves room for the next alternative. -/
inductive Parsed (α : Type) where
  | ok (rest : Text) (value : α)
  | error (e : ParsingError)
  | failure (e : ParsingError)
  | panic
deriving DecidableEq, Repr

def context {α : Type} (ctx : String) : Parsed α → Parsed α
  | .error e => .error (.context ctx e)
  | .failure e => .failure (.context ctx e)
  | parsed => parsed

def char (c : Char) : Text → Parsed Unit
  | d :: rest => if d = c then .ok rest () else .error (.expected c (d :: rest))
  | [] => .error (.expected c [])

def andThen {α β : Type} : Parsed α → (Text → Parsed β) → Parsed β
  | .ok rest _, next => next rest
  | .error e, _ => .error e
  | .failure e, _ => .failure e
  | .panic, _ => .panic

/-- The text that was consumed. -/
def recognize {α : Type} (parser : Text → Parsed α) (input : Text) : Parsed Text :=
  match parser input with
  | .ok rest _ => .ok rest (input.take (input.length - rest.length))
  | .error e => .error e
  | .failure e => .failure e
  | .panic => .panic

def mapRes {α β : Type} (f : α → Except Text β) (external : Text → Text → ParsingError)
    (input : Text) : Parsed α → Parsed β
  | .ok rest value =>
      match f value with
      | .ok value => .ok rest value
      | .error reason => .error (external input reason)
  | .error e => .error e
  | .failure e => .failure e
  | .panic => .panic

def altern {α : Type} (first second : Text → Parsed α) (input : Text) : Parsed α :=
  match first input with
  | .error e =>
      match second input with
      | .error e' => .error (.alt input (.or e e'))
      | parsed => parsed
  | parsed => parsed

/-! ## `quoted_str` -/

/-- The loop over the characters: where the first quote is that no backslash comes
before, in characters. -/
def endQuote (quote : Char) : Option Char → Text → Option Nat
  | _, [] => none
  | prev, c :: rest =>
      if c = quote ∧ prev ≠ some '\\' then some 0
      else (endQuote quote (some c) rest).map (· + 1)

/-- Skipping to the closing quote. -/
def skipBody (quote : Char) (str : Text) : Parsed Unit :=
  match endQuote quote none str with
  | none => .failure (.missingEndQuote str)
  | some pos =>
      match Text.splitAtByte str pos with
      | some (_, rest) => .ok rest ()
      | none => .panic

def quotedStrParser (unquote : Text → Except Text Text) (input : Text) (quote : Char) :
    Parsed Text :=
  context "quoted_string"
    (mapRes unquote .invalidQuotedString input
      (recognize
        (fun input => andThen (char quote input) fun str =>
          andThen (skipBody quote str) (char quote))
        input))

def singleQuotedStr (unquote : Text → Except Text Text) (input : Text) : Parsed Text :=
  context "single_quote_str" (quotedStrParser unquote input '\'')

def doubleQuotedStr (unquote : Text → Except Text Text) (input : Text) : Parsed Text :=
  context "double_quote_str" (quotedStrParser unquote input '"')

def quotedStr (unquote : Text → Except Text Text) (input : Text) : Parsed Text :=
  context "any_quote_str" (altern (singleQuotedStr unquote) (doubleQuotedStr unquote) input)

/-- `Str::parse`. -/
def parseStr (unquote : Text → Except Text Text) (forceQuotedStrings : Bool) (input : Text) :
    Parsed Text :=
  if forceQuotedStrings then context "quoted_str" (quotedStr unquote input) else .ok [] input

end GelCli.Prompt
