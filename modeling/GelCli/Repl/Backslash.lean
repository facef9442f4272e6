import GelCli.Foundation.ByteIndex
import GelCli.Foundation.Whitespace

/-!
# Backslash commands

The tokenizer of backslash commands and what reads its tokens: `Parser`,
`full_statement`, `parse` and `unquote_argument` of `src/commands/backslash.rs`. Where the
code slices a text, the outer `none` is the panic of a slice inside a character.
-/

namespace GelCli.Repl.Backslash

open GelCli.Foundation
open Text

/-- The characters that open a quote. -/
inductive Quote where
  | single
  | double
  | backtick
  deriving DecidableEq

def Quote.char : Quote → Char
  | single => '\''
  | double => '"'
  | backtick => '\x60'

def quoteOf (c : Char) : Option Quote :=
  if c = '\'' then some .single
  else if c = '"' then some .double
  else if c = '\x60' then some .backtick
  else none

def Quote.lineEndMessage : Quote → String
  | single => "expected end of single quote `'` , got end of line"
  | double => "expected end of double quote `\"` , got end of line"
  | backtick => "expected end of backtick quote '`' , got end of line"

def Quote.incompleteMessage : Quote → String
  | single => "incomplete 'single-quoted' argument"
  | double => "incomplete \"double-quoted\" argument"
  | backtick => "incomplete `backtick-quoted` argument"

inductive Item where
  | command (value : Text)
  | argument (value : Text)
  | error (message : String)
  | incomplete (message : String)
  | semicolon
  | newline
  deriving DecidableEq

structure Token where
  item : Item
  span : Nat × Nat
  deriving DecidableEq

structure Parser where
  data : Text
  firstItem : Bool
  offset : Nat

def Parser.new (s : Text) : Parser := ⟨s, true, 0⟩

/-- The characters that are trimmed before a token. -/
def isBlank (c : Char) : Bool := c = ' ' || c = '\t'

def isLineEnd (c : Char) : Bool := c = '\r' || c = '\n'

/-- The characters that end a word. -/
def endsWord (c : Char) : Bool := isBlank c || isLineEnd c || c = ';'

/-- Where the loops over the characters of a token stop. -/
inductive Scan where
  | word (stop : Nat)
  | quoteLineEnd (quote : Quote) (start stop : Nat)
  | incomplete (quote : Quote)
  | semicolon
  | newline (len : Nat)
  deriving DecidableEq

/-- The two loops over `tail.char_indices()` as one: inside a quote, with the quote and
the index where it opened, the steps are those of the inner loop. -/
def scan : Option (Quote × Nat) → Nat → Text → Scan
  | none, idx, [] => .word idx
  | some (quote, _), _, [] => .incomplete quote
  | some (quote, start), idx, c :: rest =>
      if c = quote.char then scan none (idx + c.utf8Size) rest
      else if isLineEnd c then .quoteLineEnd quote start idx
      else scan (some (quote, start)) (idx + c.utf8Size) rest
  | none, idx, c :: rest =>
      match quoteOf c with
      | some quote => scan (some (quote, idx)) (idx + c.utf8Size) rest
      | none =>
          if c = ';' ∧ idx = 0 then .semicolon
          else if c = '\n' ∧ idx = 0 then .newline 1
          else if c = '\r' ∧ idx = 0 then .newline (if rest.head? = some '\n' then 2 else 1)
          else if endsWord c then .word idx
          else scan none (idx + c.utf8Size) rest

/-- The token of a word that starts at `offset`; a first word has to be a command. -/
def wordToken (firstItem : Bool) (offset stop : Nat) (value : Text) : Option Token :=
  if firstItem then
    match value with
    | [] => none
    | c :: name =>
        if c ≠ '\\' then
          some ⟨.error "command must start with backslash `\\`", (offset, offset + c.utf8Size)⟩
        else if name.head? = some '-' then
          some ⟨.error "unexpected `-`, try \\help", (offset + 1, offset + 2)⟩
        else some ⟨.command value, (offset, offset + stop)⟩
  else some ⟨.argument value, (offset, offset + stop)⟩

/-- `Parser::token` behind the blanks, where the tail starts at `offset` and the data end
at `len`. -/
def readToken (firstItem : Bool) (offset len : Nat) (tail : Text) : Option Token :=
  match scan none 0 tail with
  | .semicolon => some ⟨.semicolon, (offset, offset + 1)⟩
  | .newline ln => some ⟨.newline, (offset, offset + ln)⟩
  | .quoteLineEnd quote start stop =>
      some ⟨.error quote.lineEndMessage, (offset + start, offset + stop)⟩
  | .incomplete quote => some ⟨.incomplete quote.incompleteMessage, (offset, len)⟩
  | .word stop => do
      let (value, _) ← splitAtByte tail stop
      wordToken firstItem offset stop value

/-- `Parser::token`; the inner `none` is the end of the tokens. -/
def Parser.token (p : Parser) : Option (Option Token) := do
  let (_, rest) ← splitAtByte p.data p.offset
  let tail := rest.dropWhile isBlank
  if tail = [] then return none
  let tok ← readToken p.firstItem (byteLen p.data - byteLen tail) (byteLen p.data) tail
  return some tok

/-- `Iterator::next` -/
def Parser.next (p : Parser) : Option (Option (Token × Parser)) :=
  p.token.map fun result =>
    result.map fun tok => (tok, { p with firstItem := false, offset := tok.span.2 })

/-- What a loop over the parser sees, in at most `fuel` steps. -/
def Parser.collect : Nat → Parser → Option (List Token)
  | 0, _ => none
  | fuel + 1, p => do
      match ← p.next with
      | none => return []
      | some (tok, p) =>
          let toks ← p.collect fuel
          return tok :: toks

def tokens (s : Text) : Option (List Token) := (Parser.new s).collect (s.length + 1)

def Item.endsStatement : Item → Bool
  | semicolon | newline => true
  | _ => false

/-- The loop of `full_statement`; no token of it leaves the loop: the whole length. -/
def statementEnd (len : Nat) : List Token → Nat
  | [] => len
  | tok :: toks => if tok.item.endsStatement then tok.span.2 else statementEnd len toks

/-- `full_statement` -/
def fullStatement (s : Text) : Option Nat := (tokens s).map (statementEnd (byteLen s))

/-! ## Parsing -/

/-- `unquote_argument`: the quotes are dropped, inside one the other two stand for
themselves. -/
def unquoteFrom : Option Quote → Text → Text
  | _, [] => []
  | some quote, c :: rest =>
      if c = quote.char then unquoteFrom none rest else c :: unquoteFrom (some quote) rest
  | none, c :: rest =>
      match quoteOf c with
      | some quote => unquoteFrom (some quote) rest
      | none => c :: unquoteFrom none rest

def unquoteArgument (s : Text) : Text := unquoteFrom none s

/-- `CommandCache::aliases` -/
def aliases : List (String × List String) :=
  [("d", ["describe", "object"]), ("ds", ["describe", "schema"]), ("l", ["list", "branches"]),
    ("ls", ["list", "scalars"]), ("lt", ["list", "types"]), ("lr", ["list", "roles"]),
    ("lm", ["list", "modules"]), ("la", ["list", "aliases"]), ("lc", ["list", "casts"]),
    ("li", ["list", "indexes"]), ("s", ["history"]), ("e", ["edit"]), ("c", ["connect"]),
    ("E", ["last-error"]), ("q", ["exit"]), ("quit", ["exit"]), ("?", ["help"]), ("h", ["help"]),
    ("branch", ["branch"]), ("b", ["branch"])]

structure ParseError where
  help : Bool
  span : Option (Nat × Nat)
  message : Text
  deriving DecidableEq

/-- An error of the argument parser: whether its kind is `DisplayHelp`, and its text. -/
structure ClapError where
  displayHelp : Bool
  text : Text

/-- `backslashify_help`: a backslash before the word behind the first `USAGE:` that has one. -/
def backslashifyHelp (isWord : Char → Bool) : Text → Text
  | [] => []
  | c :: text =>
      match stripStart "USAGE:".toList (c :: text) with
      | none => c :: backslashifyHelp isWord text
      | some rest =>
          if (trimStart rest).head?.any isWord then
            "USAGE:".toList ++ leadingBlank rest ++ '\\' :: trimStart rest
          else c :: backslashifyHelp isWord text

section Parse

-- The command that `Help` is, the argument parser, and the characters that the regular
-- expression takes for words.
variable {B : Type} (help : B) (getMatches : List Text → Except ClapError B)
  (isWord : Char → Bool)

/-- The loop of `parse` over the tokens: a command or an error at once, or the arguments. -/
def readTokens : List Text → List Token → Except (Except ParseError B) (List Text)
  | arguments, [] => .ok arguments
  | arguments, tok :: toks =>
      match tok.item with
      | .command x =>
          if x = "\\?".toList ∨ x = "\\h".toList ∨ x = "\\help".toList then .error (.ok help)
          else
            match aliases.lookup (String.ofList (x.drop 1)) with
            | some cmd => readTokens (arguments ++ cmd.map String.toList) toks
            | none => readTokens (arguments ++ [x.drop 1]) toks
      | .argument x => readTokens (arguments ++ [unquoteArgument x]) toks
      | .newline => .ok arguments
      | .semicolon => .ok arguments
      | .incomplete message => .error (.error ⟨false, some tok.span, message.toList⟩)
      | .error message => .error (.error ⟨false, some tok.span, message.toList⟩)

/-- `parse` of the tokens that were read. -/
def parseTokens (toks : List Token) : Except ParseError B :=
  match readTokens help [] toks with
  | .error result => result
  | .ok arguments =>
      (getMatches arguments).mapError fun e =>
        ⟨e.displayHelp, none, backslashifyHelp isWord e.text⟩

def parse (s : Text) : Option (Except ParseError B) :=
  (tokens s).map (parseTokens help getMatches isWord)

end Parse

end GelCli.Repl.Backslash
