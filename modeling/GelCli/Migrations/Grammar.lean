import GelCli.Migrations.Files
import GelCli.Migrations.Tokens

/-!
# The grammar of migration files

`parse_migration` of `src/migrations/grammar.rs`. The parsers are committed to what they
have begun to read, so that no statement is tried in two ways, and an error of the
tokenizer is an error wherever it comes. The depth of `anyStatement` is that of the
recursion of `braces`.
-/

namespace GelCli.Migrations

open GelCli.Foundation

inductive Statement where
  | setMessage (text : Text)
  | ignored
deriving DecidableEq, Repr

inductive ParseError where
  | tokenizer (e : LexError)
  | unexpected
  | unquote (reason : Text)
  | duplicateMessage
deriving DecidableEq, Repr

/-! ## Tokens -/

def eqIgnoreAsciiCase (t u : Text) : Bool := t.map Char.toLower = u.map Char.toLower

def Token.kw (value : String) (x : Token) : Bool :=
  x.kind = .keyword value.toList && eqIgnoreAsciiCase x.text value.toList

def Token.isIdent (value : String) (x : Token) : Bool :=
  x.kind = .ident && eqIgnoreAsciiCase x.text value.toList

/-! ## Statements -/

/-- What is left behind the semicolon of a statement. -/
def anyStatement : Nat → List Token → Option (List Token)
  | _, [] => none
  | depth, x :: xs =>
      match x.kind with
      | .openBrace => anyStatement (depth + 1) xs
      | .closeBrace => if depth = 0 then none else anyStatement (depth - 1) xs
      | .semicolon => if depth = 0 then some xs else anyStatement depth xs
      | _ => anyStatement depth xs

def ignoredStatement (ts : List Token) : Except ParseError (Statement × List Token) :=
  match anyStatement 0 ts with
  | some rest => .ok (.ignored, rest)
  | none => .error .unexpected

section Unquote

variable (unquote : Text → Except Text Text)

/-- Behind `set message`. -/
def messageStatement : List Token → Except ParseError (Statement × List Token)
  | assign :: token :: semicolon :: rest =>
      if assign.kind = .assign ∧ token.kind = .str ∧ semicolon.kind = .semicolon then
        match unquote token.text with
        | .ok text => .ok (.setMessage text, rest)
        | .error reason => .error (.unquote reason)
      else .error .unexpected
  | _ => .error .unexpected

/-- Behind `set`. -/
def setStatement : List Token → Except ParseError (Statement × List Token)
  | [] => .error .unexpected
  | y :: rest =>
      if y.isIdent "message" then messageStatement unquote rest else ignoredStatement (y :: rest)

def statement : List Token → Except ParseError (Statement × List Token)
  | [] => .error .unexpected
  | x :: rest => if x.kw "set" then setStatement unquote rest else ignoredStatement (x :: rest)

/-- `many`, up to the brace that closes. There are no more statements than tokens. -/
def manyStatements : Nat → List Token → Except ParseError (List Statement × List Token)
  | 0, ts => .ok ([], ts)
  | fuel + 1, ts =>
      if ts = [] ∨ ts.head?.map Token.kind = some .closeBrace then .ok ([], ts)
      else
        match statement unquote ts with
        | .error e => .error e
        | .ok (item, rest) =>
            match manyStatements fuel rest with
            | .error e => .error e
            | .ok (items, rest) => .ok (item :: items, rest)

end Unquote

def collectMessage : Option Text → List Statement → Except ParseError (Option Text)
  | message, [] => .ok message
  | message, .ignored :: items => collectMessage message items
  | none, .setMessage text :: items => collectMessage (some text) items
  | some _, .setMessage _ :: _ => .error .duplicateMessage

/-! ## `parse_migration` -/

/-- The byte offset of the token at a place. -/
def offset (xs : List Lexeme) (i : Nat) : Nat :=
  Text.byteLen (render (xs.take i)) + Text.byteLen ((xs[i]?.map Lexeme.gap).getD [])

/-- The range of the token at a place. -/
def tokenRange (xs : List Lexeme) (i : Nat) : Nat × Nat :=
  (offset xs i, offset xs i + Text.byteLen ((xs[i]?.map fun x => x.token.text).getD []))

/-- The id and the parent of the tokens before the body, and the tokens of the body. -/
def header : List Token → Option (Text × Text × List Token)
  | create :: migration :: id :: onto :: parent :: opening :: body =>
      if create.kw "create" ∧ migration.kw "migration" ∧ id.kind = .ident ∧ onto.kw "onto" ∧
          parent.kind = .ident ∧ opening.kind = .openBrace then
        some (id.text, parent.text, body)
      else none
  | _ => none

def closes : List Token → Bool
  | [closing, last] => closing.kind = .closeBrace && last.kind = .semicolon
  | _ => false

def parseMigration (E : EdgeqlParser) (data : Text) : Except ParseError Files.Migration :=
  match E.lex data with
  | .error e => .error (.tokenizer e)
  | .ok l =>
      match header l.tokens with
      | none => .error .unexpected
      | some (id, parentId, body) =>
          match manyStatements E.unquote body.length body with
          | .error e => .error e
          | .ok (items, rest) =>
              if closes rest then
                match collectMessage none items with
                | .error e => .error e
                | .ok message =>
                    .ok
                      { message := message
                        id := id
                        idRange := tokenRange l.lexemes 2
                        parentId := parentId
                        parentIdRange := tokenRange l.lexemes 4
                        textRange := (offset l.lexemes 6, offset l.lexemes (l.lexemes.length - 2)) }
              else .error .unexpected

end GelCli.Migrations
