import GelCli.Foundation.ByteIndex
import GelCli.Foundation.Lines
import GelCli.Migrations.DbHistory

/-!
# Tokens of migration texts

What the program takes from the parser crate: a tokenizer, the reading of quoted
strings and the hash that names a migration. A text is its tokens, each behind the
white space and the comments before it, and what follows the last one.
-/

namespace GelCli.Migrations

open GelCli.Foundation

inductive Kind where
  | keyword (value : Text)
  | ident
  | assign
  | str
  | openBrace
  | closeBrace
  | semicolon
  | other (tag : Nat)
deriving DecidableEq, Repr

structure Token where
  kind : Kind
  text : Text
deriving DecidableEq, Repr

/-- A token and what stands before it. -/
structure Lexeme where
  gap : Text
  token : Token
deriving DecidableEq, Repr

structure Lexed where
  lexemes : List Lexeme
  trail : Text
deriving DecidableEq, Repr

def render (lexemes : List Lexeme) : Text := lexemes.flatMap fun x => x.gap ++ x.token.text

@[simp] theorem render_nil : render [] = [] := rfl

@[simp] theorem render_cons (x : Lexeme) (xs : List Lexeme) :
    render (x :: xs) = x.gap ++ x.token.text ++ render xs :=
  List.flatMap_cons

@[simp] theorem render_append (xs ys : List Lexeme) : render (xs ++ ys) = render xs ++ render ys :=
  List.flatMap_append

def Lexed.render (l : Lexed) : Text := Migrations.render l.lexemes ++ l.trail

def Lexed.tokens (l : Lexed) : List Token := l.lexemes.map Lexeme.token

structure LexError where
  pos : Text
  message : Text
deriving DecidableEq, Repr

/-- The parts of the parser crate. `migrationId` is what the hasher makes of a parent and
the texts of the tokens that were added. -/
structure EdgeqlParser where
  lex : Text → Except LexError Lexed
  unquote : Text → Except Text Text
  migrationId : Text → List Text → Text

namespace EdgeqlParser

def tokens (E : EdgeqlParser) (t : Text) : Except LexError (List Token) := (E.lex t).map Lexed.tokens

end EdgeqlParser

theorem toOption_eq_some {ε α : Type} {x : Except ε α} {a : α} :
    x.toOption = some a ↔ x = .ok a := by
  cases x with
  | error e => exact iff_of_false (fun h => by cases h) (fun h => by cases h)
  | ok b =>
      rw [Except.ok.injEq]
      exact Option.some_inj

theorem tokens_eq_ok {E : EdgeqlParser} {t : Text} {ts : List Token} :
    E.tokens t = .ok ts ↔ ∃ l, E.lex t = .ok l ∧ l.tokens = ts := by
  rw [EdgeqlParser.tokens]
  cases E.lex t with
  | error e =>
      refine iff_of_false (fun h => by cases h) ?_
      rintro ⟨l, hl, -⟩
      cases hl
  | ok l =>
      constructor
      · intro h
        cases h
        exact ⟨l, rfl, rfl⟩
      · rintro ⟨l', hl, rfl⟩
        cases hl
        rfl

/-! ## What is relied on -/

/-- The file of a migration around its body. -/
def frame (id parent body : Text) : Text :=
  "CREATE MIGRATION ".toList ++ id ++ "\n    ONTO ".toList ++ parent ++ "\n\x7b\n".toList ++ body ++
    "\x7d;\n".toList

def headTokens (id parent : Text) : List Token :=
  [⟨.keyword "create".toList, "CREATE".toList⟩, ⟨.keyword "migration".toList, "MIGRATION".toList⟩,
    ⟨.ident, id⟩, ⟨.keyword "onto".toList, "ONTO".toList⟩, ⟨.ident, parent⟩, ⟨.openBrace, ['\x7b']⟩]

def headKinds : List Kind := (headTokens [] []).map Token.kind

def closeTokens : List Token := [⟨.closeBrace, ['\x7d']⟩, ⟨.semicolon, [';']⟩]

/-- The names that stand behind `CREATE MIGRATION` and `ONTO`. -/
def ParentName (id : Text) : Prop := id = "initial".toList ∨ Db.ServerName id

def Token.relined (x : Token) : Token := ⟨x.kind, Text.relined x.text⟩

/-- The text from a token on to the next one that is not among the lexemes. -/
def bodyText (gap : Text) : List Lexeme → Text
  | [] => []
  | x :: xs => x.token.text ++ render xs ++ gap

/-- A text that begins with the tokens before the body of a migration. -/
structure Headed where
  create : Lexeme
  migration : Lexeme
  id : Lexeme
  onto : Lexeme
  parent : Lexeme
  opening : Lexeme
  rest : List Lexeme
  trail : Text

namespace Headed

variable (f : Headed) (id parent : Text)

def head : List Lexeme := [f.create, f.migration, f.id, f.onto, f.parent, f.opening]

def lexed : Lexed := ⟨f.head ++ f.rest, f.trail⟩

def text : Text := f.lexed.render

/-- The text with other names. -/
def named : Headed :=
  { f with
    id := ⟨f.id.gap, ⟨.ident, id⟩⟩
    parent := ⟨f.parent.gap, ⟨.ident, parent⟩⟩ }

/-- The names that are new are the server's. -/
def Renames : Prop :=
  (id = f.id.token.text ∨ Db.ServerName id) ∧ (parent = f.parent.token.text ∨ Db.ServerName parent)

/-- A new name does not stand right next to a word, as a quoted name may. -/
structure Apart : Prop where
  id : id ≠ f.id.token.text → f.id.gap ≠ [] ∧ f.onto.gap ≠ []
  parent : parent ≠ f.parent.token.text → f.parent.gap ≠ []

end Headed

/-- What the parser crate is relied on for. Names take the place of other names without
a change of the tokens around them. -/
structure Lawful (E : EdgeqlParser) : Prop where
  render : ∀ {t l}, E.lex t = .ok l → l.render = t
  /-- A token that goes over several lines takes up the indentation of all but its first. -/
  indent : ∀ ls : List Text, (∀ line ∈ ls, '\n' ∉ line) →
    (E.tokens (Text.indentLines ls)).toOption =
      (E.tokens (Text.unlines ls)).toOption.map (List.map Token.relined)
  /-- A body of whole lines stands alone within the text of a migration. -/
  frame : ∀ {id parent : Text}, Db.ServerName id → ParentName parent →
    ∀ ls : List Text, (E.tokens (Migrations.frame id parent (Text.indentLines ls))).toOption =
      (E.tokens (Text.indentLines ls)).toOption.map fun body =>
        headTokens id parent ++ body ++ closeTokens
  /-- Between the braces the tokenizer does as it does on the text there alone. -/
  slice : ∀ {t : Text} {head xs : List Lexeme} {closing last : Lexeme} {trail : Text},
    E.lex t = .ok ⟨head ++ xs ++ [closing, last], trail⟩ →
      head.map (·.token.kind) = headKinds → closing.token.kind = .closeBrace →
        E.tokens (bodyText closing.gap xs) = .ok (xs.map Lexeme.token)
  /-- Other names in the header change no token around them. -/
  rename : ∀ {f : Headed} {id parent : Text}, E.lex f.text = .ok f.lexed →
    f.head.map (·.token.kind) = headKinds → f.Renames id parent → f.Apart id parent →
      E.lex (f.named id parent).text = .ok (f.named id parent).lexed
  /-- A name right next to a word is read as a part of it. -/
  joined : ∀ {f : Headed} {id parent : Text}, E.lex f.text = .ok f.lexed →
    f.head.map (·.token.kind) = headKinds → f.Renames id parent → ¬ f.Apart id parent →
      ∀ l, E.lex (f.named id parent).text = .ok l →
        ¬ headKinds <+: l.lexemes.map (·.token.kind)
  migrationId : ∀ parent texts, Db.ServerName (E.migrationId parent texts)

end GelCli.Migrations
