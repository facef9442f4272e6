import GelCli.Migrations.ReadFile

/-!
# Writing migration files

`write_migration` of `src/migrations/create.rs`. The statements are written line by
line with an indentation. The name of a file is its key and the first seven bytes of
the id, for which a shorter id panics.
-/

namespace GelCli.Migrations

open GelCli.Foundation

inductive MigrationKey where
  | index (idx : Nat)
  | fixup (targetRevision : Text)
deriving DecidableEq, Repr

/-- What the trait of that name gives of a migration. -/
structure MigrationToText where
  key : MigrationKey
  parent : Text
  id : Text
  statements : List Text
deriving DecidableEq, Repr

namespace MigrationToText

/-- The lines that the statements are written in. -/
def lines (descr : MigrationToText) : List Text := descr.statements.flatMap Text.lines

/-- What `_write_migration` writes. -/
def text (descr : MigrationToText) : Text :=
  frame descr.id descr.parent (Text.indentLines descr.lines)

/-- The name within the directory of the migrations or of the fixups. -/
def fileName (descr : MigrationToText) : Option Text :=
  match descr.key with
  | .index idx =>
      (Db.abbreviate descr.id).map fun id => Files.padded idx ++ '-' :: id ++ ".edgeql".toList
  | .fixup targetRevision => some (descr.parent ++ '-' :: targetRevision ++ ".edgeql".toList)

/-- Writing into a directory; a file of that name is replaced. -/
def write (dir : Dir) (descr : MigrationToText) : Option Dir :=
  descr.fileName.map fun name => dir.set name descr.text

end MigrationToText

/-- Writing one after another. -/
def writeAll (dir : Dir) (migrations : List MigrationToText) : Option Dir :=
  migrations.foldlM MigrationToText.write dir

/-- Copies of the migration files of another directory, over files of the same names. -/
def copyFrom (dir source : Dir) : Dir :=
  (source.items.filter fun file => migrationName file.1).foldl
    (fun dir file => dir.set file.1 file.2) dir

/-! ## Migrations that are written -/

structure FutureMigration where
  key : MigrationKey
  parent : Text
  statements : List Text
deriving DecidableEq, Repr

/-- The tokens that a hasher is given, statement by statement. -/
def statementTokens (E : EdgeqlParser) : List Text → Except LexError (List Token)
  | [] => .ok []
  | statement :: statements =>
      match E.tokens statement with
      | .error e => .error e
      | .ok ts =>
          match statementTokens E statements with
          | .error e => .error e
          | .ok rest => .ok (ts ++ rest)

/-- The id that is computed from the statements. -/
def computeId (E : EdgeqlParser) (parent : Text) (statements : List Text) : Except LexError Text :=
  (statementTokens E statements).map fun ts => E.migrationId parent (ts.map Token.text)

/-- `FutureMigration` as a migration to write; there is none without an id. -/
def FutureMigration.toText (E : EdgeqlParser) (m : FutureMigration) :
    Except LexError MigrationToText :=
  (computeId E m.parent m.statements).map fun id => ⟨m.key, m.parent, id, m.statements⟩

/-- A migration of the database under a key; more parents than one are not looked at. -/
def Db.DbMigration.toText (m : Db.DbMigration) (key : MigrationKey) : MigrationToText where
  key := key
  parent := m.parentNames.head?.getD Files.nullMigration
  id := m.name
  statements := [m.script]

end GelCli.Migrations
