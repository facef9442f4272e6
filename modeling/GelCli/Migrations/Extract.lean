import GelCli.Migrations.WriteFile

/-!
# Extracting the migrations of a database

`extract` of `src/migrations/extract.rs`. The files of the directory and the migrations
of the database are gone through side by side. Migrations that are not in their place
on disk are written to a directory of their own; the files behind the last migration
are to be deleted. Both is done at the end, once every question was answered.
-/

namespace GelCli.Migrations.Extract

open GelCli.Foundation Files Db

inductive ExtractError where
  | read (e : ReadError)
  | doesNotMatch (path : Text)
  | notPresent (path : Text)
  | canceled
  | noAnswer
  | multipleParents
  | abbreviate
  | notADirectory
  | remove (path : Text)
deriving DecidableEq, Repr

/-- `directory` is the schema directory as it is displayed. -/
def ExtractError.message (directory : Text) : ExtractError → Text
  | .doesNotMatch path =>
      "migration in \"".toList ++ path ++ "\" does not match the migration recorded in the ".toList ++
        "database, use `--force` to overwrite the file with the database version of ".toList ++
        "migration".toList
  | .notPresent path =>
      "migration in \"".toList ++ path ++ "\" is not present in the database, use `--force` ".toList ++
        "to automatically remove the non-matching files".toList
  | .multipleParents => "Cannot yet sync migrations with multiple parents".toList
  | .canceled => "Canceled.".toList
  | .notADirectory =>
      "Cannot write migrations because path ".toList ++ directory ++ " is not a directory".toList
  | _ => []

structure ExtractMigrations where
  nonInteractive : Bool
  force : Bool
deriving DecidableEq, Repr

/-- The schema directory and the migrations directory in it. -/
structure SchemaDir where
  isDir : Bool
  migrations : Option Dir

/-- What was written to the temporary directory, and the files to remove. -/
structure Extracted where
  temp : Dir
  toDelete : List Text

section Turns

variable (cmd : ExtractMigrations)

/-- Whether to go on about a file; `answer` is the answer to the question, if there is one. -/
def confirm (answer : Option Bool) (refusal : ExtractError) : Except ExtractError Unit :=
  if cmd.nonInteractive then
    if cmd.force then .ok () else .error refusal
  else if cmd.force then .ok ()
  else
    match answer with
    | some true => .ok ()
    | some false => .error .canceled
    | none => .error .noAnswer

def writeMigration (s : Extracted) (migration : DbMigration) (i : Nat) :
    Except ExtractError Extracted :=
  match (migration.toText (.index (i + 1))).write s.temp with
  | none => .error .abbreviate
  | some temp =>
      if 1 < migration.parentNames.length then .error .multipleParents
      else .ok { s with temp := temp }

/-- The turn of the loop at a place of both. -/
def extractTurn (answers : Nat → Option Bool) (current : FileMap)
    (migrations : Dict Text DbMigration) (s : Extracted) (i : Nat) :
    Except ExtractError Extracted :=
  match current.items[i]?, migrations.items[i]? with
  | some (id, file), some (_, migration) =>
      if migration.name ≠ id then
        match confirm cmd (answers i) (.doesNotMatch file.path) with
        | .error e => .error e
        | .ok () => writeMigration s migration i
      else .ok s
  | none, some (_, migration) => writeMigration s migration i
  | some (_, file), none =>
      match confirm cmd (answers i) (.notPresent file.path) with
      | .error e => .error e
      | .ok () => .ok { s with toDelete := s.toDelete ++ [file.path] }
  | none, none => .ok s

def extractLoop (answers : Nat → Option Bool) (current : FileMap)
    (migrations : Dict Text DbMigration) : Except ExtractError Extracted :=
  (List.range (max current.items.length migrations.items.length)).foldlM
    (extractTurn cmd answers current migrations) ⟨.empty, []⟩

end Turns

/-- `fs::remove_file`. -/
def removeFile (dir : Dir) (path : Text) : Except ExtractError Dir :=
  if path ∈ dir.keys then .ok (dir.erase path) else .error (.remove path)

/-- The copies and the removals. -/
def applyTo (dir : Dir) (s : Extracted) : Except ExtractError Dir :=
  s.toDelete.foldlM removeFile (copyFrom dir s.temp)

def extract (E : EdgeqlParser) (cmd : ExtractMigrations) (answers : Nat → Option Bool)
    (cli : Connection) (schema : SchemaDir) : Except ExtractError SchemaDir :=
  match Migrations.readAll E false (schema.migrations.getD .empty) with
  | .error e => .error (.read e)
  | .ok current =>
      match extractLoop cmd answers current (Db.readAll cli true false) with
      | .error e => .error e
      | .ok s =>
          if schema.migrations.isNone ∧ ¬ schema.isDir then .error .notADirectory
          else
            match applyTo (schema.migrations.getD .empty) s with
            | .error e => .error e
            | .ok dir => .ok { schema with migrations := some dir }

end GelCli.Migrations.Extract
