import GelCli.Migrations.Grammar

/-!
# Reading migration files

The ids of a `Migration` of `src/migrations/migration.rs` against its text, `read_file`,
and `read_all` of a directory. A range that does not fit the text panics.
-/

namespace GelCli.Migrations

open GelCli.Foundation

inductive FileError where
  | parse (e : ParseError)
  | hashing (e : LexError)
  | wrongName (computed found : Text)
  | badName (id : Text)
  | panic
deriving DecidableEq, Repr

/-- `hashing_error`. -/
def hashingError (e : LexError) : Text := "Tokenizer error at ".toList ++ e.pos ++ ": ".toList ++ e.message

/-- The parts of the message that depend on the file; `debug` is the `{:?}` of a string. -/
def FileError.message (debug : Text → Text) (parse : ParseError → Text) : FileError → Text
  | .parse e => "parse error: ".toList ++ parse e
  | .hashing e => hashingError e
  | .wrongName computed found =>
      "\n Migration name should be: \n  ".toList ++ computed ++ ", but \n  ".toList ++ found ++
        " found instead. \n\nMigration names are computed from the hash of the ".toList ++
        "migration contents. To proceed you must fix the statement to read as:\n  ".toList ++
        "CREATE MIGRATION ".toList ++
        computed ++ " ONTO ...\nAlternatively, revert the changes to the file.".toList
  | .badName id => "cannot parse migration name ".toList ++ debug id
  | .panic => []

/-- `&text[start..stop]`. -/
def sliceOrPanic (text : Text) (range : Nat × Nat) : Except FileError Text :=
  match Text.slice text range.1 range.2 with
  | some part => .ok part
  | none => .error .panic

/-- `Hasher::add_source` for one text and `make_migration_id`. -/
def hashSource (E : EdgeqlParser) (parentId source : Text) : Except FileError Text :=
  match E.tokens source with
  | .ok tokens => .ok (E.migrationId parentId (tokens.map Token.text))
  | .error e => .error (.hashing e)

/-- The text with another name in a range. -/
def replaceRange (text : Text) (range : Nat × Nat) (newId : Text) : Except FileError Text :=
  match Text.splitAtByte text range.1, Text.splitAtByte text range.2 with
  | some (before, _), some (_, after) => .ok (before ++ newId ++ after)
  | _, _ => .error .panic

namespace Files.Migration

def expectedId (E : EdgeqlParser) (m : Migration) (text : Text) : Except FileError Text := do
  let txt ← sliceOrPanic text m.textRange
  hashSource E m.parentId txt

def replaceId (m : Migration) (text newId : Text) : Except FileError Text :=
  replaceRange text m.idRange newId

def replaceParentId (m : Migration) (text newId : Text) : Except FileError Text :=
  replaceRange text m.parentIdRange newId

end Files.Migration

def validateText (E : EdgeqlParser) (text : Text) (migration : Files.Migration) :
    Except FileError Unit :=
  if "m1".toList.isPrefixOf migration.id then do
    let id ← migration.expectedId E text
    if id ≠ migration.id then .error (.wrongName id migration.id) else .ok ()
  else .error (.badName migration.id)

/-- `read_file` once the text is there. -/
def readFile (E : EdgeqlParser) (validateHashes : Bool) (text : Text) :
    Except FileError Files.Migration :=
  match parseMigration E text with
  | .error e => .error (.parse e)
  | .ok data =>
      if validateHashes then
        match validateText E text data with
        | .error e => .error e
        | .ok () => .ok data
      else .ok data

/-! ## Directories -/

/-- The files of a directory by their names, in the order they are listed in. Other
entries are never looked at. -/
abbrev Dir := Dict Text Text

/-- `_read_names`. -/
def migrationName (name : Text) : Bool :=
  !(['.'].isPrefixOf name) && ".edgeql".toList.isSuffixOf name

def readNames (dir : Dir) : List Text := dir.keys.filter migrationName

inductive ReadError where
  | file (path : Text) (e : FileError)
  | sameParent (path other parentId : Text)
  | sort (e : Files.SortError)
deriving DecidableEq, Repr

/-- One turn of the loop of `_read_all`. -/
def readInto (E : EdgeqlParser) (validateHashes : Bool) (all : Files.FileMap)
    (file : Text × Text) : Except ReadError Files.FileMap :=
  match readFile E validateHashes file.2 with
  | .error e => .error (.file file.1 e)
  | .ok data =>
      match all.get data.parentId with
      | some other => .error (.sameParent file.1 other.path data.parentId)
      | none => .ok (all.set data.parentId ⟨file.1, none, data⟩)

/-- `_read_all`. -/
def readAll (E : EdgeqlParser) (validateHashes : Bool) (dir : Dir) :
    Except ReadError Files.FileMap :=
  match (dir.items.filter fun file => migrationName file.1).foldlM (readInto E validateHashes)
      .empty with
  | .error e => .error e
  | .ok all =>
      match Files.sortRevisions all with
      | .error e => .error (.sort e)
      | .ok migrations => .ok migrations

end GelCli.Migrations
