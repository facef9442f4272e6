import GelCli.Foundation.QueueSearch

/-!
# Applying migrations: the path search over migrations and fixups

`find_path` of `src/migrations/apply.rs` searches backwards from the target
revision to the revision of the database, then `backtrack` walks forwards along
the levels the search left in `markup`.

The search keeps no visited check and a revision reached again has its mark
overwritten, so `backtrack` does not see the distance of a revision but the last
level it was queued at. Whatever path the search returns is a shortest one; it
may however end in the `failed to backtrack BFS` error although a path exists.
-/

namespace GelCli.Migrations

open GelCli.Foundation

/-! ## Migration files -/

structure Migration where
  id : String
  parentId : String
deriving DecidableEq, Repr

/-- A file of the migrations directory (`fixupTarget` is `None`) or of the
fixups directory (the target is the second part of its file name). -/
structure MigrationFile where
  path : String
  fixupTarget : Option String
  data : Migration
deriving DecidableEq, Repr

inductive PathElem where
  | normal (file : MigrationFile)
  | fixup (file : MigrationFile)
deriving DecidableEq, Repr

def PathElem.file : PathElem → MigrationFile
  | .normal file => file
  | .fixup file => file

/-- The revision an applied element leads to. -/
def PathElem.endpoint : PathElem → Option String
  | .normal file => some file.data.id
  | .fixup file => file.fixupTarget

/-- The error of `bug::error`. -/
structure BugError where
  message : String
deriving DecidableEq, Repr

def backtrackError : BugError := ⟨"failed to backtrack BFS"⟩

/-! ## The two indexes -/

structure Indexes where
  byTarget : HashMap String (List String)
  bySource : HashMap String (List MigrationFile)

def Indexes.addFixup (ix : Indexes) (mig : MigrationFile) : Indexes :=
  let byTarget :=
    match mig.fixupTarget with
    | some fixupTarget =>
        -- do not push twice
        if fixupTarget ≠ mig.data.id then ix.byTarget.push fixupTarget mig.data.parentId
        else ix.byTarget
    | none => ix.byTarget
  { byTarget := byTarget.push mig.data.id mig.data.parentId
    bySource := ix.bySource.push mig.data.parentId mig }

def Indexes.addMigration (ix : Indexes) (mig : MigrationFile) : Indexes :=
  { byTarget := ix.byTarget.push mig.data.id mig.data.parentId
    bySource := ix.bySource.push mig.data.parentId mig }

/-- `migrations` is the `IndexMap` of the directory, of which only the values
are read. -/
def indexes (migrations : List (String × MigrationFile))
    (fixups : List MigrationFile) : Indexes :=
  (migrations.map Prod.snd).foldl Indexes.addMigration
    (fixups.foldl Indexes.addFixup ⟨.empty, .empty⟩)

/-! ## Backtracking -/

/-- The `for item in sources` pass: the first element that leads to a revision
marked with `idx`; at one file the normal path goes before the fixup. -/
def pickSource (markup : HashMap String Nat) (idx : Nat) (curTarget : String) :
    List MigrationFile → Option (PathElem × String)
  | [] => none
  | item :: sources =>
      if item.data.parentId ≠ curTarget then pickSource markup idx curTarget sources
      else if markup.get item.data.id = some idx then
        some (.normal item, item.data.id)
      else
        match item.fixupTarget with
        | some fixup =>
            if markup.get fixup = some idx then some (.fixup item, fixup)
            else pickSource markup idx curTarget sources
        | none => pickSource markup idx curTarget sources

/-- The `for idx in (0..num).rev()` loop, `num` counting down. -/
def backtrackLoop (markup : HashMap String Nat)
    (bySource : HashMap String (List MigrationFile)) :
    Nat → String → List PathElem → Except BugError (List PathElem)
  | 0, _, result => .ok result
  | idx + 1, curTarget, result =>
      match bySource.get curTarget with
      | none => .error backtrackError
      | some sources =>
          match pickSource markup idx curTarget sources with
          | some (elem, next) =>
              backtrackLoop markup bySource idx next (result ++ [elem])
          | none => backtrackLoop markup bySource idx curTarget result

def backtrack (markup : HashMap String Nat)
    (bySource : HashMap String (List MigrationFile)) (num : Nat)
    (dbRevision : String) : Except BugError (List PathElem) :=
  match backtrackLoop markup bySource num dbRevision [] with
  | .error e => .error e
  | .ok result =>
      if result.isEmpty || result.length != num then .error backtrackError
      else .ok result

/-! ## The search -/

abbrev FindResult := Except BugError (Option (List PathElem))

/-- The `while let Some((migration, num)) = queue.pop_front()` loop, with a fuel
for its turns. -/
def searchLoop (ix : Indexes) (dbMigration : String) :
    Nat → List (String × Nat) → HashMap String Nat → Option FindResult
  | 0, _, _ => none
  | _ + 1, [], _ => some (.ok none)
  | fuel + 1, (migration, num) :: queue, markup =>
      if migration = dbMigration then
        some ((backtrack markup ix.bySource num migration).map some)
      else
        match ix.byTarget.get migration with
        | some items =>
            searchLoop ix dbMigration fuel
              (queue ++ items.map fun item => (item, num + 1))
              (items.foldl (fun m item => m.insert item (num + 1)) markup)
        | none => searchLoop ix dbMigration fuel queue markup

def findPath (fuel : Nat) (migrations : List (String × MigrationFile))
    (fixups : List MigrationFile) (dbMigration target : String) :
    Option FindResult :=
  searchLoop (indexes migrations fixups) dbMigration fuel [(target, 0)]
    (HashMap.empty.insert target 0)

/-- `find_path` ends and returns `result`. -/
def FindPathReturns (migrations : List (String × MigrationFile))
    (fixups : List MigrationFile) (dbMigration target : String)
    (result : FindResult) : Prop :=
  ∃ fuel, findPath fuel migrations fixups dbMigration target = some result

end GelCli.Migrations
