import GelCli.Migrations.WriteFile

/-!
# Merging a branch

`get_merge_migrations` of `src/migrations/merge.rs`: the histories of two databases are
compared place by place, and what the target has over the base is split off.
-/

namespace GelCli.Migrations.Merge

open GelCli.Foundation Db

structure MergeMigration where
  key : MigrationKey
  migration : DbMigration
deriving DecidableEq, Repr

def MergeMigration.parent (m : MergeMigration) : Text :=
  m.migration.parentNames.head?.getD Files.nullMigration

def MergeMigration.id (m : MergeMigration) : Text := m.migration.name

structure MergeMigrations where
  baseMigrations : Dict Text MergeMigration
  targetMigrations : Dict Text MergeMigration

def insertAll (result : Dict Text MergeMigration) (items : List (Text × MergeMigration)) :
    Dict Text MergeMigration :=
  items.foldl (fun result migration => result.set migration.1 migration.2) result

def MergeMigrations.flatten (m : MergeMigrations) : Dict Text MergeMigration :=
  insertAll (insertAll .empty m.baseMigrations.items) m.targetMigrations.items

/-! ## `get_merge_migrations` -/

inductive MergeError where
  | upToDate
  | diverges (base target : Text)
deriving DecidableEq, Repr

def MergeError.message : MergeError → Text
  | .upToDate => "Already up to date.".toList
  | .diverges base target =>
      "Cannot complete fast-forward merge, the histories of ".toList ++ base ++ " and ".toList ++
        target ++ " are incompatible. Try rebasing ".toList ++ target ++ " onto ".toList ++ base

/-- Where a panic comes from: a split behind the end, or a name too short to be
abbreviated. -/
inductive Panic where
  | splitOff
  | abbreviate
deriving DecidableEq, Repr

/-- What a call comes to; with an error, the lines that were printed before it. -/
inductive Outcome where
  | ok (migrations : MergeMigrations)
  | error (lines : List Text) (e : MergeError)
  | panic (p : Panic)

/-- Whether all target migrations exist within the base migrations. -/
def upToDate (base target : Dict Text DbMigration) : Bool :=
  decide (target.items.length ≤ base.items.length) &&
    target.items.zipIdx.all fun (item, i) =>
      ((base.items[i]?).map fun v => decide (v.1 = item.1)).getD false

def divergingMigrations (base target : Dict Text DbMigration) : List (Nat × Text × Text) :=
  base.items.zipIdx.filterMap fun (item, index) =>
    match target.items[index]? with
    | some other => if other.1 ≠ item.1 then some (index, item.1, other.1) else none
    | none => none

def divergingLine (entry : Nat × Text × Text) : Option Text := do
  let (index, expecting, actual) := entry
  let expecting ← abbreviate expecting
  let actual ← abbreviate actual
  return Decimal.ofNat index ++ ". Expecting ".toList ++ expecting ++ " but has ".toList ++ actual

/-- What is said about histories that diverge. -/
def diverged (base target : Connection) (entries : List (Nat × Text × Text)) : Outcome :=
  match entries.mapM divergingLine with
  | some lines =>
      .error
        (("The migration history of ".toList ++ target.database ++ " diverges from ".toList ++
          base.database ++ ":".toList) :: lines)
        (.diverges base.database target.database)
  | none => .panic .abbreviate

/-- The migrations from the place `n` on, under their places. -/
def keyed (n : Nat) (items : List (Text × DbMigration)) : Dict Text MergeMigration :=
  items.zipIdx.foldl
    (fun result entry => result.set entry.1.1 ⟨.index (n + entry.2 + 1), entry.1.2⟩) .empty

/-- The two parts, with the target's history split at `n`. -/
def mergeAt (n : Nat) (items : List (Text × DbMigration)) : MergeMigrations where
  baseMigrations := keyed 0 (items.take n)
  targetMigrations := keyed n (items.drop n)

def getMergeMigrations (base target : Connection) : Outcome :=
  let baseMigrations := Db.readAll base true false
  let targetMigrations := Db.readAll target true false
  if upToDate baseMigrations targetMigrations then .error [] .upToDate
  else
    let diverging := divergingMigrations baseMigrations targetMigrations
    if diverging ≠ [] then diverged base target diverging
    else if targetMigrations.items.length < baseMigrations.items.length then .panic .splitOff
    else .ok (mergeAt baseMigrations.items.length targetMigrations.items)

end GelCli.Migrations.Merge
