import GelCli.Dump.Names
import GelCli.Foundation.Decimal
import GelCli.Foundation.Dict

/-!
# Migration files

The files of the migrations directory and `sort_revisions` of
`src/migrations/migration.rs`, which puts the files that were read into the order of
their history. The files come keyed by their parents and leave keyed by their ids;
both maps are walked in some order, which is their order here.

Files are named within their directory. Numbers are those of the names (`u64`).
-/

namespace GelCli.Migrations.Files

open GelCli.Foundation

def nullMigration : Text := "initial".toList

/-- The ranges are byte offsets into the text of the file. -/
structure Migration where
  message : Option Text
  id : Text
  idRange : Nat × Nat
  parentId : Text
  parentIdRange : Nat × Nat
  textRange : Nat × Nat
deriving DecidableEq, Repr

structure MigrationFile where
  path : Text
  fixupTarget : Option Text
  data : Migration
deriving DecidableEq, Repr

/-! ## Names -/

/-- `str::parse::<u64>`. -/
def parseU64 (t : Text) : Option Nat :=
  let digits := match t with
    | '+' :: rest => rest
    | _ => t
  if digits ≠ [] ∧ digits.all Char.isDigit ∧ Decimal.value digits < 2 ^ 64 then
    some (Decimal.value digits)
  else none

def fileNum (path : Text) : Option Nat :=
  (Dump.fileStem path).bind fun x =>
    if '-' ∈ x then parseU64 (x.takeWhile (· ≠ '-')) else parseU64 x

/-- `{:05}`. -/
def padded (n : Nat) : Text := List.replicate (5 - (Decimal.ofNat n).length) '0' ++ Decimal.ofNat n

inductive SortKey where
  | numeric (n : Nat)
  | text (t : Text)
deriving DecidableEq, Repr

/-- The derived order. -/
def SortKey.lt : SortKey → SortKey → Bool
  | .numeric n, .numeric m => n < m
  | .numeric _, .text _ => true
  | .text _, .numeric _ => false
  | .text t, .text u => t < u

def sortKey (item : MigrationFile) : SortKey :=
  match fileNum item.path with
  | some n => .numeric n
  | none => .text ((Dump.fileStem item.path).getD [])

/-- `min_by_key`: the first of the smallest. -/
def minByKey : List MigrationFile → Option MigrationFile
  | [] => none
  | item :: items =>
      some (items.foldl (fun least next => if (sortKey next).lt (sortKey least) then next else least)
        item)

/-! ## `sort_revisions` -/

inductive SortError where
  | wrongName (path : Text) (counter : Nat)
  | wrongParent (path parentId id : Text)
  | missing (counter : Nat) (parentId path : Text)
deriving DecidableEq, Repr

/-- `debug` is the `{:?}` of a string. -/
def SortError.message (debug : Text → Text) : SortError → Text
  | .wrongName path counter =>
      "File `".toList ++ path ++ "` should be named `".toList ++ padded counter ++
        ".edgeql`".toList
  | .wrongParent path parentId id =>
      "File `".toList ++ path ++ "` should have ".toList ++ debug parentId ++
        " as the parent migration (`CREATE MIGRATION ".toList ++ id ++ " ONTO ".toList ++
        parentId ++ " \x7b...`)".toList
  | .missing counter parentId path =>
      "could not find file `".toList ++ padded counter ++ ".edgeql` with parent migration ".toList ++
        debug parentId ++ " (perhaps ".toList ++ path ++ " should be fixed?)".toList

abbrev FileMap := Dict Text MigrationFile

/-- The variables of the loop. -/
structure SortState where
  all : FileMap
  res : FileMap
  counter : Nat
  parentId : Text

/-- What to do about files none of which follows: the first by number is to blame. -/
def noNext (s : SortState) : SortError :=
  match minByKey (s.all.items.map Prod.snd) with
  | some next =>
      if fileNum next.path = some s.counter then
        .wrongParent next.path s.parentId next.data.id
      else .missing s.counter s.parentId next.path
  | none => .missing s.counter s.parentId []

/-- One turn of `while !all.is_empty()`: the next state, or what is returned. -/
def sortTurn (s : SortState) : SortState ⊕ Except SortError FileMap :=
  if s.all.items = [] then .inr (.ok s.res)
  else
    match s.all.get s.parentId with
    | some item =>
        if fileNum item.path ≠ some s.counter then .inr (.error (.wrongName item.path s.counter))
        else
          .inl { all := s.all.erase s.parentId
                 res := s.res.set item.data.id item
                 counter := s.counter + 1
                 parentId := item.data.id }
    | none => .inr (.error (noNext s))

def sortLoop : Nat → SortState → Option (Except SortError FileMap)
  | 0, _ => none
  | fuel + 1, s =>
      match sortTurn s with
      | .inl s => sortLoop fuel s
      | .inr result => some result

def SortState.start (all : FileMap) : SortState := ⟨all, .empty, 1, nullMigration⟩

/-- Each turn that does not return takes a file out of `all`. -/
theorem length_of_sortTurn {s t : SortState} (h : sortTurn s = .inl t) :
    t.all.items.length < s.all.items.length := by
  unfold sortTurn at h
  split at h
  · cases h
  split at h
  · next item hget =>
    split at h
    · cases h
    · cases h
      have hmem := Dict.get_eq_some.mp hget
      exact List.length_filter_lt_length_iff_exists.mpr ⟨_, hmem, by simp⟩
  · cases h

theorem sortLoop_isSome {fuel : Nat} {s : SortState} (h : s.all.items.length < fuel) :
    (sortLoop fuel s).isSome := by
  induction fuel generalizing s with
  | zero => cases h
  | succ fuel ih =>
      unfold sortLoop
      split
      · next t hturn => exact ih (Nat.lt_of_lt_of_le (length_of_sortTurn hturn) (Nat.le_of_lt_succ h))
      · rfl

def sortRevisions (all : FileMap) : Except SortError FileMap :=
  (sortLoop (all.items.length + 1) (.start all)).get (sortLoop_isSome (Nat.lt_succ_self _))

/-! ## `_read_fixups` -/

/-- The second part of the name. -/
def fixupTarget (path : Text) : Option Text :=
  (Dump.fileStem path).bind fun s => (s.splitOn '-')[1]?

/-- The files of the fixups directory, once parsed; other names are left out. -/
def readFixups (parsed : List (Text × Migration)) : List MigrationFile :=
  parsed.filterMap fun entry =>
    (fixupTarget entry.1).map fun target => ⟨entry.1, some target, entry.2⟩

end GelCli.Migrations.Files
