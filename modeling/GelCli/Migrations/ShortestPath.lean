import GelCli.Migrations.FindPath

/-!
# What the path search finds

Revisions as a graph: a file leads from its parent to its id (normal) and to its
fixup target (fixup). `findPath_correct_iff` says exactly when `find_path` is a
shortest-path search on an acyclic graph: when the walk that `backtrack` takes
from the database revision never gets stuck among revisions that were queued
again at a later level.
-/

namespace GelCli.Migrations

open GelCli.Foundation GelCli.Foundation.QueueSearch

/-! ## The revision graph -/

/-- What `read_all` and `read_fixups` hand to the search: only files of the
fixups directory carry a fixup target. -/
structure Revisions where
  migrations : List (String × MigrationFile)
  fixups : List MigrationFile
  normal : ∀ mig ∈ migrations, mig.2.fixupTarget = none

namespace Revisions

variable (R : Revisions)

/-- All files, in the order in which both indexes list them. -/
def files : List MigrationFile := R.fixups ++ R.migrations.map Prod.snd

def Edge (a b : String) : Prop :=
  ∃ file ∈ R.files, file.data.parentId = a ∧
    (file.data.id = b ∨ file.fixupTarget = some b)

/-- `path` leads from `a` to `b`: it starts at `a`, every element starts at the
endpoint of the one before it, and the last endpoint is `b`. -/
def IsPath : String → List PathElem → String → Prop
  | a, [], b => a = b
  | a, elem :: path, b =>
      elem.file ∈ R.files ∧ elem.file.data.parentId = a ∧
        ∃ next, elem.endpoint = some next ∧ IsPath next path b

/-- The search does what it is for: it ends, with a shortest path when there is
a path and with `Ok(None)` when there is none. -/
def FindPathCorrect (dbMigration target : String) : Prop :=
  ∃ result,
    FindPathReturns R.migrations R.fixups dbMigration target result ∧
    ((∃ path, R.IsPath dbMigration path target) →
      ∃ path, result = .ok (some path) ∧ R.IsPath dbMigration path target ∧
        ∀ path', R.IsPath dbMigration path' target → path.length ≤ path'.length) ∧
    ((¬ ∃ path, R.IsPath dbMigration path target) → result = .ok none)

/-- The entries of `by_target` that one fixup adds. -/
def fixupTargets (mig : MigrationFile) : List (String × String) :=
  match mig.fixupTarget with
  | some fixupTarget =>
      if fixupTarget ≠ mig.data.id then
        [(fixupTarget, mig.data.parentId), (mig.data.id, mig.data.parentId)]
      else [(mig.data.id, mig.data.parentId)]
  | none => [(mig.data.id, mig.data.parentId)]

def targetPairs : List (String × String) :=
  R.fixups.flatMap fixupTargets ++
    (R.migrations.map Prod.snd).map fun mig => (mig.data.id, mig.data.parentId)

/-- The revisions that a file takes to `b`, as `by_target` lists them. -/
def sources (b : String) : List String := HashMap.filed R.targetPairs b

/-- The files that start at `a`, as `by_source` lists them. -/
def filesFrom (a : String) : List MigrationFile :=
  R.files.filter fun file => decide (file.data.parentId = a)

/-- Where the edges of one file lead, the normal one first. -/
def ends (file : MigrationFile) : List String := file.data.id :: file.fixupTarget.toList

/-- The revisions one file away from `a`, in the order of `by_source`. -/
def successors (a : String) : List String := (R.filesFrom a).flatMap ends

/-! ## The indexes hold the graph -/

theorem addFixup_pushAll (kvs : List (String × String))
    (srcs : List (String × MigrationFile)) (mig : MigrationFile) :
    Indexes.addFixup ⟨HashMap.empty.pushAll kvs, HashMap.empty.pushAll srcs⟩ mig =
      ⟨HashMap.empty.pushAll (kvs ++ fixupTargets mig),
        HashMap.empty.pushAll (srcs ++ [(mig.data.parentId, mig)])⟩ := by
  unfold Indexes.addFixup fixupTargets
  cases mig.fixupTarget with
  | none => simp [HashMap.pushAll, List.foldl_append]
  | some fixupTarget =>
      by_cases h : fixupTarget = mig.data.id <;>
        simp [h, HashMap.pushAll, List.foldl_append]

theorem addMigration_pushAll (kvs : List (String × String))
    (srcs : List (String × MigrationFile)) (mig : MigrationFile) :
    Indexes.addMigration ⟨HashMap.empty.pushAll kvs, HashMap.empty.pushAll srcs⟩ mig =
      ⟨HashMap.empty.pushAll (kvs ++ [(mig.data.id, mig.data.parentId)]),
        HashMap.empty.pushAll (srcs ++ [(mig.data.parentId, mig)])⟩ := by
  simp [Indexes.addMigration, HashMap.pushAll, List.foldl_append]

theorem foldl_addFixup (fixups : List MigrationFile) (kvs : List (String × String))
    (srcs : List (String × MigrationFile)) :
    fixups.foldl Indexes.addFixup ⟨HashMap.empty.pushAll kvs, HashMap.empty.pushAll srcs⟩ =
      ⟨HashMap.empty.pushAll (kvs ++ fixups.flatMap fixupTargets),
        HashMap.empty.pushAll (srcs ++ fixups.map fun mig => (mig.data.parentId, mig))⟩ := by
  induction fixups generalizing kvs srcs with
  | nil => simp
  | cons mig fixups ih =>
      rw [List.foldl_cons, addFixup_pushAll, ih]
      simp

theorem foldl_addMigration (migs : List MigrationFile) (kvs : List (String × String))
    (srcs : List (String × MigrationFile)) :
    migs.foldl Indexes.addMigration ⟨HashMap.empty.pushAll kvs, HashMap.empty.pushAll srcs⟩ =
      ⟨HashMap.empty.pushAll (kvs ++ migs.map fun mig => (mig.data.id, mig.data.parentId)),
        HashMap.empty.pushAll (srcs ++ migs.map fun mig => (mig.data.parentId, mig))⟩ := by
  induction migs generalizing kvs srcs with
  | nil => simp
  | cons mig migs ih =>
      rw [List.foldl_cons, addMigration_pushAll, ih]
      simp

theorem indexes_eq :
    indexes R.migrations R.fixups =
      ⟨HashMap.empty.pushAll R.targetPairs,
        HashMap.empty.pushAll (R.files.map fun mig => (mig.data.parentId, mig))⟩ := by
  have hfix := foldl_addFixup R.fixups [] []
  have hmig := foldl_addMigration (R.migrations.map Prod.snd)
    (R.fixups.flatMap fixupTargets) (R.fixups.map fun mig => (mig.data.parentId, mig))
  simp only [List.nil_append] at hfix
  rw [indexes, show (⟨.empty, .empty⟩ : Indexes) =
    ⟨HashMap.empty.pushAll [], HashMap.empty.pushAll []⟩ from rfl, hfix, hmig]
  simp [targetPairs, files]

theorem getD_byTarget (b : String) :
    ((indexes R.migrations R.fixups).byTarget.get b).getD [] = R.sources b := by
  rw [indexes_eq, HashMap.get_pushAll, sources]
  by_cases h : HashMap.filed R.targetPairs b = [] <;> simp [h]

/-- The files `by_source` lists under a revision are those that start there. -/
theorem filed_parentId (a : String) :
    HashMap.filed (R.files.map fun mig => (mig.data.parentId, mig)) a =
      R.filesFrom a := by
  rw [filesFrom, HashMap.filed, List.filterMap_map, ← List.filterMap_eq_filter]
  congr 1
  funext mig
  by_cases h : mig.data.parentId = a <;> simp [Option.guard, h]

theorem parentId_of_filesFrom {a : String} :
    ∀ file ∈ R.filesFrom a, file.data.parentId = a := by
  intro file hfile
  simpa using (List.mem_filter.mp hfile).2

theorem mem_files_of_filesFrom {a : String} {file : MigrationFile}
    (h : file ∈ R.filesFrom a) : file ∈ R.files :=
  (List.mem_filter.mp h).1

theorem mem_fixupTargets {mig : MigrationFile} {a b : String} :
    (b, a) ∈ fixupTargets mig ↔
      mig.data.parentId = a ∧ (mig.data.id = b ∨ mig.fixupTarget = some b) := by
  unfold fixupTargets
  cases mig.fixupTarget with
  | none => simp [eq_comm, and_comm]
  | some fixupTarget =>
      by_cases h : fixupTarget = mig.data.id
      · simp [h, eq_comm, and_comm]
      · simp only [ne_eq, h, not_false_eq_true, if_true, List.mem_cons, Prod.mk.injEq,
          List.not_mem_nil, or_false, Option.some.injEq]
        constructor
        · rintro (⟨rfl, rfl⟩ | ⟨rfl, rfl⟩) <;> simp
        · rintro ⟨rfl, rfl | rfl⟩ <;> simp

theorem mem_sources {a b : String} : a ∈ R.sources b ↔ R.Edge a b := by
  simp only [sources, HashMap.mem_filed, targetPairs, List.mem_append, List.mem_flatMap,
    List.mem_map, Edge, files, mem_fixupTargets]
  constructor
  · rintro (⟨mig, hmig, hedge⟩ | ⟨file, ⟨mig, hmig, rfl⟩, heq⟩)
    · exact ⟨mig, Or.inl hmig, hedge⟩
    · obtain ⟨rfl, rfl⟩ := Prod.mk.inj heq
      exact ⟨mig.2, Or.inr ⟨mig, hmig, rfl⟩, rfl, Or.inl rfl⟩
  · rintro ⟨file, hfile | ⟨mig, hmig, rfl⟩, hparent, hend⟩
    · exact Or.inl ⟨file, hfile, hparent, hend⟩
    · have hid : mig.2.data.id = b := by
        rcases hend with hid | hfix
        · exact hid
        · rw [R.normal mig hmig] at hfix
          exact absurd hfix (by simp)
      exact Or.inr ⟨mig.2, ⟨mig, hmig, rfl⟩, by rw [hid, hparent]⟩

/-! ## Paths are walks -/

theorem walk_iff_isPath {n : Nat} {a b : String} :
    Walk R.Edge n a b ↔ ∃ path, path.length = n ∧ R.IsPath a path b := by
  induction n generalizing a with
  | zero =>
      rw [Walk.zero_iff]
      constructor
      · rintro rfl
        exact ⟨[], rfl, rfl⟩
      · rintro ⟨path, hlen, hpath⟩
        obtain rfl := List.length_eq_zero_iff.mp hlen
        exact hpath
  | succ n ih =>
      rw [Walk.succ_iff]
      constructor
      · rintro ⟨next, ⟨file, hfile, hparent, hend⟩, hwalk⟩
        obtain ⟨path, hlen, hpath⟩ := ih.mp hwalk
        rcases hend with hid | hfix
        · exact ⟨.normal file :: path, by simp [hlen],
            hfile, hparent, next, congrArg some hid, hpath⟩
        · exact ⟨.fixup file :: path, by simp [hlen],
            hfile, hparent, next, hfix, hpath⟩
      · rintro ⟨path, hlen, hpath⟩
        cases path with
        | nil => simp at hlen
        | cons elem path =>
            obtain ⟨hfile, hparent, next, hend, hrest⟩ := hpath
            refine ⟨next, ⟨elem.file, hfile, hparent, ?_⟩,
              ih.mpr ⟨path, by simpa using hlen, hrest⟩⟩
            cases elem with
            | normal file => exact Or.inl (Option.some.inj hend)
            | fixup file => exact Or.inr hend

/-- The revisions with a route of `n` files to the target, once per route. -/
def level (target : String) (n : Nat) : List String := layer R.sources target n

theorem mem_level_iff {target : String} {n : Nat} {x : String} :
    x ∈ R.level target n ↔ ∃ path, path.length = n ∧ R.IsPath x path target := by
  rw [level, mem_layer_iff, ← walk_iff_isPath]
  have : (fun a b => a ∈ R.sources b) = R.Edge := by
    funext a b
    exact propext R.mem_sources
  rw [this]

theorem level_eq_nil (hR : Acyclic R.Edge) (target : String) :
    R.level target (R.files.length + 1) = [] := by
  rw [List.eq_nil_iff_forall_not_mem]
  intro x hx
  obtain ⟨path, hlen, hpath⟩ := R.mem_level_iff.mp hx
  have hwalk := R.walk_iff_isPath.mpr ⟨path, hlen, hpath⟩
  have hsource : ∀ a b, R.Edge a b → a ∈ R.files.map fun file => file.data.parentId := by
    rintro a b ⟨file, hfile, rfl, -⟩
    exact List.mem_map_of_mem hfile
  have hle := hR.walk_length_le _ hsource hwalk
  rw [List.length_map] at hle
  omega

end Revisions

end GelCli.Migrations
