import GelCli.Release.Record
import GelCli.Release.Snapshot

/-!
# Record commits

The rest of `source_equivalence.py`: the record that a revision holds, and the
check that a revision is the one commit on top of a tested source that changes
nothing but the record.
-/

namespace GelCli.Release

open GelCli.Foundation

variable (repo : Repository)

/-- `git show rev:path`. -/
def gitShow (rev path : Text) : Option (List UInt8) :=
  (repo.commit rev).bind fun commit =>
    (commit.tree.entries.find? fun e => e.path = path).map fun e => repo.blob e.objectname

/-- `_git_blob`. -/
def gitBlob (sourceSha path : Text) : Except String (List UInt8) :=
  let detail := repo.stderr (sourceSha ++ ':' :: path)
  let shownPath := String.ofList path
  let shownSha := String.ofList sourceSha
  expect (gitShow repo sourceSha path) s!"could not read {shownPath} from {shownSha}: {detail}"

/-- `_record_bytes`. -/
def recordBytes (rev : Text) : Except String (List UInt8) :=
  let detail := repo.stderr (rev ++ ':' :: recordPath)
  let shownRev := String.ofList rev
  let shownPath := String.ofList recordPath
  expect (gitShow repo rev recordPath) s!"{shownRev} does not contain {shownPath}: {detail}"

def assertRecordPresent (rev : Text) (expectedRecord : List UInt8) : Except String PUnit := do
  let actual ← recordBytes repo rev
  let shown := String.ofList rev
  require (actual = expectedRecord)
    s!"{shown} contains a candidate record with unexpected bytes"

/-- `git rev-list --parents -n 1 successor`: the commit and its parents. -/
def revListParents (successor : Text) : Except String (List Text) :=
  let shown := String.ofList successor
  let detail := repo.stderr successor
  (expect (repo.commit successor) s!"could not inspect candidate successor {shown}: {detail}").map
    fun commit => successor :: commit.parents

/-- The paths on which two trees differ, in order. -/
def changedPaths (base head : Entries) : List Text :=
  (allPaths base head).filter fun path => base.get path ≠ head.get path

def assertRecordSuccessor (testedSource successor : Text) (expectedRecord : List UInt8) :
    Except String PUnit := do
  let parents ← revListParents repo successor
  let shown := String.ofList successor
  let source := String.ofList testedSource
  let above := parents.drop 1
  let actual := if above = [] then "no parent" else " ".intercalate (above.map String.ofList)
  require (parents.length = 2 ∧ parents[1]? = some testedSource)
    s!"{shown} is not the single record successor of {source}; parents={actual}"
  let base ← treeEntries repo testedSource
  let head ← treeEntries repo successor
  let changed := changedPaths base head
  let details := if changed = [] then "no paths" else ", ".intercalate (changed.map String.ofList)
  let path := String.ofList recordPath
  require (changed = [recordPath])
    s!"{shown} changes {details}; expected only {path} after {source}"
  assertRecordPresent repo successor expectedRecord

/-! ## Trees that differ in the record only -/

/-- `head` is `base` with another record. -/
structure RecordOnly (base head : Tree) : Prop where
  source : head.source = base.source
  record : (head.entries.find? fun e => e.path = recordPath) ≠
    base.entries.find? fun e => e.path = recordPath

theorem nodup_allPaths {base head : Entries} : (allPaths base head).Nodup :=
  (Text.sorted_perm _).nodup_iff.mpr (List.nodup_dedup _)

theorem mem_changedPaths {base head : Entries} {path : Text} :
    path ∈ changedPaths base head ↔ base.get path ≠ head.get path := by
  rw [changedPaths, List.mem_filter, decide_eq_true_eq]
  exact ⟨And.right, fun hne => ⟨mem_allPaths_of_ne hne, hne⟩⟩

/-- The record is the only changed path when lookups differ there and nowhere else. -/
theorem changedPaths_eq_record {base head : Entries} :
    changedPaths base head = [recordPath] ↔
      (∀ path, path ∉ allowlist → head.get path = base.get path) ∧
        base.get recordPath ≠ head.get recordPath := by
  constructor
  · intro h
    have hmem : ∀ path, path = recordPath ↔ base.get path ≠ head.get path := by
      intro path
      rw [← mem_changedPaths, h, List.mem_singleton]
    refine ⟨fun path hpath => ?_, (hmem recordPath).mp rfl⟩
    by_contra hne
    exact hpath (List.mem_singleton.mpr ((hmem path).mpr (Ne.symm hne)))
  · rintro ⟨hothers, hrecord⟩
    refine List.perm_singleton.mp ((List.perm_ext_iff_of_nodup (nodup_allPaths.filter _)
      (List.nodup_singleton _)).mpr fun path => ?_)
    rw [List.mem_singleton]
    refine mem_changedPaths.trans ⟨fun hne => ?_, fun h => h ▸ hrecord⟩
    by_contra hpath
    exact hne (hothers path (mt List.mem_singleton.mp hpath)).symm

/-- **The check on the paths admits exactly the trees that differ in the record.** -/
theorem changedPaths_eq_iff {base head : Tree} :
    changedPaths base.entriesRead head.entriesRead = [recordPath] ↔ RecordOnly base head := by
  rw [changedPaths_eq_record, ← Tree.source_eq_iff, Tree.get_recordPath, Tree.get_recordPath]
  constructor
  · rintro ⟨hsource, hrecord⟩
    exact ⟨hsource, fun heq => hrecord (by rw [heq])⟩
  · rintro ⟨hsource, hrecord⟩
    refine ⟨hsource, fun hvalue => hrecord ?_⟩
    -- an entry at the record's path is determined by its value
    have hpath : ∀ {tree : Tree} {e : TreeEntry},
        (tree.entries.find? fun e => e.path = recordPath) = some e → e.path = recordPath :=
      fun hfind => by simpa using List.find?_some hfind
    cases hbase : base.entries.find? fun e => e.path = recordPath with
    | none =>
        rw [hbase] at hvalue
        exact Option.map_eq_none_iff.mp hvalue.symm
    | some e =>
        rw [hbase] at hvalue
        obtain ⟨e', hhead, hsame⟩ := Option.map_eq_some_iff.mp hvalue.symm
        have hitem : e'.item = e.item := by
          refine Prod.ext ?_ hsame
          rw [TreeEntry.item, TreeEntry.item, hpath hhead, hpath hbase]
        rw [hhead, TreeEntry.item_injective hitem]

/-! ## Record commits -/

/-- `successor` is one commit on top of `source` that changes nothing but the record. -/
def RecordSuccessor (source successor : Text) : Prop :=
  ∃ base head, repo.commit source = some base ∧ repo.commit successor = some head ∧
    head.parents = [source] ∧ RecordOnly base.tree head.tree

variable {repo}

theorem assertRecordPresent_eq_ok {rev : Text} {bytes : List UInt8} :
    assertRecordPresent repo rev bytes = .ok ⟨⟩ ↔ gitShow repo rev recordPath = some bytes := by
  constructor
  · intro h
    obtain ⟨actual, hactual, h⟩ := expect_bind_eq_ok.mp h
    rwa [← require_eq_ok.mp h]
  · exact fun h => expect_bind_eq_ok.mpr ⟨bytes, h, require_eq_ok.mpr rfl⟩

theorem revListParents_eq_ok {rev : Text} {parents : List Text} :
    revListParents repo rev = .ok parents ↔
      ∃ commit, repo.commit rev = some commit ∧ parents = rev :: commit.parents := by
  unfold revListParents
  cases repo.commit rev with
  | none => simp [expect, Except.map]
  | some commit => simp [expect, Except.map, eq_comm]

theorem parents_eq_singleton {successor source : Text} {parents : List Text} :
    (successor :: parents).length = 2 ∧ (successor :: parents)[1]? = some source ↔
      parents = [source] := by
  match parents with
  | [] => simp
  | [p] => simp
  | p :: q :: rest => simp

/-- **The successor check accepts exactly the record commits** that hold the record. -/
theorem assertRecordSuccessor_eq_ok {source successor : Text} {bytes : List UInt8} :
    assertRecordSuccessor repo source successor bytes = .ok ⟨⟩ ↔
      RecordSuccessor repo source successor ∧ gitShow repo successor recordPath = some bytes := by
  constructor
  · intro h
    obtain ⟨parents, hlist, h⟩ := bind_eq_ok.mp h
    obtain ⟨hsource, h⟩ := require_bind_eq_ok.mp h
    obtain ⟨base, hbase, h⟩ := bind_eq_ok.mp h
    obtain ⟨head, hhead, h⟩ := bind_eq_ok.mp h
    obtain ⟨hchanged, hpresent⟩ := require_bind_eq_ok.mp h
    obtain ⟨commit, hcommit, rfl⟩ := revListParents_eq_ok.mp hlist
    obtain ⟨source', hsource', rfl⟩ := (treeEntries_eq_ok repo).mp hbase
    obtain ⟨commit', hcommit', rfl⟩ := (treeEntries_eq_ok repo).mp hhead
    cases hcommit.symm.trans hcommit'
    exact ⟨⟨source', commit, hsource', hcommit, parents_eq_singleton.mp hsource,
      changedPaths_eq_iff.mp hchanged⟩, assertRecordPresent_eq_ok.mp hpresent⟩
  · rintro ⟨⟨base, head, hbase, hhead, hsource, honly⟩, hshow⟩
    refine bind_eq_ok.mpr ⟨_, revListParents_eq_ok.mpr ⟨head, hhead, rfl⟩, ?_⟩
    refine require_bind_eq_ok.mpr ⟨parents_eq_singleton.mpr hsource, ?_⟩
    refine bind_eq_ok.mpr ⟨_, (treeEntries_eq_ok repo).mpr ⟨base, hbase, rfl⟩, ?_⟩
    refine bind_eq_ok.mpr ⟨_, (treeEntries_eq_ok repo).mpr ⟨head, hhead, rfl⟩, ?_⟩
    exact require_bind_eq_ok.mpr ⟨changedPaths_eq_iff.mpr honly,
      assertRecordPresent_eq_ok.mpr hshow⟩

variable {sha256 : List UInt8 → Text}

/-- **A record commit keeps the source snapshot.** -/
theorem RecordSuccessor.meaningfulTree_eq {source successor : Text}
    (h : RecordSuccessor repo source successor) :
    meaningfulTree repo sha256 successor = meaningfulTree repo sha256 source := by
  obtain ⟨base, head, hbase, hhead, -, honly⟩ := h
  rw [GelCli.Release.meaningfulTree_eq hhead, GelCli.Release.meaningfulTree_eq hbase,
    Tree.flatten_lines_inj.mpr honly.source]

end GelCli.Release
