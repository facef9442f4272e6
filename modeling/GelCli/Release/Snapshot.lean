import GelCli.Release.SourceTree

/-!
# The snapshot and the comparison

`compare` looks at two trees entry by entry; `meaningful_tree` hashes the records of
a tree, one line each, joined in sorted order. A line tells its entry, and the lines
tell the source of the tree, so the two agree.
-/

namespace GelCli.Release

open GelCli.Foundation

/-! ## The lines of a tree -/

def TreeEntry.record (e : TreeEntry) : Text := e.mode ++ ' ' :: Quote.cStyle e.path ++ ' ' :: e.objectname

/-- What `meaningful_tree` joins. -/
def Tree.lines (tree : Tree) : List Text :=
  Text.sorted (tree.source.map fun e => e.record ++ ['\n'])

theorem TreeEntry.record_injective : Function.Injective TreeEntry.record := by
  intro e e' h
  rw [TreeEntry.record, TreeEntry.record, List.append_assoc, List.append_assoc] at h
  obtain ⟨hmode, hrest⟩ := Text.append_cons_inj e.space_notMem_mode e'.space_notMem_mode h
  -- the path may hold blanks, the object name holds none
  obtain ⟨hpath, hobject⟩ := Text.append_cons_inj_last e.space_notMem_objectname
    e'.space_notMem_objectname hrest
  refine TreeEntry.item_injective (Prod.ext hpath ?_)
  rw [TreeEntry.item, TreeEntry.item, hmode, hobject]

theorem TreeEntry.newline_notMem_record (e : TreeEntry) : '\n' ∉ e.record := by
  have hline := e.notMem_line (c := '\n') (by decide)
  simp only [TreeEntry.item, TreeEntry.record, List.mem_append, List.mem_cons, not_or] at hline ⊢
  exact ⟨⟨hline.1.1, hline.2⟩, hline.1.2⟩

/-- The items outside the allowlist are those of the source. -/
theorem meaningfulItems_entriesRead (tree : Tree) :
    meaningfulItems tree.entriesRead = tree.source.map TreeEntry.item := by
  rw [meaningfulItems, Tree.entriesRead, Tree.source, List.filter_map]
  refine congrArg (List.map TreeEntry.item) (List.filter_congr fun e _ => ?_)
  simp only [Function.comp, TreeEntry.item, cStyle_mem_allowlist]

theorem canonicalEntry_item (e : TreeEntry) : canonicalEntry e.item = .ok e.record := by
  simp only [canonicalEntry, TreeEntry.item, Text.cut_append e.space_notMem_mode]
  rfl

section Snapshots

variable {repo : Repository} {sha256 : List UInt8 → Text} {rev : Text}

/-- **The snapshot is the digest of the lines.** -/
theorem meaningfulTree_eq {commit : Commit} (h : repo.commit rev = some commit) :
    meaningfulTree repo sha256 rev = .ok (sha256 (Text.utf8 commit.tree.lines.flatten)) := by
  refine bind_eq_ok.mpr ⟨_, treeEntries_eq repo h, ?_⟩
  refine bind_eq_ok.mpr ⟨commit.tree.source.map TreeEntry.record, ?_, ?_⟩
  · rw [meaningfulItems_entriesRead, List.mapM_map]
    exact mapM_ok fun e _ => canonicalEntry_item e
  · rw [List.map_map]
    rfl

end Snapshots

/-- **The joined lines tell the source.** -/
theorem Tree.flatten_lines_inj {base head : Tree} :
    base.lines.flatten = head.lines.flatten ↔ base.source = head.source := by
  have hends : ∀ tree : Tree, ∀ line ∈ tree.lines, Text.EndsAt '\n' line := by
    intro tree line hline
    obtain ⟨e, -, rfl⟩ := List.mem_map.mp (Text.mem_sorted.mp hline)
    exact ⟨e.record, rfl, e.newline_notMem_record⟩
  have hinj : Function.Injective fun e : TreeEntry => e.record ++ ['\n'] :=
    fun _ _ h => TreeEntry.record_injective (List.append_cancel_right h)
  constructor
  · intro h
    have hlines : base.lines = head.lines := Text.flatten_inj (hends base) (hends head) h
    have hperm := (Text.sorted_perm _).symm.trans
      ((List.Perm.of_eq hlines).trans (Text.sorted_perm _))
    exact Tree.source_eq_of_perm ((List.map_perm_map_iff hinj).mp hperm)
  · intro h
    rw [Tree.lines, Tree.lines, h]

/-! ## The comparison -/

theorem mem_allPaths {base head : Entries} {path : Text} :
    path ∈ allPaths base head ↔ base.get path ≠ none ∨ head.get path ≠ none := by
  simp only [allPaths, Text.mem_sorted, List.mem_dedup, List.mem_append, Dict.mem_keys_iff,
    Option.ne_none_iff_exists']

/-- A path on which two trees differ is a path of one of them. -/
theorem mem_allPaths_of_ne {base head : Entries} {path : Text}
    (h : base.get path ≠ head.get path) : path ∈ allPaths base head := by
  rw [mem_allPaths]
  by_contra hnone
  obtain ⟨hbase, hhead⟩ := not_or.mp hnone
  rw [not_not] at hbase hhead
  exact h (hbase.trans hhead.symm)

/-- **No difference is reported iff the sources are the same.** -/
theorem compare_eq_nil_iff {repo : Repository} {baseRev headRev : Text} {base head : Commit}
    (hb : repo.commit baseRev = some base) (hh : repo.commit headRev = some head) :
    compare repo baseRev headRev = .ok [] ↔ base.tree.source = head.tree.source := by
  have hcompare : compare repo baseRev headRev =
      .ok ((allPaths base.tree.entriesRead head.tree.entriesRead).filterMap
        (difference base.tree.entriesRead head.tree.entriesRead)) := by
    rw [compare, treeEntries_eq repo hb, treeEntries_eq repo hh]
    rfl
  rw [hcompare, Except.ok.injEq, List.filterMap_eq_nil_iff, Tree.source_eq_iff]
  constructor
  · intro h path hpath
    by_contra hne
    have hnone := h path (mem_allPaths_of_ne hne)
    rw [difference, if_neg hpath, if_neg hne] at hnone
    split at hnone <;> cases hnone
  · intro h path _
    by_cases hpath : path ∈ allowlist
    · rw [difference, if_pos hpath]
    · rw [difference, if_neg hpath, if_pos (h path hpath)]

/-- **The snapshot identifies the source**: two revisions have one snapshot iff the
comparison reports no difference, and both say that the trees have the same files
outside the allowlist. -/
theorem meaningfulTree_compare_iff {repo : Repository} {sha256 : List UInt8 → Text}
    (hsha256 : Function.Injective sha256) {baseRev headRev : Text} {base head : Commit}
    (hb : repo.commit baseRev = some base) (hh : repo.commit headRev = some head) :
    (meaningfulTree repo sha256 baseRev = meaningfulTree repo sha256 headRev ↔
        compare repo baseRev headRev = .ok []) ∧
      (compare repo baseRev headRev = .ok [] ↔ base.tree.source = head.tree.source) := by
  refine ⟨?_, compare_eq_nil_iff hb hh⟩
  rw [compare_eq_nil_iff hb hh, meaningfulTree_eq hb, meaningfulTree_eq hh, Except.ok.injEq,
    hsha256.eq_iff, Text.utf8_injective.eq_iff, Tree.flatten_lines_inj]

/-! ## Two trees of one text, were paths not quoted -/

theorem plainMode_digits : ∀ c ∈ "100644".toList, c.isDigit := List.all_eq_true.mp (by decide)

/-- A file whose object name is one digit over and over. -/
def plainFile (path : Text) (digit : Char) (hpath : path ≠ [] ∧ '\x00' ∉ path)
    (hdigit : digit.isDigit) : TreeEntry where
  mode := "100644".toList
  objectname := List.replicate 40 digit
  path := path
  mode_digits := plainMode_digits
  objectname_hex := fun _ h => Or.inl (List.eq_of_mem_replicate h ▸ hdigit)
  path_ne_nil := hpath.1
  path_no_nul := hpath.2

def twoFiles : Tree :=
  ⟨[plainFile ['a'] '1' (by decide) (by decide), plainFile ['b'] '2' (by decide) (by decide)],
    by decide⟩

/-- One file, whose path is the rest of the first line of `twoFiles` and the start of
the second. Only the quotes around it keep the two trees apart. -/
def oneFile : Tree :=
  ⟨[plainFile ('a' :: ' ' :: List.replicate 40 '1' ++ "\n100644 b".toList) '2' (by decide)
      (by decide)], List.pairwise_singleton _ _⟩

def twoCommits : Repository where
  commit := fun rev =>
    if rev = ['1'] then some ⟨[], twoFiles⟩ else if rev = ['2'] then some ⟨[], oneFile⟩ else none
  blob := fun _ => []
  stderr := fun _ => ""

theorem twoFiles_commit : twoCommits.commit ['1'] = some ⟨[], twoFiles⟩ := rfl

theorem oneFile_commit : twoCommits.commit ['2'] = some ⟨[], oneFile⟩ := rfl

/-- A digest without collisions. -/
def bytesAsText (bytes : List UInt8) : Text := bytes.map fun b => Char.ofNat b.toNat

theorem bytesAsText_injective : Function.Injective bytesAsText := by
  have hchar : ∀ n : Fin 256, (Char.ofNat n).toNat = n := by decide +kernel
  refine List.map_injective_iff.mpr fun a b h => ?_
  have hnat := congrArg Char.toNat h
  rw [hchar ⟨a.toNat, a.toNat_lt⟩, hchar ⟨b.toNat, b.toNat_lt⟩] at hnat
  exact UInt8.toNat_inj.mp hnat

theorem meaningfulTree_compare_two_files :
    (meaningfulTree twoCommits bytesAsText ['1'] = meaningfulTree twoCommits bytesAsText ['2'] ↔
        compare twoCommits ['1'] ['2'] = .ok []) ∧
      (compare twoCommits ['1'] ['2'] = .ok [] ↔ twoFiles.source = oneFile.source) :=
  meaningfulTree_compare_iff bytesAsText_injective twoFiles_commit oneFile_commit

end GelCli.Release
