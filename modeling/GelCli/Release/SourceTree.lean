import Mathlib.Data.List.Dedup
import GelCli.Foundation.Dict
import GelCli.Foundation.Quote
import GelCli.Foundation.Results

/-!
# Git trees and source snapshots

`gel_release/source_equivalence.py`: the tree of a revision as `git ls-tree`
prints it, the digest of its source-relevant part, and the comparison of two
revisions outside the allowlist. `sha256` is the hex digest of SHA-256; an error
is the text of the `ValueError` raised.
-/

namespace GelCli.Release

open GelCli.Foundation

/-! ## Repositories -/

/-- One file of a tree, recursively listed. -/
structure TreeEntry where
  mode : Text
  objectname : Text
  path : Text
  mode_digits : ∀ c ∈ mode, c.isDigit
  objectname_hex : ∀ c ∈ objectname, c.isDigit ∨ ('a' ≤ c ∧ c ≤ 'f')
  path_ne_nil : path ≠ []
  path_no_nul : '\x00' ∉ path

/-- The files of a tree, in the order of their paths. -/
structure Tree where
  entries : List TreeEntry
  sorted : (entries.map TreeEntry.path).Pairwise (· < ·)

structure Commit where
  parents : List Text
  tree : Tree

/-- What git knows: the commit a revision names, the contents of objects, and what
it prints about a revision that names none. -/
structure Repository where
  commit : Text → Option Commit
  blob : Text → List UInt8
  stderr : Text → String

/-- A path and its value, as the listing shows them. git prints the `%(path)` of a
format through `quote_c_style` (here with the default `core.quotePath`), and `-z`
changes nothing but the end of an entry. -/
def TreeEntry.item (e : TreeEntry) : Text × Text :=
  (Quote.cStyle e.path, e.mode ++ ' ' :: e.objectname)

/-- `git ls-tree -r -z --format=%(objectmode) %(objectname) %(path)`. -/
def lsTree (tree : Tree) : Text :=
  tree.entries.flatMap fun e => e.item.2 ++ ' ' :: e.item.1 ++ ['\x00']

/-! ## `tree_entries` -/

abbrev Entries := Dict Text Text

/-- One record of the listing. `record.split(" ", 2)` must have three parts. -/
def readRecord (entries : Entries) (record : Text) : Except String Entries :=
  if record = [] then .ok entries
  else
    match Text.cut ' ' record with
    | none => .error "not enough values to unpack"
    | some (mode, rest) =>
        match Text.cut ' ' rest with
        | none => .error "not enough values to unpack"
        | some (objectname, path) => .ok (entries.set path (mode ++ ' ' :: objectname))

def readListing (stdout : Text) : Except String Entries :=
  (stdout.splitOn '\x00').foldlM readRecord Dict.empty

variable (repo : Repository)

def treeEntries (rev : Text) : Except String Entries :=
  match repo.commit rev with
  | none =>
      .error ("could not read the tree at " ++ String.ofList rev ++ ": " ++ repo.stderr rev)
  | some commit => readListing (Text.universalNewlines (lsTree commit.tree))

/-! ## `meaningful_tree` -/

def recordPath : Text := "packaging/release-candidate.json".toList

def allowlist : List Text := [recordPath]

/-- The entry of a path, without the line break behind it. -/
def canonicalEntry (item : Text × Text) : Except String Text :=
  match Text.cut ' ' item.2 with
  | none => .error "not enough values to unpack"
  | some (mode, objectname) => .ok (mode ++ ' ' :: item.1 ++ ' ' :: objectname)

def meaningfulItems (entries : Entries) : List (Text × Text) :=
  entries.items.filter fun item => decide (item.1 ∉ allowlist)

variable (sha256 : List UInt8 → Text)

def meaningfulTree (rev : Text) : Except String Text := do
  let entries ← treeEntries repo rev
  let canonical ← (meaningfulItems entries).mapM canonicalEntry
  return sha256 (Text.utf8 (Text.sorted (canonical.map fun entry => entry ++ ['\n'])).flatten)

/-! ## `compare` -/

/-- `sorted(set(base) | set(head))`. -/
def allPaths (base head : Entries) : List Text :=
  Text.sorted (base.keys ++ head.keys).dedup

def difference (base head : Entries) (path : Text) : Option Text :=
  if path ∈ allowlist then none
  else if base.get path = head.get path then none
  else
    match base.get path, head.get path with
    | none, _ => some ("added outside allowlist: ".toList ++ path)
    | some _, none => some ("removed outside allowlist: ".toList ++ path)
    | some _, some _ => some ("changed outside allowlist: ".toList ++ path)

def compare (baseRev headRev : Text) : Except String (List Text) := do
  let base ← treeEntries repo baseRev
  let head ← treeEntries repo headRev
  return (allPaths base head).filterMap (difference base head)

/-! ## What the listing is read as -/

theorem digit_ne {c : Char} (h : c.isDigit) :
    c ≠ ' ' ∧ c ≠ '\n' ∧ c ≠ '\r' ∧ c ≠ '\x00' := by
  refine ⟨?_, ?_, ?_, ?_⟩ <;> (rintro rfl; exact absurd h (by decide))

theorem hex_ne {c : Char} (h : c.isDigit ∨ ('a' ≤ c ∧ c ≤ 'f')) :
    c ≠ ' ' ∧ c ≠ '\n' ∧ c ≠ '\r' ∧ c ≠ '\x00' := by
  refine ⟨?_, ?_, ?_, ?_⟩ <;> (rintro rfl; exact absurd h (by decide))

namespace TreeEntry

theorem space_notMem_mode (e : TreeEntry) : ' ' ∉ e.mode :=
  fun h => (digit_ne (e.mode_digits _ h)).1 rfl

theorem space_notMem_objectname (e : TreeEntry) : ' ' ∉ e.objectname :=
  fun h => (hex_ne (e.objectname_hex _ h)).1 rfl

/-- An entry shows no line break and no NUL. -/
theorem notMem_line (e : TreeEntry) {c : Char} (hc : c ∈ ['\n', '\r', '\x00']) :
    c ∉ e.item.2 ++ ' ' :: e.item.1 := by
  intro hmem
  rcases List.mem_append.mp hmem with h | h
  · rcases List.mem_append.mp h with h | h
    · obtain ⟨_, hn, hr, hz⟩ := digit_ne (e.mode_digits c h)
      simp [hn, hr, hz] at hc
    · rcases List.mem_cons.mp h with rfl | h
      · exact absurd hc (by decide)
      · obtain ⟨_, hn, hr, hz⟩ := hex_ne (e.objectname_hex c h)
        simp [hn, hr, hz] at hc
  · rcases List.mem_cons.mp h with rfl | h
    · exact absurd hc (by decide)
    · refine Quote.notMem_cStyle ?_ h
      simp only [List.mem_cons, List.not_mem_nil, or_false] at hc
      rcases hc with rfl | rfl | rfl <;> decide

/-- **An entry is determined by what the listing shows.** -/
theorem item_injective : Function.Injective item := by
  intro e e' h
  have hpath : e.path = e'.path := Quote.cStyle_injective (congrArg Prod.fst h)
  obtain ⟨hmode, hobject⟩ := Text.append_cons_inj e.space_notMem_mode e'.space_notMem_mode
    (congrArg Prod.snd h)
  cases e
  cases e'
  cases hpath
  cases hmode
  cases hobject
  rfl

end TreeEntry

theorem Tree.nodup (tree : Tree) : (tree.entries.map TreeEntry.path).Nodup := by
  refine List.Pairwise.imp ?_ tree.sorted
  rintro a b h rfl
  exact List.lt_irrefl a h

theorem Tree.nodup_items (tree : Tree) :
    ((tree.entries.map TreeEntry.item).map Prod.fst).Nodup := by
  have hkeys : (tree.entries.map TreeEntry.item).map Prod.fst =
      (tree.entries.map TreeEntry.path).map Quote.cStyle := by
    rw [List.map_map, List.map_map]
    rfl
  rw [hkeys]
  exact tree.nodup.map Quote.cStyle_injective

/-- The entries of a tree, as they are read back. -/
def Tree.entriesRead (tree : Tree) : Entries := ⟨tree.entries.map TreeEntry.item, tree.nodup_items⟩

theorem readRecord_item (entries : Entries) (e : TreeEntry) :
    readRecord entries (e.item.2 ++ ' ' :: e.item.1) = .ok (entries.set e.item.1 e.item.2) := by
  have hne : e.item.2 ++ ' ' :: e.item.1 ≠ [] := by simp
  rw [readRecord, if_neg hne]
  simp only [TreeEntry.item, List.append_assoc, List.cons_append,
    Text.cut_append e.space_notMem_mode, Text.cut_append e.space_notMem_objectname]

theorem universalNewlines_lsTree (tree : Tree) : Text.universalNewlines (lsTree tree) = lsTree tree := by
  refine Text.universalNewlines_of_notMem fun h => ?_
  obtain ⟨e, -, h⟩ := List.mem_flatMap.mp h
  rcases List.mem_append.mp h with h | h
  · exact e.notMem_line (by decide) h
  · exact absurd (List.mem_singleton.mp h) (by decide)

/-- Reading the records of entries with new keys puts them behind the others. -/
theorem foldlM_readRecord (es : List TreeEntry) (entries : Entries)
    (hnodup : (entries.items ++ es.map TreeEntry.item |>.map Prod.fst).Nodup) :
    ∃ entries' : Entries,
      ((es.flatMap fun e => e.item.2 ++ ' ' :: e.item.1 ++ ['\x00']).splitOn '\x00').foldlM
        readRecord entries = .ok entries' ∧
      entries'.items = entries.items ++ es.map TreeEntry.item := by
  induction es generalizing entries with
  | nil => exact ⟨entries, rfl, (List.append_nil _).symm⟩
  | cons e es ih =>
      have hnew : e.item.1 ∉ entries.keys := by
        intro hmem
        rw [List.map_append, List.nodup_append] at hnodup
        exact hnodup.2.2 _ hmem _ (List.mem_map_of_mem List.mem_cons_self) rfl
      have hset := Dict.items_set_of_notMem (v := e.item.2) hnew
      obtain ⟨entries', hfold, hitems⟩ := ih (entries.set e.item.1 e.item.2) (by
        rw [hset, List.append_assoc]
        exact hnodup)
      refine ⟨entries', ?_, by rw [hitems, hset, List.append_assoc]; rfl⟩
      rw [List.flatMap_cons, List.append_assoc, List.singleton_append,
        List.splitOn_append_cons_self_of_not_mem (e.notMem_line (by decide)), List.foldlM_cons,
        readRecord_item]
      exact hfold

/-- **Reading a listing back never fails.** -/
theorem treeEntries_eq {rev : Text} {commit : Commit} (h : repo.commit rev = some commit) :
    treeEntries repo rev = .ok commit.tree.entriesRead := by
  obtain ⟨entries, hfold, hitems⟩ := foldlM_readRecord commit.tree.entries Dict.empty
    commit.tree.nodup_items
  rw [treeEntries, h]
  simp only [universalNewlines_lsTree]
  rw [readListing, lsTree, hfold]
  exact congrArg Except.ok (Dict.ext hitems)

theorem treeEntries_eq_ok {rev : Text} {entries : Entries} :
    treeEntries repo rev = .ok entries ↔
      ∃ commit, repo.commit rev = some commit ∧ entries = commit.tree.entriesRead := by
  cases hrev : repo.commit rev with
  | none => simp [treeEntries, hrev]
  | some commit => simp [treeEntries_eq repo hrev, eq_comm]

/-- What is read under a key is an entry of the tree. -/
theorem Tree.get_eq_some {tree : Tree} {key value : Text} :
    tree.entriesRead.get key = some value ↔ ∃ e ∈ tree.entries, e.item = (key, value) := by
  rw [Dict.get_eq_some]
  exact List.mem_map

/-! ## The source of a tree -/

/-- All entries but the record. -/
def Tree.source (tree : Tree) : List TreeEntry := tree.entries.filter fun e => e.path ≠ recordPath

theorem cStyle_mem_allowlist {path : Text} : Quote.cStyle path ∈ allowlist ↔ path = recordPath := by
  have hplain : Quote.cStyle recordPath = recordPath := Quote.cStyle_plain (by decide)
  rw [allowlist, List.mem_singleton]
  constructor
  · exact fun h => Quote.cStyle_injective (h.trans hplain.symm)
  · rintro rfl
    exact hplain

theorem Tree.pairwise_source (tree : Tree) :
    tree.source.Pairwise fun a b => a.path < b.path :=
  (List.pairwise_map.mp tree.sorted).filter _

/-- Sources with the same entries are the same list. -/
theorem Tree.source_eq_of_perm {base head : Tree} (h : base.source.Perm head.source) :
    base.source = head.source :=
  List.Perm.eq_of_pairwise (fun _ _ _ _ hab hba => absurd hba (List.lt_asymm hab))
    base.pairwise_source head.pairwise_source h

theorem Tree.nodup_source (tree : Tree) : tree.source.Nodup :=
  (List.Nodup.of_map _ tree.nodup).filter _

/-- **Lookups outside the allowlist tell the source.** -/
theorem Tree.source_eq_iff {base head : Tree} :
    base.source = head.source ↔
      ∀ key, key ∉ allowlist → base.entriesRead.get key = head.entriesRead.get key := by
  have hsource : ∀ {tree : Tree} {e : TreeEntry},
      e ∈ tree.source ↔ e ∈ tree.entries ∧ e.item.1 ∉ allowlist := by
    intro tree e
    rw [Tree.source, List.mem_filter, decide_eq_true_eq, TreeEntry.item, cStyle_mem_allowlist]
  have hget : ∀ {tree : Tree} {e : TreeEntry}, e ∈ tree.entries ↔
      tree.entriesRead.get e.item.1 = some e.item.2 := by
    intro tree e
    rw [Tree.get_eq_some]
    constructor
    · exact fun h => ⟨e, h, rfl⟩
    · rintro ⟨e', he', heq⟩
      rwa [← TreeEntry.item_injective heq]
  constructor
  · intro h key hkey
    have hmem : ∀ {tree : Tree} {value : Text}, tree.entriesRead.get key = some value ↔
        ∃ e ∈ tree.source, e.item = (key, value) := by
      intro tree value
      rw [Tree.get_eq_some]
      constructor
      · rintro ⟨e, he, heq⟩
        exact ⟨e, hsource.mpr ⟨he, heq ▸ hkey⟩, heq⟩
      · rintro ⟨e, he, heq⟩
        exact ⟨e, (hsource.mp he).1, heq⟩
    refine Option.ext fun value => ?_
    rw [hmem, hmem, h]
  · intro h
    refine Tree.source_eq_of_perm ((List.perm_ext_iff_of_nodup base.nodup_source
      head.nodup_source).mpr fun e => ?_)
    rw [hsource, hsource, hget, hget]
    constructor
    · rintro ⟨he, hkey⟩
      exact ⟨(h _ hkey).symm.trans he, hkey⟩
    · rintro ⟨he, hkey⟩
      exact ⟨(h _ hkey).trans he, hkey⟩

/-- The record is found under its own path. -/
theorem Tree.get_recordPath (tree : Tree) :
    tree.entriesRead.get recordPath =
      (tree.entries.find? fun e => e.path = recordPath).map fun e => e.item.2 := by
  refine Option.ext fun value => ?_
  rw [Tree.get_eq_some, Option.map_eq_some_iff]
  have hplain : Quote.cStyle recordPath = recordPath := Quote.cStyle_plain (by decide)
  constructor
  · rintro ⟨e, he, heq⟩
    have hpath : e.path = recordPath :=
      Quote.cStyle_injective ((congrArg Prod.fst heq).trans hplain.symm)
    have hsome : (tree.entries.find? fun e => e.path = recordPath).isSome :=
      List.find?_isSome.mpr ⟨e, he, decide_eq_true hpath⟩
    obtain ⟨e', hfind⟩ := Option.isSome_iff_exists.mp hsome
    have hpath' : e'.path = recordPath := by simpa using List.find?_some hfind
    have hsame : e' = e := List.inj_on_of_nodup_map tree.nodup (List.mem_of_find?_eq_some hfind) he
      (hpath'.trans hpath.symm)
    exact ⟨e', hfind, hsame ▸ congrArg Prod.snd heq⟩
  · rintro ⟨e, hfind, rfl⟩
    have hpath : e.path = recordPath := by simpa using List.find?_some hfind
    refine ⟨e, List.mem_of_find?_eq_some hfind, Prod.ext ?_ rfl⟩
    rw [TreeEntry.item, hpath]
    exact hplain

end GelCli.Release
