import GelCli.Migrations.ReadFile
import GelCli.Migrations.SortRevisions
import Mathlib.Data.List.Perm.Basic

/-!
# What a directory is read as

A directory is accepted iff its files, each as it is read alone, are one chain that is
numbered from 1. The entries of the result go by ids, so that the last file of the
chain may hide one before it.
-/

namespace GelCli.Migrations

open GelCli.Foundation Files

variable {E : EdgeqlParser} {validate : Bool}

/-! ## Numbers -/

theorem parseU64_lt {t : Text} {n : Nat} (h : parseU64 t = some n) : n < 2 ^ 64 := by
  unfold parseU64 at h
  extract_lets digits at h
  by_cases hdigits : digits ≠ [] ∧ digits.all Char.isDigit ∧ Decimal.value digits < 2 ^ 64
  · rw [if_pos hdigits] at h
    rw [← Option.some.inj h]
    exact hdigits.2.2
  · rw [if_neg hdigits] at h
    cases h

theorem fileNum_lt {path : Text} {n : Nat} (h : fileNum path = some n) : n < 2 ^ 64 := by
  obtain ⟨x, -, hx⟩ := Option.bind_eq_some_iff.mp h
  by_cases hdash : '-' ∈ x
  · rw [if_pos hdash] at hx
    exact parseU64_lt hx
  · rw [if_neg hdash] at hx
    exact parseU64_lt hx

/-! ## Files -/

def listed (dir : Dir) : List (Text × Text) := dir.items.filter fun file => migrationName file.1

/-- A file and what it is read as. -/
structure ReadAs (E : EdgeqlParser) (validate : Bool) (file : Text × Text)
    (m : Files.MigrationFile) : Prop where
  path : m.path = file.1
  fixupTarget : m.fixupTarget = none
  data : readFile E validate file.2 = .ok m.data

/-- Files in the order of a chain, and what they are read as. -/
structure Chain (E : EdgeqlParser) (validate : Bool) (files : List (Text × Text))
    (order : List Files.MigrationFile) : Prop where
  read : List.Forall₂ (ReadAs E validate) files order
  parents : (order.map fun m => m.data.parentId).Nodup
  follows : Files.Follows nullMigration order
  numbered : Numbered 1 order

/-! ## Reading -/

theorem readInto_eq_ok {all all' : FileMap} {file : Text × Text} :
    readInto E validate all file = .ok all' ↔ ∃ m, ReadAs E validate file m ∧
      m.data.parentId ∉ all.keys ∧ all' = all.set m.data.parentId m := by
  constructor
  · intro h
    unfold readInto at h
    split at h
    · cases h
    · next data hdata =>
      split at h
      · cases h
      · next hget =>
        cases h
        refine ⟨⟨file.1, none, data⟩, ⟨rfl, rfl, hdata⟩, fun hmem => ?_, rfl⟩
        obtain ⟨other, hother⟩ := Dict.mem_keys_iff.mp hmem
        rw [hget] at hother
        cases hother
  · rintro ⟨⟨path, fixup, data⟩, ⟨rfl, rfl, hdata⟩, hnotMem, rfl⟩
    unfold readInto
    rw [hdata]
    cases hget : all.get data.parentId with
    | none => simp only [hget]
    | some other => exact absurd (Dict.mem_keys_iff.mpr ⟨other, hget⟩) hnotMem

/-- The files are read one after another, each onto a parent of its own. -/
theorem foldlM_readInto_eq_ok {files : List (Text × Text)} {all all' : FileMap} :
    files.foldlM (readInto E validate) all = .ok all' ↔
      ∃ parsed, List.Forall₂ (ReadAs E validate) files parsed ∧
        all'.items = all.items ++ parsed.map fun m => (m.data.parentId, m) := by
  induction files generalizing all with
  | nil =>
      constructor
      · intro h
        cases h
        exact ⟨[], .nil, (List.append_nil _).symm⟩
      · rintro ⟨parsed, hparsed, hitems⟩
        cases hparsed
        rw [List.map_nil, List.append_nil] at hitems
        exact congrArg Except.ok (Dict.ext hitems.symm)
  | cons file files ih =>
      rw [List.foldlM_cons]
      constructor
      · intro h
        cases hfile : readInto E validate all file with
        | error e =>
            rw [hfile] at h
            cases h
        | ok next =>
            rw [hfile] at h
            obtain ⟨m, hm, hnotMem, rfl⟩ := readInto_eq_ok.mp hfile
            obtain ⟨parsed, hparsed, hitems⟩ := ih.mp h
            refine ⟨m :: parsed, .cons hm hparsed, ?_⟩
            rw [hitems, Dict.items_set_of_notMem hnotMem, List.append_assoc]
            rfl
      · rintro ⟨parsed, hparsed, hitems⟩
        cases hparsed with
        | @cons _ m _ parsed hm hparsed =>
            have hnotMem : m.data.parentId ∉ all.keys := by
              have hnodup := all'.nodup
              rw [hitems, List.map_append, List.nodup_append'] at hnodup
              exact fun hmem => hnodup.2.2 hmem List.mem_cons_self
            have hfile : readInto E validate all file = .ok (all.set m.data.parentId m) :=
              readInto_eq_ok.mpr ⟨m, hm, hnotMem, rfl⟩
            rw [hfile]
            refine ih.mpr ⟨parsed, hparsed, ?_⟩
            rw [hitems, Dict.items_set_of_notMem hnotMem, List.append_assoc]
            rfl

/-- **What a directory is read as.** -/
theorem readAll_eq_ok {dir : Dir} {res : FileMap} :
    readAll E validate dir = .ok res ↔ ∃ files order, files.Perm (listed dir) ∧
      Chain E validate files order ∧ res = order.foldl store .empty := by
  have hsorted : readAll E validate dir = .ok res ↔
      ∃ all, (listed dir).foldlM (readInto E validate) .empty = .ok all ∧
        sortRevisions all = .ok res := by
    unfold readAll
    constructor
    · intro h
      split at h
      · cases h
      · next all hall =>
        split at h
        · cases h
        · next migrations hmigrations =>
          cases h
          exact ⟨all, hall, hmigrations⟩
    · rintro ⟨all, hall, hres⟩
      rw [listed] at hall
      rw [hall]
      simp only [hres]
  rw [hsorted]
  constructor
  · rintro ⟨all, hall, hres⟩
    obtain ⟨parsed, hparsed, hitems⟩ := foldlM_readInto_eq_ok.mp hall
    have hkeyed : ∀ item ∈ all.items, item.2.data.parentId = item.1 := by
      intro item hitem
      rw [hitems] at hitem
      obtain ⟨m, -, rfl⟩ := List.mem_map.mp hitem
      rfl
    obtain ⟨order, hchain, hnumbered, rfl⟩ := (Collection.mk all hkeyed).sortRevisions_eq_ok.mp hres
    have hfiles : (Collection.mk all hkeyed).files = parsed := by
      rw [Collection.files, hitems]
      show List.map Prod.snd (parsed.map fun m => (m.data.parentId, m)) = parsed
      rw [List.map_map]
      exact List.map_id parsed
    have hperm := hchain.perm
    have hparents := (Collection.mk all hkeyed).parents_nodup
    rw [hfiles] at hperm hparents
    -- the files in the order of the chain
    obtain ⟨files, hforall, hfilesPerm⟩ := List.perm_comp_forall₂ hperm hparsed.flip
    exact ⟨files, order, hfilesPerm, ⟨hforall.flip, (hperm.map _).nodup_iff.mpr hparents,
      hchain.follows, hnumbered⟩, rfl⟩
  · rintro ⟨files, order, hperm, hchain, rfl⟩
    obtain ⟨parsed, hforall, hparsedPerm⟩ := List.perm_comp_forall₂ hperm.symm hchain.read
    have hnodup : (parsed.map fun m => m.data.parentId).Nodup :=
      (hparsedPerm.map _).nodup_iff.mpr hchain.parents
    have hkeys : ((parsed.map fun m => (m.data.parentId, m)).map Prod.fst).Nodup := by
      rw [List.map_map]
      exact hnodup
    let all : FileMap := ⟨parsed.map fun m => (m.data.parentId, m), hkeys⟩
    have hkeyed : ∀ item ∈ all.items, item.2.data.parentId = item.1 := by
      intro item hitem
      obtain ⟨m, -, rfl⟩ := List.mem_map.mp hitem
      rfl
    refine ⟨all, foldlM_readInto_eq_ok.mpr ⟨parsed, hforall, rfl⟩, ?_⟩
    refine (Collection.mk all hkeyed).sortRevisions_eq_ok.mpr
      ⟨order, ⟨hchain.follows, ?_⟩, hchain.numbered, rfl⟩
    have hfiles : (Collection.mk all hkeyed).files = parsed := by
      show List.map Prod.snd (parsed.map fun m => (m.data.parentId, m)) = parsed
      rw [List.map_map]
      exact List.map_id parsed
    rw [hfiles]
    exact hparsedPerm.symm

/-! ## Chains -/

theorem Files.Numbered.fileNum {n i : Nat} {order : List MigrationFile} {m : MigrationFile}
    (h : Numbered n order) (hm : order[i]? = some m) : fileNum m.path = some (n + i) := by
  induction order generalizing n i with
  | nil => cases hm
  | cons m' order ih =>
      cases i with
      | zero =>
          cases hm
          exact h.1
      | succ i =>
          have hrest := ih h.2 hm
          rw [hrest, Nat.add_assoc, Nat.add_comm 1 i]

theorem Files.numbered_iff {n : Nat} {order : List MigrationFile} :
    Numbered n order ↔ ∀ (i : Nat) m, order[i]? = some m → fileNum m.path = some (n + i) := by
  constructor
  · intro h i m hm
    exact h.fileNum hm
  · intro h
    induction order generalizing n with
    | nil => trivial
    | cons m order ih =>
        refine ⟨h 0 m rfl, ih fun i m' hm' => ?_⟩
        rw [h (i + 1) m' hm', Nat.add_assoc, Nat.add_comm 1 i]

namespace Chain

variable {files : List (Text × Text)} {order : List Files.MigrationFile}

theorem length_eq (h : Chain E validate files order) : files.length = order.length :=
  h.read.length_eq

theorem getElem (h : Chain E validate files order) {i : Nat} {file : Text × Text}
    (hfile : files[i]? = some file) : ∃ m, order[i]? = some m ∧ ReadAs E validate file m := by
  obtain ⟨hi, rfl⟩ := List.getElem?_eq_some_iff.mp hfile
  have hi' : i < order.length := h.length_eq ▸ hi
  exact ⟨order[i], List.getElem?_eq_getElem hi', h.read.get hi hi'⟩

theorem fileNum (h : Chain E validate files order) {i : Nat} {file : Text × Text}
    (hfile : files[i]? = some file) : fileNum file.1 = some (i + 1) := by
  obtain ⟨m, hm, hread⟩ := h.getElem hfile
  rw [← hread.path, h.numbered.fileNum hm, Nat.add_comm]

theorem getElem?_iff (h : Chain E validate files order) {i : Nat} {file : Text × Text} :
    files[i]? = some file ↔ file ∈ files ∧ Files.fileNum file.1 = some (i + 1) := by
  constructor
  · intro hi
    exact ⟨List.mem_of_getElem? hi, h.fileNum hi⟩
  · rintro ⟨hmem, hnum⟩
    obtain ⟨j, hj⟩ := List.mem_iff_getElem?.mp hmem
    have hij : j + 1 = i + 1 := Option.some.inj ((h.fileNum hj).symm.trans hnum)
    rwa [← Nat.succ.inj hij]

/-- The chain has no room for other files than its numbers say. -/
theorem files_eq (h : Chain E validate files order) {ws : List (Text × Text)}
    (hmem : ∀ w ∈ ws, w ∈ files)
    (hnum : ∀ (i : Nat) w, ws[i]? = some w → Files.fileNum w.1 = some (i + 1))
    (hlen : files.length ≤ ws.length) : files = ws := by
  have hplace : ∀ (i : Nat) w, ws[i]? = some w → files[i]? = some w := by
    intro i w hw
    obtain ⟨j, hj⟩ := List.mem_iff_getElem?.mp (hmem w (List.mem_of_getElem? hw))
    have hij : j + 1 = i + 1 := Option.some.inj ((h.fileNum hj).symm.trans (hnum i w hw))
    rwa [← Nat.succ.inj hij]
  refine List.ext_getElem? fun i => ?_
  rcases Nat.lt_or_ge i ws.length with hi | hi
  · rw [hplace i _ (List.getElem?_eq_getElem hi), List.getElem?_eq_getElem hi]
  · rw [List.getElem?_eq_none hi, List.getElem?_eq_none (Nat.le_trans hlen hi)]

/-- The result has an entry for every file but for a last one with an id from before. -/
theorem keys_store (h : Chain E validate files order) :
    let keys := (order.foldl store .empty).keys
    keys <+: (order.map fun m => m.data.id) ∧ order.length ≤ keys.length + 1 := by
  intro keys
  rcases List.eq_nil_or_concat' order with rfl | ⟨front, last, rfl⟩
  · exact ⟨List.nil_prefix, Nat.zero_le _⟩
  · have hparents := h.parents
    rw [h.follows.map_parent, List.nodup_cons] at hparents
    have hfront : (front.foldl store .empty).keys = front.map fun m => m.data.id := by
      rw [Dict.keys, Collection.items_foldl_store hparents.2, List.map_map]
      rfl
    have hkeys : keys = ((front.foldl store .empty).set last.data.id last).keys := by
      show (List.foldl store .empty (front ++ [last])).keys = _
      rw [List.foldl_append]
      rfl
    by_cases hmem : last.data.id ∈ (front.foldl store .empty).keys
    · rw [hkeys, Dict.keys_set_of_mem hmem, hfront, List.map_append]
      exact ⟨List.prefix_append _ _, by simp⟩
    · rw [hkeys, Dict.keys, Dict.items_set_of_notMem hmem, List.map_append, ← Dict.keys, hfront,
        List.map_append]
      exact ⟨List.prefix_refl _, by simp⟩

/-- The entries that are stored are files under their ids. -/
theorem mem_items_foldl_store {order : List Files.MigrationFile} {d : FileMap}
    {item : Text × Files.MigrationFile} (h : item ∈ (order.foldl store d).items) :
    item ∈ d.items ∨ item.2 ∈ order ∧ item.1 = item.2.data.id := by
  induction order generalizing d with
  | nil => exact .inl h
  | cons m order ih =>
      rcases ih h with hitem | ⟨hmem, hid⟩
      · rw [store, ← Prod.mk.eta (p := item), ← Dict.get_eq_some, Dict.get_set] at hitem
        split at hitem
        · next hid =>
          rw [Option.some.injEq] at hitem
          exact .inr ⟨hitem ▸ List.mem_cons_self, hitem ▸ hid⟩
        · exact .inl (Dict.get_eq_some.mp hitem)
      · exact .inr ⟨List.mem_cons_of_mem _ hmem, hid⟩

/-- An entry of the result is for a file of its place or of one behind it. -/
theorem exists_le_of_items (h : Chain E validate files order) {i : Nat} {id : Text}
    {m : Files.MigrationFile} (hi : (order.foldl store .empty).items[i]? = some (id, m)) :
    ∃ j, i ≤ j ∧ order[j]? = some m := by
  obtain ⟨hmem, hid⟩ := (mem_items_foldl_store (List.mem_of_getElem? hi)).resolve_left
    (fun h => by cases h)
  obtain ⟨j, hj⟩ := List.mem_iff_getElem?.mp hmem
  refine ⟨j, Nat.le_of_not_lt fun hlt => ?_, hj⟩
  -- before the place the keys are the ids of the files
  have hkey : (order.foldl store .empty).keys[i]? = some id := by
    rw [Dict.keys, List.getElem?_map, hi]
    rfl
  have hlen := (List.getElem?_eq_some_iff.mp hkey).1
  have hkey' : (order.foldl store .empty).keys[j]? = some id := by
    have hj' : (order.map fun m => m.data.id)[j]? = some id := by
      rw [List.getElem?_map, hj]
      exact congrArg some hid.symm
    rw [← hj', List.prefix_iff_getElem?.mp h.keys_store.1 j (Nat.lt_trans hlt hlen),
      List.getElem?_eq_getElem (Nat.lt_trans hlt hlen)]
  have heq := (List.getElem?_inj (Nat.lt_trans hlt hlen) (order.foldl store .empty).nodup).mp
    (hkey'.trans hkey.symm)
  exact Nat.ne_of_lt hlt heq

theorem keys_eq (h : Chain E validate files order)
    (hlen : files.length ≤ (order.foldl store .empty).keys.length) :
    (order.foldl store .empty).keys = order.map fun m => m.data.id := by
  obtain ⟨hkeys, -⟩ := h.keys_store
  refine hkeys.eq_of_length_le ?_
  rw [List.length_map, ← h.length_eq]
  exact hlen

end Chain

/-- The directory is read as a history with these ids. -/
def Returns (E : EdgeqlParser) (validate : Bool) (dir : Dir) (ids : List Text) : Prop :=
  ∃ res, readAll E validate dir = .ok res ∧ res.keys = ids

/-- And none of its files is left out. -/
def ReturnsAll (E : EdgeqlParser) (validate : Bool) (dir : Dir) (ids : List Text) : Prop :=
  ∃ res, readAll E validate dir = .ok res ∧ res.keys = ids ∧
    ∀ file ∈ listed dir, file.1 ∈ res.items.map (·.2.path)

/-- The files of an accepted directory carry its first numbers. -/
theorem fileNum_of_readAll {dir : Dir} {res : FileMap} (h : readAll E validate dir = .ok res)
    {file : Text × Text} (hfile : file ∈ listed dir) :
    ∃ n, fileNum file.1 = some n ∧ n ≤ res.keys.length + 1 := by
  obtain ⟨files, order, hperm, hchain, rfl⟩ := readAll_eq_ok.mp h
  obtain ⟨i, hi⟩ := List.mem_iff_getElem?.mp (hperm.symm.subset hfile)
  obtain ⟨hlt, -⟩ := List.getElem?_eq_some_iff.mp hi
  refine ⟨i + 1, hchain.fileNum hi, ?_⟩
  exact Nat.le_trans (Nat.succ_le_of_lt (hchain.length_eq ▸ hlt)) hchain.keys_store.2

theorem length_lt_of_returns {dir : Dir} {ids : List Text} (h : Returns E validate dir ids) :
    ids.length < 2 ^ 64 := by
  obtain ⟨res, hread, rfl⟩ := h
  obtain ⟨files, order, -, hchain, rfl⟩ := readAll_eq_ok.mp hread
  refine Nat.lt_of_le_of_lt (hchain.keys_store.1.length_le.trans (List.length_map _).le) ?_
  rcases List.eq_nil_or_concat' order with rfl | ⟨front, last, rfl⟩
  · decide
  · rw [List.length_append]
    exact fileNum_lt (Nat.add_comm 1 _ ▸ hchain.numbered.fileNum List.getElem?_concat_length)

theorem readNames_eq (dir : Dir) : readNames dir = (listed dir).map Prod.fst := by
  rw [readNames, listed, Dict.keys, List.filter_map]
  rfl

/-! ## Directories of known files -/

/-- A file and the names it is expected to have. -/
structure Entry where
  file : Text × Text
  id : Text
  parent : Text

def Entry.ReadWell (E : EdgeqlParser) (validate : Bool) (e : Entry) : Prop :=
  ∃ m, readFile E validate e.file.2 = .ok m ∧ m.id = e.id ∧ m.parentId = e.parent

section Entries

variable {dir : Dir}

theorem nodup_listed (dir : Dir) : ((listed dir).map Prod.fst).Nodup :=
  dir.nodup.sublist (List.filter_sublist.map Prod.fst)

/-- No file has a number behind those of the result. -/
theorem returnsAll_of_returns {ids : List Text} (h : Returns E validate dir ids)
    (hsmall : ∀ file ∈ listed dir, ∀ n, fileNum file.1 = some n → n ≤ ids.length) :
    ReturnsAll E validate dir ids := by
  obtain ⟨res, hread, hkeys⟩ := h
  refine ⟨res, hread, hkeys, fun file hfile => ?_⟩
  obtain ⟨files, order, hperm, hchain, rfl⟩ := readAll_eq_ok.mp hread
  have hlen : files.length ≤ (order.foldl store .empty).keys.length := by
    rw [hkeys]
    rcases List.eq_nil_or_concat' files with rfl | ⟨front, last, rfl⟩
    · exact Nat.zero_le _
    · have hlast : (front ++ [last])[front.length]? = some last := List.getElem?_concat_length
      have hmem : last ∈ listed dir := hperm.subset (List.mem_of_getElem? hlast)
      rw [List.length_append]
      exact hsmall last hmem _ (hchain.fileNum hlast)
  obtain ⟨i, hi⟩ := List.mem_iff_getElem?.mp (hperm.symm.subset hfile)
  obtain ⟨m, hm, hreadAs⟩ := hchain.getElem hi
  have hids := hchain.keys_eq hlen
  have hnodup : (order.map fun m => m.data.id).Nodup := hids ▸ (order.foldl store .empty).nodup
  rw [Collection.items_foldl_store hnodup, List.map_map, ← hreadAs.path]
  exact List.mem_map_of_mem (List.mem_of_getElem? hm)

variable {es : List Entry} (hmem : ∀ e ∈ es, e.file ∈ listed dir)
  (hnum : ∀ (i : Nat) e, es[i]? = some e → fileNum e.file.1 = some (i + 1))
  (hlinked : Linked Entry.parent Entry.id nullMigration es)
  (hnodup : (nullMigration :: es.map Entry.id).Nodup)
include hmem hnum hlinked hnodup

/-- **Directories with the files of a history** are read as this history iff they have no
other files and each file is read under its names. -/
theorem returnsAll_iff : ReturnsAll E validate dir (es.map Entry.id) ↔
    (∀ file ∈ listed dir, file ∈ es.map Entry.file) ∧ ∀ e ∈ es, e.ReadWell E validate := by
  constructor
  · rintro ⟨res, hread, hkeys, hall⟩
    obtain ⟨files, order, hperm, hchain, rfl⟩ := readAll_eq_ok.mp hread
    have hlen : files.length ≤ (order.foldl store .empty).keys.length := by
      have hsub : (listed dir).map Prod.fst ⊆
          (order.foldl store .empty).items.map (·.2.path) := by
        intro name hname
        obtain ⟨file, hfile, rfl⟩ := List.mem_map.mp hname
        exact hall file hfile
      have hle := (List.subperm_of_subset (nodup_listed dir) hsub).length_le
      rw [hperm.length_eq, Dict.keys, List.length_map]
      simpa only [List.length_map] using hle
    have hids := hchain.keys_eq hlen
    rw [hkeys] at hids
    have hlen' : files.length ≤ (es.map Entry.file).length := by
      rw [hkeys, List.length_map] at hlen
      rwa [List.length_map]
    have hfiles : files = es.map Entry.file := by
      refine hchain.files_eq (fun w hw => ?_) (fun i w hw => ?_) hlen'
      · obtain ⟨e, he, rfl⟩ := List.mem_map.mp hw
        exact hperm.symm.subset (hmem e he)
      · rw [List.getElem?_map] at hw
        obtain ⟨e, he, rfl⟩ := Option.map_eq_some_iff.mp hw
        exact hnum i e he
    have hparents := hlinked.map_parent_eq hchain.follows hids
    refine ⟨fun file hfile => hfiles ▸ hperm.symm.subset hfile, fun e he => ?_⟩
    obtain ⟨i, hi⟩ := List.mem_iff_getElem?.mp he
    have hfile : files[i]? = some e.file := by rw [hfiles, List.getElem?_map, hi]; rfl
    obtain ⟨m, hm, hreadAs⟩ := hchain.getElem hfile
    have hid := congrArg (fun ids : List Text => ids[i]?) hids
    have hparent := congrArg (fun ids : List Text => ids[i]?) hparents
    simp only [List.getElem?_map, hi, hm, Option.map_some, Option.some.injEq] at hid hparent
    exact ⟨m.data, hreadAs.data, hid.symm, hparent.symm⟩
  · rintro ⟨hothers, hwell⟩
    -- what the files are read as, in their order
    have horder : ∃ order, List.Forall₂ (ReadAs E validate) (es.map Entry.file) order ∧
        es.map Entry.id = order.map (fun m => m.data.id) ∧
        es.map Entry.parent = order.map (fun m => m.data.parentId) := by
      clear hmem hnum hlinked hnodup hothers
      induction es with
      | nil => exact ⟨[], .nil, rfl, rfl⟩
      | cons e es ih =>
          rw [List.forall_mem_cons] at hwell
          obtain ⟨⟨m, hread, hid, hparent⟩, hrest⟩ := hwell
          obtain ⟨order, hforall, hids, hparents⟩ := ih hrest
          refine ⟨⟨e.file.1, none, m⟩ :: order, .cons ⟨rfl, rfl, hread⟩ hforall, ?_, ?_⟩
          · rw [List.map_cons, List.map_cons, hids, ← hid]
          · rw [List.map_cons, List.map_cons, hparents, ← hparent]
    obtain ⟨order, hforall, hids, hparents⟩ := horder
    have hfollows : Files.Follows nullMigration order := hlinked.of_map hparents hids
    have hnumbered : Numbered 1 order := by
      refine numbered_iff.mpr fun i m hm => ?_
      have hi : i < (es.map Entry.file).length := by
        rw [hforall.length_eq]
        exact (List.getElem?_eq_some_iff.mp hm).1
      have hreadAs := hforall.get hi (hforall.length_eq ▸ hi)
      rw [List.get_eq_getElem, List.get_eq_getElem, List.getElem_map,
        (List.getElem?_eq_some_iff.mp hm).2] at hreadAs
      rw [hreadAs.path, hnum i _ (List.getElem?_eq_getElem (by simpa using hi)), Nat.add_comm]
    have hdistinct : (order.map fun m => m.data.id).Nodup := hids ▸ (List.nodup_cons.mp hnodup).2
    have hparentsNodup : (order.map fun m => m.data.parentId).Nodup := by
      rcases List.eq_nil_or_concat' order with rfl | ⟨front, last, rfl⟩
      · exact List.nodup_nil
      · rw [hfollows.map_parent]
        rw [hids, List.map_append, ← List.cons_append] at hnodup
        exact (List.nodup_append.mp hnodup).1
    have hperm : (es.map Entry.file).Perm (listed dir) := by
      refine (List.perm_ext_iff_of_nodup ?_ (List.Nodup.of_map _ (nodup_listed dir))).mpr ?_
      · refine List.Nodup.of_map (fun file : Text × Text => fileNum file.1) ?_
        have hnums : (es.map Entry.file).map (fun file => fileNum file.1) =
            (List.range' 1 es.length).map some := by
          refine List.ext_getElem? fun i => ?_
          rcases Nat.lt_or_ge i es.length with hi | hi
          · have hn := hnum i _ (List.getElem?_eq_getElem hi)
            simp [hi, hn, Nat.add_comm]
          · simp [hi]
        rw [hnums]
        exact (List.nodup_range' ).map (Option.some_injective _)
      · intro file
        constructor
        · intro hfile
          obtain ⟨e, he, rfl⟩ := List.mem_map.mp hfile
          exact hmem e he
        · exact hothers file
    refine ⟨_, readAll_eq_ok.mpr ⟨_, order, hperm, ⟨hforall, hparentsNodup, hfollows, hnumbered⟩,
      rfl⟩, ?_, fun file hfile => ?_⟩
    · rw [hids, Dict.keys, Collection.items_foldl_store hdistinct, List.map_map]
      rfl
    · rw [Collection.items_foldl_store hdistinct, List.map_map]
      obtain ⟨i, hi⟩ := List.mem_iff_getElem?.mp (hothers file hfile)
      obtain ⟨hlt, rfl⟩ := List.getElem?_eq_some_iff.mp hi
      have hreadAs := hforall.get hlt (hforall.length_eq ▸ hlt)
      exact List.mem_map.mpr ⟨_, List.get_mem order _, hreadAs.path⟩

end Entries

end GelCli.Migrations
