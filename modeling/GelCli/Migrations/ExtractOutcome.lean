import GelCli.Migrations.Extract
import GelCli.Migrations.WrittenBack
import GelCli.Migrations.WrittenNames

/-!
# What an extraction leaves

The migrations that are not in their place on disk come to the directory under names of
their own, and the files behind the last migration go. A file whose place went to
another migration stays if its name is another one: then two files have one number.
-/

namespace GelCli.Migrations.Extract

open GelCli.Foundation Files Db

/-! ## The turns -/

section Turns

variable {cmd : ExtractMigrations} {answers : Nat → Option Bool} {current : FileMap}
  {migrations : Dict Text DbMigration} {ms : List DbMigration}

/-- The migration of a place, if it is not the one on disk. -/
def written (current : FileMap) (ms : List DbMigration) (i : Nat) : Option (Nat × MigrationToText) :=
  match ms[i]? with
  | some m =>
      if current.keys[i]? = some m.name then none else some (i + 1, m.toText (.index (i + 1)))
  | none => none

def deleted (current : FileMap) (ms : List DbMigration) (i : Nat) : Option Text :=
  if ms.length ≤ i then current.items[i]?.map (·.2.path) else none

theorem writeMigration_eq_ok {s s' : Extracted} {m : DbMigration} {i : Nat}
    (h : writeMigration s m i = .ok s') :
    (m.toText (.index (i + 1))).write s.temp = some s'.temp ∧ s'.toDelete = s.toDelete := by
  unfold writeMigration at h
  split at h
  · cases h
  · next temp htemp =>
    split at h
    · cases h
    · cases h
      exact ⟨htemp, rfl⟩

theorem extractTurn_eq_ok (hms : migrations.items = ms.map fun m => (m.name, m)) {s s' : Extracted}
    {i : Nat} (h : extractTurn cmd answers current migrations s i = .ok s') :
    writeAll s.temp ((written current ms i).toList.map Prod.snd) = some s'.temp ∧
      s'.toDelete = s.toDelete ++ (deleted current ms i).toList := by
  have hkey : current.keys[i]? = current.items[i]?.map Prod.fst := List.getElem?_map ..
  have hwrite : ∀ m : DbMigration, writeMigration s m i = .ok s' → ms[i]? = some m →
      current.keys[i]? ≠ some m.name →
        writeAll s.temp ((written current ms i).toList.map Prod.snd) = some s'.temp ∧
          s'.toDelete = s.toDelete ++ (deleted current ms i).toList := by
    intro m hm hmi hne
    obtain ⟨htemp, hdelete⟩ := writeMigration_eq_ok hm
    have hlt := (List.getElem?_eq_some_iff.mp hmi).1
    rw [written, hmi, deleted, if_neg (Nat.not_le.mpr hlt), hdelete]
    simp only [if_neg hne]
    refine ⟨?_, (List.append_nil _).symm⟩
    show List.foldlM MigrationToText.write s.temp [m.toText (.index (i + 1))] = _
    rw [List.foldlM_cons, htemp]
    rfl
  unfold extractTurn at h
  rw [hms, List.getElem?_map] at h
  -- the four cases of `zip_longest`: nothing, a new migration, a file too many, both
  cases hcurrent : current.items[i]? with
  | none =>
      rw [hcurrent] at hkey
      cases hmi : ms[i]? with
      | none =>
          rw [hcurrent, hmi] at h
          cases h
          rw [written, deleted, hmi, hcurrent]
          refine ⟨rfl, ?_⟩
          split <;> exact (List.append_nil _).symm
      | some m =>
          rw [hcurrent, hmi] at h
          exact hwrite m h hmi (by rw [hkey]; exact fun h => by cases h)
  | some item =>
      obtain ⟨id, file⟩ := item
      rw [hcurrent] at hkey
      cases hmi : ms[i]? with
      | none =>
          rw [hcurrent, hmi] at h
          have hle := List.getElem?_eq_none_iff.mp hmi
          simp only [Option.map_none] at h
          split at h
          · cases h
          · cases h
            rw [written, deleted, hmi, hcurrent, if_pos hle]
            exact ⟨rfl, rfl⟩
      | some m =>
          rw [hcurrent, hmi] at h
          simp only [Option.map_some] at h
          split at h
          · next hne =>
            split at h
            · cases h
            · exact hwrite m h hmi (by rw [hkey]; exact fun h => hne (Option.some.inj h).symm)
          · next heq =>
            cases h
            have hlt := (List.getElem?_eq_some_iff.mp hmi).1
            rw [written, hmi, deleted, if_neg (Nat.not_le.mpr hlt), hkey]
            simp only [Option.map_some, not_not.mp heq, if_true]
            exact ⟨rfl, (List.append_nil _).symm⟩

theorem filterMap_range_succ {β : Type} (f : Nat → Option β) (k : Nat) :
    (List.range (k + 1)).filterMap f = (List.range k).filterMap f ++ (f k).toList := by
  rw [List.range_succ, List.filterMap_append]
  cases hk : f k <;> simp [hk]

/-- What was written and what is to be deleted after some turns. -/
theorem extractLoop_eq_ok (hms : migrations.items = ms.map fun m => (m.name, m)) {s : Extracted}
    (h : extractLoop cmd answers current migrations = .ok s) :
    ∃ k, current.items.length ≤ k ∧ ms.length ≤ k ∧
      writeAll .empty (((List.range k).filterMap (written current ms)).map Prod.snd) =
        some s.temp ∧
      s.toDelete = (List.range k).filterMap (deleted current ms) := by
  have hturns : ∀ (k : Nat) (s : Extracted),
      (List.range k).foldlM (extractTurn cmd answers current migrations) ⟨.empty, []⟩ = .ok s →
        writeAll .empty (((List.range k).filterMap (written current ms)).map Prod.snd) =
            some s.temp ∧
          s.toDelete = (List.range k).filterMap (deleted current ms) := by
    intro k
    induction k with
    | zero =>
        intro s h
        cases h
        exact ⟨rfl, rfl⟩
    | succ k ih =>
        intro s h
        rw [List.range_succ, List.foldlM_append] at h
        cases hk : (List.range k).foldlM (extractTurn cmd answers current migrations)
            ⟨.empty, []⟩ with
        | error e =>
            rw [hk] at h
            cases h
        | ok s' =>
            rw [hk] at h
            have hturn : extractTurn cmd answers current migrations s' k = .ok s := by
              rw [← h]
              exact (bind_pure _).symm
            obtain ⟨htemp, hdelete⟩ := ih s' hk
            obtain ⟨htemp', hdelete'⟩ := extractTurn_eq_ok hms hturn
            rw [filterMap_range_succ, filterMap_range_succ, List.map_append]
            refine ⟨?_, ?_⟩
            · rw [writeAll, List.foldlM_append, ← writeAll, htemp]
              exact htemp'
            · rw [hdelete', hdelete]
  have hlen : migrations.items.length = ms.length := by rw [hms, List.length_map]
  refine ⟨_, ?_, ?_, hturns _ s h⟩
  · exact Nat.le_max_left _ _
  · exact hlen ▸ Nat.le_max_right _ _

end Turns

/-! ## The files -/

theorem mem_items_removeFiles {paths : List Text} {dir dir' : Dir}
    (h : paths.foldlM removeFile dir = .ok dir') {file : Text × Text} :
    file ∈ dir'.items ↔ file ∈ dir.items ∧ file.1 ∉ paths := by
  induction paths generalizing dir with
  | nil =>
      cases h
      exact (and_iff_left List.not_mem_nil).symm
  | cons path paths ih =>
      rw [List.foldlM_cons] at h
      cases hpath : removeFile dir path with
      | error e =>
          rw [hpath] at h
          cases h
      | ok next =>
          rw [hpath] at h
          rw [ih h]
          unfold removeFile at hpath
          split at hpath
          · cases hpath
            simp only [Dict.erase, List.mem_filter, decide_eq_true_eq, List.mem_cons, not_or,
              and_assoc]
          · cases hpath

section Files

variable {E : EdgeqlParser} {cmd : ExtractMigrations} {answers : Nat → Option Bool}
  {cli : Connection} {history : List DbMigration} {schema schema' : SchemaDir}

/-- The migrations that are written, by their places. -/
def IsWritten (current : FileMap) (ms : List DbMigration) (x : Nat × MigrationToText) : Prop :=
  ∃ i m, ms[i]? = some m ∧ current.keys[i]? ≠ some m.name ∧
    x = (i + 1, m.toText (.index (i + 1)))

def IsDeleted (current : FileMap) (ms : List DbMigration) (path : Text) : Prop :=
  ∃ i item, ms.length ≤ i ∧ current.items[i]? = some item ∧ item.2.path = path

theorem mem_filterMap_written {current : FileMap} {ms : List DbMigration} {k : Nat}
    (hk : ms.length ≤ k) {x : Nat × MigrationToText} :
    x ∈ (List.range k).filterMap (written current ms) ↔ IsWritten current ms x := by
  rw [List.mem_filterMap]
  constructor
  · rintro ⟨i, -, hi⟩
    unfold written at hi
    split at hi
    · next m hm =>
      split at hi
      · cases hi
      · next hne => exact ⟨i, m, hm, hne, (Option.some.inj hi).symm⟩
    · cases hi
  · rintro ⟨i, m, hm, hne, rfl⟩
    have hi := (List.getElem?_eq_some_iff.mp hm).1
    refine ⟨i, List.mem_range.mpr (Nat.lt_of_lt_of_le hi hk), ?_⟩
    rw [written, hm]
    exact if_neg hne

theorem mem_filterMap_deleted {current : FileMap} {ms : List DbMigration} {k : Nat}
    (hk : current.items.length ≤ k) {path : Text} :
    path ∈ (List.range k).filterMap (deleted current ms) ↔ IsDeleted current ms path := by
  rw [List.mem_filterMap]
  constructor
  · rintro ⟨i, -, hi⟩
    unfold deleted at hi
    split at hi
    · next hle =>
      obtain ⟨item, hitem, hpath⟩ := Option.map_eq_some_iff.mp hi
      exact ⟨i, item, hle, hitem, hpath⟩
    · cases hi
  · rintro ⟨i, item, hle, hitem, rfl⟩
    have hi := (List.getElem?_eq_some_iff.mp hitem).1
    refine ⟨i, List.mem_range.mpr (Nat.lt_of_lt_of_le hi hk), ?_⟩
    rw [deleted, if_pos hle, hitem]
    rfl

theorem placed_written {current : FileMap} {ms : List DbMigration}
    (hnames : ∀ m ∈ ms, ServerName m.name) (k : Nat) :
    Placed ((List.range k).filterMap (written current ms)) := by
  have hsome : ∀ {i x}, written current ms i = some x →
      ∃ m ∈ ms, x = (i + 1, m.toText (.index (i + 1))) := by
    intro i x hx
    unfold written at hx
    split at hx
    · next m hm =>
      split at hx
      · cases hx
      · exact ⟨m, List.mem_of_getElem? hm, (Option.some.inj hx).symm⟩
    · cases hx
  refine ⟨fun x hx => ?_, fun x hx => ?_, ?_⟩
  · obtain ⟨i, -, hi⟩ := List.mem_filterMap.mp hx
    obtain ⟨m, -, rfl⟩ := hsome hi
    rfl
  · obtain ⟨i, -, hi⟩ := List.mem_filterMap.mp hx
    obtain ⟨m, hm, rfl⟩ := hsome hi
    exact hnames m hm
  · rw [List.map_filterMap]
    refine List.Nodup.filterMap (fun i j n hi hj => ?_) List.nodup_range
    obtain ⟨x, hx, rfl⟩ := Option.map_eq_some_iff.mp (Option.mem_def.mp hi)
    obtain ⟨y, hy, heq⟩ := Option.map_eq_some_iff.mp (Option.mem_def.mp hj)
    obtain ⟨m, -, rfl⟩ := hsome hx
    obtain ⟨m', -, rfl⟩ := hsome hy
    exact (Nat.succ.inj heq).symm

/-- The files that an extraction leaves. -/
def Leaves (current : FileMap) (ms : List DbMigration) (dir dir' : Dir) : Prop :=
  ∀ file, file ∈ listed dir' ↔
    ((∃ x, IsWritten current ms x ∧ indexFile x = file) ∨
      (∀ x, IsWritten current ms x → indexName x.1 x.2.id ≠ file.1) ∧ file ∈ listed dir) ∧
    ¬ IsDeleted current ms file.1

/-- What an extraction does to the files. -/
theorem extract_eq_ok (hcli : Holds cli history)
    (hnames : ∀ m ∈ cli.read true false history, ServerName m.name)
    (h : extract E cmd answers cli schema = .ok schema') :
    ∃ current dir', Migrations.readAll E false (schema.migrations.getD .empty) = .ok current ∧
      schema'.migrations = some dir' ∧
      Leaves current (cli.read true false history) (schema.migrations.getD .empty) dir' := by
  unfold extract at h
  split at h
  · cases h
  next current hcurrent =>
  split at h
  · cases h
  next s hs =>
  split at h
  · cases h
  split at h
  · cases h
  next dir' hdir' =>
  cases h
  refine ⟨current, dir', hcurrent, rfl, fun file => ?_⟩
  obtain ⟨k, hcurrentLen, hlen, htemp, hdelete⟩ := extractLoop_eq_ok (items_readAll hcli) hs
  have hplaced : Placed ((List.range k).filterMap (written current _)) := placed_written hnames k
  obtain ⟨temp, htemp', hitems⟩ := hplaced.writeAll_empty
  obtain rfl := Option.some.inj (htemp'.symm.trans htemp)
  have hcopied : file ∈ listed (copyFrom (schema.migrations.getD .empty) s.temp) ↔ _ :=
    hplaced.mem_listed_copyFrom hitems
  have hremoved : file ∈ dir'.items ↔ _ := mem_items_removeFiles hdir'
  have hlisted : file ∈ listed dir' ↔
      file ∈ listed (copyFrom (schema.migrations.getD .empty) s.temp) ∧ file.1 ∉ s.toDelete := by
    rw [listed, List.mem_filter, hremoved, listed, List.mem_filter, and_right_comm]
  rw [hlisted, hcopied, hdelete, mem_filterMap_deleted hcurrentLen, List.mem_map, List.map_map,
    List.mem_map, not_exists]
  simp only [mem_filterMap_written hlen, not_and]
  rfl

end Files

/-! ## What is read afterwards -/

section Outcome

variable {E : EdgeqlParser} {dir : Dir} {current : FileMap} {ms : List DbMigration}

/-- The files of the directory fit the history. -/
structure Fits (E : EdgeqlParser) (dir : Dir) (current : FileMap) (ms : List DbMigration) :
    Prop where
  length : ms.length < 2 ^ 64
  /-- Files behind the last migration are only deleted under an id of their own. -/
  distinct : ms.length < (listed dir).length → current.keys.length = (listed dir).length
  /-- The file of another migration has the name of the one that takes its place. -/
  replaced : ∀ file ∈ listed dir, ∀ (i : Nat) (m : DbMigration),
    fileNum file.1 = some (i + 1) → ms[i]? = some m → current.keys[i]? ≠ some m.name →
      file.1 = indexName (i + 1) m.name
  kept : ∀ file ∈ listed dir, ∀ (i : Nat) (m : DbMigration),
    fileNum file.1 = some (i + 1) → ms[i]? = some m → current.keys[i]? = some m.name →
      Entry.ReadWell E true ⟨file, m.name, (m.toText (.index (i + 1))).parent⟩
  written : ∀ (i : Nat) (m : DbMigration), ms[i]? = some m → current.keys[i]? ≠ some m.name →
    Readable E true (m.toText (.index (i + 1)))

/-- The file that a migration is in afterwards, and its names. -/
def entryOf (files : List (Text × Text)) (current : FileMap) (x : Nat × MigrationToText) : Entry where
  file :=
    if current.keys[x.1 - 1]? = some x.2.id then (files[x.1 - 1]?).getD ([], []) else indexFile x
  id := x.2.id
  parent := x.2.parent

variable {files : List (Text × Text)} {order : List Files.MigrationFile}

theorem entryOf_kept {i : Nat} {m : DbMigration} {file : Text × Text}
    (hkept : current.keys[i]? = some m.name) (hfile : files[i]? = some file) :
    entryOf files current (i + 1, m.toText (.index (i + 1))) =
      ⟨file, m.name, (m.toText (.index (i + 1))).parent⟩ := by
  have hfileOf : (entryOf files current (i + 1, m.toText (.index (i + 1)))).file = file := by
    show (if current.keys[i]? = some m.name then (files[i]?).getD ([], []) else _) = file
    rw [if_pos hkept, hfile]
    rfl
  rw [← hfileOf]
  rfl

theorem entryOf_written {i : Nat} {m : DbMigration} (hnew : current.keys[i]? ≠ some m.name) :
    entryOf files current (i + 1, m.toText (.index (i + 1))) =
      ⟨indexFile (i + 1, m.toText (.index (i + 1))), m.name,
        (m.toText (.index (i + 1))).parent⟩ := by
  have hfileOf : (entryOf files current (i + 1, m.toText (.index (i + 1)))).file =
      indexFile (i + 1, m.toText (.index (i + 1))) := by
    show (if current.keys[i]? = some m.name then _ else _) = _
    rw [if_neg hnew]
  rw [← hfileOf]
  rfl

theorem getElem?_entries {i : Nat} : ((inPlace 0 ms).map (entryOf files current))[i]? =
    ms[i]?.map fun m => entryOf files current (i + 1, m.toText (.index (i + 1))) := by
  rw [List.getElem?_map, getElem?_inPlace, Option.map_map]
  simp only [Nat.zero_add]
  rfl

theorem IsWritten.of_name {x : Nat × MigrationToText} (h : IsWritten current ms x)
    (hlen : ms.length < 2 ^ 64) {name : Text} (hname : indexName x.1 x.2.id = name) {i : Nat}
    (hnum : fileNum name = some (i + 1)) :
    ∃ m, ms[i]? = some m ∧ current.keys[i]? ≠ some m.name ∧ name = indexName (i + 1) m.name := by
  obtain ⟨j, m, hm, hnew, rfl⟩ := h
  have hname : indexName (j + 1) m.name = name := hname
  rw [← hname, fileNum_indexName,
    if_pos (Nat.lt_of_le_of_lt (List.getElem?_eq_some_iff.mp hm).1 hlen)] at hnum
  obtain rfl : j = i := Nat.succ.inj (Option.some.inj hnum)
  exact ⟨m, hm, hnew, hname.symm⟩

/-- A file that is deleted has a number behind the last migration. -/
theorem lt_of_isDeleted (hchain : Chain E false files order) {path : Text}
    (h : IsDeleted (order.foldl store .empty) ms path) :
    ∃ n, fileNum path = some n ∧ ms.length < n := by
  obtain ⟨i, ⟨id, m⟩, hle, hitem, rfl⟩ := h
  obtain ⟨j, hij, hj⟩ := hchain.exists_le_of_items hitem
  exact ⟨1 + j, hchain.numbered.fileNum hj, by omega⟩

section Entries

variable {dir' : Dir} (hchain : Chain E false files order) (hperm : files.Perm (listed dir))
  (hcurrent : order.foldl store .empty = current) (hleaves : Leaves current ms dir dir')
  (hlen : ms.length < 2 ^ 64)
include hchain hcurrent

theorem length_keys_le : current.keys.length ≤ files.length := by
  rw [hchain.length_eq, ← hcurrent]
  exact hchain.keys_store.1.length_le.trans (List.length_map _).le

theorem exists_file_of_kept {i : Nat} {m : DbMigration} (hkept : current.keys[i]? = some m.name) :
    ∃ file, files[i]? = some file :=
  ⟨_, List.getElem?_eq_getElem (Nat.lt_of_lt_of_le (List.getElem?_eq_some_iff.mp hkept).1
    (length_keys_le hchain hcurrent))⟩

theorem fileNum_entryOf {i : Nat} {e : Entry} (hlen : ms.length < 2 ^ 64)
    (he : ((inPlace 0 ms).map (entryOf files current))[i]? = some e) :
    fileNum e.file.1 = some (i + 1) := by
  rw [getElem?_entries] at he
  obtain ⟨m, hm, rfl⟩ := Option.map_eq_some_iff.mp he
  by_cases hkept : current.keys[i]? = some m.name
  · obtain ⟨file, hfile⟩ := exists_file_of_kept hchain hcurrent hkept
    rw [entryOf_kept hkept hfile]
    exact hchain.fileNum hfile
  · rw [entryOf_written hkept]
    show fileNum (indexName (i + 1) m.name) = _
    rw [fileNum_indexName,
      if_pos (Nat.lt_of_le_of_lt (List.getElem?_eq_some_iff.mp hm).1 hlen)]

include hperm hleaves hlen

/-- The files of the history are there. -/
theorem entryOf_mem_listed : ∀ e ∈ (inPlace 0 ms).map (entryOf files current),
    e.file ∈ listed dir' := by
  subst hcurrent
  intro e he
  obtain ⟨i, hi⟩ := List.mem_iff_getElem?.mp he
  have hnum := fileNum_entryOf hchain rfl hlen hi
  rw [getElem?_entries] at hi
  obtain ⟨m, hm, rfl⟩ := Option.map_eq_some_iff.mp hi
  have hle : i + 1 ≤ ms.length := (List.getElem?_eq_some_iff.mp hm).1
  refine (hleaves _).mpr ⟨?_, fun hdeleted => ?_⟩
  · by_cases hkept : (order.foldl store .empty).keys[i]? = some m.name
    · obtain ⟨file, hfile⟩ := exists_file_of_kept hchain rfl hkept
      rw [entryOf_kept hkept hfile] at hnum ⊢
      refine .inr ⟨?_, hperm.subset (List.mem_of_getElem? hfile)⟩
      -- a file that is written has the number of another place
      intro x hx hname
      obtain ⟨m', hm', hnew, -⟩ := hx.of_name hlen hname hnum
      cases hm.symm.trans hm'
      exact hnew hkept
    · rw [entryOf_written hkept]
      exact .inl ⟨_, ⟨i, m, hm, hkept, rfl⟩, rfl⟩
  · obtain ⟨n, hn, hlt⟩ := lt_of_isDeleted hchain hdeleted
    rw [Option.some.inj (hnum.symm.trans hn)] at hle
    exact Nat.lt_irrefl _ (Nat.lt_of_lt_of_le hlt hle)

/-- There are no other files iff every file whose place went to another migration has the
name of its file, and all behind the last place are deleted. -/
theorem others_iff :
    (∀ file ∈ listed dir', file ∈ ((inPlace 0 ms).map (entryOf files current)).map Entry.file) ↔
      (ms.length < (listed dir).length → current.keys.length = (listed dir).length) ∧
        ∀ file ∈ listed dir, ∀ (i : Nat) (m : DbMigration), fileNum file.1 = some (i + 1) →
          ms[i]? = some m → current.keys[i]? ≠ some m.name → file.1 = indexName (i + 1) m.name := by
  subst hcurrent
  have hentry : ∀ {file : Text × Text} {i : Nat}, fileNum file.1 = some (i + 1) →
      file ∈ ((inPlace 0 ms).map (entryOf files (order.foldl store .empty))).map Entry.file →
        ∃ m, ms[i]? = some m ∧ (entryOf files (order.foldl store .empty)
          (i + 1, m.toText (.index (i + 1)))).file = file := by
    intro file i hnum hmem
    obtain ⟨e, he, rfl⟩ := List.mem_map.mp hmem
    obtain ⟨j, hj⟩ := List.mem_iff_getElem?.mp he
    have hnum' := fileNum_entryOf hchain rfl hlen hj
    obtain rfl : j = i := Nat.succ.inj (Option.some.inj (hnum'.symm.trans hnum))
    rw [getElem?_entries] at hj
    obtain ⟨m, hm, rfl⟩ := Option.map_eq_some_iff.mp hj
    exact ⟨m, hm, rfl⟩
  -- the files that stay as they are
  have hstays : ∀ {file : Text × Text} {i : Nat}, file ∈ listed dir →
      fileNum file.1 = some (i + 1) →
        (∀ m, ms[i]? = some m → (order.foldl store .empty).keys[i]? ≠ some m.name →
          file.1 ≠ indexName (i + 1) m.name) →
        ¬ IsDeleted (order.foldl store .empty) ms file.1 → file ∈ listed dir' := by
    intro file i hfile hnum hother hdeleted
    refine (hleaves file).mpr ⟨.inr ⟨fun x hx hname => ?_, hfile⟩, hdeleted⟩
    obtain ⟨m, hm, hnew, heq⟩ := hx.of_name hlen hname hnum
    exact hother m hm hnew heq
  constructor
  · intro h
    refine ⟨fun hlt => ?_, fun file hfile i m hnum hm hnew => ?_⟩
    · -- the files behind the last migration are all deleted, each for an entry of its own
      have hsub : (files.drop ms.length).map Prod.fst ⊆
          ((order.foldl store .empty).items.drop ms.length).map (·.2.path) := by
        intro name hname
        obtain ⟨file, hfile, rfl⟩ := List.mem_map.mp hname
        obtain ⟨i, hi⟩ := List.mem_iff_getElem?.mp hfile
        rw [List.getElem?_drop] at hi
        have hnum := hchain.fileNum hi
        have hnone : ms[ms.length + i]? = none := List.getElem?_eq_none (Nat.le_add_right _ _)
        by_contra hnot
        have hdeleted : ¬ IsDeleted (order.foldl store .empty) ms file.1 := by
          rintro ⟨j, item, hle, hitem, hpath⟩
          refine hnot (hpath ▸ List.mem_map_of_mem (List.mem_of_getElem? (i := j - ms.length) ?_))
          rw [List.getElem?_drop, Nat.add_sub_cancel' hle, hitem]
        have hstay := hstays (hperm.subset (List.mem_of_getElem? hi)) hnum
          (fun m hm => by rw [hnone] at hm; cases hm) hdeleted
        obtain ⟨m, hm, -⟩ := hentry hnum (h file hstay)
        rw [hnone] at hm
        cases hm
      have hnodup : ((files.drop ms.length).map Prod.fst).Nodup :=
        ((hperm.map Prod.fst).nodup_iff.mpr (nodup_listed dir)).sublist
          ((List.drop_sublist _ _).map _)
      have hle := (List.subperm_of_subset hnodup hsub).length_le
      have hkeys := length_keys_le hchain rfl
      rw [← hperm.length_eq] at hlt ⊢
      simp only [List.length_map, List.length_drop, Dict.keys] at hle hkeys ⊢
      omega
    · by_contra hname
      have hstay : file ∈ listed dir' := by
        refine hstays hfile hnum (fun m' hm' _ heq => ?_) fun hdeleted => ?_
        · cases hm.symm.trans hm'
          exact hname heq
        · obtain ⟨n, hn, hlt⟩ := lt_of_isDeleted hchain hdeleted
          rw [← Option.some.inj (hnum.symm.trans hn)] at hlt
          exact absurd (List.getElem?_eq_some_iff.mp hm).1 (by omega)
      obtain ⟨m', hm', heq⟩ := hentry hnum (h file hstay)
      cases hm.symm.trans hm'
      rw [entryOf_written hnew] at heq
      exact hname (congrArg Prod.fst heq).symm
  · rintro ⟨hdistinct, hreplaced⟩ file hfile
    have hmem : ∀ {i : Nat} {m : DbMigration}, ms[i]? = some m →
        (entryOf files (order.foldl store .empty) (i + 1, m.toText (.index (i + 1)))).file ∈
          ((inPlace 0 ms).map (entryOf files (order.foldl store .empty))).map Entry.file := by
      intro i m hm
      refine List.mem_map_of_mem (List.mem_of_getElem? (i := i) ?_)
      rw [getElem?_entries, hm]
      rfl
    obtain ⟨⟨x, ⟨i, m, hm, hnew, rfl⟩, rfl⟩ | ⟨hother, hfile⟩, hdeleted⟩ := (hleaves file).mp hfile
    · have hfileOf := hmem hm
      rwa [entryOf_written hnew] at hfileOf
    · obtain ⟨i, hi⟩ := List.mem_iff_getElem?.mp (hperm.symm.subset hfile)
      have hnum := hchain.fileNum hi
      cases hm : ms[i]? with
      | some m =>
          by_cases hkept : (order.foldl store .empty).keys[i]? = some m.name
          · have hfileOf := hmem hm
            rwa [entryOf_kept hkept hi] at hfileOf
          · have hname := hreplaced file hfile i m hnum hm hkept
            have hwritten := hother _ ⟨i, m, hm, hkept, rfl⟩
            exact absurd hname.symm hwritten
      | none =>
          have hle := List.getElem?_eq_none_iff.mp hm
          have hi' := (List.getElem?_eq_some_iff.mp hi).1
          have hkeys := hdistinct (hperm.length_eq ▸ Nat.lt_of_le_of_lt hle hi')
          have hids := hchain.keys_eq (by rw [hkeys, hperm.length_eq])
          have hnodup : (order.map fun m => m.data.id).Nodup :=
            hids ▸ (order.foldl store .empty).nodup
          obtain ⟨m, hm, hread⟩ := hchain.getElem hi
          refine absurd ⟨i, (m.data.id, m), hle, ?_, hread.path⟩ hdeleted
          rw [Collection.items_foldl_store hnodup, List.getElem?_map, hm]
          rfl

omit hleaves hlen

/-- The files of the history can be read iff the ones that were kept and the ones that
were written can. -/
theorem entryOf_readWell_iff (hE : Lawful E) (hnames : ∀ m ∈ ms, ServerName m.name)
    (hhistory : IsHistory ms) :
    (∀ e ∈ (inPlace 0 ms).map (entryOf files current), e.ReadWell E true) ↔
      (∀ file ∈ listed dir, ∀ (i : Nat) (m : DbMigration), fileNum file.1 = some (i + 1) →
        ms[i]? = some m → current.keys[i]? = some m.name →
          Entry.ReadWell E true ⟨file, m.name, (m.toText (.index (i + 1))).parent⟩) ∧
        ∀ (i : Nat) (m : DbMigration), ms[i]? = some m → current.keys[i]? ≠ some m.name →
          Readable E true (m.toText (.index (i + 1))) := by
  have hplaced := placed_inPlace (n := 0) hnames
  have hparents := parentName_of_linked (.inl rfl) (linked_inPlace hhistory) hplaced.id
  have hmem : ∀ {i : Nat} {m : DbMigration}, ms[i]? = some m →
      (i + 1, m.toText (.index (i + 1))) ∈ inPlace 0 ms := by
    intro i m hm
    refine List.mem_of_getElem? (i := i) ?_
    rw [getElem?_inPlace, hm, Nat.zero_add]
    rfl
  have hwritten : ∀ {i : Nat} {m : DbMigration}, ms[i]? = some m →
      current.keys[i]? ≠ some m.name →
        ((entryOf files current (i + 1, m.toText (.index (i + 1)))).ReadWell E true ↔
          Readable E true (m.toText (.index (i + 1)))) := by
    intro i m hm hnew
    rw [entryOf_written hnew]
    exact readFile_text hE (hplaced.id _ (hmem hm)) (hparents _ (hmem hm))
  rw [List.forall_mem_map]
  constructor
  · intro h
    refine ⟨fun file hfile i m hnum hm hkept => ?_, fun i m hm hnew => ?_⟩
    · have hplace := hchain.getElem?_iff.mpr ⟨hperm.symm.subset hfile, hnum⟩
      rw [← entryOf_kept hkept hplace]
      exact h _ (hmem hm)
    · exact (hwritten hm hnew).mp (h _ (hmem hm))
  · rintro ⟨hold, hnew⟩ x hx
    obtain ⟨i, hi⟩ := List.mem_iff_getElem?.mp hx
    rw [getElem?_inPlace, Nat.zero_add] at hi
    obtain ⟨m, hm, rfl⟩ := Option.map_eq_some_iff.mp hi
    by_cases hkept : current.keys[i]? = some m.name
    · obtain ⟨file, hfile⟩ := exists_file_of_kept hchain hcurrent hkept
      rw [entryOf_kept hkept hfile]
      exact hold file (hperm.subset (List.mem_of_getElem? hfile)) i m (hchain.fileNum hfile) hm hkept
    · exact (hwritten hm hkept).mpr (hnew i m hm hkept)

end Entries

/-- **What an extraction leaves is the history** iff the files of the directory fit it. -/
theorem extract_returnsAll_iff (hE : Lawful E) {cmd : ExtractMigrations}
    {answers : Nat → Option Bool} {cli : Connection} {history : List DbMigration}
    {schema schema' : SchemaDir} (hcli : Holds cli history)
    (hnames : ∀ m ∈ cli.read true false history, ServerName m.name)
    (hcurrent : Migrations.readAll E false (schema.migrations.getD .empty) = .ok current)
    (hok : extract E cmd answers cli schema = .ok schema') :
    ReturnsAll E true (schema'.migrations.getD .empty)
        ((cli.read true false history).map DbMigration.name) ↔
      Fits E (schema.migrations.getD .empty) current (cli.read true false history) := by
  obtain ⟨current', dir', hread, hdir', hfiles⟩ := extract_eq_ok hcli hnames hok
  cases hcurrent.symm.trans hread
  have hhistory : IsHistory (cli.read true false history) := isHistory_read hcli.isHistory
  generalize hms : cli.read true false history = ms at hnames hfiles hhistory ⊢
  generalize hdir : schema.migrations.getD .empty = dir at hcurrent hfiles ⊢
  rw [hdir', Option.getD_some]
  obtain ⟨files, order, hperm, hchain, hstored⟩ := readAll_eq_ok.mp hcurrent
  have hids : ((inPlace 0 ms).map (entryOf files current)).map Entry.id =
      ms.map DbMigration.name := by
    rw [← map_id_inPlace 0, List.map_map]
    rfl
  have hlinked : Linked Entry.parent Entry.id nullMigration
      ((inPlace 0 ms).map (entryOf files current)) := by
    refine (linked_inPlace hhistory).of_map ?_ ?_
    · rw [List.map_map]
      rfl
    · rw [List.map_map]
      rfl
  have hnodup : (nullMigration ::
      ((inPlace 0 ms).map (entryOf files current)).map Entry.id).Nodup := by
    rw [hids, List.nodup_cons]
    refine ⟨nullMigration_notMem fun id hid => ?_, hhistory.nodup⟩
    obtain ⟨m, hm, rfl⟩ := List.mem_map.mp hid
    exact hnames m hm
  have hreturns : ms.length < 2 ^ 64 →
      (ReturnsAll E true dir' (ms.map DbMigration.name) ↔ Fits E dir current ms) := by
    intro hlen
    rw [← hids, returnsAll_iff (entryOf_mem_listed hchain hperm hstored.symm hfiles hlen)
      (fun i e he => fileNum_entryOf hchain hstored.symm hlen he) hlinked hnodup,
      others_iff hchain hperm hstored.symm hfiles hlen,
      entryOf_readWell_iff hchain hperm hstored.symm hE hnames hhistory]
    constructor
    · rintro ⟨⟨hdistinct, hreplaced⟩, hkept, hwritten⟩
      exact ⟨hlen, hdistinct, hreplaced, hkept, hwritten⟩
    · intro h
      exact ⟨⟨h.distinct, h.replaced⟩, h.kept, h.written⟩
  constructor
  · intro h
    refine (hreturns ?_).mp h
    obtain ⟨res, hres, hkeys, -⟩ := h
    have hlt := length_lt_of_returns ⟨res, hres, hkeys⟩
    rwa [List.length_map] at hlt
  · intro h
    exact (hreturns h.length).mpr h

end Outcome

/-! ## Two extractions -/

def forced : ExtractMigrations := ⟨true, true⟩

def createTypesSchema : SchemaDir := ⟨true, some (createTypesDir "00001-m1q3jjf.edgeql".toList)⟩

theorem extract_ok_of_isSome {E : EdgeqlParser} {cmd : ExtractMigrations}
    {answers : Nat → Option Bool} {cli : Connection} {schema : SchemaDir}
    (h : ((extract E cmd answers cli schema).toOption.map fun schema => schema.isDir) = some true) :
    ∃ schema', extract E cmd answers cli schema = .ok schema' := by
  obtain ⟨schema', hschema', -⟩ := Option.map_eq_some_iff.mp h
  exact ⟨schema', toOption_eq_some.mp hschema'⟩

theorem listed_createTypesDir :
    listed (createTypesDir "00001-m1q3jjf.edgeql".toList) =
      [("00001-m1q3jjf.edgeql".toList, createType.text)] := by
  decide +kernel

/-- The file of the first migration is kept, the second migration is written. -/
theorem fits_createTypes {current : FileMap}
    (hkeys : current.keys = (createTypes.take 1).map DbMigration.name) :
    Fits Plain.parser (createTypesDir "00001-m1q3jjf.edgeql".toList) current createTypes := by
  have hfirst : ∀ file ∈ listed (createTypesDir "00001-m1q3jjf.edgeql".toList),
      ∀ (i : Nat) (m : DbMigration), fileNum file.1 = some (i + 1) → createTypes[i]? = some m →
        file.2 = createType.text ∧ i = 0 ∧ m = createTypes.head (List.cons_ne_nil _ _) := by
    intro file hfile i m hnum hm
    rw [listed_createTypesDir, List.mem_singleton] at hfile
    subst hfile
    have hone : fileNum "00001-m1q3jjf.edgeql".toList = some 1 := by decide +kernel
    obtain rfl : i = 0 := Nat.succ.inj (Option.some.inj (hnum.symm.trans hone))
    exact ⟨rfl, rfl, (Option.some.inj hm).symm⟩
  have hkept : current.keys[0]? = some createType.id := by
    rw [hkeys]
    rfl
  refine ⟨by decide, ?_, ?_, ?_, ?_⟩
  · rw [listed_createTypesDir]
    intro h
    exact absurd h (by decide)
  · intro file hfile i m hnum hm hnew
    obtain ⟨-, rfl, rfl⟩ := hfirst file hfile i m hnum hm
    exact absurd hkept hnew
  · intro file hfile i m hnum hm _
    obtain ⟨htext, rfl, rfl⟩ := hfirst file hfile i m hnum hm
    have hmem : ((1 : Nat), createType) ∈ inPlace 0 createTypes := List.mem_cons_self
    have hreadable := readable_createTypes _ hmem
    rw [Entry.ReadWell, htext]
    exact (readFile_text Plain.lawful (serverName_createTypes _ List.mem_cons_self)
      (.inl rfl)).mpr hreadable
  · intro i m hm _
    have hmem : (i + 1, m.toText (.index (i + 1))) ∈ inPlace 0 createTypes := by
      refine List.mem_of_getElem? (i := i) ?_
      rw [getElem?_inPlace, hm, Nat.zero_add]
      rfl
    have hreadable := readable_createTypes _ hmem
    exact hreadable

theorem extract_returnsAll_createTypes : ∃ schema',
    extract Plain.parser forced (fun _ => none) createTypesTarget createTypesSchema = .ok schema' ∧
      ReturnsAll Plain.parser true (schema'.migrations.getD .empty)
        (createTypes.map DbMigration.name) := by
  obtain ⟨current, hcurrent, hkeys⟩ := readAll_createTypesDir false _ (.inr rfl)
  have hdone : ((extract Plain.parser forced (fun _ => none) createTypesTarget
      createTypesSchema).toOption.map fun schema => schema.isDir) = some true := by
    decide +kernel
  obtain ⟨schema', hok⟩ := extract_ok_of_isSome hdone
  have hms : createTypesTarget.read true false createTypes = createTypes := rfl
  have hcurrent : Migrations.readAll Plain.parser false
      (createTypesSchema.migrations.getD .empty) = .ok current := hcurrent
  have hiff := extract_returnsAll_iff Plain.lawful holds_createTypesTarget
    (hms ▸ serverName_createTypes) hcurrent hok
  rw [hms] at hiff
  exact ⟨schema', hok, hiff.mpr (fits_createTypes hkeys)⟩

/-- The other migration of the database, in the place of the one on disk. -/
def createType2 : DbMigration where
  name := Plain.migrationId nullMigration (["CREATE", "TYPE", "Type2", ";"].map String.toList)
  script := "CREATE TYPE Type2;".toList
  parentNames := []
  generatedBy := none

def createType2Target : Connection := ⟨"main".toList, true, [createType2]⟩

/-- The file of the migration that was replaced stays. -/
theorem extract_keeps_createType :
    ¬ ∀ (E : EdgeqlParser) (cmd : ExtractMigrations) (answers : Nat → Option Bool)
      (cli : Connection) (history : List DbMigration) (schema schema' : SchemaDir)
      (current : FileMap), Lawful E → Holds cli history →
        (∀ m ∈ cli.read true false history, ServerName m.name) →
          (∀ x ∈ inPlace 0 (cli.read true false history), Readable E true x.2) →
            Migrations.readAll E false (schema.migrations.getD .empty) = .ok current →
              extract E cmd answers cli schema = .ok schema' →
                ReturnsAll E true (schema'.migrations.getD .empty)
                  ((cli.read true false history).map DbMigration.name) := by
  intro hclaim
  obtain ⟨current, hcurrent, -⟩ := readAll_createTypesDir false _ (.inr rfl)
  have hdone : ((extract Plain.parser forced (fun _ => none) createType2Target
      createTypesSchema).toOption.map fun schema => schema.isDir) = some true := by
    decide +kernel
  obtain ⟨schema', hok⟩ := extract_ok_of_isSome hdone
  have hholds : Holds createType2Target [createType2] :=
    ⟨⟨⟨rfl, trivial⟩, by decide⟩, List.Perm.refl _⟩
  have hname : ∀ m ∈ [createType2], ServerName m.name := by
    intro m hm
    rw [List.mem_singleton.mp hm]
    exact Plain.serverName_migrationId nullMigration
      (["CREATE", "TYPE", "Type2", ";"].map String.toList)
  have hstatement : statement Plain.unquote [⟨.keyword "create".toList, "CREATE".toList⟩,
      ⟨.ident, "TYPE".toList⟩, ⟨.ident, "Type2".toList⟩, ⟨.semicolon, ";".toList⟩] =
        .ok (.ignored, []) := rfl
  have hreadable : ∀ x ∈ inPlace 0 [createType2], Readable Plain.parser true x.2 := by
    intro x hx
    rw [List.mem_singleton.mp hx]
    exact ⟨_, rfl, ⟨_, none, .cons hstatement .nil, rfl⟩, fun _ => rfl⟩
  obtain ⟨res, hread, -⟩ := hclaim Plain.parser forced (fun _ => none) createType2Target
    [createType2] createTypesSchema schema' current Plain.lawful hholds hname hreadable hcurrent hok
  have hrefused : ((extract Plain.parser forced (fun _ => none) createType2Target
      createTypesSchema).toOption.bind fun schema =>
        (Migrations.readAll Plain.parser true (schema.migrations.getD .empty)).toOption.map
          Dict.keys) = none := by
    decide +kernel
  rw [hok] at hrefused
  simp only [Except.toOption, Option.bind_some, hread] at hrefused
  cases hrefused

end GelCli.Migrations.Extract
