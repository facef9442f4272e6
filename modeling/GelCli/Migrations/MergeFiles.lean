import GelCli.Migrations.FastForward
import GelCli.Migrations.WrittenBack
import GelCli.Migrations.WrittenNames

/-!
# The files of a merge

`write_merge_migrations` of `src/migrations/merge.rs`. The whole history of the target
is written to files of its own and these are copied over those of the directory. The
directory keeps its files of other names, such as `00001.edgeql`, and then two files
have the same parent.
-/

namespace GelCli.Migrations.Merge

open GelCli.Foundation Db

def MergeMigration.toText (m : MergeMigration) : MigrationToText := m.migration.toText m.key

/-- The directory with the migrations in it; there is none if a name cannot be abbreviated. -/
def writeMergeMigrations (dir : Dir) (migrations : MergeMigrations) : Option Dir :=
  (writeAll .empty (migrations.flatten.items.map fun item => item.2.toText)).map (copyFrom dir)

/-! ## What is written -/

variable {E : EdgeqlParser} {validate validate' : Bool} {base target : Connection}
  {b t : List DbMigration}

theorem items_insertAll {d : Dict Text MergeMigration} {items : List (Text × MergeMigration)}
    (h : (d.keys ++ items.map Prod.fst).Nodup) : (insertAll d items).items = d.items ++ items := by
  rw [insertAll, Dict.items_foldl_set h]
  exact congrArg _ (List.map_id _)

theorem items_flatten (hb : Holds base b) (ht : Holds target t) {m : MergeMigrations}
    (hm : getMergeMigrations base target = .ok m) :
    m.flatten.items = placed 0 (target.read true false t) ∧
      (base.read true false b).length < (target.read true false t).length := by
  rcases getMergeMigrations_cases hb ht with
    ⟨-, hmerge⟩ | ⟨-, -, entries, -, hmerge⟩ | ⟨-, hlt, m', hmerge, hbase, htarget⟩
  · rw [hm] at hmerge
    cases hmerge
  · rw [hm, diverged] at hmerge
    split at hmerge
    · cases hmerge
    · cases hmerge
  · rw [hm] at hmerge
    cases hmerge
    have hsplit := placed_append 0 ((target.read true false t).take (base.read true false b).length)
      ((target.read true false t).drop (base.read true false b).length)
    rw [List.take_append_drop, List.length_take, Nat.zero_add,
      Nat.min_eq_left (Nat.le_of_lt hlt)] at hsplit
    have hnodup : (m.baseMigrations.keys ++ m.targetMigrations.keys).Nodup := by
      rw [Dict.keys, Dict.keys, ← List.map_append, hbase, htarget, ← hsplit, map_fst_placed]
      exact (isHistory_read ht.isHistory).nodup
    have hfirst : (insertAll .empty m.baseMigrations.items).items = m.baseMigrations.items :=
      items_insertAll (List.nodup_append.mp hnodup).1
    refine ⟨?_, hlt⟩
    rw [MergeMigrations.flatten, items_insertAll, hfirst, hsplit, hbase, htarget]
    rw [Dict.keys, hfirst]
    exact hnodup

theorem map_toText_placed (n : Nat) (ms : List DbMigration) :
    (placed n ms).map (fun item => item.2.toText) = (inPlace n ms).map Prod.snd := by
  rw [placed, inPlace, List.map_map, List.map_map]
  rfl

/-- **When a merge leaves the target's history**: the directory has no migration files of
other names than those that are written, and these are files that can be read. -/
theorem writeMergeMigrations_returns_iff (hE : Lawful E) (hb : Holds base b) (ht : Holds target t)
    {m : MergeMigrations} (hm : getMergeMigrations base target = .ok m)
    (hnames : ∀ x ∈ target.read true false t, ServerName x.name) {dir : Dir}
    {files : Files.FileMap} (hdir : Migrations.readAll E validate dir = .ok files)
    (hchain : files.keys = names (base.read true false b)) :
    let ts := target.read true false t
    (∃ dir', writeMergeMigrations dir m = some dir' ∧ Returns E validate' dir' (names ts)) ↔
      ts.length < 2 ^ 64 ∧
        (∀ name ∈ readNames dir, ∃ x ∈ inPlace 0 ts, name = indexName x.1 x.2.id) ∧
        ∀ x ∈ inPlace 0 ts, Readable E validate' x.2 := by
  intro ts
  have hplaced : Placed (inPlace 0 ts) := placed_inPlace hnames
  have hhistory : IsHistory ts := isHistory_read ht.isHistory
  obtain ⟨hflatten, hlt⟩ := items_flatten hb ht hm
  obtain ⟨temp, htemp, hitems⟩ := hplaced.writeAll_empty
  have hwrite : writeMergeMigrations dir m = some (copyFrom dir temp) := by
    rw [writeMergeMigrations, hflatten, map_toText_placed, htemp]
    rfl
  have hfiles : ∀ {file : Text × Text}, file ∈ listed (copyFrom dir temp) ↔ _ :=
    hplaced.mem_listed_copyFrom hitems
  have hwritten : ∀ e ∈ entries (inPlace 0 ts), e.file ∈ listed (copyFrom dir temp) := by
    intro e he
    exact hfiles.mpr (.inl (map_file_entries _ ▸ List.mem_map_of_mem he))
  have hids : names ts = (entries (inPlace 0 ts)).map Entry.id := (map_id_entries ts).symm
  have hnodup : (Files.nullMigration :: (entries (inPlace 0 ts)).map Entry.id).Nodup := by
    rw [← hids, List.nodup_cons]
    refine ⟨nullMigration_notMem fun id hid => ?_, hhistory.nodup⟩
    obtain ⟨x, hx, rfl⟩ := List.mem_map.mp hid
    exact hnames x hx
  -- every migration has a file of its own, and no file has a number behind them
  have hreturns : ts.length < 2 ^ 64 → (Returns E validate' (copyFrom dir temp) (names ts) ↔
      (∀ file ∈ listed (copyFrom dir temp), file ∈ (inPlace 0 ts).map indexFile) ∧
        ∀ e ∈ entries (inPlace 0 ts), e.ReadWell E validate') := by
    intro hlen
    rw [← map_file_entries, ← returnsAll_iff hwritten (fun i e he => fileNum_entries hlen he)
      (linked_entries hhistory) hnodup, ← hids]
    refine ⟨fun h => returnsAll_of_returns h fun file hfile n hn => ?_, ?_⟩
    · rw [names, List.length_map]
      rcases hfiles.mp hfile with hfile | ⟨-, hfile⟩
      · obtain ⟨x, hx, rfl⟩ := List.mem_map.mp hfile
        have hle := place_le_of_mem_inPlace hx
        rw [Nat.zero_add] at hle
        rw [indexFile, fileNum_indexName, if_pos (Nat.lt_of_le_of_lt hle hlen)] at hn
        exact Option.some.inj hn ▸ hle
      · obtain ⟨n', hn', hle⟩ := fileNum_of_readAll hdir hfile
        rw [hchain, names, List.length_map] at hle
        rw [← Option.some.inj (hn'.symm.trans hn)]
        exact Nat.le_trans hle hlt
    · rintro ⟨res, hread, hkeys, -⟩
      exact ⟨res, hread, hkeys⟩
  have hothers : (∀ file ∈ listed (copyFrom dir temp), file ∈ (inPlace 0 ts).map indexFile) ↔
      ∀ name ∈ readNames dir, ∃ x ∈ inPlace 0 ts, name = indexName x.1 x.2.id := by
    rw [readNames_eq, List.forall_mem_map]
    have hname : ∀ file : Text × Text, file.1 ∈ ((inPlace 0 ts).map indexFile).map Prod.fst ↔
        ∃ x ∈ inPlace 0 ts, file.1 = indexName x.1 x.2.id := by
      intro file
      simp only [List.map_map, List.mem_map, Function.comp_apply, indexFile, eq_comm]
    constructor
    · intro h file hfile
      by_contra hnone
      have hnew := mt (hname file).mp hnone
      exact hnew (List.mem_map_of_mem (h file (hfiles.mpr (.inr ⟨hnew, hfile⟩))))
    · intro h file hfile
      rcases hfiles.mp hfile with hfile | ⟨hnew, hfile⟩
      · exact hfile
      · exact absurd ((hname file).mpr (h file hfile)) hnew
  have hwell : (∀ e ∈ entries (inPlace 0 ts), e.ReadWell E validate') ↔
      ∀ x ∈ inPlace 0 ts, Readable E validate' x.2 := by
    rw [entries, List.forall_mem_map]
    refine forall₂_congr fun x hx => readFile_text hE (hplaced.id x hx) ?_
    exact parentName_of_linked (.inl rfl) (linked_inPlace hhistory) hplaced.id x hx
  rw [hwrite, ← hwell, ← hothers]
  constructor
  · rintro ⟨dir', hdir', h⟩
    obtain rfl := Option.some.inj hdir'
    have hlen : ts.length < 2 ^ 64 := by
      have hlt := length_lt_of_returns h
      rwa [names, List.length_map] at hlt
    exact ⟨hlen, (hreturns hlen).mp h⟩
  · rintro ⟨hlen, h⟩
    exact ⟨_, rfl, (hreturns hlen).mpr h⟩

/-! ## A directory under old names -/

def createTypesMerge : MergeMigrations := mergeAt 1 (createTypes.map fun m => (m.name, m))

theorem getMergeMigrations_createTypes :
    getMergeMigrations createTypesBase createTypesTarget = .ok createTypesMerge := rfl

theorem writeMergeMigrations_returns_createTypes :
    ∃ dir', writeMergeMigrations (createTypesDir "00001-m1q3jjf.edgeql".toList) createTypesMerge =
        some dir' ∧ Returns Plain.parser true dir' (names createTypes) := by
  obtain ⟨files, hdir, hchain⟩ := readAll_createTypesDir true _ (.inr rfl)
  have hname : ∀ name ∈ readNames (createTypesDir "00001-m1q3jjf.edgeql".toList),
      ∃ x ∈ inPlace 0 createTypes, name = indexName x.1 x.2.id := by
    intro name hname
    have hnames : readNames (createTypesDir "00001-m1q3jjf.edgeql".toList) =
        ["00001-m1q3jjf.edgeql".toList] := by decide +kernel
    rw [hnames, List.mem_singleton] at hname
    exact ⟨_, List.mem_cons_self, by rw [hname]; decide +kernel⟩
  exact (writeMergeMigrations_returns_iff Plain.lawful holds_createTypesBase
    holds_createTypesTarget getMergeMigrations_createTypes serverName_createTypes hdir hchain).mpr
    ⟨by decide, hname, readable_createTypes⟩

/-- The old file of the first migration stays beside the new one. -/
theorem writeMergeMigrations_keeps_legacyName :
    ¬ ∀ (E : EdgeqlParser) (base target : Connection) (b t : List DbMigration)
      (m : MergeMigrations) (dir : Dir) (files : Files.FileMap),
      Lawful E → Holds base b → Holds target t → getMergeMigrations base target = .ok m →
        (∀ x ∈ target.read true false t, ServerName x.name) →
          (∀ x ∈ inPlace 0 (target.read true false t), Readable E true x.2) →
            Migrations.readAll E true dir = .ok files →
              files.keys = names (base.read true false b) →
                ∃ dir', writeMergeMigrations dir m = some dir' ∧
                  Returns E true dir' (names (target.read true false t)) := by
  intro hclaim
  obtain ⟨files, hdir, hchain⟩ := readAll_createTypesDir true _ (.inl rfl)
  obtain ⟨dir', hwrite, res, hread, -⟩ := hclaim Plain.parser createTypesBase createTypesTarget _ _
    createTypesMerge _ files Plain.lawful holds_createTypesBase holds_createTypesTarget
    getMergeMigrations_createTypes serverName_createTypes readable_createTypes hdir hchain
  have hrefused : ((writeMergeMigrations (createTypesDir "00001.edgeql".toList)
      createTypesMerge).bind fun dir => (Migrations.readAll Plain.parser true dir).toOption.map
        Dict.keys) = none := by
    decide +kernel
  rw [hwrite] at hrefused
  simp only [Option.bind_some, hread] at hrefused
  cases hrefused

end GelCli.Migrations.Merge
