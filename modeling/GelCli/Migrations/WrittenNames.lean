import GelCli.Migrations.ReadDirectory
import GelCli.Migrations.WrittenBack

/-!
# The names of written files

A migration with a place in the history is written to a file whose number is that
place. Several of them are written to files of their own.
-/

namespace GelCli.Migrations

open GelCli.Foundation Files

/-! ## Numbers -/

theorem isDigit_padded {n : Nat} {c : Char} (h : c ∈ padded n) : c.isDigit := by
  rcases List.mem_append.mp h with h | h
  · rw [List.eq_of_mem_replicate h]
    rfl
  · exact Decimal.isDigit_of_mem_ofNat h

theorem padded_ne_nil (n : Nat) : padded n ≠ [] := by
  intro h
  have hnil := (List.append_eq_nil_iff.mp h).2
  have hvalue := Decimal.value_ofNat n
  have hnumeral := Decimal.numeral_ofNat n
  rw [hnil] at hnumeral
  exact absurd hnumeral (by decide)

theorem value_padded (n : Nat) : Decimal.value (padded n) = n := by
  have hzeros : ∀ k (t : Text), Decimal.value (List.replicate k '0' ++ t) = Decimal.value t := by
    intro k t
    induction k with
    | zero => rfl
    | succ k ih => exact ih
  rw [padded, hzeros, Decimal.value_ofNat]

theorem parseU64_of_ne_plus {t : Text} (h : t.head? ≠ some '+') :
    parseU64 t = if t ≠ [] ∧ t.all Char.isDigit ∧ Decimal.value t < 2 ^ 64 then
      some (Decimal.value t) else none := by
  unfold parseU64
  extract_lets digits
  have hdigits : digits = t := by
    unfold digits
    split
    · exact absurd rfl h
    · rfl
  simp only [hdigits]

theorem parseU64_padded (n : Nat) : parseU64 (padded n) = if n < 2 ^ 64 then some n else none := by
  have hhead : (padded n).head? ≠ some '+' := by
    intro h
    have hdigit := isDigit_padded (List.mem_of_mem_head? h)
    exact absurd hdigit (by decide)
  have hall : (padded n).all Char.isDigit := List.all_eq_true.mpr fun c hc => isDigit_padded hc
  rw [parseU64_of_ne_plus hhead, value_padded]
  by_cases hn : n < 2 ^ 64
  · rw [if_pos hn, if_pos ⟨padded_ne_nil n, hall, hn⟩]
  · rw [if_neg hn, if_neg fun h => hn h.2.2]

/-! ## Names -/

/-- `{:05}-{}.edgeql` with the first seven characters of an id. -/
def indexName (idx : Nat) (id : Text) : Text := padded idx ++ '-' :: id.take 7 ++ ".edgeql".toList

theorem fileName_index {descr : MigrationToText} {idx : Nat} (hkey : descr.key = .index idx)
    (hid : Db.ServerName descr.id) : descr.fileName = some (indexName idx descr.id) := by
  rw [MigrationToText.fileName, hkey]
  show (Db.abbreviate descr.id).map _ = _
  rw [Db.abbreviate_serverName hid]
  rfl

theorem fileNum_indexName (idx : Nat) (id : Text) :
    fileNum (indexName idx id) = if idx < 2 ^ 64 then some idx else none := by
  have hstem : Dump.fileStem (indexName idx id) = some (padded idx ++ '-' :: id.take 7) := by
    have hsplit : indexName idx id = (padded idx ++ '-' :: id.take 7) ++ '.' :: "edgeql".toList := rfl
    have hne : indexName idx id ≠ ['.', '.'] := by
      intro h
      obtain ⟨c, t, hpadded⟩ := List.exists_cons_of_ne_nil (padded_ne_nil idx)
      rw [indexName, hpadded] at h
      have hdigit : c.isDigit := isDigit_padded (hpadded ▸ List.mem_cons_self)
      rw [(List.cons.inj h).1] at hdigit
      exact absurd hdigit (by decide)
    have hbefore : padded idx ++ '-' :: id.take 7 ≠ [] := by simp
    have hdot : '.' ∉ "edgeql".toList := by decide
    rw [Dump.fileStem, Dump.rsplitFileAtDot, if_neg hne, hsplit, Text.cutLast_append hdot]
    simp only [if_neg hbefore]
    rfl
  have hdash : '-' ∈ padded idx ++ '-' :: id.take 7 := by simp
  have hfront : (padded idx ++ '-' :: id.take 7).takeWhile (· ≠ '-') = padded idx := by
    rw [List.takeWhile_append_of_pos, List.takeWhile_cons_of_neg, List.append_nil]
    · decide
    · intro c hc
      rw [decide_eq_true_eq]
      rintro rfl
      exact absurd (isDigit_padded hc) (by decide)
  rw [fileNum, hstem]
  show (if '-' ∈ padded idx ++ '-' :: id.take 7 then _ else _) = _
  rw [if_pos hdash, hfront, parseU64_padded]

theorem migrationName_indexName (idx : Nat) (id : Text) : migrationName (indexName idx id) := by
  have hsuffix : ".edgeql".toList.isSuffixOf (indexName idx id) :=
    List.isSuffixOf_iff_suffix.mpr (List.suffix_append _ _)
  obtain ⟨c, t, hpadded⟩ := List.exists_cons_of_ne_nil (padded_ne_nil idx)
  have hdot : ['.'].isPrefixOf (indexName idx id) = false := by
    have hdigit : c.isDigit := isDigit_padded (hpadded ▸ List.mem_cons_self)
    have hne : ('.' == c) = false := by
      rw [beq_eq_false_iff_ne]
      rintro rfl
      exact absurd hdigit (by decide)
    rw [indexName, hpadded]
    show ('.' == c && _) = false
    rw [hne]
    rfl
  rw [migrationName, hdot, hsuffix]
  rfl

theorem indexName_injective {i j : Nat} {id id' : Text} (h : indexName i id = indexName j id') :
    i = j := by
  have hdash : ∀ n, '-' ∉ padded n := fun n hmem => absurd (isDigit_padded hmem) (by decide)
  rw [indexName, indexName, List.append_assoc, List.append_assoc] at h
  have hnum := (Text.append_cons_inj (hdash i) (hdash j) h).1
  rw [← value_padded i, ← value_padded j, hnum]

/-! ## Several files -/

/-- A migration is written to the file of its place. -/
def indexFile (x : Nat × MigrationToText) : Text × Text := (indexName x.1 x.2.id, x.2.text)

structure Placed (migrations : List (Nat × MigrationToText)) : Prop where
  key : ∀ x ∈ migrations, x.2.key = .index x.1
  id : ∀ x ∈ migrations, Db.ServerName x.2.id
  nodup : (migrations.map Prod.fst).Nodup

namespace Placed

variable {migrations : List (Nat × MigrationToText)} (h : Placed migrations)
include h

theorem nodup_names : ((migrations.map indexFile).map Prod.fst).Nodup := by
  have hnum : ∀ x ∈ migrations, ∀ y ∈ migrations,
      indexName x.1 x.2.id = indexName y.1 y.2.id → x.1 = y.1 :=
    fun x _ y _ heq => indexName_injective heq
  rw [List.map_map]
  refine List.Nodup.map_on (fun x hx y hy heq => ?_) (List.Nodup.of_map _ h.nodup)
  exact List.inj_on_of_nodup_map h.nodup hx hy (hnum x hx y hy heq)

theorem writeAll_empty : ∃ temp, writeAll .empty (migrations.map Prod.snd) = some temp ∧
    temp.items = migrations.map indexFile := by
  have hwrite : ∀ (migrations : List (Nat × MigrationToText)) (dir : Dir),
      (∀ x ∈ migrations, x.2.key = .index x.1) → (∀ x ∈ migrations, Db.ServerName x.2.id) →
        writeAll dir (migrations.map Prod.snd) = some
          (migrations.foldl (fun dir x => dir.set (indexName x.1 x.2.id) x.2.text) dir) := by
    intro migrations
    induction migrations with
    | nil => exact fun _ _ _ => rfl
    | cons x migrations ih =>
        intro dir hkey hid
        rw [List.forall_mem_cons] at hkey hid
        have hx : x.2.write dir = some (dir.set (indexName x.1 x.2.id) x.2.text) := by
          rw [MigrationToText.write, fileName_index hkey.1 hid.1]
          rfl
        rw [writeAll, List.map_cons, List.foldlM_cons, hx]
        exact ih _ hkey.2 hid.2
  refine ⟨_, hwrite migrations .empty h.key h.id, ?_⟩
  rw [Dict.items_foldl_set]
  · rfl
  · have hnodup := h.nodup_names
    rw [List.map_map] at hnodup
    exact hnodup

/-- What is there after the written files were copied. -/
theorem mem_listed_copyFrom {temp : Dir} (hitems : temp.items = migrations.map indexFile)
    {dir : Dir} {file : Text × Text} : file ∈ listed (copyFrom dir temp) ↔
      file ∈ migrations.map indexFile ∨
        file.1 ∉ (migrations.map indexFile).map Prod.fst ∧ file ∈ listed dir := by
  have hlisted : (temp.items.filter fun file => migrationName file.1) =
      migrations.map indexFile := by
    rw [hitems, List.filter_eq_self]
    intro file hfile
    obtain ⟨x, -, rfl⟩ := List.mem_map.mp hfile
    exact migrationName_indexName _ _
  rw [listed, copyFrom, hlisted, List.mem_filter, Dict.mem_items_foldl_set h.nodup_names, listed,
    List.mem_filter, or_and_right, and_assoc]
  refine or_congr (and_iff_left_of_imp fun hfile => ?_) Iff.rfl
  obtain ⟨x, -, rfl⟩ := List.mem_map.mp hfile
  exact migrationName_indexName _ _

end Placed

/-! ## A history -/

/-- The migrations of a history as they are written, under the places from `n + 1` on. -/
def inPlace (n : Nat) (ms : List Db.DbMigration) : List (Nat × MigrationToText) :=
  (ms.zipIdx n).map fun entry => (entry.2 + 1, entry.1.toText (.index (entry.2 + 1)))

theorem inPlace_cons (n : Nat) (m : Db.DbMigration) (ms : List Db.DbMigration) :
    inPlace n (m :: ms) = (n + 1, m.toText (.index (n + 1))) :: inPlace (n + 1) ms := rfl

theorem getElem?_inPlace (n i : Nat) (ms : List Db.DbMigration) : (inPlace n ms)[i]? =
    ms[i]?.map fun m => (n + i + 1, m.toText (.index (n + i + 1))) := by
  rw [inPlace, List.getElem?_map, List.getElem?_zipIdx]
  cases ms[i]? <;> rfl

theorem place_le_of_mem_inPlace {n : Nat} {ms : List Db.DbMigration} {x : Nat × MigrationToText}
    (h : x ∈ inPlace n ms) : x.1 ≤ n + ms.length := by
  obtain ⟨i, hi⟩ := List.mem_iff_getElem?.mp h
  rw [getElem?_inPlace] at hi
  obtain ⟨m, hm, rfl⟩ := Option.map_eq_some_iff.mp hi
  exact Nat.add_lt_add_left (List.getElem?_eq_some_iff.mp hm).1 n

theorem map_id_inPlace (n : Nat) (ms : List Db.DbMigration) :
    (inPlace n ms).map (fun x => x.2.id) = ms.map Db.DbMigration.name := by
  induction ms generalizing n with
  | nil => rfl
  | cons m ms ih => rw [inPlace_cons, List.map_cons, List.map_cons, ih]; rfl

theorem placed_inPlace {n : Nat} {ms : List Db.DbMigration}
    (h : ∀ m ∈ ms, Db.ServerName m.name) : Placed (inPlace n ms) where
  key := by
    intro x hx
    obtain ⟨entry, -, rfl⟩ := List.mem_map.mp hx
    rfl
  id := by
    intro x hx
    obtain ⟨entry, hentry, rfl⟩ := List.mem_map.mp hx
    exact h entry.1 (List.fst_mem_of_mem_zipIdx hentry)
  nodup := by
    have hnums : (inPlace n ms).map Prod.fst = (List.range' n ms.length).map (· + 1) := by
      rw [inPlace, List.map_map, ← List.zipIdx_map_snd, List.map_map]
      rfl
    rw [hnums]
    exact List.Nodup.map Nat.succ_injective List.nodup_range'

/-- Each migration of a history stands on the one before it. -/
theorem linked_inPlace {ms : List Db.DbMigration} (h : Db.IsHistory ms) :
    Linked (fun x : Nat × MigrationToText => x.2.parent) (fun x => x.2.id) nullMigration
      (inPlace 0 ms) := by
  have hfollows : ∀ (n : Nat) (p : Text) (ms : List Db.DbMigration),
      Linked Db.DbMigration.parentNames (fun m => [m.name]) [p] ms →
        Linked (fun x : Nat × MigrationToText => x.2.parent) (fun x => x.2.id) p
          (inPlace n ms) := by
    intro n p ms h
    induction ms generalizing n p with
    | nil => trivial
    | cons m ms ih =>
        refine ⟨?_, ih (n + 1) m.name h.2⟩
        show m.parentNames.head?.getD _ = p
        rw [h.1]
        rfl
  cases ms with
  | nil => trivial
  | cons m ms =>
      refine ⟨?_, hfollows 1 m.name ms h.linked.2⟩
      show m.parentNames.head?.getD _ = _
      rw [h.linked.1]
      rfl

/-- The files of a written history, and the names in them. -/
def entries (ds : List (Nat × MigrationToText)) : List Entry :=
  ds.map fun x => ⟨indexFile x, x.2.id, x.2.parent⟩

theorem map_file_entries (ds : List (Nat × MigrationToText)) :
    (entries ds).map Entry.file = ds.map indexFile := by
  rw [entries, List.map_map]
  rfl

theorem map_id_entries (ms : List Db.DbMigration) :
    (entries (inPlace 0 ms)).map Entry.id = ms.map Db.DbMigration.name := by
  rw [entries, List.map_map, ← map_id_inPlace 0]
  rfl

theorem linked_entries {ms : List Db.DbMigration} (h : Db.IsHistory ms) :
    Linked Entry.parent Entry.id nullMigration (entries (inPlace 0 ms)) := by
  refine (linked_inPlace h).of_map ?_ ?_
  · rw [entries, List.map_map]
    rfl
  · rw [entries, List.map_map]
    rfl

theorem fileNum_entries {ms : List Db.DbMigration} (h : ms.length < 2 ^ 64) {i : Nat} {e : Entry}
    (he : (entries (inPlace 0 ms))[i]? = some e) : fileNum e.file.1 = some (i + 1) := by
  rw [entries, List.getElem?_map, getElem?_inPlace, Option.map_map] at he
  obtain ⟨m, hm, rfl⟩ := Option.map_eq_some_iff.mp he
  obtain ⟨hi, -⟩ := List.getElem?_eq_some_iff.mp hm
  show fileNum (indexName (0 + i + 1) m.name) = _
  rw [Nat.zero_add, fileNum_indexName, if_pos (Nat.lt_of_le_of_lt hi h)]

theorem parentName_of_linked {p : Text} {ds : List (Nat × MigrationToText)} (hp : ParentName p)
    (h : Linked (fun x : Nat × MigrationToText => x.2.parent) (fun x => x.2.id) p ds)
    (hid : ∀ x ∈ ds, Db.ServerName x.2.id) : ∀ x ∈ ds, ParentName x.2.parent := by
  induction ds generalizing p with
  | nil => exact fun _ hx => by cases hx
  | cons d ds ih =>
      obtain ⟨hparent, hlinked⟩ := h
      have hparent : d.2.parent = p := hparent
      rw [List.forall_mem_cons] at hid ⊢
      exact ⟨hparent ▸ hp, ih (.inr hid.1) hlinked hid.2⟩

theorem nullMigration_notMem {ids : List Text} (h : ∀ id ∈ ids, Db.ServerName id) :
    nullMigration ∉ ids := by
  intro hmem
  obtain ⟨hash, heq, -⟩ := h _ hmem
  exact absurd (List.cons.inj heq).1 (by decide)

/-! ## A history of two types -/

def createTypes : List Db.DbMigration :=
  [{ name := createType.id
     script := "CREATE TYPE Type1;".toList
     parentNames := []
     generatedBy := none },
    { name := Plain.migrationId createType.id (["CREATE", "TYPE", "Type2", ";"].map String.toList)
      script := "CREATE TYPE Type2;".toList
      parentNames := [createType.id]
      generatedBy := none }]

def createTypesBase : Db.Connection := ⟨"main".toList, true, createTypes.take 1⟩

def createTypesTarget : Db.Connection := ⟨"feature".toList, true, createTypes⟩

theorem isHistory_createTypes : Db.IsHistory createTypes :=
  ⟨⟨rfl, rfl, trivial⟩, by decide +kernel⟩

theorem holds_createTypesBase : Db.Holds createTypesBase (createTypes.take 1) :=
  ⟨⟨⟨rfl, trivial⟩, by decide⟩, List.Perm.refl _⟩

theorem holds_createTypesTarget : Db.Holds createTypesTarget createTypes :=
  ⟨isHistory_createTypes, List.Perm.refl _⟩

theorem serverName_createTypes : ∀ x ∈ createTypes, Db.ServerName x.name := by
  intro x hx
  rcases List.mem_cons.mp hx with rfl | hx
  · exact ⟨_, rfl, by decide, List.all_eq_true.mp (by decide)⟩
  · rw [List.mem_singleton.mp hx]
    exact Plain.serverName_migrationId createType.id
      (["CREATE", "TYPE", "Type2", ";"].map String.toList)

theorem readable_createTypes : ∀ x ∈ inPlace 0 createTypes, Readable Plain.parser true x.2 := by
  have hstatement : ∀ name : Token, name.kind = .ident →
      statement Plain.unquote [⟨.keyword "create".toList, "CREATE".toList⟩,
        ⟨.ident, "TYPE".toList⟩, name, ⟨.semicolon, ";".toList⟩] = .ok (.ignored, []) := by
    rintro ⟨kind, text⟩ rfl
    rfl
  intro x hx
  rcases List.mem_cons.mp hx with rfl | hx
  · exact ⟨createTypeTokens, rfl, ⟨_, none, .cons (hstatement _ rfl) .nil, rfl⟩, fun _ => rfl⟩
  · rw [List.mem_singleton.mp hx]
    exact ⟨_, rfl, ⟨_, none, .cons (hstatement ⟨.ident, "Type2".toList⟩ rfl) .nil, rfl⟩, fun _ => rfl⟩

/-- The directory of the base, with its file under a given name. -/
def createTypesDir (name : Text) : Dir := Dict.empty.set name createType.text

theorem readAll_createTypesDir (validate : Bool) (name : Text)
    (h : name = "00001.edgeql".toList ∨ name = "00001-m1q3jjf.edgeql".toList) :
    ∃ files, readAll Plain.parser validate (createTypesDir name) = .ok files ∧
      files.keys = (createTypes.take 1).map Db.DbMigration.name := by
  have hkeys : (readAll Plain.parser validate (createTypesDir name)).toOption.map Dict.keys =
      some ((createTypes.take 1).map Db.DbMigration.name) := by
    rcases h with rfl | rfl
    · cases validate <;> decide +kernel
    · cases validate <;> decide +kernel
  obtain ⟨files, hfiles, hnames⟩ := Option.map_eq_some_iff.mp hkeys
  exact ⟨files, toOption_eq_some.mp hfiles, hnames⟩

end GelCli.Migrations
