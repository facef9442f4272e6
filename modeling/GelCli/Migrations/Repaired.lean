import GelCli.Migrations.FixIds
import GelCli.Migrations.WrittenNames

/-!
# Directories that are repaired

The body of a file moves when its parent is replaced by a name of another length, but
its range stays. Whether new ids repair a directory depends on what is cut out there.
-/

namespace GelCli.Migrations.FixIds

open GelCli.Foundation Files

variable {E : EdgeqlParser}

/-! ## One file -/

section File

variable {data data' : Files.Migration} {text text' parent id : Text}

/-- The id of a text with the same body. -/
theorem expectedId_of_slice (hE : Lawful E) (hparse : parseMigration E text = .ok data)
    (hslice : Text.slice text' data'.textRange.1 data'.textRange.2 =
      Text.slice text data.textRange.1 data.textRange.2) :
    data'.expectedId E text' = .ok (E.migrationId data'.parentId (bodyTexts E data text)) := by
  obtain ⟨-, js, -, ⟨body, hbody, hjs⟩, -⟩ := bodyTokens_of_parseMigration hE hparse
  have htokens : BodyTokens E text' data' js := ⟨body, hslice.trans hbody, hjs⟩
  have htexts : bodyTexts E data text = js.map Token.text := by
    rw [bodyTexts, hbody, Option.map_some, hjs]
  rw [htokens.expectedId, htexts]

theorem serverName_of_expectedId (hE : Lawful E) (h : data.expectedId E text = .ok id) :
    Db.ServerName id := by
  rw [Files.Migration.expectedId] at h
  cases hslice : sliceOrPanic text data.textRange with
  | error e =>
      rw [hslice] at h
      cases h
  | ok txt =>
      rw [hslice] at h
      simp only [bind, Except.bind, hashSource] at h
      split at h
      · rw [← Except.ok.inj h]
        exact hE.migrationId _ _
      · cases h

/-- A new parent is the old one or an id. -/
def Follower (parent : Text) (data : Files.Migration) : Prop :=
  parent = data.parentId ∨ Db.ServerName parent

/-- What is read back says that the id is the right one. -/
theorem Rewritten.of_read (hE : Lawful E) (hparse : parseMigration E text = .ok data)
    (hparent : Follower parent data) (h : Rewritten E data text parent id text')
    (hread : readFile E true text' = .ok data') :
    Renamable E data text parent ∧ id = E.migrationId parent (bodyTexts E data text) ∧
      data'.id = id ∧ data'.parentId = parent := by
  obtain ⟨f, hf⟩ := exists_shape hE hparse
  obtain ⟨moved, hmoved, hid, htext⟩ := h
  obtain rfl := Except.ok.inj ((hf.replaceParentId_eq parent).symm.trans hmoved)
  obtain rfl := Except.ok.inj ((hf.replaceId_eq id parent).symm.trans htext)
  have hnames : f.Renames id parent :=
    ⟨.inr (serverName_of_expectedId hE hid), hparent.imp_left fun h => h.trans hf.parentId⟩
  obtain ⟨hparse', hvalid⟩ := readFile_eq_ok.mp hread
  have hapart : f.Apart id parent := by
    by_contra hjoined
    exact hf.not_parse_named hE hnames hjoined data' hparse'
  obtain ⟨named, hnamed, hid', hparent', hslice⟩ := hf.parse_named hE hparse hnames hapart
  obtain rfl := Except.ok.inj (hnamed.symm.trans hparse')
  have hexpected := (validateText_eq_ok (hid' ▸ serverName_of_expectedId hE hid)).mp (hvalid rfl)
  rw [expectedId_of_slice hE hparse hslice, hid', hparent'] at hexpected
  have hright := (Except.ok.inj hexpected).symm
  refine ⟨⟨fun f' hlex => ?_, _, hmoved, hright ▸ hid⟩, hright, hid', hparent'⟩
  rw [hf.unique hlex, ← hright]
  exact hapart

/-- A file whose names can be replaced is read back. -/
theorem Renamable.rewritten (hE : Lawful E) (hparse : parseMigration E text = .ok data)
    (hparent : Follower parent data) (h : Renamable E data text parent) :
    ∃ text' data', Rewritten E data text parent
        (E.migrationId parent (bodyTexts E data text)) text' ∧
      readFile E true text' = .ok data' ∧
      data'.id = E.migrationId parent (bodyTexts E data text) ∧ data'.parentId = parent ∧
      Text.slice text' data'.textRange.1 data'.textRange.2 =
        Text.slice text data.textRange.1 data.textRange.2 := by
  obtain ⟨f, hf⟩ := exists_shape hE hparse
  obtain ⟨moved, hmoved, hid⟩ := h.cut
  obtain rfl := Except.ok.inj ((hf.replaceParentId_eq parent).symm.trans hmoved)
  have hserver : Db.ServerName (E.migrationId parent (bodyTexts E data text)) :=
    hE.migrationId _ _
  have hnames : f.Renames (E.migrationId parent (bodyTexts E data text)) parent :=
    ⟨.inr hserver, hparent.imp_left fun h => h.trans hf.parentId⟩
  obtain ⟨data', hparse', hid', hparent', hslice⟩ :=
    hf.parse_named hE hparse hnames (h.apart f hf.lex)
  refine ⟨_, data', ⟨_, hmoved, hid, hf.replaceId_eq _ parent⟩,
    readFile_eq_ok.mpr ⟨hparse', fun _ => ?_⟩, hid', hparent', hslice⟩
  rw [validateText_eq_ok (hid' ▸ hserver), expectedId_of_slice hE hparse hslice, hparent', hid']

/-- A parent of the same length leaves the body where it was. -/
theorem Renamable.of_byteLen (hE : Lawful E) (hparse : parseMigration E text = .ok data)
    (hapart : ∀ f : Headed, E.lex text = .ok f.lexed →
      f.Apart (E.migrationId parent (bodyTexts E data text)) parent)
    (hlen : Text.byteLen parent = Text.byteLen data.parentId) : Renamable E data text parent := by
  obtain ⟨f, hf⟩ := exists_shape hE hparse
  exact ⟨hapart, _, hf.replaceParentId_eq parent,
    expectedId_of_slice hE hparse (hf.slice_named hparse hlen)⟩

end File

/-! ## Files on top of each other -/

section Files

variable {dir : Dir}

theorem contents_cons {file : Files.MigrationFile} {order : List Files.MigrationFile} {text : Text}
    (htext : dir.get file.path = some text) :
    contents dir (file :: order) = (file.data, text) :: contents dir order := by
  rw [contents, List.map_cons, htext]
  rfl

/-- The first of the files can be put on `parent`. -/
def FirstFollower (parent : Text) (order : List Files.MigrationFile) : Prop :=
  ∀ file ∈ order.head?, Follower parent file.data

/-- Files that are read back have the right ids, and their names could be replaced. -/
theorem AllRewritten.of_read (hE : Lawful E) {order order' : List Files.MigrationFile}
    {parent : Text} {out : List (Text × Text)} (hfrom : ∀ file ∈ order, ReadFrom E dir file)
    (hfirst : FirstFollower parent order) (h : AllRewritten E parent (contents dir order) out)
    (hread : List.Forall₂ (ReadAs E true) ((order.map (·.path)).zip (out.map Prod.snd)) order') :
    AllRenamable E parent (contents dir order) ∧
      newIds E parent (contents dir order) = order'.map (·.data.id) := by
  induction order generalizing parent out order' with
  | nil =>
      cases hread
      exact ⟨trivial, rfl⟩
  | cons file order ih =>
      obtain ⟨text, htext, hparse⟩ := hfrom file List.mem_cons_self
      rw [contents_cons htext] at h ⊢
      cases h with
      | @cons _ id _ text' _ _ out hfile hfiles =>
          cases hread with
          | @cons _ file' _ order' hreadFile hread =>
              obtain ⟨hrenamable, rfl, hid, -⟩ :=
                hfile.of_read hE hparse (hfirst file rfl) hreadFile.data
              have hrest := fun other hother => hfrom other (List.mem_cons_of_mem _ hother)
              obtain ⟨hall, hids⟩ :=
                ih hrest (fun _ _ => .inr (hE.migrationId _ _)) hfiles hread
              refine ⟨⟨hrenamable, hall⟩, ?_⟩
              rw [newIds, hids, List.map_cons, hid]

/-- Files whose names can be replaced are read back. -/
theorem AllRenamable.rewritten (hE : Lawful E) {order : List Files.MigrationFile} {parent : Text}
    (hfrom : ∀ file ∈ order, ReadFrom E dir file) (hfirst : FirstFollower parent order)
    (h : AllRenamable E parent (contents dir order)) :
    ∃ out order', AllRewritten E parent (contents dir order) out ∧
      List.Forall₂ (ReadAs E true) ((order.map (·.path)).zip (out.map Prod.snd)) order' ∧
      order'.map (·.data.id) = newIds E parent (contents dir order) ∧
      Files.Follows parent order' ∧ order'.map (·.path) = order.map (·.path) ∧
      ∀ dir' : Dir, (∀ w ∈ (order.map (·.path)).zip (out.map Prod.snd), dir'.get w.1 = some w.2) →
        order'.map (body dir') = order.map (body dir) := by
  induction order generalizing parent with
  | nil => exact ⟨[], [], .nil, .nil, rfl, trivial, rfl, fun _ _ => rfl⟩
  | cons file order ih =>
      obtain ⟨text, htext, hparse⟩ := hfrom file List.mem_cons_self
      rw [contents_cons htext] at h ⊢
      obtain ⟨hfile, hfiles⟩ := h
      obtain ⟨text', data', hrewritten, hread, hid, hparent, hslice⟩ :=
        hfile.rewritten hE hparse (hfirst file rfl)
      obtain ⟨out, order', hout, hforall, hids, hfollows, hpaths, hbodies⟩ :=
        ih (fun other hother => hfrom other (List.mem_cons_of_mem _ hother))
          (fun _ _ => .inr (hE.migrationId _ _)) hfiles
      refine ⟨_ :: out, ⟨file.path, none, data'⟩ :: order', .cons hrewritten hout,
        .cons ⟨rfl, rfl, hread⟩ hforall, ?_, ⟨hparent, ?_⟩, ?_, fun dir' hdir' => ?_⟩
      · rw [List.map_cons, hids, newIds]
        exact congrArg (· :: _) hid
      · show Files.Follows data'.id order'
        rw [hid]
        exact hfollows
      · rw [List.map_cons, List.map_cons, hpaths]
      · have hbody : body dir' ⟨file.path, none, data'⟩ = body dir file := by
          have hget := hdir' (file.path, text') List.mem_cons_self
          rw [body, body, htext, hget]
          exact hslice
        rw [List.map_cons, List.map_cons, hbody,
          hbodies dir' fun w hw => hdir' w (List.mem_cons_of_mem _ hw)]

end Files

/-! ## Directories -/

section Directories

variable {dir : Dir}

theorem mem_listed {name text : Text} :
    (name, text) ∈ listed dir ↔ dir.get name = some text ∧ migrationName name = true := by
  rw [listed, List.mem_filter, Dict.get_eq_some]

theorem get_writeTexts_of_not_mem {written : List (Text × Text)} {name : Text}
    (h : name ∉ written.map Prod.fst) : (writeTexts dir written).get name = dir.get name := by
  induction written generalizing dir with
  | nil => rfl
  | cons w written ih =>
      rw [List.map_cons, List.mem_cons, not_or] at h
      rw [writeTexts, List.foldl_cons]
      exact (ih h.2).trans (by rw [Dict.get_set, if_neg h.1])

theorem get_writeTexts {written : List (Text × Text)} (hnodup : (written.map Prod.fst).Nodup)
    {name text : Text} (h : (name, text) ∈ written) :
    (writeTexts dir written).get name = some text := by
  induction written generalizing dir with
  | nil => cases h
  | cons w written ih =>
      rw [List.map_cons, List.nodup_cons] at hnodup
      rw [writeTexts, List.foldl_cons]
      rcases List.mem_cons.mp h with rfl | h
      · refine (get_writeTexts_of_not_mem hnodup.1).trans ?_
        rw [Dict.get_set, if_pos rfl]
      · exact ih hnodup.2 h

theorem keys_writeTexts {written : List (Text × Text)} (h : ∀ w ∈ written, w.1 ∈ dir.keys) :
    (writeTexts dir written).keys = dir.keys := by
  induction written generalizing dir with
  | nil => rfl
  | cons w written ih =>
      rw [List.forall_mem_cons] at h
      have hkeys := Dict.keys_set_of_mem (v := w.2) h.1
      rw [writeTexts, List.foldl_cons]
      exact (ih (by rw [hkeys]; exact h.2)).trans hkeys

/-- All files of a directory are written anew. -/
theorem listed_writeTexts {written : List (Text × Text)}
    (h : (written.map Prod.fst).Perm (readNames dir)) :
    written.Perm (listed (writeTexts dir written)) := by
  have hnodup : (written.map Prod.fst).Nodup := by
    rw [readNames_eq] at h
    exact h.nodup_iff.mpr (nodup_listed dir)
  have hkeys : (writeTexts dir written).keys = dir.keys :=
    keys_writeTexts fun w hw =>
      List.mem_of_mem_filter (h.subset (List.mem_map_of_mem hw))
  refine (List.perm_ext_iff_of_nodup (List.Nodup.of_map _ hnodup)
    (List.Nodup.of_map _ (nodup_listed _))).mpr ?_
  rintro ⟨name, text⟩
  rw [mem_listed]
  constructor
  · intro hmem
    have hname := h.subset (List.mem_map_of_mem hmem)
    exact ⟨get_writeTexts hnodup hmem, (List.mem_filter.mp hname).2⟩
  · rintro ⟨hget, hname⟩
    have hkey : name ∈ (writeTexts dir written).keys := Dict.mem_keys_iff.mpr ⟨text, hget⟩
    rw [hkeys] at hkey
    obtain ⟨⟨_, text'⟩, hmem, rfl⟩ :=
      List.mem_map.mp (h.symm.subset (List.mem_filter.mpr ⟨hkey, hname⟩))
    have hsame := (get_writeTexts hnodup hmem).symm.trans hget
    rwa [Option.some.inj hsame] at hmem

/-- The loop leaves the names of the files as they are. -/
theorem keys_fixLoop (s : FixState) (items : List (Text × Files.MigrationFile)) :
    (fixLoop E s items).1.dir.keys = s.dir.keys := by
  induction items generalizing s with
  | nil => rfl
  | cons item items ih =>
      rw [fixLoop]
      cases hturn : fixTurn E s item with
      | error e => rfl
      | ok t =>
          refine (ih t).trans ?_
          rw [fixTurn] at hturn
          split at hturn
          · cases hturn
          · next text htext =>
            split at hturn
            · cases hturn
            · cases hturn
              exact Dict.keys_set_of_mem (Dict.mem_keys_iff.mpr ⟨text, htext⟩)

/-- In a directory whose result is a chain no file is hidden by another one. -/
theorem length_items_of_follows {validate : Bool} {files : List (Text × Text)}
    {order : List Files.MigrationFile} (hchain : Chain E validate files order)
    (hfollows : Files.Follows nullMigration (values (order.foldl store .empty))) :
    (order.foldl store .empty).items.length = order.length := by
  obtain ⟨hkeysLe, hlen⟩ := hchain.keys_store
  have hle := hkeysLe.length_le
  rw [List.length_map] at hle
  rw [Dict.keys, List.length_map] at hle hlen
  by_contra hhidden
  rcases List.eq_nil_or_concat' order with rfl | ⟨front, last, rfl⟩
  · exact hhidden rfl
  · generalize hres : (front ++ [last]).foldl store .empty = res at *
    have hlength : res.items.length = front.length := by
      rw [List.length_append, List.length_singleton] at hle hlen hhidden
      exact Nat.le_antisymm (Nat.le_of_lt_succ (Nat.lt_of_le_of_ne hle hhidden))
        (Nat.le_of_succ_le_succ hlen)
    -- the entries have the ids of the files before the last one
    have hkeys : res.keys = front.map (·.data.id) := by
      rw [List.map_append] at hkeysLe
      have hkeysLen : res.keys.length = (front.map (·.data.id)).length := by
        rw [Dict.keys, List.length_map, hlength, List.length_map]
      exact (List.prefix_of_prefix_length_le hkeysLe (List.prefix_append _ _)
        hkeysLen.le).eq_of_length hkeysLen
    have hids : (values res).map (·.data.id) = front.map (·.data.id) := by
      rw [← hkeys, Dict.keys, values, List.map_map]
      refine List.map_congr_left fun item hitem => ?_
      rw [← hres] at hitem
      exact ((Chain.mem_items_foldl_store hitem).resolve_left (fun h => by cases h)).2.symm
    have hparents : (values res).map (·.data.parentId) = front.map (·.data.parentId) :=
      Linked.map_parent_eq hfollows (linked_append.mp hchain.follows).1 hids
    -- the last file is one of the entries
    have hlast : last ∈ values res := by
      have hget : res.get last.data.id = some last := by
        rw [← hres, List.foldl_append]
        exact (Dict.get_set _ _ _ _).trans (if_pos rfl)
      exact List.mem_map.mpr ⟨_, Dict.get_eq_some.mp hget, rfl⟩
    have hnodup := hchain.parents
    rw [List.map_append, List.nodup_append'] at hnodup
    refine hnodup.2.2 ?_ (List.mem_singleton_self last.data.parentId)
    rw [← hparents]
    exact List.mem_map_of_mem hlast

theorem newIds_serverName (hE : Lawful E) {parent : Text} {files : List (Files.Migration × Text)} :
    ∀ id ∈ newIds E parent files, Db.ServerName id := by
  induction files generalizing parent with
  | nil => exact fun id hid => by cases hid
  | cons file files ih =>
      obtain ⟨data, text⟩ := file
      rw [newIds, List.forall_mem_cons]
      exact ⟨hE.migrationId _ _, ih⟩

/-- The new texts of all files. -/
theorem map_fst_written {order : List Files.MigrationFile} {out : List (Text × Text)}
    (hout : AllRewritten E nullMigration (contents dir order) out) :
    ((order.map (·.path)).zip (out.map Prod.snd)).map Prod.fst = order.map (·.path) := by
  refine List.map_fst_zip ?_
  rw [List.length_map, List.length_map, ← hout.length_eq, contents, List.length_map]

/-- What is known of a directory in which no file is hidden. -/
structure Unhidden (E : EdgeqlParser) (dir : Dir) (before : FileMap)
    (files : List (Text × Text)) (order : List Files.MigrationFile) : Prop where
  perm : files.Perm (listed dir)
  chain : Chain E false files order
  nodup : (order.map (·.data.id)).Nodup
  items : before.items = order.map fun file => (file.data.id, file)

theorem exists_unhidden {before : FileMap} (h : readAll E false dir = .ok before)
    (hdistinct : before.items.length = (listed dir).length) :
    ∃ files order, Unhidden E dir before files order := by
  obtain ⟨files, order, hperm, hchain, rfl⟩ := readAll_eq_ok.mp h
  have hkeys := hchain.keys_eq (by rw [hperm.length_eq, ← hdistinct, Dict.keys, List.length_map])
  have hnodup : (order.map (·.data.id)).Nodup := hkeys ▸ (order.foldl store .empty).nodup
  exact ⟨files, order, hperm, hchain, hnodup, Collection.items_foldl_store hnodup⟩

namespace Unhidden

variable {before : FileMap} {files : List (Text × Text)} {order : List Files.MigrationFile}

theorem values_eq (h : Unhidden E dir before files order) : values before = order := by
  rw [values, h.items, List.map_map]
  exact List.map_id order

theorem map_path (h : Unhidden E dir before files order) :
    order.map (·.path) = files.map Prod.fst := by
  refine List.ext_getElem (by simp [h.chain.length_eq]) fun i hi hi' => ?_
  rw [List.length_map] at hi hi'
  rw [List.getElem_map, List.getElem_map]
  exact (h.chain.read.get hi' hi).path

theorem paths_perm (h : Unhidden E dir before files order) :
    (order.map (·.path)).Perm (readNames dir) := by
  rw [h.map_path, readNames_eq]
  exact h.perm.map _

theorem paths_nodup (h : Unhidden E dir before files order) : (order.map (·.path)).Nodup := by
  have hperm := h.paths_perm
  rw [readNames_eq] at hperm
  exact hperm.nodup_iff.mpr (nodup_listed dir)

theorem readFrom (h : Unhidden E dir before files order) : ∀ file ∈ order, ReadFrom E dir file := by
  intro file hfile
  obtain ⟨i, hi, rfl⟩ := List.mem_iff_getElem.mp hfile
  have hi' : i < files.length := h.chain.length_eq ▸ hi
  have hread := h.chain.read.get hi' hi
  have hmem := mem_listed.mp (h.perm.subset (List.getElem_mem hi'))
  exact ⟨_, hread.path ▸ hmem.1, (readFile_eq_ok.mp hread.data).1⟩

theorem firstFollower (h : Unhidden E dir before files order) :
    FirstFollower nullMigration order := by
  intro file hfile
  have hfollows := h.chain.follows
  cases order with
  | nil => cases hfile
  | cons first order =>
      cases hfile
      exact .inl hfollows.1.symm

/-- What the loop does to the directory. -/
theorem fixMigrationIds_eq_ok (hE : Lawful E) (h : Unhidden E dir before files order)
    (hread : readAll E false dir = .ok before) {dir' : Dir} :
    (∃ changed, fixMigrationIds E dir = (dir', .ok changed)) ↔
      ∃ out, AllRewritten E nullMigration (contents dir order) out ∧
        dir' = writeTexts dir ((order.map (·.path)).zip (out.map Prod.snd)) := by
  have hloop : ∀ s', fixLoop E ⟨dir, .empty⟩ before.items = (s', .ok ()) ↔
      ∃ out, AllRewritten E nullMigration (contents dir order) out ∧
        s'.dir = writeTexts dir ((order.map (·.path)).zip (out.map Prod.snd)) ∧
        s'.changedIds = changes .empty ((order.map (·.data.id)).zip (out.map Prod.fst)) := by
    intro s'
    rw [h.items]
    exact fixLoop_eq_ok hE h.readFrom h.paths_nodup h.nodup h.chain.follows fun _ _ => rfl
  have hfix : fixMigrationIds E dir = ((fixLoop E ⟨dir, .empty⟩ before.items).1.dir,
      (fixLoop E ⟨dir, .empty⟩ before.items).2.map
        fun _ => (fixLoop E ⟨dir, .empty⟩ before.items).1.changedIds) := by
    rw [fixMigrationIds, hread]
  rw [hfix]
  constructor
  · rintro ⟨changed, hchanged⟩
    obtain ⟨hdir, hresult⟩ := Prod.mk.inj hchanged
    cases hend : fixLoop E ⟨dir, .empty⟩ before.items with
    | mk s result =>
        rw [hend] at hdir hresult
        cases result with
        | error e => cases hresult
        | ok u =>
            obtain ⟨out, hout, hwritten, -⟩ := (hloop s).mp hend
            exact ⟨out, hout, hdir.symm.trans hwritten⟩
  · rintro ⟨out, hout, rfl⟩
    have hend := (hloop ⟨_, _⟩).mpr ⟨out, hout, rfl, rfl⟩
    rw [hend]
    exact ⟨_, rfl⟩

end Unhidden

/-- Whatever ends the loop, the same files are there. -/
theorem length_listed_fixMigrationIds (dir : Dir) :
    (listed (fixMigrationIds E dir).1).length = (listed dir).length := by
  have hkeys : (fixMigrationIds E dir).1.keys = dir.keys := by
    rw [fixMigrationIds]
    cases readAll E false dir with
    | error e => rfl
    | ok migrations => exact keys_fixLoop _ _
  have hnames : readNames (fixMigrationIds E dir).1 = readNames dir := by
    rw [readNames, readNames, hkeys]
  rw [readNames_eq, readNames_eq] at hnames
  simpa using congrArg List.length hnames

/-- **New ids repair a directory** iff no id stands in two of its files, the new ids are
different, and the names can be replaced. -/
theorem fixMigrationIds_repairs_iff (hE : Lawful E) {before : FileMap}
    (h : readAll E false dir = .ok before) :
    (∃ dir' changed, fixMigrationIds E dir = (dir', .ok changed) ∧ Repairs E dir dir' before) ↔
      Repairable E dir before := by
  constructor
  · rintro ⟨dir', changed, hfix, after, hread, hbodies, hfollows⟩
    obtain ⟨files', order', hperm', hchain', rfl⟩ := readAll_eq_ok.mp hread
    have hlisted : (listed dir').length = (listed dir).length := by
      rw [← @length_listed_fixMigrationIds E dir, hfix]
    have hitems := length_items_of_follows hchain' hfollows
    have hcount : before.items.length = order'.length := by
      have hlen := congrArg List.length hbodies
      simp only [values, List.length_map] at hlen
      exact hlen.symm.trans hitems
    have hdistinct : before.items.length = (listed dir).length := by
      rw [hcount, ← hchain'.length_eq, hperm'.length_eq, hlisted]
    obtain ⟨files, order, hu⟩ := exists_unhidden h hdistinct
    obtain ⟨out, hout, rfl⟩ := (hu.fixMigrationIds_eq_ok hE h).mp ⟨changed, hfix⟩
    have hfst := map_fst_written hout
    have hwritten := listed_writeTexts (hfst ▸ hu.paths_perm)
    -- the files of the chain that is read are the ones that were written
    have hfiles : files' = (order.map (·.path)).zip (out.map Prod.snd) := by
      refine hchain'.files_eq (fun w hw => hperm'.symm.subset (hwritten.subset hw))
        (fun i w hw => ?_) (by rw [hperm'.length_eq, hwritten.length_eq])
      have hpath := congrArg (fun names : List Text => names[i]?) hfst
      simp only [List.getElem?_map, hw, Option.map_some] at hpath
      obtain ⟨file, hfile, hname⟩ := Option.map_eq_some_iff.mp hpath.symm
      rw [← hname, hu.chain.numbered.fileNum hfile, Nat.add_comm]
    obtain ⟨hall, hids⟩ := hout.of_read hE hu.readFrom hu.firstFollower (hfiles ▸ hchain'.read)
    rw [← hu.values_eq] at hall hids
    refine ⟨hdistinct, ?_, hall⟩
    have hkeys := hchain'.keys_eq (by
      rw [hchain'.length_eq, ← hitems, Dict.keys, List.length_map])
    rw [hids, ← hkeys]
    exact (order'.foldl store .empty).nodup
  · rintro ⟨hdistinct, hfresh, hall⟩
    obtain ⟨files, order, hu⟩ := exists_unhidden h hdistinct
    rw [hu.values_eq] at hfresh hall
    obtain ⟨out, order', hout, hread, hids, hfollows, hpaths, hbodies⟩ :=
      hall.rewritten hE hu.readFrom hu.firstFollower
    obtain ⟨changed, hfix⟩ := (hu.fixMigrationIds_eq_ok hE h).mpr ⟨out, hout, rfl⟩
    have hfst := map_fst_written hout
    have hwritten := listed_writeTexts (hfst ▸ hu.paths_perm)
    have hnames : ∀ id ∈ newIds E nullMigration (contents dir order), Db.ServerName id :=
      newIds_serverName hE
    rw [← hids] at hfresh hnames
    have hparents : (order'.map (·.data.parentId)).Nodup := by
      rcases List.eq_nil_or_concat' order' with rfl | ⟨front, last, rfl⟩
      · exact List.nodup_nil
      · rw [hfollows.map_parent, List.nodup_cons]
        rw [List.map_append] at hfresh hnames
        exact ⟨nullMigration_notMem fun id hid => hnames id (List.mem_append_left _ hid),
          (List.nodup_append.mp hfresh).1⟩
    have hnumbered : Files.Numbered 1 order' := by
      refine numbered_iff.mpr fun i m hm => ?_
      have hpath := congrArg (fun names : List Text => names[i]?) hpaths
      simp only [List.getElem?_map, hm, Option.map_some] at hpath
      obtain ⟨file, hfile, hname⟩ := Option.map_eq_some_iff.mp hpath.symm
      rw [← hname]
      exact hu.chain.numbered.fileNum hfile
    have hvalues : values (order'.foldl store .empty) = order' := by
      rw [values, Collection.items_foldl_store hfresh, List.map_map]
      exact List.map_id order'
    refine ⟨_, changed, hfix, _, readAll_eq_ok.mpr
      ⟨_, order', hwritten, ⟨hread, hparents, hfollows, hnumbered⟩, rfl⟩, ?_, ?_⟩
    · rw [hvalues, hu.values_eq]
      refine hbodies _ fun w hw => get_writeTexts ?_ hw
      rw [hfst]
      exact hu.paths_nodup
    · rw [hvalues]
      exact hfollows

/-- A file under the id of another one. -/
def misnamed : Text :=
  MigrationToText.text { createType with
    id := "m1g3qzqdr57pp3w2mdwdkq4g7dq4oefawqdavzgeiov7fiwntpb3lq".toList }

def misnamedDir : Dir := Dict.empty.set "00001.edgeql".toList misnamed

/-- A directory of one file gets its id. -/
theorem fixMigrationIds_misnamed : ∃ before, readAll Plain.parser false misnamedDir = .ok before ∧
    ∃ dir' changed, fixMigrationIds Plain.parser misnamedDir = (dir', .ok changed) ∧
      Repairs Plain.parser misnamedDir dir' before := by
  have hitems : (readAll Plain.parser false misnamedDir).toOption.map values =
      ((parseMigration Plain.parser misnamed).toOption.map fun data =>
        [⟨"00001.edgeql".toList, none, data⟩]) := by decide +kernel
  have hparent : (parseMigration Plain.parser misnamed).toOption.map
      Files.Migration.parentId = some nullMigration := by decide +kernel
  have hgaps : (Plain.parser.lex misnamed).toOption.map
      (fun l => ((l.lexemes.drop 2).take 3).map Lexeme.gap) =
        some [[' '], "\n    ".toList, [' ']] := by decide +kernel
  obtain ⟨data, hdata, hnull⟩ := Option.map_eq_some_iff.mp hparent
  rw [hdata, Option.map_some, Option.map_eq_some_iff] at hitems
  obtain ⟨before, hbefore, hvalues⟩ := hitems
  have hparse := toOption_eq_some.mp hdata
  have hread := toOption_eq_some.mp hbefore
  have hcontents : contents misnamedDir (values before) = [(data, misnamed)] := by
    rw [hvalues]
    rfl
  refine ⟨before, hread, (fixMigrationIds_repairs_iff Plain.lawful hread).mpr ⟨?_, ?_, ?_⟩⟩
  · have hlen := congrArg List.length hvalues
    rwa [values, List.length_map] at hlen
  · rw [hcontents]
    exact List.nodup_singleton _
  · rw [hcontents]
    refine ⟨.of_byteLen Plain.lawful hparse (fun f hlex => ?_) (by rw [hnull]), trivial⟩
    rw [hlex] at hgaps
    obtain ⟨hid, honto, hgap⟩ : f.id.gap = [' '] ∧ f.onto.gap = "\n    ".toList ∧
        f.parent.gap = [' '] := by simpa [Headed.lexed, Headed.head] using Option.some.inj hgaps
    exact ⟨fun _ => ⟨hid ▸ List.cons_ne_nil _ _, honto ▸ List.cons_ne_nil _ _⟩,
      fun _ => hgap ▸ List.cons_ne_nil _ _⟩

/-- A file under a name that is longer than an id, and one on top of it. -/
def longNamedDir : Dir :=
  (Dict.empty.set "00001.edgeql".toList (MigrationToText.text { createType with
    id := "the_first_migration_under_a_name_that_is_longer_than_an_id".toList })).set
      "00002.edgeql".toList (MigrationToText.text
        { key := .index 2
          parent := "the_first_migration_under_a_name_that_is_longer_than_an_id".toList
          id := "the_second_migration".toList
          statements := ["CREATE TYPE Type2;".toList] })

/-- The range of the second body is behind the end of the text with the new parent. -/
theorem not_fixMigrationIds_repairs : ¬ ∀ (E : EdgeqlParser) (dir : Dir) (before : FileMap),
    Lawful E → readAll E false dir = .ok before →
      ∃ dir' changed, fixMigrationIds E dir = (dir', .ok changed) ∧ Repairs E dir dir' before := by
  intro h
  have hread : (readAll Plain.parser false longNamedDir).toOption.isSome := by decide +kernel
  obtain ⟨before, hbefore⟩ := Option.isSome_iff_exists.mp hread
  obtain ⟨dir', changed, hfix, -⟩ :=
    h Plain.parser longNamedDir before Plain.lawful (toOption_eq_some.mp hbefore)
  have hfails : (fixMigrationIds Plain.parser longNamedDir).2.toOption.isNone := by decide +kernel
  rw [hfix] at hfails
  cases hfails

end Directories

end GelCli.Migrations.FixIds
