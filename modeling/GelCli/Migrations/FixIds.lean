import GelCli.Migrations.ReadDirectory
import GelCli.Migrations.RenamedText

/-!
# New ids for a directory

`fix_migration_ids` of `src/migrations/rebase.rs`. The files are rewritten in place one
after another, each with the new id of the file before it as its parent.
-/

namespace GelCli.Migrations.FixIds

open GelCli.Foundation Files

inductive FixError where
  | read (e : ReadError)
  | missing (path : Text)
  | file (path : Text) (e : FileError)
deriving DecidableEq, Repr

/-- The directory and `changed_ids`. -/
structure FixState where
  dir : Dir
  changedIds : Dict Text Text

section Model

variable (E : EdgeqlParser)

/-- The parent comes first, it is a part of the hash. -/
def changeParent (changedIds : Dict Text Text) (data : Files.Migration) (text : Text) :
    Except FileError (Files.Migration × Text) :=
  match changedIds.get data.parentId with
  | none => .ok (data, text)
  | some newParentId => do
      let text ← data.replaceParentId text newParentId
      .ok ({ data with parentId := newParentId }, text)

/-- What is written to a file, and `changed_ids` behind it. -/
def fixText (changedIds : Dict Text Text) (id : Text) (data : Files.Migration) (text : Text) :
    Except FileError (Text × Dict Text Text) := do
  let (data, text) ← changeParent changedIds data text
  let expectedId ← data.expectedId E text
  if id ≠ expectedId then do
    let text ← data.replaceId text expectedId
    .ok (text, changedIds.set id expectedId)
  else .ok (text, changedIds)

/-- One turn of the loop. -/
def fixTurn (s : FixState) (item : Text × Files.MigrationFile) : Except FixError FixState :=
  match s.dir.get item.2.path with
  | none => .error (.missing item.2.path)
  | some text =>
      match fixText E s.changedIds item.1 item.2.data text with
      | .error e => .error (.file item.2.path e)
      | .ok (text, changedIds) => .ok ⟨s.dir.set item.2.path text, changedIds⟩

/-- The directory as it is left, and what ends the loop. -/
def fixLoop : FixState → List (Text × Files.MigrationFile) → FixState × Except FixError Unit
  | s, [] => (s, .ok ())
  | s, item :: items =>
      match fixTurn E s item with
      | .error e => (s, .error e)
      | .ok t => fixLoop t items

/-- `fix_migration_ids` with the ids that are passed to `on_update`, old and new. -/
def fixMigrationIds (dir : Dir) : Dir × Except FixError (Dict Text Text) :=
  match readAll E false dir with
  | .error e => (dir, .error (.read e))
  | .ok migrations =>
      let (s, result) := fixLoop E ⟨dir, .empty⟩ migrations.items
      (s.dir, result.map fun _ => s.changedIds)

end Model

/-! ## What it is for -/

section Purpose

variable (E : EdgeqlParser)

def values (migrations : FileMap) : List Files.MigrationFile := migrations.items.map Prod.snd

/-- What stands between the braces of a file. -/
def body (dir : Dir) (file : Files.MigrationFile) : Option Text :=
  (dir.get file.path).bind fun text =>
    Text.slice text file.data.textRange.1 file.data.textRange.2

/-- The same bodies in the same order, each file on top of the one before it, under ids
that are the hashes of the files. -/
def Repairs (dir dir' : Dir) (before : FileMap) : Prop :=
  ∃ after, readAll E true dir' = .ok after ∧
    (values after).map (body dir') = (values before).map (body dir) ∧
    Files.Follows nullMigration (values after)

/-- The texts of the tokens that are hashed. -/
def bodyTexts (data : Files.Migration) (text : Text) : List Text :=
  match (Text.slice text data.textRange.1 data.textRange.2).map E.tokens with
  | some (.ok ts) => ts.map Token.text
  | _ => []

/-- The ids of bodies on top of each other. -/
def newIds : Text → List (Files.Migration × Text) → List Text
  | _, [] => []
  | parent, (data, text) :: files =>
      E.migrationId parent (bodyTexts E data text) ::
        newIds (E.migrationId parent (bodyTexts E data text)) files

/-- The names can be replaced: they join no word, and the range that was the one of the
body gives the same id once the parent is replaced. -/
structure Renamable (data : Files.Migration) (text parent : Text) : Prop where
  apart : ∀ f : Headed, E.lex text = .ok f.lexed →
    f.Apart (E.migrationId parent (bodyTexts E data text)) parent
  cut : ∃ moved, data.replaceParentId text parent = .ok moved ∧
    ({ data with parentId := parent } : Files.Migration).expectedId E moved =
      .ok (E.migrationId parent (bodyTexts E data text))

def AllRenamable : Text → List (Files.Migration × Text) → Prop
  | _, [] => True
  | parent, (data, text) :: files =>
      Renamable E data text parent ∧
        AllRenamable (E.migrationId parent (bodyTexts E data text)) files

/-- What was read, with the texts. -/
def contents (dir : Dir) (order : List Files.MigrationFile) : List (Files.Migration × Text) :=
  order.map fun file => (file.data, (dir.get file.path).getD [])

/-- No id stands in two files, the new ids are different, and all names can be replaced. -/
structure Repairable (dir : Dir) (before : FileMap) : Prop where
  distinct : before.items.length = (listed dir).length
  fresh : (newIds E nullMigration (contents dir (values before))).Nodup
  renamable : AllRenamable E nullMigration (contents dir (values before))

end Purpose

/-! ## The loop -/

/-- A file under a new parent and a new id. -/
def Rewritten (E : EdgeqlParser) (data : Files.Migration) (text parent id text' : Text) : Prop :=
  ∃ moved, data.replaceParentId text parent = .ok moved ∧
    ({ data with parentId := parent } : Files.Migration).expectedId E moved = .ok id ∧
    data.replaceId moved id = .ok text'

/-- Files on top of each other, with their new ids and texts. -/
inductive AllRewritten (E : EdgeqlParser) :
    Text → List (Files.Migration × Text) → List (Text × Text) → Prop where
  | nil {parent : Text} : AllRewritten E parent [] []
  | cons {parent id text text' : Text} {data : Files.Migration}
      {files : List (Files.Migration × Text)} {out : List (Text × Text)}
      (hfile : Rewritten E data text parent id text') (hfiles : AllRewritten E id files out) :
      AllRewritten E parent ((data, text) :: files) ((id, text') :: out)

theorem AllRewritten.length_eq {E : EdgeqlParser} {parent : Text}
    {files : List (Files.Migration × Text)} {out : List (Text × Text)}
    (h : AllRewritten E parent files out) : files.length = out.length := by
  induction h with
  | nil => rfl
  | cons hfile hfiles ih => exact congrArg Nat.succ ih

section Loop

variable {E : EdgeqlParser}

theorem fixText_eq_ok (hE : Lawful E) {changedIds changedIds' : Dict Text Text}
    {data : Files.Migration} {text text' : Text} (hparse : parseMigration E text = .ok data) :
    fixText E changedIds data.id data text = .ok (text', changedIds') ↔
      ∃ id, Rewritten E data text ((changedIds.get data.parentId).getD data.parentId) id text' ∧
        changedIds' = if data.id ≠ id then changedIds.set data.id id else changedIds := by
  obtain ⟨f, hf⟩ := exists_shape hE hparse
  -- without a new parent the text is the one with the old names
  have hparent : changeParent changedIds data text =
      .ok ({ data with parentId := (changedIds.get data.parentId).getD data.parentId },
        (f.named data.id ((changedIds.get data.parentId).getD data.parentId)).text) := by
    rw [changeParent]
    cases changedIds.get data.parentId with
    | none =>
        simp only [Option.getD_none]
        rw [hf.text_named_self]
    | some newParentId =>
        simp only [Option.getD_some, hf.replaceParentId_eq]
        rfl
  generalize (changedIds.get data.parentId).getD data.parentId = parent at hparent ⊢
  have hreplaced : ∀ id, ({ data with parentId := parent } : Files.Migration).replaceId
      (f.named data.id parent).text id = .ok (f.named id parent).text :=
    fun id => hf.replaceId_eq id parent
  have hrewritten : ∀ id, Rewritten E data text parent id text' ↔
      ({ data with parentId := parent } : Files.Migration).expectedId E
        (f.named data.id parent).text = .ok id ∧ (f.named id parent).text = text' := by
    intro id
    constructor
    · rintro ⟨moved, hmoved, hid, htext⟩
      obtain rfl := Except.ok.inj ((hf.replaceParentId_eq parent).symm.trans hmoved)
      exact ⟨hid, Except.ok.inj ((hf.replaceId_eq id parent).symm.trans htext)⟩
    · rintro ⟨hid, rfl⟩
      exact ⟨_, hf.replaceParentId_eq parent, hid, hf.replaceId_eq id parent⟩
  simp only [hrewritten, fixText, hparent, bind, Except.bind]
  cases hid : ({ data with parentId := parent } : Files.Migration).expectedId E
      (f.named data.id parent).text with
  | error e =>
      constructor
      · intro h
        cases h
      · rintro ⟨id, ⟨h, -⟩, -⟩
        cases h
  | ok id =>
      by_cases hsame : data.id = id
      · subst hsame
        simp only [ne_eq, not_true_eq_false, if_false, Except.ok.injEq, Prod.mk.injEq]
        constructor
        · rintro ⟨rfl, rfl⟩
          exact ⟨data.id, ⟨rfl, rfl⟩, by rw [if_neg (not_not.mpr rfl)]⟩
        · rintro ⟨id, ⟨rfl, rfl⟩, rfl⟩
          exact ⟨rfl, by rw [if_neg (not_not.mpr rfl)]⟩
      · simp only [ne_eq, hsame, not_false_eq_true, if_true, hreplaced, Except.ok.injEq,
          Prod.mk.injEq]
        constructor
        · rintro ⟨rfl, rfl⟩
          exact ⟨id, ⟨rfl, rfl⟩, by rw [if_pos hsame]⟩
        · rintro ⟨id', ⟨rfl, rfl⟩, rfl⟩
          exact ⟨rfl, by rw [if_pos hsame]⟩

def writeTexts (dir : Dir) (written : List (Text × Text)) : Dir :=
  written.foldl (fun dir file => dir.set file.1 file.2) dir

def changes (changedIds : Dict Text Text) (ids : List (Text × Text)) : Dict Text Text :=
  ids.foldl (fun changed ids => if ids.1 ≠ ids.2 then changed.set ids.1 ids.2 else changed)
    changedIds

/-- A file of the directory and what it was read as. -/
def ReadFrom (E : EdgeqlParser) (dir : Dir) (file : Files.MigrationFile) : Prop :=
  ∃ text, dir.get file.path = some text ∧ parseMigration E text = .ok file.data

/-- **What the loop does** to files that stand on top of each other: `p` is the old id
that the first of them is on. -/
theorem fixLoop_eq_ok (hE : Lawful E) {order : List Files.MigrationFile} {s s' : FixState}
    {p : Text}
    (hread : ∀ file ∈ order, ReadFrom E s.dir file) (hpaths : (order.map (·.path)).Nodup)
    (hids : (order.map (·.data.id)).Nodup) (hfollows : Files.Follows p order)
    (hnew : ∀ file ∈ order, s.changedIds.get file.data.id = none) :
    fixLoop E s (order.map fun file => (file.data.id, file)) = (s', .ok ()) ↔
      ∃ out, AllRewritten E ((s.changedIds.get p).getD p) (contents s.dir order) out ∧
        s'.dir = writeTexts s.dir ((order.map (·.path)).zip (out.map Prod.snd)) ∧
        s'.changedIds =
          changes s.changedIds ((order.map (·.data.id)).zip (out.map Prod.fst)) := by
  induction order generalizing s p with
  | nil =>
      constructor
      · intro h
        cases h
        exact ⟨[], .nil, rfl, rfl⟩
      · rintro ⟨out, hout, hdir, hchanged⟩
        cases hout
        obtain ⟨dir, changedIds⟩ := s'
        cases hdir
        cases hchanged
        rfl
  | cons file order ih =>
      obtain ⟨text, htext, hparse⟩ := hread file List.mem_cons_self
      obtain ⟨hparent, hfollows⟩ := hfollows
      have hparent : file.data.parentId = p := hparent
      rw [List.map_cons, List.nodup_cons] at hpaths hids
      -- what is left to be done is the same as before
      have hrest : ∀ (text' : Text), ∀ other ∈ order,
          (s.dir.set file.path text').get other.path = s.dir.get other.path := by
        intro text' other hother
        rw [Dict.get_set, if_neg]
        rintro hpath
        exact hpaths.1 (hpath ▸ List.mem_map_of_mem hother)
      have hcontents : ∀ text', contents (s.dir.set file.path text') order =
          contents s.dir order := by
        intro text'
        refine List.map_congr_left fun other hother => ?_
        rw [hrest text' other hother]
      have hgetD : (s.changedIds.get file.data.parentId).getD file.data.parentId =
          (s.changedIds.get p).getD p := by rw [hparent]
      have hstep : ∀ (id text' : Text),
          fixLoop E ⟨s.dir.set file.path text', if file.data.id ≠ id then
              s.changedIds.set file.data.id id else s.changedIds⟩
            (order.map fun file => (file.data.id, file)) = (s', .ok ()) ↔
          ∃ out, AllRewritten E id (contents s.dir order) out ∧
            s'.dir = writeTexts (s.dir.set file.path text')
              ((order.map (·.path)).zip (out.map Prod.snd)) ∧
            s'.changedIds = changes (if file.data.id ≠ id then
              s.changedIds.set file.data.id id else s.changedIds)
                ((order.map (·.data.id)).zip (out.map Prod.fst)) := by
        intro id text'
        have hget : ∀ k, (if file.data.id ≠ id then s.changedIds.set file.data.id id
            else s.changedIds).get k =
              if k = file.data.id ∧ file.data.id ≠ id then some id else s.changedIds.get k := by
          intro k
          by_cases hsame : file.data.id = id
          · simp [hsame]
          · simp [hsame, Dict.get_set]
        have hih := @ih ⟨s.dir.set file.path text', if file.data.id ≠ id then
          s.changedIds.set file.data.id id else s.changedIds⟩ file.data.id ?_ hpaths.2 hids.2
          hfollows ?_
        · rw [hih]
          simp only [hget, true_and, hcontents]
          have hid : (if file.data.id ≠ id then some id else s.changedIds.get file.data.id).getD
              file.data.id = id := by
            by_cases hsame : file.data.id = id
            · simp [hsame, hsame ▸ hnew file List.mem_cons_self]
            · simp [hsame]
          rw [hid]
        · intro other hother
          obtain ⟨text, htext, hparse⟩ := hread other (List.mem_cons_of_mem _ hother)
          exact ⟨text, (hrest text' other hother).trans htext, hparse⟩
        · intro other hother
          rw [hget, if_neg]
          · exact hnew other (List.mem_cons_of_mem _ hother)
          · rintro ⟨heq, -⟩
            exact hids.1 (heq ▸ List.mem_map_of_mem hother)
      rw [List.map_cons, fixLoop, fixTurn]
      simp only [htext]
      have hfile : contents s.dir (file :: order) =
          (file.data, text) :: contents s.dir order := by
        rw [contents, List.map_cons, htext]
        rfl
      constructor
      · intro h
        cases hfix : fixText E s.changedIds file.data.id file.data text with
        | error e =>
            rw [hfix] at h
            cases h
        | ok result =>
            obtain ⟨text', changedIds'⟩ := result
            rw [hfix] at h
            obtain ⟨id, hrewritten, rfl⟩ := (fixText_eq_ok hE hparse).mp hfix
            obtain ⟨out, hout, hdir, hchanged⟩ := (hstep id text').mp h
            refine ⟨(id, text') :: out, ?_, hdir, hchanged⟩
            rw [hfile]
            exact .cons (hgetD ▸ hrewritten) hout
      · rintro ⟨out, hout, hdir, hchanged⟩
        rw [hfile] at hout
        cases hout with
        | @cons _ id _ text' _ _ out hrewritten hout =>
            have hfix := (fixText_eq_ok hE hparse).mpr ⟨id, hgetD.symm ▸ hrewritten, rfl⟩
            rw [hfix]
            exact (hstep id text').mpr ⟨out, hout, hdir, hchanged⟩

end Loop

end GelCli.Migrations.FixIds
