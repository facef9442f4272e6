import GelCli.Install.Unpack

/-!
# Unpacking stays inside the package directory

Every path that is created or replaced for an entry is below the target directory, at the
names of the entry without the first one or on the way there, and at that moment nothing
on the way to it is a symlink or a file. An entry with a `..` is not unpacked and ends
the unpacking.
-/

namespace GelCli.Install

open GelCli.Foundation

variable {host : Host} {archive : Archive} {i : Nat} {files : Files}

/-! ## The names of an entry -/

def Component.name? : Component → Option Text
  | .normal name => some name
  | .rootDir | .curDir | .parentDir => none

/-- The normal components of a path. -/
def names (path : Text) : Path := (components path).filterMap Component.name?

/-- The components that are no error. -/
def valid (parts : List (Except UnpackError Text)) : Path := parts.filterMap Except.toOption

theorem valid_parts (path : Text) : valid (parts path) = names path := by
  unfold valid parts names
  rw [List.filterMap_filterMap]
  congr 1
  funext component
  cases component <;> rfl

theorem error_mem_parts {path : Text} (h : .parentDir ∈ components path) :
    .error (.erroneousPath path) ∈ parts path :=
  List.mem_filterMap.mpr ⟨.parentDir, h, rfl⟩

theorem plain_of_mem_names {path name : Text} (h : name ∈ names path) : Plain name := by
  obtain ⟨component, hmem, hname⟩ := List.mem_filterMap.mp h
  cases component with
  | normal other =>
      cases hname
      exact plain_of_mem_components hmem
  | rootDir | curDir | parentDir => cases hname

/-! ## What is promised -/

/-- Nothing on the way to the path, below the target, is a symlink or a file. -/
def Clear (files : Files) (path : Path) : Prop :=
  ∀ before rest, before ≠ [] → rest ≠ [] → before ++ rest = path →
    files before ≠ some .symlink ∧ files before ≠ some .file

/-- At the names of the entry without the first one, or on the way there. -/
def At (entry : Entry) (w : Write) : Prop :=
  w.call = .unpack ∧ .parentDir ∉ components entry.path ∧ w.path = (names entry.path).tail ∨
    w.call = .createDir ∧ ∃ rest, rest ≠ [] ∧ w.path ++ rest = (names entry.path).tail

/-- The target directory itself is created before the first entry. -/
def Inside (archive : Archive) (w : Write) : Prop :=
  match w.source with
  | none => w.call = .createTarget ∧ w.path = []
  | some i => ∃ entry, archive[i]? = some (some entry) ∧ w.path ≠ [] ∧
      (∀ name ∈ w.path, Plain name) ∧ At entry w ∧ Clear w.files w.path

/-! ## Paths on the way -/

theorem Clear.snoc {path : Path} {name : Text} (h : Clear files path)
    (hsymlink : files path ≠ some .symlink) (hfile : files path ≠ some .file) :
    Clear files (path ++ [name]) := by
  intro before rest hbefore hrest heq
  obtain ⟨rest, last, rfl⟩ := (List.eq_nil_or_concat rest).resolve_left hrest
  rw [List.concat_eq_append, ← List.append_assoc] at heq
  obtain ⟨hpath, -⟩ := List.append_inj' heq rfl
  cases rest with
  | nil =>
      rw [List.append_nil] at hpath
      subst hpath
      exact ⟨hsymlink, hfile⟩
  | cons next rest => exact h before (next :: rest) hbefore (List.cons_ne_nil _ _) hpath

/-- What a path itself names does not matter. -/
theorem Clear.update {path : Path} {left : Option FileType} (h : Clear files path) :
    Clear (Function.update files path left) path := by
  intro before rest hbefore hrest heq
  have hne : before ≠ path := by
    rintro rfl
    exact hrest (by simpa using heq)
  rw [Function.update_of_ne hne]
  exact h before rest hbefore hrest heq

theorem Clear.not_throughSymlink {path : Path} (h : Clear files path) :
    throughSymlink files path = false := by
  rw [throughSymlink, List.any_eq_false]
  intro n hn
  by_cases hzero : n = 0
  · simp [hzero]
  · have hlt : n < path.length := List.mem_range.mp hn
    have hbefore : path.take n ≠ [] := by
      intro hnil
      have hlength := congrArg List.length hnil
      rw [List.length_take, List.length_nil] at hlength
      omega
    have hrest : path.drop n ≠ [] := by
      intro hnil
      have hlength := congrArg List.length hnil
      rw [List.length_drop, List.length_nil] at hlength
      omega
    simp [(h _ _ hbefore hrest (List.take_append_drop n path)).1]

theorem Clear.singleton (name : Text) : Clear files [name] := by
  intro before rest hbefore hrest heq
  have hlength := congrArg List.length heq
  rw [List.length_append] at hlength
  have hb := List.length_pos_of_ne_nil hbefore
  have hr := List.length_pos_of_ne_nil hrest
  simp at hlength
  omega

/-! ## One entry -/

/-- The writes so far are inside, and none is for an entry from number `i` on. -/
def Logged (archive : Archive) (i : Nat) (disk : Disk) : Prop :=
  ∀ w ∈ disk.writes, Inside archive w ∧ ∀ j, w.source = some j → j < i

theorem Logged.mono {j : Nat} {disk : Disk} (h : Logged archive i disk) (hle : i ≤ j) :
    Logged archive j disk :=
  fun w hw => ⟨(h w hw).1, fun k hk => Nat.lt_of_lt_of_le ((h w hw).2 k hk) hle⟩

theorem Logged.write {disk : Disk} {w : Write} {after : Files} (h : Logged archive i disk)
    (hw : Inside archive w) (hsource : ∀ j, w.source = some j → j < i) :
    Logged archive i ⟨after, disk.writes ++ [w]⟩ := by
  intro other hother
  rcases List.mem_append.mp hother with hold | hnew
  · exact h other hold
  · rw [List.mem_singleton] at hnew
    subst hnew
    exact ⟨hw, hsource⟩

theorem write_triple {P : Disk → Prop} {Q : PUnit → Disk → Prop}
    {E : UnpackError → Disk → Prop} {source : Option Nat} {call : Call} {path : Path}
    {error : UnpackError} {left : Option FileType} {works : Bool}
    (hok : ∀ disk, P disk → works = true → Q ⟨⟩ ⟨Function.update disk.files path left,
      disk.writes ++ [⟨source, call, path, disk.files⟩]⟩)
    (herror : ∀ disk, P disk → works = false → E error ⟨Function.update disk.files path left,
      disk.writes ++ [⟨source, call, path, disk.files⟩]⟩) :
    Triple P (write source call path error left works) Q E := by
  refine Triple.bind (R := fun _ disk => ∃ before, P before ∧
    disk = ⟨Function.update before.files path left,
      before.writes ++ [⟨source, call, path, before.files⟩]⟩) ?_ fun _ => ?_
  · exact Triple.modify fun disk hdisk => ⟨disk, hdisk, rfl⟩
  · refine Triple.ite (fun hworks => Triple.pure ?_) fun hworks => Triple.throw ?_
    · rintro disk ⟨before, hbefore, rfl⟩
      exact hok before hbefore hworks
    · rintro disk ⟨before, hbefore, rfl⟩
      exact herror before hbefore (Bool.eq_false_iff.mpr hworks)

/-- A directory on the way is no symlink and no file when the next name is put behind
it. -/
theorem enter_triple {entry : Entry} {dest rest : Path} {name : Text}
    (hentry : archive[i]? = some (some entry)) (hne : dest ≠ [])
    (hnames : (names entry.path).tail = dest ++ name :: rest) :
    Triple (fun disk => Logged archive (i + 1) disk ∧ Clear disk.files dest)
      (enter host (some i) entry.path dest)
      (fun _ disk => Logged archive (i + 1) disk ∧ Clear disk.files (dest ++ [name]))
      (fun _ disk => Logged archive (i + 1) disk) := by
  refine Triple.bind (R := fun r disk => r = disk ∧ Logged archive (i + 1) disk ∧
    Clear disk.files dest) (Triple.get fun disk hdisk => ⟨rfl, hdisk⟩) fun r =>
      Triple.pointwise ?_
  rintro disk ⟨rfl, hlogged, hclear⟩
  have hplain : ∀ other ∈ dest, Plain other := fun other hother =>
    plain_of_mem_names (List.mem_of_mem_tail (hnames ▸ List.mem_append_left _ hother))
  cases hmetadata : symlinkMetadata host r.files dest with
  | none =>
      refine Triple.bind (R := fun s d => s = r ∧ d = r) ?_ fun s => Triple.pointwise ?_
      · refine Triple.get ?_
        rintro d rfl
        exact ⟨rfl, rfl⟩
      rintro d ⟨rfl, rfl⟩
      have hinside : Inside archive ⟨some i, .createDir, dest, d.files⟩ :=
        ⟨entry, hentry, hne, hplain, .inr ⟨rfl, name :: rest, List.cons_ne_nil _ _, hnames.symm⟩,
          hclear⟩
      have hsource : ∀ j, some i = some j → j < i + 1 := by
        rintro j ⟨⟩
        exact Nat.lt_succ_self _
      refine Triple.ite (fun _ => write_triple ?_ nofun) fun _ => Triple.throw ?_
      · rintro d' rfl -
        refine ⟨hlogged.write hinside hsource, hclear.update.snoc ?_ ?_⟩
        · rw [Function.update_self]
          exact nofun
        · rw [Function.update_self]
          exact nofun
      · rintro d' rfl
        exact hlogged
  | some type =>
      have hfiles : r.files dest = some type := by
        rw [symlinkMetadata, hclear.not_throughSymlink] at hmetadata
        split at hmetadata
        · cases hmetadata
        · exact hmetadata
      cases type with
      | symlink | file =>
          refine Triple.throw ?_
          rintro d rfl
          exact hlogged
      | directory | other =>
          refine Triple.pure ?_
          rintro d rfl
          refine ⟨hlogged, hclear.snoc ?_ ?_⟩
          · rw [hfiles]
            exact nofun
          · rw [hfiles]
            exact nofun

/-- The way to the path of an entry, one name after the other. -/
theorem walk_triple {entry : Entry} (hentry : archive[i]? = some (some entry))
    (rest : List (Except UnpackError Text)) (dest : Path) (hne : dest ≠ [])
    (hnames : (names entry.path).tail = dest ++ valid rest) :
    Triple (fun disk => Logged archive (i + 1) disk ∧ Clear disk.files dest)
      (walk host (some i) entry.path dest rest)
      (fun path disk => Logged archive (i + 1) disk ∧ Clear disk.files path ∧
        path = (names entry.path).tail ∧ ∀ error, .error error ∉ rest)
      (fun _ disk => Logged archive (i + 1) disk) := by
  induction rest generalizing dest with
  | nil =>
      refine Triple.pure ?_
      rintro disk ⟨hlogged, hclear⟩
      rw [hnames]
      exact ⟨hlogged, hclear, (List.append_nil _).symm, fun _ => List.not_mem_nil⟩
  | cons component rest ih =>
      cases component with
      | error e =>
          refine Triple.bind (R := fun _ _ => False) ?_ fun _ => Triple.unreachable
          exact Triple.throw fun disk hdisk => hdisk.1
      | ok name =>
          have hcons : dest ++ valid (.ok name :: rest) = dest ++ name :: valid rest := rfl
          rw [hcons] at hnames
          refine Triple.bind (R := fun component disk => component = name ∧
            Logged archive (i + 1) disk ∧ Clear disk.files dest)
            (Triple.pure fun disk hdisk => ⟨rfl, hdisk⟩) fun component => ?_
          refine Triple.assume (c := component = name) (fun disk hdisk => hdisk.1) ?_
          rintro rfl
          refine Triple.bind (Triple.conseq (enter_triple hentry hne hnames)
            (fun disk hdisk => hdisk.2) fun _ disk hdisk => hdisk) fun _ => ?_
          refine Triple.conseq (ih (dest ++ [component]) (by simp) ?_) (fun disk hdisk => hdisk) ?_
          · rw [hnames, List.append_assoc]
            rfl
          · rintro path disk ⟨hlogged, hclear, hpath, hvalid⟩
            refine ⟨hlogged, hclear, hpath, fun error hmem => ?_⟩
            rcases List.mem_cons.mp hmem with heq | hmem
            · cases heq
            · exact hvalid error hmem

theorem buildPath_triple {entry : Entry} (hentry : archive[i]? = some (some entry)) :
    Triple (Logged archive (i + 1)) (buildPath host (some i) entry.path)
      (fun path disk => Logged archive (i + 1) disk ∧ (∀ error, .error error ∉ parts entry.path) ∧
        ∀ dest, path = some dest → dest ≠ [] ∧ Clear disk.files dest ∧
          dest = (names entry.path).tail)
      (fun _ disk => Logged archive (i + 1) disk) := by
  have hnames := valid_parts entry.path
  unfold buildPath
  cases hparts : parts entry.path with
  | nil => exact Triple.pure fun disk hdisk => ⟨hdisk, fun _ => List.not_mem_nil, nofun⟩
  | cons directoryName rest =>
      rw [hparts] at hnames
      cases directoryName with
      | error e =>
          refine Triple.bind (R := fun _ _ => False) ?_ fun _ => Triple.unreachable
          exact Triple.throw fun disk hdisk => hdisk
      | ok first =>
          have htail : valid rest = (names entry.path).tail := by
            rw [← hnames]
            rfl
          refine Triple.bind (R := fun _ disk => Logged archive (i + 1) disk)
            (Triple.pure fun disk hdisk => hdisk) fun _ => ?_
          cases rest with
          | nil =>
              refine Triple.pure fun disk hdisk => ⟨hdisk, fun error hmem => ?_, nofun⟩
              rw [List.mem_singleton] at hmem
              cases hmem
          | cons component rest =>
              cases component with
              | error e =>
                  refine Triple.bind (R := fun _ _ => False) ?_ fun _ => Triple.unreachable
                  exact Triple.throw fun disk hdisk => hdisk
              | ok name =>
                  refine Triple.bind (R := fun component disk => component = name ∧
                    Logged archive (i + 1) disk) (Triple.pure fun disk hdisk => ⟨rfl, hdisk⟩)
                    fun component => ?_
                  refine Triple.assume (c := component = name) (fun disk hdisk => hdisk.1) ?_
                  rintro rfl
                  refine Triple.bind (Triple.conseq (walk_triple hentry rest [component]
                    (List.cons_ne_nil _ _) htail.symm)
                    (fun disk hdisk => ⟨hdisk.2, Clear.singleton _⟩) fun _ disk hdisk => hdisk)
                    fun dest => Triple.pure ?_
                  rintro disk ⟨hlogged, hclear, hdest, hvalid⟩
                  refine ⟨hlogged, fun error hmem => ?_, ?_⟩
                  · rcases List.mem_cons.mp hmem with heq | hmem
                    · cases heq
                    rcases List.mem_cons.mp hmem with heq | hmem
                    · cases heq
                    · exact hvalid error hmem
                  · rintro _ ⟨⟩
                    refine ⟨?_, hclear, hdest⟩
                    rw [hdest, ← htail]
                    exact List.cons_ne_nil _ _

theorem unpackEntry_triple {entry : Entry} (hentry : archive[i]? = some (some entry)) :
    Triple (Logged archive i) (unpackEntry host i entry)
      (fun _ disk => Logged archive (i + 1) disk ∧ .parentDir ∉ components entry.path)
      (fun _ disk => Logged archive (i + 1) disk) := by
  refine Triple.bind (Triple.conseq (buildPath_triple hentry)
    (fun disk hdisk => hdisk.mono (Nat.le_succ i)) fun _ disk hdisk => hdisk) fun path =>
      Triple.pointwise ?_
  rintro disk ⟨hlogged, hvalid, hdest⟩
  have hparent : .parentDir ∉ components entry.path := fun hmem =>
    hvalid _ (error_mem_parts hmem)
  cases path with
  | none =>
      refine Triple.pure ?_
      rintro d rfl
      exact ⟨hlogged, hparent⟩
  | some dest =>
      obtain ⟨hne, hclear, hpath⟩ := hdest dest rfl
      have hinside : Inside archive ⟨some i, .unpack, dest, disk.files⟩ := by
        refine ⟨entry, hentry, hne, fun name hname => ?_, .inl ⟨rfl, hparent, hpath⟩, hclear⟩
        exact plain_of_mem_names (List.mem_of_mem_tail (hpath ▸ hname))
      have hsource : ∀ j, some i = some j → j < i + 1 := by
        rintro j ⟨⟩
        exact Nat.lt_succ_self _
      refine Triple.bind (R := fun r d => d = disk) (Triple.get fun d hd => hd) fun r =>
        write_triple ?_ ?_
      · rintro d rfl -
        exact ⟨hlogged.write hinside hsource, hparent⟩
      · rintro d rfl -
        exact hlogged.write hinside hsource

/-! ## The whole archive -/

/-- The entries before number `i` have no `..`. -/
def NoParent (archive : Archive) (i : Nat) : Prop :=
  ∀ k entry, k < i → archive[k]? = some (some entry) → .parentDir ∉ components entry.path

theorem unpackEntries_triple (rest : Archive) (i : Nat) (hrest : archive.drop i = rest)
    (hparent : NoParent archive i) :
    Triple (Logged archive i) (unpackEntries host i rest)
      (fun _ disk => (∃ k, Logged archive k disk) ∧ NoParent archive archive.length)
      (fun _ disk => ∃ k, Logged archive (k + 1) disk ∧ NoParent archive k) := by
  induction rest generalizing i with
  | nil =>
      refine Triple.pure fun disk hdisk => ⟨⟨i, hdisk⟩, fun k entry hk => ?_⟩
      exact hparent k entry (Nat.lt_of_lt_of_le hk (List.drop_eq_nil_iff.mp hrest))
  | cons item rest ih =>
      have hitem : archive[i]? = some item := by
        rw [← Nat.add_zero i, ← List.getElem?_drop, hrest]
        rfl
      have htail : archive.drop (i + 1) = rest := by
        rw [← List.tail_drop, hrest]
        rfl
      cases item with
      | none =>
          exact Triple.throw fun disk hdisk => ⟨i, hdisk.mono (Nat.le_succ i), hparent⟩
      | some entry =>
          refine Triple.bind (Triple.conseqError (unpackEntry_triple hitem)
            fun _ disk hdisk => ⟨i, hdisk, hparent⟩) fun _ => ?_
          refine Triple.assume (c := .parentDir ∉ components entry.path)
            (fun disk hdisk => hdisk.2) fun hentry => ?_
          refine Triple.conseq (ih (i + 1) htail fun k other hk hother => ?_)
            (fun disk hdisk => hdisk.1) fun _ disk hdisk => hdisk
          rcases Nat.lt_succ_iff_lt_or_eq.mp hk with hlt | rfl
          · exact hparent k other hlt hother
          · rw [hitem] at hother
            cases hother
            exact hentry

theorem check_triple {P : Disk → Prop} {operation : Operation} :
    Triple P (check host operation) (fun _ => P) (fun _ => P) :=
  Triple.ite (fun _ => Triple.throw fun _ hdisk => hdisk) fun _ => Triple.pure fun _ hdisk => hdisk

theorem removeTarget_triple :
    Triple (fun disk => disk.writes = []) (removeTarget host) (fun _ disk => disk.writes = [])
      (fun _ disk => disk.writes = []) := by
  refine Triple.ite (fun _ => ?_) fun _ => Triple.pure fun _ hdisk => hdisk
  exact Triple.bind check_triple fun _ => Triple.modify fun _ hdisk => hdisk

theorem createTarget_triple :
    Triple (fun disk => disk.writes = []) (createDir host none .createTarget [])
      (fun _ => Logged archive 0) (fun _ => Logged archive 0) := by
  refine Triple.bind (R := fun r disk => r = disk ∧ disk.writes = [])
    (Triple.get fun disk hdisk => ⟨rfl, hdisk⟩) fun r => Triple.pointwise ?_
  rintro disk ⟨rfl, hwrites⟩
  have hnone : Logged archive 0 r := by
    intro w hw
    rw [hwrites] at hw
    cases hw
  refine Triple.ite (fun _ => write_triple ?_ nofun) fun _ => Triple.throw ?_
  · rintro d rfl -
    exact hnone.write ⟨rfl, rfl⟩ nofun
  · rintro d rfl
    exact hnone

theorem unpackPackage_triple :
    Triple (fun disk => disk.writes = []) (unpackPackage host archive)
      (fun _ disk => (∃ k, Logged archive k disk) ∧ NoParent archive archive.length)
      (fun _ disk => ∃ k, Logged archive (k + 1) disk ∧ NoParent archive k) := by
  have hzero : NoParent archive 0 := fun k _ hk => absurd hk (Nat.not_lt_zero k)
  have hearly : ∀ (_ : UnpackError) disk, Logged archive 0 disk →
      ∃ k, Logged archive (k + 1) disk ∧ NoParent archive k :=
    fun _ disk hdisk => ⟨0, hdisk.mono (Nat.zero_le 1), hzero⟩
  have hcheck : ∀ operation, Triple (Logged archive 0) (check host operation)
      (fun _ => Logged archive 0)
      (fun _ disk => ∃ k, Logged archive (k + 1) disk ∧ NoParent archive k) :=
    fun operation => Triple.conseqError check_triple hearly
  refine Triple.bind (Triple.conseqError removeTarget_triple ?_) fun _ => ?_
  · intro e disk hwrites
    refine hearly e disk fun w hw => ?_
    rw [hwrites] at hw
    cases hw
  refine Triple.bind (Triple.conseqError createTarget_triple hearly) fun _ => ?_
  refine Triple.bind (hcheck .canonicalize) fun _ => ?_
  refine Triple.bind (hcheck .openCache) fun _ => ?_
  refine Triple.bind (hcheck .metadata) fun _ => ?_
  refine Triple.bind (hcheck .decoder) fun _ => ?_
  refine Triple.bind (hcheck .entries) fun _ => ?_
  exact unpackEntries_triple archive 0 rfl hzero

/-! ## The result -/

def disk : EStateM.Result UnpackError Disk Unit → Disk
  | .ok _ disk | .error _ disk => disk

def failed : EStateM.Result UnpackError Disk Unit → Bool
  | .ok .. => false
  | .error .. => true

def quietHost : Host where
  targetExists := false
  fails _ := false
  behind _ _ := none
  unreadable _ _ := false
  creates _ _ := true
  unpack _ _ _ := (some .file, true)

def nested : Archive := [some ⟨"pkg/bin/gel".toList, .file⟩]

end GelCli.Install
