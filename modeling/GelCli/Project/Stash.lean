import GelCli.Dump.Guard
import GelCli.Foundation.Dict
import GelCli.Foundation.Directory
import GelCli.Foundation.Whitespace

/-!
# The stash of a project

`StashDir::write` of `project/mod.rs` and what reads a stash. The files are written to a
temporary directory that gets the name of the stash at last. The temporary directory has
always the same name, so what a failed call has written there is found by the next one.
-/

namespace GelCli.Project

open GelCli.Foundation
open Text

/-! ## The directory of the stashes -/

abbrev Bytes := List UInt8

inductive Node where
  | file (bytes : Bytes)
  | link (target : Bytes)
  deriving DecidableEq

abbrev Files := Dict String Node

abbrev Stashes := Directory Text Files

/-- The operations that end a call. -/
inductive Step where
  | createDir
  | write (name : String)
  | rename
  deriving DecidableEq

/-- What a failed write leaves: the file as it was, or with some of the bytes. -/
inductive WriteFailure where
  | untouched
  | left (bytes : Bytes)

/-- Which operations of a call fail. -/
structure Faults where
  createDir : Bool
  write : String → Option WriteFailure
  symlink : Bool
  rename : Bool

abbrev Run := EStateM Step Stashes

section Operations

variable (faults : Faults)

def createDirAll (path : Text) : Run Unit := fun stashes =>
  if faults.createDir then .error .createDir stashes
  else if stashes path = none then .ok () (stashes.link path .empty)
  else .ok () stashes

def writeFile (path : Text) (name : String) (bytes : Bytes) : Run Unit := fun stashes =>
  match stashes path, faults.write name with
  | none, _ => .error (.write name) stashes
  | some files, none => .ok () (stashes.link path (files.set name (.file bytes)))
  | some _, some .untouched => .error (.write name) stashes
  | some files, some (.left bytes) =>
      .error (.write name) (stashes.link path (files.set name (.file bytes)))

/-- A link that cannot be made is logged, and the call goes on. -/
def symlinkDir (target : Bytes) (path : Text) (name : String) : Run Unit := fun stashes =>
  match stashes path with
  | none => .ok () stashes
  | some files =>
      if faults.symlink ∨ (files.get name).isSome then .ok () stashes
      else .ok () (stashes.link path (files.set name (.link target)))

/-- A directory takes the name of an empty directory or of none. -/
def renameDir (old new : Text) : Run Unit := fun stashes =>
  if faults.rename ∨ stashes old = none ∨ (stashes new).any (fun files => files.items ≠ []) then
    .error .rename stashes
  else .ok () (stashes.rename old new)

end Operations

/-! ## `StashDir` -/

structure StashDir where
  projectDir : Bytes
  instanceName : Text
  database : Option Text
  cloudProfile : Option Text

/-- `StashDir::write` -/
def StashDir.write (self : StashDir) (faults : Faults) (dir : Text) : Run Unit := do
  let tmp := Dump.tmpFileName dir
  createDirAll faults tmp
  writeFile faults tmp "project-path" self.projectDir
  writeFile faults tmp "instance-name" (utf8 self.instanceName)
  if let some profile := self.cloudProfile then
    writeFile faults tmp "cloud-profile" (utf8 profile)
  if let some database := self.database then
    writeFile faults tmp "database" (utf8 database)
  symlinkDir faults self.projectDir tmp "project-link"
  renameDir faults tmp dir

/-! ## Reading -/

inductive ReadError where
  | notFound
  | isDirectory
  | invalidUtf8
  | invalidName
  deriving DecidableEq

inductive DatabaseBranch where
  | default
  | ambiguous (name : Text)
  deriving DecidableEq

/-- The names of instances, from the client library. -/
structure InstanceNames where
  Name : Type
  display : Name → Text
  fromStr : Text → Option Name

/-- A name is read from its own text, which has no blanks around it. -/
structure InstanceNames.Lawful (names : InstanceNames) : Prop where
  fromStr_display : ∀ name, names.fromStr (names.display name) = some name
  trim_display : ∀ name, trim (names.display name) = names.display name

section Readers

variable (stashes : Stashes) (dir : Text)

def read (name : String) : Except ReadError Bytes :=
  match (stashes dir).bind fun files => files.get name with
  | some (.file bytes) => .ok bytes
  | some (.link _) => .error .isDirectory
  | none => .error .notFound

def readToString (name : String) : Except ReadError Text := do
  let bytes ← read stashes dir name
  match ofUtf8 bytes with
  | some text => return text
  | none => throw .invalidUtf8

def readProjectPath : Except ReadError Bytes := read stashes dir "project-path"

def instanceName (names : InstanceNames) : Except ReadError names.Name := do
  let inst ← readToString stashes dir "instance-name"
  match names.fromStr (trim inst) with
  | some name => return name
  | none => throw .invalidName

def databaseName : Except ReadError DatabaseBranch :=
  match readToString stashes dir "database" with
  | .ok text => .ok (.ambiguous (trim text))
  | .error .notFound => .ok .default
  | .error e => .error e

/-- What `find_project_stash_dirs` takes from one stash; a stash that cannot be read is
skipped. -/
def stashValue (get : String) : Option Text :=
  match readToString stashes dir get with
  | .ok value => some (trim value)
  | .error _ => none

end Readers

/-- What is read from a stash is what was given to the call that wrote it. -/
structure ReadsBack (names : InstanceNames) (stashes : Stashes) (dir : Text)
    (name : names.Name) (given : StashDir) : Prop where
  projectPath : readProjectPath stashes dir = .ok given.projectDir
  instanceName : instanceName stashes dir names = .ok name
  database : databaseName stashes dir =
    .ok (given.database.elim .default DatabaseBranch.ambiguous)
  cloudProfile : stashValue stashes dir "cloud-profile" = given.cloudProfile

/-! ## Calls -/

structure Call where
  stash : StashDir
  faults : Faults

def Call.write (call : Call) (dir : Text) : Run Unit := call.stash.write call.faults dir

/-- The stashes behind calls that return an error or do not. -/
def afterCalls (dir : Text) (calls : List Call) (stashes : Stashes) : Stashes :=
  calls.foldl (fun stashes call =>
    match call.write dir stashes with
    | .ok _ stashes => stashes
    | .error _ stashes => stashes) stashes

/-- The files of a call, in the order in which they are written. -/
def StashDir.files (self : StashDir) : List (String × Bytes) :=
  [("project-path", self.projectDir), ("instance-name", utf8 self.instanceName)] ++
    (self.cloudProfile.map fun profile => ("cloud-profile", utf8 profile)).toList ++
    (self.database.map fun database => ("database", utf8 database)).toList

/-- What writing files leaves in one of them, if it comes to it. -/
def leaves (failure : String → Option WriteFailure) (name : String) :
    List (String × Bytes) → Option Bytes
  | [] => none
  | (file, bytes) :: rest =>
      match failure file with
      | none => (leaves failure name rest).or (if file = name then some bytes else none)
      | some .untouched => none
      | some (.left part) => if file = name then some part else none

def Call.leaves (call : Call) (name : String) : Option Bytes :=
  if call.faults.createDir then none
  else Project.leaves call.faults.write name call.stash.files

/-- What failed calls have left in a file of the temporary directory. -/
def leftover (name : String) (calls : List Call) : Option Bytes :=
  calls.foldl (fun left call => (call.leaves name).or left) none

/-! ## One call -/

section Calls

variable {faults : Faults} {dir : Text} {stashes : Stashes}

/-- What a directory has under a name. -/
def content (stashes : Stashes) (path : Text) (name : String) : Option Node :=
  (stashes path).bind fun files => files.get name

theorem tmpFileName_ne (dir : Text) : Dump.tmpFileName dir ≠ dir := by
  intro heq
  have hlength := congrArg List.length heq
  rw [Dump.tmpFileName, List.length_append, List.length_append] at hlength
  have hfront : ".~".toList.length = 2 := rfl
  omega

theorem content_of_eq_some {path : Text} {files : Files} (h : stashes path = some files)
    (name : String) : content stashes path name = files.get name := by
  rw [content, h]
  rfl

def writeAll (faults : Faults) (path : Text) : List (String × Bytes) → Run Unit
  | [] => pure ()
  | file :: rest => do
      writeFile faults path file.1 file.2
      writeAll faults path rest

theorem StashDir.write_eq (self : StashDir) (faults : Faults) (dir : Text) :
    self.write faults dir = (do
      createDirAll faults (Dump.tmpFileName dir)
      writeAll faults (Dump.tmpFileName dir) self.files
      symlinkDir faults self.projectDir (Dump.tmpFileName dir) "project-link"
      renameDir faults (Dump.tmpFileName dir) dir) := by
  rcases self with ⟨projectDir, instanceName, database, cloudProfile⟩
  cases cloudProfile <;> cases database <;>
    simp [StashDir.write, StashDir.files, writeAll]

theorem link_eq_self {path : Text} {files : Files} (h : stashes path = some files) :
    stashes.link path files = stashes := by
  rw [Directory.link, ← h, Function.update_eq_self]

/-- A write that fails leaves part of a file or nothing. -/
theorem writeFile_failure {path : Text} {files : Files} (h : stashes path = some files)
    {name : String} {failure : WriteFailure} (hfault : faults.write name = some failure)
    (bytes : Bytes) :
    ∃ files', (∀ other, files'.get other =
        ((leaves faults.write other [(name, bytes)]).map Node.file).or (files.get other)) ∧
      writeFile faults path name bytes stashes = .error (.write name) (stashes.link path files') := by
  cases failure with
  | untouched =>
      refine ⟨files, fun other => ?_, ?_⟩
      · rw [leaves, hfault]
        rfl
      · rw [link_eq_self h, writeFile, h, hfault]
  | left part =>
      refine ⟨files.set name (.file part), fun other => ?_, ?_⟩
      · rw [leaves, hfault, Dict.get_set]
        by_cases hname : other = name
        · subst hname
          simp
        · simp [hname, Ne.symm hname]
      · rw [writeFile, h, hfault]

/-- Each file has at last what the writes leave, or what it had. -/
theorem writeAll_spec {path : Text} (list : List (String × Bytes)) {files : Files}
    (h : stashes path = some files) :
    ∃ files', (∀ name, files'.get name =
        ((leaves faults.write name list).map Node.file).or (files.get name)) ∧
      ((writeAll faults path list stashes = .ok () (stashes.link path files') ∧
          ∀ file ∈ list, faults.write file.1 = none) ∨
        ∃ e, writeAll faults path list stashes = .error e (stashes.link path files')) := by
  induction list generalizing stashes files with
  | nil =>
      refine ⟨files, fun name => rfl, .inl ⟨?_, fun file hfile => ?_⟩⟩
      · rw [link_eq_self h]
        rfl
      · cases hfile
  | cons file rest ih =>
      rcases file with ⟨name, bytes⟩
      cases hfault : faults.write name with
      | none =>
          have hwrite : writeFile faults path name bytes stashes =
              .ok () (stashes.link path (files.set name (.file bytes))) := by
            rw [writeFile, h, hfault]
          have hall : writeAll faults path ((name, bytes) :: rest) stashes =
              writeAll faults path rest (stashes.link path (files.set name (.file bytes))) := by
            show (writeFile faults path name bytes >>= fun _ => writeAll faults path rest) stashes = _
            simp only [bind, EStateM.bind, hwrite]
          have htwice (files' : Files) :
              (stashes.link path (files.set name (.file bytes))).link path files' =
                stashes.link path files' :=
            Function.update_idem _ _ _
          obtain ⟨files', hget, hrest⟩ :=
            ih (show (stashes.link path (files.set name (.file bytes))) path = _ from
              Directory.link_self)
          rw [htwice] at hrest
          refine ⟨files', fun other => ?_, ?_⟩
          · rw [hget, leaves, hfault, Dict.get_set]
            cases leaves faults.write other rest with
            | some left => rfl
            | none =>
                by_cases hname : other = name
                · subst hname
                  rw [if_pos rfl, if_pos rfl]
                  rfl
                · rw [if_neg hname, if_neg (Ne.symm hname)]
                  rfl
          · rw [hall]
            rcases hrest with ⟨hok, hnone⟩ | herror
            · refine .inl ⟨hok, fun file hfile => ?_⟩
              rcases List.mem_cons.mp hfile with rfl | hfile
              · exact hfault
              · exact hnone file hfile
            · exact .inr herror
      | some failure =>
          obtain ⟨files', hget, hwrite⟩ := writeFile_failure h hfault bytes
          have hfirst (other : String) : leaves faults.write other ((name, bytes) :: rest) =
              leaves faults.write other [(name, bytes)] := by
            rw [leaves, leaves, hfault]
            cases failure <;> rfl
          refine ⟨files', fun other => ?_, .inr ⟨.write name, ?_⟩⟩
          · rw [hget, hfirst]
          · show (writeFile faults path name bytes >>= fun _ => writeAll faults path rest) stashes = _
            simp only [bind, EStateM.bind, hwrite]

theorem content_link_of_ne {path other : Text} (h : other ≠ path) (files : Files) (name : String) :
    content (stashes.link path files) other name = content stashes other name := by
  rw [content, content, Directory.link_of_ne h]

theorem createDirAll_spec {path : Text} (h : faults.createDir = false) :
    ∃ files after, createDirAll faults path stashes = .ok () after ∧ after path = some files ∧
      (∀ name, files.get name = content stashes path name) ∧
      ∀ other ≠ path, after other = stashes other := by
  rw [createDirAll, h, if_neg Bool.false_ne_true]
  cases hpath : stashes path with
  | none =>
      refine ⟨.empty, _, if_pos rfl, Directory.link_self, fun name => ?_, fun other hother =>
        Directory.link_of_ne hother⟩
      rw [content, hpath]
      rfl
  | some files =>
      refine ⟨files, stashes, if_neg (Option.some_ne_none _), hpath, fun name => ?_,
        fun other _ => rfl⟩
      rw [content_of_eq_some hpath]

theorem symlinkDir_spec {path : Text} {files : Files} (h : stashes path = some files)
    (target : Bytes) (link : String) :
    ∃ files', symlinkDir faults target path link stashes = .ok () (stashes.link path files') ∧
      ∀ name ≠ link, files'.get name = files.get name := by
  rw [symlinkDir, h]
  simp only
  split
  · refine ⟨files, ?_, fun name _ => rfl⟩
    rw [link_eq_self h]
  · refine ⟨_, rfl, fun name hname => ?_⟩
    rw [Dict.get_set, if_neg hname]

/-- What a call leaves behind in the temporary directory, or hands over to the stash. -/
inductive Outcome (call : Call) (dir : Text) (stashes : Stashes) :
    EStateM.Result Step Stashes Unit → Prop where
  | fails {e : Step} {after : Stashes} (hdir : after dir = stashes dir)
      (htmp : ∀ name ≠ "project-link", content after (Dump.tmpFileName dir) name =
        ((call.leaves name).map Node.file).or (content stashes (Dump.tmpFileName dir) name)) :
      Outcome call dir stashes (.error e after)
  | succeeds {after : Stashes} (hempty : ∀ files, stashes dir = some files → files.items = [])
      (hcreate : call.faults.createDir = false)
      (hwrites : ∀ file ∈ call.stash.files, call.faults.write file.1 = none)
      (hdir : ∀ name ≠ "project-link", content after dir name =
        ((call.leaves name).map Node.file).or (content stashes (Dump.tmpFileName dir) name)) :
      Outcome call dir stashes (.ok () after)

theorem call_outcome (call : Call) (dir : Text) (stashes : Stashes) :
    Outcome call dir stashes (call.write dir stashes) := by
  rcases call with ⟨self, faults⟩
  have hne := tmpFileName_ne dir
  generalize htmp : Dump.tmpFileName dir = tmp at hne
  rw [Call.write, StashDir.write_eq, htmp]
  simp only [bind, EStateM.bind]
  cases hcreate : faults.createDir with
  | true =>
      have hfails : createDirAll faults tmp stashes = .error .createDir stashes := by
        rw [createDirAll, if_pos hcreate]
      rw [hfails]
      refine .fails rfl fun name _ => ?_
      rw [Call.leaves, if_pos hcreate]
      rfl
  | false =>
      have hleaves (name : String) : Call.leaves ⟨self, faults⟩ name =
          leaves faults.write name self.files := by
        rw [Call.leaves, if_neg (by rw [hcreate]; exact Bool.false_ne_true)]
      obtain ⟨files, made, hmade, hfiles, hcontent, hothers⟩ :=
        @createDirAll_spec faults stashes tmp hcreate
      obtain ⟨written, hwritten, hall⟩ :=
        @writeAll_spec faults _ _ self.files _ hfiles
      rw [hmade]
      simp only
      rcases hall with ⟨hok, hnone⟩ | ⟨e, herror⟩
      · rw [hok]
        simp only
        obtain ⟨linked, hlink, hkeeps⟩ :=
          @symlinkDir_spec faults (made.link tmp written) tmp _ Directory.link_self
            self.projectDir "project-link"
        have htwice : (made.link tmp written).link tmp linked = made.link tmp linked :=
          Function.update_idem _ _ _
        have hlinked (name : String) (hname : name ≠ "project-link") : linked.get name =
            ((Call.leaves ⟨self, faults⟩ name).map Node.file).or (content stashes tmp name) := by
          rw [hkeeps name hname, hwritten, hcontent, hleaves]
        have hsame : (made.link tmp linked) dir = stashes dir := by
          rw [Directory.link_of_ne (Ne.symm hne), hothers dir (Ne.symm hne)]
        rw [hlink, htwice]
        simp only [renameDir, hsame]
        split
        · refine .fails hsame fun name hname => ?_
          rw [htmp, content_of_eq_some Directory.link_self, hlinked name hname]
        · next hrename =>
          obtain ⟨-, hrename⟩ := not_or.mp hrename
          obtain ⟨-, hitems⟩ := not_or.mp hrename
          refine .succeeds (fun files hfiles => ?_) hcreate hnone fun name hname => ?_
          · rw [hfiles, Option.any_some, decide_eq_true_eq, not_not] at hitems
            exact hitems
          · rw [content, Directory.rename_new, Directory.link_self, htmp]
            exact hlinked name hname
      · rw [herror]
        refine .fails ?_ fun name _ => ?_
        · rw [Directory.link_of_ne (Ne.symm hne), hothers dir (Ne.symm hne)]
        · rw [htmp, content_of_eq_some Directory.link_self, hwritten, hcontent, hleaves]

/-! ## Several calls -/

/-- A call on a stash that is there fails. -/
theorem Outcome.keeps {call : Call} {r : EStateM.Result Step Stashes Unit}
    (h : Outcome call dir stashes r) {name : String} (hthere : (content stashes dir name).isSome) :
    ∃ e after, r = .error e after ∧ after dir = stashes dir := by
  cases h with
  | fails hdir htmp => exact ⟨_, _, rfl, hdir⟩
  | succeeds hempty _ _ _ =>
      rw [content] at hthere
      cases hfiles : stashes dir with
      | none =>
          rw [hfiles] at hthere
          cases hthere
      | some files =>
          have hget : files.get name = none := by
            rw [Dict.get, hempty files hfiles]
            rfl
          rw [hfiles, Option.bind_some, hget] at hthere
          cases hthere

theorem leaves_of_writes {failure : String → Option WriteFailure} (name : String)
    {list : List (String × Bytes)} (h : ∀ file ∈ list, failure file.1 = none) :
    leaves failure name list = leaves (fun _ => none) name list := by
  induction list with
  | nil => rfl
  | cons file rest ih =>
      rcases file with ⟨other, bytes⟩
      rw [leaves, leaves, h _ List.mem_cons_self,
        ih fun file hfile => h file (List.mem_cons_of_mem _ hfile)]

/-- What a call without failures writes. -/
structure Call.Writes (call : Call) : Prop where
  projectPath : call.leaves "project-path" = some call.stash.projectDir
  instanceName : call.leaves "instance-name" = some (utf8 call.stash.instanceName)
  cloudProfile : call.leaves "cloud-profile" = call.stash.cloudProfile.map utf8
  database : call.leaves "database" = call.stash.database.map utf8

theorem call_writes {call : Call} (hcreate : call.faults.createDir = false)
    (hwrites : ∀ file ∈ call.stash.files, call.faults.write file.1 = none) : call.Writes := by
  have hleaves (name : String) :
      call.leaves name = leaves (fun _ => none) name call.stash.files := by
    rw [Call.leaves, hcreate, if_neg Bool.false_ne_true, leaves_of_writes name hwrites]
  rcases call with ⟨⟨projectDir, instanceName, database, cloudProfile⟩, faults⟩
  cases cloudProfile <;> cases database <;>
    exact ⟨(hleaves _).trans rfl, (hleaves _).trans rfl, (hleaves _).trans rfl,
      (hleaves _).trans rfl⟩

theorem afterCalls_cons (dir : Text) (call : Call) (calls : List Call) (stashes : Stashes) :
    afterCalls dir (call :: calls) stashes =
      afterCalls dir calls (match call.write dir stashes with
        | .ok _ stashes => stashes
        | .error _ stashes => stashes) := rfl

/-- No call removes a stash. -/
theorem isSome_afterCalls (dir : Text) (calls : List Call) {name : String}
    (hthere : (content stashes dir name).isSome) :
    (content (afterCalls dir calls stashes) dir name).isSome := by
  induction calls generalizing stashes with
  | nil => exact hthere
  | cons call calls ih =>
      obtain ⟨e, after, hwrite, hdir⟩ := (call_outcome call dir stashes).keeps hthere
      rw [afterCalls_cons, hwrite]
      refine ih ?_
      show (content after dir name).isSome
      rw [content, hdir]
      exact hthere

/-- The calls in front of one that can succeed have failed, and the temporary directory has
what they have left. -/
theorem afterCalls_spec (dir : Text) (calls : List Call) (left : String → Option Bytes)
    (h : ∀ name ≠ "project-link",
      content stashes (Dump.tmpFileName dir) name = (left name).map .file) :
    (content (afterCalls dir calls stashes) dir "project-path").isSome ∨
      ∀ name ≠ "project-link", content (afterCalls dir calls stashes) (Dump.tmpFileName dir) name =
        (calls.foldl (fun left call => (call.leaves name).or left) (left name)).map .file := by
  induction calls generalizing stashes left with
  | nil => exact .inr h
  | cons call calls ih =>
      have houtcome := call_outcome call dir stashes
      rw [afterCalls_cons]
      cases hwrite : call.write dir stashes with
      | error e after =>
          rw [hwrite] at houtcome
          cases houtcome with
          | fails hdir htmp =>
              refine ih (fun name => (call.leaves name).or (left name)) fun name hname => ?_
              rw [htmp name hname, h name hname]
              cases call.leaves name <;> rfl
      | ok _ after =>
          rw [hwrite] at houtcome
          cases houtcome with
          | succeeds hempty hcreate hwrites hdir =>
              refine .inl (isSome_afterCalls dir calls ?_)
              rw [hdir _ (by decide), (call_writes hcreate hwrites).projectPath]
              rfl

/-- What the stash has when the last call succeeds. -/
theorem content_of_last {calls : List Call} {last : Call} {after : Stashes}
    (hstart : stashes (Dump.tmpFileName dir) = none)
    (hlast : last.write dir (afterCalls dir calls stashes) = .ok () after) :
    last.Writes ∧ ∀ name ≠ "project-link",
      content after dir name = ((last.leaves name).or (leftover name calls)).map .file := by
  have houtcome := call_outcome last dir (afterCalls dir calls stashes)
  have hnone (name : String) : content stashes (Dump.tmpFileName dir) name = none := by
    rw [content, hstart]
    rfl
  rcases afterCalls_spec dir calls (fun _ => none) fun name _ => hnone name with hthere | htmp
  · obtain ⟨e, after, hwrite, -⟩ := houtcome.keeps hthere
    rw [hwrite] at hlast
    cases hlast
  · rw [hlast] at houtcome
    cases houtcome with
    | succeeds hempty hcreate hwrites hdir =>
        refine ⟨call_writes hcreate hwrites, fun name hname => ?_⟩
        rw [hdir name hname, htmp name hname, leftover]
        cases last.leaves name <;> rfl

end Calls

/-! ## What is read -/

section Reading

variable {names : InstanceNames} {stashes : Stashes} {dir : Text}

theorem read_of_content {name : String} {bytes : Bytes}
    (h : content stashes dir name = some (.file bytes)) : read stashes dir name = .ok bytes := by
  rw [content] at h
  rw [read, h]

theorem readToString_of_content {name : String} {bytes : Bytes}
    (h : content stashes dir name = some (.file bytes)) :
    readToString stashes dir name = (ofUtf8 bytes).elim (.error .invalidUtf8) .ok := by
  rw [readToString, read_of_content h]
  simp only [bind, Except.bind]
  cases ofUtf8 bytes <;> rfl

theorem readToString_of_none {name : String} (h : content stashes dir name = none) :
    readToString stashes dir name = .error .notFound := by
  rw [content] at h
  rw [readToString, read, h]
  rfl

/-- The blanks around a text are all that is lost of it. -/
theorem databaseName_iff {database : Option Text} {left : Option Bytes}
    (h : content stashes dir "database" = ((database.map utf8).or left).map .file) :
    databaseName stashes dir = .ok (database.elim .default DatabaseBranch.ambiguous) ↔
      (∀ name, database = some name → trim name = name) ∧ (database = none → left = none) := by
  cases database with
  | some database =>
      rw [databaseName, readToString_of_content h, ofUtf8_utf8]
      constructor
      · intro heq
        refine ⟨fun name hname => ?_, fun hnone => absurd hnone (Option.some_ne_none _)⟩
        cases hname
        exact DatabaseBranch.ambiguous.inj (Except.ok.inj heq)
      · rintro ⟨htrim, -⟩
        exact congrArg (Except.ok ∘ DatabaseBranch.ambiguous) (htrim database rfl)
  | none =>
      cases left with
      | none =>
          rw [databaseName, readToString_of_none h]
          exact iff_of_true rfl ⟨fun name hname => absurd hname.symm (Option.some_ne_none _),
            fun _ => rfl⟩
      | some bytes =>
          rw [databaseName, readToString_of_content h]
          refine iff_of_false ?_ ?_
          · cases ofUtf8 bytes with
            | none => exact fun heq => by cases heq
            | some text => exact fun heq => by cases heq
          · rintro ⟨-, hleft⟩
            cases hleft rfl

theorem stashValue_iff {get : String} {value : Option Text} {left : Option Bytes}
    (h : content stashes dir get = ((value.map utf8).or left).map .file) :
    stashValue stashes dir get = value ↔
      (∀ text, value = some text → trim text = text) ∧
        (value = none → left.bind ofUtf8 = none) := by
  cases value with
  | some value =>
      rw [stashValue, readToString_of_content h, ofUtf8_utf8]
      constructor
      · intro heq
        refine ⟨fun text htext => ?_, fun hnone => absurd hnone (Option.some_ne_none _)⟩
        cases htext
        exact Option.some.inj heq
      · rintro ⟨htrim, -⟩
        exact congrArg some (htrim value rfl)
  | none =>
      cases left with
      | none =>
          rw [stashValue, readToString_of_none h]
          exact iff_of_true rfl ⟨fun name hname => absurd hname.symm (Option.some_ne_none _),
            fun _ => rfl⟩
      | some bytes =>
          rw [stashValue, readToString_of_content h, Option.bind_some]
          cases hdecoded : ofUtf8 bytes with
          | none =>
              exact iff_of_true rfl ⟨fun name hname => absurd hname.symm (Option.some_ne_none _),
                fun _ => rfl⟩
          | some text =>
              refine iff_of_false (fun heq => by cases heq) ?_
              rintro ⟨-, hleft⟩
              cases hleft rfl

end Reading

/-- The texts that were given have no blanks around them, and of those that were not given
nothing readable is left by earlier calls. -/
structure Fits (calls : List Call) (given : StashDir) : Prop where
  database : ∀ database, given.database = some database → trim database = database
  noDatabase : given.database = none → leftover "database" calls = none
  cloudProfile : ∀ profile, given.cloudProfile = some profile → trim profile = profile
  noCloudProfile : given.cloudProfile = none → (leftover "cloud-profile" calls).bind ofUtf8 = none

/-- **A stash reads back as it was written** by the last call exactly if that call fits to
what the calls before it have left. -/
theorem readsBack_iff (names : InstanceNames) (h : names.Lawful) (dir : Text) (stashes : Stashes)
    (hstart : stashes (Dump.tmpFileName dir) = none) (calls : List Call) (last : Call)
    (after : Stashes) (hlast : last.write dir (afterCalls dir calls stashes) = .ok () after)
    (name : names.Name) (hname : last.stash.instanceName = names.display name) :
    ReadsBack names after dir name last.stash ↔ Fits calls last.stash := by
  obtain ⟨hwrites, hcontent⟩ := content_of_last hstart hlast
  have hdatabase := hcontent "database" (by decide)
  have hprofile := hcontent "cloud-profile" (by decide)
  rw [hwrites.database] at hdatabase
  rw [hwrites.cloudProfile] at hprofile
  have hpath : readProjectPath after dir = .ok last.stash.projectDir := by
    refine read_of_content ?_
    rw [hcontent _ (by decide), hwrites.projectPath]
    rfl
  have hinstance : instanceName after dir names = .ok name := by
    have hfile : content after dir "instance-name" =
        some (.file (utf8 last.stash.instanceName)) := by
      rw [hcontent _ (by decide), hwrites.instanceName]
      rfl
    rw [instanceName, readToString_of_content hfile, ofUtf8_utf8, hname]
    simp only [Option.elim, bind, Except.bind, h.trim_display, h.fromStr_display]
    rfl
  constructor
  · intro hreads
    obtain ⟨hgiven, hleft⟩ := (databaseName_iff hdatabase).mp hreads.database
    obtain ⟨hprofile, hnoProfile⟩ := (stashValue_iff hprofile).mp hreads.cloudProfile
    exact ⟨hgiven, hleft, hprofile, hnoProfile⟩
  · intro hfits
    refine ⟨hpath, hinstance, ?_, ?_⟩
    · exact (databaseName_iff hdatabase).mpr ⟨hfits.database, hfits.noDatabase⟩
    · exact (stashValue_iff hprofile).mpr ⟨hfits.cloudProfile, hfits.noCloudProfile⟩

/-! ## A call that gives no database behind one that does -/

/-- Names without blanks. -/
def plainNames : InstanceNames where
  Name := { t : Text // t.any isWhitespace = false }
  display := Subtype.val
  fromStr t := if h : t.any isWhitespace = false then some ⟨t, h⟩ else none

theorem trim_of_no_blank {t : Text} (h : t.any isWhitespace = false) : trim t = t := by
  have hdrop (t : Text) (h : t.any isWhitespace = false) : t.dropWhile isWhitespace = t := by
    cases t with
    | nil => rfl
    | cons c t =>
        rw [List.any_cons, Bool.or_eq_false_iff] at h
        exact trimStart_of_head h.1 t
  rw [trim, trimStart, hdrop t h, trimEnd, hdrop t.reverse (by rw [List.any_reverse, h]),
    List.reverse_reverse]

theorem plainNames_lawful : plainNames.Lawful where
  fromStr_display name := dif_pos name.property
  trim_display name := trim_of_no_blank name.property

def noFaults : Faults := ⟨false, fun _ => none, false, false⟩

/-- A call for the branch `a` that fails at its last operation. -/
def failedRename : Call :=
  ⟨⟨[47], ['i'], some ['a'], none⟩, { noFaults with rename := true }⟩

/-- A stash for the branch `b`. -/
theorem readsBack_second : ∃ after,
    Call.write ⟨⟨[47], ['i'], some ['b'], none⟩, noFaults⟩ ['p']
        (afterCalls ['p'] [failedRename] fun _ => none) = .ok () after ∧
      ReadsBack plainNames after ['p'] ⟨['i'], rfl⟩ ⟨[47], ['i'], some ['b'], none⟩ := by
  refine ⟨_, rfl, ?_⟩
  refine (readsBack_iff plainNames plainNames_lawful ['p'] (fun _ => none) rfl [failedRename]
    ⟨⟨[47], ['i'], some ['b'], none⟩, noFaults⟩ _ rfl ⟨['i'], rfl⟩ rfl).mpr ⟨?_, ?_, ?_, ?_⟩
  · rintro database ⟨⟩
    rfl
  · rintro ⟨⟩
  · rintro profile ⟨⟩
  · exact fun _ => rfl

/-- A stash without a branch has the one of the failed call. -/
theorem not_readsBack :
    ¬ ∀ (names : InstanceNames), names.Lawful → ∀ (dir : Text) (stashes : Stashes),
      stashes (Dump.tmpFileName dir) = none → ∀ (calls : List Call) (last : Call)
        (after : Stashes), last.write dir (afterCalls dir calls stashes) = .ok () after →
      ∀ name : names.Name, last.stash.instanceName = names.display name →
        ReadsBack names after dir name last.stash := by
  intro h
  have hreads := h plainNames plainNames_lawful ['p'] (fun _ => none) rfl [failedRename]
    ⟨⟨[47], ['i'], none, none⟩, noFaults⟩ _ rfl ⟨['i'], rfl⟩ rfl
  have hdatabase := hreads.database
  rw [databaseName, @readToString_of_content _ _ _ (utf8 ['a']) rfl, ofUtf8_utf8] at hdatabase
  cases hdatabase

end GelCli.Project
