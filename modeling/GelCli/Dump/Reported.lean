import GelCli.Dump.Guard

/-!
# What a finished dump has on file

`dump_db` does not flush its output, so nothing reports what becomes of the last chunk:
the dump counts as finished, and the temporary file is renamed, when the chunk has been
handed over. A target that is opened directly is truncated before anything can fail.
`Reports` holds exactly when neither does any harm.
-/

namespace GelCli.Dump

open GelCli.Foundation

/-! ## The chunks of a dump -/

section Chunks

variable (sys : System) (sha1 : Bytes → Vector UInt8 20)

def packetChunks (packetType : PacketType) (data : Bytes) : List Bytes :=
  sys.cut (headerBuf sha1 packetType data) ++ sys.cut data

def dumpChunks (content : Content) : List Bytes :=
  sys.cut (magic ++ dumpVersion) ++ packetChunks sys sha1 .header content.header ++
    content.blocks.flatMap (packetChunks sys sha1 .block)

variable {sys sha1}

theorem flatten_packetChunks (packetType : PacketType) (data : Bytes) :
    (packetChunks sys sha1 packetType data).flatten = encodePacket sha1 packetType data := by
  rw [packetChunks, List.flatten_append, sys.flatten_cut, sys.flatten_cut]
  rfl

theorem flatten_dumpChunks (content : Content) :
    (dumpChunks sys sha1 content).flatten = dumpFile sha1 content := by
  have hblocks : (content.blocks.flatMap (packetChunks sys sha1 .block)).flatten =
      (content.blocks.map (encodePacket sha1 .block)).flatten := by
    induction content.blocks with
    | nil => rfl
    | cons block blocks ih =>
        rw [List.flatMap_cons, List.flatten_append, ih, flatten_packetChunks, List.map_cons,
          List.flatten_cons]
  rw [dumpChunks, List.flatten_append, List.flatten_append, sys.flatten_cut, flatten_packetChunks,
    hblocks, dumpFile, Content.packets, List.flatten_cons, List.append_assoc]

theorem writePacket_eq (packetType : PacketType) (output : Output) (data : Bytes) :
    writePacket sys sha1 packetType output data =
      (packetChunks sys sha1 packetType data).foldlM
        (DeferredFile.put sys.medium .writeFailed) output := by
  rw [packetChunks, List.foldlM_append]
  rfl

theorem foldlM_writePacket (blocks : List Bytes) (output : Output) :
    blocks.foldlM (writePacket sys sha1 .block) output =
      (blocks.flatMap (packetChunks sys sha1 .block)).foldlM
        (DeferredFile.put sys.medium .writeFailed) output := by
  induction blocks generalizing output with
  | nil => rfl
  | cons block blocks ih =>
      rw [List.foldlM_cons, List.flatMap_cons, List.foldlM_append, writePacket_eq]
      exact congrArg _ (funext ih)

end Chunks

/-- The server delivers everything, and every chunk can be handed over. -/
structure Completes (sys : System) (sha1 : Bytes → Vector UInt8 20) (conn : Connection)
    (includeSecrets : Bool) (delivered : Delivered) : Prop where
  dump : conn.dump includeSecrets = .ok delivered
  ending : delivered.ending = none
  carries : DeferredFile.Carries sys.medium (dumpChunks sys sha1 delivered.content).length

/-- All of the last chunk is on the file when the call returns. -/
def LastLasts (sys : System) (sha1 : Bytes → Vector UInt8 20) (content : Content) : Prop :=
  ∀ last ∈ (dumpChunks sys sha1 content).getLast?,
    (sys.medium.fate ((dumpChunks sys sha1 content).length - 1)).Lasts last.length

section Written

variable {sys : System} {sha1 : Bytes → Vector UInt8 20} {conn : Connection}

theorem writeDump_eq_ok {includeSecrets : Bool} {output : Output} :
    writeDump sys sha1 conn includeSecrets = .ok output ↔
      ∃ delivered, Completes sys sha1 conn includeSecrets delivered ∧
        output = .after (dumpChunks sys sha1 delivered.content) := by
  -- the packets one by one are the chunks of the whole content
  have hchunks : ∀ content : Content,
      (dumpChunks sys sha1 content).foldlM (DeferredFile.put sys.medium .writeFailed) .empty =
        (do
          let output ← writeAll sys .empty (magic ++ dumpVersion)
          let output ← writePacket sys sha1 .header output content.header
          content.blocks.foldlM (writePacket sys sha1 .block) output) := by
    intro content
    rw [dumpChunks, List.append_assoc, List.foldlM_append, writeAll]
    refine congrArg _ (funext fun output => ?_)
    rw [List.foldlM_append, writePacket_eq]
    exact congrArg _ (funext fun output => (foldlM_writePacket content.blocks output).symm)
  rw [writeDump]
  constructor
  · intro h
    obtain ⟨first, hfirst, h⟩ := bind_eq_ok.mp h
    cases hdump : conn.dump includeSecrets with
    | error message =>
        rw [hdump] at h
        cases h
    | ok delivered =>
        rw [hdump] at h
        obtain ⟨second, hsecond, h⟩ := bind_eq_ok.mp h
        obtain ⟨third, hthird, h⟩ := bind_eq_ok.mp h
        cases hending : delivered.ending with
        | some message =>
            rw [hending] at h
            cases h
        | none =>
            rw [hending] at h
            obtain rfl := Except.ok.inj h
            have hall := (hchunks delivered.content).trans
              (bind_eq_ok.mpr ⟨first, hfirst, bind_eq_ok.mpr ⟨second, hsecond, hthird⟩⟩)
            obtain ⟨hcarries, heq⟩ := DeferredFile.foldlM_put.mp hall
            exact ⟨delivered, ⟨hdump, hending, hcarries⟩, heq⟩
  · rintro ⟨delivered, h, rfl⟩
    have hall := (hchunks delivered.content).symm.trans
      (DeferredFile.foldlM_put.mpr ⟨h.carries, rfl⟩)
    obtain ⟨first, hfirst, hall⟩ := bind_eq_ok.mp hall
    obtain ⟨second, hsecond, hthird⟩ := bind_eq_ok.mp hall
    refine bind_eq_ok.mpr ⟨first, hfirst, ?_⟩
    rw [h.dump]
    refine bind_eq_ok.mpr ⟨second, hsecond, bind_eq_ok.mpr ⟨_, hthird, ?_⟩⟩
    rw [h.ending]

theorem contents_eq_dumpFile {content : Content} :
    (DeferredFile.after (dumpChunks sys sha1 content)).contents sys.medium =
      dumpFile sha1 content ↔ LastLasts sys sha1 content := by
  rw [← @flatten_dumpChunks sys]
  exact DeferredFile.contents_after

end Written

/-! ## The report -/

section Report

variable (sys : System) (sha1 : Bytes → Vector UInt8 20) (conn : Connection) (filename : Text)
  (includeSecrets overwriteExisting : Bool) (disk : Files)

/-- A finished dump is on the target file, all of it; a dump that fails leaves a target file
as it was. -/
def Reports : Prop :=
  let outcome := dumpDbTo sys sha1 conn filename includeSecrets overwriteExisting disk
  filename ≠ ['-'] →
    (outcome.2 = .ok () → ∃ version delivered file, conn.version = .ok version ∧
      conn.dump (dumpsSecrets version includeSecrets) = .ok delivered ∧ delivered.ending = none ∧
      outcome.1 (components filename) = some file ∧
      file.content = dumpFile sha1 delivered.content) ∧
    (∀ error, outcome.2 = .error error → ∀ file, disk (components filename) = some file →
      outcome.1 (components filename) = some file)

/-- A file can be opened for the dump, and the target put in its place. -/
def Publishes : Prop :=
  match outputKind sys.windows filename with
  | .stdout => False
  | .direct => sys.opens ∧ (overwriteExisting ∨ disk (components filename) = none)
  | .temporary _ => sys.opens ∧ sys.renames ∧
      (overwriteExisting ∨ disk (components filename) = none)

/-- Every operation whose outcome is looked at succeeds, and the last chunk is not, or not
all of it, on the file when the call returns. -/
def LosesLast : Prop :=
  Publishes sys filename overwriteExisting disk ∧ ∃ version delivered,
    conn.version = .ok version ∧
    Completes sys sha1 conn (dumpsSecrets version includeSecrets) delivered ∧
    ¬ LastLasts sys sha1 delivered.content

/-- A target file is opened directly and truncated, and then something fails. -/
def TruncatesInVain : Prop :=
  outputKind sys.windows filename = .direct ∧ sys.opens = true ∧ overwriteExisting = true ∧
    disk (components filename) ≠ none ∧ ∃ version, conn.version = .ok version ∧
      ∀ delivered, ¬ Completes sys sha1 conn (dumpsSecrets version includeSecrets) delivered

end Report

section Outcomes

variable {sys : System} {sha1 : Bytes → Vector UInt8 20} {conn : Connection} {filename : Text}
  {includeSecrets overwriteExisting : Bool} {disk : Files}

theorem tmpPath_ne {path : Path} {name : Text} (h : path.getLast? = some (.normal name)) :
    path ≠ tmpPath path name := by
  intro heq
  rw [heq, tmpPath, List.getLast?_concat, Option.some.injEq, Component.normal.injEq] at h
  have hlength := congrArg List.length h
  simp [tmpFileName] at hlength
  omega

theorem outputKind_stdout {windows : Bool} :
    outputKind windows filename = .stdout ↔ filename = ['-'] := by
  unfold outputKind
  constructor
  · intro h
    by_contra hne
    rw [if_neg hne] at h
    split at h
    · cases h
    · split at h <;> cases h
  · exact fun h => if_pos h

theorem getLast?_of_outputKind {windows : Bool} {name : Text}
    (h : outputKind windows filename = .temporary name) :
    (components filename).getLast? = some (.normal name) := by
  unfold outputKind at h
  split at h
  · cases h
  · split at h
    · cases h
    · split at h
      · next found hfound =>
        cases h
        exact hfound
      · cases h

/-- What is stored when the dump is cut short, and when it is not. -/
theorem store_self {path : Path} {output : Output} :
    ∃ changes, store sys disk (some path) output path =
      some ⟨output.contents sys.medium, changes⟩ ∧
        ∀ file, disk path = some file → changes = file.changes + 1 := by
  refine ⟨_, Directory.link_self, fun file hfile => ?_⟩
  rw [hfile]
  rfl

theorem dumpDbTo_of_openError {version : Versions.Specific} {disk' : Files} {error : DumpError}
    (hversion : conn.version = .ok version)
    (hopen : Guard.open sys filename overwriteExisting disk = (disk', .error error)) :
    dumpDbTo sys sha1 conn filename includeSecrets overwriteExisting disk =
      (disk', .error error) := by
  rw [dumpDbTo, hversion]
  simp only [hopen]

theorem dumpDbTo_of_writeError {version : Versions.Specific} {disk' : Files} {path : Option Path}
    {guard : Guard} {output : Output} {error : DumpError} (hversion : conn.version = .ok version)
    (hopen : Guard.open sys filename overwriteExisting disk = (disk', .ok (path, guard)))
    (hwrite : writeDump sys sha1 conn (dumpsSecrets version includeSecrets) =
      .error (output, error)) :
    dumpDbTo sys sha1 conn filename includeSecrets overwriteExisting disk =
      (store sys disk' path output, .error error) := by
  rw [dumpDbTo, hversion]
  simp only [hopen, hwrite]

theorem dumpDbTo_of_write {version : Versions.Specific} {disk' : Files} {path : Option Path}
    {guard : Guard} {output : Output} (hversion : conn.version = .ok version)
    (hopen : Guard.open sys filename overwriteExisting disk = (disk', .ok (path, guard)))
    (hwrite : writeDump sys sha1 conn (dumpsSecrets version includeSecrets) = .ok output) :
    dumpDbTo sys sha1 conn filename includeSecrets overwriteExisting disk =
      Guard.commit sys guard (store sys disk' path output) := by
  rw [dumpDbTo, hversion]
  simp only [hopen, hwrite]

/-- A failure that leaves the target alone is reported well. -/
theorem reports_of_failed {disk' : Files} {error : DumpError}
    (hout : dumpDbTo sys sha1 conn filename includeSecrets overwriteExisting disk =
      (disk', .error error))
    (hsame : ∀ file, disk (components filename) = some file →
      disk' (components filename) = some file) :
    Reports sys sha1 conn filename includeSecrets overwriteExisting disk := by
  intro _
  rw [hout]
  refine ⟨fun h => (by cases h), fun _ _ => hsame⟩

/-- A dump that finishes is reported well exactly if all of the last chunk is on file. -/
theorem reports_of_finished {disk' : Files} {version : Versions.Specific} {delivered : Delivered}
    {changes : Nat} (hname : filename ≠ ['-']) (hversion : conn.version = .ok version)
    (hcompletes : Completes sys sha1 conn (dumpsSecrets version includeSecrets) delivered)
    (hout : dumpDbTo sys sha1 conn filename includeSecrets overwriteExisting disk =
      (disk', .ok ()))
    (hfile : disk' (components filename) = some
      ⟨(DeferredFile.after (dumpChunks sys sha1 delivered.content)).contents sys.medium,
        changes⟩) :
    Reports sys sha1 conn filename includeSecrets overwriteExisting disk ↔
      LastLasts sys sha1 delivered.content := by
  rw [← contents_eq_dumpFile]
  constructor
  · intro h
    have hok := (h hname).1
    rw [hout] at hok
    obtain ⟨version', delivered', file, hversion', hdump', -, hfile', hcontent⟩ := hok rfl
    obtain rfl := Except.ok.inj (hversion.symm.trans hversion')
    obtain rfl := Except.ok.inj (hcompletes.dump.symm.trans hdump')
    obtain rfl := Option.some.inj (hfile.symm.trans hfile')
    exact hcontent
  · intro hcontent _
    rw [hout]
    refine ⟨fun _ => ⟨version, delivered, _, hversion, hcompletes.dump, hcompletes.ending, hfile,
      hcontent⟩, fun error h => (by cases h)⟩

theorem losesLast_iff {version : Versions.Specific} {delivered : Delivered}
    (hversion : conn.version = .ok version)
    (hcompletes : Completes sys sha1 conn (dumpsSecrets version includeSecrets) delivered)
    (hpublishes : Publishes sys filename overwriteExisting disk) :
    LosesLast sys sha1 conn filename includeSecrets overwriteExisting disk ↔
      ¬ LastLasts sys sha1 delivered.content := by
  constructor
  · rintro ⟨-, version', delivered', hversion', hcompletes', hlast⟩
    obtain rfl := Except.ok.inj (hversion.symm.trans hversion')
    obtain rfl := Except.ok.inj (hcompletes.dump.symm.trans hcompletes'.dump)
    exact hlast
  · exact fun hlast => ⟨hpublishes, version, delivered, hversion, hcompletes, hlast⟩

theorem not_losesLast {version : Versions.Specific} (hversion : conn.version = .ok version)
    (hnot : ∀ delivered, ¬ Completes sys sha1 conn (dumpsSecrets version includeSecrets)
      delivered) :
    ¬ LosesLast sys sha1 conn filename includeSecrets overwriteExisting disk := by
  rintro ⟨-, version', delivered, hversion', hcompletes, -⟩
  obtain rfl := Except.ok.inj (hversion.symm.trans hversion')
  exact hnot delivered hcompletes

/-- A write that fails tells that the dump does not complete. -/
theorem not_completes_of_error {failure : Output × DumpError} {secrets : Bool}
    (h : writeDump sys sha1 conn secrets = .error failure) (delivered : Delivered) :
    ¬ Completes sys sha1 conn secrets delivered := by
  intro hcompletes
  rw [writeDump_eq_ok.mpr ⟨delivered, hcompletes, rfl⟩] at h
  cases h

theorem reports_of_direct (hkind : outputKind sys.windows filename = .direct) :
    Reports sys sha1 conn filename includeSecrets overwriteExisting disk ↔
      ¬ LosesLast sys sha1 conn filename includeSecrets overwriteExisting disk ∧
        ¬ TruncatesInVain sys sha1 conn filename includeSecrets overwriteExisting disk := by
  have hname : filename ≠ ['-'] := by
    intro h
    rw [outputKind_stdout.mpr h] at hkind
    cases hkind
  cases hversion : conn.version with
  | error message =>
      refine iff_of_true (reports_of_failed (by rw [dumpDbTo, hversion]) fun _ h => h) ⟨?_, ?_⟩
      · rintro ⟨-, version, delivered, h, -⟩
        rw [hversion] at h
        cases h
      · rintro ⟨-, -, -, -, version, h, -⟩
        rw [hversion] at h
        cases h
  | ok version =>
      by_cases hopens : sys.opens ∧ (overwriteExisting ∨ disk (components filename) = none)
      · have hopen : Guard.open sys filename overwriteExisting disk =
            (openAt disk (components filename), .ok (some (components filename), none)) := by
          rw [Guard.open, hkind]
          exact if_pos hopens
        have hpublishes : Publishes sys filename overwriteExisting disk := by
          rw [Publishes, hkind]
          exact hopens
        cases hwrite : writeDump sys sha1 conn (dumpsSecrets version includeSecrets) with
        | error failure =>
            have hnot := not_completes_of_error hwrite
            have hout := dumpDbTo_of_writeError hversion hopen hwrite
            rw [and_iff_right (not_losesLast hversion hnot)]
            constructor
            · rintro h ⟨-, -, -, hexists, -⟩
              obtain ⟨file, hfile⟩ := Option.ne_none_iff_exists'.mp hexists
              -- the file was changed when it was opened
              have hsame := (h hname).2 failure.2 (by rw [hout]) file hfile
              obtain ⟨changes, hstore, hchanges⟩ := @store_self sys
                (openAt disk (components filename)) (components filename) failure.1
              rw [hout] at hsame
              have heq := Option.some.inj (hstore.symm.trans hsame)
              have hchanged : changes = file.changes + 1 + 1 := by
                refine hchanges ⟨[], file.changes + 1⟩ ?_
                rw [openAt, Directory.link_self, hfile]
                rfl
              rw [← heq] at hchanged
              replace hchanged : changes = changes + 1 + 1 := hchanged
              omega
            · intro h
              refine reports_of_failed hout fun file hfile => absurd ?_ h
              have hexists : disk (components filename) ≠ none := by
                rw [hfile]
                exact Option.some_ne_none file
              exact ⟨hkind, hopens.1, hopens.2.resolve_right hexists, hexists, version, hversion,
                hnot⟩
        | ok output =>
            obtain ⟨delivered, hcompletes, rfl⟩ := writeDump_eq_ok.mp hwrite
            obtain ⟨changes, hstore, -⟩ := @store_self sys
              (openAt disk (components filename)) (components filename)
              (.after (dumpChunks sys sha1 delivered.content))
            rw [reports_of_finished hname hversion hcompletes
              (dumpDbTo_of_write hversion hopen hwrite) hstore,
              losesLast_iff hversion hcompletes hpublishes, not_not]
            refine (and_iff_left ?_).symm
            rintro ⟨-, -, -, -, version', hversion', hnot⟩
            obtain rfl := Except.ok.inj (hversion.symm.trans hversion')
            exact hnot delivered hcompletes
      · have hopen : Guard.open sys filename overwriteExisting disk =
            (disk, .error .openFailed) := by
          rw [Guard.open, hkind]
          exact if_neg hopens
        refine iff_of_true (reports_of_failed (dumpDbTo_of_openError hversion hopen)
          fun _ h => h) ⟨?_, ?_⟩
        · rintro ⟨hpublishes, -⟩
          rw [Publishes, hkind] at hpublishes
          exact hopens hpublishes
        · rintro ⟨-, hsys, hoverwrite, -⟩
          exact hopens ⟨hsys, .inl hoverwrite⟩

theorem reports_of_temporary {name : Text}
    (hkind : outputKind sys.windows filename = .temporary name) :
    Reports sys sha1 conn filename includeSecrets overwriteExisting disk ↔
      ¬ LosesLast sys sha1 conn filename includeSecrets overwriteExisting disk := by
  have hname : filename ≠ ['-'] := by
    intro h
    rw [outputKind_stdout.mpr h] at hkind
    cases hkind
  have hne := tmpPath_ne (getLast?_of_outputKind hkind)
  cases hversion : conn.version with
  | error message =>
      refine iff_of_true (reports_of_failed (by rw [dumpDbTo, hversion]) fun _ h => h) ?_
      rintro ⟨-, version, delivered, h, -⟩
      rw [hversion] at h
      cases h
  | ok version =>
      -- `open` checks the target, may remove an old temporary file, and then opens a new one
      by_cases hbail : (!overwriteExisting) ∧ sys.metadata ∧ disk (components filename) ≠ none
      · have hopen : Guard.open sys filename overwriteExisting disk =
            (disk, .error .alreadyExists) := by
          rw [Guard.open, hkind]
          exact if_pos hbail
        refine iff_of_true (reports_of_failed (dumpDbTo_of_openError hversion hopen)
          fun _ h => h) ?_
        rintro ⟨hpublishes, -⟩
        rw [Publishes, hkind] at hpublishes
        rcases hpublishes.2.2 with hoverwrite | hnone
        · rw [hoverwrite] at hbail
          exact Bool.false_ne_true hbail.1
        · exact hbail.2.2 hnone
      -- the target is not touched by clearing a place for the temporary file
      obtain ⟨cleared, hcleared, htarget⟩ : ∃ cleared : Files,
          (if sys.removeTmp then disk.unlink (tmpPath (components filename) name) else disk) =
            cleared ∧ cleared (components filename) = disk (components filename) := by
        refine ⟨_, rfl, ?_⟩
        split
        · exact Directory.unlink_of_ne hne
        · rfl
      by_cases hopens : sys.opens = true
      · have hopen : Guard.open sys filename overwriteExisting disk =
            (openAt cleared (tmpPath (components filename) name),
              .ok (some (tmpPath (components filename) name),
                some (tmpPath (components filename) name, components filename,
                  overwriteExisting))) := by
          rw [Guard.open, hkind]
          simp only [if_neg hbail, hcleared, if_pos hopens]
        -- until the rename, all that is written goes to the temporary file
        have hstored : ∀ output, store sys (openAt cleared (tmpPath (components filename) name))
            (some (tmpPath (components filename) name)) output (components filename) =
              disk (components filename) := by
          intro output
          rw [store, Directory.link_of_ne hne, openAt, Directory.link_of_ne hne, htarget]
        cases hwrite : writeDump sys sha1 conn (dumpsSecrets version includeSecrets) with
        | error failure =>
            exact iff_of_true
              (reports_of_failed (dumpDbTo_of_writeError hversion hopen hwrite)
                fun file hfile => (hstored failure.1).trans hfile)
              (not_losesLast hversion (not_completes_of_error hwrite))
        | ok output =>
            obtain ⟨delivered, hcompletes, rfl⟩ := writeDump_eq_ok.mp hwrite
            have hout := dumpDbTo_of_write hversion hopen hwrite
            rw [Guard.commit, hstored] at hout
            by_cases hrenames : sys.renames = true ∧
                (overwriteExisting = true ∨ disk (components filename) = none)
            · rw [if_pos hrenames] at hout
              obtain ⟨changes, hstore, -⟩ := @store_self sys
                (openAt cleared (tmpPath (components filename) name))
                (tmpPath (components filename) name)
                (.after (dumpChunks sys sha1 delivered.content))
              have hpublishes : Publishes sys filename overwriteExisting disk := by
                rw [Publishes, hkind]
                exact ⟨hopens, hrenames⟩
              rw [reports_of_finished hname hversion hcompletes hout
                (Directory.rename_new.trans hstore),
                losesLast_iff hversion hcompletes hpublishes, not_not]
            · rw [if_neg hrenames] at hout
              refine iff_of_true (reports_of_failed hout
                fun file hfile => (hstored _).trans hfile) ?_
              rintro ⟨hpublishes, -⟩
              rw [Publishes, hkind] at hpublishes
              exact hrenames hpublishes.2
      · have hopen : Guard.open sys filename overwriteExisting disk =
            (cleared, .error .openFailed) := by
          rw [Guard.open, hkind]
          simp only [if_neg hbail, hcleared, if_neg hopens]
        refine iff_of_true (reports_of_failed (dumpDbTo_of_openError hversion hopen)
          fun file hfile => htarget.trans hfile) ?_
        rintro ⟨hpublishes, -⟩
        rw [Publishes, hkind] at hpublishes
        exact hopens hpublishes.1

end Outcomes

/-- **A dump is reported as it is exactly if its last chunk is not lost after every reported
operation has succeeded, and no target is truncated for a dump that fails.** -/
theorem reports_iff (sys : System) (sha1 : Bytes → Vector UInt8 20) (conn : Connection)
    (filename : Text) (includeSecrets overwriteExisting : Bool) (disk : Files) :
    Reports sys sha1 conn filename includeSecrets overwriteExisting disk ↔
      ¬ LosesLast sys sha1 conn filename includeSecrets overwriteExisting disk ∧
        ¬ TruncatesInVain sys sha1 conn filename includeSecrets overwriteExisting disk := by
  cases hkind : outputKind sys.windows filename with
  | stdout =>
      refine iff_of_true (fun hname => absurd (outputKind_stdout.mp hkind) hname) ⟨?_, ?_⟩
      · rintro ⟨hpublishes, -⟩
        rw [Publishes, hkind] at hpublishes
        exact hpublishes
      · rintro ⟨hdirect, -⟩
        rw [hkind] at hdirect
        cases hdirect
  | direct => exact reports_of_direct hkind
  | temporary name =>
      rw [reports_of_temporary hkind]
      refine (and_iff_left ?_).symm
      rintro ⟨hdirect, -⟩
      rw [hkind] at hdirect
      cases hdirect

namespace FullDisk

/-- The digest of no bytes. -/
def sha1 (_ : Bytes) : Vector UInt8 20 :=
  #v[0xda, 0x39, 0xa3, 0xee, 0x5e, 0x6b, 0x4b, 0x0d, 0x32, 0x55, 0xbf, 0xef, 0x95, 0x60, 0x18, 0x90,
    0xaf, 0xd8, 0x07, 0x09]

/-- A system whose disk is full when the first 25 bytes are on it. -/
def system : System where
  windows := false
  metadata := true
  removeTmp := true
  opens := true
  renames := true
  cut bytes := if bytes.isEmpty then [] else [bytes]
  medium := ⟨fun _ => true, fun i => if i = 0 then .written else .failed 0⟩
  flatten_cut bytes := by
    cases bytes with
    | nil => rfl
    | cons b bytes => exact List.append_nil _

def connection : Connection where
  version := .ok ⟨6, .minor 8⟩
  dump _ := .ok ⟨⟨[], []⟩, by decide, none⟩

/-- What is left of the dump. -/
def leftOver : File := ⟨magic ++ dumpVersion, 1⟩

end FullDisk

open FullDisk in
/-- The header packet is lost, and the dump counts as finished. -/
theorem not_reports_fullDisk :
    ¬ Reports system sha1 connection "my.dump".toList false false fun _ => none := by
  intro h
  have hfinished : (dumpDbTo system sha1 connection "my.dump".toList false false
      fun _ => none).2 = .ok () := by decide +kernel
  obtain ⟨version, delivered, file, -, hdump, -, hfile, hcontent⟩ :=
    (h (by decide)).1 hfinished
  have hleft : (dumpDbTo system sha1 connection "my.dump".toList false false
      fun _ => none).1 (components "my.dump".toList) = some leftOver := by decide +kernel
  obtain rfl := Option.some.inj (hleft.symm.trans hfile)
  obtain rfl := Except.ok.inj hdump
  exact absurd (congrArg List.length hcontent) (by decide)

end GelCli.Dump
