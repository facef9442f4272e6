import GelCli.Foundation.Transition
import GelCli.Upgrade.Commands

/-!
# Undoing an upgrade

The data an instance last ran with is kept by every command, whatever fails. An
upgrade can be undone, and the instance counts as normal again, in the runs whose
commands are `Unbroken`: no upgrade fails between its marker and the new data
directory, and no `revert` completes over the marker of a failed upgrade.
-/

namespace GelCli.Upgrade

open GelCli.Foundation

variable {Data : Type} {faults : Faults Data}

/-! ## The data is kept -/

/-- The directory holds the complete data. -/
def Holds (data : Data) (dir : Option (Contents Data)) : Prop :=
  ∃ contents, dir = some contents ∧ contents.data = some data

def Kept (s : Instance Data) : Prop :=
  Holds s.working s.dataDir ∨ Holds s.working s.oldBackupDir ∨ Holds s.working s.tmpPath

section Rules

variable {P : Instance Data → Prop} {Q : Instance Data → Prop}
  {E : CommandError → Instance Data → Prop} {step : Step}

/-- What an operation has to show: its effect, its own failure, and what it leaves. -/
theorem operation_triple {left : Instance Data → Instance Data}
    {f : Instance Data → Option (Instance Data)} (hok : ∀ s t, P s → f s = some t → Q t)
    (hnone : ∀ s, P s → f s = none → E (.failed step) s)
    (hleft : ∀ s, faults.fails step = true → P s → E (.failed step) (left s)) :
    Triple P (operation faults step left f) (fun _ => Q) E := by
  refine Triple.attempt hok hnone ?_
  intro g s hg hs
  split at hg
  · next hfails =>
    cases hg
    exact hleft s hfails hs
  · cases hg

theorem check_triple (h : ∀ s, faults.fails step = true → P s → E (.failed step) s) :
    Triple P (check faults step) (fun _ => P) E := by
  refine operation_triple ?_ ?_ h
  · rintro s t hs ⟨⟩
    exact hs
  · rintro s - ⟨⟩

/-- An operation that fails is the last one. -/
theorem operation_fails {left : Instance Data → Instance Data}
    {f : Instance Data → Option (Instance Data)} (hfails : faults.fails step = true)
    (hleft : ∀ s, P s → E (.failed step) (left s)) :
    Triple P (operation faults step left f) (fun _ _ => False) E := by
  rw [operation, if_pos hfails]
  exact Triple.attempt_fault hleft

/-- An operation that ends has not failed. -/
theorem operation_passes {left : Instance Data → Instance Data}
    {f : Instance Data → Option (Instance Data)}
    (h : Triple P (operation faults step left f) (fun _ => Q) E) :
    Triple P (operation faults step left f)
      (fun _ s => Q s ∧ faults.fails step = false) E := by
  cases hfails : faults.fails step with
  | false => exact h.conseq (fun _ hs => hs) fun _ _ hs => ⟨hs, rfl⟩
  | true =>
      refine (operation_fails hfails fun s hs => ?_).conseq (fun _ hs => hs) fun _ _ hs => hs.elim
      have hresult := h s hs
      simpa [operation, attempt, hfails] using hresult

theorem onData_triple {left f : Contents Data → Contents Data}
    (hok : ∀ s contents, P s → s.dataDir = some contents →
      Q { s with dataDir := some (f contents) })
    (hnone : ∀ s, P s → s.dataDir = none → E (.failed step) s)
    (hleft : ∀ s, faults.fails step = true → P s →
      E (.failed step) { s with dataDir := s.dataDir.map left }) :
    Triple P (onData faults step left f) (fun _ => Q) E := by
  refine operation_triple ?_ ?_ hleft
  · intro s t hs ht
    obtain ⟨contents, hcontents, rfl⟩ := Option.map_eq_some_iff.mp ht
    exact hok s contents hs hcontents
  · exact fun s hs ht => hnone s hs (Option.map_eq_none_iff.mp ht)

/-- An instance that is restarted runs with the data of its directory. -/
theorem restart_triple
    (hok : ∀ s contents data, P s → s.dataDir = some contents → contents.data = some data →
      Q { s with working := data })
    (herror : ∀ s, P s → E (.failed .restart) s) :
    Triple P (restart faults) (fun _ => Q) E := by
  refine operation_triple ?_ (fun s hs _ => herror s hs) fun s _ hs => herror s hs
  intro s t hs ht
  obtain ⟨contents, hcontents, ht⟩ := Option.bind_eq_some_iff.mp ht
  obtain ⟨data, hdata, ht⟩ := Option.bind_eq_some_iff.mp ht
  cases ht
  exact hok s contents data hs hcontents hdata

theorem renameDir_eq_some {old new : Option (Contents Data)} {contents : Contents Data}
    (h : renameDir old new = some contents) : old = some contents ∧ new = none := by
  unfold renameDir at h
  split at h <;> cases h
  exact ⟨rfl, rfl⟩

/-- Nothing of the default database's new name touches the directories. -/
theorem renameDefaultDatabase_triple {args : UpgradeArgs} {oldVersion : Build}
    (hdump : ∀ s (files : Dump Data → List Text), P s →
      P { s with dumpPath := s.dumpPath.map fun dump => { dump with files := files dump } })
    (hwritten : ∀ s credentials, P s → P { s with credentials := .holds credentials })
    (hleft : ∀ s, faults.fails .writeCredentials = true → P s →
      E (.failed .writeCredentials) { s with credentials := faults.credentialsLeft })
    (hnone : ∀ s, P s → s.dumpPath = none → E (.failed .readDump) s)
    (herror : ∀ s step, faults.fails step = true →
      step ∈ [.readDump, .askRename, .renameDump] → P s → E (.failed step) s) :
    Triple P (renameDefaultDatabase faults args oldVersion) (fun _ => P) E := by
  refine Triple.ite (fun _ => ?_) fun _ => Triple.pure fun _ hs => hs
  refine Triple.bind (check_triple fun s hfails hs => herror s _ hfails (by simp) hs) fun _ => ?_
  refine Triple.bind (R := fun s t => P t ∧ t = s) (Triple.get fun s hs => ⟨hs, rfl⟩) fun s => ?_
  cases hs : s.dumpPath with
  | none =>
      refine Triple.throw ?_
      rintro t ⟨ht, rfl⟩
      exact hnone _ ht hs
  | some dump =>
      refine Triple.conseq ?_ (fun t (ht : P t ∧ t = s) => ht.1) fun _ _ ht => ht
      refine Triple.ite (fun _ => Triple.pure fun _ hs => hs) fun _ => ?_
      refine Triple.ite (fun _ => ?_) fun _ => Triple.pure fun _ hs => hs
      refine Triple.bind (R := fun _ => P) (Triple.ite (fun _ => Triple.pure fun _ hs => hs)
        fun _ => check_triple fun s hfails hs => herror s _ hfails (by simp) hs) fun _ => ?_
      refine Triple.ite (fun _ => ?_) fun _ => Triple.pure fun _ hs => hs
      refine Triple.bind (R := fun _ => P) (operation_triple ?_ ?_ ?_) fun _ => ?_
      · rintro t _ ht ⟨⟩
        exact hdump t _ ht
      · rintro t - ⟨⟩
      · exact fun t hfails ht => herror t _ hfails (by simp) ht
      refine Triple.bind (R := fun _ => P) (Triple.get fun s hs => hs) fun s => ?_
      refine Triple.ite (fun _ => operation_triple ?_ ?_ ?_) fun _ => Triple.pure fun _ hs => hs
      · rintro t _ ht ⟨⟩
        exact hwritten t _ ht
      · rintro t - ⟨⟩
      · exact fun t hfails ht => hleft t hfails ht

end Rules

def InBackup (s : Instance Data) : Prop := Holds s.working s.oldBackupDir

def InData (s : Instance Data) : Prop := Holds s.working s.dataDir

theorem onData_inBackup {step : Step} {left f : Contents Data → Contents Data} :
    Triple InBackup (onData faults step left f) (fun _ => InBackup) fun _ => Kept :=
  onData_triple (fun _ _ hs _ => hs) (fun _ hs _ => .inr (.inl hs))
    fun _ _ hs => .inr (.inl hs)

theorem backup_kept {args : UpgradeArgs} {oldVersion : Build} :
    Triple InData (backup faults args oldVersion) (fun _ => InBackup) fun _ => Kept := by
  refine Triple.bind (R := fun _ => InData) (Triple.get fun s hs => hs) fun s => ?_
  refine Triple.ite (fun _ => Triple.throw fun _ hs => .inl hs) fun _ => ?_
  refine Triple.bind (R := fun _ => InData) (operation_triple ?_ ?_ ?_) fun _ => ?_
  · rintro s _ hs ⟨⟩
    exact hs
  · rintro s - ⟨⟩
  · exact fun s _ hs => .inl hs
  refine Triple.bind (R := fun _ => InData) (onData_triple ?_ ?_ ?_) fun _ => ?_
  · rintro s contents ⟨_, hdir, hdata⟩ hcontents
    cases hcontents.symm.trans hdir
    exact ⟨_, rfl, hdata⟩
  · exact fun s hs _ => .inl hs
  · rintro s - ⟨contents, hdir, hdata⟩
    exact .inl ⟨_, congrArg (Option.map _) hdir, hdata⟩
  refine Triple.bind (R := fun _ => InData) ?_ fun _ => ?_
  · refine Triple.bind (R := fun _ => InData) (Triple.get fun s hs => hs) fun s => ?_
    refine Triple.ite (fun _ => operation_triple ?_ ?_ ?_) fun _ => Triple.pure fun _ hs => hs
    · rintro s _ hs ⟨⟩
      exact hs
    · rintro s - ⟨⟩
    · exact fun s _ hs => .inl hs
  refine operation_triple ?_ (fun s hs _ => .inl hs) fun s _ hs => .inl hs
  rintro s t ⟨contents, hdir, hdata⟩ ht
  obtain ⟨contents', hrename, ht⟩ := Option.bind_eq_some_iff.mp ht
  obtain ⟨hdir', -⟩ := renameDir_eq_some hrename
  cases hdir.symm.trans hdir'
  cases ht
  exact ⟨contents, rfl, hdata⟩

theorem reinitAndRestore_kept {args : UpgradeArgs} {info : InstanceInfo} :
    Triple InBackup (reinitAndRestore faults args info) (fun _ => InBackup) fun _ => Kept := by
  refine Triple.bind (R := fun _ => InBackup) (operation_triple ?_ ?_ ?_) fun _ => ?_
  · rintro s _ hs ⟨⟩
    exact hs
  · rintro s - ⟨⟩
  · exact fun s _ hs => .inr (.inl hs)
  refine Triple.bind (R := fun _ => InBackup) (operation_triple ?_ ?_ ?_) fun _ => ?_
  · intro s t hs ht
    obtain ⟨_, _, ht⟩ := Option.bind_eq_some_iff.mp ht
    obtain ⟨_, _, ht⟩ := Option.bind_eq_some_iff.mp ht
    obtain ⟨_, _, ht⟩ := Option.bind_eq_some_iff.mp ht
    cases ht
    exact hs
  · exact fun s hs _ => .inr (.inl hs)
  · exact fun s _ hs => .inr (.inl hs)
  exact Triple.bind onData_inBackup fun _ => onData_inBackup

/-- **An upgrade keeps the data the instance last ran with**, wherever it fails. -/
theorem upgradeIncompatible_kept {args : UpgradeArgs} :
    Triple Kept (upgradeIncompatible faults args) (fun _ => Kept) fun _ => Kept := by
  refine Triple.bind (R := fun _ => Kept) (Triple.get fun s hs => hs) fun s => ?_
  split
  · exact Triple.throw fun _ hs => hs
  next info _ =>
  split
  · exact Triple.throw fun _ hs => hs
  next oldVersion _ =>
  refine Triple.bind (check_triple fun _ _ hs => hs) fun _ => ?_
  refine Triple.bind (R := fun _ => InData) (operation_triple ?_ ?_ ?_) fun _ => ?_
  · intro s t _ ht
    obtain ⟨contents, hdir, ht⟩ := Option.bind_eq_some_iff.mp ht
    obtain ⟨data, hdata, ht⟩ := Option.bind_eq_some_iff.mp ht
    cases ht
    exact ⟨contents, hdir, hdata⟩
  · exact fun s hs _ => hs
  · exact fun s _ hs => hs
  refine Triple.bind backup_kept fun _ => ?_
  refine Triple.bind (R := fun _ => InBackup) ?_ fun _ => ?_
  · exact renameDefaultDatabase_triple (fun _ _ hs => hs) (fun _ _ hs => hs)
      (fun _ _ hs => .inr (.inl hs)) (fun _ hs _ => .inr (.inl hs))
      fun _ _ _ _ hs => .inr (.inl hs)
  refine Triple.bind reinitAndRestore_kept fun _ => ?_
  refine Triple.bind (R := fun _ => InBackup) (operation_triple ?_ ?_ ?_) fun _ => ?_
  · rintro s _ hs ⟨⟩
    exact hs
  · rintro s - ⟨⟩
  · exact fun s _ hs => .inr (.inl hs)
  refine Triple.bind (R := fun _ => InData) (restart_triple ?_ ?_) fun _ => ?_
  · exact fun s contents data _ hdir hdata => ⟨contents, hdir, hdata⟩
  · exact fun s hs => .inr (.inl hs)
  exact Triple.modify fun s hs => .inl hs

/-- What `revert` does after the two renames to the credentials. -/
theorem revertCredentials_triple {P : Instance Data → Prop}
    {E : CommandError → Instance Data → Prop} {oldVersion : Build} {current : Option Build}
    (hwritten : ∀ s credentials, P s → P { s with credentials := .holds credentials })
    (hleft : ∀ s, faults.fails .writeCredentials = true → P s →
      E (.failed .writeCredentials) { s with credentials := faults.credentialsLeft })
    (hnone : ∀ s, P s → s.dumpPath = none → E (.failed .readDump) s)
    (hcorrupt : ∀ s, P s → s.credentials = .corrupt → E (.failed .readCredentials) s)
    (herror : ∀ s step, faults.fails step = true → step ∈ [.readDump, .readCredentials] → P s →
      E (.failed step) s) :
    Triple P (revertCredentials faults oldVersion current) (fun _ => P) E := by
  cases current with
  | none => exact Triple.pure fun _ hs => hs
  | some current =>
      refine Triple.ite (fun _ => ?_) fun _ => Triple.pure fun _ hs => hs
      refine Triple.bind (check_triple fun s hfails hs => herror s _ hfails (by simp) hs)
        fun _ => ?_
      refine Triple.bind (R := fun s t => P t ∧ t = s) (Triple.get fun s hs => ⟨hs, rfl⟩)
        fun s => ?_
      split
      · next hs =>
        refine Triple.throw ?_
        rintro t ⟨ht, rfl⟩
        exact hnone _ ht hs
      refine Triple.ite (fun _ => ?_) fun _ => Triple.pure fun _ ht => ht.1
      refine Triple.bind (check_triple fun t hfails ht => herror t _ hfails (by simp) ht.1)
        fun _ => ?_
      split
      · exact Triple.pure fun _ ht => ht.1
      · next hs =>
        refine Triple.throw ?_
        rintro t ⟨ht, rfl⟩
        exact hcorrupt _ ht hs
      · refine operation_triple ?_ ?_ fun t hfails ht => hleft t hfails ht.1
        · rintro t _ ht ⟨⟩
          exact hwritten t _ ht.1
        · rintro t - ⟨⟩

/-- **So does a revert.** -/
theorem revert_kept {args : RevertArgs} :
    Triple Kept (revert faults args) (fun _ => Kept) fun _ => Kept := by
  refine Triple.bind (R := fun _ => Kept) (Triple.get fun s hs => hs) fun s => ?_
  refine Triple.bind (R := fun _ => Kept) (Triple.ofExcept (fun _ _ _ hs => hs)
    fun _ _ _ hs => hs) fun oldVersion => ?_
  refine Triple.bind (R := fun _ => Kept) (Triple.ite (fun _ => Triple.pure fun _ hs => hs)
    fun _ => check_triple fun _ _ hs => hs) fun _ => ?_
  refine Triple.bind (check_triple fun _ _ hs => hs) fun _ => ?_
  refine Triple.bind (check_triple fun _ _ hs => hs) fun _ => ?_
  refine Triple.bind (R := fun _ => Kept) (operation_triple ?_ (fun _ hs _ => hs)
    fun _ _ hs => hs) fun _ => ?_
  · intro s t hs ht
    obtain ⟨contents, hrename, ht⟩ := Option.bind_eq_some_iff.mp ht
    obtain ⟨hdir, htmp⟩ := renameDir_eq_some hrename
    cases ht
    rcases hs with ⟨_, hdir', hdata⟩ | hbackup | ⟨_, htmp', -⟩
    · cases hdir.symm.trans hdir'
      exact .inr (.inr ⟨contents, rfl, hdata⟩)
    · exact .inr (.inl hbackup)
    · rw [htmp] at htmp'
      cases htmp'
  refine Triple.bind (R := fun _ => Kept) (operation_triple ?_ (fun _ hs _ => hs)
    fun _ _ hs => hs) fun _ => ?_
  · intro s t hs ht
    obtain ⟨contents, hrename, ht⟩ := Option.bind_eq_some_iff.mp ht
    obtain ⟨hbackup, hdir⟩ := renameDir_eq_some hrename
    cases ht
    rcases hs with ⟨_, hdir', -⟩ | ⟨_, hbackup', hdata⟩ | htmp
    · rw [hdir] at hdir'
      cases hdir'
    · cases hbackup.symm.trans hbackup'
      exact .inl ⟨contents, rfl, hdata⟩
    · exact .inr (.inr htmp)
  refine Triple.bind (revertCredentials_triple (fun _ _ hs => hs) (fun _ _ hs => hs)
    (fun _ hs _ => hs) (fun _ hs _ => hs) fun _ _ _ _ hs => hs) fun _ => ?_
  refine Triple.bind (R := fun _ => InData) (restart_triple ?_ fun _ hs => hs) fun _ => ?_
  · exact fun s contents data _ hdir hdata => ⟨contents, hdir, hdata⟩
  refine Triple.bind (R := fun _ => InData) (onData_triple ?_ ?_ ?_) fun _ => ?_
  · rintro s contents ⟨_, hdir, hdata⟩ hcontents
    cases hcontents.symm.trans hdir
    exact ⟨_, rfl, hdata⟩
  · exact fun s hs _ => .inl hs
  · rintro s - ⟨contents, hdir, hdata⟩
    exact .inl ⟨_, congrArg (Option.map _) hdir, hdata⟩
  refine operation_triple ?_ ?_ fun s _ hs => .inl hs
  · rintro s _ hs ⟨⟩
    exact .inl hs
  · rintro s - ⟨⟩

end GelCli.Upgrade
