import GelCli.Branch.RebaseRules

/-!
# What a rebase leaves

The source branch or the rebased clone has to be there after the command, the target as
it was, the migration files as they were unless the clone has taken the place of the
source, and the command may end well only when it has. `Safe` says which faults allow
for that: the clean-up of a rebase that has failed drops the clone and ends the command
as if nothing had happened, and nobody brings the old migration files back.
-/

namespace GelCli.Branch

open GelCli.Foundation

variable {Content : Type}

section Statement

variable (env : Env Content) (faults : Faults) (targetBranch : Text) (source : Connection)
  (s : Session Content)

def currentBranch : Text := env.contextBranch.getD source.branch

/-- The state in which the command starts: the names that are made for it are new, and so
is the identity of the clone. -/
structure Ready : Prop where
  connected : s.connected source = true
  current : s.branches.get (currentBranch env source) ≠ none
  temp : s.branches.get env.temp.text = none
  ids : ∀ name b, s.branches.get name = some b → b.id ≠ env.temp.text
  helper : ∀ phase, s.branches.get (env.helper phase).text = none
  helperTemp : ∀ phase, (env.helper phase).text ≠ env.temp.text
  helpers : (env.helper .rename).text ≠ (env.helper .cleanUp).text

/-! ## The rebased clone -/

def divergence : Option RebaseMigrations :=
  (s.branches.get source.branch).bind fun b =>
    (s.branches.get targetBranch).bind fun t =>
      divergingMigrations (env.server.history b.content) (env.server.history t.content)

/-- The target with the migrations of the source on top. -/
def rebasedClone : Option (StoredBranch Content) :=
  (divergence env targetBranch source s).bind fun diverging =>
    (newMigrationFiles env diverging).bind fun plan =>
      (env.texts.readAll (rewritten s.files plan.2)).bind fun files =>
        (s.branches.get targetBranch).bind fun t =>
          (env.server.commit (migrationsToApply plan.1 files) t.content).map fun content =>
            ⟨env.temp.text, content⟩

/-! ## What has to hold after the command -/

def SameFiles (files old : Dict Text Text) : Prop := ∀ name, files.get name = old.get name

/-- The clone has taken the place of the source branch. -/
def InPlace (t : Session Content) : Prop :=
  ∃ b, rebasedClone env targetBranch source s = some b ∧
    t.branches.get (currentBranch env source) = some b

structure Preserved (t : Session Content) : Prop where
  branch : t.branches.get (currentBranch env source) =
      s.branches.get (currentBranch env source) ∨
    ∃ name b, rebasedClone env targetBranch source s = some b ∧ t.branches.get name = some b
  target : t.branches.get targetBranch = s.branches.get targetBranch
  files : SameFiles t.files s.files ∨ InPlace env targetBranch source s t

/-- Success is reported only when the name of the source denotes the rebased branch. -/
def NeverLost : EStateM.Result RebaseError (Session Content) Unit → Prop
  | .ok _ t => Preserved env targetBranch source s t ∧ InPlace env targetBranch source s t
  | .error _ t => Preserved env targetBranch source s t

/-! ## When it does -/

/-- The clone is made and connected to, so that the rebase starts. -/
structure Starts : Prop where
  current : env.contextBranch = none → env.connectionNamed = false →
    faults.fails .currentBranch = false
  project : faults.fails .project = false ∧ env.project = true
  target : targetBranch ≠ currentBranch env source ∧ s.branches.get targetBranch ≠ none
  clone : faults.fails .clone = false ∧ faults.fails .connectClone = false

/-- Where a rebase ends: with the source branch as it was, with the source dropped and the
clone not renamed, or with the clone in the place of the source. -/
inductive Stop where
  | sourceKept (files : Dict Text Text)
  | sourceDropped (files : Dict Text Text)
  | renamed

def rebasePlan : Option (RebaseMigrations × Dict Text Text) :=
  if faults.fails .readSource = false ∧ faults.fails .readTarget = false ∧
      faults.fails .context = false then
    (divergence env targetBranch source s).bind (filesPlan env faults)
  else none

/-- The rebased files are read and applied to the clone. -/
def Applies : Prop :=
  faults.fails .readFiles = false ∧ faults.fails .apply = false ∧
    faults.fails .afterApply = false ∧ (rebasedClone env targetBranch source s).isSome

instance : Decidable (Applies env faults targetBranch source s) := by
  unfold Applies
  infer_instance

/-- A second connection is had and the clone is renamed over it. -/
def Renames : Prop :=
  (obtained faults .rename true).isSome ∧ faults.fails .rename = false

instance : Decidable (Renames faults) := by
  unfold Renames
  infer_instance

/-- Where the rebase ends, by the first of its operations that fails. -/
def stop : Stop :=
  match rebasePlan env faults targetBranch source s with
  | none => .sourceKept s.files
  | some plan =>
      match stoppedFiles faults s.files plan.2 with
      | some files => .sourceKept files
      | none =>
          if Applies env faults targetBranch source s ∧ faults.fails .dropSource = false then
            if Renames faults then .renamed else .sourceDropped (rewritten s.files plan.2)
          else .sourceKept (rewritten s.files plan.2)

/-- The clean-up drops the clone. -/
def CloneDropped (usable : Bool) : Prop :=
  (obtained faults .cleanUp usable).isSome ∧ faults.fails .dropClone = false

/-- The clean-up drops the clone over a connection to a branch that was there. -/
def CleanUpSucceeds (usable : Bool) : Prop :=
  obtained faults .cleanUp usable = some false ∧ faults.fails .dropClone = false

/-- Where the rebase fails, the migration files are the old ones and the clean-up fails
as well. -/
def SafeAt : Stop → Prop
  | .sourceKept files => SameFiles files s.files ∧ ¬ CleanUpSucceeds faults true
  | .sourceDropped files => SameFiles files s.files ∧
      ¬ CloneDropped faults (source.branch ≠ currentBranch env source)
  | .renamed => True

def Safe : Prop :=
  Starts env faults targetBranch source s →
    SafeAt env faults source s (stop env faults targetBranch source s)

end Statement

variable {env : Env Content} {faults : Faults} {targetBranch : Text} {source : Connection}
  {s s₀ : Session Content}

theorem Ready.current_ne_temp (h : Ready env source s) :
    currentBranch env source ≠ env.temp.text := fun heq => h.current (heq ▸ h.temp)

theorem Ready.helper_ne {name : Text} (h : Ready env source s) (hname : s.branches.get name ≠ none)
    (phase : Phase) : name ≠ (env.helper phase).text := fun heq => hname (heq ▸ h.helper phase)

theorem Ready.exists_source (h : Ready env source s) :
    ∃ b, s.branches.get source.branch = some b := by
  obtain ⟨b, hb, -⟩ := Session.connected_iff.mp h.connected
  exact ⟨b, hb⟩

/-! ## The parts of the rebase -/

theorem readAll_triple {step : Step} {c : Connection} {b : StoredBranch Content}
    (hb : s₀.branches.get c.branch = some b) (hc : s₀.connected c = true) :
    Triple (fun s => s = s₀) (readAll env faults step c)
      (fun history s => s = s₀ ∧ history = env.server.history b.content ∧
        faults.fails step = false)
      (fun _ s => s = s₀ ∧ faults.fails step = true) := by
  refine Triple.bind (query_triple ?_) fun _ => ?_
  · rintro s e rfl (hfails | hno)
    · exact ⟨rfl, hfails⟩
    · rw [hc] at hno
      cases hno
  refine Triple.bind (R := fun r s => r = s₀ ∧ s = s₀ ∧ faults.fails step = false) ?_ fun r => ?_
  · refine Triple.get ?_
    rintro s ⟨rfl, hfails, -⟩
    exact ⟨rfl, rfl, hfails⟩
  refine Triple.assume (c := r = s₀) (fun s hs => hs.1) ?_
  rintro rfl
  rw [hb]
  refine Triple.pure ?_
  rintro s ⟨-, rfl, hfails⟩
  exact ⟨rfl, rfl, hfails⟩

theorem getDivergingMigrations_triple (env : Env Content) (faults : Faults) {c : Connection}
    {b t : StoredBranch Content} (hb : s₀.branches.get source.branch = some b)
    (hsource : s₀.connected source = true)
    (ht : s₀.branches.get c.branch = some t) (hc : s₀.connected c = true) :
    Triple (fun s => s = s₀) (getDivergingMigrations env faults source c)
      (fun diverging s => s = s₀ ∧ faults.fails .readSource = false ∧
        faults.fails .readTarget = false ∧
        divergingMigrations (env.server.history b.content) (env.server.history t.content) =
          some diverging)
      (fun _ s => s = s₀ ∧ (faults.fails .readSource = true ∨ faults.fails .readTarget = true ∨
        divergingMigrations (env.server.history b.content) (env.server.history t.content) =
          none)) := by
  refine Triple.bind (Triple.conseqError (readAll_triple hb hsource)
    fun e s hs => ⟨hs.1, .inl hs.2⟩) fun history => ?_
  refine Triple.assume
    (c := history = env.server.history b.content ∧ faults.fails .readSource = false)
    (fun s hs => hs.2) ?_
  rintro ⟨rfl, hfreeSource⟩
  refine Triple.bind (Triple.conseqError (Triple.conseq (readAll_triple ht hc)
    (fun s hs => hs.1) fun _ s hs => hs) fun e s hs => ⟨hs.1, .inr (.inl hs.2)⟩) fun history => ?_
  refine Triple.assume
    (c := history = env.server.history t.content ∧ faults.fails .readTarget = false)
    (fun s hs => hs.2) ?_
  rintro ⟨rfl, hfreeTarget⟩
  cases hdiverging : divergingMigrations (env.server.history b.content)
      (env.server.history t.content) with
  | none => exact Triple.throw fun s hs => ⟨hs.1, .inr (.inr rfl)⟩
  | some diverging => exact Triple.pure fun s hs => ⟨hs.1, hfreeSource, hfreeTarget, rfl⟩

/-- The new migrations on top of a clone with the content of the target. -/
theorem writeRebasedMigrationFiles_triple (env : Env Content) (faults : Faults)
    (m : RebaseMigrations) {c : Connection} {t : StoredBranch Content}
    (ht : s₀.branches.get c.branch = some t)
    (hc : s₀.connected c = true) :
    Triple (fun s => s = s₀) (writeRebasedMigrationFiles env faults m c)
      (fun _ s => ∃ files content, env.texts.readAll s₀.files = some files ∧
        env.server.commit (migrationsToApply m files) t.content = some content ∧
        faults.fails .readFiles = false ∧ faults.fails .apply = false ∧
        faults.fails .afterApply = false ∧ s = s₀.setBranch c.branch { t with content := content })
      (fun _ s => (s = s₀ ∨ ∃ content, s = s₀.setBranch c.branch { t with content := content }) ∧
        (faults.fails .readFiles = true ∨ faults.fails .apply = true ∨
          faults.fails .afterApply = true ∨
          (env.texts.readAll s₀.files).bind (fun files =>
            env.server.commit (migrationsToApply m files) t.content) = none)) := by
  refine Triple.bind (check_triple ?_) fun _ => ?_
  · rintro s e rfl hfails
    exact ⟨.inl rfl, .inl hfails⟩
  refine Triple.bind (R := fun r s => r = s₀ ∧ s = s₀ ∧ faults.fails .readFiles = false) ?_
    fun r => ?_
  · refine Triple.get ?_
    rintro s ⟨rfl, hfails⟩
    exact ⟨rfl, rfl, hfails⟩
  refine Triple.assume (c := r = s₀ ∧ faults.fails .readFiles = false)
    (fun s hs => ⟨hs.1, hs.2.2⟩) ?_
  rintro ⟨rfl, hfreeRead⟩
  cases hread : env.texts.readAll r.files with
  | none => exact Triple.throw fun s hs => ⟨.inl hs.2.1, .inr (.inr (.inr rfl))⟩
  | some files =>
      refine Triple.bind (R := fun _ s => ∃ content,
        env.server.commit (migrationsToApply m files) t.content = some content ∧
        faults.fails .apply = false ∧ s = r.setBranch c.branch { t with content := content })
        (execute_triple ?_ ?_) fun _ => ?_
      · rintro s s' ⟨-, rfl, -⟩ hfails - hs'
        rw [ht, Option.bind_some, Option.map_eq_some_iff] at hs'
        obtain ⟨content, hcommit, rfl⟩ := hs'
        exact ⟨content, hcommit, hfails, rfl⟩
      · rintro s e ⟨-, rfl, -⟩ (hfails | hno | hnone)
        · exact ⟨.inl rfl, .inr (.inl hfails)⟩
        · rw [hc] at hno
          cases hno
        · rw [ht, Option.bind_some, Option.map_eq_none_iff] at hnone
          exact ⟨.inl rfl, .inr (.inr (.inr hnone))⟩
      refine Triple.conseq (check_triple ?_) (fun s hs => hs) ?_
      · rintro s e ⟨content, -, -, rfl⟩ hfails
        exact ⟨.inr ⟨_, rfl⟩, .inr (.inr (.inl hfails))⟩
      · rintro - s ⟨⟨content, hcommit, hfreeApply, rfl⟩, hfreeAfter⟩
        exact ⟨files, content, rfl, hcommit, hfreeRead, hfreeApply, hfreeAfter, rfl⟩

/-- The clone has left its name for that of the source. -/
def RenamedFrom (env : Env Content) (faults : Faults) (branch current : Text)
    (clone : StoredBranch Content) (s₀ s : Session Content) : Prop :=
  Renames faults ∧ ∃ u, Beside (env.helper .rename).text s₀ u ∧
    s = (u.eraseBranch branch).setBranch current clone

theorem renameTempToSource_triple {branch current : Text} {c : Connection}
    {clone : StoredBranch Content} (hclone : s₀.branches.get branch = some clone)
    (hcurrent : s₀.branches.get current = none) (hc : s₀.connected c = true)
    (hfresh : s₀.branches.get (env.helper .rename).text = none)
    (hcurrentHelper : current ≠ (env.helper .rename).text)
    (hother : ∃ name, name ≠ branch ∧ s₀.branches.get name ≠ none) :
    Triple (fun s => s = s₀) (renameTempToSource env faults branch current c)
      (fun _ s => RenamedFrom env faults branch current clone s₀ s)
      (fun _ s => RenamedFrom env faults branch current clone s₀ s ∨
        ¬ Renames faults ∧ Beside (env.helper .rename).text s₀ s) := by
  have hbranch : branch ≠ (env.helper .rename).text := by
    rintro rfl
    rw [hfresh] at hclone
    cases hclone
  refine Triple.bind (Triple.conseqError
    (getConnectionToModify_triple hfresh hbranch.symm hother) ?_) fun connection => ?_
  · rintro e s ⟨hbeside, hnone⟩
    rw [hc] at hnone
    refine .inr ⟨fun h => ?_, hbeside⟩
    have hsome := h.1
    rw [hnone] at hsome
    cases hsome
  refine Triple.bind (R := fun _ s => RenamedFrom env faults branch current clone s₀ s)
    (execute_triple ?_ ?_) fun _ => ?_
  · rintro s t ⟨hbeside, hobtained, hne, -⟩ hfails - ht
    rw [Session.rename_eq_some hne ((hbeside.others _ hcurrentHelper).trans hcurrent)
      ((hbeside.others _ hbranch).trans hclone)] at ht
    cases ht
    rw [hc] at hobtained
    refine ⟨⟨?_, hfails⟩, s, hbeside, rfl⟩
    rw [hobtained]
    rfl
  · rintro s e ⟨hbeside, hobtained, hne, hconnected⟩ (hfails | hno | hnone)
    · refine .inr ⟨fun h => ?_, hbeside⟩
      rw [h.2] at hfails
      cases hfails
    · rw [hconnected] at hno
      cases hno
    · rw [Session.rename_eq_some hne ((hbeside.others _ hcurrentHelper).trans hcurrent)
        ((hbeside.others _ hbranch).trans hclone)] at hnone
      cases hnone
  · refine Triple.pointwise fun s hs => Triple.conseqError
      (Triple.conseq clean_triple (fun t ht => ht) ?_) ?_
    · rintro - t ⟨rfl, -⟩
      exact hs
    · rintro e t ⟨rfl, -⟩
      exact .inl hs

/-! ## The clean-up -/

/-- What the clean-up leaves, with the connection of the command usable or not. -/
def CleanedUp (env : Env Content) (faults : Faults) (usable : Bool) (s₀ s : Session Content) :
    Prop :=
  Beside (env.helper .cleanUp).text s₀ s ∧
      (¬ CloneDropped faults usable ∨ s₀.branches.get env.temp.text = none) ∨
    CloneDropped faults usable ∧ ∃ u, Beside (env.helper .cleanUp).text s₀ u ∧
      s = u.eraseBranch env.temp.text

theorem cleanUp_triple (hfresh : s₀.branches.get (env.helper .cleanUp).text = none)
    (hne : (env.helper .cleanUp).text ≠ env.temp.text)
    (hother : ∃ name, name ≠ env.temp.text ∧ s₀.branches.get name ≠ none) :
    Triple (fun s => s = s₀) (cleanUp env faults source)
      (fun _ s => CleanedUp env faults (s₀.connected source) s₀ s ∧
        s₀.branches.get env.temp.text ≠ none ∧ CleanUpSucceeds faults (s₀.connected source))
      (fun _ s => CleanedUp env faults (s₀.connected source) s₀ s ∧
        (s₀.branches.get env.temp.text = none ∨
          ¬ CleanUpSucceeds faults (s₀.connected source))) := by
  refine Triple.bind (Triple.conseqError
    (getConnectionToModify_triple hfresh hne hother) ?_) fun connection => ?_
  · rintro e s ⟨hbeside, hnone⟩
    refine ⟨.inl ⟨hbeside, .inl fun h => ?_⟩, .inr fun h => ?_⟩
    · have hsome := h.1
      rw [hnone] at hsome
      cases hsome
    · have hsome := h.1
      rw [hnone] at hsome
      cases hsome
  refine Triple.bind (R := fun _ s => CleanedUp env faults (s₀.connected source) s₀ s ∧
      s₀.branches.get env.temp.text ≠ none ∧ faults.fails .dropClone = false ∧
      obtained faults .cleanUp (s₀.connected source) = some connection.isTemp)
    (execute_triple ?_ ?_) fun _ => ?_
  · rintro s t ⟨hbeside, hobtained, hconnection, -⟩ hfails - ht
    cases htemp : s.branches.get env.temp.text with
    | none => simp [Session.drop, Written.read, htemp] at ht
    | some clone =>
        rw [Session.drop_quoted hconnection htemp] at ht
        cases ht
        rw [hbeside.others _ hne.symm] at htemp
        refine ⟨.inr ⟨⟨by rw [hobtained]; rfl, hfails⟩, s, hbeside, rfl⟩, ?_, hfails, hobtained⟩
        rw [htemp]
        exact Option.some_ne_none _
  · rintro s e ⟨hbeside, hobtained, hconnection, hconnected⟩ (hfails | hno | hnone)
    · refine ⟨.inl ⟨hbeside, .inl fun h => ?_⟩, .inr fun h => ?_⟩
      · rw [h.2] at hfails
        cases hfails
      · rw [h.2] at hfails
        cases hfails
    · rw [hconnected] at hno
      cases hno
    · have htemp : s₀.branches.get env.temp.text = none := by
        rw [← hbeside.others _ hne.symm]
        cases htemp : s.branches.get env.temp.text with
        | none => rfl
        | some clone =>
            rw [Session.drop_quoted hconnection htemp] at hnone
            cases hnone
      exact ⟨.inl ⟨hbeside, .inr htemp⟩, .inl htemp⟩
  · refine Triple.pointwise fun s hs => Triple.conseqError
      (Triple.conseq clean_triple (fun t ht => ht) ?_) ?_
    · rintro - t ⟨rfl, htemp⟩
      obtain ⟨hcleaned, hsome, hfails, hobtained⟩ := hs
      exact ⟨hcleaned, hsome, by rw [hobtained, htemp], hfails⟩
    · rintro e t ⟨rfl, htemp⟩
      obtain ⟨hcleaned, hsome, hfails, hobtained⟩ := hs
      refine ⟨hcleaned, .inr fun h => ?_⟩
      have hfalse := h.1
      rw [hobtained, htemp] at hfalse
      cases hfalse

/-! ## Where the rebase ends -/

/-- What the stores have to do with the command. -/
structure Looks (env : Env Content) (targetBranch : Text) (source : Connection)
    (s : Session Content) (files : Dict Text Text) (current temp : Option (StoredBranch Content))
    (t : Session Content) : Prop where
  files : t.files = files
  target : t.branches.get targetBranch = s.branches.get targetBranch
  current : t.branches.get (currentBranch env source) = current
  temp : t.branches.get env.temp.text = temp
  others : ∀ name b, name ≠ env.temp.text → name ≠ currentBranch env source →
    t.branches.get name = some b → b.id ≠ env.temp.text

/-- Before the clean-up. -/
structure Ended (env : Env Content) (targetBranch : Text) (source : Connection)
    (s : Session Content) (files : Dict Text Text) (current temp : Option (StoredBranch Content))
    (usable : Bool) (t : Session Content) : Prop
    extends Looks env targetBranch source s files current temp t where
  helper : t.branches.get (env.helper .cleanUp).text = none
  usable : t.connected source = usable

theorem Looks.beside {files : Dict Text Text} {current temp : Option (StoredBranch Content)}
    {t : Session Content} (hs : Ready env source s)
    (htarget : s.branches.get targetBranch ≠ none) (phase : Phase)
    (h : Looks env targetBranch source s files current temp s₀)
    (hbeside : Beside (env.helper phase).text s₀ t) :
    Looks env targetBranch source s files current temp t where
  files := hbeside.files.trans h.files
  target := (hbeside.others _ (hs.helper_ne htarget phase)).trans h.target
  current := (hbeside.others _ (hs.helper_ne hs.current phase)).trans h.current
  temp := (hbeside.others _ (hs.helperTemp phase).symm).trans h.temp
  others name b htemp hcurrent hb := by
    by_cases hname : name = (env.helper phase).text
    · subst hname
      rcases hbeside.own b hb with hold | hid
      · exact h.others _ b htemp hcurrent hold
      · rw [hid]
        exact hs.helperTemp phase
    · rw [hbeside.others name hname] at hb
      exact h.others name b htemp hcurrent hb

theorem Looks.eraseTemp {files : Dict Text Text} {current temp : Option (StoredBranch Content)}
    (hs : Ready env source s) (htarget : s.branches.get targetBranch ≠ none)
    (h : Looks env targetBranch source s files current temp s₀) :
    Looks env targetBranch source s files current none (s₀.eraseBranch env.temp.text) where
  files := h.files
  target := by
    have hne : targetBranch ≠ env.temp.text := fun heq => htarget (heq ▸ hs.temp)
    rw [Session.get_eraseBranch, if_neg hne, h.target]
  current := by rw [Session.get_eraseBranch, if_neg hs.current_ne_temp, h.current]
  temp := by rw [Session.get_eraseBranch, if_pos rfl]
  others name b htemp hcurrent hb := by
    rw [Session.get_eraseBranch, if_neg htemp] at hb
    exact h.others name b htemp hcurrent hb

/-- The state in which the rebase ends. -/
def EndsAt (env : Env Content) (targetBranch : Text) (source : Connection)
    (s : Session Content) : Stop → Session Content → Prop
  | .sourceKept files, t => ∃ clone, Ended env targetBranch source s files
      (s.branches.get (currentBranch env source)) (some clone) true t
  | .sourceDropped files, t => ∃ clone, rebasedClone env targetBranch source s = some clone ∧
      Ended env targetBranch source s files none (some clone)
        (source.branch ≠ currentBranch env source) t
  | .renamed, t => ∃ clone files usable, rebasedClone env targetBranch source s = some clone ∧
      Ended env targetBranch source s files (some clone) none usable t

section Outcome

variable {files : Dict Text Text} {temp : Option (StoredBranch Content)} {t : Session Content}

theorem rebasedClone_id {clone : StoredBranch Content}
    (h : rebasedClone env targetBranch source s = some clone) : clone.id = env.temp.text := by
  simp only [rebasedClone, Option.bind_eq_some_iff, Option.map_eq_some_iff] at h
  obtain ⟨-, -, -, -, -, -, -, -, -, -, rfl⟩ := h
  rfl

variable (hs : Ready env source s)
include hs

theorem Looks.not_inPlace (h : Looks env targetBranch source s files
    (s.branches.get (currentBranch env source)) temp t) :
    ¬ InPlace env targetBranch source s t := by
  rintro ⟨clone, hclone, hcurrent⟩
  rw [h.current] at hcurrent
  exact hs.ids _ _ hcurrent (rebasedClone_id hclone)

theorem Looks.preserved_iff_sourceKept (h : Looks env targetBranch source s files
    (s.branches.get (currentBranch env source)) temp t) :
    Preserved env targetBranch source s t ↔ SameFiles files s.files := by
  constructor
  · intro hp
    have hfiles := hp.files.resolve_right (h.not_inPlace hs)
    rwa [h.files] at hfiles
  · intro hfiles
    exact ⟨.inl h.current, h.target, .inl (h.files ▸ hfiles)⟩

omit hs in
theorem Looks.not_inPlace_dropped
    (h : Looks env targetBranch source s files none temp t) :
    ¬ InPlace env targetBranch source s t := by
  rintro ⟨clone, -, hcurrent⟩
  rw [h.current] at hcurrent
  cases hcurrent

omit hs in
theorem Looks.preserved_iff_sourceDropped {clone : StoredBranch Content}
    (hclone : rebasedClone env targetBranch source s = some clone)
    (h : Looks env targetBranch source s files none (some clone) t) :
    Preserved env targetBranch source s t ↔ SameFiles files s.files := by
  constructor
  · intro hp
    have hfiles := hp.files.resolve_right h.not_inPlace_dropped
    rwa [h.files] at hfiles
  · intro hfiles
    exact ⟨.inr ⟨_, clone, hclone, h.temp⟩, h.target, .inl (h.files ▸ hfiles)⟩

theorem Looks.not_preserved (h : Looks env targetBranch source s files none none t) :
    ¬ Preserved env targetBranch source s t := by
  intro hp
  rcases hp.branch with hsource | ⟨name, clone, hclone, hname⟩
  · rw [h.current] at hsource
    exact hs.current hsource.symm
  · -- the clone is gone, and no other branch is it
    have htemp : name ≠ env.temp.text := by
      rintro rfl
      rw [h.temp] at hname
      cases hname
    have hcurrent : name ≠ currentBranch env source := by
      rintro rfl
      rw [h.current] at hname
      cases hname
    exact h.others name clone htemp hcurrent hname (rebasedClone_id hclone)

omit hs in
theorem Looks.preserved_renamed {clone : StoredBranch Content}
    (hclone : rebasedClone env targetBranch source s = some clone)
    (h : Looks env targetBranch source s files (some clone) temp t) :
    Preserved env targetBranch source s t ∧ InPlace env targetBranch source s t := by
  have hplace : InPlace env targetBranch source s t := ⟨clone, hclone, h.current⟩
  exact ⟨⟨.inr ⟨_, clone, hclone, h.current⟩, h.target, .inr hplace⟩, hplace⟩

variable (htarget : s.branches.get targetBranch ≠ none)
include htarget

omit hs in
theorem Looks.exists_other (hs : Ready env source s)
    {current : Option (StoredBranch Content)}
    (h : Looks env targetBranch source s files current temp t) :
    ∃ name, name ≠ env.temp.text ∧ t.branches.get name ≠ none := by
  refine ⟨targetBranch, fun heq => htarget (heq ▸ hs.temp), ?_⟩
  rw [h.target]
  exact htarget

/-- The clean-up keeps everything but the clone. -/
theorem CleanedUp.looks {usable : Bool} {current : Option (StoredBranch Content)}
    (h : Looks env targetBranch source s files current temp s₀)
    (hclean : CleanedUp env faults usable s₀ t) :
    ∃ rest, Looks env targetBranch source s files current rest t ∧
      (rest = temp ∧ (¬ CloneDropped faults usable ∨ temp = none) ∨
        rest = none ∧ CloneDropped faults usable) := by
  rcases hclean with ⟨hbeside, hkept⟩ | ⟨hdropped, u, hbeside, rfl⟩
  · refine ⟨temp, h.beside hs htarget _ hbeside, .inl ⟨rfl, ?_⟩⟩
    rwa [h.temp] at hkept
  · exact ⟨none, (h.beside hs htarget _ hbeside).eraseTemp hs htarget, .inr ⟨rfl, hdropped⟩⟩

omit hs htarget in
theorem CleanUpSucceeds.cloneDropped {usable : Bool} (h : CleanUpSucceeds faults usable) :
    CloneDropped faults usable := by
  refine ⟨?_, h.2⟩
  rw [h.1]
  rfl

/-- The clean-up keeps what the command has to keep exactly when it is safe there. -/
theorem cleanUp_iff (stop : Stop) :
    Triple (EndsAt env targetBranch source s stop) (cleanUp env faults source)
      (fun _ t => (Preserved env targetBranch source s t ∧ InPlace env targetBranch source s t) ↔
        SafeAt env faults source s stop)
      (fun _ t => Preserved env targetBranch source s t ↔ SafeAt env faults source s stop) := by
  refine Triple.pointwise fun u hu => ?_
  cases stop with
  | sourceKept old =>
      obtain ⟨clone, hended⟩ := hu
      refine Triple.conseqError (Triple.conseq (cleanUp_triple hended.helper
        (hs.helperTemp _) (hended.toLooks.exists_other htarget hs)) (fun t ht => ht) ?_) ?_
      · rintro - t ⟨hclean, -, hsucceeds⟩
        obtain ⟨rest, hlooks, -⟩ := hclean.looks hs htarget hended.toLooks
        rw [hended.usable] at hsucceeds
        exact iff_of_false (fun hp => hlooks.not_inPlace hs hp.2) fun hsafe => hsafe.2 hsucceeds
      · rintro e t ⟨hclean, hfails⟩
        obtain ⟨rest, hlooks, -⟩ := hclean.looks hs htarget hended.toLooks
        have hnot := hfails.resolve_left (by rw [hended.temp]; exact nofun)
        rw [hended.usable] at hnot
        rw [hlooks.preserved_iff_sourceKept hs]
        exact ⟨fun hfiles => ⟨hfiles, hnot⟩, fun hsafe => hsafe.1⟩
  | sourceDropped old =>
      obtain ⟨clone, hclone, hended⟩ := hu
      refine Triple.conseqError (Triple.conseq (cleanUp_triple hended.helper
        (hs.helperTemp _) (hended.toLooks.exists_other htarget hs)) (fun t ht => ht) ?_) ?_
      · rintro - t ⟨hclean, -, hsucceeds⟩
        obtain ⟨rest, hlooks, -⟩ := hclean.looks hs htarget hended.toLooks
        rw [hended.usable] at hsucceeds
        exact iff_of_false (fun hp => hlooks.not_inPlace_dropped hp.2)
          fun hsafe => hsafe.2 hsucceeds.cloneDropped
      · rintro e t ⟨hclean, -⟩
        obtain ⟨rest, hlooks, hrest⟩ := hclean.looks hs htarget hended.toLooks
        rw [hended.usable] at hrest
        rcases hrest with ⟨rfl, hkept⟩ | ⟨rfl, hdropped⟩
        · have hnot := hkept.resolve_right nofun
          rw [hlooks.preserved_iff_sourceDropped hclone]
          exact ⟨fun hfiles => ⟨hfiles, hnot⟩, fun hsafe => hsafe.1⟩
        · exact iff_of_false (hlooks.not_preserved hs) fun hsafe => hsafe.2 hdropped
  | renamed =>
      obtain ⟨clone, old, usable, hclone, hended⟩ := hu
      refine Triple.conseqError (Triple.conseq (cleanUp_triple hended.helper
        (hs.helperTemp _) (hended.toLooks.exists_other htarget hs)) (fun t ht => ht) ?_) ?_
      · rintro - t ⟨-, hsome, -⟩
        exact absurd hended.temp hsome
      · rintro e t ⟨hclean, -⟩
        obtain ⟨rest, hlooks, -⟩ := hclean.looks hs htarget hended.toLooks
        exact iff_of_true (hlooks.preserved_renamed hclone).1 trivial

end Outcome

end GelCli.Branch
