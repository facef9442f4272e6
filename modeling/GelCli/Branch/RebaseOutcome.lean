import GelCli.Branch.RebaseLosses

/-!
# Where a rebase ends

From the clone of the target to the clean-up, by the first operation that fails: the
rebase ends in one of the three ways of `Stop`, and what is kept then is what `Safe`
says.
-/

namespace GelCli.Branch

open GelCli.Foundation

variable {Content : Type} {env : Env Content} {faults : Faults} {targetBranch : Text}
  {source : Connection} {s s₀ : Session Content}

/-! ## The rebase of the clone -/

section Rebase

variable {plan : RebaseMigrations × Dict Text Text}

theorem stop_of_no_plan (h : rebasePlan env faults targetBranch source s = none) :
    stop env faults targetBranch source s = .sourceKept s.files := by
  rw [stop, h]

theorem stop_of_stopped {files : Dict Text Text}
    (h : rebasePlan env faults targetBranch source s = some plan)
    (hstopped : stoppedFiles faults s.files plan.2 = some files) :
    stop env faults targetBranch source s = .sourceKept files := by
  rw [stop, h]
  simp only [hstopped]

theorem stop_of_rewritten (h : rebasePlan env faults targetBranch source s = some plan)
    (hstopped : stoppedFiles faults s.files plan.2 = none) :
    stop env faults targetBranch source s =
      if Applies env faults targetBranch source s ∧ faults.fails .dropSource = false then
        if Renames faults then .renamed else .sourceDropped (rewritten s.files plan.2)
      else .sourceKept (rewritten s.files plan.2) := by
  rw [stop, h]
  simp only [hstopped]

theorem filesPlan_eq_some {diverging : RebaseMigrations}
    (h : filesPlan env faults diverging = some plan) :
    newMigrationFiles env diverging = some plan := by
  unfold filesPlan at h
  split at h
  · exact h
  · cases h

variable {t : StoredBranch Content}

/-- The clone with the rebased migrations, where the files can be read and applied. -/
theorem rebasedClone_eq {diverging : RebaseMigrations}
    (hdiverging : divergence env targetBranch source s = some diverging)
    (hplan : newMigrationFiles env diverging = some plan)
    (ht : s.branches.get targetBranch = some t) :
    rebasedClone env targetBranch source s =
      (((env.texts.readAll (rewritten s.files plan.2)).bind fun files =>
        env.server.commit (migrationsToApply plan.1 files) t.content).map fun content =>
          ⟨env.temp.text, content⟩) := by
  rw [rebasedClone, hdiverging, Option.bind_some, hplan, Option.bind_some, ht]
  cases env.texts.readAll (rewritten s.files plan.2) <;> rfl

/-- The session with a clone, the migration files being `files`. -/
def withClone (env : Env Content) (s : Session Content) (content : Content)
    (files : Dict Text Text) : Session Content :=
  { s.setBranch env.temp.text ⟨env.temp.text, content⟩ with files := files }

theorem get_withClone {content : Content} {files : Dict Text Text} {name : Text}
    (h : name ≠ env.temp.text) :
    (withClone env s content files).branches.get name = s.branches.get name := by
  show (s.setBranch env.temp.text ⟨env.temp.text, content⟩).branches.get name = _
  rw [Session.get_setBranch, if_neg h]

theorem get_withClone_temp {content : Content} {files : Dict Text Text} :
    (withClone env s content files).branches.get env.temp.text =
      some ⟨env.temp.text, content⟩ := by
  show (s.setBranch env.temp.text ⟨env.temp.text, content⟩).branches.get env.temp.text = _
  rw [Session.get_setBranch, if_pos rfl]

variable (hs : Ready env source s) (ht : s.branches.get targetBranch = some t)
include hs

theorem Ready.source_ne_temp : source.branch ≠ env.temp.text := by
  obtain ⟨b, hb⟩ := hs.exists_source
  intro heq
  rw [heq, hs.temp] at hb
  cases hb

theorem withClone_ended (htarget : s.branches.get targetBranch ≠ none) (content : Content)
    (files : Dict Text Text) :
    Ended env targetBranch source s files (s.branches.get (currentBranch env source))
      (some ⟨env.temp.text, content⟩) true (withClone env s content files) where
  files := rfl
  target := get_withClone fun heq => htarget (heq ▸ hs.temp)
  current := get_withClone hs.current_ne_temp
  temp := get_withClone_temp
  others name b htemp _ hb := by
    rw [get_withClone htemp] at hb
    exact hs.ids name b hb
  helper := (get_withClone (hs.helperTemp _)).trans (hs.helper _)
  usable := (Session.connected_congr (get_withClone hs.source_ne_temp)).trans hs.connected

/-- The source is dropped, with a helper branch there or not. -/
theorem dropped_ended (htarget : s.branches.get targetBranch ≠ none)
    (hne : targetBranch ≠ currentBranch env source) (content : Content)
    (files : Dict Text Text) {u : Session Content}
    (hbeside : Beside (env.helper .rename).text
      ((withClone env s content files).eraseBranch (currentBranch env source)) u) :
    Ended env targetBranch source s files none (some ⟨env.temp.text, content⟩)
      (source.branch ≠ currentBranch env source) u := by
  have hkept := (withClone_ended hs htarget content files).toLooks
  have hlooks : Looks env targetBranch source s files none (some ⟨env.temp.text, content⟩)
      ((withClone env s content files).eraseBranch (currentBranch env source)) := by
    refine ⟨hkept.files, ?_, ?_, ?_, ?_⟩
    · rw [Session.get_eraseBranch, if_neg hne, hkept.target]
    · rw [Session.get_eraseBranch, if_pos rfl]
    · rw [Session.get_eraseBranch, if_neg hs.current_ne_temp.symm, hkept.temp]
    · intro name b htemp hcurrent hb
      rw [Session.get_eraseBranch, if_neg hcurrent] at hb
      exact hkept.others name b htemp hcurrent hb
  refine ⟨hlooks.beside hs htarget _ hbeside, ?_, ?_⟩
  · rw [hbeside.others _ hs.helpers.symm, Session.get_eraseBranch,
      if_neg (hs.helper_ne hs.current _).symm, get_withClone (hs.helperTemp _), hs.helper]
  · obtain ⟨b, hb⟩ := hs.exists_source
    have hhelper := hs.helper_ne (by rw [hb]; exact nofun) .rename
    by_cases hsource : source.branch = currentBranch env source
    · rw [Session.connected, hbeside.others _ hhelper, Session.get_eraseBranch, if_pos hsource,
        decide_eq_false (not_not_intro hsource)]
      rfl
    · rw [decide_eq_true hsource, ← hs.connected]
      refine Session.connected_congr ?_
      rw [hbeside.others _ hhelper, Session.get_eraseBranch, if_neg hsource,
        get_withClone hs.source_ne_temp]

/-- The clone in the place of the source. -/
theorem renamed_ended (htarget : s.branches.get targetBranch ≠ none)
    (hne : targetBranch ≠ currentBranch env source) {files : Dict Text Text}
    {clone : StoredBranch Content} {usable : Bool} {u : Session Content}
    (h : Ended env targetBranch source s files none (some clone) usable u) :
    ∃ usable, Ended env targetBranch source s files (some clone) none usable
      ((u.eraseBranch env.temp.text).setBranch (currentBranch env source) clone) := by
  have htemp : targetBranch ≠ env.temp.text := fun heq => htarget (heq ▸ hs.temp)
  refine ⟨_, ⟨⟨h.files, ?_, ?_, ?_, ?_⟩, ?_, rfl⟩⟩
  · rw [Session.get_setBranch, if_neg hne, Session.get_eraseBranch, if_neg htemp, h.target]
  · rw [Session.get_setBranch, if_pos rfl]
  · rw [Session.get_setBranch, if_neg hs.current_ne_temp.symm, Session.get_eraseBranch,
      if_pos rfl]
  · intro name b htemp hcurrent hb
    rw [Session.get_setBranch, if_neg hcurrent, Session.get_eraseBranch, if_neg htemp] at hb
    exact h.others name b htemp hcurrent hb
  · rw [Session.get_setBranch, if_neg (hs.helper_ne hs.current _).symm,
      Session.get_eraseBranch, if_neg (hs.helperTemp _), h.helper]

/-- The connection to the clone. -/
def cloneConnection (env : Env Content) : Connection := ⟨env.temp.text, env.temp.text⟩

omit hs in
theorem withClone_connected (content : Content) (files : Dict Text Text) :
    (withClone env s content files).connected (cloneConnection env) = true :=
  Session.connected_iff.mpr ⟨_, get_withClone_temp, rfl⟩

/-- The source branch is dropped over the connection to the clone. -/
theorem dropSource_triple (content : Content) (files : Dict Text Text) :
    Triple (fun u => u = withClone env s content files)
      (execute faults .dropSource (cloneConnection env) fun u =>
        u.drop (cloneConnection env) (.quoted (currentBranch env source)))
      (fun _ u => faults.fails .dropSource = false ∧
        u = (withClone env s content files).eraseBranch (currentBranch env source))
      (fun _ u => faults.fails .dropSource = true ∧ u = withClone env s content files) := by
  obtain ⟨b, hb⟩ := Option.ne_none_iff_exists'.mp hs.current
  have hdrop : (withClone env s content files).drop (cloneConnection env)
      (.quoted (currentBranch env source)) =
        some ((withClone env s content files).eraseBranch (currentBranch env source)) :=
    Session.drop_quoted hs.current_ne_temp.symm ((get_withClone hs.current_ne_temp).trans hb)
  refine execute_triple ?_ ?_
  · rintro u v rfl hfails - hv
    rw [hdrop] at hv
    cases hv
    exact ⟨hfails, rfl⟩
  · rintro u e rfl (hfails | hno | hnone)
    · exact ⟨hfails, rfl⟩
    · rw [withClone_connected] at hno
      cases hno
    · rw [hdrop] at hnone
      cases hnone

omit hs in
theorem setBranch_withClone (content applied : Content) (files : Dict Text Text) :
    (withClone env s content files).setBranch env.temp.text ⟨env.temp.text, applied⟩ =
      withClone env s applied files := by
  simp only [withClone, Session.setBranch, Dict.set_set]

omit hs in
/-- The rebased migrations are applied to the clone, or the rebase stops before the source
branch is dropped. -/
theorem applyRebased_triple {m : RebaseMigrations} {new : Dict Text Text}
    (hclone : rebasedClone env targetBranch source s =
      (((env.texts.readAll (rewritten s.files new)).bind fun files =>
        env.server.commit (migrationsToApply m files) t.content).map fun content =>
          ⟨env.temp.text, content⟩)) :
    Triple (fun u => u = withClone env s t.content (rewritten s.files new))
      (applyRebased env faults true m (cloneConnection env))
      (fun _ u => Applies env faults targetBranch source s ∧ ∃ content,
        rebasedClone env targetBranch source s = some ⟨env.temp.text, content⟩ ∧
        u = withClone env s content (rewritten s.files new))
      (fun _ u => ¬ Applies env faults targetBranch source s ∧ ∃ content,
        u = withClone env s content (rewritten s.files new)) := by
  have htemp : (withClone env s t.content (rewritten s.files new)).branches.get
      env.temp.text = some ⟨env.temp.text, t.content⟩ := get_withClone_temp
  refine Triple.conseqError (Triple.conseq (writeRebasedMigrationFiles_triple env faults m htemp
    (withClone_connected t.content (rewritten s.files new))) (fun u hu => hu) ?_) ?_
  · rintro - u ⟨files, content, hread, hcommit, hfreeRead, hfreeApply, hfreeAfter, rfl⟩
    have hsome : rebasedClone env targetBranch source s = some ⟨env.temp.text, content⟩ := by
      rw [hclone, show env.texts.readAll (rewritten s.files new) = some files from hread,
        Option.bind_some, hcommit]
      rfl
    exact ⟨⟨hfreeRead, hfreeApply, hfreeAfter, by rw [hsome]; rfl⟩, content, hsome,
      setBranch_withClone _ _ _⟩
  · rintro e u ⟨hu, hfailed⟩
    refine ⟨?_, ?_⟩
    · rintro ⟨hfreeRead, hfreeApply, hfreeAfter, hsome⟩
      rcases hfailed with hfails | hfails | hfails | hnone
      · rw [hfreeRead] at hfails
        cases hfails
      · rw [hfreeApply] at hfails
        cases hfails
      · rw [hfreeAfter] at hfails
        cases hfails
      · rw [hclone, show ((env.texts.readAll (rewritten s.files new)).bind fun files =>
          env.server.commit (migrationsToApply m files) t.content) = none from hnone] at hsome
        cases hsome
    · rcases hu with rfl | ⟨content, rfl⟩
      · exact ⟨_, rfl⟩
      · exact ⟨content, setBranch_withClone _ _ _⟩

/-- From the rebased migration files on. -/
theorem replaceSource_triple {m : RebaseMigrations} {new : Dict Text Text}
    (hne : targetBranch ≠ currentBranch env source)
    (ht : s.branches.get targetBranch = some t)
    (hclone : rebasedClone env targetBranch source s =
      (((env.texts.readAll (rewritten s.files new)).bind fun files =>
        env.server.commit (migrationsToApply m files) t.content).map fun content =>
          ⟨env.temp.text, content⟩))
    (hstop : stop env faults targetBranch source s =
      if Applies env faults targetBranch source s ∧ faults.fails .dropSource = false then
        if Renames faults then .renamed else .sourceDropped (rewritten s.files new)
      else .sourceKept (rewritten s.files new)) :
    Triple (fun u => u = withClone env s t.content (rewritten s.files new))
      (do
        applyRebased env faults true m (cloneConnection env)
        execute faults .dropSource (cloneConnection env) fun u =>
          u.drop (cloneConnection env) (.quoted (currentBranch env source))
        renameTempToSource env faults env.temp.text (currentBranch env source)
          (cloneConnection env))
      (fun _ u => stop env faults targetBranch source s = .renamed ∧
        EndsAt env targetBranch source s .renamed u)
      (fun _ u => EndsAt env targetBranch source s (stop env faults targetBranch source s) u) := by
  have htarget : s.branches.get targetBranch ≠ none := by
    rw [ht]
    exact nofun
  -- the migrations go to the clone
  refine Triple.bind (Triple.conseqError (applyRebased_triple hclone) ?_) fun _ => ?_
  · rintro e u ⟨hnot, content, rfl⟩
    rw [hstop, if_neg fun h => hnot h.1]
    exact ⟨_, withClone_ended hs htarget _ _⟩
  refine Triple.pointwise ?_
  rintro - ⟨happlies, content, hsome, rfl⟩
  -- the source branch is dropped
  refine Triple.bind (Triple.conseqError
    (dropSource_triple hs content (rewritten s.files new)) ?_) fun _ => ?_
  · rintro e u ⟨hfails, rfl⟩
    rw [hstop, if_neg fun h => by rw [h.2] at hfails; cases hfails]
    exact ⟨_, withClone_ended hs htarget _ _⟩
  refine Triple.pointwise ?_
  rintro - ⟨hfree, rfl⟩
  rw [if_pos ⟨happlies, hfree⟩] at hstop
  have hended := fun u => dropped_ended hs htarget hne content (rewritten s.files new) (u := u)
  have hdropped := hended _ (Beside.refl _)
  have hfresh : ((withClone env s content (rewritten s.files new)).eraseBranch
      (currentBranch env source)).branches.get (env.helper .rename).text = none := by
    rw [Session.get_eraseBranch, if_neg (hs.helper_ne hs.current _).symm,
      get_withClone (hs.helperTemp _), hs.helper]
  have hconnected : ((withClone env s content (rewritten s.files new)).eraseBranch
      (currentBranch env source)).connected (cloneConnection env) = true :=
    Session.connected_iff.mpr ⟨_, hdropped.temp, rfl⟩
  have hrenamed : ∀ u, RenamedFrom env faults env.temp.text (currentBranch env source)
      ⟨env.temp.text, content⟩ ((withClone env s content (rewritten s.files new)).eraseBranch
        (currentBranch env source)) u →
      stop env faults targetBranch source s = .renamed ∧
        EndsAt env targetBranch source s .renamed u := by
    rintro u ⟨hrenames, v, hbeside, rfl⟩
    obtain ⟨usable, hplace⟩ := renamed_ended hs htarget hne (hended v hbeside)
    exact ⟨by rw [hstop, if_pos hrenames], _, _, usable, hsome, hplace⟩
  -- the clone takes the name of the source
  refine Triple.conseqError (Triple.conseq (renameTempToSource_triple hdropped.temp
    hdropped.current hconnected hfresh (hs.helper_ne hs.current _)
    (hdropped.toLooks.exists_other htarget hs)) (fun u hu => hu) fun _ u hu => hrenamed u hu) ?_
  rintro e u (hu | ⟨hnot, hbeside⟩)
  · rw [(hrenamed u hu).1]
    exact (hrenamed u hu).2
  · rw [hstop, if_neg hnot]
    exact ⟨_, hsome, hended u hbeside⟩

theorem rebase_triple (hne : targetBranch ≠ currentBranch env source)
    (ht : s.branches.get targetBranch = some t) :
    Triple (fun u => u = withClone env s t.content s.files)
      (rebase env faults (currentBranch env source) env.temp.text source (cloneConnection env)
        true)
      (fun _ u => stop env faults targetBranch source s = .renamed ∧
        EndsAt env targetBranch source s .renamed u)
      (fun _ u => EndsAt env targetBranch source s (stop env faults targetBranch source s) u) := by
  have htarget : s.branches.get targetBranch ≠ none := by
    rw [ht]
    exact nofun
  have hkept : ∀ content files, EndsAt env targetBranch source s (.sourceKept files)
      (withClone env s content files) := fun content files =>
    ⟨_, withClone_ended hs htarget content files⟩
  obtain ⟨b, hb⟩ := hs.exists_source
  have hdivergence : divergence env targetBranch source s = divergingMigrations
      (env.server.history b.content) (env.server.history t.content) := by
    rw [divergence, hb, Option.bind_some, ht, Option.bind_some]
  -- before the migration files are touched
  have hdiverge := getDivergingMigrations_triple env faults
    ((get_withClone hs.source_ne_temp).trans hb)
    (withClone_ended hs htarget t.content s.files).usable get_withClone_temp
    (withClone_connected t.content s.files)
  refine Triple.bind (Triple.conseqError hdiverge ?_) fun diverging => ?_
  · rintro e u ⟨rfl, hfailed⟩
    rw [stop_of_no_plan]
    · exact hkept _ _
    · rw [rebasePlan, hdivergence]
      split
      · next hfree =>
        rcases hfailed with hfails | hfails | hnone
        · rw [hfree.1] at hfails
          cases hfails
        · rw [hfree.2.1] at hfails
          cases hfails
        · rw [hnone]
          rfl
      · rfl
  refine Triple.bind (check_triple ?_) fun _ => ?_
  · rintro u e ⟨rfl, -⟩ hfails
    rw [stop_of_no_plan]
    · exact hkept _ _
    · refine if_neg fun hfree => ?_
      rw [hfree.2.2] at hfails
      cases hfails
  refine Triple.assume (c := divergence env targetBranch source s = some diverging ∧
    rebasePlan env faults targetBranch source s = filesPlan env faults diverging) ?_ ?_
  · rintro u ⟨⟨-, hsource, htargetRead, hdiverging⟩, hcontext⟩
    have hsome := hdivergence.trans hdiverging
    exact ⟨hsome, by rw [rebasePlan, if_pos ⟨hsource, htargetRead, hcontext⟩, hsome]; rfl⟩
  rintro ⟨hdiverging, hplanned⟩
  -- the migration files
  refine Triple.bind (Triple.conseqError (Triple.conseq (doRebase_triple diverging)
    (fun u hu => hu.1.1) fun _ u hu => hu) ?_) fun m => ?_
  · rintro e u (⟨hnone, rfl⟩ | ⟨m, new, files, hplan, hstopped, rfl⟩)
    · rw [stop_of_no_plan (hplanned.trans hnone)]
      exact hkept _ _
    · rw [stop_of_stopped (hplanned.trans hplan) hstopped]
      exact hkept _ files
  refine Triple.of_exists fun new => ?_
  refine Triple.assume (c := filesPlan env faults diverging = some (m, new) ∧
    stoppedFiles faults s.files new = none) (fun u hu => ⟨hu.1, hu.2.1⟩) ?_
  rintro ⟨hplan, hstopped⟩
  have hstop := stop_of_rewritten (hplanned.trans hplan) hstopped
  have hclone := rebasedClone_eq hdiverging (filesPlan_eq_some hplan) ht
  exact Triple.conseq (replaceSource_triple hs hne ht hclone hstop) (fun u hu => hu.2.2)
    fun _ u hu => hu

end Rebase

/-! ## The command -/

theorem preserved_self : Preserved env targetBranch source s s :=
  ⟨.inl rfl, rfl, .inl fun _ => rfl⟩

/-- Nothing is lost where the rebase does not start. -/
theorem safe_of_not_starts (h : ¬ Starts env faults targetBranch source s) :
    Safe env faults targetBranch source s := fun hstarts => absurd hstarts h

theorem safe_iff (h : Starts env faults targetBranch source s) :
    Safe env faults targetBranch source s ↔
      SafeAt env faults source s (stop env faults targetBranch source s) :=
  ⟨fun hsafe => hsafe h, fun hsafe _ => hsafe⟩

theorem rebaseClone_triple (hs : Ready env source s)
    (hcurrent : env.contextBranch = none → env.connectionNamed = false →
      faults.fails .currentBranch = false)
    (hproject : faults.fails .project = false ∧ env.project = true)
    (hne : targetBranch ≠ currentBranch env source) :
    Triple (fun u => u = s)
      (rebaseClone env faults ⟨targetBranch, false⟩ (currentBranch env source) source)
      (fun _ t => (Preserved env targetBranch source s t ∧ InPlace env targetBranch source s t) ↔
        Safe env faults targetBranch source s)
      (fun _ t => Preserved env targetBranch source s t ↔
        Safe env faults targetBranch source s) := by
  -- the clone of the target branch
  refine Triple.bind (R := fun _ u => ∃ t, s.branches.get targetBranch = some t ∧
    faults.fails .clone = false ∧ u = withClone env s t.content s.files)
    (execute_triple ?_ ?_) fun _ => ?_
  · rintro u v rfl hfails - hv
    simp only [Session.createData, Session.create, hs.temp, Option.bind_eq_some_iff,
      Option.some.injEq] at hv
    obtain ⟨t, ht, rfl⟩ := hv
    exact ⟨t, ht, hfails, rfl⟩
  · rintro u e rfl hfailed
    refine iff_of_true preserved_self (safe_of_not_starts fun hstarts => ?_)
    rcases hfailed with hfails | hno | hnone
    · rw [hstarts.clone.1] at hfails
      cases hfails
    · rw [hs.connected] at hno
      cases hno
    · simp [Session.createData, Session.create, hs.temp, Option.bind_eq_none_iff] at hnone
      exact hstarts.target.2 (Option.eq_none_iff_forall_ne_some.mpr hnone)
  refine Triple.of_exists fun t => Triple.pointwise ?_
  rintro - ⟨ht, hclone, rfl⟩
  have htarget : s.branches.get targetBranch ≠ none := by
    rw [ht]
    exact Option.some_ne_none _
  -- the connection to the clone
  refine Triple.bind (connect_triple ?_ ?_) fun connection => Triple.pointwise ?_
  · rintro u e rfl hfails
    refine iff_of_true ?_ (safe_of_not_starts fun hstarts => ?_)
    · exact ((withClone_ended hs htarget t.content s.files).preserved_iff_sourceKept hs).mpr
        fun _ => rfl
    · rw [hstarts.clone.2] at hfails
      cases hfails
  · rintro u e rfl hnone
    rw [get_withClone_temp] at hnone
    cases hnone
  rintro - ⟨rfl, hconnect, hbranch, hconnected⟩
  have hconnection : connection = cloneConnection env := by
    obtain ⟨clone, hget, hid⟩ := Session.connected_iff.mp hconnected
    rw [hbranch, get_withClone_temp] at hget
    cases hget
    obtain ⟨branch, id⟩ := connection
    cases hbranch
    cases hid
    rfl
  subst hconnection
  have hstarts : Starts env faults targetBranch source s :=
    ⟨hcurrent, hproject, ⟨hne, htarget⟩, hclone, hconnect⟩
  have hsafe := safe_iff hstarts
  -- the rebase of the clone, with the clean-up behind a failure
  refine Triple.tryCatch (Triple.conseq (rebase_triple hs hne ht) (fun u hu => hu) ?_)
    fun e => ?_
  · rintro - u ⟨hstop, clone, files, usable, hsome, hended⟩
    exact iff_of_true (hended.preserved_renamed hsome) (hsafe.mpr (by rw [hstop]; trivial))
  · rw [hsafe]
    exact cleanUp_iff hs htarget _

theorem main_triple (faults : Faults) (targetBranch : Text) (hs : Ready env source s) :
    Triple (fun u => u = s) (main env faults ⟨targetBranch, false⟩ source)
      (fun _ t => (Preserved env targetBranch source s t ∧ InPlace env targetBranch source s t) ↔
        Safe env faults targetBranch source s)
      (fun _ t => Preserved env targetBranch source s t ↔
        Safe env faults targetBranch source s) := by
  have hfailed : ∀ u : Session Content, u = s → ¬ Starts env faults targetBranch source s →
      (Preserved env targetBranch source s u ↔ Safe env faults targetBranch source s) := by
    rintro u rfl hnot
    exact iff_of_true preserved_self (safe_of_not_starts hnot)
  refine Triple.bind (R := fun branch u => u = s ∧ branch = currentBranch env source ∧
    (env.contextBranch = none → env.connectionNamed = false →
      faults.fails .currentBranch = false)) ?_ fun branch => Triple.pointwise ?_
  · unfold getCurrentBranch
    cases hcontext : env.contextBranch with
    | some branch =>
        refine Triple.pure fun u hu => ⟨hu, ?_, nofun⟩
        rw [currentBranch, hcontext]
        rfl
    | none =>
        have hbranch : source.branch = currentBranch env source := by
          rw [currentBranch, hcontext]
          rfl
        refine Triple.ite (fun hnamed => Triple.pure fun u hu => ⟨hu, hbranch, ?_⟩)
          fun hnamed => Triple.bind (query_triple ?_) fun _ => Triple.pure ?_
        · intro _ hnot
          rw [hnamed] at hnot
          cases hnot
        · rintro u e rfl (hfails | hno)
          · refine hfailed _ rfl fun hstarts => ?_
            rw [hstarts.current hcontext (Bool.eq_false_iff.mpr hnamed)] at hfails
            cases hfails
          · rw [hs.connected] at hno
            cases hno
        · rintro u ⟨hu, hfree, -⟩
          exact ⟨hu, hbranch, fun _ _ => hfree⟩
  rintro u ⟨rfl, rfl, hcurrent⟩
  refine Triple.bind (check_triple ?_) fun _ => Triple.pointwise ?_
  · rintro v e hv hfails
    refine hfailed v hv fun hstarts => ?_
    rw [hstarts.project.1] at hfails
    cases hfails
  rintro v ⟨rfl, hproject⟩
  refine Triple.ite (fun hin => Triple.ite (fun heq => Triple.throw fun v hv => ?_) fun hne => ?_)
    fun hout => Triple.throw fun v hv => ?_
  · exact hfailed v hv fun hstarts => hstarts.target.1 heq
  · exact rebaseClone_triple hs hcurrent ⟨hproject, hin⟩ hne
  · exact hfailed v hv fun hstarts => hout hstarts.project.2

/-- **A rebase never loses the source branch when it is safe.** Whatever operations fail,
the command keeps what it has to keep if and only if the rebase does not start, goes
through to the rename, or fails with the old migration files in place and a clean-up that
fails as well. -/
theorem rebase_keeps_iff (env : Env Content) (faults : Faults) (targetBranch : Text)
    (source : Connection) (s : Session Content) (hs : Ready env source s) :
    NeverLost env targetBranch source s (main env faults ⟨targetBranch, false⟩ source s) ↔
      Safe env faults targetBranch source s := by
  have hmain := main_triple faults targetBranch hs
  cases hresult : main env faults ⟨targetBranch, false⟩ source s with
  | ok a t => exact hmain.of_ok rfl hresult
  | error e t => exact hmain.of_error rfl hresult

/-! ## A rebase whose migrations do not apply -/

def sampleMigration (id : String) : Text × DbMigration :=
  (id.toList, ⟨id.toList, "CREATE TYPE User".toList, []⟩)

/-- A server whose branches hold nothing but their history. -/
def sampleEnv : Env History where
  server := ⟨[], id, fun files history =>
    some (history ++ files.map fun file => (file.1, ⟨file.1, file.2, []⟩))⟩
  texts := ⟨fun files => some (files, []), fun files =>
    some (files.items.map fun file => ((file.1.drop 6).take 7, file.2))⟩
  contextBranch := none
  connectionNamed := true
  project := true
  connParams := "feature".toList
  temp := ⟨"t-emp".toList, by decide⟩
  helper phase :=
    match phase with
    | .rename => ⟨"r-ename".toList, by decide⟩
    | .cleanUp => ⟨"c-lean".toList, by decide⟩

def sampleConnection : Connection := ⟨"feature".toList, "2".toList⟩

def sampleSession : Session History where
  branches := ⟨[("main".toList, ⟨"1".toList, [sampleMigration "m1aaaaa"]⟩),
    ("feature".toList, ⟨"2".toList, [sampleMigration "m1bbbbb"]⟩)], by decide⟩
  files := ⟨[("00001-m1bbbbb.edgeql".toList, "CREATE TYPE User".toList)], by decide⟩

theorem sampleReady : Ready sampleEnv sampleConnection sampleSession where
  connected := by decide
  current := by decide
  temp := by decide
  ids := by
    intro name b hb
    have hmem := Dict.get_eq_some.mp hb
    simp only [sampleSession, List.mem_cons, List.not_mem_nil, or_false, Prod.mk.injEq] at hmem
    rcases hmem with ⟨-, rfl⟩ | ⟨-, rfl⟩
    · decide
    · decide
  helper phase := by cases phase <;> decide
  helperTemp phase := by cases phase <;> decide
  helpers := by decide

def applyFails : Faults where
  fails step := step = .apply
  copied _ := none

/-- Success is reported after a failure, with the source branch not rebased. -/
theorem rebase_reports_success : ¬ NeverLost sampleEnv "main".toList sampleConnection sampleSession
    (main sampleEnv applyFails ⟨"main".toList, false⟩ sampleConnection sampleSession) := by
  rintro ⟨-, b, hclone, hb⟩
  have hsame := hclone.trans hb.symm
  exact absurd hsame (by decide +kernel)

theorem rebase_keeps_iff_applied :
    NeverLost sampleEnv "main".toList sampleConnection sampleSession
      (main sampleEnv ⟨fun _ => false, fun _ => none⟩ ⟨"main".toList, false⟩ sampleConnection
        sampleSession) :=
  (rebase_keeps_iff _ _ _ _ _ sampleReady).mpr fun _ => by
    have hstop : stop sampleEnv ⟨fun _ => false, fun _ => none⟩ "main".toList sampleConnection
        sampleSession = .renamed := by rfl
    rw [hstop]
    trivial

end GelCli.Branch
