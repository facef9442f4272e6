import GelCli.Branch.Rebase

/-!
# What the operations of a rebase do

For each operation, and for the connection that modifies a branch, the state it leaves
when it goes through and when it fails, and which operations failed then.
-/

namespace GelCli.Branch

open GelCli.Foundation

variable {Content : Type} {env : Env Content} {faults : Faults}

/-! ## Changes of the session -/

section Session

variable {s t : Session Content} {name other : Text} {b : StoredBranch Content} {c : Connection}

@[simp] theorem Session.get_setBranch :
    (s.setBranch name b).branches.get other =
      if other = name then some b else s.branches.get other :=
  Dict.get_set _ _ _ _

@[simp] theorem Session.get_eraseBranch :
    (s.eraseBranch name).branches.get other =
      if other = name then none else s.branches.get other :=
  Dict.get_erase _ _ _

theorem Session.connected_congr (h : t.branches.get c.branch = s.branches.get c.branch) :
    t.connected c = s.connected c := by
  rw [Session.connected, Session.connected, h]

theorem Session.connected_iff :
    s.connected c = true ↔ ∃ b, s.branches.get c.branch = some b ∧ b.id = c.id := by
  simp [Session.connected, Option.any_eq_true]

theorem Session.drop_quoted (hne : c.branch ≠ name) (h : s.branches.get name = some b) :
    s.drop c (.quoted name) = some (s.eraseBranch name) := by
  simp [Session.drop, Written.read, hne, h]

/-- A name with a hyphen has to be quoted. -/
theorem Session.drop_bare (h : '-' ∈ name) : s.drop c (.bare name) = none := by
  have hread : (Written.bare name).read = none := by
    rw [Written.read, if_neg]
    intro hall
    exact absurd (List.all_eq_true.mp hall '-' h) (by decide)
  rw [Session.drop, hread]
  rfl

theorem Session.rename_eq_some (hne : c.branch ≠ name) (hother : s.branches.get other = none)
    (h : s.branches.get name = some b) :
    s.rename c name other = some ((s.eraseBranch name).setBranch other b) := by
  simp [Session.rename, hne, hother, h]

end Session

/-! ## Operations -/

section Rules

variable {P : Session Content → Prop} {E : RebaseError → Session Content → Prop} {step : Step}
  {c : Connection}

theorem check_triple (h : ∀ s e, P s → faults.fails step = true → E e s) :
    Triple P (check faults step) (fun _ s => P s ∧ faults.fails step = false) E := by
  rcases hfails : faults.fails step with _ | _
  · rw [check, fault, if_neg (by rw [hfails]; decide)]
    refine Triple.attempt ?_ (fun s _ => nofun) nofun
    rintro s t hs ⟨⟩
    exact ⟨hs, rfl⟩
  · rw [check, fault, if_pos hfails]
    exact Triple.attempt_fault fun s hs => h s _ hs hfails

theorem execute_triple {f : Session Content → Option (Session Content)}
    {Q : PUnit → Session Content → Prop}
    (hok : ∀ s t, P s → faults.fails step = false → s.connected c = true → f s = some t → Q ⟨⟩ t)
    (herror : ∀ s e, P s →
      faults.fails step = true ∨ s.connected c = false ∨ f s = none → E e s) :
    Triple P (execute faults step c f) Q E := by
  rcases hfails : faults.fails step with _ | _
  · rw [execute, fault, if_neg (by rw [hfails]; decide)]
    refine Triple.attempt ?_ ?_ nofun
    · intro s t hs ht
      split at ht
      · next hc => exact hok s t hs hfails hc ht
      · cases ht
    · intro s hs ht
      split at ht
      · exact herror s _ hs (.inr (.inr ht))
      · next hc => exact herror s _ hs (.inr (.inl (Bool.eq_false_iff.mpr hc)))
  · rw [execute, fault, if_pos hfails]
    exact Triple.attempt_fault fun s hs => herror s _ hs (.inl hfails)

/-- A query changes nothing. -/
theorem query_triple (h : ∀ s e, P s → faults.fails step = true ∨ s.connected c = false → E e s) :
    Triple P (execute faults step c some)
      (fun _ s => P s ∧ faults.fails step = false ∧ s.connected c = true) E := by
  refine execute_triple ?_ ?_
  · rintro s t hs hfails hc ⟨⟩
    exact ⟨hs, hfails, hc⟩
  · rintro s e hs (hfails | hc | hnone)
    · exact h s e hs (.inl hfails)
    · exact h s e hs (.inr hc)
    · cases hnone

theorem connect_triple {branch : Text}
    (hfails : ∀ s e, P s → faults.fails step = true → E e s)
    (hunknown : ∀ s e, P s → s.branches.get branch = none → E e s) :
    Triple P (connect faults step branch) (fun connection s => P s ∧
      faults.fails step = false ∧ connection.branch = branch ∧ s.connected connection = true)
      E := by
  refine Triple.bind (check_triple hfails) fun _ => ?_
  refine Triple.bind (R := fun r s => r = s ∧ P s ∧ faults.fails step = false)
    (Triple.get fun s hs => ⟨rfl, hs⟩) fun r => ?_
  cases hbranch : r.branches.get branch with
  | none =>
      refine Triple.throw ?_
      rintro s ⟨rfl, hs, -⟩
      exact hunknown _ _ hs hbranch
  | some b =>
      refine Triple.pure ?_
      rintro s ⟨rfl, hs, hfree⟩
      exact ⟨hs, hfree, rfl, Session.connected_iff.mpr ⟨b, hbranch, rfl⟩⟩

end Rules

/-! ## Connections to modify a branch -/

section Connections

variable {s₀ : Session Content} {phase : Phase} {use : Use} {branch : Text} {c : Connection}

/-- Why there is no connection to another branch. -/
def NoOther (faults : Faults) (s₀ : Session Content) (phase : Phase) (use : Use) (branch : Text)
    (c : Connection) : Prop :=
  s₀.connected c = false ∨ faults.fails (.listBranches phase use) = true ∨
    faults.fails (.connectOther phase use) = true ∨
    ∀ name, name ≠ branch → s₀.branches.get name = none

theorem getConnectionThatIsNot_triple :
    Triple (fun s => s = s₀) (getConnectionThatIsNot faults phase use branch c)
      (fun r s => s = s₀ ∧ s₀.connected c = true ∧
        faults.fails (.listBranches phase use) = false ∧
        faults.fails (.connectOther phase use) = false ∧ r.isTemp = false ∧
        r.connection.branch ≠ branch ∧ s₀.connected r.connection = true)
      (fun _ s => s = s₀ ∧ NoOther faults s₀ phase use branch c) := by
  refine Triple.bind (query_triple ?_) fun _ => ?_
  · rintro s e rfl (hfails | hc)
    · exact ⟨rfl, .inr (.inl hfails)⟩
    · exact ⟨rfl, .inl hc⟩
  refine Triple.bind (R := fun r s => r = s₀ ∧ s = s₀ ∧
      faults.fails (.listBranches phase use) = false ∧ s₀.connected c = true) ?_ fun r => ?_
  · refine Triple.get ?_
    rintro s ⟨rfl, hlist, hc⟩
    exact ⟨rfl, rfl, hlist, hc⟩
  cases hfind : r.branches.keys.find? fun name => name ≠ branch with
  | none =>
      refine Triple.throw ?_
      rintro s ⟨rfl, rfl, -, -⟩
      refine ⟨rfl, .inr (.inr (.inr fun name hne => ?_))⟩
      have hkeys := List.find?_eq_none.mp hfind name
      by_contra hsome
      obtain ⟨b, hb⟩ := Option.ne_none_iff_exists'.mp hsome
      exact hkeys (Dict.mem_keys_iff.mpr ⟨b, hb⟩) (by simpa using hne)
  | some other =>
      have hne : other ≠ branch := by simpa using List.find?_some hfind
      refine Triple.bind (connect_triple ?_ ?_) fun connection => Triple.pure ?_
      · rintro s e ⟨-, rfl, -⟩ hfails
        exact ⟨rfl, .inr (.inr (.inl hfails))⟩
      · -- the branch is one of those that were listed
        rintro s e ⟨rfl, rfl, -⟩ hnone
        obtain ⟨b, hb⟩ := Dict.mem_keys_iff.mp (List.mem_of_find?_eq_some hfind)
        rw [hb] at hnone
        cases hnone
      · rintro s ⟨⟨-, rfl, hlist, hc⟩, hconnect, hname, hconnected⟩
        exact ⟨rfl, hc, hlist, hconnect, rfl, by rw [hname]; exact hne, hconnected⟩

/-- A new branch under the name `x` is all that has changed. -/
structure Beside (x : Text) (s t : Session Content) : Prop where
  files : t.files = s.files
  others : ∀ name, name ≠ x → t.branches.get name = s.branches.get name
  own : ∀ b, t.branches.get x = some b → s.branches.get x = some b ∨ b.id = x

theorem Beside.refl {x : Text} (s : Session Content) : Beside x s s :=
  ⟨rfl, fun _ _ => rfl, fun _ hb => .inl hb⟩

theorem Beside.setBranch {x : Text} {content : Content} (s : Session Content) :
    Beside x s (s.setBranch x ⟨x, content⟩) where
  files := rfl
  others name hne := by rw [Session.get_setBranch, if_neg hne]
  own b hb := by
    rw [Session.get_setBranch, if_pos rfl] at hb
    cases hb
    exact .inr rfl

theorem createEmptyBranch_triple (hfresh : s₀.branches.get (env.helper phase).text = none) :
    Triple (fun s => s = s₀) (createEmptyBranch env faults phase c)
      (fun r s => Beside (env.helper phase).text s₀ s ∧ s₀.connected c = true ∧
        faults.fails (.createHelper phase) = false ∧
        faults.fails (.connectHelper phase) = false ∧ r.isTemp = true ∧
        r.connection.branch = (env.helper phase).text ∧ s.connected r.connection = true)
      (fun _ s => Beside (env.helper phase).text s₀ s ∧ (s₀.connected c = false ∨
        faults.fails (.createHelper phase) = true ∨
        faults.fails (.connectHelper phase) = true)) := by
  have hcreate : s₀.create (env.helper phase).text env.server.empty =
      some (s₀.setBranch (env.helper phase).text
        ⟨(env.helper phase).text, env.server.empty⟩) := by
    rw [Session.create, hfresh]
  refine Triple.bind (R := fun _ s => s = s₀.setBranch (env.helper phase).text
      ⟨(env.helper phase).text, env.server.empty⟩ ∧ s₀.connected c = true ∧
      faults.fails (.createHelper phase) = false) (execute_triple ?_ ?_) fun _ => ?_
  · rintro s t rfl hfails hc ht
    rw [hcreate] at ht
    cases ht
    exact ⟨rfl, hc, hfails⟩
  · rintro s e rfl (hfails | hc | hnone)
    · exact ⟨Beside.refl _, .inr (.inl hfails)⟩
    · exact ⟨Beside.refl _, .inl hc⟩
    · rw [hcreate] at hnone
      cases hnone
  refine Triple.bind (connect_triple ?_ ?_) fun connection => Triple.pure ?_
  · rintro s e ⟨rfl, -, -⟩ hfails
    exact ⟨Beside.setBranch s₀, .inr (.inr hfails)⟩
  · rintro s e ⟨rfl, -, -⟩ hnone
    rw [Session.get_setBranch, if_pos rfl] at hnone
    cases hnone
  · rintro s ⟨⟨rfl, hc, hhelper⟩, hconnect, hname, hconnected⟩
    exact ⟨Beside.setBranch s₀, hc, hhelper, hconnect, rfl, hname, hconnected⟩

/-- Whether a second connection is had, and whether it is one to a helper branch. -/
def obtained (faults : Faults) (phase : Phase) (usable : Bool) : Option Bool :=
  if usable = false then none
  else if faults.fails (.listBranches phase .modify) = false ∧
      faults.fails (.connectOther phase .modify) = false then some false
  else if faults.fails (.createHelper phase) = false ∧
      faults.fails (.connectHelper phase) = false then some true
  else none

theorem getConnectionToModify_triple
    (hfresh : s₀.branches.get (env.helper phase).text = none)
    (hne : (env.helper phase).text ≠ branch)
    (hother : ∃ name, name ≠ branch ∧ s₀.branches.get name ≠ none) :
    Triple (fun s => s = s₀) (getConnectionToModify env faults phase branch c)
      (fun r s => Beside (env.helper phase).text s₀ s ∧
        obtained faults phase (s₀.connected c) = some r.isTemp ∧
        r.connection.branch ≠ branch ∧ s.connected r.connection = true)
      (fun _ s => Beside (env.helper phase).text s₀ s ∧
        obtained faults phase (s₀.connected c) = none) := by
  refine Triple.tryCatch (Triple.conseq getConnectionThatIsNot_triple (fun s hs => hs) ?_) ?_
  · rintro r s ⟨rfl, hc, hlist, hconnect, htemp, hbranch, hconnected⟩
    exact ⟨Beside.refl _, by simp [obtained, hc, hlist, hconnect, htemp], hbranch, hconnected⟩
  intro e
  refine Triple.assume (c := NoOther faults s₀ phase .modify branch c) (fun s hs => hs.2) ?_
  intro hno
  -- there is another branch, so the connection or a fault was the reason
  have hreason : s₀.connected c = false ∨
      ¬ (faults.fails (.listBranches phase .modify) = false ∧
        faults.fails (.connectOther phase .modify) = false) := by
    rcases hno with hc | hlist | hconnect | hnone
    · exact .inl hc
    · exact .inr fun h => by rw [hlist] at h; exact absurd h.1 (by decide)
    · exact .inr fun h => by rw [hconnect] at h; exact absurd h.2 (by decide)
    · obtain ⟨name, hname, hsome⟩ := hother
      exact absurd (hnone name hname) hsome
  refine Triple.conseqError (Triple.conseq (createEmptyBranch_triple hfresh) ?_ ?_) ?_
  · rintro s ⟨rfl, -⟩
    rfl
  · rintro r s ⟨hbeside, hc, hcreate, hconnect, htemp, hbranch, hconnected⟩
    refine ⟨hbeside, ?_, by rw [hbranch]; exact hne, hconnected⟩
    have hfree := hreason.resolve_left (by rw [hc]; decide)
    rw [obtained, if_neg (by rw [hc]; decide), if_neg hfree, if_pos ⟨hcreate, hconnect⟩, htemp]
  · rintro e s ⟨hbeside, hfailed⟩
    refine ⟨hbeside, ?_⟩
    rcases hc : s₀.connected c with _ | _
    · rfl
    · have hfree := hreason.resolve_left (by rw [hc]; decide)
      rw [obtained, if_neg (by decide), if_neg hfree, if_neg]
      rintro ⟨hcreate, hconnect⟩
      rw [hc, hcreate, hconnect] at hfailed
      simp at hfailed

/-- A helper branch is never dropped, as its name is not quoted. -/
theorem clean_triple {self : BranchConnection} :
    Triple (fun s => s = s₀) (clean env faults phase self)
      (fun _ s => s = s₀ ∧ self.isTemp = false) (fun _ s => s = s₀ ∧ self.isTemp = true) := by
  rcases htemp : self.isTemp with _ | _
  · rw [clean, if_neg (by rw [htemp]; decide)]
    exact Triple.pure fun s hs => ⟨hs, rfl⟩
  · rw [clean, if_pos htemp]
    refine Triple.bind (connect_triple (fun s e hs _ => ⟨hs, rfl⟩) fun s e hs _ => ⟨hs, rfl⟩)
      fun default => ?_
    refine Triple.bind (Triple.conseqError (Triple.conseq (Q := fun _ s => s = s₀)
      getConnectionThatIsNot_triple (fun s hs => hs.1) fun r s hs => hs.1)
      fun e s hs => ⟨hs.1, rfl⟩) fun branch => ?_
    refine Triple.bind (R := fun _ _ => False) (execute_triple ?_ fun s e hs _ => ⟨hs, rfl⟩)
      fun _ => Triple.unreachable
    intro s t _ _ _ ht
    rw [Session.drop_bare (self.hyphen htemp)] at ht
    cases ht

end Connections

/-! ## The migration files -/

section Files

variable {s₀ : Session Content}

/-- The first of `n` operations that fails. -/
def firstFault (fails : Nat → Bool) (n : Nat) : Option Nat := (List.range n).find? fails

theorem firstFault_succ (fails : Nat → Bool) (n : Nat) :
    firstFault fails (n + 1) =
      if fails 0 then some 0 else (firstFault (fun k => fails (k + 1)) n).map (· + 1) := by
  rw [firstFault, List.range_succ_eq_map, List.find?_cons, List.find?_map]
  cases fails 0 <;> rfl

def erased (files : Dict Text Text) (names : List Text) : Dict Text Text :=
  names.foldl Dict.erase files

def copied (files : Dict Text Text) (news : List (Text × Text)) : Dict Text Text :=
  news.foldl (fun files file => files.set file.1 file.2) files

theorem removeFiles_triple (faults : Faults) (s₀ : Session Content) (names : List Text)
    (i : Nat) :
    Triple (fun s => s = s₀) (removeFiles faults i names)
      (fun _ s => firstFault (fun k => faults.fails (.removeOld (i + k))) names.length = none ∧
        s = { s₀ with files := erased s₀.files names })
      (fun _ s => ∃ k,
        firstFault (fun k => faults.fails (.removeOld (i + k))) names.length = some k ∧
        s = { s₀ with files := erased s₀.files (names.take k) }) := by
  induction names generalizing s₀ i with
  | nil =>
      refine Triple.pure ?_
      rintro s rfl
      exact ⟨rfl, rfl⟩
  | cons name rest ih =>
      have hsucc : (fun k => faults.fails (.removeOld (i + (k + 1)))) =
          fun k => faults.fails (.removeOld (i + 1 + k)) := by
        funext k
        rw [Nat.add_assoc, Nat.add_comm 1 k]
      rw [List.length_cons, firstFault_succ, hsucc, Nat.add_zero]
      unfold removeFiles removeFile fault
      rcases hfails : faults.fails (.removeOld i) with _ | _
      · rw [if_neg (by decide), if_neg (by decide)]
        refine Triple.bind (R := fun _ s => s = { s₀ with files := s₀.files.erase name })
          (Triple.attempt ?_ (fun s _ => nofun) nofun) fun _ => ?_
        · rintro s t rfl ⟨⟩
          rfl
        refine Triple.conseqError (Triple.conseq (ih _ (i + 1)) (fun s hs => hs) ?_) ?_
        · rintro - s ⟨hnone, rfl⟩
          exact ⟨by rw [hnone]; rfl, rfl⟩
        · rintro e s ⟨k, hk, rfl⟩
          exact ⟨k + 1, by rw [hk]; rfl, rfl⟩
      · rw [if_pos rfl, if_pos rfl]
        refine Triple.bind (R := fun _ _ => False) (Triple.attempt_fault ?_) fun _ =>
          Triple.unreachable
        rintro s rfl
        exact ⟨0, rfl, rfl⟩

/-- The files when the copy of the file number `k` fails. -/
def copiedPart (faults : Faults) (i : Nat) (files : Dict Text Text) (news : List (Text × Text))
    (k : Nat) : Dict Text Text :=
  match news[k]? with
  | some file => copyPart faults (i + k) file.1 (copied files (news.take k))
  | none => copied files news

theorem copyFiles_triple (faults : Faults) (s₀ : Session Content) (news : List (Text × Text))
    (i : Nat) :
    Triple (fun s => s = s₀) (copyFiles faults i news)
      (fun _ s => firstFault (fun k => faults.fails (.copyNew (i + k))) news.length = none ∧
        s = { s₀ with files := copied s₀.files news })
      (fun _ s => ∃ k,
        firstFault (fun k => faults.fails (.copyNew (i + k))) news.length = some k ∧
        s = { s₀ with files := copiedPart faults i s₀.files news k }) := by
  induction news generalizing s₀ i with
  | nil =>
      refine Triple.pure ?_
      rintro s rfl
      exact ⟨rfl, rfl⟩
  | cons file rest ih =>
      have hsucc : (fun k => faults.fails (.copyNew (i + (k + 1)))) =
          fun k => faults.fails (.copyNew (i + 1 + k)) := by
        funext k
        rw [Nat.add_assoc, Nat.add_comm 1 k]
      rw [List.length_cons, firstFault_succ, hsucc, Nat.add_zero]
      unfold copyFiles copyFile fault
      rcases hfails : faults.fails (.copyNew i) with _ | _
      · rw [if_neg (by decide), if_neg (by decide)]
        refine Triple.bind
          (R := fun _ s => s = { s₀ with files := s₀.files.set file.1 file.2 })
          (Triple.attempt ?_ (fun s _ => nofun) nofun) fun _ => ?_
        · rintro s t rfl ⟨⟩
          rfl
        refine Triple.conseqError (Triple.conseq (ih _ (i + 1)) (fun s hs => hs) ?_) ?_
        · rintro - s ⟨hnone, rfl⟩
          exact ⟨by rw [hnone]; rfl, rfl⟩
        · rintro e s ⟨k, hk, rfl⟩
          refine ⟨k + 1, by rw [hk]; rfl, ?_⟩
          simp only [copiedPart, List.getElem?_cons_succ, List.take_succ_cons, copied,
            List.foldl_cons, Nat.add_assoc, Nat.add_comm 1 k]
      · rw [if_pos rfl, if_pos rfl]
        refine Triple.bind (R := fun _ _ => False) (Triple.attempt_fault ?_) fun _ =>
          Triple.unreachable
        rintro s rfl
        exact ⟨0, rfl, rfl⟩

/-- The files of a rebase that went through. -/
def rewritten (old new : Dict Text Text) : Dict Text Text :=
  copied (erased old old.keys) (sortedFiles new)

/-- The files where the removal of the old ones or the copying of the new ones stops. -/
def stoppedFiles (faults : Faults) (old new : Dict Text Text) : Option (Dict Text Text) :=
  match firstFault (fun i => faults.fails (.removeOld i)) old.keys.length with
  | some i => some (erased old (old.keys.take i))
  | none =>
      if faults.fails .readNewNames then some (erased old old.keys)
      else
        (firstFault (fun j => faults.fails (.copyNew j)) (sortedFiles new).length).map
          (copiedPart faults 0 (erased old old.keys) (sortedFiles new))

/-- The rebase of the files that `doRebase` comes to, if it comes that far. -/
def filesPlan (env : Env Content) (faults : Faults) (migrations : RebaseMigrations) :
    Option (RebaseMigrations × Dict Text Text) :=
  if faults.fails .tempFiles = false ∧ faults.fails .readNames = false then
    newMigrationFiles env migrations
  else none

theorem doRebase_triple (migrations : RebaseMigrations) :
    Triple (fun s => s = s₀) (doRebase env faults migrations)
      (fun m s => ∃ new, filesPlan env faults migrations = some (m, new) ∧
        stoppedFiles faults s₀.files new = none ∧
        s = { s₀ with files := rewritten s₀.files new })
      (fun _ s => filesPlan env faults migrations = none ∧ s = s₀ ∨
        ∃ m new files, filesPlan env faults migrations = some (m, new) ∧
          stoppedFiles faults s₀.files new = some files ∧
          s = { s₀ with files := files }) := by
  refine Triple.bind (check_triple ?_) fun _ => ?_
  · rintro s e rfl hfails
    exact .inl ⟨if_neg fun h => by rw [hfails] at h; exact absurd h.1 (by decide), rfl⟩
  cases hnew : newMigrationFiles env migrations with
  | none =>
      refine Triple.throw ?_
      rintro s ⟨rfl, -⟩
      refine .inl ⟨?_, rfl⟩
      rw [filesPlan, hnew, ite_self]
  | some planned =>
      obtain ⟨m, new⟩ := planned
      refine Triple.bind (check_triple ?_) fun _ => ?_
      · rintro s e ⟨rfl, -⟩ hfails
        exact .inl ⟨if_neg fun h => by rw [hfails] at h; exact absurd h.2 (by decide), rfl⟩
      refine Triple.assume
        (c := faults.fails .tempFiles = false ∧ faults.fails .readNames = false)
        (fun s hs => ⟨hs.1.2, hs.2⟩) fun hfree => ?_
      have hplan : filesPlan env faults migrations = some (m, new) := by
        rw [filesPlan, if_pos hfree, hnew]
      refine Triple.bind (R := fun r s => r = s₀ ∧ s = s₀) ?_ fun r => ?_
      · refine Triple.get ?_
        rintro s ⟨⟨rfl, -⟩, -⟩
        exact ⟨rfl, rfl⟩
      refine Triple.assume (c := r = s₀) (fun s hs => hs.1) ?_
      rintro rfl
      have hremove := removeFiles_triple faults r r.files.keys 0
      have hcopy := copyFiles_triple faults { r with files := erased r.files r.files.keys }
        (sortedFiles new) 0
      simp only [Nat.zero_add] at hremove hcopy
      refine Triple.bind (Triple.conseqError (Triple.conseq hremove
        (fun s hs => hs.2) fun _ s hs => hs) ?_) fun _ => ?_
      · rintro e s ⟨k, hk, rfl⟩
        exact .inr ⟨m, new, _, hplan, by rw [stoppedFiles, hk], rfl⟩
      refine Triple.bind (check_triple ?_) fun _ => ?_
      · rintro s e ⟨hnone, rfl⟩ hfails
        exact .inr ⟨m, new, _, hplan, by rw [stoppedFiles, hnone]; exact if_pos hfails, rfl⟩
      refine Triple.assume
        (c := firstFault (fun i => faults.fails (.removeOld i)) r.files.keys.length = none ∧
          faults.fails .readNewNames = false) (fun s hs => ⟨hs.1.1, hs.2⟩) ?_
      rintro ⟨hnone, hread⟩
      have hstopped : stoppedFiles faults r.files new =
          (firstFault (fun j => faults.fails (.copyNew j)) (sortedFiles new).length).map
            (copiedPart faults 0 (erased r.files r.files.keys) (sortedFiles new)) := by
        rw [stoppedFiles, hnone]
        exact if_neg (by rw [hread]; decide)
      refine Triple.bind (Triple.conseqError (Triple.conseq hcopy
        (fun s hs => hs.1.2) fun _ s hs => hs) ?_) fun _ => Triple.pure ?_
      · rintro e s ⟨k, hk, rfl⟩
        exact .inr ⟨m, new, _, hplan, by rw [hstopped, hk]; rfl, rfl⟩
      · rintro s ⟨hcopied, rfl⟩
        exact ⟨new, hplan, by rw [hstopped, hcopied]; rfl, rfl⟩

end Files

end GelCli.Branch
