import GelCli.Locking.FileLock

/-!
# File locks exclude each other

No two processes hold the lock of a path when one of them holds it alone, in the runs in
which the system locks a file only while the path names it. Nothing in the source looks
at that: a process that has opened the file before another one has unlinked the path gets
the lock of a file that nobody else will open.
-/

namespace GelCli.Locking

open GelCli.Foundation

variable {Process : Type} [DecidableEq Process] {s t : State Process} {p q : Process}

set_option linter.unusedSectionVars false

/-- No process holds the lock alone while another one holds it as well. -/
def Excluded (s : State Process) : Prop :=
  ∀ p q i j type, s.phase p = .holding i .exclusive → s.phase q = .holding j type → q = p

/-- A file that gets locked is the one that the path names. -/
def OnNamedFile (s : State Process) : Event Process → Prop
  | .tryLock p => ∀ i type, s.phase p = .opened i type → (s.locks i).grants p type = true →
      s.path = some i
  | .openFile .. | .takeNoLock _ | .dropNoLock _ | .writeData .. | .downgrade _ | .tryUpgrade _
  | .unlink .. | .close _ | .kill _ => True

/-! ## The invariant -/

structure Sound (s : State Process) : Prop where
  table : ∀ p i type, (p, type) ∈ s.locks i ↔ (s.phase p).osLock = some (i, type)
  exclusive : ∀ i, (s.locks i).Exclusive
  attached : ∀ p i, (s.phase p).attached = some i → s.path = some i

theorem Phase.osLock_of_attached {phase : Phase} {i : Inode} (h : phase.attached = some i) :
    ∃ type, phase.osLock = some (i, type) := by
  cases phase with
  | locked j type | holding j type =>
      cases h
      exact ⟨type, rfl⟩
  | upgraded j =>
      cases h
      exact ⟨.exclusive, rfl⟩
  | idle | opened | noLock | closing => cases h

/-- Two processes that are attached are attached to the same file. -/
theorem Sound.eq_of_exclusive {i j : Inode} (h : Sound s) (hp : (s.phase p).attached = some i)
    (hlock : (s.phase p).osLock = some (i, .exclusive)) (hq : (s.phase q).attached = some j) :
    q = p := by
  obtain ⟨type, hqlock⟩ := Phase.osLock_of_attached hq
  have hsame : i = j := Option.some.inj ((h.attached p i hp).symm.trans (h.attached q j hq))
  subst hsame
  exact h.exclusive i p q type ((h.table p i _).mpr hlock) ((h.table q i type).mpr hqlock)

theorem Sound.excluded (h : Sound s) : Excluded s := by
  intro p q i j type hp hq
  have hattached : (s.phase p).attached = some i := by rw [hp]; rfl
  have hlock : (s.phase p).osLock = some (i, .exclusive) := by rw [hp]; rfl
  exact h.eq_of_exclusive hattached hlock (by rw [hq]; rfl)

/-! ## One step -/

section Step

variable {new : Phase} {i : Inode} {type : LockType}

/-- What a step of one process has to show. -/
theorem Sound.step (h : Sound s) (hphase : t.phase = Function.update s.phase p new)
    (hlocks : ∀ q j other, (q, other) ∈ t.locks j ↔
      q = p ∧ new.osLock = some (j, other) ∨ q ≠ p ∧ (q, other) ∈ s.locks j)
    (hexclusive : ∀ j, (t.locks j).Exclusive)
    (hattached : ∀ j, new.attached = some j → t.path = some j)
    (hothers : ∀ q j, q ≠ p → (s.phase q).attached = some j → t.path = some j) : Sound t := by
  refine ⟨fun q j other => ?_, hexclusive, fun q j hq => ?_⟩
  · rw [hlocks, hphase]
    rcases eq_or_ne q p with rfl | hne
    · rw [Function.update_self]
      simp
    · rw [Function.update_of_ne hne, ← h.table]
      simp [hne]
  · rw [hphase] at hq
    rcases eq_or_ne q p with rfl | hne
    · rw [Function.update_self] at hq
      exact hattached j hq
    · rw [Function.update_of_ne hne] at hq
      exact hothers q j hne hq

/-- The lock of the process stays as it is. -/
theorem Sound.locks_kept (h : Sound s) (hlock : new.osLock = (s.phase p).osLock) (q : Process)
    (j : Inode) (other : LockType) : (q, other) ∈ s.locks j ↔
      q = p ∧ new.osLock = some (j, other) ∨ q ≠ p ∧ (q, other) ∈ s.locks j := by
  rcases eq_or_ne q p with rfl | hne
  · rw [hlock, ← h.table]
    simp
  · simp [hne]

theorem Sound.locks_grant (h : Sound s)
    (hlock : ∀ j other, (s.phase p).osLock = some (j, other) → j = i)
    (hnew : new.osLock = some (i, type)) (q : Process) (j : Inode) (other : LockType) :
    (q, other) ∈ (s.grant p i type).locks j ↔
      q = p ∧ new.osLock = some (j, other) ∨ q ≠ p ∧ (q, other) ∈ s.locks j := by
  rw [hnew]
  show (q, other) ∈ Function.update s.locks i ((s.locks i).grant p type) j ↔ _
  rcases eq_or_ne j i with rfl | hne
  · rw [Function.update_self, LockTable.mem_grant]
    simp [eq_comm]
  · rw [Function.update_of_ne hne]
    rcases eq_or_ne q p with rfl | hqp
    · have hnot : (q, other) ∉ s.locks j := fun hmem => hne (hlock j other ((h.table q j other).mp hmem))
      simp [hnot, hne.symm]
    · simp [hqp]

theorem Sound.locks_release (h : Sound s) (hnew : new.osLock = none) (q : Process) (j : Inode)
    (other : LockType) : (q, other) ∈ (s.release p (s.phase p).osLock).locks j ↔
      q = p ∧ new.osLock = some (j, other) ∨ q ≠ p ∧ (q, other) ∈ s.locks j := by
  rw [hnew]
  cases hlock : (s.phase p).osLock with
  | none =>
      show (q, other) ∈ s.locks j ↔ _
      rcases eq_or_ne q p with rfl | hqp
      · rw [h.table, hlock]
        simp
      · simp [hqp]
  | some lock =>
      obtain ⟨i, type⟩ := lock
      show (q, other) ∈ Function.update s.locks i ((s.locks i).release p) j ↔ _
      rcases eq_or_ne j i with rfl | hne
      · rw [Function.update_self, LockTable.mem_release]
        simp
      · rw [Function.update_of_ne hne]
        rcases eq_or_ne q p with rfl | hqp
        · have hnot : (q, other) ∉ s.locks j := by
            rw [h.table, hlock]
            rintro ⟨⟩
            exact hne rfl
          simp [hnot]
        · simp [hqp]

theorem Sound.exclusive_grant (h : Sound s) (hgrants : (s.locks i).grants p type = true)
    (j : Inode) : ((s.grant p i type).locks j).Exclusive := by
  show (Function.update s.locks i ((s.locks i).grant p type) j).Exclusive
  rcases eq_or_ne j i with rfl | hne
  · rw [Function.update_self]
    exact (h.exclusive j).grant hgrants
  · rw [Function.update_of_ne hne]
    exact h.exclusive j

theorem Sound.exclusive_release (h : Sound s) (lock : Option (Inode × LockType)) (j : Inode) :
    ((s.release p lock).locks j).Exclusive := by
  cases lock with
  | none => exact h.exclusive j
  | some lock =>
      show (Function.update s.locks lock.1 ((s.locks lock.1).release p) j).Exclusive
      rcases eq_or_ne j lock.1 with rfl | hne
      · rw [Function.update_self]
        exact (h.exclusive _).release
      · rw [Function.update_of_ne hne]
        exact h.exclusive j

theorem release_path (lock : Option (Inode × LockType)) : (s.release p lock).path = s.path := by
  cases lock <;> rfl

theorem release_phase (lock : Option (Inode × LockType)) :
    (s.release p lock).phase = s.phase := by
  cases lock <;> rfl

/-- A step that neither locks nor unlinks. -/
theorem Sound.setPhase (h : Sound s) (hlock : new.osLock = (s.phase p).osLock)
    (hattached : ∀ j, new.attached = some j → (s.phase p).attached = some j) :
    Sound (s.setPhase p new) :=
  h.step rfl (h.locks_kept hlock) h.exclusive (fun j hj => h.attached p j (hattached j hj))
    fun q j _ hq => h.attached q j hq

theorem Sound.grant (h : Sound s) (hgrants : (s.locks i).grants p type = true)
    (hlock : ∀ j other, (s.phase p).osLock = some (j, other) → j = i)
    (hnew : new.osLock = some (i, type))
    (hattached : ∀ j, new.attached = some j → s.path = some j) :
    Sound ((s.grant p i type).setPhase p new) :=
  h.step rfl (h.locks_grant hlock hnew) (h.exclusive_grant hgrants) hattached
    fun q j _ hq => h.attached q j hq

/-- A process that closes its file. -/
theorem Sound.close (h : Sound s) : Sound (close s p) := by
  have hphase : (Locking.close s p).phase = Function.update s.phase p .idle := by
    show Function.update (s.release p (s.phase p).osLock).phase p .idle = _
    rw [release_phase]
  refine h.step hphase (h.locks_release rfl) (h.exclusive_release _) nofun fun q j _ hq => ?_
  show (s.release p (s.phase p).osLock).path = _
  rw [release_path]
  exact h.attached q j hq

theorem Sound.openFile (h : Sound s) (hphase : s.phase p = .idle) :
    Sound (openFile s p type) := by
  unfold Locking.openFile
  split
  · exact h.setPhase (by rw [hphase]; rfl) nofun
  · next hnone =>
    refine h.step rfl (h.locks_kept (by rw [hphase]; rfl)) h.exclusive nofun fun q j _ hq => ?_
    -- no process is attached while the path names nothing
    have hpath := h.attached q j hq
    rw [hnone] at hpath
    cases hpath

theorem Sound.tryLock (h : Sound s) (hphase : s.phase p = .opened i type)
    (hguard : (s.locks i).grants p type = true → s.path = some i) :
    Sound (tryLock s p i type) := by
  unfold Locking.tryLock
  split
  · next hgrants =>
    refine h.grant hgrants ?_ rfl ?_
    · rw [hphase]
      exact nofun
    · rintro j ⟨⟩
      exact hguard hgrants
  · exact h.setPhase (by rw [hphase]; rfl) nofun

theorem Sound.writeData {written : Bool} (h : Sound s) (hphase : s.phase p = .locked i type) :
    Sound (writeData s p i type written) := by
  unfold Locking.writeData
  split
  · refine h.setPhase (by rw [hphase]; rfl) ?_
    rintro j ⟨⟩
    rw [hphase]
    rfl
  · have hclosed : Sound (Locking.close s p) := h.close
    rw [Locking.close, hphase] at hclosed
    exact hclosed

theorem Sound.downgrade (h : Sound s) (hphase : s.phase p = .holding i .exclusive) :
    Sound (downgrade s p i) := by
  have hmem : (p, LockType.exclusive) ∈ s.locks i := by
    rw [h.table, hphase]
    rfl
  refine h.grant ((h.exclusive i).grants hmem) ?_ rfl ?_
  · rw [hphase]
    rintro j other ⟨⟩
    rfl
  · rintro j ⟨⟩
    exact h.attached p i (by rw [hphase]; rfl)

theorem Sound.tryUpgrade (h : Sound s) (hphase : s.phase p = .holding i .shared) :
    Sound (tryUpgrade s p i) := by
  unfold Locking.tryUpgrade
  split
  · next hgrants =>
    refine h.grant hgrants ?_ rfl ?_
    · rw [hphase]
      rintro j other ⟨⟩
      rfl
    · rintro j ⟨⟩
      exact h.attached p i (by rw [hphase]; rfl)
  · exact h.setPhase (by rw [hphase]; rfl) nofun

/-- Whoever unlinks the path has locked the file that it names alone. -/
theorem Sound.unlink {removed : Bool} (h : Sound s)
    (hattached : (s.phase p).attached = some i)
    (hlock : (s.phase p).osLock = some (i, .exclusive)) : Sound (unlink s p i removed) := by
  refine h.step rfl (h.locks_kept hlock.symm) h.exclusive nofun fun q j hne hq => ?_
  exact absurd (h.eq_of_exclusive hattached hlock hq) hne

theorem Sound.next {e : Event Process} (h : Sound s) (hguard : OnNamedFile s e)
    (hstep : next s e = some t) : Sound t := by
  cases steps_of_next hstep with
  | openFile hphase => exact h.openFile hphase
  | takeNoLock hphase => exact h.setPhase (by rw [hphase]; rfl) nofun
  | dropNoLock hphase => exact h.setPhase (by rw [hphase]; rfl) nofun
  | tryLock hphase => exact h.tryLock hphase (hguard _ _ hphase)
  | writeData hphase => exact h.writeData hphase
  | downgrade hphase => exact h.downgrade hphase
  | tryUpgrade hphase => exact h.tryUpgrade hphase
  | unlink hphase =>
      rcases hphase with hphase | hphase
      · exact h.unlink (by rw [hphase]; rfl) (by rw [hphase]; rfl)
      · exact h.unlink (by rw [hphase]; rfl) (by rw [hphase]; rfl)
  | close => exact h.close
  | kill => exact h.close

end Step

theorem sound_of_initial (h : Initial s) : Sound s := by
  refine ⟨fun p i type => ?_, fun i => ?_, fun p i hp => ?_⟩
  · rw [h.locks i, h.idle p]
    simp [Phase.osLock]
  · rw [h.locks i]
    exact LockTable.Exclusive.nil
  · rw [h.idle p] at hp
    cases hp

/-- **File locks exclude each other** in the runs in which each file that gets locked is the
one that the path names. -/
theorem excluded_of_reachable (s : State Process)
    (h : (fileLocks Process).Reachable OnNamedFile s) : Excluded s :=
  (h.invariant (fun _ hs => sound_of_initial hs)
    fun _ _ _ hs hguard hstep => hs.next hguard hstep).excluded

/-! ## A file that was unlinked -/

def unlocked : State (Fin 3) where
  path := none
  fresh := 0
  locks _ := []
  phase _ := .idle

theorem unlocked_initial : (fileLocks (Fin 3)).Initial unlocked :=
  ⟨fun _ => rfl, fun _ => rfl, nofun⟩

def takes (p : Fin 3) : List (Event (Fin 3)) :=
  [.openFile p .exclusive, .tryLock p, .writeData p true]

def drops (p : Fin 3) : List (Event (Fin 3)) := [.unlink p true, .close p]

def takenInTurn : List (Event (Fin 3)) := takes 0 ++ drops 0 ++ takes 1

theorem along_takenInTurn : (fileLocks (Fin 3)).Along OnNamedFile unlocked takenInTurn := by
  refine ⟨trivial, _, rfl, ?_, _, rfl, trivial, _, rfl, trivial, _, rfl, trivial, _, rfl, trivial,
    _, rfl, ?_, _, rfl, trivial, _, rfl, trivial⟩
  · rintro _ _ ⟨⟩ -
    rfl
  · rintro _ _ ⟨⟩ -
    rfl

theorem excluded_of_reachable_inTurn : ∃ s, (fileLocks (Fin 3)).Reachable OnNamedFile s ∧
    s.phase 1 = .holding 1 .exclusive ∧ Excluded s := by
  obtain ⟨s, hrun, hphase⟩ : ∃ s, (fileLocks (Fin 3)).run unlocked takenInTurn = some s ∧
      s.phase 1 = .holding 1 .exclusive := ⟨_, rfl, rfl⟩
  have hreachable := (System.Reachable.initial unlocked_initial).along along_takenInTurn hrun
  exact ⟨s, hreachable, hphase, excluded_of_reachable s hreachable⟩

/-- The second process locks the file that it has opened before the first one has unlinked
the path; the third one creates another. -/
def stale : List (Event (Fin 3)) :=
  takes 0 ++ [.openFile 1 .exclusive] ++ drops 0 ++ [.tryLock 1, .writeData 1 true] ++ takes 2

theorem locks_not_excluded :
    ¬ ∀ s, (fileLocks (Fin 3)).Reachable System.Free s → Excluded s := by
  intro hclaim
  obtain ⟨s, hrun, hone, htwo⟩ : ∃ s, (fileLocks (Fin 3)).run unlocked stale = some s ∧
      s.phase 1 = .holding 0 .exclusive ∧ s.phase 2 = .holding 1 .exclusive := ⟨_, rfl, rfl, rfl⟩
  have hreachable := (System.Reachable.initial unlocked_initial).run hrun
  exact absurd (hclaim s hreachable 1 2 0 1 .exclusive hone htwo) (by decide)

end GelCli.Locking
