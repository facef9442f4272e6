import GelCli.Ports.Allocate

/-!
# Allocations one after the other

The ports of different instances differ, and the ports file keeps every one of them,
in the runs in which no call reads the file while another is between its read and
its write. Without that condition two calls may both read the same file.
-/

namespace GelCli.Ports

open GelCli.Foundation

/-! ## A port that is found is not in use -/

theorem mem_sorted {ports : List UInt16} {port : UInt16} : port ∈ sorted ports ↔ port ∈ ports := by
  rw [sorted, List.mem_insertionSort, List.mem_dedup]

theorem toNat_succ {port : UInt16} (h : port.toNat < 65535) :
    (port + 1).toNat = port.toNat + 1 := by
  rw [UInt16.toNat_add]
  exact Nat.mod_eq_of_lt (by simpa using Nat.succ_lt_succ h)

instance totalPorts : Std.Total (fun port port' : UInt16 => port ≤ port') := ⟨UInt16.le_total⟩

instance transPorts : IsTrans UInt16 (fun port port' => port ≤ port') := ⟨fun _ _ _ => UInt16.le_trans⟩

theorem pairwise_sorted (ports : List UInt16) : (sorted ports).Pairwise (· < ·) := by
  have hle : (sorted ports).Pairwise (· ≤ ·) := List.pairwise_insertionSort _ _
  have hnodup : (sorted ports).Nodup :=
    (List.perm_insertionSort _ _).nodup_iff.mpr (List.nodup_dedup ports)
  refine (hle.and hnodup).imp ?_
  rintro port port' ⟨hle, hne⟩
  exact UInt16.lt_of_le_of_ne hle hne

namespace NextMinPort

/-- The search has passed every port in use that is not reserved any more. -/
structure Avoids (ports : List UInt16) (it : NextMinPort) : Prop where
  sorted : it.reserved.Pairwise (· < ·)
  below : it.reserved ≠ [] → it.prev.toNat < 65535
  passed : ∀ port ∈ ports, port ∈ it.reserved ∨
    port ≤ it.prev ∧ ∀ next ∈ it.reserved, port ≤ next

theorem avoids_search {Name : Type} (portMap : PortMap Name) :
    (search portMap).Avoids (portMap.items.map Prod.snd) where
  sorted := pairwise_sorted _
  below _ := by
    show (minPort - 1).toNat < 65535
    decide
  passed := by
    intro port hport
    exact .inl (mem_sorted.mpr hport)

/-- What the iterator yields is not in use. -/
theorem Avoids.nextFrom {ports reserved : List UInt16} {prev port : UInt16} {it : NextMinPort}
    (h : Avoids ports ⟨reserved, prev⟩) (hnext : nextFrom prev reserved = (some port, it)) :
    port ∉ ports ∧ it.Avoids ports := by
  induction reserved generalizing prev with
  | nil =>
      simp only [NextMinPort.nextFrom, checkedSucc, saturatingSucc] at hnext
      split at hnext
      · cases hnext
      next hmax =>
      cases hnext
      have hlt : prev.toNat < 65535 := by
        have hbound := prev.toNat_lt
        have hne : prev.toNat ≠ 65535 := fun heq => hmax (UInt16.toNat_inj.mp heq)
        omega
      have hsucc := toNat_succ hlt
      have hle : ∀ used ∈ ports, used ≤ prev := by
        intro used hused
        rcases h.passed used hused with hmem | ⟨hle, -⟩
        · cases hmem
        · exact hle
      constructor
      · intro hused
        have hle := UInt16.le_iff_toNat_le.mp (hle _ hused)
        omega
      · refine ⟨List.Pairwise.nil, fun hne => absurd rfl hne, fun used hused => .inr ⟨?_, nofun⟩⟩
        have hle := UInt16.le_iff_toNat_le.mp (hle used hused)
        apply UInt16.le_iff_toNat_le.mpr
        show used.toNat ≤ (prev + 1).toNat
        omega
  | cons next reserved ih =>
      obtain ⟨hhead, htail⟩ := List.pairwise_cons.mp h.sorted
      simp only [NextMinPort.nextFrom] at hnext
      split at hnext
      · next hgap =>
        cases hnext
        have hlt : prev.toNat < 65535 := h.below (by simp)
        have hsucc := toNat_succ hlt
        have hgap := UInt16.lt_iff_toNat_lt.mp hgap
        have hbound := next.toNat_lt
        constructor
        · intro hused
          rcases h.passed _ hused with hmem | ⟨hle, -⟩
          · rcases List.mem_cons.mp hmem with heq | hmem
            · have heq := congrArg UInt16.toNat heq
              omega
            · have hafter := UInt16.lt_iff_toNat_lt.mp (hhead _ hmem)
              omega
          · have hle : (prev + 1).toNat ≤ prev.toNat := UInt16.le_iff_toNat_le.mp hle
            omega
        · refine ⟨h.sorted, fun _ => ?_, fun used hused => ?_⟩
          · show (prev + 1).toNat < 65535
            omega
          rcases h.passed used hused with hmem | ⟨hle, hbefore⟩
          · exact .inl hmem
          · refine .inr ⟨?_, hbefore⟩
            have hle : used.toNat ≤ prev.toNat := UInt16.le_iff_toNat_le.mp hle
            apply UInt16.le_iff_toNat_le.mpr
            show used.toNat ≤ (prev + 1).toNat
            omega
      · apply ih ?_ hnext
        refine ⟨htail, fun hne => ?_, fun used hused => ?_⟩
        · obtain ⟨after, hafter⟩ := List.exists_mem_of_ne_nil _ hne
          have hlt := UInt16.lt_iff_toNat_lt.mp (hhead after hafter)
          have hbound := after.toNat_lt
          show next.toNat < 65535
          omega
        -- the port that is dropped becomes the one passed last
        rcases h.passed used hused with hmem | ⟨-, hbefore⟩
        · rcases List.mem_cons.mp hmem with rfl | hmem
          · exact .inr ⟨UInt16.le_refl _, fun after hafter => UInt16.le_of_lt (hhead after hafter)⟩
          · exact .inl hmem
        · exact .inr ⟨hbefore next List.mem_cons_self,
            fun after hafter => hbefore after (List.mem_cons_of_mem _ hafter)⟩

end NextMinPort

/-! ## What is promised -/

set_option linter.unusedSectionVars false

variable {Call Name : Type} [DecidableEq Call] [DecidableEq Name] {name : Call → Name}

/-- No port is there for two instances. -/
def Distinct (portMap : PortMap Name) : Prop :=
  ∀ instance₁ instance₂ port, portMap.get instance₁ = some port →
    portMap.get instance₂ = some port → instance₁ = instance₂

structure Allocated (name : Call → Name) (s : State Call Name) : Prop where
  distinct : ∀ call call' port, s.phase call = .returned port → s.phase call' = .returned port →
    name call = name call'
  returned : (∀ call, (s.phase call).busy = false) → ∀ call port, s.phase call = .returned port →
    ∃ portMap, s.file.read = some portMap ∧ portMap.get (name call) = some port
  kept : (∀ call, (s.phase call).busy = false) → ∀ before, s.before = some before →
    ∃ portMap, s.file.read = some portMap ∧
      ∀ instance₁ port, before.get instance₁ = some port → portMap.get instance₁ = some port

/-- A call reads a file in which it will not find its port only when no other call is
between its read and its write, and no write fails. -/
def Sequential (name : Call → Name) (s : State Call Name) : Event Call Name → Prop
  | .read call => ∀ portMap, s.file.read = some portMap → portMap.get (name call) = none →
      ∀ other, (s.phase other).busy = false
  | .writeFails .. => False
  | .probe .. | .truncate .. | .write .. => True

/-! ## The invariant -/

/-- What a call knows of the ports that are recorded. -/
def Knows (recorded : PortMap Name) (instance₁ : Name) : Phase Name → Prop
  | .called | .failed => True
  | .searching portMap it => portMap = recorded ∧ recorded.get instance₁ = none ∧
      it.Avoids (recorded.items.map Prod.snd)
  | .found portMap port | .truncated portMap port => portMap = recorded ∧
      recorded.get instance₁ = none ∧ port ∉ recorded.items.map Prod.snd
  | .returned port => recorded.get instance₁ = some port

def Phase.isTruncated : Phase Name → Bool
  | .truncated .. => true
  | .called | .searching .. | .found .. | .returned _ | .failed => false

/-- `recorded` is what the file holds, or held before a call truncated it. -/
structure Recorded (name : Call → Name) (recorded : PortMap Name) (s : State Call Name) :
    Prop where
  distinct : Distinct recorded
  before : ∀ before, s.before = some before → ∀ instance₁ port,
    before.get instance₁ = some port → recorded.get instance₁ = some port
  knows : ∀ call, Knows recorded (name call) (s.phase call)
  single : ∀ call call', (s.phase call).busy = true → (s.phase call').busy = true → call = call'
  file : (∀ call, (s.phase call).isTruncated = false) → s.file.read = some recorded
  emptied : ∀ call, (s.phase call).isTruncated = true → s.file = .empty

/-- Nothing is allocated while the file cannot be read. -/
structure Unreadable (s : State Call Name) : Prop where
  file : s.file.read = none
  before : s.before = none
  phase : ∀ call, s.phase call = .called ∨ s.phase call = .failed

def Sound (name : Call → Name) (s : State Call Name) : Prop :=
  (∃ recorded, Recorded name recorded s) ∨ Unreadable s

theorem Phase.busy_of_isTruncated {phase : Phase Name} (h : phase.isTruncated = true) :
    phase.busy = true := by
  cases phase with
  | truncated => rfl
  | called | searching | found | returned | failed => cases h

theorem Recorded.allocated {recorded : PortMap Name} {s : State Call Name}
    (h : Recorded name recorded s) : Allocated name s := by
  have hreturned : ∀ call port, s.phase call = .returned port →
      recorded.get (name call) = some port := by
    intro call port hphase
    have hknows := h.knows call
    rw [hphase] at hknows
    exact hknows
  have hfile : (∀ call, (s.phase call).busy = false) → s.file.read = some recorded := by
    intro hidle
    apply h.file
    intro call
    by_contra htruncated
    have hbusy := Phase.busy_of_isTruncated (Bool.not_eq_false _ ▸ htruncated)
    rw [hidle call] at hbusy
    cases hbusy
  constructor
  · intro call call' port hphase hphase'
    exact h.distinct _ _ port (hreturned call port hphase) (hreturned call' port hphase')
  · intro hidle call port hphase
    exact ⟨recorded, hfile hidle, hreturned call port hphase⟩
  · intro hidle before hbefore
    exact ⟨recorded, hfile hidle, h.before before hbefore⟩

theorem Unreadable.allocated {s : State Call Name} (h : Unreadable s) : Allocated name s := by
  have hnone : ∀ call port, s.phase call ≠ .returned port := by
    intro call port hphase
    rcases h.phase call with hcalled | hfailed
    · rw [hphase] at hcalled
      cases hcalled
    · rw [hphase] at hfailed
      cases hfailed
  constructor
  · exact fun call _ port hphase => absurd hphase (hnone call port)
  · exact fun _ call port hphase => absurd hphase (hnone call port)
  · intro _ before hbefore
    rw [h.before] at hbefore
    cases hbefore

/-! ## One step -/

section Step

variable {recorded : PortMap Name} {s s' : State Call Name} {call : Call} {phase : Phase Name}

theorem setPhase_self : (s.setPhase call phase).phase call = phase := Function.update_self ..

theorem setPhase_of_ne {other : Call} (h : other ≠ call) :
    (s.setPhase call phase).phase other = s.phase other :=
  Function.update_of_ne h ..

/-- A step of one call that leaves the file alone. -/
theorem Recorded.setPhase (h : Recorded name recorded s)
    (hknows : Knows recorded (name call) phase)
    (hbusy : phase.busy = true → ∀ other, (s.phase other).busy = true → other = call)
    (hbefore : (s.phase call).isTruncated = false) (hafter : phase.isTruncated = false) :
    Recorded name recorded (s.setPhase call phase) where
  distinct := h.distinct
  before := h.before
  knows other := by
    rcases eq_or_ne other call with rfl | hne
    · rw [setPhase_self]
      exact hknows
    · rw [setPhase_of_ne hne]
      exact h.knows other
  single other other' hother hother' := by
    rcases eq_or_ne other call with rfl | hne
    · rw [setPhase_self] at hother
      rcases eq_or_ne other' other with rfl | hne'
      · rfl
      · rw [setPhase_of_ne hne'] at hother'
        exact (hbusy hother other' hother').symm
    · rw [setPhase_of_ne hne] at hother
      rcases eq_or_ne other' call with rfl | hne'
      · rw [setPhase_self] at hother'
        exact hbusy hother' other hother
      · rw [setPhase_of_ne hne'] at hother'
        exact h.single other other' hother hother'
  file hnone := by
    apply h.file
    intro other
    rcases eq_or_ne other call with rfl | hne
    · exact hbefore
    · have hother := hnone other
      rw [setPhase_of_ne hne] at hother
      exact hother
  emptied other htruncated := by
    rcases eq_or_ne other call with rfl | hne
    · rw [setPhase_self, hafter] at htruncated
      cases htruncated
    · rw [setPhase_of_ne hne] at htruncated
      exact h.emptied other htruncated

theorem Unreadable.setFailed (h : Unreadable s) : Unreadable (s.setPhase call .failed) where
  file := h.file
  before := h.before
  phase other := by
    rcases eq_or_ne other call with rfl | hne
    · exact .inr setPhase_self
    · rw [setPhase_of_ne hne]
      exact h.phase other

theorem Recorded.setIdle (h : Recorded name recorded s) (hknows : Knows recorded (name call) phase)
    (hidle : phase.busy = false) (hbefore : (s.phase call).isTruncated = false)
    (hafter : phase.isTruncated = false) : Recorded name recorded (s.setPhase call phase) :=
  h.setPhase hknows (fun hbusy => absurd (hidle.symm.trans hbusy) Bool.false_ne_true) hbefore hafter

/-- A call that finds its port in the file has it; another one is alone. -/
theorem Recorded.read (h : Recorded name recorded s) (hphase : s.phase call = .called)
    (hguard : Sequential name s (.read call)) :
    Recorded name recorded (s.setPhase call (readPorts (name call) s.file)) := by
  have hbefore : (s.phase call).isTruncated = false := by
    rw [hphase]
    rfl
  cases hread : s.file.read with
  | none =>
      have hfailed : readPorts (name call) s.file = .failed := by
        simp only [readPorts, hread]
      rw [hfailed]
      exact h.setIdle trivial rfl hbefore rfl
  | some portMap =>
  -- the file of a call that has truncated it has no ports, and that call is busy
  have htruncated : ∀ other, (s.phase other).isTruncated = false := by
    intro other
    by_contra hother
    rw [Bool.not_eq_false] at hother
    have hempty : portMap = Dict.empty := by
      rw [h.emptied other hother] at hread
      exact (Option.some.inj hread).symm
    have hidle := hguard portMap hread (hempty ▸ rfl) other
    rw [Phase.busy_of_isTruncated hother] at hidle
    cases hidle
  have hrecorded : portMap = recorded := by
    have hfile := h.file htruncated
    rw [hread] at hfile
    exact Option.some.inj hfile
  subst hrecorded
  cases hport : portMap.get (name call) with
  | some port =>
      have hreturned : readPorts (name call) s.file = .returned port := by
        simp only [readPorts, hread, hport]
      rw [hreturned]
      exact h.setIdle hport rfl hbefore rfl
  | none =>
      have hsearching : readPorts (name call) s.file = .searching portMap (.search portMap) := by
        simp only [readPorts, hread, hport]
      rw [hsearching]
      have hknows : Knows portMap (name call) (.searching portMap (.search portMap)) :=
        ⟨rfl, hport, NextMinPort.avoids_search portMap⟩
      apply h.setPhase hknows ?_ hbefore rfl
      intro _ other hother
      rw [hguard portMap hread hport other] at hother
      cases hother

theorem Recorded.alone (h : Recorded name recorded s) (hbusy : (s.phase call).busy = true)
    (other : Call) (hother : (s.phase other).busy = true) : other = call :=
  h.single other call hother hbusy

/-- A probe goes on searching, or finds a port that is not recorded. -/
theorem Recorded.probe {portMap : PortMap Name} {it : NextMinPort} {v4 v6 : Bind}
    (h : Recorded name recorded s) (hphase : s.phase call = .searching portMap it) :
    Recorded name recorded (s.setPhase call (probePort portMap it v4 v6)) := by
  have hbusy : (s.phase call).busy = true := by rw [hphase]; rfl
  have hbefore : (s.phase call).isTruncated = false := by rw [hphase]; rfl
  have hknows := h.knows call
  rw [hphase] at hknows
  obtain ⟨rfl, hnone, havoids⟩ := hknows
  unfold probePort
  split
  · exact h.setIdle trivial rfl hbefore rfl
  · next port it hnext =>
    obtain ⟨hport, havoids⟩ := havoids.nextFrom hnext
    split
    · exact h.setPhase ⟨rfl, hnone, havoids⟩ (fun _ => h.alone hbusy) hbefore rfl
    · exact h.setPhase ⟨rfl, hnone, hport⟩ (fun _ => h.alone hbusy) hbefore rfl

theorem Recorded.truncate {portMap : PortMap Name} {port : UInt16}
    (h : Recorded name recorded s) (hphase : s.phase call = .found portMap port) :
    Recorded name recorded
      { s.setPhase call (.truncated portMap port) with file := .empty } := by
  have hbusy : (s.phase call).busy = true := by rw [hphase]; rfl
  have hknows := h.knows call
  rw [hphase] at hknows
  refine ⟨h.distinct, h.before, fun other => ?_, fun other other' hother hother' => ?_,
    fun hnone => ?_, fun _ _ => rfl⟩
  · rcases eq_or_ne other call with rfl | hne
    · show Knows recorded _ ((s.setPhase other _).phase other)
      rw [setPhase_self]
      exact hknows
    · show Knows recorded _ ((s.setPhase call _).phase other)
      rw [setPhase_of_ne hne]
      exact h.knows other
  · have halone : ∀ o, ((s.setPhase call (.truncated portMap port)).phase o).busy = true →
        o = call := by
      intro o ho
      by_contra hne
      rw [setPhase_of_ne hne] at ho
      exact hne (h.alone hbusy o ho)
    exact (halone other hother).trans (halone other' hother').symm
  · have htruncated := hnone call
    rw [setPhase_self] at htruncated
    cases htruncated

theorem mem_ports_of_get {portMap : PortMap Name} {instance₁ : Name} {port : UInt16}
    (h : portMap.get instance₁ = some port) : port ∈ portMap.items.map Prod.snd :=
  List.mem_map.mpr ⟨_, Dict.get_eq_some.mp h, rfl⟩

theorem Distinct.set {portMap : PortMap Name} {instance₁ : Name} {port : UInt16}
    (h : Distinct portMap) (hport : port ∉ portMap.items.map Prod.snd) :
    Distinct (portMap.set instance₁ port) := by
  intro a b p ha hb
  rw [Dict.get_set] at ha hb
  split at ha
  · next heq =>
    cases ha
    split at hb
    · next heq' => rw [heq, heq']
    · exact absurd (mem_ports_of_get hb) hport
  · split at hb
    · cases hb
      exact absurd (mem_ports_of_get ha) hport
    · exact h a b p ha hb

/-- The call that writes is the only one under way, so what it read is what the file
held. -/
theorem Recorded.write {portMap : PortMap Name} {port : UInt16}
    (h : Recorded name recorded s) (hphase : s.phase call = .truncated portMap port) :
    Recorded name (portMap.set (name call) port)
      { s.setPhase call (.returned port) with file := .holds (portMap.set (name call) port) } := by
  have hbusy : (s.phase call).busy = true := by rw [hphase]; rfl
  have hknows := h.knows call
  rw [hphase] at hknows
  obtain ⟨rfl, hnone, hport⟩ := hknows
  have hkeeps : ∀ instance₁ port', portMap.get instance₁ = some port' →
      (portMap.set (name call) port).get instance₁ = some port' := by
    intro instance₁ port' hget
    have hne : instance₁ ≠ name call := by
      rintro rfl
      rw [hnone] at hget
      cases hget
    rw [Dict.get_set, if_neg hne, hget]
  have hidle : ∀ other, ((s.setPhase call (.returned port)).phase other).busy = false := by
    intro other
    rcases eq_or_ne other call with rfl | hne
    · rw [setPhase_self]
      rfl
    · rw [setPhase_of_ne hne]
      by_contra hother
      exact hne (h.alone hbusy other (Bool.not_eq_false _ ▸ hother))
  refine ⟨h.distinct.set hport, fun before hbefore instance₁ port' hget => ?_, fun other => ?_,
    fun other _ hother => ?_, fun _ => rfl, fun other hother => ?_⟩
  · exact hkeeps instance₁ port' (h.before before hbefore instance₁ port' hget)
  · rcases eq_or_ne other call with rfl | hne
    · show Knows _ _ ((s.setPhase other _).phase other)
      rw [setPhase_self]
      exact (Dict.get_set ..).trans (if_pos rfl)
    · have hother := hidle other
      have hknows := h.knows other
      show Knows _ _ ((s.setPhase call _).phase other)
      rw [setPhase_of_ne hne] at hother ⊢
      cases hp : s.phase other with
      | called | failed => trivial
      | returned port' =>
          rw [hp] at hknows
          exact hkeeps _ port' hknows
      | searching | found | truncated =>
          rw [hp] at hother
          cases hother
  · rw [hidle other] at hother
    cases hother
  · have hother := Phase.busy_of_isTruncated hother
    rw [hidle other] at hother
    cases hother

theorem Recorded.next {e : Event Call Name} (h : Recorded name recorded s)
    (hguard : Sequential name s e) (hstep : next name s e = some s') :
    ∃ recorded', Recorded name recorded' s' := by
  cases e with
  | read call =>
      simp only [Ports.next] at hstep
      split at hstep
      · next hphase =>
        cases hstep
        exact ⟨recorded, h.read hphase hguard⟩
      · cases hstep
  | probe call v4 v6 =>
      simp only [Ports.next] at hstep
      split at hstep
      · next hphase =>
        cases hstep
        exact ⟨recorded, h.probe hphase⟩
      · cases hstep
  | truncate call created =>
      simp only [Ports.next] at hstep
      split at hstep
      · next portMap port hphase =>
        split at hstep
        · cases hstep
          exact ⟨recorded, h.truncate hphase⟩
        · cases hstep
          exact ⟨recorded, h.setPhase trivial nofun (hphase ▸ rfl) rfl⟩
      · cases hstep
  | write call =>
      simp only [Ports.next] at hstep
      split at hstep
      · next portMap port hphase =>
        cases hstep
        exact ⟨_, h.write hphase⟩
      · cases hstep
  | writeFails => exact hguard.elim

/-- While the file cannot be read every call fails at once. -/
theorem Unreadable.next {e : Event Call Name} (h : Unreadable s)
    (hstep : next name s e = some s') : Unreadable s' := by
  have hcalled : ∀ {call phase}, s.phase call = phase → phase = .called ∨ phase = .failed :=
    fun hphase => hphase ▸ h.phase _
  cases e with
  | read call =>
      simp only [Ports.next] at hstep
      split at hstep
      · cases hstep
        have hfailed : readPorts (name call) s.file = .failed := by
          simp only [readPorts, h.file]
        rw [hfailed]
        exact h.setFailed
      · cases hstep
  | probe | truncate | write | writeFails =>
      simp only [Ports.next] at hstep
      split at hstep
      · next hphase => rcases hcalled hphase with hcalled | hfailed <;> contradiction
      · cases hstep

theorem sound_next {e : Event Call Name} (h : Sound name s) (hguard : Sequential name s e)
    (hstep : next name s e = some s') : Sound name s' := by
  rcases h with ⟨recorded, h⟩ | h
  · exact .inl (h.next hguard hstep)
  · exact .inr (h.next hstep)

end Step

/-! ## Runs -/

theorem sound_of_initial {s : State Call Name} (h : Initial s)
    (hdistinct : ∀ before, s.before = some before → Distinct before) : Sound name s := by
  have hbefore := h.before
  cases hread : s.file.read with
  | none =>
      rw [hread] at hbefore
      exact .inr ⟨hread, hbefore, fun call => .inl (h.called call)⟩
  | some portMap =>
      rw [hread] at hbefore
      refine .inl ⟨portMap, hdistinct portMap hbefore, ?_, ?_, ?_, fun _ => hread, ?_⟩
      · intro before hbefore' instance₁ port hget
        cases hbefore.symm.trans hbefore'
        exact hget
      · intro call
        rw [h.called call]
        trivial
      · intro call _ hbusy
        rw [h.called call] at hbusy
        cases hbusy
      · intro call htruncated
        rw [h.called call] at htruncated
        cases htruncated

/-- What the file held before the first call does not change. -/
theorem before_next {s s' : State Call Name} {e : Event Call Name}
    (hstep : next name s e = some s') : s'.before = s.before := by
  cases e with
  | read | probe | write | writeFails =>
      simp only [Ports.next] at hstep
      split at hstep <;> cases hstep
      rfl
  | truncate =>
      simp only [Ports.next] at hstep
      split at hstep
      · split at hstep <;> cases hstep <;> rfl
      · cases hstep

/-- **Sequential calls share no port**: whatever the probes answer, if the file held no
port twice, the ports returned for different instances differ, and between the calls
the file holds all of them with all that it held before. -/
theorem allocated_of_reachable {s : State Call Name}
    (h : (allocations name).Reachable (Sequential name) s)
    (hdistinct : ∀ before, s.before = some before → Distinct before) : Allocated name s := by
  have hsound : (∀ before, s.before = some before → Distinct before) → Sound name s := by
    refine h.invariant (fun s hinitial => sound_of_initial hinitial) ?_
    intro s e s' hs hguard hstep hdistinct
    rw [before_next hstep] at hdistinct
    exact sound_next (hs hdistinct) hguard hstep
  rcases hsound hdistinct with ⟨recorded, hrecorded⟩ | hunreadable
  · exact hrecorded.allocated
  · exact hunreadable.allocated

section Sample

def noPorts : State Bool Bool where
  file := .missing
  phase _ := .called
  before := some .empty

theorem initial_noPorts : Initial noPorts where
  called _ := rfl
  before := rfl

def allocation (call : Bool) : List (Event Bool Bool) :=
  [.read call, .probe call .ok .ok, .truncate call true, .write call]

/-- Two calls, one after the other. -/
def oneByOne : List (Event Bool Bool) := allocation true ++ allocation false

theorem along_oneByOne : (allocations id).Along (Sequential id) noPorts oneByOne := by
  refine ⟨?_, _, rfl, trivial, _, rfl, trivial, _, rfl, trivial, _, rfl, ?_, _, rfl, trivial, _,
    rfl, trivial, _, rfl, trivial, _, rfl, trivial⟩
  · rintro _ _ _ (_ | _) <;> rfl
  · rintro _ _ _ (_ | _) <;> rfl

theorem allocated_of_reachable_oneByOne :
    ∃ s : State Bool Bool, (allocations id).Reachable (Sequential id) s ∧
      s.phase true = .returned 10700 ∧ s.phase false = .returned 10701 ∧ Allocated id s := by
  have hrun : ∃ s, (allocations id).run noPorts oneByOne = some s ∧
      s.phase true = .returned 10700 ∧ s.phase false = .returned 10701 ∧
      s.before = some .empty := ⟨_, rfl, rfl, rfl, rfl⟩
  obtain ⟨s, hrun, htrue, hfalse, hbefore⟩ := hrun
  have hreachable : (allocations id).Reachable (Sequential id) s :=
    (System.Reachable.initial initial_noPorts).along along_oneByOne hrun
  have hdistinct : ∀ before, s.before = some before → Distinct before := by
    rintro before hsome _ _ _ hget -
    cases hbefore.symm.trans hsome
    cases hget
  exact ⟨s, hreachable, htrue, hfalse, allocated_of_reachable hreachable hdistinct⟩

/-- Two calls that both read the file before either has written it. -/
def atOnce : List (Event Bool Bool) :=
  [.read true, .read false, .probe true .ok .ok, .probe false .ok .ok, .truncate true true,
    .write true, .truncate false true, .write false]

theorem allocatePort_shares_port :
    ¬ ∀ s : State Bool Bool, (allocations id).Reachable System.Free s → Allocated id s := by
  intro hclaim
  have hrun : ∃ s, (allocations id).run noPorts atOnce = some s ∧
      s.phase true = .returned 10700 ∧ s.phase false = .returned 10700 := ⟨_, rfl, rfl, rfl⟩
  obtain ⟨s, hrun, htrue, hfalse⟩ := hrun
  have hreachable : (allocations id).Reachable System.Free s :=
    (System.Reachable.initial initial_noPorts).run hrun
  have hsame := (hclaim s hreachable).distinct true false 10700 htrue hfalse
  cases hsame

end Sample

end GelCli.Ports
