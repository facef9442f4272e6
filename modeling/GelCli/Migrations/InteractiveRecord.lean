import GelCli.Migrations.Interactive
import Mathlib.Data.Finset.Lattice.Lemmas

/-!
# The record of approvals

`operations` holds, for every savepoint, the prompts that were accepted on the way to it.
The counter and the savepoints of the server stay together in every run. A rejection
declares a savepoint without an entry of its own, so that the entries are in step until a
proposal is rejected, and no longer.
-/

namespace GelCli.Migrations.Interactive

open GelCli.Foundation

def Decision.promptId : Decision → Option Text
  | .accepted promptId => promptId
  | .rejected => none

/-- The prompts that were accepted. -/
def acceptedIds (decisions : List Decision) : Finset Text :=
  (decisions.filterMap Decision.promptId).toFinset

theorem acceptedIds_concat (decisions : List Decision) (promptId : Option Text) :
    acceptedIds (decisions ++ [.accepted promptId]) =
      promptId.elim (acceptedIds decisions) fun id => insert id (acceptedIds decisions) := by
  rw [acceptedIds, List.filterMap_append, List.toFinset_append]
  cases promptId with
  | none => exact Finset.union_empty _
  | some id => exact Finset.union_comm _ _

/-! ## What a step can do -/

namespace Phase

/-- The run goes on, and no savepoint is about to be declared or gone back to. -/
def steady : Phase → Bool
  | .declaring | .goingBack | .ended _ => false
  | _ => true

def running : Phase → Bool
  | .ended _ => false
  | _ => true

/-- The last savepoint is not declared yet. -/
def undeclared : Phase → Bool
  | .declaring => true
  | _ => false

/-- How many savepoints the counter is behind the server. -/
def behind : Phase → Nat
  | .goingBack => 1
  | _ => 0

/-- The run is between two steps: nothing is left to be done for the last choice. -/
def between : Phase → Bool
  | .goingBack | .ended _ => false
  | _ => true

theorem running_of_steady {phase : Phase} (h : phase.steady = true) : phase.running = true := by
  cases phase <;> first | rfl | cases h

theorem undeclared_of_steady {phase : Phase} (h : phase.steady = true) :
    phase.undeclared = false := by
  cases phase <;> first | rfl | cases h

theorem behind_of_steady {phase : Phase} (h : phase.steady = true) : phase.behind = 0 := by
  cases phase <;> first | rfl | cases h

theorem behind_of_between {phase : Phase} (h : phase.between = true) : phase.behind = 0 := by
  cases phase <;> first | rfl | cases h

theorem running_of_between {phase : Phase} (h : phase.between = true) : phase.running = true := by
  cases phase <;> first | rfl | cases h

end Phase

/-- An approved proposal that is so by the last entry of `operations`. -/
def ApprovedBy (s : InteractiveMigration) (phase : Phase) : Prop :=
  ∀ descr proposal, phase = .approved descr proposal →
    ∃ curOper ∈ s.operations.getLast?, ∃ id ∈ curOper, proposal.promptId = some id

/-- **What a step can do.** -/
inductive Moves (s : InteractiveMigration) (e : Event) : InteractiveMigration → Prop where
  | stopped (s' : InteractiveMigration) : s'.phase.running = false → Moves s e s'
  | waits (phase : Phase) (confirmed : List Text) : s.phase.steady = true → phase.steady = true →
      (ApprovedBy s s.phase → ApprovedBy s phase) →
      Moves s e { s with phase := phase, confirmed := confirmed }
  | declares : s.phase = .declaring → Moves s e s.declared
  | rejects : s.phase = .rejecting → e = .replied .ok → Moves s e s.rejected
  | accepts (promptId : Option Text) (last : Finset Text) : s.phase.steady = true →
      s.operations.getLast? = some last →
      Moves s e { s with
        cli := { s.cli with content := s.cli.content ++ [.accepted promptId] }
        operations := s.operations ++ [promptId.elim last fun id => insert id last]
        savePoint := s.savePoint + 1
        phase := .declaring }
  | turnsBack : s.phase.steady = true → s.savePoint ≠ 0 →
      Moves s e { s with savePoint := s.savePoint - 1, phase := .goingBack }
  | goesBack (cli : Transaction (List Decision)) : s.phase = .goingBack →
      s.cli.rollbackTo s.savePoint = some cli →
      Moves s e { s with
        cli := cli
        operations := s.operations.take (s.savePoint + 1)
        phase := .describing }
  | rollsBack (cli : Transaction (List Decision)) : s.phase = .rollingBack →
      s.cli.rollbackTo s.savePoint = some cli →
      Moves s e { s with cli := cli, phase := .describing }

variable {tokenize : Tokenizer} {debugPrintErr : Bool} {s s' : InteractiveMigration} {e : Event}

theorem ApprovedBy.of_ne {phase : Phase} (h : ∀ descr proposal, phase ≠ .approved descr proposal) :
    ApprovedBy s phase :=
  fun descr proposal happroved => absurd happroved (h descr proposal)

/-- The record stays as it is and nothing is approved. -/
theorem Moves.goTo {phase : Phase} (hs : s.phase.steady = true) (hphase : phase.steady = true)
    (h : ∀ descr proposal, phase ≠ .approved descr proposal) : Moves s e (s.goTo phase) :=
  .waits phase s.confirmed hs hphase fun _ => .of_ne h

theorem moves_self (hs : s.phase.steady = true) : Moves s e s :=
  .waits s.phase s.confirmed hs hs id

theorem moves_stop {result : Except RunError CurrentMigration} : Moves s e (s.stop result) :=
  .stopped _ rfl

theorem moves_process {descr : CurrentMigration} (hs : s.phase.steady = true) :
    Moves s e (s.process debugPrintErr descr) := by
  unfold InteractiveMigration.process
  dsimp only
  split
  · exact .stopped _ rfl
  split
  · exact .stopped _ rfl
  · exact .stopped _ rfl
  · next proposal curOper _ hlast =>
    split
    · next happroved =>
      refine .waits _ _ hs rfl fun _ descr' proposal' heq => ?_
      cases heq
      refine ⟨curOper, hlast, ?_⟩
      cases hid : proposal.promptId with
      | none =>
          rw [InteractiveMigration.alreadyApproved, hid] at happroved
          cases happroved
      | some id =>
          rw [InteractiveMigration.alreadyApproved, hid] at happroved
          exact ⟨id, of_decide_eq_true happroved, rfl⟩
    · exact .waits _ _ hs rfl fun _ => .of_ne (by simp)

theorem moves_choose {descr : CurrentMigration} {proposal : Proposal} {choice : Choice}
    (hs : s.phase.steady = true) : Moves s e (s.choose descr proposal choice) := by
  cases choice with
  | yes => exact .goTo hs rfl (by simp)
  | no => exact .goTo hs rfl (by simp)
  | list => exact moves_self hs
  | confirmed => exact moves_self hs
  | back =>
      rw [InteractiveMigration.choose]
      split
      · exact moves_self hs
      · next hzero => exact .turnsBack hs hzero
  | split => exact moves_stop
  | quit => exact moves_stop

theorem moves_applyRest {proposal : Proposal} {input : Dict Text Text}
    {rest : List StatementProposal} (hs : s.phase.steady = true) :
    Moves s e (s.applyRest tokenize proposal input rest) := by
  cases rest with
  | nil =>
      rw [InteractiveMigration.applyRest, InteractiveMigration.accepted]
      split
      · exact moves_stop
      · next last hlast => exact .accepts _ last hs hlast
  | cons statement rest =>
      rw [InteractiveMigration.applyRest]
      split
      · exact moves_stop
      · exact .goTo hs rfl (by simp)

theorem moves_withInput {refused : InteractiveMigration} {proposal : Proposal}
    {answers : Nat → Except InputError Text} (hs : s.phase.steady = true)
    (hrefused : Moves s e refused) : Moves s e (s.withInput tokenize refused proposal answers) := by
  unfold InteractiveMigration.withInput
  split
  · exact moves_applyRest hs
  · exact hrefused
  · exact moves_stop

theorem moves_of_next (h : s.next tokenize debugPrintErr e = some s') : Moves s e s' := by
  unfold InteractiveMigration.next at h
  split at h
  · next hphase =>
    cases h
    exact .declares hphase
  · cases h
    exact moves_stop
  · next hphase =>
    cases h
    exact moves_process (by rw [hphase]; rfl)
  · next hphase =>
    cases h
    have hs : s.phase.steady = true := by rw [hphase]; rfl
    exact moves_withInput hs (moves_self hs)
  · cases h
    exact moves_stop
  · next hphase =>
    split at h
    · cases h
      exact moves_choose (by rw [hphase]; rfl)
    · cases h
  · next hphase =>
    cases h
    have hs : s.phase.steady = true := by rw [hphase]; rfl
    exact moves_withInput hs (.goTo hs rfl (by simp))
  · next hphase =>
    cases h
    exact .rejects hphase rfl
  · next hphase =>
    obtain ⟨t, ht, rfl⟩ := Option.map_eq_some_iff.mp h
    obtain ⟨cli, hcli, rfl⟩ := Option.map_eq_some_iff.mp ht
    exact .goesBack cli hphase hcli
  · next hphase =>
    cases h
    exact moves_applyRest (by rw [hphase]; rfl)
  · next hphase =>
    have hs : s.phase.steady = true := by rw [hphase]; rfl
    split at h
    · cases h
      exact moves_stop
    split at h
    · cases h
      exact .goTo hs rfl (by simp)
    · cases h
      exact moves_stop
  · next hphase =>
    obtain ⟨t, ht, rfl⟩ := Option.map_eq_some_iff.mp h
    obtain ⟨cli, hcli, rfl⟩ := Option.map_eq_some_iff.mp ht
    exact .rollsBack cli hphase hcli
  all_goals cases h
  all_goals exact moves_stop

/-! ## The counter and the savepoints -/

/-- The counter and the savepoints stand with what is in effect. -/
structure Placed (s : InteractiveMigration) : Prop where
  counter : s.savePoint + s.phase.behind = s.cli.content.length
  savepoints : s.cli.savepoints =
    if s.phase.undeclared then (marks s.cli.content).tail else marks s.cli.content

theorem Placed.of_steady (h : Placed s) (hs : s.phase.steady = true) :
    s.savePoint = s.cli.content.length ∧ s.cli.savepoints = marks s.cli.content := by
  refine ⟨?_, ?_⟩
  · rw [← h.counter, Phase.behind_of_steady hs, Nat.add_zero]
  · rw [h.savepoints, Phase.undeclared_of_steady hs]
    rfl

theorem Placed.steady {phase : Phase} {confirmed : List Text} (hs : phase.steady = true)
    (hcounter : s.savePoint = s.cli.content.length)
    (hsavepoints : s.cli.savepoints = marks s.cli.content) :
    Placed { s with phase := phase, confirmed := confirmed } where
  counter := by
    show s.savePoint + phase.behind = _
    rw [Phase.behind_of_steady hs, Nat.add_zero, hcounter]
  savepoints := by
    show s.cli.savepoints = if phase.undeclared then _ else _
    rw [Phase.undeclared_of_steady hs, hsavepoints]
    rfl

/-- A decision is in effect, and its savepoint is not declared yet. -/
theorem Placed.decided (h : Placed s) (hs : s.phase.steady = true) (decision : Decision)
    (operations : List (Finset Text)) :
    Placed { s with
      cli := { s.cli with content := s.cli.content ++ [decision] }
      operations := operations
      savePoint := s.savePoint + 1
      phase := .declaring } := by
  obtain ⟨hcounter, hsavepoints⟩ := h.of_steady hs
  constructor
  · show s.savePoint + 1 + 0 = (s.cli.content ++ [decision]).length
    rw [hcounter, List.length_append]
    rfl
  · show s.cli.savepoints = (marks (s.cli.content ++ [decision])).tail
    rw [hsavepoints, marks_concat, List.tail_cons]

/-- What going back leaves. -/
theorem Placed.back (h : Placed s) (hs : s.phase = .goingBack) :
    ∃ decision, s.cli.content = s.cli.content.dropLast ++ [decision] ∧
      s.savePoint = s.cli.content.dropLast.length ∧
      s.cli.rollbackTo s.savePoint =
        some ⟨s.cli.content.dropLast, marks s.cli.content.dropLast⟩ := by
  have hcounter := h.counter
  have hsavepoints := h.savepoints
  rw [hs] at hcounter hsavepoints
  rcases List.eq_nil_or_concat' s.cli.content with hnil | ⟨content, decision, hcontent⟩
  · rw [hnil] at hcounter
    cases hcounter
  have hlength : s.savePoint = content.length := by
    rw [hcontent, List.length_append] at hcounter
    exact Nat.succ.inj hcounter
  have hdrop : s.cli.content.dropLast = content := by rw [hcontent, List.dropLast_concat]
  rw [hdrop, hlength]
  exact ⟨decision, hcontent, rfl, Transaction.rollbackTo_before hcontent hsavepoints⟩

/-- **One step keeps the counter and the savepoints of the server together.** -/
theorem placed_moves (h : s.phase.running = true → Placed s) (hmoves : Moves s e s') :
    s'.phase.running = true → Placed s' := by
  intro hrunning
  cases hmoves with
  | stopped s' hstopped => exact absurd hrunning (by rw [hstopped]; exact Bool.false_ne_true)
  | waits phase confirmed hs hphase =>
      obtain ⟨hcounter, hsavepoints⟩ := (h (Phase.running_of_steady hs)).of_steady hs
      exact .steady hphase hcounter hsavepoints
  | declares hphase =>
      have hplaced := h (by rw [hphase]; rfl)
      have hcounter := hplaced.counter
      have hsavepoints := hplaced.savepoints
      rw [hphase] at hcounter hsavepoints
      constructor
      · exact hcounter
      · show (s.savePoint, s.cli.content) :: s.cli.savepoints = marks s.cli.content
        rw [marks_eq_cons, hsavepoints, ← hcounter]
        rfl
  | rejects hphase =>
      have hs : s.phase.steady = true := by rw [hphase]; rfl
      exact (h (Phase.running_of_steady hs)).decided hs .rejected s.operations
  | accepts promptId last hs =>
      exact (h (Phase.running_of_steady hs)).decided hs _ _
  | turnsBack hs hzero =>
      obtain ⟨hcounter, hsavepoints⟩ := (h (Phase.running_of_steady hs)).of_steady hs
      constructor
      · show s.savePoint - 1 + 1 = s.cli.content.length
        rw [Nat.sub_add_cancel (Nat.one_le_iff_ne_zero.mpr hzero), hcounter]
      · exact hsavepoints
  | goesBack cli hphase hcli =>
      obtain ⟨decision, -, hcounter, hback⟩ := (h (by rw [hphase]; rfl)).back hphase
      obtain rfl := Option.some.inj (hback.symm.trans hcli)
      exact ⟨hcounter, rfl⟩
  | rollsBack cli hphase hcli =>
      have hs : s.phase.steady = true := by rw [hphase]; rfl
      obtain ⟨hcounter, hsavepoints⟩ := (h (Phase.running_of_steady hs)).of_steady hs
      rw [hcounter, Transaction.rollbackTo_last hsavepoints] at hcli
      obtain rfl := Option.some.inj hcli
      exact .steady rfl hcounter hsavepoints

theorem placed_start (expert : Bool) : Placed (.start expert) := ⟨rfl, rfl⟩

/-- **The savepoints are declared in step.** -/
theorem placed_of_reachable (h : (system tokenize debugPrintErr).Reachable System.Free s)
    (hrunning : s.phase.running = true) : Placed s := by
  have hinv : s.phase.running = true → Placed s := by
    refine @System.Reachable.invariant _ _ _ _ (fun s => s.phase.running = true → Placed s) s h ?_ ?_
    · rintro _ ⟨expert, rfl⟩ -
      exact placed_start expert
    · intro s e s' hs _ hnext
      exact placed_moves hs (moves_of_next hnext)
  exact hinv hrunning

/-! ## The record -/

/-- Behind every savepoint stand the prompts that were accepted before it. -/
structure Recorded (s : InteractiveMigration) : Prop where
  operations : s.operations = s.cli.content.inits.map acceptedIds
  approved : ApprovedBy s s.phase

theorem last_recorded (content : List Decision) :
    (content.inits.map acceptedIds).getLast? = some (acceptedIds content) := by
  rcases List.eq_nil_or_concat' content with rfl | ⟨content, decision, rfl⟩
  · rfl
  · rw [inits_concat, List.map_append, List.map_singleton, List.getLast?_concat]

theorem length_recorded (content : List Decision) :
    (content.inits.map acceptedIds).length = content.length + 1 := by
  rw [List.length_map, List.length_inits]

theorem recorded_concat (content : List Decision) (promptId : Option Text) :
    (content ++ [Decision.accepted promptId]).inits.map acceptedIds =
      content.inits.map acceptedIds ++
        [promptId.elim (acceptedIds content) fun id => insert id (acceptedIds content)] := by
  rw [inits_concat, List.map_append, List.map_singleton, acceptedIds_concat]

/-- The server has not taken a rejection. -/
def NotRejected (s : InteractiveMigration) (e : Event) : Prop :=
  ¬(s.phase = .rejecting ∧ e = .replied .ok)

/-- **One step keeps the record, if no proposal is rejected.** -/
theorem recorded_moves (hplaced : s.phase.running = true → Placed s)
    (h : s.phase.running = true → Recorded s) (hnot : NotRejected s e) (hmoves : Moves s e s') :
    s'.phase.running = true → Recorded s' := by
  intro hrunning
  cases hmoves with
  | stopped s' hstopped => exact absurd hrunning (by rw [hstopped]; exact Bool.false_ne_true)
  | waits phase confirmed hs hphase happroved =>
      have hrecorded := h (Phase.running_of_steady hs)
      exact ⟨hrecorded.operations, happroved hrecorded.approved⟩
  | declares hphase =>
      have hrecorded := h (by rw [hphase]; rfl)
      exact ⟨hrecorded.operations, .of_ne (by simp [InteractiveMigration.declared])⟩
  | rejects hphase he => exact absurd ⟨hphase, he⟩ hnot
  | accepts promptId last hs hlast =>
      have hoperations := (h (Phase.running_of_steady hs)).operations
      refine ⟨?_, .of_ne (by simp)⟩
      show s.operations ++ [_] = (s.cli.content ++ [Decision.accepted promptId]).inits.map acceptedIds
      rw [hoperations, last_recorded] at hlast
      obtain rfl := Option.some.inj hlast
      rw [recorded_concat, hoperations]
  | turnsBack hs hzero => exact ⟨(h (Phase.running_of_steady hs)).operations, .of_ne (by simp)⟩
  | goesBack cli hphase hcli =>
      have hbefore : s.phase.running = true := by rw [hphase]; rfl
      obtain ⟨decision, hcontent, hcounter, hback⟩ := (hplaced hbefore).back hphase
      obtain rfl := Option.some.inj (hback.symm.trans hcli)
      refine ⟨?_, .of_ne (by simp)⟩
      show s.operations.take (s.savePoint + 1) = s.cli.content.dropLast.inits.map acceptedIds
      rw [(h hbefore).operations, hcontent, inits_concat, List.map_append, List.dropLast_concat]
      exact List.take_left' (by rw [length_recorded, ← hcounter])
  | rollsBack cli hphase hcli =>
      have hs : s.phase.steady = true := by rw [hphase]; rfl
      obtain ⟨hcounter, hsavepoints⟩ := (hplaced (Phase.running_of_steady hs)).of_steady hs
      rw [hcounter, Transaction.rollbackTo_last hsavepoints] at hcli
      obtain rfl := Option.some.inj hcli
      exact ⟨(h (Phase.running_of_steady hs)).operations, .of_ne (by simp)⟩

/-! ## In step -/

/-- The entries are one more than the counter says, the last one is the prompts that were
accepted on the path to the current savepoint, and what is applied unasked is among them. -/
structure InStep (s : InteractiveMigration) : Prop where
  length : s.operations.length = s.savePoint + 1
  last : s.operations.getLast? = some (acceptedIds s.cli.content)
  current : s.phase.undeclared = false →
    s.cli.savepoints.head? = some (s.savePoint, s.cli.content)
  approved : ∀ descr proposal, s.phase = .approved descr proposal →
    ∃ id ∈ acceptedIds s.cli.content, proposal.promptId = some id

theorem Recorded.inStep (h : Recorded s) (hplaced : Placed s) (hbetween : s.phase.between = true) :
    InStep s := by
  have hcounter := hplaced.counter
  rw [Phase.behind_of_between hbetween, Nat.add_zero] at hcounter
  have hlast : s.operations.getLast? = some (acceptedIds s.cli.content) := by
    rw [h.operations, last_recorded]
  refine ⟨?_, hlast, ?_, ?_⟩
  · rw [h.operations, length_recorded, hcounter]
  · intro hdeclared
    rw [hplaced.savepoints, hdeclared, hcounter]
    show (marks s.cli.content).head? = _
    rw [marks_eq_cons]
    rfl
  · intro descr proposal hphase
    obtain ⟨curOper, hcur, hid⟩ := h.approved descr proposal hphase
    obtain rfl := Option.some.inj (hlast.symm.trans hcur)
    exact hid

/-- A rejection declares a savepoint that has no entry. -/
theorem Recorded.not_inStep_rejected (h : Recorded s) (hplaced : Placed s)
    (hphase : s.phase = .rejecting) : ¬ InStep s.rejected := by
  intro hstep
  have hcounter := hplaced.counter
  rw [hphase] at hcounter
  have hlength : s.operations.length = s.savePoint + 1 + 1 := hstep.length
  rw [h.operations, length_recorded, ← hcounter] at hlength
  exact absurd hlength (Nat.ne_of_lt (Nat.lt_succ_self _))

/-- Every state of the run that is between two steps is in step. -/
def KeepsRecord (tokenize : Tokenizer) (debugPrintErr expert : Bool) (events : List Event) : Prop :=
  ∀ before t, before <+: events →
    (system tokenize debugPrintErr).run (.start expert) before = some t →
      t.phase.between = true → InStep t

/-- **The record of approvals is in step all along a run if and only if no proposal is
rejected on it.** -/
theorem keepsRecord_iff {expert : Bool} {events : List Event}
    (hrun : (system tokenize debugPrintErr).run (.start expert) events = some s) :
    KeepsRecord tokenize debugPrintErr expert events ↔
      (system tokenize debugPrintErr).Along NotRejected (.start expert) events := by
  have hkept : ∀ s e s',
      (s.phase.running = true → Placed s) ∧ (s.phase.running = true → Recorded s) →
        NotRejected s e → (system tokenize debugPrintErr).next s e = some s' →
          (s'.phase.running = true → Placed s') ∧ (s'.phase.running = true → Recorded s') := by
    rintro s e s' ⟨hplaced, hrecorded⟩ hnot hnext
    have hmoves := moves_of_next hnext
    exact ⟨placed_moves hplaced hmoves, recorded_moves hplaced hrecorded hnot hmoves⟩
  refine System.forall_states_iff_along ?_ hkept ?_ ?_ hrun
  · rintro s ⟨hplaced, hrecorded⟩ hbetween
    have hrunning := Phase.running_of_between hbetween
    exact (hrecorded hrunning).inStep (hplaced hrunning) hbetween
  · rintro s e s' ⟨hplaced, hrecorded⟩ hrejected hnext hgood
    obtain ⟨hphase, rfl⟩ := not_not.mp hrejected
    have hrunning : s.phase.running = true := by rw [hphase]; rfl
    have hstep : (system tokenize debugPrintErr).next s (.replied .ok) = some s.rejected := by
      show InteractiveMigration.next tokenize debugPrintErr s _ = _
      simp only [InteractiveMigration.next, hphase]
    obtain rfl := Option.some.inj (hstep.symm.trans hnext)
    exact (hrecorded hrunning).not_inStep_rejected (hplaced hrunning) hphase (hgood rfl)
  · refine ⟨fun _ => placed_start expert, fun _ => ⟨rfl, .of_ne ?_⟩⟩
    simp [InteractiveMigration.start]

/-! ## Two runs -/

namespace Example

/-- The statement of a proposal has no placeholder. -/
def noTokens : Tokenizer := fun _ => []

def proposal (promptId : String) : Proposal where
  promptId := some promptId.toList
  statements := [⟨("CREATE TYPE default::" ++ promptId ++ ";").toList⟩]
  requiredUserInput := []

def proposes (promptId : String) : Event :=
  .described (some ⟨false, "initial".toList, [], some (proposal promptId), none⟩)

def nothingAsked : Event := .answered fun _ => .error .refused

/-- A proposal is confirmed, its statement applied and the savepoint declared. -/
def confirms : List Event := [.chosen (some .yes), nothingAsked, .replied .ok, .replied .ok]

/-- `b` is confirmed, taken back, and asked about again. -/
def takenBack : List Event :=
  [.replied .ok, proposes "b"] ++ confirms ++
    [proposes "c", .chosen (some .back), .replied .ok, proposes "b"]

/-- The same, after `a` was rejected. -/
def takenBackAfterNo : List Event :=
  [.replied .ok, proposes "a", .chosen (some .no), .replied .ok, .replied .ok, proposes "b"] ++
    confirms ++ [proposes "c", .chosen (some .back), .replied .ok, proposes "b"]

end Example

open Example in
theorem keepsRecord_takenBack : KeepsRecord noTokens false false takenBack := by
  have hrun : ((system noTokens false).run (.start false) takenBack).isSome = true := rfl
  obtain ⟨s, hs⟩ := Option.isSome_iff_exists.mp hrun
  refine (keepsRecord_iff hs).mpr ?_
  -- no step waits for a rejection
  iterate 9 refine ⟨fun h => (by cases h.1), _, rfl, ?_⟩
  exact ⟨fun h => (by cases h.1), _, rfl, trivial⟩

open Example in
/-- `b` is not in effect any more and is about to be applied unasked. -/
theorem not_keepsRecord_afterNo : ¬ KeepsRecord noTokens false false takenBackAfterNo := by
  intro h
  have hrun : ∃ t descr, (system noTokens false).run (.start false) takenBackAfterNo = some t ∧
      t.phase = .approved descr (proposal "b") ∧ t.cli.content = [.rejected] :=
    ⟨_, _, rfl, rfl, rfl⟩
  obtain ⟨t, descr, ht, hphase, hcontent⟩ := hrun
  have hstep := h takenBackAfterNo t ⟨[], List.append_nil _⟩ ht (by rw [hphase]; rfl)
  obtain ⟨id, hid, -⟩ := hstep.approved descr (proposal "b") hphase
  rw [hcontent] at hid
  exact absurd hid (Finset.notMem_empty id)

end GelCli.Migrations.Interactive
