import GelCli.Foundation.Channel
import GelCli.Foundation.Text
import GelCli.Foundation.Transition
import Mathlib.Data.Finset.Basic

/-!
# Execution orders of the watch mode

The watcher sends the paths that matched over a channel, and a task that runs a script
takes them with `ExecutionOrder::recv`, which merges what is queued into one order. A call
takes one order and then drains the queue. When the senders go while it drains, `recv`
returns `None` and drops what it has taken.
-/

namespace GelCli.Watch

open GelCli.Foundation

@[ext]
structure ExecutionOrder where
  matchedPaths : Finset Text
  deriving DecidableEq

def ExecutionOrder.default : ExecutionOrder := { matchedPaths := ∅ }

def ExecutionOrder.merge (self other : ExecutionOrder) : ExecutionOrder :=
  { matchedPaths := self.matchedPaths ∪ other.matchedPaths }

/-- Where a call of `ExecutionOrder::recv` stands. -/
inductive Recv where
  /-- Inside of `input.recv().await`. -/
  | waiting
  /-- In the loop, with the order merged so far. -/
  | draining (order : ExecutionOrder)
  | done (result : Option ExecutionOrder)
  deriving DecidableEq

/-- What the call does with the next answer of the channel, unless it waits for one. -/
def Recv.poll (self : Recv) (input : Channel ExecutionOrder) :
    Option (Recv × Channel ExecutionOrder) :=
  match self, input.tryRecv with
  | .waiting, .ok (order, input) => some (.draining order, input)
  | .waiting, .error .empty => none
  | .waiting, .error .disconnected => some (.done none, input)
  | .draining order, .ok (o, input) => some (.draining (order.merge o), input)
  | .draining order, .error .empty => some (.done (some order), input)
  | .draining _, .error .disconnected => some (.done none, input)
  | .done _, _ => none

theorem Recv.poll_cases {r r' : Recv} {c c' : Channel ExecutionOrder}
    (h : r.poll c = some (r', c')) :
    (∃ o, c.queue = o :: c'.queue ∧ c'.senders = c.senders ∧
      (r = .waiting ∧ r' = .draining o ∨
        ∃ order, r = .draining order ∧ r' = .draining (order.merge o))) ∨
    (∃ order, r = .draining order ∧ r' = .done (some order) ∧ c.queue = [] ∧ c.senders ≠ 0 ∧
      c' = c) ∨
    ((∀ result, r ≠ .done result) ∧ r' = .done none ∧ c.queue = [] ∧ c.senders = 0 ∧
      c' = c) := by
  unfold Recv.poll at h
  split at h
  case h_1 o input hrecv =>
    obtain ⟨hqueue, hsenders⟩ := Channel.tryRecv_eq_ok hrecv
    cases h
    exact Or.inl ⟨o, hqueue, hsenders, Or.inl ⟨rfl, rfl⟩⟩
  case h_2 => cases h
  case h_3 hrecv =>
    obtain ⟨hqueue, hsenders⟩ := Channel.tryRecv_eq_disconnected hrecv
    cases h
    exact Or.inr (Or.inr ⟨fun _ => Recv.noConfusion, rfl, hqueue, hsenders, rfl⟩)
  case h_4 order o input hrecv =>
    obtain ⟨hqueue, hsenders⟩ := Channel.tryRecv_eq_ok hrecv
    cases h
    exact Or.inl ⟨o, hqueue, hsenders, Or.inr ⟨order, rfl, rfl⟩⟩
  case h_5 order hrecv =>
    obtain ⟨hqueue, hsenders⟩ := Channel.tryRecv_eq_empty hrecv
    cases h
    exact Or.inr (Or.inl ⟨order, rfl, rfl, hqueue, hsenders, rfl⟩)
  case h_6 order hrecv =>
    obtain ⟨hqueue, hsenders⟩ := Channel.tryRecv_eq_disconnected hrecv
    cases h
    exact Or.inr (Or.inr ⟨fun _ => Recv.noConfusion, rfl, hqueue, hsenders, rfl⟩)
  case h_7 => cases h

/-! ## A task and its channel -/

/-- The orders sent, those that the running call has taken, and for each returned order
the ones that it was merged from. -/
structure Script where
  input : Channel ExecutionOrder
  call : Recv
  sent : List ExecutionOrder
  taken : List ExecutionOrder
  returned : List ExecutionOrder
  groups : List (List ExecutionOrder)
  deriving DecidableEq

def Script.start : Script :=
  { input := Channel.new, call := .waiting, sent := [], taken := [], returned := [],
    groups := [] }

/-- The call comes to `call`. -/
def Script.record (s : Script) (call : Recv) : Script :=
  match call with
  | .draining _ => { s with taken := s.taken ++ s.input.queue.head?.toList }
  | .done (some order) =>
      { s with
        taken := []
        returned := s.returned ++ [order]
        groups := s.groups ++ [s.taken] }
  | .waiting | .done none => s

inductive Event where
  | send (order : ExecutionOrder)
  | cloneSender
  | dropSender
  | receive
  /-- The script has run. -/
  | again

def Script.next (s : Script) : Event → Option Script
  | .send order => (s.input.send order).map fun input =>
      { s with input := input, sent := s.sent ++ [order] }
  | .cloneSender => s.input.cloneSender.map fun input => { s with input := input }
  | .dropSender => s.input.dropSender.map fun input => { s with input := input }
  | .receive => (s.call.poll s.input).map fun (call, input) =>
      { s.record call with call := call, input := input }
  | .again =>
      match s.call with
      | .done (some _) => some { s with call := .waiting }
      | .done none | .waiting | .draining _ => none

theorem Script.next_again {s s' : Script} (h : s.next .again = some s') :
    ∃ order, s.call = .done (some order) ∧ s' = { s with call := .waiting } := by
  unfold Script.next at h
  cases hcall : s.call with
  | done result =>
      cases result with
      | some order =>
          simp only [hcall] at h
          exact ⟨order, rfl, (Option.some.inj h).symm⟩
      | none =>
          simp only [hcall] at h
          cases h
  | waiting | draining _ =>
      simp only [hcall] at h
      cases h

def execute : System Script Event where
  Initial s := s = Script.start
  next := Script.next

/-! ## What the orders returned are -/

structure MergedFrom (order : ExecutionOrder) (group : List ExecutionOrder) : Prop where
  ne_nil : group ≠ []
  mem_iff : ∀ path, path ∈ order.matchedPaths ↔ ∃ o ∈ group, path ∈ o.matchedPaths

theorem MergedFrom.single (order : ExecutionOrder) : MergedFrom order [order] where
  ne_nil := List.cons_ne_nil _ _
  mem_iff path := by simp

theorem MergedFrom.merge {order : ExecutionOrder} {group : List ExecutionOrder}
    (h : MergedFrom order group) (o : ExecutionOrder) :
    MergedFrom (order.merge o) (group ++ [o]) where
  ne_nil := List.append_ne_nil_of_right_ne_nil _ (List.cons_ne_nil _ _)
  mem_iff path := by
    have hunion : path ∈ (order.merge o).matchedPaths ↔
        path ∈ order.matchedPaths ∨ path ∈ o.matchedPaths := Finset.mem_union
    rw [hunion, h.mem_iff]
    simp [or_and_right, exists_or]

/-- Every order sent is in one of the groups, in the order of sending, unless it is still
to come, and nothing is to come after `None`. -/
structure Delivers (s : Script) : Prop where
  merged : List.Forall₂ MergedFrom s.returned s.groups
  conserved : s.sent = s.groups.flatten ++ s.taken ++ s.input.queue
  complete : s.call = .done none → s.taken = [] ∧ s.input.queue = []

/-- The last sender goes while nothing is queued and no call has taken an order. -/
def DroppedIdle (s : Script) : Event → Prop
  | .dropSender => s.input.senders = 1 → s.taken = [] ∧ s.input.queue = []
  | .send _ | .cloneSender | .receive | .again => True

/-! ## Every run -/

/-- What holds in every run, whenever the senders go. -/
structure Conserves (s : Script) : Prop where
  merged : List.Forall₂ MergedFrom s.returned s.groups
  conserved : s.sent = s.groups.flatten ++ s.taken ++ s.input.queue
  waiting : s.call = .waiting → s.taken = []
  draining : ∀ order, s.call = .draining order → MergedFrom order s.taken
  returned : ∀ order, s.call = .done (some order) → s.taken = []
  disconnected : s.call = .done none → s.input.senders = 0 ∧ s.input.queue = []

theorem conserves_start : Conserves Script.start where
  merged := List.Forall₂.nil
  conserved := rfl
  waiting _ := rfl
  draining _ h := by cases h
  returned _ h := by cases h
  disconnected h := by cases h

variable {s s' : Script}

theorem Conserves.input (h : Conserves s) {input : Channel ExecutionOrder}
    (hqueue : input.queue = s.input.queue) (hsenders : s.input.senders ≠ 0) :
    Conserves { s with input := input } where
  merged := h.merged
  conserved := by rw [h.conserved, hqueue]
  waiting := h.waiting
  draining := h.draining
  returned := h.returned
  disconnected hnone := absurd (h.disconnected hnone).1 hsenders

theorem Conserves.send (h : Conserves s) {order : ExecutionOrder} {input : Channel ExecutionOrder}
    (hsend : s.input.send order = some input) :
    Conserves { s with input := input, sent := s.sent ++ [order] } := by
  obtain ⟨hsenders, rfl⟩ := Channel.send_eq_some.mp hsend
  exact {
    merged := h.merged
    conserved := by
      show s.sent ++ [order] = _
      rw [h.conserved, List.append_assoc]
    waiting := h.waiting
    draining := h.draining
    returned := h.returned
    disconnected := fun hnone => absurd (h.disconnected hnone).1 hsenders }

theorem Conserves.receive (h : Conserves s) {call : Recv} {input : Channel ExecutionOrder}
    (hpoll : s.call.poll s.input = some (call, input)) :
    Conserves { s.record call with call := call, input := input } := by
  rcases Recv.poll_cases hpoll with ⟨o, hqueue, hsenders, hcall⟩ |
    ⟨order, hcall, rfl, hqueue, hsenders, rfl⟩ | ⟨hcall, rfl, hqueue, hsenders, rfl⟩
  · have htaken : s.taken ++ s.input.queue.head?.toList = s.taken ++ [o] := by rw [hqueue]; rfl
    have hconserved : s.sent = s.groups.flatten ++ (s.taken ++ [o]) ++ input.queue := by
      rw [h.conserved, hqueue]
      simp
    rcases hcall with ⟨hcall, rfl⟩ | ⟨order, hcall, rfl⟩
    · refine ⟨h.merged, by rwa [← htaken] at hconserved, ?_, ?_, ?_, ?_⟩
      · exact fun h => by cases h
      · rintro _ ⟨⟩
        show MergedFrom o (s.taken ++ s.input.queue.head?.toList)
        rw [htaken, h.waiting hcall]
        exact MergedFrom.single o
      · exact fun _ h => by cases h
      · exact fun h => by cases h
    · refine ⟨h.merged, by rwa [← htaken] at hconserved, ?_, ?_, ?_, ?_⟩
      · exact fun h => by cases h
      · rintro _ ⟨⟩
        show MergedFrom (order.merge o) (s.taken ++ s.input.queue.head?.toList)
        rw [htaken]
        exact (h.draining order hcall).merge o
      · exact fun _ h => by cases h
      · exact fun h => by cases h
  · -- the group is complete
    have hmerged := h.draining order hcall
    refine ⟨?_, ?_, ?_, ?_, ?_, ?_⟩
    · exact List.rel_append h.merged (List.Forall₂.cons hmerged List.Forall₂.nil)
    · show s.sent = (s.groups ++ [s.taken]).flatten ++ [] ++ s.input.queue
      rw [h.conserved]
      simp
    · exact fun h => by cases h
    · exact fun _ h => by cases h
    · exact fun _ _ => rfl
    · exact fun h => by cases h
  · refine ⟨h.merged, h.conserved, ?_, ?_, ?_, fun _ => ⟨hsenders, hqueue⟩⟩
    · exact fun h => by cases h
    · exact fun _ h => by cases h
    · exact fun _ h => by cases h

theorem Conserves.step {e : Event} (h : Conserves s) (hnext : execute.next s e = some s') :
    Conserves s' := by
  cases e with
  | send order =>
      obtain ⟨input, hsend, rfl⟩ := Option.map_eq_some_iff.mp hnext
      exact h.send hsend
  | cloneSender =>
      obtain ⟨input, hclone, rfl⟩ := Option.map_eq_some_iff.mp hnext
      obtain ⟨hsenders, rfl⟩ := Channel.cloneSender_eq_some.mp hclone
      exact h.input rfl hsenders
  | dropSender =>
      obtain ⟨input, hdrop, rfl⟩ := Option.map_eq_some_iff.mp hnext
      obtain ⟨hsenders, rfl⟩ := Channel.dropSender_eq_some.mp hdrop
      exact h.input rfl hsenders
  | receive =>
      obtain ⟨⟨call, input⟩, hpoll, rfl⟩ := Option.map_eq_some_iff.mp hnext
      exact h.receive hpoll
  | again =>
      obtain ⟨order, hcall, rfl⟩ := Script.next_again hnext
      refine ⟨h.merged, h.conserved, fun _ => h.returned order hcall, ?_, ?_, ?_⟩
      · exact fun _ h => by cases h
      · exact fun _ h => by cases h
      · exact fun h => by cases h

/-! ## The moment at which the senders go -/

/-- Without senders nothing is left to lose. -/
structure Quiet (s : Script) : Prop where
  conserves : Conserves s
  idle : s.input.senders = 0 → s.taken = [] ∧ s.input.queue = []

/-- Without senders there is an order that no call will return. -/
structure Loses (s : Script) : Prop where
  conserves : Conserves s
  senders : s.input.senders = 0
  pending : s.taken ≠ [] ∨ s.input.queue ≠ []

theorem Quiet.step {e : Event} (h : Quiet s) (hguard : DroppedIdle s e)
    (hnext : execute.next s e = some s') : Quiet s' := by
  refine ⟨h.conserves.step hnext, fun hzero => ?_⟩
  cases e with
  | send order =>
      obtain ⟨input, hsend, rfl⟩ := Option.map_eq_some_iff.mp hnext
      obtain ⟨hsenders, rfl⟩ := Channel.send_eq_some.mp hsend
      exact absurd hzero hsenders
  | cloneSender =>
      obtain ⟨input, hclone, rfl⟩ := Option.map_eq_some_iff.mp hnext
      obtain ⟨hsenders, rfl⟩ := Channel.cloneSender_eq_some.mp hclone
      exact absurd hzero (Nat.succ_ne_zero _)
  | dropSender =>
      obtain ⟨input, hdrop, rfl⟩ := Option.map_eq_some_iff.mp hnext
      obtain ⟨hsenders, rfl⟩ := Channel.dropSender_eq_some.mp hdrop
      exact hguard (by simp only at hzero; omega)
  | receive =>
      obtain ⟨⟨call, input⟩, hpoll, rfl⟩ := Option.map_eq_some_iff.mp hnext
      rcases Recv.poll_cases hpoll with ⟨o, hqueue, hsenders, -⟩ |
        ⟨order, -, rfl, -, hsenders, rfl⟩ | ⟨-, rfl, hqueue, hsenders, rfl⟩
      · have hidle := h.idle (hsenders.symm.trans hzero)
        rw [hidle.2] at hqueue
        cases hqueue
      · exact absurd hzero hsenders
      · exact h.idle hzero
  | again =>
      obtain ⟨order, -, rfl⟩ := Script.next_again hnext
      exact h.idle hzero

theorem Quiet.breaks {e : Event} (h : Quiet s) (hguard : ¬ DroppedIdle s e)
    (hnext : execute.next s e = some s') : Loses s' := by
  have hconserves := h.conserves.step hnext
  cases e with
  | dropSender =>
      obtain ⟨input, hdrop, rfl⟩ := Option.map_eq_some_iff.mp hnext
      obtain ⟨-, rfl⟩ := Channel.dropSender_eq_some.mp hdrop
      obtain ⟨hone, hbusy⟩ := Classical.not_imp.mp hguard
      exact ⟨hconserves, Nat.sub_eq_zero_of_le (le_of_eq hone), not_and_or.mp hbusy⟩
  | send _ | cloneSender | receive | again => exact absurd trivial hguard

theorem Loses.step {e : Event} (h : Loses s) (hnext : execute.next s e = some s') :
    Loses s' := by
  have hconserves := h.conserves.step hnext
  cases e with
  | send order =>
      obtain ⟨input, hsend, rfl⟩ := Option.map_eq_some_iff.mp hnext
      exact absurd h.senders (Channel.send_eq_some.mp hsend).1
  | cloneSender =>
      obtain ⟨input, hclone, rfl⟩ := Option.map_eq_some_iff.mp hnext
      exact absurd h.senders (Channel.cloneSender_eq_some.mp hclone).1
  | dropSender =>
      obtain ⟨input, hdrop, rfl⟩ := Option.map_eq_some_iff.mp hnext
      exact absurd h.senders (Channel.dropSender_eq_some.mp hdrop).1
  | receive =>
      obtain ⟨⟨call, input⟩, hpoll, rfl⟩ := Option.map_eq_some_iff.mp hnext
      rcases Recv.poll_cases hpoll with ⟨o, hqueue, hsenders, hcall⟩ |
        ⟨order, -, rfl, -, hsenders, rfl⟩ | ⟨-, rfl, hqueue, hsenders, rfl⟩
      · -- the order taken stays with the call
        refine ⟨hconserves, hsenders.trans h.senders, Or.inl ?_⟩
        rcases hcall with ⟨-, rfl⟩ | ⟨order, -, rfl⟩ <;>
        · show s.taken ++ s.input.queue.head?.toList ≠ []
          rw [hqueue]
          exact List.append_ne_nil_of_right_ne_nil _ (List.cons_ne_nil _ _)
      · exact absurd h.senders hsenders
      · exact ⟨hconserves, hsenders, h.pending⟩
  | again =>
      obtain ⟨order, -, rfl⟩ := Script.next_again hnext
      exact ⟨hconserves, h.senders, h.pending⟩

/-- **An order is lost when the senders go too early.** Up to the `None`, every order sent
has been returned or is still to come. The `None` comes last exactly in the runs whose last
sender goes while nothing is queued and no call has taken an order. -/
theorem execute_delivers_iff {events : List Event} (hrun : execute.run Script.start events = some s) :
    Delivers s ↔ (s.call = .done none → execute.Along DroppedIdle Script.start events) := by
  have hstart : Quiet Script.start := ⟨conserves_start, fun _ => ⟨rfl, rfl⟩⟩
  rcases System.along_or_broken (fun _ _ _ => Quiet.step) (fun _ _ _ => Quiet.breaks)
    (fun _ _ _ => Loses.step) hstart hrun with ⟨halong, hquiet⟩ | ⟨hnot, hloses⟩
  · refine iff_of_true ⟨hquiet.conserves.merged, hquiet.conserves.conserved, fun hnone => ?_⟩
      fun _ => halong
    exact hquiet.idle (hquiet.conserves.disconnected hnone).1
  · refine ⟨fun hdelivers hnone => ?_, fun himp =>
      ⟨hloses.conserves.merged, hloses.conserves.conserved, fun hnone => absurd (himp hnone) hnot⟩⟩
    obtain ⟨htaken, hqueue⟩ := hdelivers.complete hnone
    exact absurd hloses.pending (by simp [htaken, hqueue])

def schemaChange : ExecutionOrder := { matchedPaths := {"dbschema/default.gel".toList} }

/-- The senders go after the script has seen the change. -/
def servedRun : List Event :=
  [.send schemaChange, .receive, .receive, .again, .dropSender, .receive]

/-- The senders go while the change is queued. -/
def lostRun : List Event := [.send schemaChange, .dropSender, .receive, .receive]

theorem execute_delivers_servedRun :
    ∃ s, execute.run Script.start servedRun = some s ∧ s.call = .done none ∧
      (Delivers s ↔ (s.call = .done none → execute.Along DroppedIdle Script.start servedRun)) :=
  ⟨_, rfl, rfl, execute_delivers_iff rfl⟩

theorem not_execute_delivers :
    ¬ ∀ events s, execute.run Script.start events = some s → Delivers s := by
  intro h
  have hcomplete := (h lostRun _ rfl).complete rfl
  exact List.cons_ne_nil _ _ hcomplete.1

end GelCli.Watch
