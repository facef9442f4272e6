import Mathlib.Logic.Basic

/-!
# Systems that take steps

A system is a partial function from a state and an event to the next state. The
event carries whatever the state does not determine: which party acts, what the
clock reads, whether an operation fails. `Reachable guard` are the states of the
runs all of whose steps meet `guard`, a condition on the state before the step.
-/

namespace GelCli.Foundation

universe u v

structure System (State : Type u) (Event : Type v) where
  Initial : State → Prop
  next : State → Event → Option State

namespace System

variable {State : Type u} {Event : Type v} (M : System State Event)

inductive Reachable (guard : State → Event → Prop) : State → Prop where
  | initial {s : State} : M.Initial s → Reachable guard s
  | step {s s' : State} {e : Event} :
      Reachable guard s → guard s e → M.next s e = some s' → Reachable guard s'

/-- The guard of a run on which nothing is asked. -/
def Free (_ : State) (_ : Event) : Prop := True

variable {M} {guard : State → Event → Prop}

/-- **What one step preserves holds in every state reached.** -/
theorem Reachable.invariant {inv : State → Prop} {s : State} (h : M.Reachable guard s)
    (hinitial : ∀ s, M.Initial s → inv s)
    (hstep : ∀ s e s', inv s → guard s e → M.next s e = some s' → inv s') : inv s := by
  induction h with
  | initial h => exact hinitial _ h
  | step _ hguard hnext ih => exact hstep _ _ _ ih hguard hnext

variable (M)

/-- The state after the events, when every step is possible. -/
def run : State → List Event → Option State
  | s, [] => some s
  | s, e :: events => (M.next s e).bind (run · events)

/-- Every step of the run is possible and meets the guard. -/
def Along (guard : State → Event → Prop) : State → List Event → Prop
  | _, [] => True
  | s, e :: events => guard s e ∧ ∃ s', M.next s e = some s' ∧ Along guard s' events

variable {M}

theorem Reachable.along {s s' : State} {events : List Event} (h : M.Reachable guard s)
    (halong : M.Along guard s events) (hrun : M.run s events = some s') :
    M.Reachable guard s' := by
  induction events generalizing s with
  | nil =>
      cases hrun
      exact h
  | cons e events ih =>
      obtain ⟨hguard, t, ht, halong⟩ := halong
      rw [System.run, ht, Option.bind_some] at hrun
      exact ih (h.step hguard ht) halong hrun

theorem Reachable.run {s s' : State} {events : List Event} (h : M.Reachable Free s)
    (hrun : M.run s events = some s') : M.Reachable Free s' := by
  induction events generalizing s with
  | nil =>
      cases hrun
      exact h
  | cons e events ih =>
      obtain ⟨t, ht, hrun⟩ := Option.bind_eq_some_iff.mp hrun
      exact ih (h.step trivial ht) hrun

/-- What the steps that meet the guard preserve holds in every state of a run of them. -/
theorem Along.forall_states {inv : State → Prop} {s : State} {events : List Event}
    (hkept : ∀ s e s', inv s → guard s e → M.next s e = some s' → inv s') (hs : inv s)
    (halong : M.Along guard s events) :
    ∀ before t, before <+: events → M.run s before = some t → inv t := by
  induction events generalizing s with
  | nil =>
      intro before t hbefore ht
      obtain rfl := List.prefix_nil.mp hbefore
      cases ht
      exact hs
  | cons e events ih =>
      obtain ⟨hguard, u, hu, halong⟩ := halong
      intro before t hbefore ht
      rcases List.prefix_cons_iff.mp hbefore with rfl | ⟨before, rfl, htail⟩
      · cases ht
        exact hs
      · rw [System.run, hu, Option.bind_some] at ht
        exact ih (hkept s e u hs hguard hu) halong before t htail ht

/-- **When every state of a run is good.** The invariant is kept by the steps that meet the
guard, and a step that does not leads out of the good states. -/
theorem forall_states_iff_along {inv good : State → Prop} {s s' : State} {events : List Event}
    (hgood : ∀ s, inv s → good s)
    (hkept : ∀ s e s', inv s → guard s e → M.next s e = some s' → inv s')
    (hbroken : ∀ s e s', inv s → ¬ guard s e → M.next s e = some s' → ¬ good s')
    (hs : inv s) (hrun : M.run s events = some s') :
    (∀ before t, before <+: events → M.run s before = some t → good t) ↔
      M.Along guard s events := by
  refine ⟨fun h => ?_, fun halong before t hbefore ht =>
    hgood t (Along.forall_states hkept hs halong before t hbefore ht)⟩
  induction events generalizing s with
  | nil => exact trivial
  | cons e events ih =>
      obtain ⟨t, ht, hrest⟩ := Option.bind_eq_some_iff.mp hrun
      have hcons : ∀ before u, M.run t before = some u → M.run s (e :: before) = some u := by
        intro before u hu
        rw [System.run, ht, Option.bind_some, hu]
      by_cases hguard : guard s e
      · refine ⟨hguard, t, ht, ih (hkept s e t hs hguard ht) hrest fun before u hbefore hu => ?_⟩
        exact h (e :: before) u ((List.prefix_cons_inj e).mpr hbefore) (hcons before u hu)
      · -- the state behind the step is one of the run
        exact absurd (h [e] t ⟨events, rfl⟩ (hcons [] t rfl)) (hbroken s e t hs hguard ht)

/-- What every step preserves holds at the end of a run. -/
theorem run_kept {inv : State → Prop} {s s' : State} {events : List Event}
    (hstep : ∀ s e s', inv s → M.next s e = some s' → inv s') (hs : inv s)
    (hrun : M.run s events = some s') : inv s' := by
  induction events generalizing s with
  | nil =>
      cases hrun
      exact hs
  | cons e events ih =>
      obtain ⟨t, ht, hrest⟩ := Option.bind_eq_some_iff.mp hrun
      exact ih (hstep s e t hs ht) hrest

/-- **A run keeps its invariant or is broken for good.** The invariant is kept by the steps
that meet the guard; a step that does not breaks the state, and no step mends it. -/
theorem along_or_broken {inv broken : State → Prop} {s s' : State} {events : List Event}
    (hkept : ∀ s e s', inv s → guard s e → M.next s e = some s' → inv s')
    (hbreaks : ∀ s e s', inv s → ¬ guard s e → M.next s e = some s' → broken s')
    (hbroken : ∀ s e s', broken s → M.next s e = some s' → broken s')
    (hs : inv s) (hrun : M.run s events = some s') :
    M.Along guard s events ∧ inv s' ∨ ¬ M.Along guard s events ∧ broken s' := by
  induction events generalizing s with
  | nil =>
      cases hrun
      exact Or.inl ⟨trivial, hs⟩
  | cons e events ih =>
      obtain ⟨t, ht, hrest⟩ := Option.bind_eq_some_iff.mp hrun
      by_cases hguard : guard s e
      · rcases ih (hkept s e t hs hguard ht) hrest with ⟨halong, hinv⟩ | ⟨hnot, hbad⟩
        · exact Or.inl ⟨⟨hguard, t, ht, halong⟩, hinv⟩
        · refine Or.inr ⟨?_, hbad⟩
          rintro ⟨-, t', ht', halong⟩
          obtain rfl := Option.some.inj (ht.symm.trans ht')
          exact hnot halong
      · refine Or.inr ⟨fun halong => hguard halong.1, ?_⟩
        exact run_kept hbroken (hbreaks s e t hs hguard ht) hrest

end System

end GelCli.Foundation
