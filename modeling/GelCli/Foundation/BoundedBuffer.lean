import Mathlib.Data.List.Perm.Basic
import Mathlib.Data.List.Sort
import Mathlib.Logic.Relation

/-!
# Bounded concurrent collection

`buffer_unordered(limit)` over a list of inputs: at most `limit` operations are in
flight, any of them may finish next, and the results arrive in the order of
completion. When each result carries the position of its input, sorting by that
position undoes every interleaving: what is collected is the result of the
sequential map, and each run can be driven to its end.
-/

namespace GelCli.Foundation

universe u v

variable {α : Type u} {β : Type v}

/-- `iter().enumerate()`. -/
def enumerate (values : List α) : List (Nat × α) :=
  values.mapIdx fun index value => (index, value)

namespace Buffer

/-- The inputs that wait, those in flight and the results so far. -/
structure State (α : Type u) (β : Type v) where
  waiting : List (Nat × α)
  running : List (Nat × α)
  completed : List (Nat × β)

def State.start (values : List α) : State α β := ⟨enumerate values, [], []⟩

def State.Done (s : State α β) : Prop := s.waiting = [] ∧ s.running = []

variable (operation : α → β) (limit : Nat)

def answer (input : Nat × α) : Nat × β := (input.1, operation input.2)

inductive Step : State α β → State α β → Prop
  | start {input waiting running completed} (room : running.length < limit) :
      Step ⟨input :: waiting, running, completed⟩ ⟨waiting, running ++ [input], completed⟩
  | finish {input waiting before after completed} :
      Step ⟨waiting, before ++ input :: after, completed⟩
        ⟨waiting, before ++ after, completed ++ [answer operation input]⟩

abbrev Run : State α β → State α β → Prop :=
  Relation.ReflTransGen (Step operation limit)

/-! ## Nothing is lost and nothing is duplicated -/

/-- All the answers a state has or will have. -/
def State.answers (s : State α β) : List (Nat × β) :=
  s.completed ++ (s.running ++ s.waiting).map (answer operation)

variable {operation limit}

theorem Step.answers_perm {s s' : State α β} (h : Step operation limit s s') :
    (s'.answers operation).Perm (s.answers operation) := by
  cases h with
  | start _ => simp [State.answers]
  | finish =>
      rename_i input waiting before after completed
      have hmove : (before ++ input :: (after ++ waiting)).Perm
          (input :: (before ++ (after ++ waiting))) := List.perm_middle
      have hmap := (hmove.map (answer operation)).append_left completed
      simpa [State.answers] using hmap.symm

theorem Run.answers_perm {s s' : State α β} (h : Run operation limit s s') :
    (s'.answers operation).Perm (s.answers operation) := by
  induction h with
  | refl => exact List.Perm.refl _
  | tail _ hstep ih => exact hstep.answers_perm.trans ih

theorem Step.finish_first {waiting : List (Nat × α)} {completed : List (Nat × β)}
    (input : Nat × α) (rest : List (Nat × α)) :
    Step operation limit ⟨waiting, input :: rest, completed⟩
      ⟨waiting, rest, completed ++ [answer operation input]⟩ :=
  @Step.finish _ _ _ _ input waiting [] rest completed

/-! ## Every run ends -/

def State.work (s : State α β) : Nat := 2 * s.waiting.length + s.running.length

theorem Step.work_lt {s s' : State α β} (h : Step operation limit s s') : s'.work < s.work := by
  cases h with
  | start _ =>
      simp only [State.work, List.length_cons, List.length_append, List.length_nil]
      omega
  | finish =>
      simp only [State.work, List.length_cons, List.length_append]
      omega

variable (operation) in
/-- Whatever happened so far, the run can go on until everything is done. -/
theorem exists_done (hlimit : 0 < limit) (s : State α β) :
    ∃ s', Run operation limit s s' ∧ s'.Done := by
  induction hn : s.work using Nat.strong_induction_on generalizing s with
  | _ n ih =>
      obtain ⟨waiting, running, completed⟩ := s
      have continue_from : ∀ s', Step operation limit ⟨waiting, running, completed⟩ s' →
          ∃ s'', Run operation limit ⟨waiting, running, completed⟩ s'' ∧ s''.Done := by
        intro s' hstep
        obtain ⟨s'', hrun, hdone⟩ := ih s'.work (hn ▸ hstep.work_lt) s' rfl
        exact ⟨s'', .head hstep hrun, hdone⟩
      cases running with
      | cons input rest => exact continue_from _ (Step.finish_first input rest)
      | nil =>
          cases waiting with
          | cons input rest => exact continue_from _ (.start hlimit)
          | nil => exact ⟨_, .refl, rfl, rfl⟩

end Buffer

/-! ## Sorting by position -/

theorem map_snd_enumerate (values : List α) : (enumerate values).map Prod.snd = values := by
  apply List.ext_getElem
  · simp [enumerate]
  · intro i _ _
    simp [enumerate]

theorem enumerate_pairwise (values : List α) :
    (enumerate values).Pairwise fun a b => a.1 < b.1 := by
  rw [List.pairwise_iff_getElem]
  intro i j hi hj hij
  simpa [enumerate] using hij

/-- `sort_by_key(|(index, _)| *index)`. -/
def sortByIndex (completed : List (Nat × β)) : List (Nat × β) :=
  completed.mergeSort fun a b => decide (a.1 ≤ b.1)

theorem sortByIndex_eq {completed sorted : List (Nat × β)} (hperm : completed.Perm sorted)
    (hsorted : sorted.Pairwise fun a b => a.1 < b.1) : sortByIndex completed = sorted := by
  have hmerge : (sortByIndex completed).Pairwise fun a b => decide (a.1 ≤ b.1) :=
    List.pairwise_mergeSort
      (fun a b c hab hbc => by simp only [decide_eq_true_eq] at *; omega)
      (fun a b => by simp only [Bool.or_eq_true, decide_eq_true_eq]; omega) completed
  have hle : sorted.Pairwise fun a b => decide (a.1 ≤ b.1) :=
    hsorted.imp fun hab => by simpa using Nat.le_of_lt hab
  have hp : (sortByIndex completed).Perm sorted :=
    (List.mergeSort_perm _ _).trans hperm
  -- positions do not repeat, so two answers of one position are one answer
  have hnodup : (sorted.map Prod.fst).Nodup :=
    List.pairwise_map.mpr (hsorted.imp fun hab => Nat.ne_of_lt hab)
  refine List.Perm.eq_of_pairwise (fun a b ha hb hab hba => ?_) hmerge hle hp
  have hkey : a.1 = b.1 := by
    simp only [decide_eq_true_eq] at hab hba
    omega
  exact List.inj_on_of_nodup_map hnodup (hp.mem_iff.mp ha) hb hkey

/-! ## The collected results -/

/-- `collect_bounded_ordered`, under some order of completion. -/
def CollectBoundedOrdered (limit : Nat) (operation : α → β) (values : List α)
    (results : List β) : Prop :=
  ∃ s, Buffer.Run operation limit (Buffer.State.start values) s ∧ s.Done ∧
    results = (sortByIndex s.completed).map Prod.snd

theorem sortByIndex_completed {limit : Nat} {operation : α → β} {values : List α}
    {s : Buffer.State α β} (hrun : Buffer.Run operation limit (Buffer.State.start values) s)
    (hdone : s.Done) :
    (sortByIndex s.completed).map Prod.snd = values.map operation := by
  have hperm := hrun.answers_perm
  obtain ⟨hwaiting, hrunning⟩ := hdone
  simp only [Buffer.State.answers, Buffer.State.start, hwaiting, hrunning, List.nil_append,
    List.map_nil, List.append_nil] at hperm
  have hsorted : ((enumerate values).map (Buffer.answer operation)).Pairwise
      fun a b => a.1 < b.1 :=
    List.pairwise_map.mpr (enumerate_pairwise values)
  calc (sortByIndex s.completed).map Prod.snd
      = ((enumerate values).map (Buffer.answer operation)).map Prod.snd := by
        rw [sortByIndex_eq hperm hsorted]
    _ = ((enumerate values).map Prod.snd).map operation := by
        rw [List.map_map, List.map_map]
        rfl
    _ = values.map operation := by rw [map_snd_enumerate]

/-- **Bounded collection is the sequential map**, whatever finishes first. -/
theorem collectBoundedOrdered_iff {limit : Nat} (hlimit : 0 < limit) {operation : α → β}
    {values : List α} {results : List β} :
    CollectBoundedOrdered limit operation values results ↔ results = values.map operation := by
  constructor
  · rintro ⟨s, hrun, hdone, rfl⟩
    exact sortByIndex_completed hrun hdone
  · rintro rfl
    obtain ⟨s, hrun, hdone⟩ :=
      Buffer.exists_done operation hlimit (Buffer.State.start values)
    exact ⟨s, hrun, hdone, (sortByIndex_completed hrun hdone).symm⟩

end GelCli.Foundation
