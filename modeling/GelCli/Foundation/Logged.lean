import GelCli.Foundation.Commands

/-!
# Commands that keep a log

A command over a state that also writes down what it comes by: `on` runs a command that
writes nothing, `note` writes one entry about the state.

`Erases` says that without the log such a command is a plain one, `Logs` that an
invariant of the log outlives it, and `Departs` compares two commands up to the first
entry.
-/

namespace GelCli.Foundation

universe u

variable {σ ρ ε α β : Type u}

structure Logged (σ ρ : Type u) where
  state : σ
  log : List ρ
deriving DecidableEq, Repr

namespace Logged

def on (x : EStateM ε σ α) : EStateM ε (Logged σ ρ) α := fun w =>
  match x w.state with
  | .ok a s => .ok a { w with state := s }
  | .error e s => .error e { w with state := s }

def note (entry : σ → ρ) : EStateM ε (Logged σ ρ) PUnit := fun w =>
  .ok ⟨⟩ { w with log := w.log ++ [entry w.state] }

/-- The state that a command leaves, whether it fails or not. -/
def left : EStateM.Result ε σ α → σ
  | .ok _ s => s
  | .error _ s => s

/-- What the command leaves, its entries added to the log. -/
def after (x : EStateM ε (Logged σ ρ) α) (w : Logged σ ρ) : Logged σ ρ :=
  let t := left (x ⟨w.state, []⟩)
  { t with log := w.log ++ t.log }

end Logged

open Logged

/-! ## Without the log -/

def Logged.forget : EStateM.Result ε (Logged σ ρ) α → EStateM.Result ε σ α
  | .ok a w => .ok a w.state
  | .error e w => .error e w.state

/-- Without its log the command `x` is the command `y`. -/
def Erases (x : EStateM ε (Logged σ ρ) α) (y : EStateM ε σ α) : Prop :=
  ∀ w, forget (x w) = y w.state

namespace Erases

variable {x : EStateM ε (Logged σ ρ) α} {y : EStateM ε σ α}

theorem on (y : EStateM ε σ α) : Erases (Logged.on (ρ := ρ) y) y := by
  intro w
  unfold Logged.on
  cases y w.state with
  | ok | error => rfl

theorem pure (a : α) : Erases (Pure.pure a : EStateM ε (Logged σ ρ) α) (Pure.pure a) :=
  fun _ => rfl

theorem bind {f : α → EStateM ε (Logged σ ρ) β} {g : α → EStateM ε σ β} (hx : Erases x y)
    (hf : ∀ a, Erases (f a) (g a)) : Erases (x >>= f) (y >>= g) := by
  intro w
  show forget (EStateM.bind x f w) = EStateM.bind y g w.state
  unfold EStateM.bind
  rw [← hx w]
  cases x w with
  | ok a v => exact hf a v
  | error e v => rfl

/-- A command that also looks at the state for its log. -/
theorem get_bind {f : σ → EStateM ε (Logged σ ρ) α} (hf : ∀ s, Erases (f s) y) :
    Erases (Logged.on get >>= f) y :=
  fun w => hf w.state w

theorem note_bind {entry : σ → ρ} (hx : Erases x y) :
    Erases (note entry >>= fun _ => x) y :=
  fun w => hx { w with log := w.log ++ [entry w.state] }

theorem ite {c : Prop} [Decidable c] {x' : EStateM ε (Logged σ ρ) α} {y' : EStateM ε σ α}
    (hx : Erases x y) (hx' : Erases x' y') :
    Erases (if c then x else x') (if c then y else y') := by
  by_cases h : c
  · rw [if_pos h, if_pos h]
    exact hx
  · rw [if_neg h, if_neg h]
    exact hx'

theorem withFinally {fin : EStateM ε (Logged σ ρ) PUnit} {fin' : EStateM ε σ PUnit}
    (hx : Erases x y) (hfin : Erases fin fin') :
    Erases (Foundation.withFinally x fin) (Foundation.withFinally y fin') := by
  intro w
  unfold Foundation.withFinally
  rw [← hx w]
  cases x w with
  | ok a v | error e v =>
      simp only [forget]
      rw [← hfin v]
      cases fin v with
      | ok | error => rfl

theorem withUndo {undo finish : EStateM ε (Logged σ ρ) PUnit} {undo' finish' : EStateM ε σ PUnit}
    (hx : Erases x y) (hundo : Erases undo undo') (hfinish : Erases finish finish') :
    Erases (Foundation.withUndo x undo finish) (Foundation.withUndo y undo' finish') := by
  intro w
  unfold Foundation.withUndo
  rw [← hx w]
  cases x w with
  | ok a v =>
      simp only [forget]
      rw [← hfinish v]
      cases finish v with
      | ok | error => rfl
  | error e v =>
      simp only [forget]
      rw [← hundo v]
      cases undo v with
      | ok | error => rfl

end Erases

/-! ## What the log tells -/

/-- From `P` the command ends in `Q` or with an error; the invariant `I` of the log holds
after it either way. -/
def Logs (I : List ρ → Prop) (P : σ → Prop) (x : EStateM ε (Logged σ ρ) α)
    (Q : α → σ → Prop) : Prop :=
  Triple (fun w => P w.state ∧ I w.log) x (fun a w => Q a w.state ∧ I w.log)
    fun _ w => I w.log

namespace Logs

variable {I : List ρ → Prop} {P T : σ → Prop} {Q R : α → σ → Prop}
variable {x : EStateM ε (Logged σ ρ) α}

theorem on {y : EStateM ε σ α} (h : Triple P y Q fun _ _ => True) :
    Logs I P (Logged.on y) Q := by
  rintro w ⟨hw, hlog⟩
  have hy := h w.state hw
  unfold Logged.on
  cases hresult : y w.state with
  | ok a s =>
      rw [hresult] at hy
      exact ⟨hy, hlog⟩
  | error e s => exact hlog

/-- A command that writes nothing keeps the log. -/
theorem on_any (y : EStateM ε σ α) : Logs I P (Logged.on y) fun _ _ => True := by
  apply on
  intro s _
  cases y s with
  | ok | error => exact trivial

theorem note {entry : σ → ρ} (h : ∀ s log, P s → I log → I (log ++ [entry s])) :
    Logs (ε := ε) I P (note entry) fun _ => P :=
  fun w hw => ⟨hw.1, h w.state w.log hw.1 hw.2⟩

theorem conseq (h : Logs I T x R) (hpre : ∀ s, P s → T s) (hpost : ∀ a s, R a s → Q a s) :
    Logs I P x Q :=
  Triple.conseq h (fun w hw => ⟨hpre w.state hw.1, hw.2⟩) fun a w hw =>
    ⟨hpost a w.state hw.1, hw.2⟩

/-- A command that keeps an invariant leaves what follows from it. -/
theorem weaken {J : List ρ → Prop} (h : Logs J P x Q) (himp : ∀ log, J log → I log) :
    Triple (fun w => P w.state ∧ J w.log) x (fun a w => Q a w.state ∧ I w.log)
      fun _ w => I w.log :=
  (Triple.conseq h (fun _ hw => hw) fun _ _ hw => ⟨hw.1, himp _ hw.2⟩).conseqError
    fun _ _ hw => himp _ hw

theorem bind {f : α → EStateM ε (Logged σ ρ) β} {Q : β → σ → Prop} (hx : Logs I P x R)
    (hf : ∀ a, Logs I (R a) (f a) Q) : Logs I P (x >>= f) Q :=
  Triple.bind hx hf

theorem pure {a : α} (h : ∀ s, P s → Q a s) :
    Logs I P (Pure.pure a : EStateM ε (Logged σ ρ) α) Q :=
  Triple.pure fun w hw => ⟨h w.state hw.1, hw.2⟩

theorem throw {e : ε} : Logs I P (MonadExcept.throw e : EStateM ε (Logged σ ρ) α) Q :=
  Triple.throw fun _ hw => hw.2

theorem ite {c : Prop} [Decidable c] {y : EStateM ε (Logged σ ρ) α} (hx : c → Logs I P x Q)
    (hy : ¬ c → Logs I P y Q) : Logs I P (if c then x else y) Q :=
  Triple.ite hx hy

theorem assume {c : Prop} (hc : ∀ s, P s → c) (hx : c → Logs I P x Q) : Logs I P x Q :=
  Triple.assume (fun w hw => hc w.state hw.1) hx

theorem of_exists {ι : Sort*} {P : ι → σ → Prop} (h : ∀ i, Logs I (P i) x Q) :
    Logs I (fun s => ∃ i, P i s) x Q := by
  rintro w ⟨⟨i, hw⟩, hlog⟩
  exact h i w ⟨hw, hlog⟩

theorem withFinally {fin : EStateM ε (Logged σ ρ) PUnit} (hx : Logs I P x R)
    (hok : ∀ a, Logs I (R a) fin fun _ => Q a)
    (herror : Logs I (fun _ => True) fin fun _ _ => True) :
    Logs I P (Foundation.withFinally x fin) Q := by
  refine Triple.withFinally hx hok fun _ => ?_
  exact Triple.conseq herror (fun w hw => ⟨trivial, hw⟩) fun _ w hw => hw.2

theorem withUndo {undo finish : EStateM ε (Logged σ ρ) PUnit} (hx : Logs I P x R)
    (hok : ∀ a, Logs I (R a) finish fun _ => Q a)
    (herror : Logs I (fun _ => True) undo fun _ _ => True) :
    Logs I P (Foundation.withUndo x undo finish) Q := by
  refine Triple.withUndo hx hok fun _ => ?_
  exact Triple.conseq herror (fun w hw => ⟨trivial, hw⟩) fun _ w hw => hw.2

/-- The invariant after the command, whatever has become of it. -/
theorem log_left (h : Logs I P x Q) {w : Logged σ ρ} (hw : P w.state) (hlog : I w.log) :
    I (left (x w)).log := by
  have hx := h w ⟨hw, hlog⟩
  cases hresult : x w with
  | ok a v =>
      rw [hresult] at hx
      exact hx.2
  | error e v =>
      rw [hresult] at hx
      exact hx

end Logs

/-- With good entries so far it is about those that the command adds. -/
theorem Logged.forall_after_iff {good : ρ → Prop} {x : EStateM ε (Logged σ ρ) α}
    {w : Logged σ ρ} (hlog : ∀ r ∈ w.log, good r) :
    (∀ r ∈ (w.after x).log, good r) ↔ ∀ r ∈ (left (x ⟨w.state, []⟩)).log, good r := by
  constructor
  · exact fun h r hr => h r (List.mem_append_right _ hr)
  · intro h r hr
    rcases List.mem_append.mp hr with hr | hr
    · exact hlog r hr
    · exact h r hr

/-- The entries that the command adds. -/
theorem Logs.forall_left {good : ρ → Prop} {P : σ → Prop} {Q : α → σ → Prop}
    {x : EStateM ε (Logged σ ρ) α} (h : Logs (fun log => ∀ r ∈ log, good r) P x Q) {s : σ}
    (hs : P s) : ∀ r ∈ (left (x ⟨s, []⟩)).log, good r :=
  h.log_left (w := ⟨s, []⟩) hs fun _ hr => absurd hr List.not_mem_nil

/-! ## Up to the first entry -/

/-- The command writes nothing: every invariant of the log outlives it. -/
def Silent (x : EStateM ε (Logged σ ρ) α) : Prop :=
  ∀ I : List ρ → Prop, Logs I (fun _ => True) x fun _ _ => True

namespace Silent

variable {x : EStateM ε (Logged σ ρ) α}

theorem log_left (h : Silent x) (w : Logged σ ρ) : (left (x w)).log = w.log :=
  (h (· = w.log)).log_left trivial rfl

theorem on (y : EStateM ε σ α) : Silent (ρ := ρ) (Logged.on y) := fun _ => Logs.on_any y

theorem pure (a : α) : Silent (Pure.pure a : EStateM ε (Logged σ ρ) α) :=
  fun _ => Logs.pure fun _ _ => trivial

theorem throw (e : ε) : Silent (MonadExcept.throw e : EStateM ε (Logged σ ρ) α) :=
  fun _ => Logs.throw

theorem bind {f : α → EStateM ε (Logged σ ρ) β} (hx : Silent x) (hf : ∀ a, Silent (f a)) :
    Silent (x >>= f) :=
  fun I => Logs.bind (hx I) fun a => hf a I

theorem ite {c : Prop} [Decidable c] {y : EStateM ε (Logged σ ρ) α} (hx : c → Silent x)
    (hy : ¬ c → Silent y) : Silent (if c then x else y) :=
  fun I => Logs.ite (fun h => hx h I) fun h => hy h I

theorem withFinally {fin : EStateM ε (Logged σ ρ) PUnit} (hx : Silent x) (hfin : Silent fin) :
    Silent (Foundation.withFinally x fin) :=
  fun I => Logs.withFinally (hx I) (fun _ => hfin I) (hfin I)

theorem withUndo {undo finish : EStateM ε (Logged σ ρ) PUnit} (hx : Silent x)
    (hundo : Silent undo) (hfinish : Silent finish) :
    Silent (Foundation.withUndo x undo finish) :=
  fun I => Logs.withUndo (hx I) (fun _ => hfinish I) (hundo I)

end Silent

/-- The commands do the same for as long as `y` writes nothing; where it writes, `x` writes
an entry that meets `bad`. -/
def Departs (bad : ρ → Prop) (x y : EStateM ε (Logged σ ρ) α) : Prop :=
  ∀ s, (left (y ⟨s, []⟩)).log = [] ∧ x ⟨s, []⟩ = y ⟨s, []⟩ ∨
    (left (y ⟨s, []⟩)).log ≠ [] ∧ ∃ r ∈ (left (x ⟨s, []⟩)).log, bad r

namespace Departs

variable {bad : ρ → Prop} {x y : EStateM ε (Logged σ ρ) α}

theorem of_silent (h : Silent x) : Departs bad x x :=
  fun s => Or.inl ⟨h.log_left ⟨s, []⟩, rfl⟩

/-- What comes before the first entry is the same on both sides. -/
theorem silent_bind {f g : α → EStateM ε (Logged σ ρ) β} (hx : Silent x)
    (hf : ∀ a, Departs bad (f a) (g a)) : Departs bad (x >>= f) (x >>= g) := by
  intro s
  have hlog := hx.log_left ⟨s, []⟩
  show (left (EStateM.bind x g ⟨s, []⟩)).log = [] ∧
      EStateM.bind x f ⟨s, []⟩ = EStateM.bind x g ⟨s, []⟩ ∨
    (left (EStateM.bind x g ⟨s, []⟩)).log ≠ [] ∧
      ∃ r ∈ (left (EStateM.bind x f ⟨s, []⟩)).log, bad r
  unfold EStateM.bind
  cases hresult : x ⟨s, []⟩ with
  | ok a w =>
      rw [hresult] at hlog
      obtain ⟨t, log⟩ := w
      obtain rfl : log = [] := hlog
      exact hf a t
  | error e w =>
      rw [hresult] at hlog
      exact Or.inl ⟨hlog, rfl⟩

/-- What comes after the entries writes no more of them. -/
theorem bind_silent {f : α → EStateM ε (Logged σ ρ) β} (h : Departs bad x y)
    (hf : ∀ a, Silent (f a)) : Departs bad (x >>= f) (y >>= f) := by
  have hleft : ∀ (z : EStateM ε (Logged σ ρ) α) w,
      (left (EStateM.bind z f w)).log = (left (z w)).log := by
    intro z w
    unfold EStateM.bind
    cases z w with
    | ok a v => exact (hf a).log_left v
    | error e v => rfl
  intro s
  show (left (EStateM.bind y f ⟨s, []⟩)).log = [] ∧
      EStateM.bind x f ⟨s, []⟩ = EStateM.bind y f ⟨s, []⟩ ∨
    (left (EStateM.bind y f ⟨s, []⟩)).log ≠ [] ∧
      ∃ r ∈ (left (EStateM.bind x f ⟨s, []⟩)).log, bad r
  rw [hleft, hleft]
  rcases h s with ⟨hlog, heq⟩ | hentries
  · refine Or.inl ⟨hlog, ?_⟩
    unfold EStateM.bind
    rw [heq]
  · exact Or.inr hentries

theorem ite {c : Prop} [Decidable c] {x' y' : EStateM ε (Logged σ ρ) α}
    (hx : c → Departs bad x y) (hx' : ¬ c → Departs bad x' y') :
    Departs bad (if c then x else x') (if c then y else y') := by
  by_cases h : c
  · rw [if_pos h, if_pos h]
    exact hx h
  · rw [if_neg h, if_neg h]
    exact hx' h

/-- **When an entry is bad.** If no entry of `y` is, one of `x` is where `y` has any. -/
theorem forall_not_iff (h : Departs bad x y) (s : σ)
    (hy : ∀ r ∈ (left (y ⟨s, []⟩)).log, ¬ bad r) :
    (∀ r ∈ (left (x ⟨s, []⟩)).log, ¬ bad r) ↔ (left (y ⟨s, []⟩)).log = [] := by
  rcases h s with ⟨hlog, heq⟩ | ⟨hlog, r, hr, hbad⟩
  · rw [heq]
    exact iff_of_true hy hlog
  · exact iff_of_false (fun hx => hx r hr hbad) hlog

end Departs

end GelCli.Foundation
