import Mathlib.Logic.Basic

/-!
# Commands that may fail at any step

A command changes a state step by step and keeps what the steps before an error did:
`EStateM`. `Triple P x Q E` says of the command `x` that from a state in `P` it ends
in `Q`, or with an error in `E`, with the rules for the operations of a command.
-/

namespace GelCli.Foundation

universe u

variable {σ ε α β : Type u}

/-- One operation of a command. A fault ends the command with `error` and leaves what
the operation had done by then; where the operation is not possible, nothing is done. -/
def attempt (error : ε) (fault : Option (σ → σ)) (f : σ → Option σ) : EStateM ε σ PUnit :=
  fun s =>
    match fault, f s with
    | none, some t => .ok ⟨⟩ t
    | none, none => .error error s
    | some g, _ => .error error (g s)

/-- `fin` runs whether `x` fails or not; the error of `x` goes before its own. -/
def withFinally (x : EStateM ε σ α) (fin : EStateM ε σ PUnit) : EStateM ε σ α := fun s =>
  match x s with
  | .ok a t =>
      match fin t with
      | .ok _ u => .ok a u
      | .error e u => .error e u
  | .error e t =>
      match fin t with
      | .ok _ u => .error e u
      | .error _ u => .error e u

/-- After an error of `x` its work is undone, an error in that being ignored; else it is
finished. -/
def withUndo (x : EStateM ε σ α) (undo finish : EStateM ε σ PUnit) : EStateM ε σ α := fun s =>
  match x s with
  | .ok a t =>
      match finish t with
      | .ok _ u => .ok a u
      | .error e u => .error e u
  | .error e t =>
      match undo t with
      | .ok _ u => .error e u
      | .error _ u => .error e u

/-- From a state in `P` the command ends in `Q`, or with an error in `E`. -/
def Triple (P : σ → Prop) (x : EStateM ε σ α) (Q : α → σ → Prop) (E : ε → σ → Prop) : Prop :=
  ∀ s, P s → match x s with
    | .ok a t => Q a t
    | .error e t => E e t

namespace Triple

variable {P P' : σ → Prop} {Q Q' : α → σ → Prop} {E : ε → σ → Prop}

theorem of_ok {x : EStateM ε σ α} {a : α} {s t : σ} (h : Triple P x Q E) (hs : P s)
    (hx : x s = .ok a t) : Q a t := by
  have hresult := h s hs
  rwa [hx] at hresult

theorem of_error {x : EStateM ε σ α} {e : ε} {s t : σ} (h : Triple P x Q E) (hs : P s)
    (hx : x s = .error e t) : E e t := by
  have hresult := h s hs
  rwa [hx] at hresult

/-- A command that meets no error ends. -/
theorem exists_ok {x : EStateM ε σ α} {s : σ} (h : Triple P x Q fun _ _ => False) (hs : P s) :
    ∃ a t, x s = .ok a t ∧ Q a t := by
  cases hx : x s with
  | ok a t => exact ⟨a, t, rfl, h.of_ok hs hx⟩
  | error e t => exact (h.of_error hs hx).elim

theorem pure {a : α} (h : ∀ s, P s → Q a s) :
    Triple P (Pure.pure a : EStateM ε σ α) Q E :=
  fun s hs => h s hs

theorem throw {e : ε} (h : ∀ s, P s → E e s) :
    Triple P (MonadExcept.throw e : EStateM ε σ α) Q E :=
  fun s hs => h s hs

theorem conseq {x : EStateM ε σ α} (h : Triple P' x Q' E) (hpre : ∀ s, P s → P' s)
    (hpost : ∀ a s, Q' a s → Q a s) : Triple P x Q E := by
  intro s hs
  have hx := h s (hpre s hs)
  cases hresult : x s with
  | ok a t =>
      rw [hresult] at hx
      exact hpost a t hx
  | error e t =>
      rw [hresult] at hx
      exact hx

theorem conseqError {F : ε → σ → Prop} {x : EStateM ε σ α} (h : Triple P x Q F)
    (herror : ∀ e s, F e s → E e s) : Triple P x Q E := by
  intro s hs
  have hx := h s hs
  cases hresult : x s with
  | ok a t =>
      rw [hresult] at hx
      exact hx
  | error e t =>
      rw [hresult] at hx
      exact herror e t hx

/-- Two commands in a row: the errors of either are errors of the whole. -/
theorem bind {x : EStateM ε σ α} {f : α → EStateM ε σ β} {R : α → σ → Prop}
    {Q : β → σ → Prop} (hx : Triple P x R E) (hf : ∀ a, Triple (R a) (f a) Q E) :
    Triple P (x >>= f) Q E := by
  intro s hs
  have hx := hx s hs
  show match EStateM.bind x f s with
    | .ok b t => Q b t
    | .error e t => E e t
  unfold EStateM.bind
  cases hresult : x s with
  | ok a t =>
      rw [hresult] at hx
      exact hf a t hx
  | error e t =>
      rw [hresult] at hx
      exact hx

theorem get {Q : σ → σ → Prop} (h : ∀ s, P s → Q s s) :
    Triple P (MonadState.get : EStateM ε σ σ) Q E :=
  fun s hs => h s hs

theorem modify {f : σ → σ} {Q : PUnit → σ → Prop} (h : ∀ s, P s → Q ⟨⟩ (f s)) :
    Triple P (modify f : EStateM ε σ PUnit) Q E :=
  fun s hs => h s hs

theorem attempt {error : ε} {fault : Option (σ → σ)} {f : σ → Option σ}
    {Q : PUnit → σ → Prop} (hok : ∀ s t, P s → f s = some t → Q ⟨⟩ t)
    (hnone : ∀ s, P s → f s = none → E error s)
    (hfault : ∀ g s, fault = some g → P s → E error (g s)) :
    Triple P (attempt error fault f) Q E := by
  intro s hs
  unfold Foundation.attempt
  cases fault with
  | none =>
      cases hf : f s with
      | none => exact hnone s hs hf
      | some t => exact hok s t hs hf
  | some g => exact hfault g s rfl hs

theorem attempt_fault {error : ε} {g : σ → σ} {f : σ → Option σ} {Q : PUnit → σ → Prop}
    (h : ∀ s, P s → E error (g s)) :
    Triple P (Foundation.attempt error (some g) f) Q E :=
  fun s hs => h s hs

theorem ofExcept {x : Except ε α} (hok : ∀ a s, x = .ok a → P s → Q a s)
    (herror : ∀ e s, x = .error e → P s → E e s) :
    Triple P (MonadExcept.ofExcept x : EStateM ε σ α) Q E := by
  intro s hs
  cases x with
  | ok a => exact hok a s rfl hs
  | error e => exact herror e s rfl hs

theorem withFinally {x : EStateM ε σ α} {fin : EStateM ε σ PUnit} {R : α → σ → Prop}
    {F : ε → σ → Prop} (hx : Triple P x R F) (hok : ∀ a, Triple (R a) fin (fun _ => Q a) E)
    (herror : ∀ e, Triple (F e) fin (fun _ => E e) fun _ => E e) :
    Triple P (Foundation.withFinally x fin) Q E := by
  intro s hs
  have hx := hx s hs
  unfold Foundation.withFinally
  cases hresult : x s with
  | ok a t =>
      rw [hresult] at hx
      have hfin := hok a t hx
      cases hend : fin t with
      | ok _ u | error _ u =>
          rw [hend] at hfin
          simp only [hend]
          exact hfin
  | error e t =>
      rw [hresult] at hx
      have hfin := herror e t hx
      cases hend : fin t with
      | ok _ u | error _ u =>
          rw [hend] at hfin
          simp only [hend]
          exact hfin

theorem withUndo {x : EStateM ε σ α} {undo finish : EStateM ε σ PUnit} {R : α → σ → Prop}
    {F : ε → σ → Prop} (hx : Triple P x R F) (hok : ∀ a, Triple (R a) finish (fun _ => Q a) E)
    (herror : ∀ e, Triple (F e) undo (fun _ => E e) fun _ => E e) :
    Triple P (Foundation.withUndo x undo finish) Q E := by
  intro s hs
  have hx := hx s hs
  unfold Foundation.withUndo
  cases hresult : x s with
  | ok a t =>
      rw [hresult] at hx
      have hend' := hok a t hx
      cases hend : finish t with
      | ok _ u | error _ u =>
          rw [hend] at hend'
          simp only [hend]
          exact hend'
  | error e t =>
      rw [hresult] at hx
      have hend' := herror e t hx
      cases hend : undo t with
      | ok _ u | error _ u =>
          rw [hend] at hend'
          simp only [hend]
          exact hend'

/-- What `x` did before its error stays. -/
theorem tryCatch {x : EStateM ε σ α} {handle : ε → EStateM ε σ α} {F : ε → σ → Prop}
    (hx : Triple P x Q F) (hhandle : ∀ e, Triple (F e) (handle e) Q E) :
    Triple P (MonadExcept.tryCatch x handle) Q E := by
  intro s hs
  have hx := hx s hs
  show match EStateM.tryCatch x handle s with
    | .ok a t => Q a t
    | .error e t => E e t
  unfold EStateM.tryCatch
  cases hresult : x s with
  | ok a t =>
      rw [hresult] at hx
      exact hx
  | error e t =>
      rw [hresult] at hx
      exact hhandle e t hx

theorem pointwise {x : EStateM ε σ α} (h : ∀ s, P s → Triple (fun t => t = s) x Q E) :
    Triple P x Q E :=
  fun s hs => h s hs s rfl

/-- A fact that the states before the command share. -/
theorem assume {c : Prop} {x : EStateM ε σ α} (hc : ∀ s, P s → c) (hx : c → Triple P x Q E) :
    Triple P x Q E :=
  fun s hs => hx (hc s hs) s hs

theorem of_exists {ι : Sort*} {P : ι → σ → Prop} {x : EStateM ε σ α}
    (h : ∀ i, Triple (P i) x Q E) : Triple (fun s => ∃ i, P i s) x Q E :=
  fun s ⟨i, hs⟩ => h i s hs

theorem unreachable {x : EStateM ε σ α} : Triple (fun _ => False) x Q E :=
  fun _ hs => hs.elim

theorem ite {c : Prop} [Decidable c] {x y : EStateM ε σ α} (hx : c → Triple P x Q E)
    (hy : ¬ c → Triple P y Q E) : Triple P (if c then x else y) Q E := by
  by_cases h : c
  · rw [if_pos h]
    exact hx h
  · rw [if_neg h]
    exact hy h

end Triple

end GelCli.Foundation
