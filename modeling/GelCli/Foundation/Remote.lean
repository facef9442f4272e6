import GelCli.Foundation.Logged
import GelCli.Foundation.Results

/-!
# Calls to a remote service

A program whose state is kept by a service, and that works through calls of it. A call may
be lost before the service sees it, or its answer may be lost after it has taken effect.
`Reads` says that a command only looks at the state, and `view` is what it sees; the rest is
how often such a program may be run again.
-/

namespace GelCli.Foundation

universe u

/-- What becomes of a call. -/
inductive Delivery where
  | answered
  | lost
  | unanswered
deriving DecidableEq, Repr

/-- The state that a service keeps and what becomes of the calls to come; the calls behind
the list are answered. -/
structure Remote (σ : Type u) where
  state : σ
  deliveries : List Delivery
deriving DecidableEq, Repr

namespace Remote

variable {σ ε α β : Type u}

/-- A call that asks. -/
def read (error : ε) (f : σ → Except ε α) : EStateM ε (Remote σ) α := fun w =>
  match w.deliveries with
  | .lost :: rest | .unanswered :: rest => .error error { w with deliveries := rest }
  | rest =>
      match f w.state with
      | .ok a => .ok a { w with deliveries := rest.tail }
      | .error e => .error e { w with deliveries := rest.tail }

/-- A call that changes the state, unless it is refused. -/
def mutate (error : ε) (f : σ → Except ε σ) : EStateM ε (Remote σ) PUnit := fun w =>
  match w.deliveries with
  | .lost :: rest => .error error { w with deliveries := rest }
  | .unanswered :: rest =>
      match f w.state with
      | .ok s => .error error ⟨s, rest⟩
      | .error _ => .error error { w with deliveries := rest }
  | rest =>
      match f w.state with
      | .ok s => .ok ⟨⟩ ⟨s, rest.tail⟩
      | .error e => .error e { w with deliveries := rest.tail }

/-- A call that changes the state and answers with a value. -/
def exchange (error : ε) (f : σ → Except ε (α × σ)) : EStateM ε (Remote σ) α := fun w =>
  match w.deliveries with
  | .lost :: rest => .error error { w with deliveries := rest }
  | .unanswered :: rest =>
      match f w.state with
      | .ok (_, s) => .error error ⟨s, rest⟩
      | .error _ => .error error { w with deliveries := rest }
  | rest =>
      match f w.state with
      | .ok (a, s) => .ok a ⟨s, rest.tail⟩
      | .error e => .error e { w with deliveries := rest.tail }

/-- What a command comes to if every call is answered. -/
def view (x : EStateM ε (Remote σ) α) (s : σ) : Except ε α :=
  match x ⟨s, []⟩ with
  | .ok a _ => .ok a
  | .error e _ => .error e

/-- The state that a command leaves. -/
def leaves (x : EStateM ε (Remote σ) α) (w : Remote σ) : σ := (Logged.left (x w)).state

/-- The state that a command leaves if every call is answered. -/
def finish (x : EStateM ε (Remote σ) α) (s : σ) : σ := leaves x ⟨s, []⟩

/-- The state that is left after attempts, with what becomes of the calls of each. -/
def attempts (x : EStateM ε (Remote σ) α) (s : σ) (runs : List (List Delivery)) : σ :=
  runs.foldl (fun s deliveries => leaves x ⟨s, deliveries⟩) s

/-- The command leaves the state as it is, and returns what it sees. -/
structure Reads (x : EStateM ε (Remote σ) α) : Prop where
  state : ∀ w, leaves x w = w.state
  deliveries : ∀ s, (Logged.left (x ⟨s, []⟩)).deliveries = []
  seen : ∀ w a w', x w = .ok a w' → view x w.state = .ok a

namespace Reads

variable {x : EStateM ε (Remote σ) α} {s : σ} {a : α}

/-- An answered run of a command that only looks. -/
theorem apply_answered (h : Reads x) (s : σ) :
    x ⟨s, []⟩ = match view x s with
      | .ok a => .ok a ⟨s, []⟩
      | .error e => .error e ⟨s, []⟩ := by
  have hstate := h.state ⟨s, []⟩
  have hdeliveries := h.deliveries s
  unfold leaves Logged.left at hstate
  unfold Logged.left at hdeliveries
  unfold view
  cases hx : x ⟨s, []⟩ with
  | ok a w =>
      obtain ⟨t, rest⟩ := w
      rw [hx] at hstate hdeliveries
      simp only at hstate hdeliveries
      rw [hstate, hdeliveries]
  | error e w =>
      obtain ⟨t, rest⟩ := w
      rw [hx] at hstate hdeliveries
      simp only at hstate hdeliveries
      rw [hstate, hdeliveries]

/-- What is returned is what is seen. -/
theorem triple (h : Reads x) (s : σ) :
    Triple (fun w => w.state = s) x (fun a w => view x s = .ok a ∧ w.state = s)
      fun _ w => w.state = s := by
  rintro w rfl
  have hstate := h.state w
  unfold leaves Logged.left at hstate
  cases hx : x w with
  | ok a w' =>
      rw [hx] at hstate
      exact ⟨h.seen w a w' hx, hstate⟩
  | error e w' =>
      rw [hx] at hstate
      exact hstate

theorem pure (a : α) : Reads (Pure.pure a : EStateM ε (Remote σ) α) where
  state := fun _ => rfl
  deliveries := fun _ => rfl
  seen := by
    intro w b w' h
    cases h
    rfl

theorem throw (e : ε) : Reads (MonadExcept.throw e : EStateM ε (Remote σ) α) where
  state := fun _ => rfl
  deliveries := fun _ => rfl
  seen := by
    intro w b w' h
    cases h

theorem ofExcept (y : Except ε α) :
    Reads (MonadExcept.ofExcept y : EStateM ε (Remote σ) α) := by
  cases y with
  | ok a => exact pure a
  | error e => exact throw e

theorem read (error : ε) (f : σ → Except ε α) : Reads (Remote.read error f) := by
  have hcases : ∀ w : Remote σ, Logged.left (Remote.read error f w) =
      { w with deliveries := w.deliveries.tail } := by
    intro w
    obtain ⟨s, deliveries⟩ := w
    unfold Remote.read
    rcases deliveries with _ | ⟨d, rest⟩
    · cases f s <;> rfl
    · cases d with
      | answered => cases f s <;> rfl
      | lost => rfl
      | unanswered => rfl
  refine ⟨fun w => ?_, fun s => ?_, fun w a w' h => ?_⟩
  · rw [leaves, hcases]
  · rw [hcases]
    rfl
  · obtain ⟨s, deliveries⟩ := w
    have hf : f s = .ok a := by
      unfold Remote.read at h
      rcases deliveries with _ | ⟨d, rest⟩
      · cases hf : f s with
        | ok b =>
            simp only [hf] at h
            cases h
            rfl
        | error e =>
            simp only [hf] at h
            cases h
      · cases d with
        | answered =>
            cases hf : f s with
            | ok b =>
                simp only [hf] at h
                cases h
                rfl
            | error e =>
                simp only [hf] at h
                cases h
        | lost => cases h
        | unanswered => cases h
    unfold view Remote.read
    simp only [hf]

theorem bind {f : α → EStateM ε (Remote σ) β} (hx : Reads x) (hf : ∀ a, Reads (f a)) :
    Reads (x >>= f) := by
  refine ⟨fun w => ?_, fun s => ?_, fun w b w' h => ?_⟩
  · have hstate := hx.state w
    show (Logged.left (EStateM.bind x f w)).state = w.state
    unfold leaves Logged.left at hstate
    unfold EStateM.bind
    cases hxw : x w with
    | ok a t =>
        rw [hxw] at hstate
        exact ((hf a).state t).trans hstate
    | error e t =>
        rw [hxw] at hstate
        exact hstate
  · show (Logged.left (EStateM.bind x f ⟨s, []⟩)).deliveries = []
    unfold EStateM.bind
    rw [hx.apply_answered]
    cases view x s with
    | ok a => exact (hf a).deliveries s
    | error e => rfl
  · change EStateM.bind x f w = .ok b w' at h
    show (match EStateM.bind x f ⟨w.state, []⟩ with
      | .ok a _ => Except.ok a
      | .error e _ => .error e) = .ok b
    have hstate := hx.state w
    unfold leaves Logged.left at hstate
    unfold EStateM.bind at h ⊢
    cases hxw : x w with
    | ok a t =>
        rw [hxw] at h hstate
        simp only at hstate
        have hb := (hf a).seen t b w' h
        rw [hstate] at hb
        rw [hx.apply_answered, hx.seen w a t hxw]
        exact hb
    | error e t =>
        rw [hxw] at h
        cases h

theorem ite {c : Prop} [Decidable c] {y : EStateM ε (Remote σ) α} (hx : Reads x)
    (hy : Reads y) : Reads (if c then x else y) := by
  by_cases h : c
  · rw [if_pos h]
    exact hx
  · rw [if_neg h]
    exact hy

/-- An error that is raised anew with another text. -/
theorem tryThrow {g : ε → ε} (hx : Reads x) :
    Reads (MonadExcept.tryCatch x fun e => MonadExcept.throw (g e)) := by
  have hcases : ∀ w, (MonadExcept.tryCatch x fun e => MonadExcept.throw (g e) :
      EStateM ε (Remote σ) α) w = match x w with
        | .ok a t => .ok a t
        | .error e t => .error (g e) t := by
    intro w
    show EStateM.tryCatch x _ w = _
    unfold EStateM.tryCatch
    cases x w <;> rfl
  refine ⟨fun w => ?_, fun s => ?_, fun w a w' h => ?_⟩
  · have hstate := hx.state w
    unfold leaves Logged.left at hstate ⊢
    rw [hcases]
    cases hxw : x w with
    | ok a t | error e t =>
        rw [hxw] at hstate
        exact hstate
  · have hdeliveries := hx.deliveries s
    unfold Logged.left at hdeliveries ⊢
    rw [hcases]
    cases hxw : x ⟨s, []⟩ with
    | ok a t | error e t =>
        rw [hxw] at hdeliveries
        exact hdeliveries
  · rw [hcases] at h
    cases hxw : x w with
    | ok b t =>
        rw [hxw] at h
        cases h
        have hseen := hx.seen w a w' hxw
        unfold view at hseen ⊢
        rw [hcases]
        cases hx0 : x ⟨w.state, []⟩ with
        | ok b t =>
            rw [hx0] at hseen
            exact hseen
        | error e t =>
            rw [hx0] at hseen
            cases hseen
    | error e t =>
        rw [hxw] at h
        cases h

theorem forM {ι : Type u} {l : List ι} {f : ι → EStateM ε (Remote σ) PUnit}
    (hf : ∀ i ∈ l, Reads (f i)) : Reads (l.forM f) := by
  induction l with
  | nil => exact pure _
  | cons i l ih =>
      exact bind (hf i List.mem_cons_self) fun _ =>
        ih fun j hj => hf j (List.mem_cons_of_mem i hj)

theorem mapM {ι : Type u} {l : List ι} {f : ι → EStateM ε (Remote σ) α}
    (hf : ∀ i ∈ l, Reads (f i)) : Reads (l.mapM f) := by
  induction l with
  | nil => exact pure _
  | cons i l ih =>
      rw [List.mapM_cons]
      exact bind (hf i List.mem_cons_self) fun a =>
        bind (ih fun j hj => hf j (List.mem_cons_of_mem i hj)) fun as => pure _

theorem foldlM {ι : Type u} {l : List ι} {f : α → ι → EStateM ε (Remote σ) α}
    (hf : ∀ a i, Reads (f a i)) (a : α) : Reads (l.foldlM f a) := by
  induction l generalizing a with
  | nil => exact pure _
  | cons i l ih => exact bind (hf a i) fun b => ih b

end Reads

/-! ## Views -/

section View

variable {s s' : σ}

@[simp] theorem view_pure (a : α) : view (Pure.pure a : EStateM ε (Remote σ) α) s = .ok a := rfl

@[simp] theorem view_throw (e : ε) :
    view (MonadExcept.throw e : EStateM ε (Remote σ) α) s = .error e := rfl

@[simp] theorem view_ofExcept (y : Except ε α) :
    view (MonadExcept.ofExcept y : EStateM ε (Remote σ) α) s = y := by
  cases y <;> rfl

@[simp] theorem view_read (error : ε) (f : σ → Except ε α) : view (read error f) s = f s := by
  unfold view read
  cases hf : f s <;> simp only

theorem view_bind {x : EStateM ε (Remote σ) α} {f : α → EStateM ε (Remote σ) β} (hx : Reads x) :
    view (x >>= f) s = view x s >>= fun a => view (f a) s := by
  show (match EStateM.bind x f ⟨s, []⟩ with
    | .ok a _ => Except.ok a
    | .error e _ => .error e) = _
  unfold EStateM.bind
  rw [hx.apply_answered]
  cases view x s <;> rfl

theorem view_bind_eq_ok {x : EStateM ε (Remote σ) α} {f : α → EStateM ε (Remote σ) β} {b : β}
    (hx : Reads x) :
    view (x >>= f) s = .ok b ↔ ∃ a, view x s = .ok a ∧ view (f a) s = .ok b := by
  rw [view_bind hx, bind_eq_ok]

theorem view_ofExcept_bind_eq_ok {y : Except ε α} {f : α → EStateM ε (Remote σ) β} {b : β} :
    view (MonadExcept.ofExcept y >>= f) s = .ok b ↔ ∃ a, y = .ok a ∧ view (f a) s = .ok b := by
  rw [view_bind_eq_ok (Reads.ofExcept y), view_ofExcept]

theorem view_read_bind_eq_ok {error : ε} {g : σ → Except ε α} {f : α → EStateM ε (Remote σ) β}
    {b : β} :
    view (read error g >>= f) s = .ok b ↔ ∃ a, g s = .ok a ∧ view (f a) s = .ok b := by
  rw [view_bind_eq_ok (Reads.read error g), view_read]

theorem view_tryThrow {x : EStateM ε (Remote σ) α} {g : ε → ε} :
    view (MonadExcept.tryCatch x fun e => MonadExcept.throw (g e)) s = (view x s).mapError g := by
  show (match EStateM.tryCatch x _ ⟨s, []⟩ with
    | .ok a _ => Except.ok a
    | .error e _ => .error e) = _
  unfold EStateM.tryCatch view
  cases x ⟨s, []⟩ <;> rfl

theorem view_forM {ι : Type u} {l : List ι} {f : ι → EStateM ε (Remote σ) PUnit}
    (hf : ∀ i ∈ l, Reads (f i)) : view (l.forM f) s = l.forM fun i => view (f i) s := by
  induction l with
  | nil => rfl
  | cons i l ih =>
      show view (f i >>= fun _ => l.forM f) s = view (f i) s >>= fun _ => l.forM _
      rw [view_bind (hf i List.mem_cons_self), ih fun j hj => hf j (List.mem_cons_of_mem i hj)]

theorem view_mapM {ι : Type u} {l : List ι} {f : ι → EStateM ε (Remote σ) α}
    (hf : ∀ i ∈ l, Reads (f i)) : view (l.mapM f) s = l.mapM fun i => view (f i) s := by
  induction l with
  | nil => rfl
  | cons i l ih =>
      have hl : ∀ j ∈ l, Reads (f j) := fun j hj => hf j (List.mem_cons_of_mem i hj)
      rw [List.mapM_cons, List.mapM_cons, view_bind (hf i List.mem_cons_self)]
      refine congrArg (view (f i) s >>= ·) (funext fun a => ?_)
      rw [view_bind (Reads.mapM hl), ih hl]
      rfl

/-- Two states that a command does not tell apart are seen alike in what follows. -/
theorem view_bind_congr {x : EStateM ε (Remote σ) α} {f : α → EStateM ε (Remote σ) β}
    (hx : Reads x) (hview : view x s = view x s') (hf : ∀ a, view (f a) s = view (f a) s') :
    view (x >>= f) s = view (x >>= f) s' := by
  rw [view_bind hx, view_bind hx, hview]
  exact congrArg (view x s' >>= ·) (funext hf)

end View

/-! ## What is left -/

section Left

variable {s : σ}

theorem mutate_triple {error : ε} {f : σ → Except ε σ} :
    Triple (fun w => w.state = s) (mutate error f) (fun _ w => f s = .ok w.state)
      fun _ w => w.state = s ∨ f s = .ok w.state := by
  rintro ⟨s, deliveries⟩ rfl
  unfold mutate
  rcases deliveries with _ | ⟨d, rest⟩
  · cases hf : f s with
    | ok t => rfl
    | error e => exact Or.inl rfl
  · cases d with
    | answered =>
        cases hf : f s with
        | ok t => rfl
        | error e => exact Or.inl rfl
    | lost => exact Or.inl rfl
    | unanswered =>
        cases hf : f s with
        | ok t => exact Or.inr rfl
        | error e => exact Or.inl rfl

theorem exchange_triple {error : ε} {f : σ → Except ε (α × σ)} :
    Triple (fun w => w.state = s) (exchange error f) (fun a w => f s = .ok (a, w.state))
      fun _ w => w.state = s ∨ ∃ a, f s = .ok (a, w.state) := by
  rintro ⟨s, deliveries⟩ rfl
  unfold exchange
  rcases deliveries with _ | ⟨d, rest⟩
  · cases hf : f s with
    | ok t => rfl
    | error e => exact Or.inl rfl
  · cases d with
    | answered =>
        cases hf : f s with
        | ok t => rfl
        | error e => exact Or.inl rfl
    | lost => exact Or.inl rfl
    | unanswered =>
        cases hf : f s with
        | ok t => exact Or.inr ⟨t.1, rfl⟩
        | error e => exact Or.inl rfl

/-- What every round of a loop keeps is kept by the loop. -/
theorem forM_kept {ι : Type u} {l : List ι} {f : ι → EStateM ε (Remote σ) PUnit}
    {P : Remote σ → Prop} (hf : ∀ i ∈ l, Triple P (f i) (fun _ => P) fun _ => P) :
    Triple P (l.forM f) (fun _ => P) fun _ => P := by
  induction l with
  | nil => exact Triple.pure fun _ hw => hw
  | cons i l ih =>
      exact Triple.bind (hf i List.mem_cons_self) fun _ =>
        ih fun j hj => hf j (List.mem_cons_of_mem i hj)

/-- A call that keeps a property keeps it also if its answer is lost. -/
theorem mutate_kept {error : ε} {f : σ → Except ε σ} {P : σ → Prop}
    (hf : ∀ s t, P s → f s = .ok t → P t) :
    Triple (fun w => P w.state) (mutate error f) (fun _ w => P w.state) fun _ w => P w.state := by
  intro w hw
  have hcall := @mutate_triple _ _ w.state error f w rfl
  cases hresult : mutate error f w with
  | ok u t =>
      rw [hresult] at hcall
      exact hf _ _ hw hcall
  | error e t =>
      rw [hresult] at hcall
      rcases hcall with hsame | hdone
      · show P t.state
        rwa [hsame]
      · exact hf _ _ hw hdone

/-- What a call that is answered comes to. -/
theorem mutate_ok {error : ε} {f : σ → Except ε σ} {P Q : σ → Prop}
    (hf : ∀ s t, P s → f s = .ok t → Q t) :
    Triple (fun w => P w.state) (mutate error f) (fun _ w => Q w.state) fun _ _ => True := by
  apply Triple.pointwise
  intro w hw
  apply Triple.conseqError
  · apply Triple.conseq (mutate_triple (s := w.state)) (fun v hv => congrArg state hv)
    exact fun _ v hdone => hf _ _ hw hdone
  · exact fun _ _ _ => trivial

/-- Looking keeps whatever the state is like. -/
theorem Reads.kept {x : EStateM ε (Remote σ) α} (hx : Reads x) {P : σ → Prop} :
    Triple (fun w => P w.state) x (fun a w => P w.state ∧ view x w.state = .ok a)
      fun _ w => P w.state := by
  intro w hw
  have hlook := hx.triple w.state w rfl
  cases hresult : x w with
  | ok a t =>
      rw [hresult] at hlook
      obtain ⟨hview, hsame⟩ := hlook
      show P t.state ∧ view x t.state = .ok a
      rw [hsame]
      exact ⟨hw, hview⟩
  | error e t =>
      rw [hresult] at hlook
      show P t.state
      rwa [hlook]

/-- A postcondition on the state alone, whether the command fails or not. -/
theorem leaves_of_triple {x : EStateM ε (Remote σ) α} {P Q : σ → Prop}
    (h : Triple (fun w => P w.state) x (fun _ w => Q w.state) fun _ w => Q w.state)
    {w : Remote σ} (hw : P w.state) : Q (leaves x w) := by
  have hx := h w hw
  unfold leaves Logged.left
  cases hxw : x w with
  | ok a t | error e t =>
      rw [hxw] at hx
      exact hx

/-- **What every run leaves, whatever becomes of its calls, is left by any number of them.** -/
theorem attempts_kept {x : EStateM ε (Remote σ) α} {P : σ → Prop}
    (hleaves : ∀ w, P w.state → P (leaves x w)) (hs : P s) (runs : List (List Delivery)) :
    P (attempts x s runs) := by
  induction runs generalizing s with
  | nil => exact hs
  | cons deliveries runs ih => exact ih (hleaves ⟨s, deliveries⟩ hs)

end Left

end Remote

end GelCli.Foundation
