import Mathlib.Data.List.Forall2

/-!
# Computations that may fail

What a sequence of fallible steps has done when it succeeds, and how it fails; a
check is a step of its own.
-/

namespace GelCli.Foundation

universe u w

variable {ε : Type w} {α β : Type u}

theorem bind_eq_ok {x : Except ε α} {f : α → Except ε β} {b : β} :
    x >>= f = .ok b ↔ ∃ a, x = .ok a ∧ f a = .ok b := by
  cases x with
  | error e =>
      constructor
      · intro h
        cases h
      · rintro ⟨a, h, _⟩
        cases h
  | ok a =>
      constructor
      · exact fun h => ⟨a, rfl, h⟩
      · rintro ⟨a', h, hf⟩
        cases h
        exact hf

theorem ok_bind (a : α) (f : α → Except ε β) : (Except.ok a >>= f) = f a := rfl

/-! ## Checks -/

/-- `if not p: raise e`. -/
def require (p : Prop) [Decidable p] (e : ε) : Except ε PUnit := if p then .ok ⟨⟩ else .error e

/-- A value that has to be there. -/
def expect (o : Option α) (e : ε) : Except ε α :=
  match o with
  | some a => .ok a
  | none => .error e

@[simp] theorem require_eq_ok {p : Prop} [Decidable p] {e : ε} {u : PUnit} :
    require p e = .ok u ↔ p := by
  unfold require
  split
  · next h => exact ⟨fun _ => h, fun _ => rfl⟩
  · next h =>
    constructor
    · intro heq
      cases heq
    · exact fun hp => absurd hp h

theorem require_pos {p : Prop} [Decidable p] {e : ε} (h : p) :
    (require p e : Except ε PUnit.{u + 1}) = .ok ⟨⟩ :=
  if_pos h

@[simp] theorem expect_eq_ok {o : Option α} {e : ε} {a : α} : expect o e = .ok a ↔ o = some a := by
  cases o <;> simp [expect]

theorem require_bind_eq_ok {p : Prop} [Decidable p] {e : ε} {f : PUnit → Except ε β} {b : β} :
    require p e >>= f = .ok b ↔ p ∧ f ⟨⟩ = .ok b := by
  rw [bind_eq_ok]
  constructor
  · rintro ⟨u, h, hf⟩
    exact ⟨require_eq_ok.mp h, hf⟩
  · rintro ⟨h, hf⟩
    exact ⟨⟨⟩, require_pos h, hf⟩

theorem expect_bind_eq_ok {o : Option α} {e : ε} {f : α → Except ε β} {b : β} :
    expect o e >>= f = .ok b ↔ ∃ a, o = some a ∧ f a = .ok b := by
  rw [bind_eq_ok]
  simp only [expect_eq_ok]

/-- An error that is raised anew with another text. -/
theorem mapError_eq_ok {ε' : Type w} {x : Except ε α} {f : ε → ε'} {a : α} :
    x.mapError f = .ok a ↔ x = .ok a := by
  cases x with
  | error e => constructor <;> (intro h; cases h)
  | ok b => constructor <;> (intro h; cases h; rfl)

/-! ## Lists -/

/-- A loop of checks passes when every check does. -/
theorem forM_eq_ok {f : α → Except ε PUnit} {l : List α} :
    l.forM f = .ok ⟨⟩ ↔ ∀ a ∈ l, f a = .ok ⟨⟩ := by
  induction l with
  | nil => exact ⟨fun _ a ha => absurd ha List.not_mem_nil, fun _ => rfl⟩
  | cons a l ih =>
      rw [List.forall_mem_cons, ← ih]
      exact bind_eq_ok.trans ⟨fun ⟨_, ha, hl⟩ => ⟨ha, hl⟩, fun ⟨ha, hl⟩ => ⟨⟨⟩, ha, hl⟩⟩

theorem mapM_ok {f : α → Except ε β} {g : α → β} {l : List α} (h : ∀ x ∈ l, f x = .ok (g x)) :
    l.mapM f = .ok (l.map g) := by
  induction l with
  | nil => rfl
  | cons x l ih =>
      rw [List.mapM_cons, h x List.mem_cons_self, ih fun y hy => h y (List.mem_cons_of_mem _ hy)]
      rfl

theorem forall₂_eq_map {f : α → β} {l : List α} {ys : List β} :
    List.Forall₂ (fun x y => y = f x) l ys ↔ ys = l.map f := by
  induction l generalizing ys with
  | nil => rw [List.forall₂_nil_left_iff, List.map_nil]
  | cons x l ih =>
      rw [List.forall₂_cons_left_iff, List.map_cons]
      constructor
      · rintro ⟨y, zs, rfl, hall, rfl⟩
        rw [ih.mp hall]
      · rintro rfl
        exact ⟨_, _, rfl, ih.mpr rfl, rfl⟩

/-- Lists that are related entry by entry have a partner for every entry. -/
theorem exists_mem_of_forall₂ {R : α → β → Prop} {l : List α} {ys : List β}
    (h : List.Forall₂ R l ys) {x : α} (hx : x ∈ l) : ∃ y ∈ ys, R x y := by
  induction h with
  | nil => cases hx
  | cons hhead htail ih =>
      rcases List.mem_cons.mp hx with rfl | hx
      · exact ⟨_, List.mem_cons_self, hhead⟩
      · obtain ⟨y, hy, hxy⟩ := ih hx
        exact ⟨y, List.mem_cons_of_mem _ hy, hxy⟩

/-- The results stand in the order of the items. -/
theorem mapM_eq_ok {f : α → Except ε β} {l : List α} {ys : List β} :
    l.mapM f = .ok ys ↔ List.Forall₂ (fun x y => f x = .ok y) l ys := by
  induction l generalizing ys with
  | nil =>
      rw [List.mapM_nil, List.forall₂_nil_left_iff]
      exact ⟨fun h => (Except.ok.inj h).symm, fun h => congrArg Except.ok h.symm⟩
  | cons x l ih =>
      rw [List.mapM_cons, bind_eq_ok]
      constructor
      · rintro ⟨y, hy, h⟩
        obtain ⟨zs, hzs, h⟩ := bind_eq_ok.mp h
        cases h
        exact .cons hy (ih.mp hzs)
      · intro h
        rcases h with _ | ⟨hy, hzs⟩
        exact ⟨_, hy, bind_eq_ok.mpr ⟨_, ih.mpr hzs, rfl⟩⟩

theorem exists_mapM_ok {f : α → Except ε β} {l : List α} :
    (∃ ys, l.mapM f = .ok ys) ↔ ∀ x ∈ l, ∃ y, f x = .ok y := by
  constructor
  · rintro ⟨ys, h⟩ x hx
    obtain ⟨y, -, hy⟩ := exists_mem_of_forall₂ (mapM_eq_ok.mp h) hx
    exact ⟨y, hy⟩
  · intro h
    induction l with
    | nil => exact ⟨[], rfl⟩
    | cons x l ih =>
        obtain ⟨y, hy⟩ := h x List.mem_cons_self
        obtain ⟨ys, hys⟩ := ih fun z hz => h z (List.mem_cons_of_mem _ hz)
        exact ⟨y :: ys, mapM_eq_ok.mpr (.cons hy (mapM_eq_ok.mp hys))⟩

/-- Every result comes from an item. -/
theorem exists_of_mapM_ok {f : α → Except ε β} {l : List α} {ys : List β}
    (h : l.mapM f = .ok ys) {y : β} (hy : y ∈ ys) : ∃ x ∈ l, f x = .ok y :=
  exists_mem_of_forall₂ (mapM_eq_ok.mp h).flip hy

/-- A loop over what every item holds. -/
theorem mapM_flatten_forM_eq_ok {f : α → Except ε (List β)} {g : β → Except ε PUnit} {l : List α} :
    (l.mapM f >>= fun ys => ys.flatten.forM g) = .ok ⟨⟩ ↔
      ∀ x ∈ l, ∃ ys, f x = .ok ys ∧ ∀ y ∈ ys, g y = .ok ⟨⟩ := by
  simp only [bind_eq_ok, forM_eq_ok, List.mem_flatten]
  constructor
  · rintro ⟨yss, hyss, hall⟩ x hx
    obtain ⟨ys, hys, hok⟩ := exists_mem_of_forall₂ (mapM_eq_ok.mp hyss) hx
    exact ⟨ys, hok, fun y hy => hall y ⟨ys, hys, hy⟩⟩
  · intro hall
    obtain ⟨yss, hyss⟩ := exists_mapM_ok.mpr fun x hx => (hall x hx).imp fun _ h => h.1
    refine ⟨yss, hyss, ?_⟩
    rintro y ⟨ys, hys, hy⟩
    obtain ⟨x, hx, hok⟩ := exists_of_mapM_ok hyss hys
    obtain ⟨found, hfound, hchecked⟩ := hall x hx
    rw [hok] at hfound
    cases hfound
    exact hchecked y hy

end GelCli.Foundation
