import Mathlib.Data.List.Basic
import Mathlib.Data.Set.Basic

/-!
# Computations that compare

Sorting, deduplicating and searching by an order look at their elements only by
comparing two of them. Such a computation is a tree of comparisons; run with a
comparison that may fail, it fails only where a comparison does. A stable sort is one of
them; it returns the elements in another order.
-/

namespace GelCli.Foundation

inductive Comparing (α β : Type) where
  | done (b : β)
  | ask (x y : α) (next : Ordering → Comparing α β)

namespace Comparing

variable {α β : Type}

def run (cmp : α → α → Option Ordering) : Comparing α β → Option β
  | .done b => some b
  | .ask x y next => (cmp x y).bind fun o => (next o).run cmp

/-- Only elements of `s` are compared. -/
inductive Within (s : Set α) : Comparing α β → Prop where
  | done (b : β) : Within s (.done b)
  | ask {x y : α} {next : Ordering → Comparing α β} (hx : x ∈ s) (hy : y ∈ s)
      (hnext : ∀ o, Within s (next o)) : Within s (.ask x y next)

theorem run_isSome {cmp : α → α → Option Ordering} {s : Set α}
    (hcmp : ∀ x ∈ s, ∀ y ∈ s, (cmp x y).isSome) {c : Comparing α β} (h : c.Within s) :
    (c.run cmp).isSome := by
  induction h with
  | done b => rfl
  | ask hx hy hnext ih =>
      obtain ⟨o, ho⟩ := Option.isSome_iff_exists.mp (hcmp _ hx _ hy)
      rw [run, ho]
      exact ih o

/-! ## Sorting -/

def bind {γ : Type} (c : Comparing α β) (f : β → Comparing α γ) : Comparing α γ :=
  match c with
  | .done b => f b
  | .ask x y next => .ask x y fun o => (next o).bind f

/-- The element goes in front of the first one that it is not above. -/
def insert (x : α) : List α → Comparing α (List α)
  | [] => .done [x]
  | y :: ys =>
      .ask x y fun o =>
        if o = .gt then (insert x ys).bind fun zs => .done (y :: zs) else .done (x :: y :: ys)

/-- Of elements that compare equal the first one stays in front. -/
def sort : List α → Comparing α (List α)
  | [] => .done []
  | x :: xs => (sort xs).bind (insert x)

variable {cmp : α → α → Option Ordering}

theorem run_bind {γ : Type} (c : Comparing α β) (f : β → Comparing α γ) :
    (c.bind f).run cmp = (c.run cmp).bind fun b => (f b).run cmp := by
  induction c with
  | done b => rfl
  | ask x y next ih =>
      rw [bind, run, run, Option.bind_assoc]
      exact congrArg _ (funext ih)

theorem run_insert_perm {x : α} {ys zs : List α} (h : (insert x ys).run cmp = some zs) :
    zs.Perm (x :: ys) := by
  induction ys generalizing zs with
  | nil =>
      cases h
      exact .refl _
  | cons y ys ih =>
      rw [insert, run, Option.bind_eq_some_iff] at h
      obtain ⟨o, -, h⟩ := h
      by_cases ho : o = .gt
      · rw [if_pos ho, run_bind, Option.bind_eq_some_iff] at h
        obtain ⟨ws, hws, h⟩ := h
        cases h
        exact ((ih hws).cons y).trans (.swap x y ys)
      · rw [if_neg ho] at h
        cases h
        exact .refl _

theorem run_sort_perm {xs ys : List α} (h : (sort xs).run cmp = some ys) : ys.Perm xs := by
  induction xs generalizing ys with
  | nil =>
      cases h
      exact .refl _
  | cons x xs ih =>
      rw [sort, run_bind, Option.bind_eq_some_iff] at h
      obtain ⟨zs, hzs, h⟩ := h
      exact (run_insert_perm h).trans ((ih hzs).cons x)

theorem Within.bind {γ : Type} {s : Set α} {c : Comparing α β} {f : β → Comparing α γ}
    (hc : c.Within s) (hf : ∀ b, (f b).Within s) : (c.bind f).Within s := by
  induction hc with
  | done b => exact hf b
  | ask hx hy _ ih => exact .ask hx hy ih

theorem within_insert {s : Set α} {x : α} {ys : List α} (hx : x ∈ s) (hys : ∀ y ∈ ys, y ∈ s) :
    (insert x ys).Within s := by
  induction ys with
  | nil => exact .done _
  | cons y ys ih =>
      refine .ask hx (hys y List.mem_cons_self) fun o => ?_
      split
      · exact .bind (ih fun z hz => hys z (List.mem_cons_of_mem _ hz)) fun zs => .done _
      · exact .done _

theorem run_sort_isSome {xs : List α} (h : ∀ x ∈ xs, ∀ y ∈ xs, (cmp x y).isSome) :
    ((sort xs).run cmp).isSome := by
  induction xs with
  | nil => rfl
  | cons x xs ih =>
      obtain ⟨ys, hys⟩ := Option.isSome_iff_exists.mp
        (ih fun y hy z hz => h y (List.mem_cons_of_mem _ hy) z (List.mem_cons_of_mem _ hz))
      rw [sort, run_bind, hys, Option.bind_some]
      have hwithin : (insert x ys).Within {y | y ∈ x :: xs} :=
        within_insert List.mem_cons_self fun y hy =>
          List.mem_cons_of_mem _ ((run_sort_perm hys).mem_iff.mp hy)
      exact run_isSome h hwithin

end Comparing

end GelCli.Foundation
