import Mathlib.Data.List.Basic
import Mathlib.Data.List.Induction
import Mathlib.Data.List.TakeDrop
import GelCli.Foundation.Results

/-!
# Files whose writes are deferred

A write hands a chunk over and returns; the chunk is written while the program goes on.
The outcome is reported by the next write, which waits for it. So nothing reports the
outcome of the last one.
-/

namespace GelCli.Foundation

universe u w

/-- What becomes of a chunk that was handed over: it is written; it fails when so many of
its values are written; or it will be written, but only so many values are there when the
program stops waiting. -/
inductive Fate where
  | written
  | failed (k : Nat)
  | late (k : Nat)
deriving DecidableEq, Repr

namespace Fate

def isFailed : Fate → Bool
  | failed _ => true
  | _ => false

/-- The values of the chunk that are there when nobody waits for the rest. -/
def left {α : Type u} (chunk : List α) : Fate → List α
  | written => chunk
  | failed k | late k => chunk.take k

/-- All of a chunk of the given length is there. -/
def Lasts (n : Nat) : Fate → Prop
  | written => True
  | failed k | late k => n ≤ k

theorem left_eq_self {α : Type u} {chunk : List α} {fate : Fate} :
    fate.left chunk = chunk ↔ fate.Lasts chunk.length := by
  cases fate with
  | written => exact iff_of_true rfl trivial
  | failed k => exact List.take_eq_self_iff chunk
  | late k => exact List.take_eq_self_iff chunk

end Fate

/-- Which chunks are taken, and what becomes of them, by their numbers. -/
structure Medium where
  accepts : Nat → Bool
  fate : Nat → Fate

/-- A file with what is written, the chunk in flight and how many were handed over. -/
structure DeferredFile (α : Type u) where
  written : List α
  inFlight : Option (List α)
  handed : Nat

namespace DeferredFile

variable {α : Type u} {ε : Type w} (m : Medium) (e : ε)

/-- An empty file. -/
def empty : DeferredFile α := ⟨[], none, 0⟩

/-- Waits for the chunk in flight; an error comes with the file as it is then. -/
def settle (f : DeferredFile α) : Except (DeferredFile α × ε) (DeferredFile α) :=
  match f.inFlight with
  | none => .ok f
  | some chunk =>
      match m.fate (f.handed - 1) with
      | .failed k => .error (⟨f.written ++ chunk.take k, none, f.handed⟩, e)
      | _ => .ok ⟨f.written ++ chunk, none, f.handed⟩

/-- Hands over one chunk. -/
def put (f : DeferredFile α) (chunk : List α) : Except (DeferredFile α × ε) (DeferredFile α) :=
  match f.settle m e with
  | .error failure => .error failure
  | .ok f =>
      if m.accepts f.handed then .ok ⟨f.written, some chunk, f.handed + 1⟩ else .error (f, e)

/-- What is on the file when nobody waits for the chunk in flight. -/
def contents (f : DeferredFile α) : List α :=
  f.written ++ (f.inFlight.map fun chunk => (m.fate (f.handed - 1)).left chunk).getD []

/-! ## Chunks one after the other -/

/-- The file when these chunks have been handed over. -/
def after (chunks : List (List α)) : DeferredFile α :=
  ⟨chunks.dropLast.flatten, chunks.getLast?, chunks.length⟩

/-- So many chunks can be handed over: all are taken, and none but the last one fails. -/
structure Carries (m : Medium) (n : Nat) : Prop where
  accepts : ∀ i < n, m.accepts i = true
  written : ∀ i, i + 1 < n → (m.fate i).isFailed = false

variable {m e}

theorem settle_after {chunks : List (List α)} {f : DeferredFile α} :
    (after chunks).settle m e = .ok f ↔
      (chunks ≠ [] → (m.fate (chunks.length - 1)).isFailed = false) ∧
        f = ⟨chunks.flatten, none, chunks.length⟩ := by
  rcases List.eq_nil_or_concat' chunks with rfl | ⟨front, last, rfl⟩
  · constructor
    · intro h
      cases h
      exact ⟨fun h => absurd rfl h, rfl⟩
    · rintro ⟨-, rfl⟩
      rfl
  · have hafter : after (front ++ [last]) = ⟨front.flatten, some last, front.length + 1⟩ := by
      simp [after]
    rw [hafter, settle]
    simp only [List.flatten_concat, List.length_append, List.length_singleton, Nat.add_sub_cancel,
      ne_eq, List.append_eq_nil_iff, List.cons_ne_self, and_false, not_false_eq_true, forall_const]
    cases m.fate front.length with
    | failed k => simp [Fate.isFailed]
    | written => simp [Fate.isFailed, eq_comm]
    | late k => simp [Fate.isFailed, eq_comm]

theorem put_after {chunks : List (List α)} {chunk : List α} {f : DeferredFile α} :
    (after chunks).put m e chunk = .ok f ↔
      ((chunks ≠ [] → (m.fate (chunks.length - 1)).isFailed = false) ∧
        m.accepts chunks.length = true) ∧ f = after (chunks ++ [chunk]) := by
  have hafter : after (chunks ++ [chunk]) =
      ⟨chunks.flatten, some chunk, chunks.length + 1⟩ := by
    simp [after]
  rw [put, hafter]
  cases hsettle : (after chunks).settle m e with
  | error failure =>
      constructor
      · intro h
        cases h
      · rintro ⟨⟨hfate, -⟩, -⟩
        rw [settle_after.mpr ⟨hfate, rfl⟩] at hsettle
        cases hsettle
  | ok settled =>
      obtain ⟨hfate, rfl⟩ := settle_after.mp hsettle
      show (if m.accepts chunks.length then _ else _) = _ ↔ _
      by_cases haccepts : m.accepts chunks.length = true
      · rw [if_pos haccepts]
        constructor
        · intro h
          exact ⟨⟨hfate, haccepts⟩, (Except.ok.inj h).symm⟩
        · rintro ⟨-, rfl⟩
          rfl
      · rw [if_neg haccepts]
        constructor
        · intro h
          cases h
        · rintro ⟨⟨-, h⟩, -⟩
          exact absurd h haccepts

theorem carries_succ {n : Nat} : Carries m (n + 1) ↔
    Carries m n ∧ (n ≠ 0 → (m.fate (n - 1)).isFailed = false) ∧ m.accepts n = true := by
  constructor
  · rintro ⟨haccepts, hwritten⟩
    refine ⟨⟨fun i hi => haccepts i (by omega), fun i hi => hwritten i (by omega)⟩,
      fun hn => hwritten (n - 1) (by omega), haccepts n (by omega)⟩
  · rintro ⟨⟨haccepts, hwritten⟩, hfate, hlast⟩
    refine ⟨fun i hi => ?_, fun i hi => ?_⟩
    · rcases Nat.lt_succ_iff_lt_or_eq.mp hi with hi | rfl
      · exact haccepts i hi
      · exact hlast
    · rcases Nat.lt_succ_iff_lt_or_eq.mp hi with hi | rfl
      · exact hwritten i hi
      · exact hfate (Nat.succ_ne_zero i)

/-- Chunks are handed over one after the other exactly if the medium carries them. -/
theorem foldlM_put {chunks : List (List α)} {f : DeferredFile α} :
    chunks.foldlM (put m e) empty = .ok f ↔ Carries m chunks.length ∧ f = after chunks := by
  induction chunks using List.reverseRecOn generalizing f with
  | nil =>
      constructor
      · intro h
        cases h
        exact ⟨⟨fun i hi => absurd hi (Nat.not_lt_zero i), fun i hi => by cases hi⟩, rfl⟩
      · rintro ⟨-, rfl⟩
        rfl
  | append_singleton chunks chunk ih =>
      rw [List.foldlM_append, bind_eq_ok, List.length_append, List.length_singleton, carries_succ]
      constructor
      · rintro ⟨g, hg, hput⟩
        obtain ⟨hcarries, rfl⟩ := ih.mp hg
        rw [List.foldlM_cons, bind_eq_ok] at hput
        obtain ⟨f', hput, hf⟩ := hput
        obtain rfl := Except.ok.inj hf
        obtain ⟨⟨hfate, haccepts⟩, rfl⟩ := put_after.mp hput
        exact ⟨⟨hcarries, fun h => hfate fun hnil => h (by rw [hnil]; rfl), haccepts⟩, rfl⟩
      · rintro ⟨⟨hcarries, hfate, haccepts⟩, rfl⟩
        refine ⟨_, ih.mpr ⟨hcarries, rfl⟩, ?_⟩
        rw [List.foldlM_cons, put_after.mpr ⟨⟨fun h => hfate fun hzero =>
          h (List.length_eq_zero_iff.mp hzero), haccepts⟩, rfl⟩]
        rfl

/-- All is on the file if all of the last chunk is. -/
theorem contents_after {chunks : List (List α)} :
    (after chunks).contents m = chunks.flatten ↔
      ∀ last ∈ chunks.getLast?, (m.fate (chunks.length - 1)).Lasts last.length := by
  rcases List.eq_nil_or_concat' chunks with rfl | ⟨front, last, rfl⟩
  · exact iff_of_true rfl fun last h => by cases h
  · have hafter : after (front ++ [last]) = ⟨front.flatten, some last, front.length + 1⟩ := by
      simp [after]
    rw [hafter, contents, Option.map_some, Option.getD_some, List.flatten_concat,
      List.append_cancel_left_eq, Fate.left_eq_self, List.getLast?_concat, List.length_append]
    exact ⟨fun h last' hlast => Option.some.inj hlast ▸ h, fun h => h last rfl⟩

end DeferredFile

end GelCli.Foundation
