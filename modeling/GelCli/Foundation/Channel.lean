import Mathlib.Data.List.Basic

/-!
# Unbounded channels

The queue of a channel with many senders and one receiver. A channel is disconnected
for the receiver when no sender is left and the queue is empty: what was queued before
the last sender went is still received.
-/

namespace GelCli.Foundation

universe u

structure Channel (α : Type u) where
  queue : List α
  senders : Nat
  deriving DecidableEq

inductive TryRecvError where
  | empty
  | disconnected
  deriving DecidableEq

namespace Channel

variable {α : Type u} {c c' : Channel α} {a : α}

/-- A channel with one sender. -/
def new : Channel α := { queue := [], senders := 1 }

def send (c : Channel α) (a : α) : Option (Channel α) :=
  if c.senders = 0 then none else some { c with queue := c.queue ++ [a] }

def cloneSender (c : Channel α) : Option (Channel α) :=
  if c.senders = 0 then none else some { c with senders := c.senders + 1 }

def dropSender (c : Channel α) : Option (Channel α) :=
  if c.senders = 0 then none else some { c with senders := c.senders - 1 }

def tryRecv (c : Channel α) : Except TryRecvError (α × Channel α) :=
  match c.queue with
  | a :: queue => .ok (a, { c with queue := queue })
  | [] => .error (if c.senders = 0 then .disconnected else .empty)

theorem send_eq_some : c.send a = some c' ↔
    c.senders ≠ 0 ∧ c' = { c with queue := c.queue ++ [a] } := by
  unfold send
  by_cases h : c.senders = 0 <;> simp [h, eq_comm]

theorem cloneSender_eq_some : c.cloneSender = some c' ↔
    c.senders ≠ 0 ∧ c' = { c with senders := c.senders + 1 } := by
  unfold cloneSender
  by_cases h : c.senders = 0 <;> simp [h, eq_comm]

theorem dropSender_eq_some : c.dropSender = some c' ↔
    c.senders ≠ 0 ∧ c' = { c with senders := c.senders - 1 } := by
  unfold dropSender
  by_cases h : c.senders = 0 <;> simp [h, eq_comm]

theorem tryRecv_eq_ok (h : c.tryRecv = .ok (a, c')) :
    c.queue = a :: c'.queue ∧ c'.senders = c.senders := by
  unfold tryRecv at h
  cases hqueue : c.queue with
  | nil =>
      rw [hqueue] at h
      cases h
  | cons b queue =>
      rw [hqueue] at h
      cases h
      exact ⟨rfl, rfl⟩

theorem tryRecv_eq_empty (h : c.tryRecv = .error .empty) : c.queue = [] ∧ c.senders ≠ 0 := by
  unfold tryRecv at h
  cases hqueue : c.queue with
  | nil =>
      rw [hqueue] at h
      by_cases hsenders : c.senders = 0
      · rw [if_pos hsenders] at h
        cases h
      · exact ⟨rfl, hsenders⟩
  | cons b queue =>
      rw [hqueue] at h
      cases h

theorem tryRecv_eq_disconnected (h : c.tryRecv = .error .disconnected) :
    c.queue = [] ∧ c.senders = 0 := by
  unfold tryRecv at h
  cases hqueue : c.queue with
  | nil =>
      rw [hqueue] at h
      by_cases hsenders : c.senders = 0
      · exact ⟨rfl, hsenders⟩
      · rw [if_neg hsenders] at h
        cases h
  | cons b queue =>
      rw [hqueue] at h
      cases h

end Channel

end GelCli.Foundation
