import Mathlib.Logic.Function.Basic

/-!
# Things that one party uses at a time

Parties stand in phases, in some of which they use the thing that their key names.
`Sole` says that no two parties use the same thing. It stays so when a party goes on
using it, stops, or starts while no other party does.
-/

namespace GelCli.Foundation

universe u v w

variable {Party : Type u} {Phase : Type v} {Key : Type w} [DecidableEq Party]

def Sole (use : Phase → Bool) (key : Party → Key) (phase : Party → Phase) : Prop :=
  ∀ p q, use (phase p) = true → use (phase q) = true → key p = key q → p = q

namespace Sole

variable {use : Phase → Bool} {key : Party → Key} {phase : Party → Phase} {p q : Party}
  {new : Phase}

omit [DecidableEq Party] in
/-- No other party uses what `p` uses. -/
theorem alone (h : Sole use key phase) (hp : use (phase p) = true) (hne : q ≠ p)
    (hkey : key q = key p) : use (phase q) = false := by
  by_contra hq
  exact hne (h q p (Bool.not_eq_false _ ▸ hq) hp hkey)

theorem update (h : Sole use key phase)
    (hnew : use new = true → use (phase p) = true ∨
      ∀ q, q ≠ p → key q = key p → use (phase q) = false) :
    Sole use key (Function.update phase p new) := by
  have hself : use new = true → ∀ q, q ≠ p → key q = key p → use (phase q) = false := by
    intro huse
    rcases hnew huse with hp | hnone
    · exact fun q hne hkey => h.alone hp hne hkey
    · exact hnone
  intro q r hq hr hkey
  rcases eq_or_ne q p with rfl | hqp
  · rcases eq_or_ne r q with rfl | hrq
    · rfl
    · rw [Function.update_self] at hq
      rw [Function.update_of_ne hrq, hself hq r hrq hkey.symm] at hr
      cases hr
  · rw [Function.update_of_ne hqp] at hq
    rcases eq_or_ne r p with rfl | hrp
    · rw [Function.update_self] at hr
      rw [hself hr q hqp hkey] at hq
      cases hq
    · rw [Function.update_of_ne hrp] at hr
      exact h q r hq hr hkey

end Sole

end GelCli.Foundation
