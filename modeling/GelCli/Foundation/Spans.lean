import GelCli.Foundation.ByteIndex
import Mathlib.Data.List.Basic

/-!
# Spans

Pieces of a text, given by the byte positions where they start and end. Spans that lie
one behind the other lay the text out: a gap before each piece, and what is left behind
the last.
-/

namespace GelCli.Foundation.Text

abbrev Span := Nat × Nat

/-- A position between two characters, or at an end of the text. -/
def IsBoundary (t : Text) (n : Nat) : Prop := ∃ a b, splitAtByte t n = some (a, b)

/-- Each span ends before the next one starts. -/
structure Ordered (t : Text) (spans : List Span) : Prop where
  cuts : ∀ s ∈ spans, s.1 ≤ s.2 ∧ IsBoundary t s.1 ∧ IsBoundary t s.2
  ordered : spans.Pairwise fun a b => a.2 ≤ b.1

/-- The spans lie in `rest`, which stands behind `before`. -/
inductive Laid : Text → Text → List Span → Prop
  | done (before rest : Text) : Laid before rest []
  | piece {before gap piece rest : Text} {spans : List Span} :
      Laid (before ++ gap ++ piece) rest spans →
      Laid before (gap ++ piece ++ rest)
        ((byteLen (before ++ gap), byteLen (before ++ gap ++ piece)) :: spans)

theorem isBoundary_append (a b : Text) : IsBoundary (a ++ b) (byteLen a) :=
  ⟨a, b, splitAtByte_append a b⟩

theorem IsBoundary.exists_append {t : Text} {n : Nat} (h : IsBoundary t n) :
    ∃ a b, t = a ++ b ∧ byteLen a = n := by
  obtain ⟨a, b, hsplit⟩ := h
  exact ⟨a, b, splitAtByte_eq_some.mp hsplit⟩

/-- A cut that is no earlier than another one lies in the part behind it. -/
theorem IsBoundary.behind {before rest : Text} {n : Nat} (h : IsBoundary (before ++ rest) n)
    (hn : byteLen before ≤ n) :
    ∃ a b, rest = a ++ b ∧ byteLen (before ++ a) = n := by
  obtain ⟨u, v, heq, rfl⟩ := h.exists_append
  rcases List.append_eq_append_iff.mp heq with ⟨a, rfl, rfl⟩ | ⟨a, rfl, rfl⟩
  · exact ⟨a, v, rfl, rfl⟩
  · have ha : byteLen a = 0 := by
      rw [byteLen_append] at hn
      omega
    obtain rfl : a = [] := List.length_eq_zero_iff.mp (by have := length_le_byteLen a; omega)
    exact ⟨[], rest, rfl, by simp⟩

/-- **Ordered spans lay the text out.** -/
theorem Ordered.laid {before rest : Text} {spans : List Span}
    (h : Ordered (before ++ rest) spans) (hfirst : ∀ s ∈ spans, byteLen before ≤ s.1) :
    Laid before rest spans := by
  induction spans generalizing before rest with
  | nil => exact .done before rest
  | cons s spans ih =>
      obtain ⟨hle, hstart, hstop⟩ := h.cuts s List.mem_cons_self
      obtain ⟨hbehind, hordered⟩ := List.pairwise_cons.mp h.ordered
      obtain ⟨gap, rest, rfl, hgap⟩ := hstart.behind (hfirst s List.mem_cons_self)
      rw [← List.append_assoc] at hstop
      obtain ⟨piece, rest, rfl, hpiece⟩ := hstop.behind (by omega)
      obtain rfl : s = (byteLen (before ++ gap), byteLen (before ++ gap ++ piece)) :=
        Prod.ext hgap.symm hpiece.symm
      rw [← List.append_assoc]
      refine .piece (ih ⟨?_, hordered⟩ hbehind)
      intro s hs
      have hcut := h.cuts s (List.mem_cons_of_mem _ hs)
      simpa only [List.append_assoc] using hcut

theorem Laid.starts_le {before rest : Text} {spans : List Span} (h : Laid before rest spans) :
    ∀ s ∈ spans, byteLen before ≤ s.1 := by
  induction h with
  | done => exact fun s hs => absurd hs List.not_mem_nil
  | piece _ ih =>
      intro s hs
      rcases List.mem_cons.mp hs with rfl | hs
      · simp
      · have hle := ih s hs
        simp only [byteLen_append] at hle
        omega

theorem Laid.ordered {before rest : Text} {spans : List Span} (h : Laid before rest spans) :
    Ordered (before ++ rest) spans := by
  induction h with
  | done => exact ⟨fun s hs => absurd hs List.not_mem_nil, List.Pairwise.nil⟩
  | @piece before gap piece rest spans hlaid ih =>
      have hstart := isBoundary_append (before ++ gap) (piece ++ rest)
      have hstop := isBoundary_append (before ++ gap ++ piece) rest
      simp only [List.append_assoc] at ih hstart hstop ⊢
      refine ⟨?_, List.pairwise_cons.mpr ⟨?_, ih.ordered⟩⟩
      · intro s hs
        rcases List.mem_cons.mp hs with rfl | hs
        · exact ⟨by simp only [byteLen_append]; omega, hstart, hstop⟩
        · exact ih.cuts s hs
      · intro s hs
        have hle := hlaid.starts_le s hs
        simpa only [List.append_assoc] using hle

end GelCli.Foundation.Text
