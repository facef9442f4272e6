import Mathlib.Data.Nat.Find
import Mathlib.Data.Set.Insert

/-!
# Numbered series

Entries that are published under the numbers of a series. A number is chosen from what is
published at some time, and is used later or never; in between others may have been used, the
same number too. A choice stays good (`Ready.mono`), and if its number is still free when it
is used, the numbers stay without gaps and no entry is published twice (`Sound.insert`).
-/

namespace GelCli.Foundation.Series

universe u

variable {κ : Type u} {s t : Set (ℕ × κ)} {n : ℕ} {c : κ}

/-- The numbers of a series are `1, 2, …` without a gap, and its entries do not repeat. -/
structure Sound (s : Set (ℕ × κ)) : Prop where
  pos : ∀ {n c}, (n, c) ∈ s → 0 < n
  below : ∀ {m n c}, (n, c) ∈ s → 0 < m → m ≤ n → ∃ b, (m, b) ∈ s
  single : ∀ {n b c}, (n, b) ∈ s → (n, c) ∈ s → b = c
  once : ∀ {m n c}, (m, c) ∈ s → (n, c) ∈ s → m = n

/-- A number that may be used for an entry: the ones before it are used, for others. -/
structure Ready (s : Set (ℕ × κ)) (n : ℕ) (c : κ) : Prop where
  pos : 0 < n
  before : ∀ m, 0 < m → m < n → ∃ b, (m, b) ∈ s
  others : ∀ m, m < n → (m, c) ∉ s

theorem sound_empty : Sound (∅ : Set (ℕ × κ)) :=
  ⟨fun h => h.elim, fun h => h.elim, fun h => h.elim, fun h => h.elim⟩

/-- The number behind one that is used, for an entry that is not published. -/
theorem Sound.ready (hs : Sound s) (hn : n = 0 ∨ ∃ b, (n, b) ∈ s) (hc : ∀ m, (m, c) ∉ s) :
    Ready s (n + 1) c := by
  refine ⟨Nat.succ_pos n, fun m hpos hlt => ?_, fun m _ => hc m⟩
  rcases hn with rfl | ⟨b, hb⟩
  · omega
  · exact hs.below hb hpos (Nat.lt_succ_iff.mp hlt)

/-- A choice stays good while others are used. -/
theorem Ready.mono (h : Ready s n c) (ht : Sound t) (hst : s ⊆ t) : Ready t n c := by
  refine ⟨h.pos, fun m hpos hlt => ?_, fun m hlt hm => ?_⟩
  · obtain ⟨b, hb⟩ := h.before m hpos hlt
    exact ⟨b, hst hb⟩
  · -- the number has been used for something else
    obtain ⟨b, hb⟩ := h.before m (ht.pos hm) hlt
    cases ht.single (hst hb) hm
    exact h.others m hlt hb

/-- **A choice is used while its number is free.** -/
theorem Sound.insert (hs : Sound s) (h : Ready s n c) (hfree : ∀ b, (n, b) ∉ s) :
    Sound (insert (n, c) s) := by
  have hbelow : ∀ {m}, (m, c) ∈ s → m ≠ n := by
    intro m hm hmn
    exact hfree c (hmn ▸ hm)
  have hnew : ∀ {m}, (m, c) ∉ s := by
    intro m hm
    rcases Nat.lt_or_gt_of_ne (hbelow hm) with hlt | hgt
    · exact h.others m hlt hm
    · obtain ⟨b, hb⟩ := hs.below hm h.pos hgt.le
      exact hfree b hb
  refine ⟨fun hm => ?_, fun hm hpos hle => ?_, fun hm hm' => ?_, fun hm hm' => ?_⟩
  · rcases hm with hm | hm
    · cases hm
      exact h.pos
    · exact hs.pos hm
  · rcases hm with hm | hm
    · cases hm
      rcases Nat.lt_or_eq_of_le hle with hlt | heq
      · obtain ⟨b, hb⟩ := h.before _ hpos hlt
        exact ⟨b, Or.inr hb⟩
      · exact ⟨c, Or.inl (by rw [heq])⟩
    · obtain ⟨b, hb⟩ := hs.below hm hpos hle
      exact ⟨b, Or.inr hb⟩
  · rcases hm with hm | hm <;> rcases hm' with hm' | hm'
    · cases hm
      cases hm'
      rfl
    · cases hm
      exact absurd hm' (hfree _)
    · cases hm'
      exact absurd hm (hfree _)
    · exact hs.single hm hm'
  · rcases hm with hm | hm <;> rcases hm' with hm' | hm'
    · cases hm
      cases hm'
      rfl
    · cases hm
      exact absurd hm' hnew
    · cases hm'
      exact absurd hm hnew
    · exact hs.once hm hm'

/-- The numbers of a finite series are those up to the last one. -/
theorem Sound.exists_last (hs : Sound s) (hbound : ∃ b, ∀ n c, (n, c) ∈ s → n ≤ b) :
    ∃ k, ∀ n, (∃ c, (n, c) ∈ s) ↔ 1 ≤ n ∧ n ≤ k := by
  classical
  obtain ⟨b, hb⟩ := hbound
  have hfree : ∃ k, ∀ c, (k + 1, c) ∉ s := by
    refine ⟨b, fun c hc => ?_⟩
    have := hb _ _ hc
    omega
  refine ⟨Nat.find hfree, fun n => ⟨?_, ?_⟩⟩
  · rintro ⟨c, hc⟩
    refine ⟨hs.pos hc, ?_⟩
    by_contra hlt
    obtain ⟨d, hd⟩ := hs.below hc (Nat.succ_pos _) (Nat.succ_le_of_lt (not_le.mp hlt))
    exact Nat.find_spec hfree d hd
  · rintro ⟨hpos, hle⟩
    obtain ⟨m, rfl⟩ := Nat.exists_eq_succ_of_ne_zero (Nat.pos_iff_ne_zero.mp hpos)
    have hused := Nat.find_min hfree (Nat.lt_of_succ_le hle)
    simpa using hused

end GelCli.Foundation.Series
