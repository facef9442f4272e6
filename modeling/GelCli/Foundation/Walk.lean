import Mathlib.Logic.Relation
import Mathlib.Data.Finset.Card
import Mathlib.Data.Finset.Dedup

/-!
# Walks of a relation

Walks with their exact number of steps, acyclic relations, and the one finiteness
fact searches rest on: an acyclic relation whose steps leave finitely many
points has no walk longer than the number of those points.
-/

namespace GelCli.Foundation

universe u

variable {α : Type u}

/-- `Walk r n a b`: exactly `n` steps of `r` lead from `a` to `b`. -/
inductive Walk (r : α → α → Prop) : Nat → α → α → Prop where
  | nil (a : α) : Walk r 0 a a
  | cons {n : Nat} {a b c : α} : r a b → Walk r n b c → Walk r (n + 1) a c

/-- No point is reached from itself by one step or more. -/
def Acyclic (r : α → α → Prop) : Prop := ∀ a, ¬ Relation.TransGen r a a

variable {r : α → α → Prop}

theorem Walk.zero_iff {a b : α} : Walk r 0 a b ↔ a = b := by
  constructor
  · intro h
    cases h
    rfl
  · rintro rfl
    exact .nil a

theorem Walk.succ_iff {n : Nat} {a c : α} :
    Walk r (n + 1) a c ↔ ∃ b, r a b ∧ Walk r n b c := by
  constructor
  · intro h
    cases h with
    | cons hab hbc => exact ⟨_, hab, hbc⟩
  · rintro ⟨b, hab, hbc⟩
    exact .cons hab hbc

theorem Walk.snoc {n : Nat} {a b c : α} (h : Walk r n a b) (hbc : r b c) :
    Walk r (n + 1) a c := by
  induction h with
  | nil a => exact .cons hbc (.nil c)
  | cons hab _ ih => exact .cons hab (ih hbc)

theorem Walk.trans {m n : Nat} {a b c : α} (h : Walk r m a b) (h' : Walk r n b c) :
    Walk r (m + n) a c := by
  induction h with
  | nil a => rwa [Nat.zero_add]
  | cons hab _ ih =>
      rw [Nat.add_right_comm]
      exact .cons hab (ih h')

/-- The first step from the other end. -/
theorem Walk.snoc_iff {n : Nat} {a c : α} :
    Walk r (n + 1) a c ↔ ∃ b, Walk r n a b ∧ r b c := by
  constructor
  · intro h
    induction n generalizing a with
    | zero =>
        obtain ⟨b, hab, hbc⟩ := Walk.succ_iff.mp h
        exact ⟨a, .nil a, Walk.zero_iff.mp hbc ▸ hab⟩
    | succ n ih =>
        obtain ⟨b, hab, hbc⟩ := Walk.succ_iff.mp h
        obtain ⟨d, hbd, hdc⟩ := ih hbc
        exact ⟨d, .cons hab hbd, hdc⟩
  · rintro ⟨b, hab, hbc⟩
    exact hab.snoc hbc

theorem Walk.of_reflTransGen {a b : α} (h : Relation.ReflTransGen r a b) : ∃ n, Walk r n a b := by
  induction h with
  | refl => exact ⟨0, .nil a⟩
  | tail _ hbc ih =>
      obtain ⟨n, hn⟩ := ih
      exact ⟨n + 1, hn.snoc hbc⟩

theorem Walk.reflTransGen {n : Nat} {a b : α} (h : Walk r n a b) : Relation.ReflTransGen r a b := by
  induction h with
  | nil a => exact .refl
  | cons hab _ ih => exact .head hab ih

/-- Going round a cycle takes as many steps as one likes. -/
theorem Walk.of_cycle {a : α} (h : Relation.TransGen r a a) (n : Nat) :
    ∃ m, n ≤ m ∧ Walk r m a a := by
  obtain ⟨b, hab, hba⟩ := Relation.TransGen.head'_iff.mp h
  obtain ⟨k, hk⟩ := Walk.of_reflTransGen hba
  induction n with
  | zero => exact ⟨0, Nat.le_refl 0, .nil a⟩
  | succ n ih =>
      obtain ⟨m, hle, hm⟩ := ih
      exact ⟨k + 1 + m, by omega, (Walk.cons hab hk).trans hm⟩

/-! ## Steps on the way to a point -/

/-- The steps from whose end there is a way to `c`. -/
def Toward (r : α → α → Prop) (c : α) (a b : α) : Prop := r a b ∧ Relation.ReflTransGen r b c

theorem Walk.toward {n : Nat} {a c : α} (h : Walk r n a c) : Walk (Toward r c) n a c := by
  induction h with
  | nil a => exact .nil a
  | cons hab hbc ih => exact .cons ⟨hab, hbc.reflTransGen⟩ ih

/-- The steps toward a point have a cycle iff there is one with a way to it. -/
theorem acyclic_toward_iff {c : α} :
    Acyclic (Toward r c) ↔ ¬ ∃ a, Relation.TransGen r a a ∧ Relation.ReflTransGen r a c := by
  constructor
  · rintro h ⟨a, hcycle, hac⟩
    -- round the cycle every point still has its way to `c`
    have hlift : ∀ {b}, Relation.TransGen r b a → Relation.TransGen (Toward r c) b a := by
      intro b hb
      induction hb using Relation.TransGen.head_induction_on with
      | single hba => exact .single ⟨hba, hac⟩
      | head hbd hda ih => exact .head ⟨hbd, hda.to_reflTransGen.trans hac⟩ ih
    exact h a (hlift hcycle)
  · rintro h a hcycle
    obtain ⟨b, hab, -⟩ := Relation.TransGen.head'_iff.mp hcycle
    exact h ⟨a, hcycle.lift id fun _ _ => And.left, .head hab.1 hab.2⟩

/-- A relation that climbs a rank is acyclic. -/
theorem Acyclic.of_rank (rank : α → Nat) (h : ∀ a b, r a b → rank a < rank b) :
    Acyclic r := by
  have climb : ∀ {a b}, Relation.TransGen r a b → rank a < rank b := by
    intro a b hab
    induction hab with
    | single hab => exact h _ _ hab
    | tail _ hbc ih => exact ih.trans (h _ _ hbc)
  exact fun a ha => lt_irrefl _ (climb ha)

/-- The points a walk leaves: as many as it has steps, all reached from its
start, and without repetition when the relation is acyclic. -/
theorem Acyclic.walk_points (hr : Acyclic r) {n : Nat} {a b : α} (h : Walk r n a b) :
    ∃ l : List α, l.length = n ∧ l.Nodup ∧
      ∀ x ∈ l, Relation.ReflTransGen r a x ∧ ∃ y, r x y := by
  induction h with
  | nil a => exact ⟨[], rfl, List.nodup_nil, by simp⟩
  | @cons n a b c hab _ ih =>
      obtain ⟨l, hlen, hnd, hl⟩ := ih
      refine ⟨a :: l, by simp [hlen], List.nodup_cons.mpr ⟨?_, hnd⟩, ?_⟩
      · intro ha
        exact hr a (Relation.TransGen.head' hab (hl a ha).1)
      · intro x hx
        rcases List.mem_cons.mp hx with rfl | hx
        · exact ⟨.refl, b, hab⟩
        · exact ⟨.head hab (hl x hx).1, (hl x hx).2⟩

/-- **Finitely many sources bound every walk.** -/
theorem Acyclic.walk_length_le [DecidableEq α] (hr : Acyclic r) (sources : List α)
    (hs : ∀ a b, r a b → a ∈ sources) {n : Nat} {a b : α} (h : Walk r n a b) :
    n ≤ sources.length := by
  obtain ⟨l, rfl, hnd, hl⟩ := hr.walk_points h
  calc l.length = l.toFinset.card := (List.toFinset_card_of_nodup hnd).symm
    _ ≤ sources.toFinset.card := by
        apply Finset.card_le_card
        intro x hx
        obtain ⟨y, hxy⟩ := (hl x (List.mem_toFinset.mp hx)).2
        exact List.mem_toFinset.mpr (hs x y hxy)
    _ ≤ sources.length := List.toFinset_card_le sources

end GelCli.Foundation
