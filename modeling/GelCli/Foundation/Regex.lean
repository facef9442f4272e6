import GelCli.Foundation.Text

/-!
# Regular expressions

Patterns as a backtracking matcher tries them: the ways to match at the front of a
text, in the order of preference, with what each group took. A search that is anchored
in front takes the first way.
-/

namespace GelCli.Foundation

/-- Patterns with groups that are called `κ`; only a character class is repeated. -/
inductive Regex (κ : Type) where
  | word (w : Text)
  | set (p : Char → Bool)
  | plus (p : Char → Bool)
  | seq (r s : Regex κ)
  | alt (r s : Regex κ)
  | opt (r : Regex κ)
  | group (k : κ) (r : Regex κ)
  | atEnd

namespace Regex

variable {κ : Type}

/-- One way to match: the groups, the characters taken and those left. -/
structure Way (κ : Type) where
  groups : List (κ × Text)
  taken : Text
  rest : Text

/-- The runs of `p` at the front, the longest first. -/
def runs (p : Char → Bool) : Text → List (Text × Text)
  | [] => []
  | c :: t => if p c then (runs p t).map (fun x => (c :: x.1, x.2)) ++ [([c], t)] else []

def run : Regex κ → Text → List (Way κ)
  | .word w, t => if w <+: t then [⟨[], w, t.drop w.length⟩] else []
  | .set p, c :: t => if p c then [⟨[], [c], t⟩] else []
  | .set _, [] => []
  | .plus p, t => (runs p t).map fun x => ⟨[], x.1, x.2⟩
  | .seq r s, t => (r.run t).flatMap fun a => (s.run a.rest).map fun b =>
      ⟨a.groups ++ b.groups, a.taken ++ b.taken, b.rest⟩
  | .alt r s, t => r.run t ++ s.run t
  | .opt r, t => r.run t ++ [⟨[], [], t⟩]
  | .group k r, t => (r.run t).map fun a => { a with groups := (k, a.taken) :: a.groups }
  | .atEnd, t => if t = [] then [⟨[], [], []⟩] else []

def isMatch (r : Regex κ) (t : Text) : Bool := !(r.run t).isEmpty

def captures (r : Regex κ) (t : Text) : Option (List (κ × Text)) :=
  (r.run t).head?.map Way.groups

/-- `r{n}` -/
def times (r : Regex κ) : Nat → Regex κ
  | 0 => .word []
  | n + 1 => .seq r (r.times n)

/-- The first of the words that fits. -/
def words (w : Text) : List Text → Regex κ
  | [] => .word w
  | w' :: ws => .alt (.word w) (words w' ws)

/-! ## What a pattern takes -/

/-- The pattern can take what stands in front of `rest`, with the groups `g`. -/
def Reads : Regex κ → List (κ × Text) → Text → Text → Prop
  | .word w, g, t, rest => g = [] ∧ t = w ++ rest
  | .set p, g, t, rest => g = [] ∧ ∃ c, p c ∧ t = c :: rest
  | .plus p, g, t, rest => g = [] ∧ ∃ u, u ≠ [] ∧ (∀ c ∈ u, p c) ∧ t = u ++ rest
  | .seq r s, g, t, rest => ∃ g₁ mid g₂, r.Reads g₁ t mid ∧ s.Reads g₂ mid rest ∧ g = g₁ ++ g₂
  | .alt r s, g, t, rest => r.Reads g t rest ∨ s.Reads g t rest
  | .opt r, g, t, rest => r.Reads g t rest ∨ g = [] ∧ t = rest
  | .group k r, g, t, rest => ∃ g' u, r.Reads g' t rest ∧ t = u ++ rest ∧ g = (k, u) :: g'
  | .atEnd, g, t, rest => g = [] ∧ t = [] ∧ rest = []

section

variable {g : List (κ × Text)} {t rest : Text}

theorem reads_word {w : Text} : (word w : Regex κ).Reads g t rest ↔ g = [] ∧ t = w ++ rest :=
  Iff.rfl

theorem reads_set {p : Char → Bool} :
    (set p : Regex κ).Reads g t rest ↔ g = [] ∧ ∃ c, p c ∧ t = c :: rest :=
  Iff.rfl

theorem reads_plus {p : Char → Bool} : (plus p : Regex κ).Reads g t rest ↔
    g = [] ∧ ∃ u, u ≠ [] ∧ (∀ c ∈ u, p c) ∧ t = u ++ rest :=
  Iff.rfl

theorem reads_seq {r s : Regex κ} : (seq r s).Reads g t rest ↔
    ∃ g₁ mid g₂, r.Reads g₁ t mid ∧ s.Reads g₂ mid rest ∧ g = g₁ ++ g₂ :=
  Iff.rfl

theorem reads_alt {r s : Regex κ} :
    (alt r s).Reads g t rest ↔ r.Reads g t rest ∨ s.Reads g t rest :=
  Iff.rfl

theorem reads_opt {r : Regex κ} :
    (opt r).Reads g t rest ↔ r.Reads g t rest ∨ g = [] ∧ t = rest :=
  Iff.rfl

theorem reads_group {k : κ} {r : Regex κ} : (group k r).Reads g t rest ↔
    ∃ g' u, r.Reads g' t rest ∧ t = u ++ rest ∧ g = (k, u) :: g' :=
  Iff.rfl

theorem reads_atEnd : (atEnd : Regex κ).Reads g t rest ↔ g = [] ∧ t = [] ∧ rest = [] :=
  Iff.rfl

end

theorem Reads.suffix {r : Regex κ} {g : List (κ × Text)} {t rest : Text} (h : r.Reads g t rest) :
    ∃ u, t = u ++ rest := by
  induction r generalizing g t rest with
  | word w => exact ⟨w, h.2⟩
  | set p =>
      obtain ⟨-, c, -, rfl⟩ := h
      exact ⟨[c], rfl⟩
  | plus p =>
      obtain ⟨-, u, -, -, rfl⟩ := h
      exact ⟨u, rfl⟩
  | seq r s ihr ihs =>
      obtain ⟨g₁, mid, g₂, hr, hs, -⟩ := h
      obtain ⟨u, rfl⟩ := ihr hr
      obtain ⟨v, rfl⟩ := ihs hs
      exact ⟨u ++ v, by rw [List.append_assoc]⟩
  | alt r s ihr ihs => exact h.elim ihr ihs
  | opt r ih =>
      rcases h with h | ⟨-, rfl⟩
      · exact ih h
      · exact ⟨[], rfl⟩
  | group k r ih =>
      obtain ⟨g', u, -, rfl, -⟩ := h
      exact ⟨u, rfl⟩
  | atEnd => exact ⟨[], by rw [h.2.1, h.2.2]; rfl⟩

theorem mem_runs {p : Char → Bool} {t u rest : Text} :
    (u, rest) ∈ runs p t ↔ t = u ++ rest ∧ u ≠ [] ∧ ∀ c ∈ u, p c := by
  induction t generalizing u with
  | nil =>
      constructor
      · intro h
        cases h
      · rintro ⟨ht, hne, -⟩
        exact absurd (List.append_eq_nil_iff.mp ht.symm).1 hne
  | cons c t ih =>
      by_cases hc : p c
      · -- a way through takes `c` and stops, or goes on with a run of the rest
        cases u with
        | nil => simp [runs, hc]
        | cons d u =>
            cases u with
            | nil =>
                simp only [runs, hc, if_true, List.mem_append, List.mem_map, List.mem_singleton]
                constructor
                · rintro (⟨⟨u', rest'⟩, hmem, heq⟩ | heq)
                  · cases heq
                    exact absurd rfl (ih.mp hmem).2.1
                  · cases heq
                    exact ⟨rfl, by simp, by simpa using hc⟩
                · rintro ⟨ht, -, -⟩
                  obtain ⟨rfl, rfl⟩ := List.cons.inj ht
                  exact Or.inr rfl
            | cons e u =>
                simp only [runs, hc, if_true, List.mem_append, List.mem_map, List.mem_singleton]
                constructor
                · rintro (⟨⟨u', rest'⟩, hmem, heq⟩ | heq)
                  · cases heq
                    obtain ⟨rfl, -, hall⟩ := ih.mp hmem
                    exact ⟨rfl, by simp, List.forall_mem_cons.mpr ⟨hc, hall⟩⟩
                  · cases heq
                · rintro ⟨ht, -, hall⟩
                  obtain ⟨rfl, rfl⟩ := List.cons.inj ht
                  exact Or.inl ⟨(e :: u, rest),
                    ih.mpr ⟨rfl, by simp, (List.forall_mem_cons.mp hall).2⟩, rfl⟩
      · simp only [runs, hc]
        constructor
        · intro h
          cases h
        · rintro ⟨ht, hne, hall⟩
          cases u with
          | nil => exact absurd rfl hne
          | cons d u =>
              obtain ⟨rfl, -⟩ := List.cons.inj ht
              exact absurd (hall c List.mem_cons_self) hc

/-- The ways of a pattern are what it can take. -/
theorem mem_run {r : Regex κ} {t : Text} {a : Way κ} :
    a ∈ r.run t ↔ t = a.taken ++ a.rest ∧ r.Reads a.groups t a.rest := by
  induction r generalizing t a with
  | word w =>
      obtain ⟨g, u, rest⟩ := a
      simp only [run, reads_word, List.mem_ite_nil_right, List.mem_singleton, Way.mk.injEq]
      constructor
      · rintro ⟨⟨s, rfl⟩, rfl, rfl, rfl⟩
        exact ⟨by simp, rfl, by simp⟩
      · rintro ⟨rfl, rfl, hw⟩
        obtain rfl := List.append_cancel_right hw
        exact ⟨⟨rest, rfl⟩, rfl, rfl, by simp⟩
  | set p =>
      obtain ⟨g, u, rest⟩ := a
      cases t with
      | nil =>
          simp only [run, reads_set]
          constructor
          · intro h
            cases h
          · rintro ⟨-, -, c, -, h⟩
            cases h
      | cons c t =>
          simp only [run, reads_set, List.mem_ite_nil_right, List.mem_singleton, Way.mk.injEq]
          constructor
          · rintro ⟨hc, rfl, rfl, rfl⟩
            exact ⟨rfl, rfl, c, hc, rfl⟩
          · rintro ⟨ht, rfl, d, hd, hcons⟩
            cases hcons
            obtain rfl : [c] = u := List.append_cancel_right ht
            exact ⟨hd, rfl, rfl, rfl⟩
  | plus p =>
      obtain ⟨g, u, rest⟩ := a
      simp only [run, reads_plus, List.mem_map, Way.mk.injEq]
      constructor
      · rintro ⟨⟨u', rest'⟩, hmem, rfl, rfl, rfl⟩
        obtain ⟨ht, hne, hall⟩ := mem_runs.mp hmem
        exact ⟨ht, rfl, u', hne, hall, ht⟩
      · rintro ⟨ht, rfl, u', hne, hall, ht'⟩
        obtain rfl := List.append_cancel_right (ht'.symm.trans ht)
        exact ⟨(u', rest), mem_runs.mpr ⟨ht, hne, hall⟩, rfl, rfl, rfl⟩
  | seq r s ihr ihs =>
      obtain ⟨g, u, rest⟩ := a
      simp only [run, reads_seq, List.mem_flatMap, List.mem_map, Way.mk.injEq]
      constructor
      · rintro ⟨a, ha, b, hb, rfl, rfl, rfl⟩
        obtain ⟨ht, hr⟩ := ihr.mp ha
        obtain ⟨hrest, hs⟩ := ihs.mp hb
        refine ⟨?_, a.groups, a.rest, b.groups, hr, hs, rfl⟩
        rw [ht, hrest, List.append_assoc]
      · -- the two parts are cut where the first one stops reading
        rintro ⟨rfl, g₁, mid, g₂, hr, hs, rfl⟩
        obtain ⟨u₁, hu⟩ := hr.suffix
        obtain ⟨u₂, rfl⟩ := hs.suffix
        rw [← List.append_assoc] at hu
        obtain rfl := List.append_cancel_right hu
        exact ⟨⟨g₁, u₁, u₂ ++ rest⟩, ihr.mpr ⟨by simp, hr⟩, ⟨g₂, u₂, rest⟩,
          ihs.mpr ⟨rfl, hs⟩, rfl, rfl, rfl⟩
  | alt r s ihr ihs =>
      simp only [run, reads_alt, List.mem_append, ihr, ihs]
      exact and_or_left.symm
  | opt r ih =>
      obtain ⟨g, u, rest⟩ := a
      simp only [run, reads_opt, List.mem_append, ih, List.mem_singleton, Way.mk.injEq]
      constructor
      · rintro (⟨ht, h⟩ | ⟨rfl, rfl, rfl⟩)
        · exact ⟨ht, Or.inl h⟩
        · exact ⟨rfl, Or.inr ⟨rfl, rfl⟩⟩
      · rintro ⟨ht, h | ⟨rfl, rfl⟩⟩
        · exact Or.inl ⟨ht, h⟩
        · obtain rfl : [] = u := List.append_cancel_right (show [] ++ t = u ++ t from ht)
          exact Or.inr ⟨rfl, rfl, rfl⟩
  | group k r ih =>
      obtain ⟨g, u, rest⟩ := a
      simp only [run, reads_group, List.mem_map, Way.mk.injEq]
      constructor
      · rintro ⟨a, ha, rfl, rfl, rfl⟩
        obtain ⟨ht, h⟩ := ih.mp ha
        exact ⟨ht, a.groups, a.taken, h, ht, rfl⟩
      · -- the text of the group is what the inner expression took, and the rest settles which
        rintro ⟨ht, g', u', h, ht', rfl⟩
        obtain rfl := List.append_cancel_right (ht'.symm.trans ht)
        exact ⟨⟨g', u', rest⟩, ih.mpr ⟨ht, h⟩, rfl, rfl, rfl⟩
  | atEnd =>
      obtain ⟨g, u, rest⟩ := a
      simp only [run, reads_atEnd, List.mem_ite_nil_right, List.mem_singleton, Way.mk.injEq]
      constructor
      · rintro ⟨rfl, rfl, rfl, rfl⟩
        exact ⟨rfl, rfl, rfl, rfl⟩
      · rintro ⟨ht, rfl, rfl, rfl⟩
        obtain rfl := (List.append_eq_nil_iff.mp ht.symm).1
        exact ⟨rfl, rfl, rfl, rfl⟩

theorem isMatch_iff {r : Regex κ} {t : Text} : r.isMatch t ↔ ∃ g rest, r.Reads g t rest := by
  rw [isMatch, Bool.not_eq_true', List.isEmpty_eq_false_iff_exists_mem]
  constructor
  · rintro ⟨a, ha⟩
    exact ⟨a.groups, a.rest, (mem_run.mp ha).2⟩
  · rintro ⟨g, rest, h⟩
    obtain ⟨u, hu⟩ := h.suffix
    exact ⟨⟨g, u, rest⟩, mem_run.mpr ⟨hu, h⟩⟩

theorem reads_of_captures {r : Regex κ} {t : Text} {g : List (κ × Text)}
    (h : r.captures t = some g) : ∃ rest, r.Reads g t rest := by
  obtain ⟨a, ha, rfl⟩ := Option.map_eq_some_iff.mp h
  exact ⟨a.rest, (mem_run.mp (List.mem_of_mem_head? ha)).2⟩

theorem captures_eq_none {r : Regex κ} {t : Text} :
    r.captures t = none ↔ ∀ g rest, ¬ r.Reads g t rest := by
  rw [captures, Option.map_eq_none_iff, List.head?_eq_none_iff, List.eq_nil_iff_forall_not_mem]
  constructor
  · intro h g rest hreads
    obtain ⟨u, hu⟩ := hreads.suffix
    exact h ⟨g, u, rest⟩ (mem_run.mpr ⟨hu, hreads⟩)
  · intro h a ha
    exact h a.groups a.rest (mem_run.mp ha).2

/-- A pattern that takes the same groups in every way captures them. -/
theorem captures_eq_some {r : Regex κ} {t : Text} {g : List (κ × Text)}
    (h : ∃ rest, r.Reads g t rest) (hunique : ∀ g' rest, r.Reads g' t rest → g' = g) :
    r.captures t = some g := by
  obtain ⟨rest, h⟩ := h
  cases hc : r.captures t with
  | none => exact absurd h (captures_eq_none.mp hc g rest)
  | some g' =>
      obtain ⟨rest', h'⟩ := reads_of_captures hc
      rw [hunique g' rest' h']

theorem reads_words {w : Text} {ws : List Text} {g : List (κ × Text)} {t rest : Text} :
    (words w ws : Regex κ).Reads g t rest ↔ g = [] ∧ ∃ u ∈ w :: ws, t = u ++ rest := by
  induction ws generalizing w with
  | nil => simp [words, reads_word]
  | cons w' ws ih =>
      simp only [words, reads_alt, reads_word, ih, List.exists_mem_cons_iff]
      exact and_or_left.symm

theorem reads_times_set {p : Char → Bool} {n : Nat} {g : List (κ × Text)} {t rest : Text} :
    ((Regex.set p : Regex κ).times n).Reads g t rest ↔
      g = [] ∧ ∃ u, u.length = n ∧ (∀ c ∈ u, p c) ∧ t = u ++ rest := by
  induction n generalizing g t with
  | zero =>
      simp only [times, reads_word, List.nil_append, List.length_eq_zero_iff]
      constructor
      · rintro ⟨rfl, rfl⟩
        exact ⟨rfl, [], rfl, (fun c hc => by cases hc), rfl⟩
      · rintro ⟨rfl, u, rfl, -, rfl⟩
        exact ⟨rfl, rfl⟩
  | succ n ih =>
      simp only [times, reads_seq, reads_set, ih]
      constructor
      · rintro ⟨_, mid, _, ⟨rfl, c, hc, rfl⟩, ⟨rfl, u, rfl, hall, rfl⟩, rfl⟩
        exact ⟨rfl, c :: u, rfl, List.forall_mem_cons.mpr ⟨hc, hall⟩, rfl⟩
      · rintro ⟨rfl, u, hlen, hall, rfl⟩
        obtain ⟨c, u, rfl⟩ := List.exists_cons_of_length_eq_add_one hlen
        obtain ⟨hc, hall⟩ := List.forall_mem_cons.mp hall
        exact ⟨[], u ++ rest, [], ⟨rfl, c, hc, rfl⟩, ⟨rfl, u, Nat.succ.inj hlen, hall, rfl⟩, rfl⟩

theorem reads_group_plus {k : κ} {p : Char → Bool} {g : List (κ × Text)} {t rest : Text} :
    (Regex.group k (.plus p)).Reads g t rest ↔
      ∃ u, (u ≠ [] ∧ ∀ c ∈ u, p c) ∧ t = u ++ rest ∧ g = [(k, u)] := by
  simp only [reads_group, reads_plus]
  constructor
  · rintro ⟨_, u, ⟨rfl, v, hne, hall, hv⟩, ht, rfl⟩
    obtain rfl := List.append_cancel_right (hv.symm.trans ht)
    exact ⟨v, ⟨hne, hall⟩, ht, rfl⟩
  · rintro ⟨u, ⟨hne, hall⟩, rfl, rfl⟩
    exact ⟨[], u, ⟨rfl, u, hne, hall, rfl⟩, rfl, rfl⟩

theorem reads_group_words {k : κ} {w : Text} {ws : List Text} {g : List (κ × Text)}
    {t rest : Text} :
    (Regex.group k (words w ws)).Reads g t rest ↔
      ∃ u ∈ w :: ws, t = u ++ rest ∧ g = [(k, u)] := by
  simp only [reads_group, reads_words]
  constructor
  · rintro ⟨_, u, ⟨rfl, v, hmem, hv⟩, ht, rfl⟩
    obtain rfl := List.append_cancel_right (hv.symm.trans ht)
    exact ⟨v, hmem, ht, rfl⟩
  · rintro ⟨u, hmem, rfl, rfl⟩
    exact ⟨[], u, ⟨rfl, u, hmem, rfl⟩, rfl, rfl⟩

theorem reads_group_word {k : κ} {w : Text} {g : List (κ × Text)} {t rest : Text} :
    (Regex.group k (.word w)).Reads g t rest ↔ t = w ++ rest ∧ g = [(k, w)] := by
  have hwords : (Regex.group k (words w [])).Reads g t rest ↔ _ := reads_group_words
  simpa [words] using hwords

/-! ## Maximal runs -/

/-- What stands behind a run of `p` does not begin with one. -/
def Stops (p : Char → Bool) (t : Text) : Prop := ∀ c ∈ t.head?, ¬ p c

theorem run_inj {p : Char → Bool} {a a' b b' : Text} (ha : ∀ c ∈ a, p c) (ha' : ∀ c ∈ a', p c)
    (hb : Stops p b) (hb' : Stops p b') (h : a ++ b = a' ++ b') : a = a' ∧ b = b' := by
  induction a generalizing a' with
  | nil =>
      cases a' with
      | nil => exact ⟨rfl, h⟩
      | cons c a' =>
          rw [List.nil_append] at h
          exact absurd (ha' c List.mem_cons_self) (hb c (by rw [h]; rfl))
  | cons c a ih =>
      cases a' with
      | nil =>
          rw [List.nil_append] at h
          exact absurd (ha c List.mem_cons_self) (hb' c (by rw [← h]; rfl))
      | cons d a' =>
          obtain ⟨rfl, htail⟩ := List.cons.inj h
          obtain ⟨rfl, rfl⟩ :=
            ih (List.forall_mem_cons.mp ha).2 (List.forall_mem_cons.mp ha').2 htail
          exact ⟨rfl, rfl⟩

end Regex

end GelCli.Foundation
