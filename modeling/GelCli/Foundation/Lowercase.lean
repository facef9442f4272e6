import GelCli.Foundation.Text
import Mathlib

/-!
# Lower case

`str::to_lowercase` over the Unicode data it looks up: the lower case of single
characters and the two properties that decide between the two lower sigmas.
-/

namespace GelCli.Foundation

structure CaseTable where
  lower : Char → Text
  cased : Char → Bool
  caseIgnorable : Char → Bool

namespace CaseTable

/-- `case_ignorable_then_cased` -/
def ignorableThenCased (u : CaseTable) (t : Text) : Bool :=
  match t.dropWhile u.caseIgnorable with
  | [] => false
  | c :: _ => u.cased c

/-- The lower case of a capital sigma, which is another one at the end of a word. -/
def lowerSigma (u : CaseTable) (before after : Text) : Char :=
  if u.ignorableThenCased before && !u.ignorableThenCased after then 'ς' else 'σ'

/-- The lower case of the rest of a text, behind the reversed `before`. -/
def lowerFrom (u : CaseTable) (before : Text) : Text → Text
  | [] => []
  | c :: t => (if c = 'Σ' then [u.lowerSigma before t] else u.lower c) ++ u.lowerFrom (c :: before) t

def toLowercase (u : CaseTable) (t : Text) : Text := u.lowerFrom [] t

/-- What the Unicode data says about ASCII. -/
structure Lawful (u : CaseTable) : Prop where
  lower_ascii : ∀ c : Char, c.toNat < 128 → u.lower c = [c.toLower]
  lower_ne_nil : ∀ c, u.lower c ≠ []
  /-- Only letters are the lower case of other characters. -/
  eq_of_mem_lower : ∀ c d : Char, d ∈ u.lower c → d.toNat < 128 → d.isAlpha = false → c = d
  cased_ascii : ∀ c : Char, c.toNat < 128 → u.cased c = c.isAlpha
  not_caseIgnorable : ∀ c : Char, c.isAlpha = true ∨ c = '/' → u.caseIgnorable c = false

/-- ASCII text as Unicode has it. -/
def ascii : CaseTable where
  lower c := [c.toLower]
  cased := Char.isAlpha
  caseIgnorable c := c = '\'' || c = '.' || c = ':' || c = '^' || c = '\x60'

theorem lowerFrom_cons (u : CaseTable) (before : Text) (c : Char) (t : Text) :
    u.lowerFrom before (c :: t) =
      (if c = 'Σ' then [u.lowerSigma before t] else u.lower c) ++ u.lowerFrom (c :: before) t :=
  rfl

variable {u : CaseTable}

/-! ## Words apart -/

theorem ignorableThenCased_cons (u : CaseTable) (c : Char) (t : Text) :
    u.ignorableThenCased (c :: t) =
      if u.caseIgnorable c then u.ignorableThenCased t else u.cased c := by
  unfold ignorableThenCased
  cases h : u.caseIgnorable c with
  | true =>
      rw [List.dropWhile_cons_of_pos h]
      rfl
  | false =>
      rw [List.dropWhile_cons_of_neg (by rw [h]; exact Bool.false_ne_true)]
      rfl

theorem Lawful.ignorableThenCased_slash (hu : u.Lawful) (t : Text) :
    u.ignorableThenCased ('/' :: t) = false := by
  rw [ignorableThenCased_cons, hu.not_caseIgnorable '/' (Or.inr rfl), if_neg Bool.false_ne_true]
  exact hu.cased_ascii '/' (by decide)

theorem Lawful.ignorableThenCased_append (hu : u.Lawful) (t rest : Text) :
    u.ignorableThenCased (t ++ '/' :: rest) = u.ignorableThenCased t := by
  induction t with
  | nil => exact hu.ignorableThenCased_slash rest
  | cons c t ih =>
      rw [List.cons_append, ignorableThenCased_cons, ignorableThenCased_cons, ih]

/-- Of the text before, only the last word counts. -/
theorem lowerFrom_congr {before before' : Text}
    (h : u.ignorableThenCased before = u.ignorableThenCased before') (t : Text) :
    u.lowerFrom before t = u.lowerFrom before' t := by
  induction t generalizing before before' with
  | nil => rfl
  | cons c t ih =>
      have hnext : u.ignorableThenCased (c :: before) = u.ignorableThenCased (c :: before') := by
        rw [ignorableThenCased_cons, ignorableThenCased_cons, h]
      rw [lowerFrom_cons, lowerFrom_cons, lowerSigma, lowerSigma, h, ih hnext]

theorem Lawful.lowerFrom_append (hu : u.Lawful) (before t rest : Text) :
    u.lowerFrom before (t ++ '/' :: rest) = u.lowerFrom before t ++ '/' :: u.toLowercase rest := by
  induction t generalizing before with
  | nil =>
      have hword : u.ignorableThenCased ('/' :: before) = u.ignorableThenCased [] :=
        hu.ignorableThenCased_slash before
      rw [List.nil_append, lowerFrom_cons, if_neg (by decide), hu.lower_ascii '/' (by decide),
        lowerFrom_congr hword rest]
      rfl
  | cons c t ih =>
      rw [List.cons_append, lowerFrom_cons, lowerFrom_cons, ih, lowerSigma, lowerSigma,
        hu.ignorableThenCased_append, List.append_assoc]

/-- The parts between slashes are lowered one by one. -/
theorem Lawful.toLowercase_append (hu : u.Lawful) (t rest : Text) :
    u.toLowercase (t ++ '/' :: rest) = u.toLowercase t ++ '/' :: u.toLowercase rest :=
  hu.lowerFrom_append [] t rest

theorem Lawful.toLowercase_intercalate (hu : u.Lawful) (parts : List Text) :
    u.toLowercase (['/'].intercalate parts) = ['/'].intercalate (parts.map u.toLowercase) := by
  induction parts with
  | nil => rfl
  | cons part parts ih =>
      cases parts with
      | nil => rw [List.map_singleton, List.intercalate_singleton, List.intercalate_singleton]
      | cons next parts =>
          rw [List.map_cons, List.map_cons, List.intercalate_cons_cons, List.intercalate_cons_cons,
            List.append_assoc, List.singleton_append, hu.toLowercase_append, ih, List.map_cons,
            List.append_assoc, List.singleton_append]

/-! ## The case of ASCII letters -/

/-- The same character, but for the case of an ASCII letter. -/
def SameCase (c d : Char) : Prop := c.toLower = d.toLower

theorem toNat_lt_of_isAlpha {c : Char} (h : c.isAlpha = true) : c.toNat < 128 := by
  simp only [Char.isAlpha, Char.isUpper, Char.isLower, Bool.or_eq_true, Bool.and_eq_true,
    decide_eq_true_eq, ge_iff_le, UInt32.le_iff_toNat_le] at h
  have hvalue : c.toNat = c.val.toNat := rfl
  rcases h with ⟨-, h⟩ | ⟨-, h⟩
  · exact hvalue ▸ Nat.lt_of_le_of_lt h (by decide)
  · exact hvalue ▸ Nat.lt_of_le_of_lt h (by decide)

theorem toLower_eq_of_isAlpha_eq_false {c : Char} (h : c.isAlpha = false) : c.toLower = c := by
  refine Char.toLower_eq_of_not_isUpper fun hupper => ?_
  rw [Char.isAlpha, hupper, Bool.true_or] at h
  cases h

theorem SameCase.eq_or_isAlpha {c d : Char} (h : SameCase c d) :
    c = d ∨ c.isAlpha = true ∧ d.isAlpha = true := by
  have halpha : c.isAlpha = d.isAlpha := by
    rw [← Char.isAlpha_toLower_eq_isAlpha c, h, Char.isAlpha_toLower_eq_isAlpha]
  cases hc : c.isAlpha with
  | true => exact Or.inr ⟨rfl, halpha ▸ hc⟩
  | false =>
      rw [SameCase, toLower_eq_of_isAlpha_eq_false hc,
        toLower_eq_of_isAlpha_eq_false (halpha ▸ hc)] at h
      exact Or.inl h

theorem Lawful.ignorableThenCased_sameCase (hu : u.Lawful) {t t' : Text}
    (h : List.Forall₂ SameCase t t') : u.ignorableThenCased t = u.ignorableThenCased t' := by
  induction h with
  | nil => rfl
  | cons hc _ ih =>
      rw [ignorableThenCased_cons, ignorableThenCased_cons, ih]
      rcases hc.eq_or_isAlpha with rfl | ⟨hc, hd⟩
      · rfl
      · rw [hu.not_caseIgnorable _ (Or.inl hc), hu.not_caseIgnorable _ (Or.inl hd),
          hu.cased_ascii _ (toNat_lt_of_isAlpha hc), hu.cased_ascii _ (toNat_lt_of_isAlpha hd), hc, hd]

theorem Lawful.lowerFrom_sameCase (hu : u.Lawful) {before before' t t' : Text}
    (hbefore : List.Forall₂ SameCase before before') (h : List.Forall₂ SameCase t t') :
    u.lowerFrom before t = u.lowerFrom before' t' := by
  induction h generalizing before before' with
  | nil => rfl
  | cons hc ht ih =>
      have hsigma := hu.ignorableThenCased_sameCase hbefore
      rw [lowerFrom_cons, lowerFrom_cons, ih (List.Forall₂.cons hc hbefore), lowerSigma, lowerSigma, hsigma,
        hu.ignorableThenCased_sameCase ht]
      rcases hc.eq_or_isAlpha with rfl | ⟨halpha, halpha'⟩
      · rfl
      · have hne : ∀ {e : Char}, e.isAlpha = true → e ≠ 'Σ' := by
          rintro e he rfl
          exact absurd he (by decide)
        rw [if_neg (hne halpha), if_neg (hne halpha'), hu.lower_ascii _ (toNat_lt_of_isAlpha halpha),
          hu.lower_ascii _ (toNat_lt_of_isAlpha halpha'), hc]

/-- The case of ASCII letters is lost. -/
theorem Lawful.toLowercase_sameCase (hu : u.Lawful) {t t' : Text}
    (h : List.Forall₂ SameCase t t') : u.toLowercase t = u.toLowercase t' :=
  hu.lowerFrom_sameCase List.Forall₂.nil h

/-! ## What lower case cannot make -/

theorem Lawful.mem_of_mem_lowerFrom (hu : u.Lawful) {d : Char} (hd : d.toNat < 128)
    (halpha : d.isAlpha = false) {before t : Text} (h : d ∈ u.lowerFrom before t) : d ∈ t := by
  induction t generalizing before with
  | nil => cases h
  | cons c t ih =>
      rw [lowerFrom_cons] at h
      rcases List.mem_append.mp h with h | h
      · split at h
        · rw [List.mem_singleton.mp h, lowerSigma] at hd
          split at hd
          · exact absurd hd (by decide)
          · exact absurd hd (by decide)
        · rw [hu.eq_of_mem_lower c d h hd halpha]
          exact List.mem_cons_self
      · exact List.mem_cons_of_mem c (ih h)

theorem Lawful.length_le_lowerFrom (hu : u.Lawful) (before t : Text) :
    t.length ≤ (u.lowerFrom before t).length := by
  induction t generalizing before with
  | nil => exact Nat.le_refl 0
  | cons c t ih =>
      rw [lowerFrom_cons, List.length_append, List.length_cons, Nat.add_comm]
      refine Nat.add_le_add ?_ (ih _)
      split
      · exact Nat.le_refl 1
      · exact List.length_pos_iff.mpr (hu.lower_ne_nil c)

theorem Lawful.toLowercase_ne_nil (hu : u.Lawful) {t : Text} (h : t ≠ []) :
    u.toLowercase t ≠ [] := by
  intro hnil
  have hlength := hu.length_le_lowerFrom [] t
  rw [← toLowercase, hnil] at hlength
  exact h (List.length_eq_zero_iff.mp (Nat.le_zero.mp hlength))

theorem Lawful.slash_notMem_toLowercase (hu : u.Lawful) {t : Text} (h : '/' ∉ t) :
    '/' ∉ u.toLowercase t :=
  fun hmem => h (hu.mem_of_mem_lowerFrom (by decide) (by decide) hmem)

/-- A question mark is the lower case of nothing else. -/
theorem Lawful.eq_of_toLowercase_eq (hu : u.Lawful) {t : Text} (h : u.toLowercase t = ['?']) :
    t = ['?'] := by
  have hlength := hu.length_le_lowerFrom [] t
  rw [← toLowercase, h, List.length_singleton] at hlength
  have hlast : '?' ∈ u.lowerFrom [] t := by
    rw [← toLowercase, h]
    exact List.mem_singleton_self _
  have hmem : '?' ∈ t := hu.mem_of_mem_lowerFrom (by decide) (by decide) hlast
  cases t with
  | nil => cases hmem
  | cons c t =>
      obtain rfl := List.length_eq_zero_iff.mp (Nat.le_zero.mp (Nat.le_of_succ_le_succ hlength))
      rw [List.mem_singleton.mp hmem]

/-! ## ASCII text -/

theorem lawful_ascii : ascii.Lawful where
  lower_ascii _ _ := rfl
  lower_ne_nil _ := List.cons_ne_nil _ _
  eq_of_mem_lower c d hd _ halpha := by
    rw [List.mem_singleton.mp hd, Char.isAlpha_toLower_eq_isAlpha] at halpha
    rw [List.mem_singleton.mp hd, toLower_eq_of_isAlpha_eq_false halpha]
  cased_ascii _ _ := rfl
  not_caseIgnorable c hc := by
    have hother : ∀ d : Char, d.isAlpha = false → d ≠ '/' → c ≠ d := by
      rintro d hd hslash rfl
      rcases hc with hc | hc
      · rw [hd] at hc
        cases hc
      · exact hslash hc
    have hquote := hother '\'' rfl (by decide)
    have hdot := hother '.' rfl (by decide)
    have hcolon := hother ':' rfl (by decide)
    have hcaret := hother '^' rfl (by decide)
    have hgrave := hother '\x60' rfl (by decide)
    simp [ascii, hquote, hdot, hcolon, hcaret, hgrave]

end CaseTable

end GelCli.Foundation
