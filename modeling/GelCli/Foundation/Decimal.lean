import GelCli.Foundation.Text
import Mathlib.Data.List.Induction

/-!
# Decimal numerals

Numerals without leading zeros and the numbers they denote, each determined by the
other.
-/

namespace GelCli.Foundation.Decimal

/-- `[1-9][0-9]*`. -/
def positive : Text → Bool
  | [] => false
  | c :: rest => c.isDigit && c != '0' && rest.all Char.isDigit

/-- `0|[1-9][0-9]*`. -/
def numeral (t : Text) : Bool := t == ['0'] || positive t

def value (t : Text) : Nat := Nat.ofDigitChars 10 t 0

def ofNat (n : Nat) : Text := Nat.toDigits 10 n

/-! ## From a number to its numeral -/

@[simp] theorem value_ofNat (n : Nat) : value (ofNat n) = n := Nat.ofDigitChars_ten_toDigits

theorem isDigit_of_mem_ofNat {n : Nat} {c : Char} (h : c ∈ ofNat n) : c.isDigit :=
  Nat.isDigit_of_mem_toDigits (by decide) (by decide) h

theorem positive_append_digit {t : Text} {c : Char} (ht : positive t) (hc : c.isDigit) :
    positive (t ++ [c]) := by
  cases t with
  | nil => exact absurd ht (by decide)
  | cons d t =>
      simp only [positive, List.cons_append, List.all_append, Bool.and_eq_true] at ht ⊢
      exact ⟨ht.1, ht.2, by simpa using hc⟩

theorem positive_ofNat {n : Nat} (h : 0 < n) : positive (ofNat n) := by
  induction n using Nat.strong_induction_on with
  | _ n ih =>
      by_cases hlt : n < 10
      · have hne : n.digitChar ≠ '0' := fun hz => h.ne' (Nat.digitChar_eq_zero.mp hz)
        rw [ofNat, Nat.toDigits_of_lt_base hlt]
        simp [positive, Nat.isDigit_digitChar, hlt, hne]
      · -- the last digit is put behind the numeral of the rest
        rw [ofNat, Nat.toDigits_of_base_le (by decide) (not_lt.mp hlt)]
        refine positive_append_digit (ih (n / 10) (by omega) (by omega)) ?_
        simp [Nat.isDigit_digitChar, Nat.mod_lt]

theorem numeral_ofNat (n : Nat) : numeral (ofNat n) := by
  rcases Nat.eq_zero_or_pos n with rfl | h
  · rfl
  · rw [numeral, positive_ofNat h, Bool.or_true]

/-! ## From a numeral to its number -/

theorem digitChar_toNat {c : Char} (h : c.isDigit) : Nat.digitChar (c.toNat - 48) = c := by
  obtain ⟨hlow, hhigh⟩ := Char.isDigit_iff_toNat.mp h
  have hlow : 48 ≤ c.toNat := hlow
  have hhigh : c.toNat ≤ 57 := hhigh
  apply Char.toNat_inj.mp
  rw [Nat.toNat_digitChar_of_lt_ten (by omega)]
  omega

theorem digit_lt {c : Char} (h : c.isDigit) : c.toNat - 48 < 10 := by
  have hhigh : c.toNat ≤ 57 := (Char.isDigit_iff_toNat.mp h).2
  omega

/-- Reading digits behind a number writes them behind its numeral. -/
theorem toDigits_ofDigitChars {t : Text} (h : ∀ c ∈ t, c.isDigit) {n : Nat} (hn : 0 < n) :
    Nat.toDigits 10 (Nat.ofDigitChars 10 t n) = Nat.toDigits 10 n ++ t := by
  induction t generalizing n with
  | nil => simp
  | cons c t ih =>
      have hc := h c List.mem_cons_self
      have hstep := Nat.toDigits_append_toDigits (b := 10) (by decide) hn (digit_lt hc)
      rw [Nat.toDigits_of_lt_base (digit_lt hc), digitChar_toNat hc] at hstep
      rw [Nat.ofDigitChars_cons, ih (fun d hd => h d (List.mem_cons_of_mem _ hd)) (by omega)]
      change Nat.toDigits 10 (10 * n + (c.toNat - 48)) ++ t = _
      rw [← hstep, List.append_assoc]
      rfl

theorem ofNat_value_of_positive {t : Text} (h : positive t) : ofNat (value t) = t := by
  cases t with
  | nil => exact absurd h (by decide)
  | cons c t =>
      simp only [positive, Bool.and_eq_true, bne_iff_ne, List.all_eq_true] at h
      obtain ⟨⟨hc, hne⟩, ht⟩ := h
      have hpos : 0 < c.toNat - 48 := by
        have hlow : 48 ≤ c.toNat := (Char.isDigit_iff_toNat.mp hc).1
        have : c.toNat ≠ 48 := fun heq => hne (Char.toNat_inj.mp heq)
        omega
      rw [ofNat, value, Nat.ofDigitChars_cons]
      change Nat.toDigits 10 (Nat.ofDigitChars 10 t (10 * 0 + (c.toNat - 48))) = _
      rw [Nat.mul_zero, Nat.zero_add, toDigits_ofDigitChars ht hpos,
        Nat.toDigits_of_lt_base (digit_lt hc), digitChar_toNat hc]
      rfl

theorem ofNat_value {t : Text} (h : numeral t) : ofNat (value t) = t := by
  rcases Bool.or_eq_true _ _ |>.mp h with h | h
  · rw [eq_of_beq h]
    rfl
  · exact ofNat_value_of_positive h

theorem isDigit_of_mem {t : Text} (h : numeral t) {c : Char} (hc : c ∈ t) : c.isDigit := by
  rw [← ofNat_value h] at hc
  exact isDigit_of_mem_ofNat hc

theorem notMem_of_numeral {t : Text} (h : numeral t) {c : Char} (hc : ¬ c.isDigit) : c ∉ t :=
  fun hmem => hc (isDigit_of_mem h hmem)

theorem value_pos {t : Text} (h : positive t) : 0 < value t := by
  refine Nat.pos_of_ne_zero fun hzero => ?_
  have ht := ofNat_value_of_positive h
  rw [hzero] at ht
  rw [← ht] at h
  exact absurd h (by decide)

/-! ## Digits one after the other -/

theorem value_append (t u : Text) : value (t ++ u) = value t * 10 ^ u.length + value u := by
  rw [value, Nat.ofDigitChars_append, Nat.ofDigitChars_eq_ofDigitChars_zero, Nat.mul_comm]
  rfl

theorem value_lt {t : Text} (h : ∀ c ∈ t, c.isDigit) : value t < 10 ^ t.length := by
  induction t using List.reverseRecOn with
  | nil => exact Nat.one_pos
  | append_singleton t c ih =>
      have ht := ih fun d hd => h d (List.mem_append_left _ hd)
      have hc := digit_lt (h c (List.mem_append_right _ (List.mem_singleton_self c)))
      have hlast : value [c] = c.toNat - 48 := by
        rw [value, Nat.ofDigitChars_cons]
        exact Nat.zero_add _
      rw [value_append, hlast, List.length_append, List.length_singleton, Nat.pow_one, Nat.pow_succ]
      omega

/-- Only zeros denote zero. -/
theorem eq_replicate_of_value {t : Text} (h : ∀ c ∈ t, c.isDigit) (hzero : value t = 0) :
    t = List.replicate t.length '0' := by
  induction t with
  | nil => rfl
  | cons c t ih =>
      have hc := h c List.mem_cons_self
      have hsplit : value ([c] ++ t) = value [c] * 10 ^ t.length + value t := value_append [c] t
      rw [List.singleton_append, hzero] at hsplit
      have hhead : value [c] = 0 := by
        have hpow : 0 < 10 ^ t.length := Nat.pow_pos (by decide)
        rcases Nat.eq_zero_or_pos (value [c]) with hz | hz
        · exact hz
        · have hprod := Nat.mul_pos hz hpow
          omega
      have hdigit : c.toNat - 48 = 0 := by
        rw [value, Nat.ofDigitChars_cons] at hhead
        exact (Nat.zero_add _).symm.trans hhead
      have hchar : c = '0' := by
        rw [← digitChar_toNat hc, hdigit]
        rfl
      rw [List.length_cons, List.replicate_succ, hchar,
        ← ih (fun d hd => h d (List.mem_cons_of_mem _ hd)) (by omega)]

@[simp] theorem value_replicate (n : Nat) : value (List.replicate n '0') = 0 := by
  rw [value, Nat.ofDigitChars_replicate_zero, Nat.mul_zero]

/-- The numeral with zeros in front, as far as it is shorter than `width`. -/
def pad (width n : Nat) : Text := List.replicate (width - (ofNat n).length) '0' ++ ofNat n

@[simp] theorem value_pad (width n : Nat) : value (pad width n) = n := by
  rw [pad, value_append, value_replicate, Nat.zero_mul, Nat.zero_add, value_ofNat]

theorem isDigit_of_mem_pad {width n : Nat} {c : Char} (h : c ∈ pad width n) : c.isDigit := by
  rcases List.mem_append.mp h with h | h
  · rw [List.eq_of_mem_replicate h]
    rfl
  · exact isDigit_of_mem_ofNat h

theorem length_pad {width n : Nat} (hwidth : 0 < width) (h : n < 10 ^ width) :
    (pad width n).length = width := by
  have hle : (ofNat n).length ≤ width := (Nat.length_toDigits_le_iff (by decide) hwidth).mpr h
  rw [pad, List.length_append, List.length_replicate, Nat.sub_add_cancel hle]

end GelCli.Foundation.Decimal
