import GelCli.Foundation.Decimal
import GelCli.Print.Native
import Mathlib.Algebra.Field.Rat
import Mathlib.Data.List.TakeWhile
import Mathlib.Tactic.FieldSimp
import Mathlib.Tactic.NormNum
import Mathlib.Tactic.Ring

/-!
# Big numbers that denote themselves

`format_bigint` and `format_decimal` of `src/print/native.rs` against the literals of
EdgeQL. The number crates are relied on for plain positional texts.
-/

namespace GelCli.Print

open GelCli.Foundation

/-! ## Numbers -/

def signText (n : Int) : Text := if n < 0 then ['-'] else []

/-- The fields of a `BigDecimal`: its digits and how many of them stand behind the point. -/
structure BigDecimal where
  digits : Int
  scale : Int
deriving DecidableEq, Repr

namespace BigDecimal

def value (d : BigDecimal) : ℚ := d.digits * 10 ^ (-d.scale)

/-- `to_string`. -/
def text (d : BigDecimal) : Text :=
  signText d.digits ++
    if d.scale ≤ 0 then Decimal.ofNat (d.digits.natAbs * 10 ^ d.scale.natAbs)
    else Decimal.ofNat (d.digits.natAbs / 10 ^ d.scale.natAbs) ++
      '.' :: Decimal.pad d.scale.natAbs (d.digits.natAbs % 10 ^ d.scale.natAbs)

end BigDecimal

inductive BigNumber where
  | bigInt (n : Int)
  | decimal (d : BigDecimal)

/-- What the native formatter prints. -/
def BigNumber.printed : BigNumber → Text
  | bigInt n => (formatBigint n).toList
  | decimal d => (formatDecimal (String.ofList d.text)).toList

/-! ## Literals -/

/-- The exponent of a literal, if there is one. -/
inductive Exponent : Text → Int → Prop where
  | none : Exponent [] 0
  | positive {ds : Text} (hne : ds ≠ []) (hds : ∀ c ∈ ds, c.isDigit) :
      Exponent ('e' :: ds) (Decimal.value ds)
  | negative {ds : Text} (hne : ds ≠ []) (hds : ∀ c ∈ ds, c.isDigit) :
      Exponent ('e' :: '-' :: ds) (-(Decimal.value ds))

inductive Sign : Text → Int → Prop where
  | none : Sign [] 1
  | minus : Sign ['-'] (-1)

/-- A literal of `bigint`, with its sign, and what it denotes. -/
def BigintLiteral (t : Text) (n : Int) : Prop :=
  ∃ sign s int e, ∃ k : Nat, Sign sign s ∧ Decimal.numeral int ∧ Exponent e k ∧
    t = sign ++ int ++ e ++ ['n'] ∧ n = s * (Decimal.value int * 10 ^ k)

/-- A literal of `decimal`, with its sign, and what it denotes. -/
def DecimalLiteral (t : Text) (q : ℚ) : Prop :=
  ∃ sign s int frac e k, Sign sign s ∧ Decimal.numeral int ∧ frac ≠ [] ∧
    (∀ c ∈ frac, c.isDigit) ∧ Exponent e k ∧ t = sign ++ int ++ '.' :: frac ++ e ++ ['n'] ∧
    q = s * (Decimal.value (int ++ frac) * 10 ^ (k - frac.length))

/-- A big number is printed as a literal of its type that denotes it. -/
def BigNumber.DenotesItself : BigNumber → Prop
  | bigInt n => BigintLiteral (printed (.bigInt n)) n
  | decimal d => DecimalLiteral (printed (.decimal d)) d.value

/-! ## Zeros at the end -/

theorem toList_toString_nat (n : Nat) : (toString n).toList = Decimal.ofNat n := by
  rw [Nat.toString_eq_repr, Nat.toList_repr]
  rfl

theorem toList_toString_int (n : Int) :
    (toString n).toList = signText n ++ Decimal.ofNat n.natAbs := by
  cases n with
  | ofNat n =>
      have hsign : signText (Int.ofNat n) = [] := if_neg (Int.not_lt.mpr (Int.natCast_nonneg n))
      rw [hsign, List.nil_append]
      exact toList_toString_nat n
  | negSucc n =>
      have hsign : signText (Int.negSucc n) = ['-'] := if_pos (Int.negSucc_lt_zero n)
      rw [hsign]
      show ("-" ++ (n + 1).repr).toList = _
      rw [String.toList_append, Nat.toList_repr]
      rfl

theorem trimEndZeros_append (t : Text) :
    t = trimEndZeros t ++ List.replicate (t.length - (trimEndZeros t).length) '0' := by
  have hsplit : t = trimEndZeros t ++ (t.reverse.takeWhile fun c => c = '0').reverse := by
    rw [trimEndZeros, ← List.reverse_append, List.takeWhile_append_dropWhile, List.reverse_reverse]
  have hzeros : ∀ c ∈ (t.reverse.takeWhile fun c => c = '0').reverse, c = '0' := by
    intro c hc
    simpa using List.mem_takeWhile_imp (List.mem_reverse.mp hc)
  have hlen := congrArg List.length hsplit
  rw [List.length_append] at hlen
  rw [hlen, Nat.add_sub_cancel_left, ← List.eq_replicate_of_mem hzeros]
  exact hsplit

/-- What is left of a numeral without the zeros at its end. -/
theorem exists_trimmed (sign : Text) {n : Nat} (hn : 0 < n) :
    ∃ int zeros, Decimal.positive int ∧ trimEndZeros (sign ++ Decimal.ofNat n) = sign ++ int ∧
      (sign ++ Decimal.ofNat n).length - (sign ++ int).length = zeros ∧
      n = Decimal.value int * 10 ^ zeros := by
  have hpositive := Decimal.positive_ofNat hn
  have hsplit := trimEndZeros_append (sign ++ Decimal.ofNat n)
  generalize hzeros : (sign ++ Decimal.ofNat n).length -
    (trimEndZeros (sign ++ Decimal.ofNat n)).length = zeros at hsplit
  generalize trimEndZeros (sign ++ Decimal.ofNat n) = left at hsplit hzeros
  -- the first digit is none of the zeros
  have hnot : ∀ before, List.replicate zeros '0' ≠ before ++ Decimal.ofNat n := by
    intro before heq
    cases hdigits : Decimal.ofNat n with
    | nil =>
        rw [hdigits] at hpositive
        cases hpositive
    | cons c rest =>
        rw [hdigits] at hpositive heq
        have hc : c ∈ List.replicate zeros '0' := by
          rw [heq]
          exact List.mem_append_right _ List.mem_cons_self
        simp only [Decimal.positive, Bool.and_eq_true, bne_iff_ne] at hpositive
        exact hpositive.1.2 (List.eq_of_mem_replicate hc)
  rcases List.append_eq_append_iff.mp hsplit with ⟨int, rfl, hint⟩ | ⟨before, -, hbefore⟩
  · refine ⟨int, zeros, ?_, rfl, hzeros, ?_⟩
    · cases int with
      | nil =>
          rw [List.nil_append] at hint
          exact absurd hint.symm (hnot [])
      | cons c rest =>
          rw [hint, List.cons_append] at hpositive
          simp only [Decimal.positive, List.all_append, Bool.and_eq_true] at hpositive ⊢
          exact ⟨hpositive.1, hpositive.2.1⟩
    · have hvalue := congrArg Decimal.value hint
      rwa [Decimal.value_ofNat, Decimal.value_append, Decimal.value_replicate, Nat.add_zero,
        List.length_replicate] at hvalue
  · exact absurd hbefore (hnot before)

/-! ## What is printed -/

theorem sign_signText (n : Int) : ∃ s, Sign (signText n) s ∧ n = s * n.natAbs := by
  by_cases hn : n < 0
  · refine ⟨-1, ?_, by omega⟩
    rw [signText, if_pos hn]
    exact .minus
  · refine ⟨1, ?_, by omega⟩
    rw [signText, if_neg hn]
    exact .none

theorem exponent_ofNat (n : Nat) : Exponent ('e' :: Decimal.ofNat n) n := by
  have hexponent : Exponent ('e' :: Decimal.ofNat n) (Decimal.value (Decimal.ofNat n)) :=
    .positive (List.ne_nil_of_length_pos Nat.length_toDigits_pos)
      fun c hc => Decimal.isDigit_of_mem_ofNat hc
  rwa [Decimal.value_ofNat] at hexponent

theorem bigintLiteral_formatBigint (n : Int) : BigintLiteral (formatBigint n).toList n := by
  obtain ⟨s, hsign, hn⟩ := sign_signText n
  rcases Nat.eq_zero_or_pos n.natAbs with hzero | hpos
  · obtain rfl := Int.natAbs_eq_zero.mp hzero
    exact ⟨[], 1, ['0'], [], 0, .none, rfl, .none, rfl, rfl⟩
  · obtain ⟨int, zeros, hint, htrim, hlen, hvalue⟩ := exists_trimmed (signText n) hpos
    rw [formatBigint, toList_toString_int]
    simp only [htrim, hlen]
    split
    · refine ⟨signText n, s, int, 'e' :: Decimal.ofNat zeros, zeros, hsign, ?_,
        exponent_ofNat zeros, ?_, ?_⟩
      · rw [Decimal.numeral, hint, Bool.or_true]
      · simp [Decimal.ofNat]
      · rw [hn, hvalue]
        push_cast
        rfl
    · refine ⟨signText n, s, Decimal.ofNat n.natAbs, [], 0, hsign, Decimal.numeral_ofNat _,
        .none, ?_, ?_⟩
      · simp
      · rw [Decimal.value_ofNat, pow_zero, mul_one]
        exact hn

/-! ## Decimals -/

namespace BigDecimal

/-- At least zero and less than `0.00001`, with five zeros to print behind the point. -/
def Small (d : BigDecimal) : Prop :=
  5 ≤ d.scale ∧ 0 ≤ d.digits ∧ d.digits < 10 ^ (d.scale.natAbs - 5)

theorem text_of_scale_le {d : BigDecimal} (h : d.scale ≤ 0) :
    d.text = signText d.digits ++ Decimal.ofNat (d.digits.natAbs * 10 ^ d.scale.natAbs) := by
  rw [text, if_pos h]

theorem text_of_scale_pos {d : BigDecimal} (h : 0 < d.scale) :
    d.text = signText d.digits ++ (Decimal.ofNat (d.digits.natAbs / 10 ^ d.scale.natAbs) ++
      '.' :: Decimal.pad d.scale.natAbs (d.digits.natAbs % 10 ^ d.scale.natAbs)) := by
  rw [text, if_neg (Int.not_le.mpr h)]

theorem cast_eq_mul_natAbs {n s : Int} (h : n = s * n.natAbs) : (n : ℚ) = s * (n.natAbs : ℚ) := by
  have hcast := congrArg (Int.cast : Int → ℚ) h
  rwa [Int.cast_mul, Int.cast_natCast] at hcast

theorem value_of_scale_le {d : BigDecimal} (h : d.scale ≤ 0) {s : Int}
    (hs : d.digits = s * d.digits.natAbs) :
    d.value = s * ((d.digits.natAbs * 10 ^ d.scale.natAbs : Nat) : ℚ) := by
  have hscale : -d.scale = (d.scale.natAbs : Int) := by omega
  rw [value, hscale, zpow_natCast, cast_eq_mul_natAbs hs]
  push_cast
  rw [mul_assoc]

theorem length_frac {d : BigDecimal} (h : 0 < d.scale) :
    (Decimal.pad d.scale.natAbs (d.digits.natAbs % 10 ^ d.scale.natAbs)).length =
      d.scale.natAbs :=
  Decimal.length_pad (Int.natAbs_pos.mpr h.ne') (Nat.mod_lt _ (Nat.pow_pos (by decide)))

theorem prefix_iff_small {d : BigDecimal} (h : 0 < d.scale) :
    "0.00000".toList <+: d.text ↔ d.Small := by
  have hdot : ∀ n, '.' ∉ Decimal.ofNat n := by
    intro n hmem
    exact absurd (Decimal.isDigit_of_mem_ofNat hmem) (by decide)
  have hlen := length_frac h
  have hfracDigits : ∀ c ∈ Decimal.pad d.scale.natAbs (d.digits.natAbs % 10 ^ d.scale.natAbs),
      c.isDigit := fun c hc => Decimal.isDigit_of_mem_pad hc
  have hfracValue := Decimal.value_pad d.scale.natAbs (d.digits.natAbs % 10 ^ d.scale.natAbs)
  rw [text_of_scale_pos h]
  generalize Decimal.pad d.scale.natAbs (d.digits.natAbs % 10 ^ d.scale.natAbs) = frac at *
  have hmod := Nat.div_add_mod d.digits.natAbs (10 ^ d.scale.natAbs)
  constructor
  · rintro ⟨rest, hrest⟩
    have hsign : 0 ≤ d.digits := by
      by_contra hneg
      rw [signText, if_pos (Int.not_le.mp hneg)] at hrest
      exact absurd (List.cons.inj hrest).1 (by decide)
    rw [signText, if_neg (Int.not_lt.mpr hsign), List.nil_append] at hrest
    obtain ⟨hint, hfrac⟩ := Text.append_cons_inj (a := ['0'])
      (b := List.replicate 5 '0' ++ rest) (by decide) (hdot _) hrest
    have hint := congrArg Decimal.value hint
    rw [Decimal.value_ofNat] at hint
    have hzero : d.digits.natAbs / 10 ^ d.scale.natAbs = 0 := hint.symm
    rw [← hfrac, List.length_append, List.length_replicate] at hlen
    rw [← hfrac, Decimal.value_append, Decimal.value_replicate, Nat.zero_mul, Nat.zero_add]
      at hfracValue
    have hlt : Decimal.value rest < 10 ^ rest.length := by
      refine Decimal.value_lt fun c hc => hfracDigits c ?_
      rw [← hfrac]
      exact List.mem_append_right _ hc
    have hexp : d.scale.natAbs - 5 = rest.length := by omega
    refine ⟨by omega, hsign, ?_⟩
    rw [hzero, Nat.mul_zero, Nat.zero_add, ← hfracValue] at hmod
    rw [hexp]
    have hcast : ((d.digits.natAbs : Nat) : Int) < ((10 ^ rest.length : Nat) : Int) := by
      rw [← hmod]
      exact Int.ofNat_lt.mpr hlt
    rw [Int.natAbs_of_nonneg hsign] at hcast
    exact_mod_cast hcast
  · rintro ⟨hscale, hsign, hlt⟩
    have hlt : d.digits.natAbs < 10 ^ (d.scale.natAbs - 5) := by
      have hcast : ((d.digits.natAbs : Nat) : Int) < ((10 ^ (d.scale.natAbs - 5) : Nat) : Int) := by
        rw [Int.natAbs_of_nonneg hsign]
        exact_mod_cast hlt
      exact_mod_cast hcast
    have hle : 10 ^ (d.scale.natAbs - 5) ≤ 10 ^ d.scale.natAbs :=
      Nat.pow_le_pow_right (by decide) (Nat.sub_le _ _)
    rw [Nat.mod_eq_of_lt (Nat.lt_of_lt_of_le hlt hle)] at hfracValue
    rw [Nat.div_eq_of_lt (Nat.lt_of_lt_of_le hlt hle), signText, if_neg (Int.not_lt.mpr hsign)]
    -- the first five digits denote zero
    have hsplit := List.take_append_drop 5 frac
    have htake : (frac.take 5).length = 5 := by rw [List.length_take]; omega
    have hdrop : (frac.drop 5).length = d.scale.natAbs - 5 := by rw [List.length_drop, hlen]
    have hvalue := Decimal.value_append (frac.take 5) (frac.drop 5)
    rw [hsplit, hfracValue, hdrop] at hvalue
    have hfirst : Decimal.value (frac.take 5) = 0 := by
      by_contra hne
      have hmul : 1 * 10 ^ (d.scale.natAbs - 5) ≤
          Decimal.value (frac.take 5) * 10 ^ (d.scale.natAbs - 5) :=
        Nat.mul_le_mul_right _ (Nat.pos_of_ne_zero hne)
      omega
    have hzeros := Decimal.eq_replicate_of_value
      (fun c hc => hfracDigits c (List.mem_of_mem_take hc)) hfirst
    rw [htake] at hzeros
    refine ⟨frac.drop 5, ?_⟩
    rw [← hsplit, hzeros]
    rfl

theorem isDigit_of_mem_zero : ∀ c ∈ ['0'], c.isDigit = true := by
  intro c hc
  rw [List.mem_singleton.mp hc]
  rfl

theorem decimalLiteral_of_scale_le {d : BigDecimal} (h : d.scale ≤ 0) :
    DecimalLiteral (formatDecimal (String.ofList d.text)).toList d.value := by
  obtain ⟨s, hsign, hs⟩ := sign_signText d.digits
  have hvalue := value_of_scale_le h hs
  have hdot : '.' ∉ d.text := by
    rw [text_of_scale_le h]
    intro hmem
    rcases List.mem_append.mp hmem with hmem | hmem
    · rw [signText] at hmem
      split at hmem
      · exact absurd hmem (by decide)
      · cases hmem
    · exact absurd (Decimal.isDigit_of_mem_ofNat hmem) (by decide)
  rw [formatDecimal, String.toList_ofList, if_neg hdot]
  rw [text_of_scale_le h]
  generalize hm : d.digits.natAbs * 10 ^ d.scale.natAbs = m at *
  rcases Nat.eq_zero_or_pos m with rfl | hpos
  · have hzero : d.digits = 0 := by
      rcases Nat.mul_eq_zero.mp hm with hz | hz
      · exact Int.natAbs_eq_zero.mp hz
      · exact absurd hz (Nat.pow_pos (by decide)).ne'
    rw [hzero, hvalue]
    have hzeros : Decimal.value (['0'] ++ ['0']) = 0 := rfl
    refine ⟨[], 1, ['0'], ['0'], [], 0, .none, rfl, List.cons_ne_nil _ _, isDigit_of_mem_zero,
      .none, rfl, ?_⟩
    rw [hzeros, Nat.cast_zero, zero_mul, mul_zero, mul_zero]
  · obtain ⟨int, zeros, hint, htrim, hlen, hm'⟩ := exists_trimmed (signText d.digits) hpos
    simp only [htrim, hlen]
    split
    · refine ⟨signText d.digits, s, int, ['0'], 'e' :: Decimal.ofNat zeros, zeros, hsign, ?_,
        List.cons_ne_nil _ _, isDigit_of_mem_zero, exponent_ofNat zeros, ?_, ?_⟩
      · rw [Decimal.numeral, hint, Bool.or_true]
      · simp [Decimal.ofNat]
      · rw [hvalue, hm', Decimal.value_append]
        have hlast : Decimal.value ['0'] = 0 := rfl
        rw [hlast, List.length_singleton, zpow_sub₀ (by norm_num : (10 : ℚ) ≠ 0)]
        push_cast
        rw [zpow_natCast]
        ring
    · refine ⟨signText d.digits, s, Decimal.ofNat m, ['0'], [], 0, hsign, Decimal.numeral_ofNat m,
        List.cons_ne_nil _ _, isDigit_of_mem_zero, .none, ?_, ?_⟩
      · simp
      · rw [hvalue, Decimal.value_append, Decimal.value_ofNat]
        have hlast : Decimal.value ['0'] = 0 := rfl
        rw [hlast, List.length_singleton, Nat.cast_one, zero_sub, zpow_neg_one]
        push_cast
        field_simp
        ring

theorem decimalLiteral_iff_of_scale_pos {d : BigDecimal} (h : 0 < d.scale) :
    DecimalLiteral (formatDecimal (String.ofList d.text)).toList d.value ↔ ¬ d.Small := by
  have hdot : '.' ∈ d.text := by
    rw [text_of_scale_pos h]
    simp
  have hstarts : "0.00000".toList.isPrefixOf d.text = true ↔ d.Small :=
    List.isPrefixOf_iff_prefix.trans (prefix_iff_small h)
  rw [formatDecimal, String.toList_ofList, if_pos hdot]
  by_cases hsmall : d.Small
  · -- what is printed does not end with `n`
    refine iff_of_false ?_ fun hnot => hnot hsmall
    rw [if_pos (hstarts.mpr hsmall)]
    rintro ⟨sign, s, int, frac, e, k, -, -, -, -, -, ht, -⟩
    rw [String.toList_append, toList_toString_nat] at ht
    generalize (d.text.length - 2 - _) = zeros at ht
    have hn : 'n' ∈ Decimal.ofNat zeros := by
      have hne : Decimal.ofNat zeros ≠ [] := List.ne_nil_of_length_pos Nat.length_toDigits_pos
      rcases List.append_eq_append_iff.mp ht with ⟨digits, -, hdigits⟩ | ⟨before, -, hbefore⟩
      · rw [hdigits]
        exact List.mem_append_right _ (List.mem_singleton_self 'n')
      · rcases List.append_eq_singleton_iff.mp hbefore.symm with ⟨-, hdigits⟩ | ⟨-, hnil⟩
        · rw [hdigits]
          exact List.mem_singleton_self 'n'
        · exact absurd hnil hne
    exact absurd (Decimal.isDigit_of_mem_ofNat hn) (by decide)
  · refine iff_of_true ?_ hsmall
    rw [if_neg (mt hstarts.mp hsmall)]
    obtain ⟨s, hsign, hs⟩ := sign_signText d.digits
    have hlen := length_frac h
    refine ⟨signText d.digits, s, Decimal.ofNat (d.digits.natAbs / 10 ^ d.scale.natAbs),
      Decimal.pad d.scale.natAbs (d.digits.natAbs % 10 ^ d.scale.natAbs), [], 0, hsign,
      Decimal.numeral_ofNat _, ?_, fun c hc => Decimal.isDigit_of_mem_pad hc, .none, ?_, ?_⟩
    · refine List.ne_nil_of_length_pos ?_
      rw [hlen]
      exact Int.natAbs_pos.mpr h.ne'
    · rw [text_of_scale_pos h]
      simp
    · have hscale : d.scale = (d.scale.natAbs : Int) := by omega
      rw [Decimal.value_append, Decimal.value_ofNat, Decimal.value_pad, hlen, Nat.mul_comm,
        Nat.div_add_mod, value, cast_eq_mul_natAbs hs, zero_sub, mul_assoc, ← hscale]

end BigDecimal

/-- **Which big numbers denote themselves** when they are printed: all but the decimals that are
printed with a negative exponent. -/
theorem denotesItself_iff (x : BigNumber) : x.DenotesItself ↔
    ∀ d, x = .decimal d → ¬ d.Small := by
  cases x with
  | bigInt n => exact iff_of_true (bigintLiteral_formatBigint n) fun d hd => by cases hd
  | decimal d =>
      have hdecimal : BigNumber.DenotesItself (.decimal d) ↔ ¬ d.Small := by
        by_cases h : d.scale ≤ 0
        · exact iff_of_true (BigDecimal.decimalLiteral_of_scale_le h) fun hsmall => by
            have := hsmall.1
            omega
        · exact BigDecimal.decimalLiteral_iff_of_scale_pos (Int.not_le.mp h)
      rw [hdecimal]
      constructor
      · rintro hsmall d' hd
        cases hd
        exact hsmall
      · exact fun hall => hall d rfl

/-- A millionth. -/
def millionth : BigNumber := .decimal ⟨1, 6⟩

theorem not_denotesItself_millionth : ¬ ∀ x : BigNumber, x.DenotesItself := by
  intro h
  obtain ⟨sign, s, int, frac, e, k, -, -, -, -, -, ht, -⟩ := h millionth
  have hprinted : BigNumber.printed millionth = "0.1e-5".toList := by decide +kernel
  have hlast := congrArg List.getLast? (hprinted.symm.trans ht)
  rw [List.getLast?_concat] at hlast
  exact absurd hlast (by decide)

end GelCli.Print
