import Mathlib.Data.Prod.Lex
import GelCli.Foundation.Decimal

/-!
# Versions, lines and phases

The names that the release tooling reads with regular expressions: plain and
preview versions, release lines, generated heads, object names and digests. The
patterns are the same in `preview.py`, `models.py`, `release_state.py` and
`github_release.py`, and each definition is one of them, matched in full.
-/

namespace GelCli.Release

open GelCli.Foundation

/-! ## Phases -/

inductive Phase where
  | alpha | beta | rc
deriving DecidableEq, Repr

namespace Phase

def name : Phase → Text
  | .alpha => "alpha".toList
  | .beta => "beta".toList
  | .rc => "rc".toList

def ofName? (t : Text) : Option Phase := [alpha, beta, rc].find? fun phase => phase.name = t

/-- `_PHASE_LABELS`. -/
def label (phase : Phase) : Text := "prerelease:".toList ++ phase.name

def ofLabel? (t : Text) : Option Phase := [alpha, beta, rc].find? fun phase => phase.label = t

@[simp] theorem ofName?_name (phase : Phase) : ofName? phase.name = some phase := by
  cases phase <;> decide

theorem ofName?_eq_some {t : Text} {phase : Phase} : ofName? t = some phase ↔ t = phase.name := by
  constructor
  · intro h
    have hname := List.find?_some h
    exact (of_decide_eq_true hname).symm
  · rintro rfl
    exact ofName?_name phase

theorem name_injective : Function.Injective name := by
  intro p q h
  have hname := ofName?_name p
  rw [h, ofName?_name] at hname
  exact (Option.some.inj hname).symm

theorem dot_notMem_name (phase : Phase) : '.' ∉ phase.name := by
  cases phase <;> decide

end Phase

/-! ## Plain versions -/

/-- A plain version, compared as a tuple. -/
abbrev Plain := ℕ ×ₗ ℕ ×ₗ ℕ

def plain (major minor patch : ℕ) : Plain := toLex (major, toLex (minor, patch))

def plainText (v : Plain) : Text :=
  Decimal.ofNat (ofLex v).1 ++ '.' :: (Decimal.ofNat (ofLex (ofLex v).2).1 ++
    '.' :: Decimal.ofNat (ofLex (ofLex v).2).2)

/-- `^C\.C\.C$` with `C = (?:0|[1-9][0-9]*)`, and its three groups as integers. -/
def plainMatch (t : Text) : Option Plain :=
  match t.splitOn '.' with
  | [major, minor, patch] =>
      if Decimal.numeral major ∧ Decimal.numeral minor ∧ Decimal.numeral patch then
        some (plain (Decimal.value major) (Decimal.value minor) (Decimal.value patch))
      else none
  | _ => none

theorem splitOn_dots {a b c : Text} (ha : '.' ∉ a) (hb : '.' ∉ b) (hc : '.' ∉ c) :
    (a ++ '.' :: (b ++ '.' :: c)).splitOn '.' = [a, b, c] := by
  rw [List.splitOn_append_cons_self_of_not_mem ha, List.splitOn_append_cons_self_of_not_mem hb,
    List.splitOn_eq_singleton hc]

theorem dot_notMem_ofNat (n : ℕ) : '.' ∉ Decimal.ofNat n :=
  Decimal.notMem_of_numeral (Decimal.numeral_ofNat n) (by decide)

@[simp] theorem plainMatch_plainText (v : Plain) : plainMatch (plainText v) = some v := by
  rw [plainMatch, plainText,
    splitOn_dots (dot_notMem_ofNat _) (dot_notMem_ofNat _) (dot_notMem_ofNat _)]
  simp only [Decimal.numeral_ofNat, and_self, if_true, Decimal.value_ofNat]
  rfl

theorem plainMatch_eq_some {t : Text} {v : Plain} :
    plainMatch t = some v ↔ t = plainText v := by
  constructor
  · intro h
    unfold plainMatch at h
    split at h
    · next major minor patch hsplit =>
      split at h
      · next hnumerals =>
        obtain ⟨hmajor, hminor, hpatch⟩ := hnumerals
        cases h
        have hjoin : ['.'].intercalate (t.splitOn '.') = t := List.intercalate_splitOn '.'
        rw [hsplit] at hjoin
        rw [← hjoin]
        simp [plainText, plain, Decimal.ofNat_value hmajor, Decimal.ofNat_value hminor,
          Decimal.ofNat_value hpatch, List.intercalate]
      · cases h
    · cases h
  · rintro rfl
    exact plainMatch_plainText v

theorem plainText_injective : Function.Injective plainText := by
  intro v w h
  have hmatch := plainMatch_plainText v
  rw [h, plainMatch_plainText] at hmatch
  exact (Option.some.inj hmatch).symm

/-- A plain version is made of digits and dots. -/
theorem notMem_plainText (v : Plain) {c : Char} (hdigit : ¬ c.isDigit) (hdot : c ≠ '.') :
    c ∉ plainText v := by
  have hnumeral : ∀ n, c ∉ Decimal.ofNat n :=
    fun n => Decimal.notMem_of_numeral (Decimal.numeral_ofNat n) hdigit
  simp [plainText, hnumeral, hdot]

/-! ## Preview versions -/

structure PreviewMatch where
  base : Text
  phase : Phase
  number : ℕ
deriving DecidableEq, Repr

/-- `f"{base}-{phase}.{number}"`. -/
def previewText (m : PreviewMatch) : Text :=
  m.base ++ '-' :: (m.phase.name ++ '.' :: Decimal.ofNat m.number)

/-- `^(base)-(alpha|beta|rc)\.([1-9][0-9]*)$`. -/
def previewMatch (t : Text) : Option PreviewMatch :=
  match Text.cut '-' t with
  | none => none
  | some (base, rest) =>
      match plainMatch base, Text.cut '.' rest with
      | some _, some (name, number) =>
          match Phase.ofName? name with
          | some phase =>
              if Decimal.positive number then some ⟨base, phase, Decimal.value number⟩ else none
          | none => none
      | _, _ => none

theorem previewMatch_previewText {m : PreviewMatch} {v : Plain} (hbase : m.base = plainText v)
    (hnumber : 0 < m.number) : previewMatch (previewText m) = some m := by
  have hdash : '-' ∉ m.base := hbase ▸ notMem_plainText v (by decide) (by decide)
  have hmatch : plainMatch m.base = some v := plainMatch_eq_some.mpr hbase
  rw [previewMatch, previewText, Text.cut_append hdash]
  simp only [hmatch, Text.cut_append m.phase.dot_notMem_name, Phase.ofName?_name,
    Decimal.positive_ofNat hnumber, if_true, Decimal.value_ofNat]

theorem previewMatch_eq_some {t : Text} {m : PreviewMatch} :
    previewMatch t = some m ↔
      t = previewText m ∧ (∃ v, m.base = plainText v) ∧ 0 < m.number := by
  constructor
  · intro h
    unfold previewMatch at h
    split at h
    · cases h
    · next base rest hcut =>
      split at h
      · next v name number hbase hrest =>
        split at h
        · next phase hphase =>
          split at h
          · next hnumber =>
            cases h
            refine ⟨?_, ⟨v, plainMatch_eq_some.mp hbase⟩, Decimal.value_pos hnumber⟩
            rw [(Text.cut_eq_some hcut).1, (Text.cut_eq_some hrest).1,
              Phase.ofName?_eq_some.mp hphase, previewText, Decimal.ofNat_value_of_positive hnumber]
          · cases h
        · cases h
      · cases h
  · rintro ⟨rfl, ⟨v, hbase⟩, hnumber⟩
    exact previewMatch_previewText hbase hnumber

/-! ## Lines, heads and digests -/

/-- `^start([1-9][0-9]*)\.x$`. -/
def numberedLine (start : String) (t : Text) : Option ℕ :=
  match start.toList.isPrefixOf? t with
  | none => none
  | some rest =>
      match Text.cut '.' rest with
      | some (number, ['x']) =>
          if Decimal.positive number then some (Decimal.value number) else none
      | _ => none

/-- `_LINE_PATTERN`. -/
def lineMatch (t : Text) : Option ℕ := numberedLine "release/v" t

theorem lineMatch_pos {line : Text} {major : ℕ} (h : lineMatch line = some major) : 1 ≤ major := by
  unfold lineMatch numberedLine at h
  split at h
  · cases h
  · split at h
    · split at h
      · next hpositive =>
        cases h
        exact Decimal.value_pos hpositive
      · cases h
    · cases h

/-- `_HEAD_PATTERN`. -/
def headMatch (t : Text) : Option ℕ := numberedLine "knope/release-v" t

def lowerHex (c : Char) : Bool := c.isDigit || ('a' ≤ c && c ≤ 'f')

/-- `^[0-9a-f]{40}$`. -/
def gitSha (t : Text) : Bool := t.length == 40 && t.all lowerHex

/-- `^[0-9a-f]{64}$`. -/
def snapshot (t : Text) : Bool := t.length == 64 && t.all lowerHex

end GelCli.Release
