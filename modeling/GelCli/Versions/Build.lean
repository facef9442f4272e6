import Mathlib.Data.Prod.Lex
import GelCli.Foundation.Decimal
import GelCli.Foundation.Regex

/-!
# Build and specific versions

The versions of packages in `src/portable/ver.rs`: a build version is a text that the
pattern `BUILD` accepts, and the specific version that it names is read again from the
text, with another pattern, whenever two builds are compared.
-/

namespace GelCli.Versions

open GelCli.Foundation

/-- The characters of `\d`: the decimal digits of every script. -/
structure Digits where
  isDigit : Char → Bool
  ascii : ∀ c, c.toNat < 128 → isDigit c = c.isDigit

def Digits.asciiOnly : Digits := ⟨Char.isDigit, fun _ _ => rfl⟩

/-! ## Versions and their order -/

inductive MinorVersion where
  | alpha (v : UInt32)
  | beta (v : UInt32)
  | rc (v : UInt32)
  | dev (v : UInt32)
  | minor (v : UInt32)
deriving DecidableEq, Repr

structure Specific where
  major : UInt32
  minor : MinorVersion
deriving DecidableEq, Repr

/-- The derived order goes by the variant, then by the number. -/
def MinorVersion.key : MinorVersion → ℕ ×ₗ ℕ
  | .alpha v => toLex (0, v.toNat)
  | .beta v => toLex (1, v.toNat)
  | .rc v => toLex (2, v.toNat)
  | .dev v => toLex (3, v.toNat)
  | .minor v => toLex (4, v.toNat)

def Specific.key (s : Specific) : ℕ ×ₗ ℕ ×ₗ ℕ := toLex (s.major.toNat, s.minor.key)

theorem MinorVersion.key_injective : Function.Injective MinorVersion.key := by
  intro a b h
  cases a <;> cases b <;>
    simp_all [MinorVersion.key, Prod.ext_iff, UInt32.toNat_inj]

theorem Specific.key_injective : Function.Injective Specific.key := by
  intro a b h
  have hmajor : a.major.toNat = b.major.toNat := congrArg (fun k => (ofLex k).1) h
  have hminor : a.minor.key = b.minor.key := congrArg (fun k => (ofLex k).2) h
  obtain ⟨major, minor⟩ := a
  obtain ⟨major', minor'⟩ := b
  obtain rfl : major = major' := UInt32.toNat_inj.mp hmajor
  obtain rfl : minor = minor' := MinorVersion.key_injective hminor
  rfl

instance minorVersionOrder : LinearOrder MinorVersion :=
  LinearOrder.lift' MinorVersion.key MinorVersion.key_injective

instance specificOrder : LinearOrder Specific :=
  LinearOrder.lift' Specific.key Specific.key_injective

theorem Specific.le_iff {a b : Specific} :
    a ≤ b ↔ a.major.toNat < b.major.toNat ∨ a.major = b.major ∧ a.minor ≤ b.minor := by
  show a.key ≤ b.key ↔ _
  rw [Specific.key, Specific.key, Prod.Lex.toLex_le_toLex, UInt32.toNat_inj]
  rfl

theorem MinorVersion.le_iff {a b : MinorVersion} : a ≤ b ↔ a.key ≤ b.key := Iff.rfl

/-! ## Numbers -/

def parseU32Step (n : Nat) (c : Char) : Except String Nat :=
  if c.isDigit then
    if 10 * n + (c.toNat - 48) < 2 ^ 32 then .ok (10 * n + (c.toNat - 48))
    else .error "number too large to fit in target type"
  else .error "invalid digit found in string"

/-- `str::parse::<u32>`. -/
def parseU32 (t : Text) : Except String UInt32 :=
  match t with
  | [] => .error "cannot parse integer from empty string"
  | ['+'] => .error "invalid digit found in string"
  | '+' :: rest => (rest.foldlM parseU32Step 0).map UInt32.ofNat
  | t => (t.foldlM parseU32Step 0).map UInt32.ofNat

/-- The digits of a number below 2^32. -/
def Fits (t : Text) : Prop := t ≠ [] ∧ (∀ c ∈ t, c.isDigit) ∧ Decimal.value t < 2 ^ 32

theorem le_ofDigitChars (t : Text) (n : Nat) : n ≤ Nat.ofDigitChars 10 t n := by
  induction t generalizing n with
  | nil => simp
  | cons c t ih =>
      rw [Nat.ofDigitChars_cons]
      exact le_trans (by omega) (ih _)

theorem foldlM_parseU32Step {t : Text} {n m : Nat} (hn : n < 2 ^ 32) :
    t.foldlM parseU32Step n = .ok m ↔
      (∀ c ∈ t, c.isDigit) ∧ Nat.ofDigitChars 10 t n = m ∧ m < 2 ^ 32 := by
  induction t generalizing n with
  | nil =>
      rw [List.foldlM_nil, Nat.ofDigitChars_nil]
      constructor
      · intro h
        cases h
        exact ⟨(fun c hc => by cases hc), rfl, hn⟩
      · rintro ⟨-, rfl, -⟩
        rfl
  | cons c t ih =>
      rw [List.foldlM_cons, Nat.ofDigitChars_cons]
      by_cases hc : c.isDigit
      · by_cases hlt : 10 * n + (c.toNat - 48) < 2 ^ 32
        · have hstep : parseU32Step n c = .ok (10 * n + (c.toNat - 48)) := by
            rw [parseU32Step, if_pos hc, if_pos hlt]
          rw [hstep]
          show List.foldlM parseU32Step _ t = _ ↔ _
          rw [ih hlt, List.forall_mem_cons]
          exact ⟨fun ⟨h, hm⟩ => ⟨⟨hc, h⟩, hm⟩, fun ⟨⟨_, h⟩, hm⟩ => ⟨h, hm⟩⟩
        · have hstep : parseU32Step n c = .error "number too large to fit in target type" := by
            rw [parseU32Step, if_pos hc, if_neg hlt]
          rw [hstep]
          constructor
          · intro h
            cases h
          · rintro ⟨-, rfl, hm⟩
            exact absurd (lt_of_le_of_lt (le_ofDigitChars t _) hm) hlt
      · have hstep : parseU32Step n c = .error "invalid digit found in string" := by
          rw [parseU32Step, if_neg hc]
        rw [hstep]
        constructor
        · intro h
          cases h
        · rintro ⟨h, -⟩
          exact absurd (h c List.mem_cons_self) hc

/-- Digits alone are read exactly when their number fits. -/
theorem parseU32_eq_ok {t : Text} {v : UInt32} (hsign : t.head? ≠ some '+') :
    parseU32 t = .ok v ↔ Fits t ∧ Decimal.value t = v.toNat := by
  have hparse : t ≠ [] → parseU32 t = (t.foldlM parseU32Step 0).map UInt32.ofNat := by
    intro hne
    unfold parseU32
    split
    · exact absurd rfl hne
    · exact absurd rfl hsign
    · exact absurd rfl hsign
    · rfl
  by_cases hne : t = []
  · subst hne
    constructor
    · intro h
      cases h
    · rintro ⟨⟨hne, -⟩, -⟩
      exact absurd rfl hne
  · rw [hparse hne]
    constructor
    · intro h
      cases hfold : t.foldlM parseU32Step 0 with
      | error e =>
          rw [hfold] at h
          cases h
      | ok m =>
          rw [hfold] at h
          cases h
          obtain ⟨hdigits, hvalue, hlt⟩ := (foldlM_parseU32Step (by decide)).mp hfold
          have hvalue : Decimal.value t = m := hvalue
          exact ⟨⟨hne, hdigits, by rw [hvalue]; exact hlt⟩,
            hvalue.trans (UInt32.toNat_ofNat_of_lt' hlt).symm⟩
    · rintro ⟨⟨-, hdigits, hlt⟩, hvalue⟩
      rw [(foldlM_parseU32Step (by decide)).mpr ⟨hdigits, rfl, hlt⟩]
      show Except.ok (UInt32.ofNat (Decimal.value t)) = _
      rw [hvalue, UInt32.ofNat_toNat]

theorem Fits.exists_parse {t : Text} (h : Fits t) (hsign : t.head? ≠ some '+') :
    ∃ v, parseU32 t = .ok v ∧ v.toNat = Decimal.value t := by
  have hv : (UInt32.ofNat (Decimal.value t)).toNat = Decimal.value t :=
    UInt32.toNat_ofNat_of_lt' h.2.2
  exact ⟨_, (parseU32_eq_ok hsign).mpr ⟨h, hv.symm⟩, hv⟩

theorem Fits.ofNat (v : UInt32) : Fits (Decimal.ofNat v.toNat) := by
  refine ⟨Nat.toDigits_ne_nil, fun c hc => Decimal.isDigit_of_mem_ofNat hc, ?_⟩
  rw [Decimal.value_ofNat]
  exact v.toNat_lt

/-! ## Pre-release names -/

inductive Stage where
  | alpha | beta | rc | dev
deriving DecidableEq, Repr

namespace Stage

def name : Stage → Text
  | .alpha => "alpha".toList
  | .beta => "beta".toList
  | .rc => "rc".toList
  | .dev => "dev".toList

def ofName? (t : Text) : Option Stage := [alpha, beta, rc, dev].find? fun stage => stage.name = t

def minorVersion : Stage → UInt32 → MinorVersion
  | .alpha => .alpha
  | .beta => .beta
  | .rc => .rc
  | .dev => .dev

@[simp] theorem ofName?_name (stage : Stage) : ofName? stage.name = some stage := by
  cases stage <;> decide

theorem name_injective : Function.Injective name := by
  intro a b h
  have hname := ofName?_name a
  rw [h, ofName?_name] at hname
  exact (Option.some.inj hname).symm

theorem dot_notMem_name (stage : Stage) : '.' ∉ stage.name := by
  cases stage <;> decide

theorem mem_names {t : Text} :
    t ∈ ["alpha".toList, "beta".toList, "rc".toList, "dev".toList] ↔ ∃ stage, t = name stage := by
  constructor
  · intro h
    simp only [List.mem_cons, List.not_mem_nil, or_false] at h
    rcases h with rfl | rfl | rfl | rfl
    · exact ⟨.alpha, rfl⟩
    · exact ⟨.beta, rfl⟩
    · exact ⟨.rc, rfl⟩
    · exact ⟨.dev, rfl⟩
  · rintro ⟨stage, rfl⟩
    cases stage <;> simp [name]

end Stage

/-! ## The patterns -/

section Parsing

variable (d : Digits)

/-- `[a-f0-9]` -/
def hexDigit (c : Char) : Bool := 'a' ≤ c ∧ c ≤ 'f' ∨ '0' ≤ c ∧ c ≤ '9'

/-- `^\d+\.\d+(?:\.\d+)?(?:-(?:alpha|beta|rc|dev)\.\d+)?\+(?:[a-f0-9]{7}|local)$` -/
def buildRegex : Regex Nat :=
  .seq (.plus d.isDigit) <| .seq (.word ['.']) <| .seq (.plus d.isDigit) <|
  .seq (.opt (.seq (.word ['.']) (.plus d.isDigit))) <|
  .seq (.opt (.seq (.word ['-'])
    (.seq (.words "alpha".toList ["beta".toList, "rc".toList, "dev".toList])
    (.seq (.word ['.']) (.plus d.isDigit))))) <|
  .seq (.word ['+']) <| .seq (.alt ((Regex.set hexDigit).times 7) (.word "local".toList)) .atEnd

/-- `^(\d+)(?:\.0-(alpha|beta|rc|dev)\.(\d+)|\.(\d+))(?:$|\+)` -/
def specificRegex : Regex Nat :=
  .seq (.group 1 (.plus d.isDigit)) <|
  .seq (.alt
    (.seq (.word ".0-".toList)
      (.seq (.group 2 (.words "alpha".toList ["beta".toList, "rc".toList, "dev".toList]))
      (.seq (.word ['.']) (.group 3 (.plus d.isDigit)))))
    (.seq (.word ['.']) (.group 4 (.plus d.isDigit)))) <|
  .alt .atEnd (.word ['+'])

/-! ## Reading versions -/

/-- `Option::unwrap`, whose panic is an error here; no group comes to it. -/
def unwrap {α : Type} : Option α → Except String α
  | some a => .ok a
  | none => .error "called `Option::unwrap()` on a `None` value"

theorem unwrap_some {α : Type} (a : α) : unwrap (some a) = pure a := rfl

theorem mapM_none {α β : Type} (f : α → Except String β) : none.mapM f = pure none := rfl

theorem mapM_some {α β : Type} (f : α → Except String β) (a : α) :
    (some a).mapM f = f a >>= fun b => pure (some b) := by
  rw [bind_pure_comp]
  rfl

def unsupportedVersion : String :=
  "unsupported version format.\n\tExamples: `1.15`, `7.0`, `4.0-rc.1`.\n\tUse `gel " ++
    "server list-versions` to see all available versions."

def Specific.fromStr (value : Text) : Except String Specific :=
  match (specificRegex d).captures value with
  | none => .error unsupportedVersion
  | some m => do
      let major ← parseU32 (← unwrap (m.lookup 1))
      let g3 ← (m.lookup 3).mapM parseU32
      match (m.lookup 2).map Stage.ofName? with
      | some (some stage) => return ⟨major, stage.minorVersion (← unwrap g3)⟩
      | some none => .error "internal error: entered unreachable code"
      | none => return ⟨major, .minor (← unwrap (← (m.lookup 4).mapM parseU32))⟩

structure Build where
  text : Text
deriving DecidableEq, Repr

def Build.fromStr (value : Text) : Except String Build :=
  if (buildRegex d).isMatch value then .ok ⟨value⟩
  else .error ("unsupported build version format: " ++ String.ofList value)

/-- `none` is the panic of `expect("build version is valid")`. -/
def Build.specific (b : Build) : Option Specific := (Specific.fromStr d b.text).toOption

/-- `Ord::cmp` of builds; `none` is the panic. -/
def Build.cmp (a b : Build) : Option Ordering := do
  return compare (← a.specific d) (← b.specific d)

end Parsing

end GelCli.Versions
