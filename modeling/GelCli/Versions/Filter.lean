import GelCli.Versions.Build

/-!
# Version filters

`Filter` of `src/portable/ver.rs`: the version that is stored in the configuration and
in the `--version=` arguments, how it is read and printed, and which versions match it.
-/

namespace GelCli.Versions

open GelCli.Foundation

inductive FilterMinor where
  | dev (v : UInt32)
  | alpha (v : UInt32)
  | beta (v : UInt32)
  | rc (v : UInt32)
  | minor (v : UInt32)
deriving DecidableEq, Repr

structure Filter where
  major : UInt32
  minor : Option FilterMinor
  exact : Bool
deriving DecidableEq, Repr

def Stage.filterMinor : Stage → UInt32 → FilterMinor
  | .alpha => .alpha
  | .beta => .beta
  | .rc => .rc
  | .dev => .dev

section Parsing

variable (d : Digits)

/-- `FILTER`:
`^(=)?(\d+)(?:\.0-(dev|alpha|beta|rc)\.(\d+)|\.(\d+))?$`, whose groups are named. -/
def filterRegex : Regex String :=
  .seq (.opt (.group "marker" (.word ['=']))) <| .seq (.group "major" (.plus d.isDigit)) <|
  .seq (.opt (.alt
    (.seq (.word ".0-".toList)
      (.seq (.group "dev" (.words "dev".toList ["alpha".toList, "beta".toList, "rc".toList]))
      (.seq (.word ['.']) (.group "dev_num" (.plus d.isDigit)))))
    (.seq (.word ['.']) (.group "minor" (.plus d.isDigit))))) .atEnd

/-- `OLD_FILTER`:
`^(\d+)(?:(?:\.0)?-(alpha|beta|rc)\.?(\d+)|\.(\d+))?$`, whose groups are named. -/
def oldFilterRegex : Regex String :=
  .seq (.group "major" (.plus d.isDigit)) <|
  .seq (.opt (.alt
    (.seq (.opt (.word ".0".toList))
      (.seq (.word ['-'])
      (.seq (.group "dev" (.words "alpha".toList ["beta".toList, "rc".toList]))
      (.seq (.opt (.word ['.'])) (.group "dev_num" (.plus d.isDigit))))))
    (.seq (.word ['.']) (.group "minor" (.plus d.isDigit))))) .atEnd

def unsupportedFilter : String :=
  "unsupported version format.\n\tExamples: `1.15`, `7`, `4.0-rc.1`.\n\tUse `gel " ++
    "server list-versions` to see all available versions."

/-- The minor version that the groups name, `g3` being the number behind a stage. -/
def readMinor (m : List (String × Text)) (g3 : Option UInt32) :
    Except String (Option FilterMinor) :=
  match (m.lookup "dev").map Stage.ofName? with
  | some (some stage) => .ok (g3.map stage.filterMinor)
  | some none => .error "internal error: entered unreachable code"
  | none => do
      let minor ← (m.lookup "minor").mapM parseU32
      return minor.map .minor

/-- The warning about the deprecated format is left out. -/
def Filter.fromStr (value : Text) : Except String Filter :=
  match ((filterRegex d).captures value).or ((oldFilterRegex d).captures value) with
  | none => .error unsupportedFilter
  | some m => do
      let major ← parseU32 (← unwrap (m.lookup "major"))
      let g3 ← (m.lookup "dev_num").mapM parseU32
      let minor ← readMinor m g3
      let exact := (((m.lookup "marker").map (· == ['='])).getD false) && minor.isSome
      return ⟨major, minor, exact⟩

end Parsing

namespace Filter

/-- `Display` -/
def display (f : Filter) : Text :=
  (if f.exact then ['='] else []) ++ Decimal.ofNat f.major.toNat ++
    match f.minor with
    | none => []
    | some (.dev v) => ".0-dev.".toList ++ Decimal.ofNat v.toNat
    | some (.alpha v) => ".0-alpha.".toList ++ Decimal.ofNat v.toNat
    | some (.beta v) => ".0-beta.".toList ++ Decimal.ofNat v.toNat
    | some (.rc v) => ".0-rc.".toList ++ Decimal.ofNat v.toNat
    | some (.minor v) => ".".toList ++ Decimal.ofNat v.toNat

/-- The same kind with the same number. -/
def isMinor : MinorVersion → FilterMinor → Bool
  | .dev v, .dev q => v == q
  | .minor v, .minor q => v == q
  | .alpha v, .alpha q => v == q
  | .beta v, .beta q => v == q
  | .rc v, .rc q => v == q
  | _, _ => false

def matchesExact (f : Filter) (spec : Specific) : Bool :=
  spec.major == f.major && isMinor spec.minor (f.minor.getD (.minor 0))

/-- The arms for a filter that is not exact, in their order; `first` stands for the
guard `spec.major == 1`, with which every pre-release is a version of its own. -/
def matchesMinor (first : Bool) : MinorVersion → FilterMinor → Bool
  | .minor v, .minor q => q ≤ v
  | .minor _, _ => !first
  | .dev v, .dev q => v == q
  | v, q => if first then isMinor v q else
      match v, q with
      | .alpha v, .alpha q => q ≤ v
      | .beta _, .alpha _ => true
      | .rc _, .alpha _ => true
      | .beta v, .beta q => q ≤ v
      | .rc _, .beta _ => true
      | .rc v, .rc q => q ≤ v
      | _, _ => false

def matchesSpecific (f : Filter) (spec : Specific) : Bool :=
  if f.exact then f.matchesExact spec
  else spec.major == f.major &&
    matchesMinor (spec.major == 1) spec.minor (f.minor.getD (.minor 0))

/-- Without a minor only the major counts. -/
def matchesLoose (f : Filter) (spec : Specific) : Bool :=
  if f.exact then f.matchesExact spec
  else if f.minor.isNone then spec.major == f.major
  else f.matchesSpecific spec

def withExact (f : Filter) : Filter := ⟨f.major, f.minor, true⟩

/-- `none` is the panic of `Build::specific`. -/
def «matches» (d : Digits) (f : Filter) (b : Build) : Option Bool :=
  (b.specific d).map f.matchesSpecific

end Filter

end GelCli.Versions
