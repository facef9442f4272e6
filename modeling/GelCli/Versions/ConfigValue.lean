import GelCli.Foundation.Results
import GelCli.Versions.FromVersion
import GelCli.Versions.Shapes

/-!
# Queries in the configuration

A query is written as the text of its filter or as a keyword for its channel, and the
channel is found again from the text. The pattern `FILTER` reads the text of a filter
back, so the query comes back when the channel is the one that its filter stands for.
-/

namespace GelCli.Versions

open GelCli.Foundation GelCli.Registry

variable {d : Digits}

/-! ## The groups of a filter -/

def markText (marked : Bool) : Text := if marked then ['='] else []

def markGroups (marked : Bool) : List (String × Text) := if marked then [("marker", ['='])] else []

/-- What stands behind the major version. -/
inductive FilterTail (d : Digits) : Text → List (String × Text) → Prop where
  | bare : FilterTail d [] []
  | stage (stage : Stage) {n : Text} (hn : Number d n) :
      FilterTail d ('.' :: '0' :: '-' :: (stage.name ++ '.' :: n))
        [("dev", stage.name), ("dev_num", n)]
  | minor {minor : Text} (hminor : Number d minor) : FilterTail d ('.' :: minor) [("minor", minor)]

inductive FilterShape (d : Digits) : Text → List (String × Text) → Prop where
  | mk (marked : Bool) {major tail : Text} {g : List (String × Text)} (hmajor : Number d major)
      (htail : FilterTail d tail g) :
      FilterShape d (markText marked ++ (major ++ tail))
        (markGroups marked ++ ("major", major) :: g)

theorem mem_filterNames {t : Text} :
    t ∈ ["dev".toList, "alpha".toList, "beta".toList, "rc".toList] ↔
      ∃ stage, t = Stage.name stage := by
  rw [← Stage.mem_names]
  simp only [List.mem_cons, List.not_mem_nil, or_false]
  constructor
  · rintro (h | h | h | h) <;> simp [h]
  · rintro (h | h | h | h) <;> simp [h]

theorem reads_mark {g : List (String × Text)} {t rest : Text} :
    (Regex.opt (.group "marker" (.word ['=']))).Reads g t rest ↔
      ∃ marked, t = markText marked ++ rest ∧ g = markGroups marked := by
  constructor
  · rintro (h | ⟨rfl, rfl⟩)
    · obtain ⟨rfl, rfl⟩ := Regex.reads_group_word.mp h
      exact ⟨true, rfl, rfl⟩
    · exact ⟨false, rfl, rfl⟩
  · rintro ⟨_ | _, rfl, rfl⟩
    · exact .inr ⟨rfl, rfl⟩
    · exact .inl (Regex.reads_group_word.mpr ⟨rfl, rfl⟩)

theorem reads_filterTail {g : List (String × Text)} {t rest : Text} :
    (Regex.seq (.opt (.alt
      (.seq (.word ".0-".toList)
        (.seq (.group "dev" (.words "dev".toList ["alpha".toList, "beta".toList, "rc".toList]))
        (.seq (.word ['.']) (.group "dev_num" (.plus d.isDigit)))))
      (.seq (.word ['.']) (.group "minor" (.plus d.isDigit))))) .atEnd).Reads g t rest ↔
      FilterTail d t g ∧ rest = [] := by
  constructor
  · rintro ⟨_, _, _, (⟨_, _, _, ⟨rfl, rfl⟩, ⟨_, _, _, hword, ⟨_, _, _, ⟨rfl, rfl⟩, hlast, rfl⟩,
      rfl⟩, rfl⟩ | ⟨_, _, _, ⟨rfl, rfl⟩, hlast, rfl⟩) | ⟨rfl, rfl⟩, ⟨rfl, rfl, rfl⟩, rfl⟩
    · obtain ⟨name, hname, rfl, rfl⟩ := Regex.reads_group_words.mp hword
      obtain ⟨stage, rfl⟩ := mem_filterNames.mp hname
      obtain ⟨n, hn, rfl, rfl⟩ := Regex.reads_group_plus.mp hlast
      have htail := FilterTail.stage stage hn
      exact ⟨by simpa using htail, rfl⟩
    · obtain ⟨minor, hminor, rfl, rfl⟩ := Regex.reads_group_plus.mp hlast
      have htail := FilterTail.minor hminor
      exact ⟨by simpa using htail, rfl⟩
    · exact ⟨.bare, rfl⟩
  · rintro ⟨_ | ⟨stage, hn⟩ | hminor, rfl⟩
    · exact ⟨[], [], [], .inr ⟨rfl, rfl⟩, ⟨rfl, rfl, rfl⟩, rfl⟩
    · refine ⟨_, [], [], .inl (.inl ⟨_, _, _, ⟨rfl, rfl⟩, ⟨_, _, _,
        Regex.reads_group_words.mpr ⟨_, mem_filterNames.mpr ⟨stage, rfl⟩, rfl, rfl⟩,
        ⟨_, _, _, ⟨rfl, rfl⟩, Regex.reads_group_plus.mpr ⟨_, hn, ?_, rfl⟩, rfl⟩, rfl⟩, rfl⟩),
        ⟨rfl, rfl, rfl⟩, rfl⟩
      simp
    · refine ⟨_, [], [], .inl (.inr ⟨_, _, _, ⟨rfl, rfl⟩,
        Regex.reads_group_plus.mpr ⟨_, hminor, ?_, rfl⟩, rfl⟩), ⟨rfl, rfl, rfl⟩, rfl⟩
      simp

theorem filterShape_iff {t : Text} {g : List (String × Text)} :
    (∃ rest, (filterRegex d).Reads g t rest) ↔ FilterShape d t g := by
  constructor
  · rintro ⟨rest, _, _, _, hmark, ⟨_, _, _, hmajor, htail, rfl⟩, rfl⟩
    obtain ⟨marked, rfl, rfl⟩ := reads_mark.mp hmark
    obtain ⟨major, hnumber, rfl, rfl⟩ := Regex.reads_group_plus.mp hmajor
    exact .mk marked hnumber (reads_filterTail.mp htail).1
  · rintro ⟨marked, hmajor, htail⟩
    exact ⟨[], _, _, _, reads_mark.mpr ⟨marked, rfl, rfl⟩, ⟨_, _, _,
      Regex.reads_group_plus.mpr ⟨_, hmajor, rfl, rfl⟩, reads_filterTail.mpr ⟨htail, rfl⟩, rfl⟩,
      rfl⟩

theorem FilterTail.stops {t : Text} {g : List (String × Text)} (h : FilterTail d t g) :
    Regex.Stops d.isDigit t := by
  cases h with
  | bare =>
      intro c hc
      cases hc
  | stage stage hn => exact stops_cons (by decide) (by decide) _
  | minor hminor => exact stops_cons (by decide) (by decide) _

theorem FilterTail.unique {t : Text} {g g' : List (String × Text)} (h : FilterTail d t g)
    (h' : FilterTail d t g') : g' = g := by
  generalize ht : t = t' at h'
  cases h with
  | bare =>
      cases h' with
      | bare => rfl
      | stage stage hn => cases ht
      | minor hminor => cases ht
  | stage stage hn =>
      cases h' with
      | bare => cases ht
      | stage stage' hn' =>
          simp only [List.cons.injEq, true_and] at ht
          obtain ⟨hname, rfl⟩ := Text.append_cons_inj stage.dot_notMem_name
            stage'.dot_notMem_name ht
          rw [hname]
      | minor hminor =>
          have hdash := hminor.2 '-' (by rw [← (List.cons.inj ht).2]; simp)
          exact absurd hdash (Digits.not_isDigit (by decide) (by decide))
  | minor hminor =>
      cases h' with
      | bare => cases ht
      | stage stage' hn' =>
          have hdash := hminor.2 '-' (by rw [(List.cons.inj ht).2]; simp)
          exact absurd hdash (Digits.not_isDigit (by decide) (by decide))
      | minor hminor' => rw [(List.cons.inj ht).2]

theorem Number.head_ne_mark {t : Text} (h : Number d t) (rest rest' : Text) :
    t ++ rest ≠ '=' :: rest' := by
  obtain ⟨c, t, rfl⟩ := List.exists_cons_of_ne_nil h.1
  intro heq
  obtain ⟨rfl, -⟩ := List.cons.inj heq
  exact absurd (h.2 '=' List.mem_cons_self) (Digits.not_isDigit (by decide) (by decide))

theorem FilterShape.unique {t : Text} {g g' : List (String × Text)} (h : FilterShape d t g)
    (h' : FilterShape d t g') : g' = g := by
  generalize ht : t = t' at h'
  obtain ⟨marked, hmajor, htail⟩ := h
  obtain ⟨marked', hmajor', htail'⟩ := h'
  have hmarked : marked = marked' := by
    cases marked <;> cases marked'
    · rfl
    · exact absurd ht (hmajor.head_ne_mark _ _)
    · exact absurd ht.symm (hmajor'.head_ne_mark _ _)
    · rfl
  subst hmarked
  obtain ⟨rfl, rfl⟩ := Regex.run_inj hmajor.2 hmajor'.2 htail.stops htail'.stops
    (List.append_cancel_left ht)
  rw [htail.unique htail']

theorem captures_filter {t : Text} {g : List (String × Text)} (h : FilterShape d t g) :
    (filterRegex d).captures t = some g :=
  Regex.captures_eq_some (filterShape_iff.mpr h) fun _ rest hreads =>
    h.unique (filterShape_iff.mp ⟨rest, hreads⟩)

/-! ## Reading a filter back -/

theorem number_ofNat (v : UInt32) : Number d (Decimal.ofNat v.toNat) := (Fits.ofNat v).number

@[simp] theorem parseU32_ofNat (v : UInt32) : parseU32 (Decimal.ofNat v.toNat) = .ok v :=
  (parseU32_eq_ok (number_ofNat v (d := .asciiOnly)).head?_ne_plus).mpr
    ⟨Fits.ofNat v, Decimal.value_ofNat _⟩

/-- A filter that is exact names a minor version. -/
def Filter.Printable (f : Filter) : Prop := f.exact → f.minor.isSome

theorem Filter.printable_of_fromStr {value : Text} {f : Filter}
    (h : Filter.fromStr d value = .ok f) : f.Printable := by
  rw [Filter.fromStr] at h
  split at h
  · cases h
  · obtain ⟨_, -, h⟩ := bind_eq_ok.mp h
    obtain ⟨major, -, h⟩ := bind_eq_ok.mp h
    obtain ⟨g3, -, h⟩ := bind_eq_ok.mp h
    obtain ⟨minor, -, h⟩ := bind_eq_ok.mp h
    cases h
    intro hexact
    exact (Bool.and_eq_true _ _ ▸ hexact).2

/-- The groups that the pattern finds in the text of a filter. -/
def minorGroups : Option FilterMinor → List (String × Text)
  | none => []
  | some (.dev v) => [("dev", "dev".toList), ("dev_num", Decimal.ofNat v.toNat)]
  | some (.alpha v) => [("dev", "alpha".toList), ("dev_num", Decimal.ofNat v.toNat)]
  | some (.beta v) => [("dev", "beta".toList), ("dev_num", Decimal.ofNat v.toNat)]
  | some (.rc v) => [("dev", "rc".toList), ("dev_num", Decimal.ofNat v.toNat)]
  | some (.minor v) => [("minor", Decimal.ofNat v.toNat)]

def Filter.groups (f : Filter) : List (String × Text) :=
  markGroups f.exact ++ ("major", Decimal.ofNat f.major.toNat) :: minorGroups f.minor

theorem Filter.display_shape (f : Filter) : FilterShape d f.display f.groups := by
  obtain ⟨major, minor, marked⟩ := f
  have htail : ∃ tail, FilterTail d tail (minorGroups minor) ∧
      Filter.display ⟨major, minor, marked⟩ =
        markText marked ++ (Decimal.ofNat major.toNat ++ tail) := by
    cases minor with
    | none => exact ⟨[], .bare, by simp [Filter.display, markText]⟩
    | some minor =>
        cases minor with
        | dev v => exact ⟨_, .stage .dev (number_ofNat v), List.append_assoc _ _ _⟩
        | alpha v => exact ⟨_, .stage .alpha (number_ofNat v), List.append_assoc _ _ _⟩
        | beta v => exact ⟨_, .stage .beta (number_ofNat v), List.append_assoc _ _ _⟩
        | rc v => exact ⟨_, .stage .rc (number_ofNat v), List.append_assoc _ _ _⟩
        | minor v => exact ⟨_, .minor (number_ofNat v), List.append_assoc _ _ _⟩
  obtain ⟨tail, htail, hdisplay⟩ := htail
  rw [hdisplay]
  exact .mk marked (number_ofNat major) htail

theorem Filter.lookup_groups (f : Filter) {k : String} (hmajor : k ≠ "major")
    (hmarker : k ≠ "marker") : f.groups.lookup k = (minorGroups f.minor).lookup k := by
  obtain ⟨major, minor, marked⟩ := f
  cases marked <;>
    simp [groups, markGroups, List.lookup_cons, beq_false_of_ne hmajor, beq_false_of_ne hmarker]

/-- The number behind a stage. -/
def Filter.stageNumber : Option FilterMinor → Option UInt32
  | some (.dev v) | some (.alpha v) | some (.beta v) | some (.rc v) => some v
  | _ => none

theorem readMinor_groups (f : Filter) :
    (f.groups.lookup "dev_num").mapM parseU32 = .ok (Filter.stageNumber f.minor) ∧
      readMinor f.groups (Filter.stageNumber f.minor) = .ok f.minor := by
  have hdev := f.lookup_groups (k := "dev") (by decide) (by decide)
  have hnum := f.lookup_groups (k := "dev_num") (by decide) (by decide)
  have hminor := f.lookup_groups (k := "minor") (by decide) (by decide)
  obtain ⟨major, minor, marked⟩ := f
  rw [readMinor, hdev, hnum, hminor]
  cases minor with
  | none => exact ⟨rfl, rfl⟩
  | some minor =>
      cases minor with
      | minor v =>
          have hlookup : (minorGroups (some (.minor v))).lookup "minor" =
              some (Decimal.ofNat v.toNat) := rfl
          refine ⟨rfl, ?_⟩
          show ((List.lookup "minor" (minorGroups (some (.minor v)))).mapM parseU32 >>=
            fun minor => Except.ok (minor.map FilterMinor.minor)) = _
          rw [hlookup, mapM_some, parseU32_ofNat]
          rfl
      | dev v | alpha v | beta v | rc v =>
          refine ⟨?_, rfl⟩
          show (some (Decimal.ofNat v.toNat)).mapM parseU32 = _
          rw [mapM_some, parseU32_ofNat]
          rfl

/-- The text of a filter is read back as the filter. -/
theorem Filter.fromStr_display {f : Filter} (h : f.Printable) :
    Filter.fromStr d f.display = .ok f := by
  obtain ⟨hnumber, hminor⟩ := readMinor_groups f
  have hmajor : f.groups.lookup "major" = some (Decimal.ofNat f.major.toNat) := by
    rw [groups, markGroups]
    split <;> rfl
  have hmarker : (((f.groups.lookup "marker").map (· == ['='])).getD false) = f.exact := by
    rw [groups, markGroups]
    split
    · next hexact => exact hexact.symm
    · next hexact =>
      rw [Bool.not_eq_true] at hexact
      rw [hexact]
      match f.minor with
      | none => rfl
      | some (.dev v) | some (.alpha v) | some (.beta v) | some (.rc v) | some (.minor v) => rfl
  have hexact : (f.exact && f.minor.isSome) = f.exact := by
    cases hmarked : f.exact
    · rfl
    · rw [h hmarked]
      rfl
  rw [Filter.fromStr, captures_filter f.display_shape, Option.some_or]
  simp only [hmajor, unwrap_some, pure_bind, parseU32_ofNat, hnumber, hmarker]
  show (readMinor f.groups (stageNumber f.minor) >>= fun minor =>
    Except.ok (⟨f.major, minor, f.exact && minor.isSome⟩ : Filter)) = _
  rw [hminor]
  show Except.ok (⟨f.major, f.minor, f.exact && f.minor.isSome⟩ : Filter) = _
  rw [hexact]

/-! ## Reading a query back -/

/-- The text of a filter is none of the keywords. -/
theorem Filter.display_ne {f : Filter} {c : Char} {rest : Text} (hmark : c ≠ '=')
    (hdigit : c.isDigit = false) : f.display ≠ c :: rest := by
  obtain ⟨hne, hdigits⟩ := (number_ofNat f.major (d := .asciiOnly))
  intro h
  rw [display] at h
  split at h
  · exact hmark (List.cons.inj h).1.symm
  · obtain ⟨c', t, ht⟩ := List.exists_cons_of_ne_nil hne
    rw [ht] at h
    have hc' : c'.isDigit := hdigits c' (by rw [ht]; exact List.mem_cons_self)
    rw [(List.cons.inj h).1, hdigit] at hc'
    cases hc'

theorem fromStr_asConfigValue_filter {q : Query} {f : Filter} (hq : q.version = some f)
    (h : f.Printable) :
    Query.fromStr d q.asConfigValue = .ok ⟨Channel.fromFilter f, some f⟩ := by
  have hstar : f.display ≠ ['*'] := Filter.display_ne (by decide) (by decide)
  have hnightly : f.display ≠ "nightly".toList := by
    show f.display ≠ 'n' :: "ightly".toList
    exact Filter.display_ne (by decide) (by decide)
  rw [Query.asConfigValue, hq]
  show Query.fromStr d f.display = _
  rw [Query.fromStr, if_neg hstar, if_neg hnightly, Filter.fromStr_display h]
  rfl

theorem fromStr_asConfigValue_channel (c : Channel) :
    Query.fromStr d (Query.ofChannel c).asConfigValue =
      .ok ⟨if c = .nightly then .nightly else .stable, none⟩ := by
  cases c <;> rfl

/-- The query is read back from the configuration, or one that accepts the same versions
on the same channel is. -/
def Survives (d : Digits) (q : Query) : Prop :=
  ∃ q', Query.fromStr d q.asConfigValue = .ok q' ∧
    (q' = q ∨ q'.channel = q.channel ∧ ∀ ver, q'.accepts ver = q.accepts ver)

theorem survives_filter_iff {q : Query} {f : Filter} (hq : q.version = some f)
    (h : f.Printable) : Survives d q ↔ q.channel = Channel.fromFilter f := by
  constructor
  · rintro ⟨q', hread, hsame⟩
    rw [fromStr_asConfigValue_filter hq h] at hread
    cases hread
    rcases hsame with rfl | ⟨hchannel, -⟩
    · rfl
    · exact hchannel.symm
  · intro hchannel
    refine ⟨q, ?_, .inl rfl⟩
    obtain ⟨channel, version⟩ := q
    rw [fromStr_asConfigValue_filter hq h, ← hchannel, ← hq]

theorem survives_channel_iff {c : Channel} : Survives d (Query.ofChannel c) ↔ c ≠ .testing := by
  constructor
  · rintro ⟨q', hread, hsame⟩ rfl
    rw [fromStr_asConfigValue_channel] at hread
    cases hread
    rcases hsame with h | ⟨h, -⟩
    · cases h
    · cases h
  · intro h
    refine ⟨_, fromStr_asConfigValue_channel c, .inl ?_⟩
    cases c with
    | stable => rfl
    | testing => exact absurd rfl h
    | nightly => rfl

theorem channel_fromFilter (f : Filter) :
    Query.fromFilter f = ⟨Channel.fromFilter f, some f⟩ := by
  obtain ⟨major, minor, marked⟩ := f
  cases minor with
  | none => rfl
  | some minor =>
      cases minor with
      | dev v => rfl
      | minor v => rfl
      | alpha v | beta v | rc v =>
          simp only [Query.fromFilter, Channel.fromFilter]
          split <;> rfl

theorem fromFilter_versionFilter {ver : Specific} (h : ver.isNightly = false) :
    Channel.fromFilter (versionFilter ver) = Channel.fromVersion ver := by
  obtain ⟨major, minor⟩ := ver
  cases minor with
  | dev v => cases h
  | alpha v => rfl
  | beta v => rfl
  | rc v => rfl
  | minor v => rfl

theorem survives_version_iff {ver : Specific} :
    Survives d (Query.fromVersion ver) ↔ ver.isNightly = false ∧ ver.isSecondPreview = false := by
  rw [survives_filter_iff (fromVersion_version ver) fun h => by cases h]
  by_cases hnightly : ver.isNightly = false
  · rw [fromFilter_versionFilter hnightly, channel_fromVersion]
    exact ⟨fun h => ⟨hnightly, h⟩, And.right⟩
  · constructor
    · intro h
      obtain ⟨major, minor⟩ := ver
      cases minor with
      | dev v => cases h
      | alpha v | beta v | rc v | minor v => exact absurd rfl hnightly
    · intro h
      exact absurd h.1 hnightly

/-- Where the queries of the command line come from. -/
inductive Origin (d : Digits) where
  | channel (c : Channel)
  | filter (f : Filter) (parsed : ∃ value, Filter.fromStr d value = .ok f)
  | version (ver : Specific)

def Origin.query : Origin d → Query
  | .channel c => .ofChannel c
  | .filter f _ => .fromFilter f
  | .version ver => .fromVersion ver

/-- A channel that has a keyword, or a version whose query is for its own channel and
kind. -/
def Origin.Kept : Origin d → Prop
  | .channel c => c ≠ .testing
  | .filter _ _ => True
  | .version ver => ver.isNightly = false ∧ ver.isSecondPreview = false

/-- **A query is read back from the configuration, up to the packages it accepts, unless
it is for the testing channel alone or made from a nightly version or an alpha or beta
of the major version 2.** -/
theorem survives_iff (o : Origin d) : Survives d o.query ↔ o.Kept := by
  cases o with
  | channel c => exact survives_channel_iff
  | filter f parsed =>
      obtain ⟨value, hvalue⟩ := parsed
      refine iff_of_true ?_ trivial
      refine (survives_filter_iff ?_ (Filter.printable_of_fromStr hvalue)).mpr ?_
      · rw [Origin.query, channel_fromFilter]
      · rw [Origin.query, channel_fromFilter]
  | version ver => exact survives_version_iff

/-- The query for the testing channel is read back as one for the stable channel. -/
theorem not_survives_testing :
    ¬ Survives Digits.asciiOnly (Origin.query (d := .asciiOnly) (.channel .testing)) := by
  rintro ⟨q', hread, hsame⟩
  cases hread
  rcases hsame with h | ⟨h, -⟩
  · cases h
  · cases h

end GelCli.Versions
