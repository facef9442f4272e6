import GelCli.Versions.Build

/-!
# What the version patterns match

The parts of a build version, and the groups of `SPECIFIC`: both patterns are read as
the texts they are the patterns of, and a text has one shape.
-/

namespace GelCli.Versions

open GelCli.Foundation

variable {d : Digits}

/-- `\d+` -/
def Number (d : Digits) (t : Text) : Prop := t ≠ [] ∧ ∀ c ∈ t, d.isDigit c

/-- `$|\+` -/
def Tail (t : Text) : Prop := t = [] ∨ ∃ hash, t = '+' :: hash

theorem Digits.not_isDigit {c : Char} (hascii : c.toNat < 128) (hc : c.isDigit = false) :
    ¬ d.isDigit c := by
  rw [d.ascii c hascii, hc]
  exact Bool.false_ne_true

theorem Digits.isDigit_of {c : Char} (hc : c.isDigit) : d.isDigit c := by
  have hle : c.toNat ≤ 57 := (Char.isDigit_iff_toNat.mp hc).2
  rw [d.ascii c (by omega), hc]

theorem Fits.number {t : Text} (h : Fits t) : Number d t :=
  ⟨h.1, fun c hc => Digits.isDigit_of (h.2.1 c hc)⟩

theorem Number.head?_ne_plus {t : Text} (h : Number d t) : t.head? ≠ some '+' := by
  intro hhead
  exact Digits.not_isDigit (by decide) (by decide) (h.2 '+' (List.mem_of_mem_head? hhead))

theorem stops_cons {c : Char} (hascii : c.toNat < 128) (hc : c.isDigit = false) (t : Text) :
    Regex.Stops d.isDigit (c :: t) := by
  intro c' hc'
  cases hc'
  exact Digits.not_isDigit hascii hc

theorem Tail.stops {t : Text} (h : Tail t) : Regex.Stops d.isDigit t := by
  rcases h with rfl | ⟨hash, rfl⟩
  · intro c hc
    cases hc
  · exact stops_cons (by decide) (by decide) hash

/-! ## The groups of a specific version -/

inductive SpecificShape (d : Digits) : Text → List (Nat × Text) → Prop where
  | stage {major n tail : Text} (stage : Stage) (hmajor : Number d major) (hn : Number d n)
      (htail : Tail tail) :
      SpecificShape d (major ++ '.' :: '0' :: '-' :: (stage.name ++ '.' :: (n ++ tail)))
        [(1, major), (2, stage.name), (3, n)]
  | minor {major minor tail : Text} (hmajor : Number d major) (hminor : Number d minor)
      (htail : Tail tail) :
      SpecificShape d (major ++ '.' :: (minor ++ tail)) [(1, major), (4, minor)]

theorem reads_tail {g : List (Nat × Text)} {t rest : Text} :
    (Regex.alt .atEnd (.word ['+']) : Regex Nat).Reads g t rest ↔
      g = [] ∧ (t = [] ∧ rest = [] ∨ t = '+' :: rest) := and_or_left.symm

theorem specificShape_iff {t : Text} {g : List (Nat × Text)} :
    (∃ rest, (specificRegex d).Reads g t rest) ↔ SpecificShape d t g := by
  constructor
  · rintro ⟨rest, _, _, _, hfirst, ⟨_, tail, _, hmid, hlast, rfl⟩, rfl⟩
    obtain ⟨major, hmajor, rfl, rfl⟩ := Regex.reads_group_plus.mp hfirst
    obtain ⟨rfl, hends⟩ := reads_tail.mp hlast
    have htail : Tail tail := hends.imp And.left fun h => ⟨rest, h⟩
    rcases hmid with ⟨_, _, _, ⟨rfl, rfl⟩, ⟨_, _, _, hword, ⟨_, _, _, ⟨rfl, rfl⟩, hlast, rfl⟩,
      rfl⟩, rfl⟩ | ⟨_, _, _, ⟨rfl, rfl⟩, hlast, rfl⟩
    · obtain ⟨name, hname, rfl, rfl⟩ := Regex.reads_group_words.mp hword
      obtain ⟨stage, rfl⟩ := Stage.mem_names.mp hname
      obtain ⟨n, hn, rfl, rfl⟩ := Regex.reads_group_plus.mp hlast
      exact .stage stage hmajor hn htail
    · obtain ⟨minor, hminor, rfl, rfl⟩ := Regex.reads_group_plus.mp hlast
      exact .minor hmajor hminor htail
  · have hend : ∀ {tail : Text}, Tail tail → ∃ rest,
        (Regex.alt .atEnd (.word ['+']) : Regex Nat).Reads [] tail rest := by
      rintro tail (rfl | ⟨hash, rfl⟩)
      · exact ⟨[], reads_tail.mpr ⟨rfl, .inl ⟨rfl, rfl⟩⟩⟩
      · exact ⟨hash, reads_tail.mpr ⟨rfl, .inr rfl⟩⟩
    rintro (⟨stage, hmajor, hn, htail⟩ | ⟨hmajor, hminor, htail⟩)
    · obtain ⟨rest, hrest⟩ := hend htail
      exact ⟨rest, _, _, _, Regex.reads_group_plus.mpr ⟨_, hmajor, rfl, rfl⟩,
        ⟨_, _, _, .inl ⟨_, _, _, ⟨rfl, rfl⟩,
          ⟨_, _, _, Regex.reads_group_words.mpr ⟨_, Stage.mem_names.mpr ⟨stage, rfl⟩, rfl, rfl⟩,
            ⟨_, _, _, ⟨rfl, rfl⟩, Regex.reads_group_plus.mpr ⟨_, hn, rfl, rfl⟩, rfl⟩, rfl⟩, rfl⟩,
          hrest, rfl⟩, rfl⟩
    · obtain ⟨rest, hrest⟩ := hend htail
      exact ⟨rest, _, _, _, Regex.reads_group_plus.mpr ⟨_, hmajor, rfl, rfl⟩,
        ⟨_, _, _, .inr ⟨_, _, _, ⟨rfl, rfl⟩,
          Regex.reads_group_plus.mpr ⟨_, hminor, rfl, rfl⟩, rfl⟩, hrest, rfl⟩, rfl⟩

/-- The digits in front of the point, and what is behind it. -/
theorem major_inj {major major' t t' : Text} (hmajor : Number d major) (hmajor' : Number d major')
    (h : major ++ '.' :: t = major' ++ '.' :: t') : major = major' ∧ t = t' := by
  obtain ⟨rfl, hcons⟩ := Regex.run_inj hmajor.2 hmajor'.2
    (stops_cons (by decide) (by decide) t) (stops_cons (by decide) (by decide) t') h
  exact ⟨rfl, (List.cons.inj hcons).2⟩

/-- A minor version is no pre-release behind `.0-`. -/
theorem not_minor_stage {minor t tail : Text} (hminor : Number d minor) (htail : Tail tail)
    (h : '0' :: '-' :: t = minor ++ tail) : False := by
  have hzero : ∀ c ∈ ['0'], d.isDigit c := by
    intro c hc
    rw [List.mem_singleton.mp hc]
    exact Digits.isDigit_of (by decide)
  obtain ⟨-, rfl⟩ := Regex.run_inj (a := ['0']) (b := '-' :: t) hzero hminor.2
    (stops_cons (by decide) (by decide) t) htail.stops h
  rcases htail with htail | ⟨hash, htail⟩
  · cases htail
  · exact absurd (List.cons.inj htail).1 (by decide)

theorem SpecificShape.unique {t : Text} {g g' : List (Nat × Text)} (h : SpecificShape d t g)
    (h' : SpecificShape d t g') : g' = g := by
  generalize ht : t = t' at h'
  cases h with
  | stage stage hmajor hn htail =>
      cases h' with
      | stage stage' hmajor' hn' htail' =>
          obtain ⟨rfl, hbehind⟩ := major_inj hmajor hmajor' ht
          simp only [List.cons.injEq, true_and] at hbehind
          obtain ⟨hname, hbehind⟩ := Text.append_cons_inj stage.dot_notMem_name
            stage'.dot_notMem_name hbehind
          obtain ⟨rfl, -⟩ := Regex.run_inj hn.2 hn'.2 htail.stops htail'.stops hbehind
          rw [hname]
      | minor hmajor' hminor' htail' =>
          obtain ⟨rfl, hbehind⟩ := major_inj hmajor hmajor' ht
          exact (not_minor_stage hminor' htail' hbehind).elim
  | minor hmajor hminor htail =>
      cases h' with
      | stage stage' hmajor' hn' htail' =>
          obtain ⟨rfl, hbehind⟩ := major_inj hmajor hmajor' ht
          exact (not_minor_stage hminor htail hbehind.symm).elim
      | minor hmajor' hminor' htail' =>
          obtain ⟨rfl, hbehind⟩ := major_inj hmajor hmajor' ht
          obtain ⟨rfl, -⟩ := Regex.run_inj hminor.2 hminor'.2 htail.stops htail'.stops hbehind
          rfl

theorem captures_specific {t : Text} {g : List (Nat × Text)} :
    (specificRegex d).captures t = some g ↔ SpecificShape d t g := by
  constructor
  · intro h
    exact specificShape_iff.mp (Regex.reads_of_captures h)
  · intro h
    exact Regex.captures_eq_some (specificShape_iff.mpr h) fun g' rest hreads =>
      h.unique (specificShape_iff.mp ⟨rest, hreads⟩)

end GelCli.Versions
