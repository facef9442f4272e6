import GelCli.Foundation.Lowercase
import GelCli.Foundation.PathComponents
import Mathlib.Data.List.DropRight

/-!
# Executables under a Scoop root

`is_under_scoop_root` of `src/cli/install_manager.rs` looks whether the text of one path
begins with the text of another one, after both have been normalized. The paths are
Unicode texts.
-/

namespace GelCli.Upgrade

open GelCli.Foundation

/-! ## The code -/

def toSlash (c : Char) : Char := if c = '\\' then '/' else c

def normalized (u : CaseTable) (exe : Text) : Text :=
  let path := u.toLowercase (exe.map toSlash)
  match Text.stripStart ['/', '/', '?', '/'] path with
  | some rest =>
      match Text.stripStart ['u', 'n', 'c', '/'] rest with
      | some share => '/' :: '/' :: share
      | none => rest
  | none => path

/-- `path` is normalized. -/
def isUnderScoopRoot (u : CaseTable) (path root : Text) : Bool :=
  let root := (normalized u root).rdropWhile (· = '/')
  root ≠ [] && (root ++ "/apps/".toList).isPrefixOf path

/-! ## Paths and their spellings -/

inductive PathKind where
  | drive
  | unc
  | absolute
  deriving DecidableEq

/-- A plain path by its components: those of a drive begin with its letter, those of a share
with the server. -/
structure PlainPath where
  kind : PathKind
  components : List Text
  ne_nil : components ≠ []
  plain : ∀ c ∈ components, c ≠ [] ∧ '/' ∉ c ∧ '\\' ∉ c
  first : match kind with
    | .drive => ∃ letter : Char, letter.isAlpha = true ∧ components.head? = some [letter, ':']
    | .unc => components.head? ≠ some ['?']
    | .absolute => True

/-- What stands in front of the components, between slashes. -/
def PathKind.plainStart : PathKind → List Text
  | .drive => []
  | .unc => [[], []]
  | .absolute => [[]]

def PathKind.verbatimStart : PathKind → List Text
  | .drive => [[], [], ['?']]
  | .unc => [[], [], ['?'], ['u', 'n', 'c']]
  | .absolute => [[], [], ['?'], []]

/-- Another way to write a character of a path. -/
def SameChar (c d : Char) : Prop := CaseTable.SameCase c (toSlash d)

instance decidableSameChar : DecidableRel SameChar :=
  fun c d => inferInstanceAs (Decidable (c.toLower = (toSlash d).toLower))

/-- The text is a way to write the path, with `trailing` separators behind it. -/
def PlainPath.Spells (p : PlainPath) (trailing : Nat) (t : Text) : Prop :=
  ∃ start, (start = p.kind.plainStart ∨ start = p.kind.verbatimStart) ∧
    List.Forall₂ SameChar
      (['/'].intercalate (start ++ p.components ++ List.replicate trailing [])) t

/-- The root's components followed by `apps` are the first ones of the path, and not all. -/
def PlainPath.UnderApps (u : CaseTable) (p root : PlainPath) : Prop :=
  p.kind = root.kind ∧ ∃ rest, rest ≠ [] ∧
    p.components.map u.toLowercase =
      root.components.map u.toLowercase ++ "apps".toList :: rest

/-! ## The normalized text -/

def NoSlash (parts : List Text) : Prop := ∀ part ∈ parts, '/' ∉ part

theorem NoSlash.append {parts parts' : List Text} (h : NoSlash parts) (h' : NoSlash parts') :
    NoSlash (parts ++ parts') := by
  intro part hpart
  rcases List.mem_append.mp hpart with hpart | hpart
  · exact h part hpart
  · exact h' part hpart

theorem noSlash_replicate (n : Nat) : NoSlash (List.replicate n []) := by
  intro part hpart
  rw [List.eq_of_mem_replicate hpart]
  exact List.not_mem_nil

theorem noSlash_plainStart (kind : PathKind) : NoSlash kind.plainStart := by
  intro part hpart
  cases kind <;> simp [PathKind.plainStart] at hpart <;> rw [hpart] <;> exact List.not_mem_nil

variable {u : CaseTable}

theorem sameCase_of_spells {parts : List Text} {t : Text}
    (h : List.Forall₂ SameChar (['/'].intercalate parts) t) :
    List.Forall₂ CaseTable.SameCase (['/'].intercalate parts) (t.map toSlash) :=
  List.forall₂_map_right_iff.mpr h

/-- The components in lower case, with the trailing separators. -/
def PlainPath.lowered (u : CaseTable) (p : PlainPath) (trailing : Nat) : List Text :=
  p.components.map u.toLowercase ++ List.replicate trailing []

theorem PlainPath.lowered_ne_nil (p : PlainPath) (trailing : Nat) : p.lowered u trailing ≠ [] :=
  List.append_ne_nil_of_left_ne_nil (by simpa using p.ne_nil) _

theorem noSlash_lowered (hu : u.Lawful) (p : PlainPath) (trailing : Nat) :
    NoSlash (p.lowered u trailing) := by
  refine NoSlash.append (fun part hpart => ?_) (noSlash_replicate trailing)
  obtain ⟨c, hc, rfl⟩ := List.mem_map.mp hpart
  exact hu.slash_notMem_toLowercase (p.plain c hc).2.1

/-- The first component in lower case. -/
theorem PlainPath.exists_first (hu : u.Lawful) (p : PlainPath) (trailing : Nat) :
    ∃ c rest, p.lowered u trailing = u.toLowercase c :: rest ∧ u.toLowercase c ≠ [] ∧
      p.components.head? = some c := by
  obtain ⟨c, cs, hcs⟩ := List.exists_cons_of_ne_nil p.ne_nil
  refine ⟨c, cs.map u.toLowercase ++ List.replicate trailing [], ?_, ?_, ?_⟩
  · rw [PlainPath.lowered, hcs, List.map_cons, List.cons_append]
  · exact hu.toLowercase_ne_nil (p.plain c (by rw [hcs]; exact List.mem_cons_self)).1
  · rw [hcs, List.head?_cons]

theorem toLowercase_start (hu : u.Lawful) {p : PlainPath} {start : List Text}
    (hstart : start = p.kind.plainStart ∨ start = p.kind.verbatimStart) :
    start.map u.toLowercase = start := by
  have hquestion : u.toLowercase ['?'] = ['?'] := by
    rw [CaseTable.toLowercase, CaseTable.lowerFrom_cons, if_neg (by decide),
      hu.lower_ascii '?' (by decide)]
    rfl
  have hunc : u.toLowercase ['u', 'n', 'c'] = ['u', 'n', 'c'] := by
    simp only [CaseTable.toLowercase, CaseTable.lowerFrom_cons]
    rw [if_neg (by decide), if_neg (by decide), if_neg (by decide), hu.lower_ascii 'u' (by decide),
      hu.lower_ascii 'n' (by decide), hu.lower_ascii 'c' (by decide)]
    rfl
  have hnil : u.toLowercase [] = [] := rfl
  rcases hstart with rfl | rfl
  · cases p.kind <;> simp [PathKind.plainStart, hnil]
  · cases p.kind <;> simp [PathKind.verbatimStart, hnil, hquestion, hunc]

theorem toLowercase_of_spells (hu : u.Lawful) {p : PlainPath} {trailing : Nat} {t : Text}
    {start : List Text} (hstart : start = p.kind.plainStart ∨ start = p.kind.verbatimStart)
    (h : List.Forall₂ SameChar
      (['/'].intercalate (start ++ p.components ++ List.replicate trailing [])) t) :
    u.toLowercase (t.map toSlash) = ['/'].intercalate (start ++ p.lowered u trailing) := by
  rw [← hu.toLowercase_sameCase (sameCase_of_spells h), hu.toLowercase_intercalate,
    List.append_assoc, List.map_append, List.map_append, toLowercase_start hu hstart,
    List.map_replicate]
  rfl

/-- A path that is not verbatim keeps its text. -/
theorem stripStart_plain (hu : u.Lawful) (p : PlainPath) (trailing : Nat) :
    Text.stripStart ['/', '/', '?', '/']
      (['/'].intercalate (p.kind.plainStart ++ p.lowered u trailing)) = none := by
  refine Text.stripStart_eq_none fun rest hrest => ?_
  have hverbatim : NoSlash [[], [], ['?']] := by simp [NoSlash]
  obtain ⟨tail, -, hparts, -⟩ := intercalate_eq_intercalate_append (List.cons_ne_nil _ _) hverbatim
    ((noSlash_plainStart p.kind).append (noSlash_lowered hu p trailing)) hrest
  obtain ⟨c, others, hlowered, hne, hhead⟩ := p.exists_first hu trailing
  have hfirst := p.first
  rw [hlowered] at hparts
  cases hkind : p.kind with
  | drive =>
      rw [hkind] at hparts
      exact hne (List.cons.inj hparts).1
  | absolute =>
      rw [hkind] at hparts
      exact hne (List.cons.inj (List.cons.inj hparts).2).1
  | unc =>
      rw [hkind] at hparts hfirst
      have hquestion := (List.cons.inj (List.cons.inj (List.cons.inj hparts).2).2).1
      exact hfirst (by rw [hhead, hu.eq_of_toLowercase_eq hquestion])

/-- A drive is not the start of a share. -/
theorem stripStart_drive (hu : u.Lawful) {p : PlainPath} (hkind : p.kind = .drive)
    (trailing : Nat) :
    Text.stripStart ['u', 'n', 'c', '/'] (['/'].intercalate (p.lowered u trailing)) = none := by
  refine Text.stripStart_eq_none fun rest hrest => ?_
  obtain ⟨tail, -, hparts, -⟩ := @intercalate_eq_append ['u', 'n', 'c'] _ _ (by decide)
    (noSlash_lowered hu p trailing) hrest
  obtain ⟨c, others, hlowered, -, hhead⟩ := p.exists_first hu trailing
  have hfirst := p.first
  rw [hkind] at hfirst
  obtain ⟨letter, -, hletter⟩ := hfirst
  obtain rfl := Option.some.inj (hhead.symm.trans hletter)
  rw [hlowered] at hparts
  have hcolon : ':' ∈ u.toLowercase [letter, ':'] := by
    rw [CaseTable.toLowercase, CaseTable.lowerFrom_cons, CaseTable.lowerFrom_cons,
      if_neg (by decide : ':' ≠ 'Σ'), hu.lower_ascii ':' (by decide)]
    exact List.mem_append_right _ (List.mem_append_left _ (List.mem_singleton_self _))
  rw [(List.cons.inj hparts).1] at hcolon
  exact absurd hcolon (by decide)

/-- The verbatim start of each kind is taken away. -/
theorem normalized_verbatim (hu : u.Lawful) (p : PlainPath) (trailing : Nat) {t : Text}
    (h : u.toLowercase (t.map toSlash) =
      ['/'].intercalate (p.kind.verbatimStart ++ p.lowered u trailing)) :
    normalized u t = ['/'].intercalate (p.kind.plainStart ++ p.lowered u trailing) := by
  have hne := p.lowered_ne_nil (u := u) trailing
  cases hkind : p.kind with
  | drive =>
      have hpath : u.toLowercase (t.map toSlash) =
          ['/', '/', '?', '/'] ++ ['/'].intercalate (p.lowered u trailing) := by
        rw [h, hkind]
        exact intercalate_append (List.cons_ne_nil _ _) hne
      simp only [normalized, hpath, Text.stripStart_append, stripStart_drive hu hkind]
      rfl
  | absolute =>
      have hpath : u.toLowercase (t.map toSlash) =
          ['/', '/', '?', '/'] ++ '/' :: ['/'].intercalate (p.lowered u trailing) := by
        rw [h, hkind]
        exact intercalate_append (List.cons_ne_nil _ _) hne
      have hunc : Text.stripStart ['u', 'n', 'c', '/']
          ('/' :: ['/'].intercalate (p.lowered u trailing)) = none :=
        Text.stripStart_eq_none fun rest hrest => absurd (List.cons.inj hrest).1 (by decide)
      simp only [normalized, hpath, Text.stripStart_append, hunc]
      exact (@intercalate_append [[]] _ (List.cons_ne_nil _ _) hne).symm
  | unc =>
      have hpath : u.toLowercase (t.map toSlash) =
          ['/', '/', '?', '/'] ++ (['u', 'n', 'c', '/'] ++
            ['/'].intercalate (p.lowered u trailing)) := by
        rw [h, hkind]
        exact intercalate_append (List.cons_ne_nil _ _) hne
      simp only [normalized, hpath, Text.stripStart_append]
      exact (@intercalate_append [[], []] _ (List.cons_ne_nil _ _) hne).symm

/-- **All spellings of a path are normalized to one text.** -/
theorem PlainPath.Spells.normalized (hu : u.Lawful) {p : PlainPath} {trailing : Nat} {t : Text}
    (h : p.Spells trailing t) :
    normalized u t = ['/'].intercalate (p.kind.plainStart ++ p.lowered u trailing) := by
  obtain ⟨start, hstart, hspells⟩ := h
  have hlower := toLowercase_of_spells hu hstart hspells
  rcases hstart with rfl | rfl
  · simp only [Upgrade.normalized, hlower, stripStart_plain hu]
  · exact normalized_verbatim hu p trailing hlower

/-! ## The root -/

/-- The separators behind a root count for nothing. -/
theorem rdropWhile_trailing {parts : List Text} {last : Text} (hlast : last ≠ [])
    (hslash : '/' ∉ last) (trailing : Nat) :
    (['/'].intercalate (parts ++ [last] ++ List.replicate trailing [])).rdropWhile (· = '/') =
      ['/'].intercalate (parts ++ [last]) := by
  induction trailing with
  | zero =>
      have hends : ∃ t c, ['/'].intercalate (parts ++ [last]) = t ++ [c] ∧ c ≠ '/' := by
        obtain ⟨body, c, rfl⟩ := (List.eq_nil_or_concat' last).resolve_left hlast
        have hc : c ≠ '/' := by
          rintro rfl
          exact hslash (List.mem_append_right _ (List.mem_singleton_self _))
        rcases eq_or_ne parts [] with rfl | hne
        · exact ⟨body, c, by rw [List.nil_append, List.intercalate_singleton], hc⟩
        · refine ⟨['/'].intercalate parts ++ '/' :: body, c, ?_, hc⟩
          rw [intercalate_append hne (List.cons_ne_nil _ _), List.intercalate_singleton,
            List.append_assoc, List.cons_append]
      obtain ⟨t, c, ht, hc⟩ := hends
      rw [List.replicate_zero, List.append_nil, ht]
      exact List.rdropWhile_concat_neg _ _ _ (by simpa using hc)
  | succ n ih =>
      rw [List.replicate_succ', ← List.append_assoc, intercalate_append
        (List.append_ne_nil_of_left_ne_nil
          (List.append_ne_nil_of_right_ne_nil _ (List.cons_ne_nil _ _)) _) (List.cons_ne_nil _ _),
        List.intercalate_singleton]
      exact (List.rdropWhile_concat_pos _ _ _ (by simp)).trans ih

theorem rdropWhile_root (hu : u.Lawful) (root : PlainPath) (trailing : Nat) :
    (['/'].intercalate (root.kind.plainStart ++ root.lowered u trailing)).rdropWhile (· = '/') =
      ['/'].intercalate (root.kind.plainStart ++ root.components.map u.toLowercase) := by
  obtain ⟨cs, c, hcs⟩ := (List.eq_nil_or_concat' root.components).resolve_left root.ne_nil
  have hplain := root.plain c (by rw [hcs]; exact List.mem_append_right _ List.mem_cons_self)
  have hend := @rdropWhile_trailing (root.kind.plainStart ++ cs.map u.toLowercase) _
    (hu.toLowercase_ne_nil hplain.1) (hu.slash_notMem_toLowercase hplain.2.1) trailing
  rw [PlainPath.lowered, hcs, List.map_append, List.map_singleton, ← List.append_assoc,
    ← List.append_assoc]
  exact hend

/-- The kinds of paths are told apart by their starts. -/
theorem plainStart_append_inj {kind kind' : PathKind} {first first' : Text}
    {rest rest' : List Text} (hfirst : first ≠ []) (hfirst' : first' ≠ [])
    (h : kind.plainStart ++ first :: rest = kind'.plainStart ++ first' :: rest') :
    kind = kind' ∧ first :: rest = first' :: rest' := by
  cases kind <;> cases kind' <;> simp_all [PathKind.plainStart]

/-- **Scoop's ownership is decided by components.** -/
theorem isUnderScoopRoot_iff (hu : u.Lawful) {p root : PlainPath} {path rootText : Text}
    {trailing : Nat} (hpath : p.Spells 0 path) (hroot : root.Spells trailing rootText) :
    isUnderScoopRoot u (normalized u path) rootText = true ↔ p.UnderApps u root := by
  obtain ⟨first, others, hfirst, hfirstNe, -⟩ := p.exists_first hu 0
  obtain ⟨rootFirst, rootOthers, hrootFirst, hrootFirstNe, -⟩ := root.exists_first hu 0
  have hlowered : ∀ q : PlainPath, q.lowered u 0 = q.components.map u.toLowercase :=
    fun q => List.append_nil _
  have happs : NoSlash ["apps".toList] := by simp [NoSlash]
  generalize hstart : root.kind.plainStart ++ root.components.map u.toLowercase = rootParts
  have hrootParts : NoSlash rootParts := by
    rw [← hstart, ← hlowered]
    exact (noSlash_plainStart root.kind).append (noSlash_lowered hu root 0)
  have hne : ['/'].intercalate rootParts ≠ [] := by
    refine intercalate_ne_nil ?_ hrootFirstNe
    rw [← hstart, ← hlowered, hrootFirst]
    exact List.mem_append_right _ List.mem_cons_self
  have hrootNe : rootParts ≠ [] := by
    rintro rfl
    exact hne List.intercalate_nil
  have hjoined : ['/'].intercalate rootParts ++ "/apps/".toList =
      ['/'].intercalate (rootParts ++ ["apps".toList]) ++ ['/'] := by
    rw [intercalate_append hrootNe (List.cons_ne_nil _ _), List.intercalate_singleton,
      List.append_assoc]
    rfl
  unfold isUnderScoopRoot
  simp only [hroot.normalized hu, hpath.normalized hu, rdropWhile_root hu, hstart, hjoined,
    decide_eq_true hne, Bool.true_and, List.isPrefixOf_iff_prefix]
  constructor
  · rintro ⟨t, ht⟩
    rw [List.append_assoc, List.singleton_append] at ht
    obtain ⟨rest, hrest, hparts, -⟩ := intercalate_eq_intercalate_append
      (List.append_ne_nil_of_left_ne_nil hrootNe _) (hrootParts.append happs)
      ((noSlash_plainStart p.kind).append (noSlash_lowered hu p 0)) ht.symm
    rw [← hstart, ← hlowered, hfirst, hrootFirst, List.append_assoc, List.append_assoc,
      List.cons_append] at hparts
    obtain ⟨hkind, hcomponents⟩ := plainStart_append_inj hfirstNe hrootFirstNe hparts
    refine ⟨hkind, rest, hrest, ?_⟩
    rw [← hlowered, ← hlowered, hfirst, hcomponents, hrootFirst]
    rfl
  · rintro ⟨hkind, rest, hrest, hcomponents⟩
    refine ⟨['/'].intercalate rest, ?_⟩
    rw [List.append_assoc, List.singleton_append, ← intercalate_append
      (List.append_ne_nil_of_left_ne_nil hrootNe _) hrest, hlowered, hcomponents, hkind, ← hstart,
      List.append_assoc, List.append_assoc]
    rfl

/-- `D:\tools` and an executable of one of its apps. -/
def tools : PlainPath where
  kind := .drive
  components := ["D:".toList, "tools".toList]
  ne_nil := List.cons_ne_nil _ _
  plain := by simp
  first := ⟨'D', rfl, rfl⟩

def toolsGel : PlainPath where
  kind := .drive
  components := ["d:".toList, "Tools".toList, "apps".toList, "gel.exe".toList]
  ne_nil := List.cons_ne_nil _ _
  plain := by simp
  first := ⟨'d', rfl, rfl⟩

theorem spells_toolsGel : toolsGel.Spells 0 "\\\\?\\D:\\tools\\APPS\\gel.exe".toList :=
  ⟨_, Or.inr rfl, by decide⟩

theorem spells_tools : tools.Spells 2 "d:/Tools\\/".toList := ⟨_, Or.inl rfl, by decide⟩

theorem isUnderScoopRoot_toolsGel :
    isUnderScoopRoot CaseTable.ascii
      (normalized CaseTable.ascii "\\\\?\\D:\\tools\\APPS\\gel.exe".toList)
      "d:/Tools\\/".toList = true :=
  (isUnderScoopRoot_iff CaseTable.lawful_ascii spells_toolsGel spells_tools).mpr
    ⟨rfl, ["gel.exe".toList], List.cons_ne_nil _ _, by decide⟩

end GelCli.Upgrade
