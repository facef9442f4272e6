import Mathlib.Data.List.DropRight
import GelCli.Foundation.Text

/-!
# The components of a path

A path of a Unix system is cut at its slashes. Empty parts count for nothing, and so
does a dot except as the first part of a relative path.
-/

namespace GelCli.Foundation

inductive Component where
  | rootDir
  | curDir
  | parentDir
  | normal (name : Text)
deriving DecidableEq, Repr

namespace Component

/-- What a part between two slashes stands for, behind the start of the path. -/
def ofPart (part : Text) : Option Component :=
  if part = ['.'] then none
  else if part = ['.', '.'] then some .parentDir
  else some (.normal part)

def start (path : Text) : List Component :=
  if path.head? = some '/' then [.rootDir]
  else if (path.splitOn '/').head? = some ['.'] then [.curDir]
  else []

end Component

/-- `Path::components`. -/
def components (path : Text) : List Component :=
  Component.start path ++ ((path.splitOn '/').filter fun part => part ≠ []).filterMap
    Component.ofPart

/-- A name in a directory. -/
structure Plain (name : Text) : Prop where
  nonempty : name ≠ []
  noSlash : '/' ∉ name
  notDot : name ≠ ['.']
  notParent : name ≠ ['.', '.']

theorem noSlash_of_mem_splitOn {path part : Text} (h : part ∈ path.splitOn '/') : '/' ∉ part := by
  induction path generalizing part with
  | nil =>
      rw [List.splitOn_nil, List.mem_singleton] at h
      subst h
      exact List.not_mem_nil
  | cons c path ih =>
      rw [List.splitOn_cons_eq_if_modifyHead] at h
      split at h
      · rcases List.mem_cons.mp h with rfl | h
        · exact List.not_mem_nil
        · exact ih h
      · next hc =>
        cases hparts : path.splitOn '/' with
        | nil => exact absurd hparts (List.splitOn_ne_nil _ _)
        | cons first rest =>
            rw [hparts] at h
            rcases List.mem_cons.mp h with rfl | h
            · have hfirst : '/' ∉ first := ih (hparts ▸ List.mem_cons_self)
              rw [List.mem_cons, not_or]
              exact ⟨fun heq => hc (beq_iff_eq.mpr heq.symm), hfirst⟩
            · exact ih (hparts ▸ List.mem_cons_of_mem _ h)

theorem plain_of_mem_components {path name : Text} (h : .normal name ∈ components path) :
    Plain name := by
  rcases List.mem_append.mp h with h | h
  · unfold Component.start at h
    split at h
    · simp at h
    · split at h
      · simp at h
      · simp at h
  · obtain ⟨part, hpart, hname⟩ := List.mem_filterMap.mp h
    obtain ⟨hmem, hne⟩ := List.mem_filter.mp hpart
    unfold Component.ofPart at hname
    split at hname
    · cases hname
    next hdot =>
    split at hname
    · cases hname
    next hparent =>
    cases hname
    exact ⟨by simpa using hne, noSlash_of_mem_splitOn hmem, hdot, hparent⟩

/-! ## Paths that are joined -/

/-- `Path::join`: an absolute path takes the place of the first one. -/
def joinPath (path name : Text) : Text :=
  if name.head? = some '/' then name
  else if path = [] ∨ path.getLast? = some '/' then path ++ name
  else path ++ '/' :: name

/-- What stands before the name of a file, with the slash. -/
def directoryPart (path : Text) : Text := path.rdropWhile (· ≠ '/')

def namePart (path : Text) : Text := path.rtakeWhile (· ≠ '/')

theorem directoryPart_append_namePart (path : Text) :
    directoryPart path ++ namePart path = path := List.rdropWhile_append_rtakeWhile

theorem noSlash_namePart (path : Text) : '/' ∉ namePart path := by
  intro h
  have hne := List.mem_rtakeWhile_imp h
  exact absurd rfl (of_decide_eq_true hne)

theorem directoryPart_cases (path : Text) :
    directoryPart path = [] ∨ ∃ dir, directoryPart path = dir ++ ['/'] := by
  by_cases hnil : directoryPart path = []
  · exact .inl hnil
  · have hlast : (directoryPart path).getLast hnil = '/' := by
      have hnot := List.rdropWhile_last_not _ _ hnil
      by_contra hne
      exact hnot (decide_eq_true hne)
    refine .inr ⟨(directoryPart path).dropLast, ?_⟩
    rw [← hlast, List.dropLast_append_getLast]

theorem directoryPart_of_noSlash {path : Text} (h : '/' ∉ path) : directoryPart path = [] := by
  refine List.rdropWhile_eq_nil_iff.mpr fun c hc => decide_eq_true ?_
  rintro rfl
  exact h hc

theorem directoryPart_append {a b : Text} (h : '/' ∉ b) :
    directoryPart (a ++ b) = directoryPart a := by
  have hall : ∀ c ∈ b.reverse, decide (c ≠ '/') = true := fun c hc =>
    decide_eq_true fun heq => h (heq ▸ List.mem_reverse.mp hc)
  rw [directoryPart, directoryPart, List.rdropWhile, List.rdropWhile, List.reverse_append,
    List.dropWhile_append_of_pos hall]

theorem namePart_append {a b : Text} (h : '/' ∉ b) : namePart (a ++ b) = namePart a ++ b := by
  have hwhole := directoryPart_append_namePart (a ++ b)
  rw [directoryPart_append h] at hwhole
  refine List.append_cancel_left (hwhole.trans ?_)
  rw [← List.append_assoc, directoryPart_append_namePart]

theorem splitOn_append_cons (a b : Text) :
    (a ++ '/' :: b).splitOn '/' = a.splitOn '/' ++ b.splitOn '/' :=
  List.splitOnP_append_cons a b (beq_self_eq_true '/')

theorem splitOn_of_noSlash {name : Text} (h : '/' ∉ name) : name.splitOn '/' = [name] := by
  refine List.splitOnP_eq_singleton fun c hc => beq_eq_false_iff_ne.mpr ?_
  rintro rfl
  exact h hc

theorem start_append_cons (dir name : Text) :
    Component.start (dir ++ '/' :: name) = Component.start (dir ++ ['/']) := by
  have hhead : (dir ++ '/' :: name).head? = (dir ++ ['/']).head? := by
    cases dir <;> rfl
  have hparts : ((dir ++ '/' :: name).splitOn '/').head? = ((dir ++ ['/']).splitOn '/').head? := by
    rw [splitOn_append_cons, splitOn_append_cons,
      List.head?_append_of_ne_nil _ (List.splitOn_ne_nil _ _),
      List.head?_append_of_ne_nil _ (List.splitOn_ne_nil _ _)]
  rw [Component.start, Component.start, hhead, hparts]

/-- A name behind a slash is one more component. -/
theorem components_append_name {name : Text} (h : Plain name) (dir : Text) :
    components (dir ++ '/' :: name) = components (dir ++ ['/']) ++ [.normal name] := by
  have hname : Component.ofPart name = some (.normal name) := by
    rw [Component.ofPart, if_neg h.notDot, if_neg h.notParent]
  have hparts : ∀ rest : Text, ((dir ++ '/' :: rest).splitOn '/').filter (· ≠ []) =
      (dir.splitOn '/').filter (· ≠ []) ++ (rest.splitOn '/').filter (· ≠ []) := by
    intro rest
    rw [splitOn_append_cons, List.filter_append]
  rw [components, components, start_append_cons, hparts, hparts [], splitOn_of_noSlash h.noSlash]
  simp [h.nonempty, hname]

/-- A slash at the end counts for nothing. -/
theorem components_trailing {path : Text} (h : path ≠ []) :
    components (path ++ ['/']) = components path := by
  have hhead : (path ++ ['/']).head? = path.head? := List.head?_append_of_ne_nil path h
  have hstart : Component.start (path ++ ['/']) = Component.start path := by
    rw [Component.start, Component.start, hhead, splitOn_append_cons,
      List.head?_append_of_ne_nil _ (List.splitOn_ne_nil _ _)]
  rw [components, components, hstart, splitOn_append_cons, List.filter_append]
  simp

/-- The name of a joined path stands behind its directory. -/
theorem joinPath_eq {path : Text} (hpath : path ≠ []) (file : Text) :
    ∃ dir, joinPath path (directoryPart file) = dir ++ ['/'] ∧
      joinPath path file = dir ++ '/' :: namePart file := by
  have hfile := directoryPart_append_namePart file
  rcases directoryPart_cases file with hdir | ⟨dir, hdir⟩
  · have hname : file.head? ≠ some '/' := by
      rw [← hfile, hdir, List.nil_append]
      exact fun hhead => noSlash_namePart file (List.mem_of_mem_head? hhead)
    rw [hdir, List.nil_append] at hfile
    rw [hdir, hfile, joinPath, joinPath, if_neg hname, if_neg (by simp)]
    by_cases hlast : path.getLast? = some '/'
    · rw [if_pos (.inr hlast), if_pos (.inr hlast)]
      obtain ⟨dir, rfl⟩ := List.getLast?_eq_some_iff.mp hlast
      exact ⟨dir, List.append_nil _, by rw [List.append_assoc, List.singleton_append]⟩
    · have hneither : ¬ (path = [] ∨ path.getLast? = some '/') := not_or.mpr ⟨hpath, hlast⟩
      rw [if_neg hneither, if_neg hneither]
      exact ⟨path, rfl, rfl⟩
  · rw [hdir, List.append_assoc, List.singleton_append] at hfile
    have hhead : file.head? = (dir ++ ['/']).head? := by
      rw [← hfile]
      cases dir <;> rfl
    rw [hdir, joinPath, joinPath, hhead]
    split
    · exact ⟨dir, rfl, hfile.symm⟩
    · split
      · exact ⟨path ++ dir, by rw [List.append_assoc], by rw [List.append_assoc, hfile]⟩
      · refine ⟨path ++ '/' :: dir, by rw [List.append_assoc, List.cons_append], ?_⟩
        rw [List.append_assoc, List.cons_append, hfile]

theorem components_joinPath {path file : Text} (hpath : path ≠ []) (h : Plain (namePart file)) :
    components (joinPath path file) =
      components (joinPath path (directoryPart file)) ++ [.normal (namePart file)] := by
  obtain ⟨dir, hdir, hfile⟩ := joinPath_eq hpath file
  rw [hdir, hfile, components_append_name h]

/-- An empty name leads to the directory itself. -/
theorem components_joinPath_nil (path : Text) : components (joinPath path []) = components path := by
  rw [joinPath, if_neg (by simp)]
  split
  · rw [List.append_nil]
  · next h => exact components_trailing (not_or.mp h).1

/-! ## Joined parts -/

theorem intercalate_cons {part : Text} {parts : List Text} (h : parts ≠ []) :
    ['/'].intercalate (part :: parts) = part ++ '/' :: ['/'].intercalate parts := by
  rw [List.intercalate_cons_of_ne_nil h, List.append_assoc, List.singleton_append]

theorem intercalate_append {parts rest : List Text} (hparts : parts ≠ []) (hrest : rest ≠ []) :
    ['/'].intercalate (parts ++ rest) =
      ['/'].intercalate parts ++ '/' :: ['/'].intercalate rest := by
  induction parts with
  | nil => exact absurd rfl hparts
  | cons part parts ih =>
      cases parts with
      | nil => rw [List.singleton_append, intercalate_cons hrest, List.intercalate_singleton]
      | cons next parts =>
          rw [List.cons_append, intercalate_cons (List.append_ne_nil_of_left_ne_nil
            (List.cons_ne_nil next parts) rest), ih (List.cons_ne_nil next parts),
            intercalate_cons (List.cons_ne_nil next parts), List.append_assoc, List.cons_append]

theorem intercalate_ne_nil {part : Text} {parts : List Text} (h : part ∈ parts)
    (hne : part ≠ []) : ['/'].intercalate parts ≠ [] := by
  cases parts with
  | nil => cases h
  | cons first rest =>
      cases rest with
      | nil =>
          rw [List.intercalate_singleton, ← List.mem_singleton.mp h]
          exact hne
      | cons next rest =>
          rw [intercalate_cons (List.cons_ne_nil next rest)]
          exact List.append_ne_nil_of_right_ne_nil _ (List.cons_ne_nil _ _)

/-- Joined parts begin with a part and a slash when it is the first of them. -/
theorem intercalate_eq_append {part t : Text} {parts : List Text} (hpart : '/' ∉ part)
    (hparts : ∀ p ∈ parts, '/' ∉ p) (h : ['/'].intercalate parts = part ++ '/' :: t) :
    ∃ rest, rest ≠ [] ∧ parts = part :: rest ∧ t = ['/'].intercalate rest := by
  cases parts with
  | nil =>
      rw [List.intercalate_nil] at h
      exact absurd h.symm (List.append_ne_nil_of_right_ne_nil _ (List.cons_ne_nil _ _))
  | cons first rest =>
      cases rest with
      | nil =>
          rw [List.intercalate_singleton] at h
          refine absurd ?_ (hparts first List.mem_cons_self)
          rw [h]
          exact List.mem_append_right _ List.mem_cons_self
      | cons next rest =>
          rw [intercalate_cons (List.cons_ne_nil next rest)] at h
          obtain ⟨rfl, ht⟩ := Text.append_cons_inj (hparts first List.mem_cons_self) hpart h
          exact ⟨next :: rest, List.cons_ne_nil next rest, rfl, ht.symm⟩

/-- Joined parts begin with other ones and a slash when these are the first of them. -/
theorem intercalate_eq_intercalate_append {start parts : List Text} {t : Text}
    (hne : start ≠ []) (hstart : ∀ p ∈ start, '/' ∉ p) (hparts : ∀ p ∈ parts, '/' ∉ p)
    (h : ['/'].intercalate parts = ['/'].intercalate start ++ '/' :: t) :
    ∃ rest, rest ≠ [] ∧ parts = start ++ rest ∧ t = ['/'].intercalate rest := by
  induction start generalizing parts with
  | nil => exact absurd rfl hne
  | cons part start ih =>
      have hpart := hstart part List.mem_cons_self
      cases start with
      | nil =>
          rw [List.intercalate_singleton] at h
          exact intercalate_eq_append hpart hparts h
      | cons next start =>
          rw [intercalate_cons (List.cons_ne_nil next start), List.append_assoc,
            List.cons_append] at h
          obtain ⟨rest, -, rfl, hrest⟩ := intercalate_eq_append hpart hparts h
          obtain ⟨rest', hne', rfl, ht⟩ := ih (List.cons_ne_nil next start)
            (fun p hp => hstart p (List.mem_cons_of_mem part hp))
            (fun p hp => hparts p (List.mem_cons_of_mem part hp)) hrest.symm
          exact ⟨rest', hne', rfl, ht⟩

end GelCli.Foundation
