import GelCli.Migrations.Squash

/-!
# A squash keeps the useful fixups

A fixup is useful when from the revision it leads to one of the wanted revisions can be
reached along fixups. Draining the groups leaves those that are not, and these are the
files that are renamed.
-/

namespace GelCli.Migrations.Squash

open GelCli.Foundation

/-! ## Fixups -/

/-- A file that leads from one revision to another. -/
structure IsFixup (fixups : Folder) (name source target : Text) : Prop where
  file : fixups.get name = some .file
  visible : name.head? ≠ some '.'
  ends : ends name = some (source, target)

/-- One of the wanted revisions can be reached from `target` along fixups. -/
def Useful (fixups : Folder) (revs : List Text) (target : Text) : Prop :=
  ∃ rev ∈ revs, Relation.ReflTransGen (fun a b => ∃ name, IsFixup fixups name a b) target rev

theorem stripSuffix_eq_some {suffix t stem : Text} :
    stripSuffix suffix t = some stem ↔ t = stem ++ suffix := by
  unfold stripSuffix
  constructor
  · intro h
    split at h
    · next hsuffix =>
      obtain ⟨front, rfl⟩ := hsuffix
      cases h
      simp
    · cases h
  · rintro rfl
    simp

theorem suffix_of_ends {name source target : Text} (h : ends name = some (source, target)) :
    ".edgeql".toList <:+ name := by
  unfold ends at h
  cases hstem : stripSuffix ".edgeql".toList name with
  | none =>
      rw [hstem] at h
      cases h
  | some stem => exact ⟨stem, (stripSuffix_eq_some.mp hstem).symm⟩

/-- A renamed file is no fixup. -/
theorem ne_old {name source target : Text} (h : ends name = some (source, target)) (other : Text) :
    name ≠ old other := by
  intro heq
  have hname : ".edgeql".toList <:+ old other := heq ▸ suffix_of_ends h
  have hold : ".old".toList <:+ old other := ⟨other, rfl⟩
  have hsuffix := List.suffix_of_suffix_length_le hold hname (by decide)
  exact absurd hsuffix (by decide)

/-! ## Reading the directory -/

/-- The fixup that an entry of the directory is, with its name. -/
def fixupItem (item : Text × FileKind) : Option (Text × Text × Text) :=
  if item.1.head? = some '.' ∨ item.2 ≠ .file then none
  else (ends item.1).map fun e => (e.1, e.2, item.1)

theorem fixupItem_eq_some {fixups : Folder} {item : Text × FileKind} (hitem : item ∈ fixups.items)
    {x : Text × Text × Text} :
    fixupItem item = some x ↔ item.1 = x.2.2 ∧ IsFixup fixups x.2.2 x.1 x.2.1 := by
  obtain ⟨name, kind⟩ := item
  obtain ⟨source, target, path⟩ := x
  unfold fixupItem
  constructor
  · intro h
    split at h
    · cases h
    · next hno =>
      obtain ⟨hvisible, hkind⟩ := not_or.mp hno
      obtain ⟨e, he, heq⟩ := Option.map_eq_some_iff.mp h
      cases heq
      exact ⟨rfl, by rw [Dict.get_eq_some, ← not_not.mp hkind]; exact hitem, hvisible, he⟩
  · rintro ⟨rfl, hfile, hvisible, hends⟩
    have hkind : kind = .file :=
      Option.some.inj ((Dict.get_eq_some.mpr hitem).symm.trans hfile)
    rw [if_neg (not_or.mpr ⟨hvisible, not_not.mpr hkind⟩), hends]
    rfl

def pushItem (d : ByTarget) (x : Text × Text × Text) : ByTarget := d.push x.2.1 (x.1, x.2.2)

theorem readTurn_eq_ok {faults : Faults} {s t : ByTarget × List Text} {item : Text × FileKind}
    (h : readTurn faults s item = .ok t) :
    t.1 = (fixupItem item).elim s.1 (pushItem s.1) ∧ s.2 <+: t.2 := by
  obtain ⟨_, -, h⟩ := bind_eq_ok.mp h
  unfold fixupItem
  split at h
  · next hdot =>
    cases h
    rw [if_pos (.inl hdot)]
    exact ⟨rfl, List.prefix_rfl⟩
  · next hdot =>
    obtain ⟨_, -, h⟩ := bind_eq_ok.mp h
    split at h
    · next hkind =>
      cases h
      rw [if_pos (.inr hkind)]
      exact ⟨rfl, List.prefix_rfl⟩
    · next hkind =>
      rw [if_neg (not_or.mpr ⟨hdot, hkind⟩)]
      split at h
      · next source target hends =>
        cases h
        rw [hends]
        exact ⟨rfl, List.prefix_rfl⟩
      · next hends =>
        rw [hends]
        split at h
        · cases h
          exact ⟨rfl, List.prefix_append _ _⟩
        · cases h
          exact ⟨rfl, List.prefix_rfl⟩

theorem foldlM_readTurn_eq_ok {faults : Faults} {items : List (Text × FileKind)}
    {s t : ByTarget × List Text} (h : items.foldlM (readTurn faults) s = .ok t) :
    t.1 = (items.filterMap fixupItem).foldl pushItem s.1 ∧ s.2 <+: t.2 := by
  induction items generalizing s with
  | nil =>
      cases h
      exact ⟨rfl, List.prefix_rfl⟩
  | cons item items ih =>
      rw [List.foldlM_cons, bind_eq_ok] at h
      obtain ⟨next, hturn, h⟩ := h
      obtain ⟨hgroups, hnames⟩ := ih h
      obtain ⟨hturn, hnext⟩ := readTurn_eq_ok hturn
      refine ⟨?_, hnext.trans hnames⟩
      rw [hgroups, hturn]
      cases hitem : fixupItem item with
      | none => rw [List.filterMap_cons_none hitem]; rfl
      | some x => rw [List.filterMap_cons_some hitem]; rfl

/-- The groups of a directory. -/
def byTarget (fixups : Folder) : ByTarget := (fixups.items.filterMap fixupItem).foldl pushItem .empty

theorem mem_groupOf_byTarget {fixups : Folder} {source target name : Text} :
    (source, name) ∈ (byTarget fixups).groupOf target ↔ IsFixup fixups name source target := by
  have hgroup : (byTarget fixups).groupOf target =
      ((fixups.items.filterMap fixupItem).filter fun x => x.2.1 = target).map
        fun x => (x.1, x.2.2) :=
    (Dict.groupOf_foldl_push _ _ target).trans (List.nil_append _)
  rw [hgroup]
  simp only [List.mem_map, List.mem_filter, List.mem_filterMap, decide_eq_true_eq]
  constructor
  · rintro ⟨x, ⟨⟨item, hitem, hx⟩, rfl⟩, heq⟩
    cases heq
    exact ((fixupItem_eq_some hitem).mp hx).2
  · intro h
    have hitem := Dict.get_eq_some.mp h.file
    exact ⟨(source, target, name), ⟨⟨_, hitem, (fixupItem_eq_some hitem).mpr ⟨rfl, h⟩⟩, rfl⟩, rfl⟩

theorem reaches_iff {fixups : Folder} {revs : List Text} {target : Text} :
    Reaches Prod.fst revs.reverse (byTarget fixups) target ↔ Useful fixups revs target := by
  have hedge : Edge Prod.fst (byTarget fixups) = fun a b => ∃ name, IsFixup fixups name a b := by
    funext a b
    apply propext
    constructor
    · rintro ⟨⟨source, name⟩, hmem, rfl⟩
      exact ⟨name, mem_groupOf_byTarget.mp hmem⟩
    · rintro ⟨name, h⟩
      exact ⟨(a, name), mem_groupOf_byTarget.mpr h, rfl⟩
  simp only [Reaches, Useful, hedge, List.mem_reverse]

/-! ## The files to rename -/

theorem paths_perm (d : ByTarget) : (paths d).Perm (d.grouped.map Prod.snd) := by
  have hkeys : (d.keys.flatMap fun target => (d.groupOf target).map Prod.snd) =
      d.grouped.map Prod.snd := by
    rw [Dict.keys, List.flatMap_map, Dict.grouped, List.map_flatMap]
    refine List.flatMap_congr fun item hitem => ?_
    rw [Dict.groupOf, Dict.get_eq_some.mpr hitem]
    rfl
  rw [← hkeys]
  exact (Text.sorted_perm _).flatMap_right _

theorem names_sublist (items : List (Text × FileKind)) :
    ((items.filterMap fixupItem).map fun x => x.2.2).Sublist (items.map Prod.fst) := by
  induction items with
  | nil => exact .slnil
  | cons item items ih =>
      cases hitem : fixupItem item with
      | none =>
          rw [List.filterMap_cons_none hitem]
          exact ih.cons _
      | some x =>
          have hname : x.2.2 = item.1 := by
            unfold fixupItem at hitem
            split at hitem
            · cases hitem
            · obtain ⟨e, -, rfl⟩ := Option.map_eq_some_iff.mp hitem
              rfl
          rw [List.filterMap_cons_some hitem, List.map_cons, List.map_cons, hname]
          exact ih.cons_cons _

theorem nodup_names (fixups : Folder) : ((byTarget fixups).grouped.map Prod.snd).Nodup := by
  have hperm : (byTarget fixups).grouped.Perm
      ((fixups.items.filterMap fixupItem).map fun x => (x.1, x.2.2)) :=
    Dict.grouped_foldl_push _ _
  have hnames := (hperm.map Prod.snd).nodup_iff.mpr (by
    rw [List.map_map]
    exact fixups.nodup.sublist (names_sublist fixups.items))
  exact hnames

/-- What is drained is removed, and each file is renamed once. -/
def unwanted (fixups : Folder) (revs : List Text) : List Text :=
  paths (drain Prod.fst revs.reverse (byTarget fixups))

theorem mem_unwanted {fixups : Folder} {revs : List Text} {name : Text} :
    name ∈ unwanted fixups revs ↔
      ∃ source target, IsFixup fixups name source target ∧ ¬ Useful fixups revs target := by
  rw [unwanted, (paths_perm _).mem_iff, List.mem_map]
  constructor
  · rintro ⟨⟨source, path⟩, hmem, rfl⟩
    obtain ⟨target, hmem⟩ := Dict.mem_grouped.mp hmem
    obtain ⟨hreached, hleft⟩ := @groupOf_drain Text (Text × Text) _ Prod.fst revs.reverse
      (byTarget fixups) target
    by_cases huseful : Reaches Prod.fst revs.reverse (byTarget fixups) target
    · rw [hreached huseful] at hmem
      cases hmem
    · rw [hleft huseful] at hmem
      exact ⟨source, target, mem_groupOf_byTarget.mp hmem, fun h => huseful (reaches_iff.mpr h)⟩
  · rintro ⟨source, target, h, hnot⟩
    refine ⟨(source, name), Dict.mem_grouped.mpr ⟨target, ?_⟩, rfl⟩
    rw [(groupOf_drain revs.reverse (byTarget fixups) target).2 fun h => hnot (reaches_iff.mp h)]
    exact mem_groupOf_byTarget.mpr h

theorem nodup_unwanted (fixups : Folder) (revs : List Text) : (unwanted fixups revs).Nodup := by
  have hsub : (drain Prod.fst revs.reverse (byTarget fixups)).grouped.Subperm
      (byTarget fixups).grouped := grouped_drainLoop (Option.some_get _).symm
  rw [unwanted, (paths_perm _).nodup_iff]
  obtain ⟨l, hperm, hsublist⟩ := hsub
  exact (hperm.map Prod.snd).nodup_iff.mp ((nodup_names fixups).sublist (hsublist.map Prod.snd))

/-! ## Renaming -/

theorem rename_eq_ok {faults : Faults} {s t : Remover} {path : Text}
    (h : Remover.rename faults s path = .ok t) :
    ∃ kind, t = ⟨(s.fixups.erase path).set (old path) kind, s.filenames ++ [old path]⟩ := by
  obtain ⟨_, -, h⟩ := bind_eq_ok.mp h
  split at h
  · cases h
  · next kind hget =>
    cases h
    exact ⟨kind, rfl⟩

theorem get_renamed (d : Folder) {path j : Text} {kind : FileKind} (h : j ≠ old path) :
    ((d.erase path).set (old path) kind).get j = if j = path then none else d.get j := by
  rw [Dict.get_set, if_neg h, Dict.get_erase]

/-- A renaming touches the names it is given and those they get. -/
theorem get_foldlM_rename {faults : Faults} {names : List Text} {s t : Remover}
    (h : names.foldlM (Remover.rename faults) s = .ok t) {j : Text} (hold : ∀ n ∈ names, j ≠ old n) :
    t.fixups.get j = if j ∈ names then none else s.fixups.get j := by
  induction names generalizing s with
  | nil =>
      cases h
      rfl
  | cons n names ih =>
      rw [List.foldlM_cons, bind_eq_ok] at h
      obtain ⟨next, hrename, h⟩ := h
      obtain ⟨kind, rfl⟩ := rename_eq_ok hrename
      rw [ih h fun m hm => hold m (List.mem_cons_of_mem n hm),
        get_renamed _ (hold n List.mem_cons_self)]
      by_cases hj : j = n
      · simp [hj]
      · simp [hj]

theorem filenames_foldlM_rename {faults : Faults} {names : List Text} {s t : Remover}
    (h : names.foldlM (Remover.rename faults) s = .ok t) :
    t.filenames = s.filenames ++ names.map old := by
  induction names generalizing s with
  | nil =>
      cases h
      simp
  | cons n names ih =>
      rw [List.foldlM_cons, bind_eq_ok] at h
      obtain ⟨next, hrename, h⟩ := h
      obtain ⟨kind, rfl⟩ := rename_eq_ok hrename
      rw [ih h, List.append_assoc]
      rfl

/-- Without faults, files that are there are renamed. -/
theorem foldlM_rename_ok {faults : Faults} (hfaults : ∀ path, faults.rename path = none)
    {names : List Text} (hnodup : names.Nodup) (hold : ∀ n ∈ names, ∀ m, n ≠ old m) {s : Remover}
    (hthere : ∀ n ∈ names, (s.fixups.get n).isSome) :
    ∃ t, names.foldlM (Remover.rename faults) s = .ok t := by
  induction names generalizing s with
  | nil => exact ⟨s, rfl⟩
  | cons n names ih =>
      obtain ⟨hn, hnodup⟩ := List.nodup_cons.mp hnodup
      obtain ⟨kind, hkind⟩ := Option.isSome_iff_exists.mp (hthere n List.mem_cons_self)
      have hrename : Remover.rename faults s n =
          .ok ⟨(s.fixups.erase n).set (old n) kind, s.filenames ++ [old n]⟩ := by
        rw [Remover.rename, hfaults, hkind]
        rfl
      rw [List.foldlM_cons, hrename]
      refine ih hnodup (fun m hm => hold m (List.mem_cons_of_mem n hm)) fun m hm => ?_
      rw [get_renamed _ (hold m (List.mem_cons_of_mem n hm) n),
        if_neg fun heq : m = n => hn (heq ▸ hm)]
      exact hthere m (List.mem_cons_of_mem n hm)

/-! ## Squashing -/

theorem renameFixups_eq_ok {faults : Faults} {fixups : Folder} {filenames revs : List Text}
    {t : Remover} (h : renameFixups faults fixups filenames revs = .ok t) :
    ∃ listed, (unwanted fixups revs).foldlM (Remover.rename faults) ⟨fixups, listed⟩ = .ok t := by
  obtain ⟨_, -, h⟩ := bind_eq_ok.mp h
  obtain ⟨⟨groups, listed⟩, hread, h⟩ := bind_eq_ok.mp h
  obtain ⟨hgroups, -⟩ := foldlM_readTurn_eq_ok hread
  have hgroups : groups = byTarget fixups := hgroups
  subst hgroups
  exact ⟨listed, h⟩

theorem readTurn_ok {faults : Faults} (hentry : ∀ name, faults.nextEntry name = none)
    (htype : ∀ name, faults.fileType name = none) (s : ByTarget × List Text)
    (item : Text × FileKind) : ∃ t, readTurn faults s item = .ok t := by
  simp only [readTurn, hentry, htype]
  show ∃ t, ite _ _ _ = Except.ok t
  split
  · exact ⟨_, rfl⟩
  · show ∃ t, ite _ _ _ = Except.ok t
    split
    · exact ⟨_, rfl⟩
    · split
      · exact ⟨_, rfl⟩
      · split
        · exact ⟨_, rfl⟩
        · exact ⟨_, rfl⟩

theorem foldlM_readTurn_ok {faults : Faults} (hentry : ∀ name, faults.nextEntry name = none)
    (htype : ∀ name, faults.fileType name = none) (items : List (Text × FileKind))
    (s : ByTarget × List Text) : ∃ t, items.foldlM (readTurn faults) s = .ok t := by
  induction items generalizing s with
  | nil => exact ⟨s, rfl⟩
  | cons item items ih =>
      obtain ⟨next, hnext⟩ := readTurn_ok hentry htype s item
      rw [List.foldlM_cons, hnext]
      exact ih next

/-- No call of the file system fails. -/
structure Faults.None (faults : Faults) : Prop where
  readDir : faults.readDir = none
  nextEntry : ∀ name, faults.nextEntry name = none
  fileType : ∀ name, faults.fileType name = none
  rename : ∀ path, faults.rename path = none

theorem renameFixups_ok {faults : Faults} (h : faults.None) (fixups : Folder)
    (filenames revs : List Text) : ∃ t, renameFixups faults fixups filenames revs = .ok t := by
  obtain ⟨⟨groups, listed⟩, hread⟩ :=
    foldlM_readTurn_ok h.nextEntry h.fileType fixups.items (.empty, filenames)
  obtain ⟨hgroups, -⟩ := foldlM_readTurn_eq_ok hread
  have hgroups : groups = byTarget fixups := hgroups
  subst hgroups
  have hrun : renameFixups faults fixups filenames revs =
      (unwanted fixups revs).foldlM (Remover.rename faults) ⟨fixups, listed⟩ := by
    rw [renameFixups, h.readDir, hread]
    rfl
  rw [hrun]
  refine foldlM_rename_ok h.rename (nodup_unwanted fixups revs) (fun n hn m => ?_) fun n hn => ?_
  · obtain ⟨source, target, hfixup, -⟩ := mem_unwanted.mp hn
    exact ne_old hfixup.ends m
  · obtain ⟨source, target, hfixup, -⟩ := mem_unwanted.mp hn
    exact Option.isSome_iff_exists.mpr ⟨_, hfixup.file⟩

/-- What a squash does to the fixups: the useful ones stay, the others are renamed and
listed for removal, and no other file is touched but one that a fixup is renamed to. -/
structure KeepsUseful (fixups : Folder) (revs : List Text) (t : Remover) : Prop where
  kept : ∀ {name source target}, IsFixup fixups name source target →
    Useful fixups revs target → t.fixups.get name = some .file
  removed : ∀ {name source target}, IsFixup fixups name source target →
    ¬ Useful fixups revs target → t.fixups.get name = none ∧ old name ∈ t.filenames
  others : ∀ name, (∀ source target, ¬ IsFixup fixups name source target) →
    (∀ n ∈ unwanted fixups revs, name ≠ old n) → t.fixups.get name = fixups.get name

theorem keepsUseful_of_renameFixups {faults : Faults} {fixups : Folder}
    {filenames revs : List Text} {t : Remover}
    (h : renameFixups faults fixups filenames revs = .ok t) : KeepsUseful fixups revs t := by
  obtain ⟨listed, hrun⟩ := renameFixups_eq_ok h
  constructor
  · intro name source target hfixup huseful
    have hnot : name ∉ unwanted fixups revs := by
      intro hmem
      obtain ⟨source', target', hfixup', hnot⟩ := mem_unwanted.mp hmem
      have hends := hfixup.ends.symm.trans hfixup'.ends
      cases hends
      exact hnot huseful
    rw [get_foldlM_rename hrun fun n _ => ne_old hfixup.ends n, if_neg hnot]
    exact hfixup.file
  · intro name source target hfixup hnot
    have hmem : name ∈ unwanted fixups revs := mem_unwanted.mpr ⟨source, target, hfixup, hnot⟩
    rw [get_foldlM_rename hrun fun n _ => ne_old hfixup.ends n, if_pos hmem,
      filenames_foldlM_rename hrun]
    exact ⟨rfl, List.mem_append_right _ (List.mem_map_of_mem hmem)⟩
  · intro name hname hold
    have hnot : name ∉ unwanted fixups revs := by
      intro hmem
      obtain ⟨source, target, hfixup, -⟩ := mem_unwanted.mp hmem
      exact hname source target hfixup
    rw [get_foldlM_rename hrun hold, if_neg hnot]

/-- **A squash keeps the fixups from which a wanted revision can be reached, removes the
others, and its loop ends: it takes no more turns than there are revisions and files.** -/
theorem renameFixups_keepsUseful (faults : Faults) (fixups : Folder) (filenames revs : List Text) :
    (∀ t, renameFixups faults fixups filenames revs = .ok t → KeepsUseful fixups revs t) ∧
    (faults.None → ∃ t, renameFixups faults fixups filenames revs = .ok t) ∧
    ∀ fuel, revs.length + fixups.items.length < fuel →
      (drainLoop Prod.fst fuel revs.reverse (byTarget fixups)).isSome := by
  refine ⟨fun t => keepsUseful_of_renameFixups, fun h => renameFixups_ok h fixups filenames revs,
    fun fuel hfuel => drainLoop_isSome ?_⟩
  have hgrouped : (byTarget fixups).grouped.length ≤ fixups.items.length := by
    have hperm : (byTarget fixups).grouped.Perm
        ((fixups.items.filterMap fixupItem).map fun x => (x.1, x.2.2)) :=
      Dict.grouped_foldl_push _ _
    rw [hperm.length_eq, List.length_map]
    exact List.length_filterMap_le _ _
  rw [List.length_reverse]
  omega

end GelCli.Migrations.Squash
