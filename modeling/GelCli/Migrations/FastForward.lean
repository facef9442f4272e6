import GelCli.Migrations.Merge

/-!
# Merges are fast-forwards

Two histories are merged iff the base is a proper prefix of the target. The two parts
of the result are then the target's history, keyed by places, each migration on its
parent. The split is never behind the end: a base as long as the target diverges from
it, or has all of it.
-/

namespace GelCli.Migrations.Merge

open GelCli.Foundation Db

def names (ms : List DbMigration) : List Text := ms.map DbMigration.name

/-- A history as it is merged, under the places from `n + 1` on. -/
def placed (n : Nat) (ms : List DbMigration) : List (Text × MergeMigration) :=
  (ms.zipIdx n).map fun entry => (entry.1.name, ⟨.index (entry.2 + 1), entry.1⟩)

/-! ## The comparison -/

theorem prefix_iff {xs ys : List Text} :
    xs <+: ys ↔ ∀ (i : Nat) (x : Text), xs[i]? = some x → ys[i]? = some x := by
  rw [List.prefix_iff_getElem?]
  constructor
  · intro h i x hx
    obtain ⟨hi, rfl⟩ := List.getElem?_eq_some_iff.mp hx
    exact h i hi
  · intro h i hi
    exact h i _ (List.getElem?_eq_getElem hi)

/-- Lists that agree where both go on: one of them begins with the other. -/
theorem prefix_or_prefix_iff {xs ys : List Text} :
    xs <+: ys ∨ ys <+: xs ↔
      ∀ (i : Nat) (x y : Text), xs[i]? = some x → ys[i]? = some y → y = x := by
  constructor
  · rintro (h | h) i x y hx hy
    · exact Option.some.inj (hy.symm.trans (prefix_iff.mp h i x hx))
    · exact Option.some.inj ((prefix_iff.mp h i y hy).symm.trans hx)
  · intro h
    rcases Nat.le_total xs.length ys.length with hle | hle
    · refine .inl (prefix_iff.mpr fun i x hx => ?_)
      obtain ⟨hi, -⟩ := List.getElem?_eq_some_iff.mp hx
      have hy := List.getElem?_eq_getElem (Nat.lt_of_lt_of_le hi hle)
      rw [hy, h i x _ hx hy]
    · refine .inr (prefix_iff.mpr fun i y hy => ?_)
      obtain ⟨hi, -⟩ := List.getElem?_eq_some_iff.mp hy
      have hx := List.getElem?_eq_getElem (Nat.lt_of_lt_of_le hi hle)
      rw [hx, h i _ y hx hy]

section Compare

variable {base target : Dict Text DbMigration} {bs ts : List DbMigration}
  (hb : base.items = bs.map fun m => (m.name, m)) (ht : target.items = ts.map fun m => (m.name, m))
include hb ht

theorem upToDate_iff : upToDate base target ↔ names ts <+: names bs := by
  have hbase : ∀ (i : Nat) (x : Text),
      ((base.items[i]?).map fun v => decide (v.1 = x)).getD false ↔ (names bs)[i]? = some x := by
    intro i x
    rw [hb, names, List.getElem?_map, List.getElem?_map]
    cases bs[i]? <;> simp
  rw [upToDate, Bool.and_eq_true, decide_eq_true_eq, List.all_eq_true]
  constructor
  · rintro ⟨-, hall⟩
    refine prefix_iff.mpr fun i x hx => ?_
    rw [names, List.getElem?_map] at hx
    obtain ⟨t, htop, rfl⟩ := Option.map_eq_some_iff.mp hx
    refine (hbase i t.name).mp (hall ((t.name, t), i) ?_)
    rw [List.mem_zipIdx_iff_getElem?, ht, List.getElem?_map, htop]
    rfl
  · intro h
    refine ⟨?_, ?_⟩
    · have hle := h.length_le
      rw [names, names, List.length_map, List.length_map] at hle
      rw [hb, ht, List.length_map, List.length_map]
      exact hle
    · rintro ⟨⟨x, t⟩, i⟩ hmem
      rw [List.mem_zipIdx_iff_getElem?, ht, List.getElem?_map] at hmem
      obtain ⟨t, htop, heq⟩ := Option.map_eq_some_iff.mp hmem
      cases heq
      refine (hbase i t.name).mpr (prefix_iff.mp h i t.name ?_)
      rw [names, List.getElem?_map, htop]
      rfl

/-- No place where both have a migration shows two names. -/
theorem diverging_eq_nil_iff :
    divergingMigrations base target = [] ↔ names bs <+: names ts ∨ names ts <+: names bs := by
  rw [prefix_or_prefix_iff, divergingMigrations, List.filterMap_eq_nil_iff]
  constructor
  · intro h i x y hx hy
    rw [names, List.getElem?_map] at hx hy
    obtain ⟨b, hbase, rfl⟩ := Option.map_eq_some_iff.mp hx
    obtain ⟨t, htarget, rfl⟩ := Option.map_eq_some_iff.mp hy
    have hmem : ((b.name, b), i) ∈ base.items.zipIdx := by
      rw [List.mem_zipIdx_iff_getElem?, hb, List.getElem?_map, hbase]
      rfl
    have hnone := h _ hmem
    simpa [ht, htarget] using hnone
  · rintro h ⟨⟨x, b⟩, i⟩ hmem
    rw [List.mem_zipIdx_iff_getElem?, hb, List.getElem?_map] at hmem
    obtain ⟨b, hbase, heq⟩ := Option.map_eq_some_iff.mp hmem
    cases heq
    cases htarget : ts[i]? with
    | none => simp [ht, htarget]
    | some t =>
        have heq := h i b.name t.name (by simp [names, hbase]) (by simp [names, htarget])
        simp [ht, htarget, heq]

end Compare

/-! ## The parts -/

theorem map_fst_placed (n : Nat) (ms : List DbMigration) :
    (placed n ms).map Prod.fst = names ms := by
  rw [placed, List.map_map, names]
  conv_rhs => rw [← List.zipIdx_map_fst n ms, List.map_map]
  rfl

theorem placed_append (n : Nat) (ms ms' : List DbMigration) :
    placed n (ms ++ ms') = placed n ms ++ placed (n + ms.length) ms' := by
  rw [placed, List.zipIdx_append, List.map_append]
  rfl

theorem items_keyed {n : Nat} {ms : List DbMigration} (h : (names ms).Nodup) :
    (keyed n (ms.map fun m => (m.name, m))).items = placed n ms := by
  have hplaced : ((ms.map fun m => (m.name, m)).zipIdx.map
      fun entry => (entry.1.1, (⟨.index (n + entry.2 + 1), entry.1.2⟩ : MergeMigration))) =
        placed n ms := by
    rw [placed, List.zipIdx_map, List.map_map, List.zipIdx_eq_map_add (i := n), List.map_map]
    refine List.map_congr_left fun entry _ => ?_
    simp
  rw [keyed, Dict.items_foldl_set, hplaced]
  · rfl
  · have hkeys := map_fst_placed n ms
    rw [← hplaced, List.map_map] at hkeys
    show (((ms.map fun m => (m.name, m)).zipIdx.map fun entry => entry.1.1)).Nodup
    exact hkeys ▸ h

/-- The migrations of a history each have the id before theirs as parent. -/
theorem linked_placed {n : Nat} {ms : List DbMigration} (h : IsHistory ms) :
    Linked MergeMigration.parent MergeMigration.id Files.nullMigration
      ((placed n ms).map Prod.snd) := by
  have hfollows : ∀ (n : Nat) (p : Text) (ms : List DbMigration), follows p ms →
      Linked MergeMigration.parent MergeMigration.id p ((placed n ms).map Prod.snd) := by
    intro n p ms h
    induction ms generalizing n p with
    | nil => trivial
    | cons m ms ih =>
        refine ⟨?_, ih (n + 1) m.name h.2⟩
        show m.parentNames.head?.getD _ = p
        rw [h.1]
        rfl
  cases ms with
  | nil => trivial
  | cons m ms =>
      refine ⟨?_, hfollows (n + 1) m.name ms h.linked.2⟩
      show m.parentNames.head?.getD _ = _
      rw [h.linked.1]
      rfl

/-! ## The outcomes -/

section Outcomes

variable {base target : Connection} {b t : List DbMigration}

theorem getMergeMigrations_cases (hb : Holds base b) (ht : Holds target t) :
    let bs := base.read true false b
    let ts := target.read true false t
    (names ts <+: names bs ∧ getMergeMigrations base target = .error [] .upToDate) ∨
      (¬ names ts <+: names bs ∧ ¬ names bs <+: names ts ∧
        ∃ entries : List (Nat × Text × Text),
          (∀ entry ∈ entries, entry.2.1 ∈ names bs ∧ entry.2.2 ∈ names ts) ∧
          getMergeMigrations base target = diverged base target entries) ∨
      (names bs <+: names ts ∧ bs.length < ts.length ∧
        ∃ m, getMergeMigrations base target = .ok m ∧
          m.baseMigrations.items = placed 0 (ts.take bs.length) ∧
          m.targetMigrations.items = placed bs.length (ts.drop bs.length)) := by
  intro bs ts
  have hbase : (Db.readAll base true false).items = bs.map fun m => (m.name, m) := items_readAll hb
  have htarget : (Db.readAll target true false).items = ts.map fun m => (m.name, m) :=
    items_readAll ht
  have hnodup : (names ts).Nodup := (isHistory_read ht.isHistory).nodup
  unfold getMergeMigrations
  by_cases hup : names ts <+: names bs
  · refine .inl ⟨hup, ?_⟩
    rw [if_pos ((upToDate_iff hbase htarget).mpr hup)]
  rw [if_neg (mt (upToDate_iff hbase htarget).mp hup)]
  by_cases hpre : names bs <+: names ts
  · have hlt : bs.length < ts.length := by
      have hle := hpre.length_le
      rw [names, names, List.length_map, List.length_map] at hle
      refine Nat.lt_of_le_of_ne hle fun heq => hup ?_
      have hnames : names bs = names ts :=
        hpre.eq_of_length (by rw [names, names, List.length_map, List.length_map, heq])
      exact hnames ▸ List.prefix_refl (names bs)
    have hdiv := (diverging_eq_nil_iff hbase htarget).mpr (.inl hpre)
    have hn : (Db.readAll base true false).items.length = bs.length := by rw [hbase, List.length_map]
    refine .inr (.inr ⟨hpre, hlt, mergeAt bs.length (ts.map fun m => (m.name, m)), ?_, ?_, ?_⟩)
    · simp only [hdiv, ne_eq, not_true_eq_false, if_false, hn, htarget, List.length_map,
        Nat.not_lt.mpr (Nat.le_of_lt hlt)]
    · rw [mergeAt, ← List.map_take, items_keyed]
      exact hnodup.sublist ((List.take_sublist _ _).map _)
    · rw [mergeAt, ← List.map_drop, items_keyed]
      exact hnodup.sublist ((List.drop_sublist _ _).map _)
  · have hdiv := mt (diverging_eq_nil_iff hbase htarget).mp (not_or.mpr ⟨hpre, hup⟩)
    refine .inr (.inl ⟨hup, hpre, divergingMigrations (Db.readAll base true false)
      (Db.readAll target true false), ?_, ?_⟩)
    · intro entry hentry
      obtain ⟨⟨item, i⟩, hmem, hentry⟩ := List.mem_filterMap.mp hentry
      have hitem : item ∈ (Db.readAll base true false).items := List.fst_mem_of_mem_zipIdx hmem
      rw [hbase] at hitem
      obtain ⟨x, hx, rfl⟩ := List.mem_map.mp hitem
      dsimp only at hentry
      split at hentry
      · next other hother =>
        split at hentry
        · cases hentry
          have hother : other ∈ (Db.readAll target true false).items := List.mem_of_getElem? hother
          rw [htarget] at hother
          obtain ⟨y, hy, rfl⟩ := List.mem_map.mp hother
          exact ⟨List.mem_map_of_mem hx, List.mem_map_of_mem hy⟩
        · cases hentry
      · cases hentry
    · rw [if_pos hdiv]

theorem mapM_divergingLine {entries : List (Nat × Text × Text)}
    (h : ∀ entry ∈ entries, ServerName entry.2.1 ∧ ServerName entry.2.2) :
    ∃ lines, entries.mapM divergingLine = some lines := by
  induction entries with
  | nil => exact ⟨[], rfl⟩
  | cons entry entries ih =>
      rw [List.forall_mem_cons] at h
      obtain ⟨⟨hexpecting, hactual⟩, hrest⟩ := h
      obtain ⟨lines, hlines⟩ := ih hrest
      have hline : ∃ line, divergingLine entry = some line := by
        obtain ⟨index, expecting, actual⟩ := entry
        rw [divergingLine]
        simp only [abbreviate_serverName hexpecting, abbreviate_serverName hactual]
        exact ⟨_, rfl⟩
      obtain ⟨line, hline⟩ := hline
      exact ⟨line :: lines, by rw [List.mapM_cons, hline, hlines]; rfl⟩

end Outcomes

/-! ## A branch that is ahead -/

def sampleMigration (name : String) (parentNames : List String) : DbMigration where
  name := name.toList
  script := "CREATE TYPE T;".toList
  parentNames := parentNames.map String.toList
  generatedBy := none

def sampleHistory : List DbMigration :=
  [sampleMigration "m1aaaaa" [], sampleMigration "m1bbbbb" ["m1aaaaa"]]

theorem isHistory_sampleHistory : IsHistory sampleHistory :=
  ⟨⟨rfl, rfl, trivial⟩, by decide⟩

def sampleBase : Connection := ⟨"main".toList, true, sampleHistory.take 1⟩

/-- The target, which returns its migrations in the other order. -/
def sampleTarget : Connection := ⟨"feature".toList, true, sampleHistory.reverse⟩

theorem holds_sampleBase : Holds sampleBase (sampleHistory.take 1) :=
  ⟨⟨⟨rfl, trivial⟩, by decide⟩, List.Perm.refl _⟩

theorem holds_sampleTarget : Holds sampleTarget sampleHistory :=
  ⟨isHistory_sampleHistory, List.reverse_perm _⟩

end GelCli.Migrations.Merge
