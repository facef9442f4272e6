import Mathlib.Data.Fintype.Card
import Mathlib.Data.Set.Finite.List
import Mathlib.Logic.Relation
import GelCli.Migrations.DbHistory

/-!
# Database migrations with several parents

`linearize_db_migrations` over acyclic sets of migrations. The walk reaches every
migration, and stores it when it is first taken from the queue, which is behind one of
its parents. With one parent each that is the order of the histories; a migration with
two parents can come out between them.
-/

namespace GelCli.Migrations.Db

open GelCli.Foundation

/-! ## What is promised -/

/-- `a` is the name of a parent of the migration `b`. -/
def Parent (ms : List DbMigration) (a b : Text) : Prop :=
  ∃ m ∈ ms, m.name = b ∧ a ∈ m.parentNames

/-- A finite set of migrations with all their parents. -/
structure AcyclicSet (ms : List DbMigration) : Prop where
  nodup : (ms.map DbMigration.name).Nodup
  closed : ∀ m ∈ ms, ∀ p ∈ m.parentNames, p ∈ ms.map DbMigration.name
  acyclic : ∀ n, ¬ Relation.TransGen (Parent ms) n n

/-- Reached from the migrations without parents. -/
inductive Reachable (ms : List DbMigration) : DbMigration → Prop where
  | root {m : DbMigration} (hm : m ∈ ms) (h : m.parentNames = []) : Reachable ms m
  | child {m parent : DbMigration} (hm : m ∈ ms) (hparent : Reachable ms parent)
      (h : parent.name ∈ m.parentNames) : Reachable ms m

/-- The migrations that are stored come behind their parents. -/
def Ordered (items : List (Text × DbMigration)) : Prop :=
  ∀ m before after, items = before ++ (m.name, m) :: after →
    ∀ p ∈ m.parentNames, p ∈ before.map Prod.fst

structure Topological (rows : List DbMigration) (out : Dict Text DbMigration) : Prop where
  stored : ∀ item, item ∈ out.items ↔ item.1 = item.2.name ∧ Reachable rows item.2
  ordered : Ordered out.items

/-- No migration has two parents. -/
def SingleParents (ms : List DbMigration) : Prop :=
  ∀ m ∈ ms, ∀ p ∈ m.parentNames, ∀ q ∈ m.parentNames, p = q

/-! ## Acyclic sets -/

theorem Reachable.mem {ms : List DbMigration} {m : DbMigration} (h : Reachable ms m) : m ∈ ms := by
  cases h with
  | root hm _ => exact hm
  | child hm _ _ => exact hm

theorem eq_of_name {ms : List DbMigration} (hnodup : (ms.map DbMigration.name).Nodup)
    {m m' : DbMigration} (hm : m ∈ ms) (hm' : m' ∈ ms) (h : m.name = m'.name) : m = m' :=
  List.inj_on_of_nodup_map hnodup hm hm' h

/-- From an acyclic set every migration is reached. -/
theorem AcyclicSet.reachable {ms : List DbMigration} (h : AcyclicSet ms) :
    ∀ m ∈ ms, Reachable ms m := by
  let Name := { n // n ∈ ms.map DbMigration.name }
  let before : Name → Name → Prop := fun a b => Relation.TransGen (Parent ms) a.1 b.1
  have htrans : IsTrans Name before := ⟨fun a b c hab hbc => hab.trans hbc⟩
  have hirrefl : Std.Irrefl before := ⟨fun a => h.acyclic a.1⟩
  have hfinite : Finite Name := List.finite_toSet _
  have hwf : WellFounded before := Finite.wellFounded_of_trans_of_irrefl before
  have hall : ∀ n : Name, ∀ m ∈ ms, m.name = n.1 → Reachable ms m := by
    intro n
    induction n using hwf.induction with
    | _ n ih =>
        intro m hm hn
        cases hparents : m.parentNames with
        | nil => exact .root hm hparents
        | cons p ps =>
            have hp : p ∈ m.parentNames := hparents ▸ List.mem_cons_self
            have hclosed := h.closed m hm p hp
            obtain ⟨parent, hparent, rfl⟩ := List.mem_map.mp hclosed
            exact .child hm (ih ⟨parent.name, hclosed⟩ (.single ⟨m, hm, hn, hp⟩) parent hparent rfl)
              hp
  exact fun m hm => hall ⟨m.name, List.mem_map_of_mem hm⟩ m hm rfl

/-- A set in which parents are lower is acyclic. -/
theorem acyclic_of_rank {ms : List DbMigration} (rank : Text → Nat)
    (h : ∀ m ∈ ms, ∀ p ∈ m.parentNames, rank p < rank m.name) (n : Text) :
    ¬ Relation.TransGen (Parent ms) n n := by
  have hrank : ∀ {a b}, Relation.TransGen (Parent ms) a b → rank a < rank b := by
    intro a b hab
    induction hab with
    | single hstep =>
        obtain ⟨m, hm, rfl, hp⟩ := hstep
        exact h m hm _ hp
    | tail _ hstep ih =>
        obtain ⟨m, hm, rfl, hp⟩ := hstep
        exact ih.trans (h m hm _ hp)
  exact fun hn => absurd (hrank hn) (lt_irrefl _)

/-! ## The walk -/

theorem mem_childrenOf {rows : List DbMigration} {p : Text} {m : DbMigration} :
    m ∈ childrenOf p (edges rows) ↔ m ∈ rows ∧ p ∈ m.parentNames := by
  simp only [childrenOf, edges, List.mem_map, List.mem_filter, List.mem_flatMap, decide_eq_true_eq]
  constructor
  · rintro ⟨_, ⟨⟨m', hm', parent, hparent, rfl⟩, rfl⟩, rfl⟩
    exact ⟨hm', hparent⟩
  · rintro ⟨hm, hp⟩
    exact ⟨(p, m), ⟨⟨m, hm, p, hp, rfl⟩, rfl⟩, rfl⟩

theorem linearizeTurn_of_queue {s : LinearizeState} {item : DbMigration} {queue : List DbMigration}
    (h : s.queue = item :: queue) :
    linearizeTurn s = .inl
      { queue := (((s.byParent.get item.name).getD []).filter
          (·.name ∉ item.name :: s.visited)).reverse ++ queue
        byParent := s.byParent.erase item.name
        visited := item.name :: s.visited
        output := s.output.set item.name item } := by
  rw [linearizeTurn, h]

/-- What turns preserve holds when the loop ends. -/
theorem linearizeLoop_induction {P : LinearizeState → Prop}
    (hturn : ∀ s t, P s → linearizeTurn s = .inl t → P t) {fuel : Nat} {s : LinearizeState}
    {out : Dict Text DbMigration} (hs : P s) (h : linearizeLoop fuel s = some out) :
    ∃ t, P t ∧ t.queue = [] ∧ t.output = out := by
  induction fuel generalizing s with
  | zero => cases h
  | succ fuel ih =>
      cases hqueue : s.queue with
      | nil =>
          rw [linearizeLoop, linearizeTurn, hqueue] at h
          exact ⟨s, hs, hqueue, Option.some.inj h⟩
      | cons item queue =>
          rw [linearizeLoop, linearizeTurn_of_queue hqueue] at h
          exact ih (hturn s _ hs (linearizeTurn_of_queue hqueue)) h

/-- The walk so far: what is stored was reached, and what is next to it is queued. -/
structure Walks (rows : List DbMigration) (s : LinearizeState) : Prop where
  keys : ∀ n, n ∈ s.output.keys ↔ n ∈ s.visited
  items : ∀ item ∈ s.output.items, item.1 = item.2.name ∧ Reachable rows item.2
  queued : ∀ m ∈ s.queue,
    Reachable rows m ∧ (m.parentNames = [] ∨ ∃ p ∈ m.parentNames, p ∈ s.visited)
  waiting : ∀ p, (s.byParent.get p).getD [] = if p ∈ s.visited then [] else childrenOf p (edges rows)
  covered : ∀ m ∈ rows, (m.parentNames = [] ∨ ∃ p ∈ m.parentNames, p ∈ s.visited) →
    m.name ∈ s.visited ∨ m ∈ s.queue

theorem walks_start (rows : List DbMigration) : Walks rows (.start rows) where
  keys n := Iff.rfl
  items item h := by cases h
  queued m hm := by
    obtain ⟨hrow, hroot⟩ := List.mem_filter.mp (List.mem_reverse.mp hm)
    have hroot : m.parentNames = [] := List.isEmpty_iff.mp hroot
    exact ⟨.root hrow hroot, .inl hroot⟩
  waiting p := by
    show (((edges rows).foldl pushChild .empty).get p).getD [] = childrenOf p (edges rows)
    rw [getD_foldl_pushChild]
    rfl
  covered m hm h := by
    rcases h with hroot | ⟨p, -, hp⟩
    · exact .inr (List.mem_reverse.mpr (List.mem_filter.mpr ⟨hm, List.isEmpty_iff.mpr hroot⟩))
    · cases hp

theorem Walks.turn {rows : List DbMigration} {s t : LinearizeState} (h : Walks rows s)
    (hturn : linearizeTurn s = .inl t) : Walks rows t := by
  cases hqueue : s.queue with
  | nil =>
      rw [linearizeTurn, hqueue] at hturn
      cases hturn
  | cons item queue =>
      rw [linearizeTurn_of_queue hqueue] at hturn
      cases hturn
      obtain ⟨hitem, -⟩ := h.queued item (hqueue ▸ List.mem_cons_self)
      constructor
      · intro n
        show n ∈ (s.output.set item.name item).keys ↔ _
        rw [Dict.keys, Dict.set, Dict.mem_keys_setItems, List.mem_cons, ← h.keys]
        rfl
      · intro x hx
        obtain ⟨k, v⟩ := x
        have hget : (s.output.set item.name item).get k = some v := Dict.get_eq_some.mpr hx
        rw [Dict.get_set] at hget
        split at hget
        · next hk =>
          cases hget
          exact ⟨hk, hitem⟩
        · exact h.items (k, v) (Dict.get_eq_some.mp hget)
      · intro m hm
        rcases List.mem_append.mp hm with hm | hm
        · have hchild := (List.mem_filter.mp (List.mem_reverse.mp hm)).1
          rw [h.waiting] at hchild
          split at hchild
          · cases hchild
          · obtain ⟨hrow, hparent⟩ := mem_childrenOf.mp hchild
            exact ⟨.child hrow hitem hparent, .inr ⟨_, hparent, List.mem_cons_self⟩⟩
        · obtain ⟨hreach, hor⟩ := h.queued m (hqueue ▸ List.mem_cons_of_mem item hm)
          rcases hor with hroot | ⟨p, hp, hvisited⟩
          · exact ⟨hreach, .inl hroot⟩
          · exact ⟨hreach, .inr ⟨p, hp, List.mem_cons_of_mem _ hvisited⟩⟩
      · intro p
        simp only [Dict.get_erase, List.mem_cons]
        by_cases hp : p = item.name
        · simp [hp]
        · rw [if_neg hp, h.waiting]
          simp [hp]
      · intro m hm hor
        -- what was covered before is visited now or still in the queue
        have hold : (m.parentNames = [] ∨ ∃ p ∈ m.parentNames, p ∈ s.visited) →
            m.name ∈ item.name :: s.visited ∨ m ∈ queue := by
          intro hor
          rcases h.covered m hm hor with hvisited | hmem
          · exact .inl (List.mem_cons_of_mem _ hvisited)
          · rcases List.mem_cons.mp (hqueue ▸ hmem) with rfl | hmem
            · exact .inl List.mem_cons_self
            · exact .inr hmem
        have hdone : m.name ∈ item.name :: s.visited ∨ m ∈ queue →
            m.name ∈ item.name :: s.visited ∨
              m ∈ (((s.byParent.get item.name).getD []).filter
                (·.name ∉ item.name :: s.visited)).reverse ++ queue :=
          Or.imp_right fun hmem => List.mem_append_right _ hmem
        rcases hor with hroot | ⟨p, hp, hvisited⟩
        · exact hdone (hold (.inl hroot))
        · rcases List.mem_cons.mp hvisited with rfl | hvisited
          · by_cases hbefore : item.name ∈ s.visited
            · exact hdone (hold (.inr ⟨_, hp, hbefore⟩))
            · by_cases hm' : m.name ∈ item.name :: s.visited
              · exact .inl hm'
              · refine .inr (List.mem_append_left _ (List.mem_reverse.mpr
                  (List.mem_filter.mpr ⟨?_, by simpa using hm'⟩)))
                rw [h.waiting, if_neg hbefore]
                exact mem_childrenOf.mpr ⟨hm, hp⟩
          · exact hdone (hold (.inr ⟨p, hp, hvisited⟩))

/-- The walk ends with every migration it reached, under its name. -/
theorem stored_linearize {rows : List DbMigration} (hnodup : (rows.map DbMigration.name).Nodup)
    (item : Text × DbMigration) :
    item ∈ (linearizeDbMigrations rows).items ↔ item.1 = item.2.name ∧ Reachable rows item.2 := by
  obtain ⟨t, hwalks, hqueue, hout⟩ := linearizeLoop_induction
    (fun s t hs hturn => Walks.turn hs hturn) (walks_start rows) (Option.some_get _).symm
  rw [linearizeDbMigrations, ← hout]
  have hdone : ∀ m ∈ rows, (m.parentNames = [] ∨ ∃ p ∈ m.parentNames, p ∈ t.visited) →
      m.name ∈ t.visited := by
    intro m hm hor
    have hcovered := hwalks.covered m hm hor
    rw [hqueue] at hcovered
    exact hcovered.resolve_right List.not_mem_nil
  have hvisited : ∀ m, Reachable rows m → m.name ∈ t.visited := by
    intro m hm
    induction hm with
    | root hm hroot => exact hdone _ hm (.inl hroot)
    | child hm _ hp ih => exact hdone _ hm (.inr ⟨_, hp, ih⟩)
  constructor
  · exact hwalks.items item
  · rintro ⟨hname, hreach⟩
    obtain ⟨v, hv⟩ := Dict.mem_keys_iff.mp ((hwalks.keys _).mpr (hvisited item.2 hreach))
    obtain ⟨hvname, hvreach⟩ := hwalks.items (item.2.name, v) (Dict.get_eq_some.mp hv)
    obtain rfl : v = item.2 := (eq_of_name hnodup hreach.mem hvreach.mem hvname).symm
    rw [← hname] at hv
    exact Dict.get_eq_some.mp hv

/-! ## One parent each -/

theorem Ordered.snoc {items : List (Text × DbMigration)} {m : DbMigration} (h : Ordered items)
    (hm : ∀ p ∈ m.parentNames, p ∈ items.map Prod.fst) : Ordered (items ++ [(m.name, m)]) := by
  intro m' before after heq
  cases List.eq_nil_or_concat' after with
  | inl hnil =>
      subst hnil
      obtain ⟨rfl, hlast⟩ := List.append_inj' heq rfl
      obtain rfl : m = m' := (Prod.mk.inj (List.singleton_inj.mp hlast)).2
      exact hm
  | inr hsome =>
      obtain ⟨rest, last, rfl⟩ := hsome
      rw [← List.cons_append, ← List.append_assoc] at heq
      obtain ⟨hitems, -⟩ := List.append_inj' heq rfl
      exact h m' before rest hitems

/-- Storing what is stored changes nothing. -/
theorem set_of_mem {d : Dict Text DbMigration} {m : DbMigration} (h : (m.name, m) ∈ d.items) :
    d.set m.name m = d := by
  have hset : ∀ items : List (Text × DbMigration), (items.map Prod.fst).Nodup →
      (m.name, m) ∈ items → Dict.setItems m.name m items = items := by
    intro items hnodup hmem
    induction items with
    | nil => cases hmem
    | cons item rest ih =>
        obtain ⟨hitem, hnodup⟩ := List.nodup_cons.mp hnodup
        unfold Dict.setItems
        rcases List.mem_cons.mp hmem with rfl | hmem
        · rw [if_pos rfl]
        · rw [if_neg fun heq : item.1 = m.name => hitem (heq ▸ List.mem_map_of_mem (f := Prod.fst) hmem),
            ih hnodup hmem]
  exact Dict.ext (hset d.items d.nodup h)

theorem ordered_turn {rows : List DbMigration} (hnodup : (rows.map DbMigration.name).Nodup)
    (hsingle : SingleParents rows) {s t : LinearizeState} (hwalks : Walks rows s)
    (h : Ordered s.output.items) (hturn : linearizeTurn s = .inl t) : Ordered t.output.items := by
  cases hqueue : s.queue with
  | nil =>
      rw [linearizeTurn, hqueue] at hturn
      cases hturn
  | cons item queue =>
      rw [linearizeTurn_of_queue hqueue] at hturn
      cases hturn
      obtain ⟨hreach, hparents⟩ := hwalks.queued item (hqueue ▸ List.mem_cons_self)
      show Ordered (s.output.set item.name item).items
      by_cases hkey : item.name ∈ s.output.keys
      · -- taken from the queue again
        obtain ⟨v, hv⟩ := Dict.mem_keys_iff.mp hkey
        have hmem := Dict.get_eq_some.mp hv
        obtain ⟨hname, hvreach⟩ := hwalks.items _ hmem
        obtain rfl : v = item := (eq_of_name hnodup hreach.mem hvreach.mem hname).symm
        rw [set_of_mem hmem]
        exact h
      · rw [Dict.items_set_of_notMem hkey]
        refine h.snoc fun p hp => ?_
        rcases hparents with hroot | ⟨q, hq, hvisited⟩
        · rw [hroot] at hp
          cases hp
        · rw [hsingle item hreach.mem p hp q hq]
          exact (hwalks.keys q).mpr hvisited

theorem topological_of_singleParents {rows : List DbMigration}
    (hnodup : (rows.map DbMigration.name).Nodup) (hsingle : SingleParents rows) :
    Topological rows (linearizeDbMigrations rows) := by
  have hempty : Ordered (LinearizeState.start rows).output.items := by
    intro m before after heq
    have hlength := congrArg List.length heq
    simp [LinearizeState.start, Dict.empty] at hlength
  obtain ⟨t, ⟨-, hordered⟩, -, hout⟩ := linearizeLoop_induction
    (P := fun s => Walks rows s ∧ Ordered s.output.items)
    (fun s t hs hturn => ⟨hs.1.turn hturn, ordered_turn hnodup hsingle hs.1 hs.2 hturn⟩)
    ⟨walks_start rows, hempty⟩ (Option.some_get _).symm
  exact ⟨stored_linearize hnodup, by rw [linearizeDbMigrations, ← hout]; exact hordered⟩

/-! ## Two parents -/

theorem keys_prefix_set (d : Dict Text DbMigration) (m : DbMigration) :
    d.keys <+: (d.set m.name m).keys := by
  by_cases hkey : m.name ∈ d.keys
  · exact ⟨[], by rw [List.append_nil, Dict.keys_set_of_mem hkey]⟩
  · rw [Dict.keys, Dict.keys, Dict.items_set_of_notMem hkey, List.map_append]
    exact List.prefix_append _ _

/-- What is stored stays in its place. -/
theorem keys_prefix {fuel : Nat} {s : LinearizeState} {out : Dict Text DbMigration}
    (h : linearizeLoop fuel s = some out) : s.output.keys <+: out.keys := by
  have hturn : ∀ r t : LinearizeState, s.output.keys <+: r.output.keys →
      linearizeTurn r = .inl t → s.output.keys <+: t.output.keys := by
    intro r t hr ht
    cases hqueue : r.queue with
    | nil =>
        rw [linearizeTurn, hqueue] at ht
        cases ht
    | cons item queue =>
        rw [linearizeTurn_of_queue hqueue] at ht
        cases ht
        exact hr.trans (keys_prefix_set _ _)
  obtain ⟨t, ht, -, rfl⟩ := linearizeLoop_induction hturn List.prefix_rfl h
  exact ht

/-- Of the last row the children of a name end with it, where it is one of them. -/
theorem childrenOf_last (rows : List DbMigration) {m : DbMigration} {p : Text}
    (hp : p ∈ m.parentNames) :
    ∃ front, childrenOf p (edges (rows ++ [m])) = front ++ [m] := by
  have hedges : edges (rows ++ [m]) = edges rows ++ m.parentNames.map fun parent => (parent, m) := by
    rw [edges, List.flatMap_append, List.flatMap_singleton]
    rfl
  have hne : childrenOf p (m.parentNames.map fun parent => (parent, m)) ≠ [] := by
    refine List.ne_nil_of_mem (a := m) (List.mem_map.mpr ⟨(p, m), List.mem_filter.mpr ⟨?_, ?_⟩, rfl⟩)
    · exact List.mem_map_of_mem hp
    · exact decide_eq_true rfl
  have hall : ∀ c ∈ childrenOf p (m.parentNames.map fun parent => (parent, m)), c = m := by
    intro c hc
    obtain ⟨e, he, rfl⟩ := List.mem_map.mp hc
    obtain ⟨parent, -, rfl⟩ := List.mem_map.mp (List.mem_filter.mp he).1
    rfl
  obtain ⟨front, last, hsplit⟩ := (List.eq_nil_or_concat' _).resolve_left hne
  obtain rfl : last = m := hall last (by rw [hsplit]; simp)
  refine ⟨childrenOf p (edges rows) ++ front, ?_⟩
  rw [hedges, List.append_assoc, ← hsplit, childrenOf, List.filter_append, List.map_append]
  rfl

/-- A migration that is the last row comes out right behind the first of its parents. -/
theorem linearizeLoop_last {rows : List DbMigration} {m : DbMigration}
    (hm : m.parentNames ≠ [])
    (hnodup : ((rows ++ [m]).map DbMigration.name).Nodup) {fuel : Nat}
    {s : LinearizeState} {out : Dict Text DbMigration} (hwalks : Walks (rows ++ [m]) s)
    (hfresh : ∀ p ∈ m.parentNames, p ∉ s.visited) (hnew : m.name ∉ s.visited)
    (h : linearizeLoop fuel s = some out) :
    (∀ p ∈ m.parentNames, p ∉ out.keys) ∨
      ∃ p before after, out.keys = before ++ p :: m.name :: after ∧
        ∀ p' ∈ m.parentNames, p' ∉ before := by
  induction fuel generalizing s with
  | zero => cases h
  | succ fuel ih =>
      cases hqueue : s.queue with
      | nil =>
          rw [linearizeLoop, linearizeTurn, hqueue] at h
          cases h
          exact .inl fun p hp hkey => hfresh p hp ((hwalks.keys p).mp hkey)
      | cons item queue =>
          have hturn := linearizeTurn_of_queue hqueue
          have hnext := hwalks.turn hturn
          rw [linearizeLoop, hturn] at h
          obtain ⟨hreach, hparents⟩ := hwalks.queued item (hqueue ▸ List.mem_cons_self)
          have hitem : m.name ≠ item.name := by
            intro heq
            obtain rfl : m = item := eq_of_name hnodup (by simp) hreach.mem heq
            rcases hparents with hroot | ⟨p, hp, hvisited⟩
            · exact hm hroot
            · exact hfresh p hp hvisited
          have hnew' : m.name ∉ item.name :: s.visited := by
            rw [List.mem_cons, not_or]
            exact ⟨hitem, hnew⟩
          by_cases hparent : item.name ∈ m.parentNames
          · -- the migration is on the top of the queue now
            obtain ⟨front, hchildren⟩ := childrenOf_last rows hparent
            have hwaiting : (s.byParent.get item.name).getD [] = front ++ [m] := by
              rw [hwalks.waiting, if_neg (hfresh _ hparent), hchildren]
            simp only [hwaiting, List.filter_append, List.filter_singleton, hnew',
              not_false_eq_true, decide_true, cond_true, List.reverse_append, List.reverse_singleton,
              List.cons_append] at h
            cases fuel with
            | zero => cases h
            | succ fuel =>
                rw [linearizeLoop, linearizeTurn_of_queue rfl] at h
                have hitemkey : item.name ∉ s.output.keys :=
                  fun hkey => hfresh _ hparent ((hwalks.keys _).mp hkey)
                have hmkey : m.name ∉ (s.output.set item.name item).keys :=
                  fun hkey => hnew' ((hnext.keys _).mp hkey)
                obtain ⟨after, hafter⟩ := keys_prefix h
                refine .inr ⟨item.name, s.output.keys, after, ?_,
                  fun p hp hkey => hfresh p hp ((hwalks.keys p).mp hkey)⟩
                rw [← hafter]
                simp [Dict.keys, Dict.items_set_of_notMem hmkey, Dict.items_set_of_notMem hitemkey]
          · refine ih hnext (fun p hp => ?_) hnew' h
            rw [List.mem_cons, not_or]
            exact ⟨fun heq => hparent (heq ▸ hp), hfresh p hp⟩

theorem AcyclicSet.perm {ms rows : List DbMigration} (h : AcyclicSet ms) (hperm : rows.Perm ms) :
    AcyclicSet rows := by
  have hparent : Parent rows = Parent ms := by
    funext a b
    simp only [Parent, hperm.mem_iff]
  have hnames := hperm.map DbMigration.name
  exact
    { nodup := hnames.nodup_iff.mpr h.nodup
      closed := fun m hm p hp => hnames.mem_iff.mpr (h.closed m (hperm.mem_iff.mp hm) p hp)
      acyclic := fun n => hparent ▸ h.acyclic n }

/-- In some order of the rows a migration with two parents comes before one of them. -/
theorem not_topological_of_two_parents {ms : List DbMigration} (h : AcyclicSet ms)
    {m : DbMigration} (hm : m ∈ ms) {p q : Text} (hp : p ∈ m.parentNames)
    (hq : q ∈ m.parentNames) (hne : p ≠ q) :
    ∃ rows : List DbMigration, rows.Perm ms ∧ ¬ Topological rows (linearizeDbMigrations rows) := by
  classical
  have hperm : (ms.erase m ++ [m]).Perm ms :=
    (List.perm_append_singleton m _).trans (List.perm_cons_erase hm).symm
  have hrows := h.perm hperm
  refine ⟨_, hperm, fun htop => ?_⟩
  rcases linearizeLoop_last (List.ne_nil_of_mem hp) hrows.nodup (walks_start _)
    (fun _ _ => List.not_mem_nil) List.not_mem_nil (Option.some_get _).symm with
    hnone | ⟨p₀, before, after, hkeys, hbefore⟩
  · -- the parents are reached like everything else
    have hmrow : m ∈ ms.erase m ++ [m] := by simp
    obtain ⟨parent, hparent, rfl⟩ := List.mem_map.mp (hrows.closed m hmrow p hp)
    have hstored : (parent.name, parent) ∈ (linearizeDbMigrations (ms.erase m ++ [m])).items :=
      (htop.stored _).mpr ⟨rfl, hrows.reachable parent hparent⟩
    exact hnone _ hp (List.mem_map_of_mem hstored)
  · have hitems : (linearizeDbMigrations (ms.erase m ++ [m])).items.map Prod.fst =
        before ++ p₀ :: m.name :: after := hkeys
    obtain ⟨front, behind, hsplit, rfl, hbehind⟩ := List.map_eq_append_iff.mp hitems
    obtain ⟨first, last, rfl, rfl, hlast⟩ := List.map_eq_cons_iff.mp hbehind
    obtain ⟨item, rest, rfl, hname, rfl⟩ := List.map_eq_cons_iff.mp hlast
    obtain ⟨hitem, hreach⟩ := (htop.stored item).mp (by rw [hsplit]; simp)
    obtain ⟨k, v⟩ := item
    obtain rfl : v = m := eq_of_name hrows.nodup hreach.mem (by simp) (hitem.symm.trans hname)
    obtain rfl : k = v.name := hitem
    have hordered : ∀ p ∈ v.parentNames, p ∈ (front ++ [first]).map Prod.fst :=
      htop.ordered v (front ++ [first]) rest (by rw [hsplit, List.append_assoc]; rfl)
    have hfirst : ∀ p ∈ v.parentNames, p = first.1 := by
      intro p hp
      have hmem := hordered p hp
      rw [List.map_append, List.mem_append] at hmem
      exact List.mem_singleton.mp (hmem.resolve_left (hbefore p hp))
    exact hne ((hfirst p hp).trans (hfirst q hq).symm)

/-- **Every order of the rows of an acyclic set of migrations is put into a topological
order exactly when no migration has two parents.** -/
theorem linearize_topological_iff {ms : List DbMigration} (h : AcyclicSet ms) :
    (∀ rows : List DbMigration, rows.Perm ms → Topological rows (linearizeDbMigrations rows)) ↔
      SingleParents ms := by
  constructor
  · intro hall m hm p hp q hq
    by_contra hne
    obtain ⟨rows, hperm, hnot⟩ := not_topological_of_two_parents h hm hp hq hne
    exact hnot (hall rows hperm)
  · intro hsingle rows hperm
    exact topological_of_singleParents (h.perm hperm).nodup fun m hm =>
      hsingle m (hperm.mem_iff.mp hm)

def merged (name : String) (parentNames : List String) : DbMigration :=
  ⟨name.toList, [], parentNames.map String.toList, none⟩

/-- Two migrations behind one, and one behind both. -/
def diamond : List DbMigration :=
  [merged "m1aaa" [], merged "m1bbb" ["m1aaa"], merged "m1ccc" ["m1aaa"],
    merged "m1ddd" ["m1bbb", "m1ccc"]]

theorem acyclicSet_diamond : AcyclicSet diamond where
  nodup := by decide
  closed := by decide
  acyclic := acyclic_of_rank (fun n => (diamond.map DbMigration.name).idxOf n) (by decide)

theorem linearize_topological_iff_diamond :
    AcyclicSet diamond ∧ ((∀ rows : List DbMigration, rows.Perm diamond →
      Topological rows (linearizeDbMigrations rows)) ↔ SingleParents diamond) :=
  ⟨acyclicSet_diamond, linearize_topological_iff acyclicSet_diamond⟩

/-- The last migration of the diamond comes out before one of its parents. -/
theorem diamond_not_topological :
    AcyclicSet diamond ∧ ¬ Topological diamond (linearizeDbMigrations diamond) := by
  refine ⟨acyclicSet_diamond, fun h => ?_⟩
  have hitems : (linearizeDbMigrations diamond).items =
      [("m1aaa".toList, merged "m1aaa" []), ("m1ccc".toList, merged "m1ccc" ["m1aaa"])] ++
        ("m1ddd".toList, merged "m1ddd" ["m1bbb", "m1ccc"]) ::
        [("m1bbb".toList, merged "m1bbb" ["m1aaa"])] := rfl
  have hparent := h.ordered (merged "m1ddd" ["m1bbb", "m1ccc"]) _ _ hitems "m1bbb".toList (by decide)
  exact absurd hparent (by decide)

end GelCli.Migrations.Db
