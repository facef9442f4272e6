import GelCli.Foundation.ByteIndex
import GelCli.Foundation.Dict
import GelCli.Foundation.Drain
import GelCli.Foundation.Linked

/-!
# The migrations of a database

`read_all` and `linearize_db_migrations` of `src/migrations/db_migration.rs`. The server
returns the migrations in some order and they are put into the order of their history
by walking from the ones without parents to their children. Of a history the walk
reaches everything before the first migration that the query leaves out.
-/

namespace GelCli.Migrations.Db

open GelCli.Foundation

inductive MigrationGeneratedBy where
  | devMode
  | ddlStatement
deriving DecidableEq, Repr

structure DbMigration where
  name : Text
  script : Text
  parentNames : List Text
  generatedBy : Option MigrationGeneratedBy
deriving DecidableEq, Repr

/-! ## Names -/

/-- `&id[..7]`. -/
def abbreviate (id : Text) : Option Text := Text.slice id 0 7

/-- The names the server gives: `m1` and a hash in base 32. -/
def ServerName (id : Text) : Prop :=
  ∃ hash, id = 'm' :: '1' :: hash ∧ 5 ≤ hash.length ∧ ∀ c ∈ hash, c.isAlphanum

theorem toNat_lt_of_isAlphanum {c : Char} (h : c.isAlphanum) : c.toNat < 0x80 := by
  -- no letter or digit comes behind the lower case letters
  have hlast : ∀ {d : Char}, d.toNat < 0x80 → c.val ≤ d.val → c.toNat < 0x80 :=
    fun hd hle => Nat.lt_of_le_of_lt (UInt32.le_iff_toNat_le.mp hle) hd
  rcases Bool.or_eq_true _ _ |>.mp h with halpha | hdigit
  · rcases Bool.or_eq_true _ _ |>.mp halpha with hupper | hlower
    · have hrange : c.val ≥ 'A'.val ∧ c.val ≤ 'Z'.val := of_decide_eq_true hupper
      exact hlast (by decide) hrange.2
    · exact hlast (by decide) (of_decide_eq_true (Bool.and_eq_true _ _ |>.mp hlower).2)
  · exact hlast (by decide) (of_decide_eq_true (Bool.and_eq_true _ _ |>.mp hdigit).2)

theorem abbreviate_serverName {id : Text} (h : ServerName id) : abbreviate id = some (id.take 7) := by
  obtain ⟨hash, rfl, hlen, halnum⟩ := h
  have hbytes : ∀ t : Text, (∀ c ∈ t, c.toNat < 0x80) → Text.byteLen t = t.length := by
    intro t ht
    induction t with
    | nil => rfl
    | cons c t ih =>
        rw [List.forall_mem_cons] at ht
        rw [Text.byteLen_cons, ih ht.2, Text.utf8Size_eq_one.mpr ht.1, List.length_cons,
          Nat.add_comm]
  have htake : Text.byteLen (hash.take 5) = 5 := by
    rw [hbytes _ fun c hc => toNat_lt_of_isAlphanum (halnum c (List.mem_of_mem_take hc)),
      List.length_take]
    omega
  refine Text.slice_eq_some.mpr ⟨[], hash.drop 5, ?_, rfl, ?_⟩
  · simp
  · show 0 + Text.byteLen ('m' :: '1' :: hash.take 5) = 7
    rw [Text.byteLen_cons, Text.byteLen_cons, htake]
    rfl

/-! ## `linearize_db_migrations` -/

abbrev Children := Dict Text (List DbMigration)

/-- The turns of the two loops. -/
def edges (migrations : List DbMigration) : List (Text × DbMigration) :=
  migrations.flatMap fun item => item.parentNames.map fun parent => (parent, item)

def pushChild (byParent : Children) (edge : Text × DbMigration) : Children :=
  byParent.set edge.1 ((byParent.get edge.1).getD [] ++ [edge.2])

/-- The last of `queue` stands first here. -/
structure LinearizeState where
  queue : List DbMigration
  byParent : Children
  visited : List Text
  output : Dict Text DbMigration

/-- One turn of `while let Some(item) = queue.pop()`. -/
def linearizeTurn (s : LinearizeState) : LinearizeState ⊕ Dict Text DbMigration :=
  match s.queue with
  | [] => .inr s.output
  | item :: queue =>
      let visited := item.name :: s.visited
      let children := ((s.byParent.get item.name).getD []).filter (·.name ∉ visited)
      .inl { queue := children.reverse ++ queue
             byParent := s.byParent.erase item.name
             visited := visited
             output := s.output.set item.name item }

def linearizeLoop : Nat → LinearizeState → Option (Dict Text DbMigration)
  | 0, _ => none
  | fuel + 1, s =>
      match linearizeTurn s with
      | .inl s => linearizeLoop fuel s
      | .inr output => some output

def LinearizeState.start (migrations : List DbMigration) : LinearizeState where
  queue := (migrations.filter (·.parentNames.isEmpty)).reverse
  byParent := (edges migrations).foldl pushChild .empty
  visited := []
  output := .empty

/-- The migrations that are queued or may still be. -/
def LinearizeState.pending (s : LinearizeState) : Nat :=
  s.queue.length + (s.byParent.items.map fun item => item.2.length).sum

theorem pending_of_linearizeTurn {s t : LinearizeState} (h : linearizeTurn s = .inl t) :
    t.pending < s.pending := by
  unfold linearizeTurn at h
  split at h
  · cases h
  · next item queue hqueue =>
    cases h
    have hfilter := List.length_filter_le (p := (·.name ∉ item.name :: s.visited))
      (l := (s.byParent.get item.name).getD [])
    have herase : ((s.byParent.get item.name).getD []).length +
        ((s.byParent.erase item.name).items.map fun item => item.2.length).sum ≤
          (s.byParent.items.map fun item => item.2.length).sum := by
      cases hget : s.byParent.get item.name with
      | none => simp [Dict.erase_of_get_eq_none hget]
      | some children =>
          have hperm := (Dict.items_perm_cons_erase hget).map fun item => item.2.length
          rw [hperm.sum_nat]
          simp
    simp only [LinearizeState.pending, hqueue, List.length_append, List.length_reverse,
      List.length_cons]
    omega

theorem linearizeLoop_isSome {fuel : Nat} {s : LinearizeState} (h : s.pending < fuel) :
    (linearizeLoop fuel s).isSome := by
  induction fuel generalizing s with
  | zero => cases h
  | succ fuel ih =>
      unfold linearizeLoop
      split
      · next t hturn =>
        exact ih (Nat.lt_of_lt_of_le (pending_of_linearizeTurn hturn) (Nat.le_of_lt_succ h))
      · rfl

def linearizeDbMigrations (migrations : List DbMigration) : Dict Text DbMigration :=
  (linearizeLoop ((LinearizeState.start migrations).pending + 1) (.start migrations)).get
    (linearizeLoop_isSome (Nat.lt_succ_self _))

/-! ## The walk over a history -/

/-- The children of `p` among the edges. -/
def childrenOf (p : Text) (es : List (Text × DbMigration)) : List DbMigration :=
  (es.filter (·.1 = p)).map Prod.snd

theorem getD_foldl_pushChild (es : List (Text × DbMigration)) (d : Children) (p : Text) :
    ((es.foldl pushChild d).get p).getD [] = (d.get p).getD [] ++ childrenOf p es :=
  Dict.groupOf_foldl_push es d p

def follows : Text → List DbMigration → Prop :=
  fun p => Linked DbMigration.parentNames (fun m => [m.name]) [p]

/-- Each migration of the walk has the next one as its only child. -/
def OnlyChildren (children : Text → List DbMigration) : Text → List DbMigration → Prop
  | p, [] => children p = []
  | p, m :: ms => children p = [m] ∧ OnlyChildren children m.name ms

theorem OnlyChildren.of_perm {children children' : Text → List DbMigration} {p : Text}
    {ms : List DbMigration} (h : OnlyChildren children p ms)
    (hperm : ∀ q ∈ p :: ms.map DbMigration.name, (children' q).Perm (children q)) :
    OnlyChildren children' p ms := by
  induction ms generalizing p with
  | nil =>
      have hp := hperm p List.mem_cons_self
      rw [h] at hp
      exact List.perm_nil.mp hp
  | cons m ms ih =>
      have hp := hperm p List.mem_cons_self
      rw [h.1] at hp
      exact ⟨List.perm_singleton.mp hp, ih h.2 fun q hq => hperm q (List.mem_cons_of_mem p hq)⟩

theorem exists_parentNames {q : Text} {ms : List DbMigration} (h : follows q ms)
    {m : DbMigration} (hm : m ∈ ms) :
    ∃ p ∈ q :: ms.map DbMigration.name, m.parentNames = [p] := by
  induction ms generalizing q with
  | nil => cases hm
  | cons x ms ih =>
      rcases List.mem_cons.mp hm with rfl | hm
      · exact ⟨q, List.mem_cons_self, h.1⟩
      · obtain ⟨p, hp, hparent⟩ := ih h.2 hm
        exact ⟨p, List.mem_cons_of_mem q hp, hparent⟩

theorem childrenOf_eq_nil {p q : Text} {ms : List DbMigration} (h : follows q ms)
    (hp : p ∉ q :: ms.map DbMigration.name) : childrenOf p (edges ms) = [] := by
  induction ms generalizing q with
  | nil => rfl
  | cons m ms ih =>
      obtain ⟨hparent, hrest⟩ := h
      have hne : q ≠ p := fun heq => hp (heq ▸ List.mem_cons_self)
      have htail := ih hrest fun hin => hp (List.mem_cons_of_mem q hin)
      rw [childrenOf] at htail
      simpa [childrenOf, edges, hparent, hne] using htail

/-- In a history they do. -/
theorem onlyChildren_edges {q : Text} {ms : List DbMigration} (h : follows q ms)
    (hnodup : (q :: ms.map DbMigration.name).Nodup) :
    OnlyChildren (fun p => childrenOf p (edges ms)) q ms := by
  induction ms generalizing q with
  | nil => rfl
  | cons m ms ih =>
      obtain ⟨hparent, hrest⟩ := h
      obtain ⟨hq, hnodup⟩ := List.nodup_cons.mp hnodup
      have hedges : ∀ p, childrenOf p (edges (m :: ms)) =
          if q = p then m :: childrenOf p (edges ms) else childrenOf p (edges ms) := by
        intro p
        by_cases heq : q = p
        · simp [childrenOf, edges, hparent, heq]
        · simp [childrenOf, edges, hparent, heq]
      refine ⟨?_, (ih hrest hnodup).of_perm fun p hp => .of_eq ?_⟩
      · show childrenOf q (edges (m :: ms)) = [m]
        rw [hedges, if_pos rfl, childrenOf_eq_nil hrest hq]
      · show childrenOf p (edges (m :: ms)) = childrenOf p (edges ms)
        rw [hedges, if_neg]
        rintro rfl
        exact hq hp

/-- From one queued migration the walk stores it and what follows. -/
theorem linearizeLoop_chain {fuel : Nat} {s : LinearizeState} {m : DbMigration}
    {ms : List DbMigration} {out : Dict Text DbMigration} (hqueue : s.queue = [m])
    (hnext : OnlyChildren (fun p => (s.byParent.get p).getD []) m.name ms)
    (hnodup : (m.name :: ms.map DbMigration.name).Nodup)
    (hnew : ∀ x ∈ ms, x.name ∉ s.visited) (h : linearizeLoop fuel s = some out) :
    out = (m :: ms).foldl (fun d x => d.set x.name x) s.output := by
  induction ms generalizing fuel s m with
  | nil =>
      -- the queue is empty after this turn
      cases fuel with
      | zero => cases h
      | succ fuel =>
          cases fuel with
          | zero => simp [linearizeLoop, linearizeTurn, hqueue] at h
          | succ fuel =>
              have hchildren : (s.byParent.get m.name).getD [] = [] := hnext
              simp [linearizeLoop, linearizeTurn, hqueue, hchildren] at h
              exact h.symm
  | cons x ms ih =>
      cases fuel with
      | zero => cases h
      | succ fuel =>
          obtain ⟨hchild, hrest⟩ := hnext
          obtain ⟨hm, hnodup⟩ := List.nodup_cons.mp hnodup
          have hxm : x.name ≠ m.name := fun heq => hm (heq ▸ List.mem_cons_self)
          have hx : x.name ∉ m.name :: s.visited := by
            rw [List.mem_cons, not_or]
            exact ⟨hxm, hnew x List.mem_cons_self⟩
          have hchild : (s.byParent.get m.name).getD [] = [x] := hchild
          rw [linearizeLoop, linearizeTurn, hqueue] at h
          simp only [hchild, List.filter_cons, hx, not_false_eq_true, decide_true, if_true,
            List.filter_nil, List.reverse_singleton, List.append_nil] at h
          refine ih rfl ?_ hnodup ?_ h
          · refine hrest.of_perm fun q hq => .of_eq ?_
            have hqm : q ≠ m.name := fun heq => hm (heq ▸ hq)
            simp only [Dict.get_erase, if_neg hqm]
          · intro y hy
            rw [List.mem_cons, not_or]
            exact ⟨fun heq => hm (heq ▸ List.mem_cons_of_mem _ (List.mem_map_of_mem hy)),
              hnew y (List.mem_cons_of_mem x hy)⟩

/-! ## Histories -/

/-- Each migration has the one before it as its only parent. -/
structure IsHistory (ms : List DbMigration) : Prop where
  linked : Linked DbMigration.parentNames (fun m => [m.name]) [] ms
  nodup : (ms.map DbMigration.name).Nodup

/-- **A history comes out in its order**, from any order of the rows, and rows that
follow none of it do not come out at all. -/
theorem items_linearizeDbMigrations {rows ms rest : List DbMigration} (h : IsHistory ms)
    (hrows : rows.Perm (ms ++ rest)) (hroots : ∀ r ∈ rest, r.parentNames ≠ [])
    (hloose : ∀ r ∈ rest, ∀ m ∈ ms, m.name ∉ r.parentNames) :
    (linearizeDbMigrations rows).items = ms.map fun m => (m.name, m) := by
  have hloop : linearizeLoop ((LinearizeState.start rows).pending + 1) (.start rows) =
      some (linearizeDbMigrations rows) :=
    (Option.some_get _).symm
  have hroot : rest.filter (·.parentNames.isEmpty) = [] :=
    List.filter_eq_nil_iff.mpr fun r hr => by simpa using hroots r hr
  have hfilter := hrows.filter (·.parentNames.isEmpty)
  rw [List.filter_append, hroot, List.append_nil] at hfilter
  cases ms with
  | nil =>
      rw [List.filter_nil] at hfilter
      have hqueue : (LinearizeState.start rows).queue = [] := by
        show (rows.filter (·.parentNames.isEmpty)).reverse = []
        rw [List.perm_nil.mp hfilter, List.reverse_nil]
      rw [linearizeLoop, linearizeTurn, hqueue] at hloop
      rw [← Option.some.inj hloop]
      rfl
  | cons m ms =>
      obtain ⟨hparent, hfollows⟩ := h.linked
      have hms : ms.filter (·.parentNames.isEmpty) = [] :=
        List.filter_eq_nil_iff.mpr fun x hx => by
          obtain ⟨p, -, hp⟩ := exists_parentNames hfollows hx
          simp [hp]
      have hm : [m].filter (·.parentNames.isEmpty) = [m] := by simp [hparent]
      rw [← List.singleton_append, List.filter_append, hm, hms, List.append_nil] at hfilter
      have hqueue : (LinearizeState.start rows).queue = [m] := by
        show (rows.filter (·.parentNames.isEmpty)).reverse = [m]
        rw [List.perm_singleton.mp hfilter, List.reverse_singleton]
      have hedges : edges (m :: ms) = edges ms := by simp [edges, hparent]
      have hnext : OnlyChildren
          (fun p => ((LinearizeState.start rows).byParent.get p).getD []) m.name ms := by
        refine (onlyChildren_edges hfollows h.nodup).of_perm fun q hq => ?_
        have hget : ((LinearizeState.start rows).byParent.get q).getD [] =
            childrenOf q (edges rows) := by
          rw [LinearizeState.start, getD_foldl_pushChild]
          rfl
        have hrest : childrenOf q (edges rest) = [] := by
          obtain ⟨x, hx, rfl⟩ := List.mem_map.mp (List.map_cons ▸ hq)
          simp only [childrenOf, edges, List.map_eq_nil_iff, List.filter_eq_nil_iff,
            List.mem_flatMap, List.mem_map]
          rintro _ ⟨r, hr, parent, hparent, rfl⟩
          rw [decide_eq_true_eq]
          rintro rfl
          exact hloose r hr x hx hparent
        have hperm : (edges rows).Perm (edges ms ++ edges rest) := by
          rw [← hedges, edges, edges, edges, ← List.flatMap_append]
          exact hrows.flatMap_right _
        have hchildren := (hperm.filter (·.1 = q)).map Prod.snd
        rw [List.filter_append, List.map_append] at hchildren
        rw [childrenOf] at hrest
        rw [hrest, List.append_nil] at hchildren
        rw [hget]
        exact hchildren
      have hout := linearizeLoop_chain hqueue hnext h.nodup (fun _ _ => List.not_mem_nil) hloop
      rw [hout, Dict.items_foldl_set]
      · rfl
      · exact h.nodup

/-! ## `read_all` -/

/-- A connection to a database: its name, whether its server is of version 3 or later,
and the migrations it holds in the order it returns them. -/
structure Connection where
  database : Text
  hasGeneratedBy : Bool
  rows : List DbMigration

/-- The rows that pass the filter of the query; an older server has none. -/
def Connection.shows (cli : Connection) (includeDevMode : Bool) (row : DbMigration) : Bool :=
  !cli.hasGeneratedBy || includeDevMode || row.generatedBy ≠ some .devMode

def Connection.view (cli : Connection) (fetchScript : Bool) (row : DbMigration) : DbMigration :=
  { row with
    script := if fetchScript then row.script else []
    generatedBy := if cli.hasGeneratedBy then row.generatedBy else none }

def Connection.query (cli : Connection) (fetchScript includeDevMode : Bool) : List DbMigration :=
  (cli.rows.filter (cli.shows includeDevMode)).map (cli.view fetchScript)

def readAll (cli : Connection) (fetchScript includeDevMode : Bool) : Dict Text DbMigration :=
  linearizeDbMigrations (cli.query fetchScript includeDevMode)

/-- What is read of a history: what comes before the first migration that is left out. -/
def Connection.read (cli : Connection) (fetchScript includeDevMode : Bool)
    (history : List DbMigration) : List DbMigration :=
  (history.takeWhile (cli.shows includeDevMode)).map (cli.view fetchScript)

structure Holds (cli : Connection) (history : List DbMigration) : Prop where
  isHistory : IsHistory history
  rows : cli.rows.Perm history

section Read

variable {cli : Connection} {fetchScript includeDevMode : Bool} {history : List DbMigration}

theorem linked_view {ps : List Text} {ms : List DbMigration} :
    Linked DbMigration.parentNames (fun m => [m.name]) ps (ms.map (cli.view fetchScript)) ↔
      Linked DbMigration.parentNames (fun m => [m.name]) ps ms := by
  induction ms generalizing ps with
  | nil => exact Iff.rfl
  | cons m ms ih => exact and_congr_right fun _ => ih

theorem map_name_view (ms : List DbMigration) :
    (ms.map (cli.view fetchScript)).map DbMigration.name = ms.map DbMigration.name := by
  rw [List.map_map]
  rfl

theorem isHistory_read (h : IsHistory history) :
    IsHistory (cli.read fetchScript includeDevMode history) where
  linked := by
    have hlinked := h.linked
    rw [← List.takeWhile_append_dropWhile (p := cli.shows includeDevMode) (l := history)] at hlinked
    exact linked_view.mpr (linked_append.mp hlinked).1
  nodup := by
    rw [Connection.read, map_name_view]
    exact h.nodup.sublist ((List.takeWhile_sublist _).map _)

theorem items_readAll (h : Holds cli history) :
    (readAll cli fetchScript includeDevMode).items =
      (cli.read fetchScript includeDevMode history).map fun m => (m.name, m) := by
  obtain ⟨shows, hshows⟩ : ∃ shows, cli.shows includeDevMode = shows := ⟨_, rfl⟩
  have hsplit := List.takeWhile_append_dropWhile (p := shows) (l := history)
  have hlinked := h.isHistory.linked
  have hnodup := h.isHistory.nodup
  rw [← hsplit] at hlinked hnodup
  rw [List.map_append, List.nodup_append] at hnodup
  obtain ⟨-, -, hdisjoint⟩ := hnodup
  -- a row behind the first one that is left out has its parent there too
  have hbehind : ∀ r ∈ (history.dropWhile shows).filter shows,
      ∃ p ∈ (history.dropWhile shows).map DbMigration.name, r.parentNames = [p] := by
    intro r hr
    obtain ⟨hr, hshown⟩ := List.mem_filter.mp hr
    have hlast := (linked_append.mp hlinked).2
    cases hdrop : history.dropWhile shows with
    | nil =>
        rw [hdrop] at hr
        cases hr
    | cons z zs =>
        have hz : ¬ shows z := by
          have := List.head_dropWhile_not shows (l := history) (by rw [hdrop]; simp)
          simpa [hdrop] using this
        rw [hdrop] at hr hlast
        rcases List.mem_cons.mp hr with rfl | hr
        · exact absurd hshown hz
        · exact exists_parentNames hlast.2 hr
  have hrows : (cli.query fetchScript includeDevMode).Perm
      (cli.read fetchScript includeDevMode history ++
        ((history.dropWhile shows).filter shows).map (cli.view fetchScript)) := by
    have hfilter : history.filter shows =
        history.takeWhile shows ++ (history.dropWhile shows).filter shows := by
      conv_lhs => rw [← hsplit]
      rw [List.filter_append, List.filter_eq_self.mpr fun x hx =>
        List.all_eq_true.mp List.all_takeWhile x hx]
    rw [Connection.query, Connection.read, ← List.map_append, hshows, ← hfilter]
    exact (h.rows.filter _).map _
  refine items_linearizeDbMigrations (isHistory_read h.isHistory) hrows ?_ ?_
  · intro row hrow
    obtain ⟨r, hr, rfl⟩ := List.mem_map.mp hrow
    obtain ⟨p, -, hp⟩ := hbehind r hr
    show r.parentNames ≠ []
    rw [hp]
    exact List.cons_ne_nil p []
  · intro row hrow row' hrow'
    obtain ⟨r, hr, rfl⟩ := List.mem_map.mp hrow
    obtain ⟨m, hm, rfl⟩ := List.mem_map.mp hrow'
    obtain ⟨p, hp, hparents⟩ := hbehind r hr
    show m.name ∉ r.parentNames
    rw [hparents, List.mem_singleton]
    rw [hshows] at hm
    exact hdisjoint _ (List.mem_map_of_mem hm) _ hp

end Read

end GelCli.Migrations.Db
