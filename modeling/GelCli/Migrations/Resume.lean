import GelCli.Migrations.Apply
import GelCli.Migrations.Backtrack

/-!
# Applying again after an interrupted run

A run that ends well leaves the chain up to the target as the history. A run that
stops leaves a lineage, and `apply_resumes_iff` says of which lineages a second run
gets to the end: those whose last migration is in the chain, not after the target, or
is one from which the path search finds its way.

The rewrite after a fixup is where this fails: the id of the fixup is then the last
migration, and no file needs to lead on from there.
-/

namespace GelCli.Migrations

open GelCli.Foundation

variable {S : Server} {E : MigrateError → Session → Prop}

/-! ## The directory -/

namespace Checkout

variable {H : Hasher} (C : Checkout H)

def keys : List String := C.chain.keys

def revisions : Revisions := ⟨C.chain.migrations, C.fixups, C.normal⟩

/-- The file chain up to a revision. -/
def chainTo (revision : String) : List String := C.keys.take (C.keys.idxOf revision + 1)

theorem length_migrations : C.chain.migrations.length = C.keys.length := (List.length_map _).symm

theorem indexOf_eq {revision : String} (h : revision ∈ C.keys) :
    indexOf C.chain.migrations revision = some (C.keys.idxOf revision) := by
  have hidx : C.keys.idxOf revision < C.keys.length := List.idxOf_lt_length_of_mem h
  apply List.findIdx?_eq_some_iff_getElem.mpr
  refine ⟨C.length_migrations ▸ hidx, ?_, ?_⟩
  · have hget : C.keys[C.keys.idxOf revision] = revision := List.getElem_idxOf hidx
    exact decide_eq_true ((List.getElem_map Prod.fst).symm.trans hget)
  · intro j hj hkey
    have hlt : j < C.keys.length := hj.trans hidx
    have hget : C.keys[j] = revision := by
      simpa [keys, FileChain.keys] using hkey
    have hsame := C.chain.lineage.nodup.idxOf_getElem j hlt
    change C.keys.idxOf C.keys[j] = j at hsame
    rw [hget] at hsame
    omega

theorem getLast?_chainTo {revision : String} (h : revision ∈ C.keys) :
    (C.chainTo revision).getLast? = some revision := by
  have hidx : C.keys.idxOf revision < C.keys.length := List.idxOf_lt_length_of_mem h
  rw [chainTo, List.take_succ_eq_append_getElem hidx, List.getLast?_concat,
    List.getElem_idxOf hidx]

theorem lineage_chainTo (revision : String) : H.Lineage (C.chainTo revision) :=
  C.chain.lineage.of_prefix (List.take_prefix _ _)

/-- A history that ends in a file of the chain is the chain up to there. -/
theorem eq_chainTo {c : List String} {revision : String} (hc : H.Lineage c)
    (hlast : c.getLast? = some revision) (h : revision ∈ C.keys) : c = C.chainTo revision := by
  obtain ⟨ids, rfl⟩ := List.getLast?_eq_some_iff.mp hlast
  have hidx : C.keys.idxOf revision < C.keys.length := List.idxOf_lt_length_of_mem h
  have hget : C.keys[C.keys.idxOf revision] = revision := List.getElem_idxOf hidx
  have htake : ids ++ [C.keys[C.keys.idxOf revision]] = C.keys.take (C.keys.idxOf revision + 1) :=
    history_eq_take C.chain.lineage hidx (hget.symm ▸ hc)
  rw [hget] at htake
  exact htake

/-- Every file is named after its parent. -/
theorem hashed_of_mem {file : MigrationFile} (h : file ∈ C.revisions.files) :
    ∃ text, file.data.id = H.make file.data.parentId text := by
  rcases List.mem_append.mp h with hfixup | hchain
  · exact C.hashed file hfixup
  obtain ⟨⟨key, _⟩, hmem, rfl⟩ := List.mem_map.mp hchain
  have hkey := C.chain.ids _ hmem
  obtain ⟨before, after, hsplit⟩ := List.append_of_mem hmem
  change C.chain.migrations = _ at hsplit
  have hfollows := C.chain.follows
  have hlineage := C.chain.lineage
  rw [hsplit, List.map_append, follows_append, C.chain.map_id before
    (hsplit ▸ (List.prefix_append _ _).isInfix), List.nil_append, List.map_cons] at hfollows
  rw [hsplit, List.map_append, List.map_cons, List.append_cons] at hlineage
  obtain ⟨-, text, hmake⟩ := hlineage.of_append.of_append_singleton
  refine ⟨text, ?_⟩
  rw [hkey, hfollows.2.1]
  exact hmake

theorem target_of_fixup {file : MigrationFile} {target : String}
    (hmem : file ∈ C.revisions.files) (htarget : file.fixupTarget = some target) :
    target ∈ C.keys := by
  rcases List.mem_append.mp hmem with hfixup | hchain
  · obtain ⟨target', hkeys, htarget'⟩ := C.targets file hfixup
    cases htarget.symm.trans htarget'
    exact hkeys
  · obtain ⟨migration, hmigration, rfl⟩ := List.mem_map.mp hchain
    rw [C.normal migration hmigration] at htarget
    cases htarget

/-- The files that a rewrite to `revision` goes through. -/
theorem range_eq {revision : String} (h : revision ∈ C.keys) :
    range C.chain.migrations 0 (C.keys.idxOf revision + 1) =
      some (C.chain.migrations.take (C.keys.idxOf revision + 1)) := by
  have hidx : C.keys.idxOf revision < C.keys.length := List.idxOf_lt_length_of_mem h
  rw [range, if_pos ⟨Nat.zero_le _, C.length_migrations ▸ hidx⟩, List.drop_zero]

end Checkout

/-! ## Along a path -/

section Path

variable (C : Checkout S.hasher) {c : List String}

/-- The history ends in the revision. -/
structure Ends (H : Hasher) (revision : String) (c : List String) : Prop where
  lineage : H.Lineage c
  last : c.getLast? = some revision

theorem Ends.last_eq {H : Hasher} {revision : String} (h : Ends H revision c) :
    H.last c = revision := by
  rw [Naming.last, h.last]
  rfl

theorem Ends.append {H : Hasher} {revision text : String} (h : Ends H revision c) :
    Ends H (H.make revision text) (c ++ [H.make revision text]) where
  lineage := by
    have hmake := h.lineage.make text
    rw [h.last_eq] at hmake
    exact hmake
  last := List.getLast?_concat ..

variable {place : Place}

/-- A file is applied where its parent is the last migration. -/
theorem applyFile_ends {file : MigrationFile} (hE : Quiet S E)
    (hmem : file ∈ C.revisions.files) (hc : Ends S.hasher file.data.parentId c) :
    Triple (fun s => place.At c s) (applyMigration S file)
      (fun _ s => ∃ c', Ends S.hasher file.data.id c' ∧ place.At c' s) E := by
  obtain ⟨text, hid⟩ := C.hashed_of_mem hmem
  have hends : Ends S.hasher file.data.id (c ++ [file.data.id]) := hid ▸ hc.append
  exact (applyMigration_at hE hc.last_eq.symm).conseq (fun s hs => hs)
    fun _ s hs => ⟨_, hends, hs⟩

/-- A rewrite ends in its target. -/
theorem rewrite_ends {target : String} {saved : Option (List String)} (hE : Quiet S E)
    (htarget : target ∈ C.keys) :
    Triple (fun s => (Place.plain saved).At c s)
      (applyOperation S (.rewrite (C.chain.migrations.take (C.keys.idxOf target + 1))))
      (fun _ s => ∃ c', Ends S.hasher target c' ∧ (Place.plain saved).At c' s) E := by
  have hends : Ends S.hasher target (C.chainTo target) :=
    ⟨C.lineage_chainTo target, C.getLast?_chainTo htarget⟩
  refine Triple.bind (startRewrite_at hE) fun _ => ?_
  refine Triple.withUndo (applyEach_at hE (C.chain.follows_take _)) (fun _ => ?_)
    fun e => hE.after_error
  rw [C.chain.map_id _ (List.take_prefix _ _).isInfix, List.nil_append, List.map_take]
  exact (commitRewrite_at hE).conseq (fun s hs => hs) fun _ s hs => ⟨_, hends, hs⟩

theorem pathOperations_ok {path : List PathElem} {a b : String}
    (hpath : C.revisions.IsPath a path b) :
    ∃ operations, pathOperations C.chain.migrations path = .ok operations := by
  induction path generalizing a with
  | nil => exact ⟨[], rfl⟩
  | cons elem path ih =>
      obtain ⟨hmem, -, next, hend, hpath⟩ := hpath
      obtain ⟨rest, hrest⟩ := ih hpath
      cases elem with
      | normal file => exact ⟨_, by rw [pathOperations, elemOperations, hrest]⟩
      | fixup file =>
          have htarget : file.fixupTarget = some next := hend
          have hkeys := C.target_of_fixup hmem htarget
          have helem : elemOperations C.chain.migrations (.fixup file) = .ok
              [.apply file, .rewrite (C.chain.migrations.take (C.keys.idxOf next + 1))] := by
            simp only [elemOperations, htarget, C.indexOf_eq hkeys, C.range_eq hkeys]
          exact ⟨_, by rw [pathOperations, helem, hrest]⟩

/-- **The operations of a path lead from its start to its end.** -/
theorem operations_end {path : List PathElem} {a b : String} {operations : List Operation}
    {saved : Option (List String)} (hE : Quiet S E) (hpath : C.revisions.IsPath a path b)
    (hoperations : pathOperations C.chain.migrations path = .ok operations)
    (hc : Ends S.hasher a c) :
    Triple (fun s => (Place.plain saved).At c s) (applyMigrationsInner S operations)
      (fun _ s => ∃ c', Ends S.hasher b c' ∧ (Place.plain saved).At c' s) E := by
  induction path generalizing a c operations with
  | nil =>
      cases hpath
      cases hoperations
      exact Triple.pure fun s hs => ⟨c, hc, hs⟩
  | cons elem path ih =>
      obtain ⟨hmem, hparent, next, hend, hpath⟩ := hpath
      obtain ⟨rest, hrest⟩ := pathOperations_ok C hpath
      have hstart : Ends S.hasher elem.file.data.parentId c := hparent.symm ▸ hc
      cases elem with
      | normal file =>
          rw [pathOperations, elemOperations, hrest] at hoperations
          cases hoperations
          cases hend
          refine Triple.bind (applyFile_ends C hE hmem hstart) fun _ => ?_
          apply Triple.of_exists
          intro c'
          exact Triple.assume (fun s hs => hs.1) fun hc' =>
            (ih hpath hrest hc').conseq (fun s hs => hs.2) fun _ s hs => hs
      | fixup file =>
          have htarget : file.fixupTarget = some next := hend
          have hkeys := C.target_of_fixup hmem htarget
          have helem : elemOperations C.chain.migrations (.fixup file) = .ok
              [.apply file, .rewrite (C.chain.migrations.take (C.keys.idxOf next + 1))] := by
            simp only [elemOperations, htarget, C.indexOf_eq hkeys, C.range_eq hkeys]
          rw [pathOperations, helem, hrest] at hoperations
          cases hoperations
          refine Triple.bind (applyFile_ends C hE hmem hstart) fun _ => ?_
          apply Triple.of_exists
          intro c₁
          refine Triple.conseq ?_ (fun s hs => hs.2) fun _ s hs => hs
          refine Triple.bind (rewrite_ends C hE hkeys) fun _ => ?_
          apply Triple.of_exists
          intro c₂
          exact Triple.assume (fun s hs => hs.1) fun hc₂ =>
            (ih hpath hrest hc₂).conseq (fun s hs => hs.2) fun _ s hs => hs

end Path

/-! ## Along the chain -/

section Slice

variable (C : Checkout S.hasher) {c : List String} {target : String} {stop : Option String}

/-- The revision that a run goes to. -/
def Checkout.Aims {H : Hasher} (C : Checkout H) (stop : Option String) (target : String) : Prop :=
  stop = none ∧ C.keys.getLast? = some target ∨ stop = some target ∧ target ∈ C.keys

variable {C}

theorem Checkout.Aims.mem (h : C.Aims stop target) : target ∈ C.keys := by
  rcases h with ⟨-, hlast⟩ | ⟨-, hmem⟩
  · exact List.mem_of_getLast? hlast
  · exact hmem

theorem Checkout.Aims.endIndex (h : C.Aims stop target) :
    ((stop.bind (indexOf C.chain.migrations)).map (· + 1)).getD C.chain.migrations.length =
      C.keys.idxOf target + 1 := by
  rcases h with ⟨rfl, hlast⟩ | ⟨rfl, hmem⟩
  · obtain ⟨before, hkeys⟩ := List.getLast?_eq_some_iff.mp hlast
    have hnodup : (before ++ [target]).Nodup := hkeys ▸ C.chain.lineage.nodup
    have hidx : (before ++ [target]).idxOf target = before.length := by
      have hget := hnodup.idxOf_getElem before.length (by simp)
      rwa [List.getElem_concat_length rfl] at hget
    show C.chain.migrations.length = C.keys.idxOf target + 1
    rw [C.length_migrations, hkeys, hidx, List.length_append, List.length_singleton]
  · rw [Option.bind_some, C.indexOf_eq hmem]
    rfl

/-- Where the database stands in the chain: at its beginning, or at a file of it. -/
def Checkout.Stands {H : Hasher} (C : Checkout H) (c : List String) (n : Nat) : Prop :=
  c = [] ∧ n = 0 ∨
    ∃ revision ∈ C.keys, Ends H revision c ∧ n = C.keys.idxOf revision + 1

theorem Checkout.Stands.eq_take {n : Nat} (h : C.Stands c n) : c = C.keys.take n := by
  rcases h with ⟨rfl, rfl⟩ | ⟨revision, hmem, hends, rfl⟩
  · exact List.take_zero.symm
  · exact C.eq_chainTo hends.lineage hends.last hmem

theorem Checkout.Stands.startIndex {n : Nat} (h : C.Stands c n) :
    ((c.getLast?.bind (indexOf C.chain.migrations)).map (· + 1)).getD 0 = n := by
  rcases h with ⟨rfl, rfl⟩ | ⟨revision, hmem, hends, rfl⟩
  · rfl
  · rw [hends.last, Option.bind_some, C.indexOf_eq hmem]
    rfl

theorem Checkout.slice_eq {n : Nat} (hstands : C.Stands c n) (haims : C.Aims stop target) :
    slice C.chain.migrations c.getLast? stop =
      if n ≤ C.keys.idxOf target + 1 then
        some ((C.chain.migrations.take (C.keys.idxOf target + 1)).drop n)
      else none := by
  have hidx : C.keys.idxOf target < C.keys.length := List.idxOf_lt_length_of_mem haims.mem
  rw [slice, hstands.startIndex, haims.endIndex, range]
  have hle : C.keys.idxOf target + 1 ≤ C.chain.migrations.length := C.length_migrations ▸ hidx
  simp only [hle, and_true]

theorem follows_drop_take (n m : Nat) :
    Follows S.hasher (C.keys.take n) (((C.chain.migrations.take m).drop n).map Prod.snd) := by
  have hfollows := C.chain.follows_drop n
  rw [← List.take_append_drop (m - n) (C.chain.migrations.drop n), List.map_append,
    follows_append] at hfollows
  rw [List.drop_take]
  exact hfollows.1

/-- The query for indexes to build, and the one before `allow_bare_ddl` is changed. -/
theorem buildIndexes_at {cmd : Command} (hE : Quiet S E) {place : Place} :
    Triple (fun s => place.At c s) (buildIndexes S cmd) (fun _ s => place.At c s) E := by
  apply Triple.ite
  · exact fun _ => Triple.pure fun _ hs => hs
  · exact fun _ => query_at hE

theorem disableDdl_at {dbMigrations : List String} (hE : Quiet S E) {place : Place} :
    Triple (fun s => place.At c s) (disableDdl S dbMigrations) (fun _ s => place.At c s) E := by
  apply Triple.ite
  · exact fun _ => query_at hE
  · exact fun _ => Triple.pure fun _ hs => hs

/-- **A database that stands in the chain gets the files up to the target**, unless it is
past it. -/
theorem applySlice_at {ctx : Context} {cmd : Command} {n : Nat} (hE : Quiet S E)
    (hstands : C.Stands c n) (haims : C.Aims stop target)
    (hle : n ≤ C.keys.idxOf target + 1 ∨ ∀ e s, E e s) :
    Triple (fun s => (Place.plain none).At c s)
      (applySlice S ctx cmd C.chain.migrations c stop)
      (fun _ s => n ≤ C.keys.idxOf target + 1 ∧
        (Place.plain none).At (C.chainTo target) s) E := by
  have hrange := Checkout.slice_eq hstands haims
  unfold applySlice
  by_cases hn : n ≤ C.keys.idxOf target + 1
  swap
  · rw [hrange, if_neg hn]
    apply Triple.throw
    intro s _
    rcases hle with hle | hall
    · exact absurd hle hn
    · exact hall _ s
  rw [hrange, if_pos hn]
  have hreach : c ++ ((C.chain.migrations.take (C.keys.idxOf target + 1)).drop n).map Prod.fst =
      C.chainTo target := by
    rw [hstands.eq_take, List.map_drop, List.map_take]
    show C.keys.take n ++ (C.keys.take (C.keys.idxOf target + 1)).drop n = _
    have hbegin : C.keys.take n = (C.keys.take (C.keys.idxOf target + 1)).take n := by
      rw [List.take_take, Nat.min_eq_left hn]
    rw [hbegin, List.take_append_drop]
    rfl
  cases hslice : (C.chain.migrations.take (C.keys.idxOf target + 1)).drop n with
  | nil =>
      rw [hslice, List.map_nil, List.append_nil] at hreach
      exact (buildIndexes_at hE).conseq (fun s hs => hs) fun _ s hs => ⟨hn, hreach ▸ hs⟩
  | cons migration migrations =>
      have hfollows : Follows S.hasher c ((migration :: migrations).map Prod.snd) := by
        rw [← hslice, hstands.eq_take]
        exact follows_drop_take n _
      have hids := C.chain.map_id (migration :: migrations) (by
        rw [← hslice]
        exact (List.drop_suffix _ _).isInfix.trans (List.take_prefix _ _).isInfix)
      rw [hslice] at hreach
      refine Triple.bind (autoBackup_at hE) fun _ => ?_
      refine Triple.bind (applyMigrations_at ctx cmd.singleTransaction hE
        (R := (· = C.chainTo target)) ?_) fun _ => ?_
      · intro saved
        have happly : Triple (fun s => (Place.plain saved).At c s) _ _ E :=
          applyFiles_at hE hfollows
        rw [hids, hreach, List.map_map] at happly
        exact happly.conseq (fun s hs => hs) fun _ s hs => ⟨_, rfl, hs⟩
      · apply Triple.of_exists
        rintro c'
        refine Triple.assume (fun s hs => hs.1) ?_
        rintro rfl
        refine Triple.conseq ?_ (fun s hs => hs.2) fun _ s hs => ⟨hn, hs⟩
        exact Triple.bind (buildIndexes_at hE) fun _ => disableDdl_at hE

end Slice

/-! ## The command -/

section Command

variable {C : Checkout S.hasher} {c : List String} {target : String} {stop : Option String}
  {ctx : Context} {cmd : Command} {fuel : Nat}

/-- The database ends in a file of the chain up to the target, or in a revision from
which the path search finds its way (and the target, if it was asked for, is not in the
history already). -/
def Checkout.Resumable {H : Hasher} (C : Checkout H) (cmd : Command) (target : String)
    (history : List String) : Prop :=
  ∀ revision, history.getLast? = some revision →
    revision ∈ C.keys ∧ C.keys.idxOf revision ≤ C.keys.idxOf target ∨
    revision ∉ C.keys ∧ (cmd.toRevision = none ∨ target ∉ history) ∧
      (∃ path, C.revisions.IsPath revision path target) ∧
      C.revisions.DescendsFresh revision target

/-- The search has the fuel to find its path. -/
def Checkout.Finds {H : Hasher} (C : Checkout H) (fuel : Nat) (target : String)
    (history : List String) : Prop :=
  ∀ revision, history.getLast? = some revision → revision ∉ C.keys →
    ∃ path, findPath fuel C.chain.migrations C.fixups revision target = some (.ok (some path))

theorem ends_of_lineage {H : Hasher} (hc : H.Lineage c) :
    c = [] ∨ ∃ revision, Ends H revision c := by
  cases hlast : c.getLast? with
  | none => exact .inl (List.getLast?_eq_none_iff.mp hlast)
  | some revision => exact .inr ⟨revision, hc, hlast⟩

theorem fixup_at {revision : String} (hE : Quiet S E) (hends : Ends S.hasher revision c)
    (hnew : revision ∉ C.keys) (htarget : target ∈ C.keys)
    (hfinds : C.Finds fuel target c ∨ ∀ e s, E e s) :
    Triple (fun s => (Place.plain none).At c s)
      (fixup S fuel ctx cmd C.chain.migrations C.fixups revision target)
      (fun _ s => ((∃ path, C.revisions.IsPath revision path target) ∧
        C.revisions.DescendsFresh revision target) ∧
        (Place.plain none).At (C.chainTo target) s) E := by
  have hne : revision ≠ target := by
    rintro rfl
    exact hnew htarget
  refine Triple.bind (external_at hE) fun _ => ?_
  refine Triple.bind (R := fun path s =>
    findPath fuel C.chain.migrations C.fixups revision target = some (.ok (some path)) ∧
      (Place.plain none).At c s) (Triple.ofExcept ?_ ?_) fun path => ?_
  · intro path s hfound hs
    refine ⟨?_, hs⟩
    unfold foundPath at hfound
    split at hfound <;> cases hfound
    next hfind => exact hfind
  · intro e s hfound hs
    rcases hfinds with hfinds | hall
    · obtain ⟨path, hfind⟩ := hfinds revision hends.last hnew
      rw [hfind] at hfound
      cases hfound
    · exact hall e s
  refine Triple.assume (fun s hs => hs.1) fun hfind => ?_
  obtain ⟨hpath, hdescends⟩ := C.revisions.isPath_of_returns hne ⟨fuel, hfind⟩
  obtain ⟨operations, hoperations⟩ := pathOperations_ok C hpath
  rw [hoperations]
  refine Triple.bind (R := fun operations' s => operations' = operations ∧
    (Place.plain none).At c s) (Triple.ofExcept ?_ ?_) fun operations' => ?_
  · rintro _ s ⟨⟩ hs
    exact ⟨rfl, hs.2⟩
  · rintro e s ⟨⟩
  refine Triple.assume (fun s hs => hs.1) ?_
  rintro rfl
  refine Triple.conseq (applyMigrations_at ctx cmd.singleTransaction hE
    (R := Ends S.hasher target) fun saved => operations_end C hE hpath hoperations hends)
    (fun s hs => hs.2) ?_
  rintro _ s ⟨c', hends', hs⟩
  rw [C.eq_chainTo hends'.lineage hends'.last htarget] at hs
  exact ⟨⟨⟨path, hpath⟩, hdescends⟩, hs⟩

theorem applyTo_at (hE : Quiet S E) (hc : S.hasher.Lineage c) (haims : C.Aims stop target)
    (hnot : cmd.toRevision = none ∨ target ∉ c)
    (hgood : C.Resumable cmd target c ∧ C.Finds fuel target c ∨ ∀ e s, E e s) :
    Triple (fun s => (Place.plain none).At c s)
      (applyTo S fuel ctx cmd C.chain.migrations C.fixups c stop)
      (fun _ s => C.Resumable cmd target c ∧ (Place.plain none).At (C.chainTo target) s) E := by
  have hlastKey : C.chain.migrations.getLast?.map Prod.fst = C.keys.getLast? :=
    List.getLast?_map.symm
  rcases ends_of_lineage hc with rfl | ⟨revision, hends⟩
  · -- an empty database is at the beginning of the chain
    have hstands : C.Stands [] 0 := .inl ⟨rfl, rfl⟩
    exact (applySlice_at hE hstands haims (.inl (Nat.zero_le _))).conseq (fun s hs => hs)
      fun _ s hs => ⟨nofun, hs.2⟩
  simp only [applyTo, hends.last]
  cases hlast : C.chain.migrations.getLast? with
  | none =>
      have hmem := haims.mem
      rw [hlast] at hlastKey
      rw [List.getLast?_eq_none_iff.mp hlastKey.symm] at hmem
      cases hmem
  | some lastFile =>
  obtain ⟨last, file⟩ := lastFile
  rw [hlast] at hlastKey
  refine Triple.ite (fun hmem => ?_) fun hnew => ?_
  · have hstands : C.Stands c (C.keys.idxOf revision + 1) := .inr ⟨revision, hmem, hends, rfl⟩
    refine (applySlice_at hE hstands haims ?_).conseq (fun s hs => hs) ?_
    · rcases hgood with ⟨hresumable, -⟩ | hall
      · rcases hresumable revision hends.last with ⟨-, hle⟩ | ⟨hnew, -⟩
        · exact .inl (Nat.succ_le_succ hle)
        · exact absurd hmem hnew
      · exact .inr hall
    · rintro _ s ⟨hle, hs⟩
      refine ⟨fun revision' hlast' => ?_, hs⟩
      cases hends.last.symm.trans hlast'
      exact .inl ⟨hmem, Nat.le_of_succ_le_succ hle⟩
  · have htarget : stop.getD last = target := by
      rcases haims with ⟨rfl, hlast'⟩ | ⟨rfl, -⟩
      · exact Option.some.inj (hlastKey.trans hlast')
      · rfl
    refine Triple.bind (autoBackup_at hE) fun _ => ?_
    rw [htarget]
    refine (fixup_at hE hends hnew haims.mem ?_).conseq (fun s hs => hs) ?_
    · exact hgood.imp_left fun hgood => hgood.2
    · rintro _ s ⟨⟨hpath, hdescends⟩, hs⟩
      refine ⟨fun revision' hlast' => ?_, hs⟩
      cases hends.last.symm.trans hlast'
      exact .inr ⟨hnew, hnot, hpath, hdescends⟩

/-- What the command leaves when it ends. -/
def Left {H : Hasher} (C : Checkout H) (cmd : Command) (target : String) (history : List String)
    (s : Session) : Ending → Prop
  | .done => C.Resumable cmd target history ∧ (Place.plain none).At (C.chainTo target) s
  | .upToDate => cmd.toRevision = some target ∧ target ∈ history ∧ (Place.plain none).At history s

theorem runInner_at (hE : Quiet S E) (hc : S.hasher.Lineage c)
    (haims : C.Aims cmd.toRevision target)
    (hgood : C.Resumable cmd target c ∧ C.Finds fuel target c ∨ ∀ e s, E e s) :
    Triple (fun s => (Place.plain none).At c s)
      (runInner S fuel ctx cmd C.chain.migrations C.fixups)
      (fun ending s => Left C cmd target c s ending) E := by
  refine Triple.bind (external_at hE) fun _ => ?_
  refine Triple.bind (query_at hE) fun _ => ?_
  refine Triple.bind (R := fun s t => (Place.plain none).At c t ∧ s.current = c)
    (Triple.get fun s hs => ⟨hs, hs.current⟩) fun s => ?_
  refine Triple.assume (fun t ht => ht.2) fun hcurrent => ?_
  rw [hcurrent]
  refine Triple.bind (R := fun rev t => (Place.plain none).At c t ∧
    (rev = .applied ∧ cmd.toRevision = some target ∧ target ∈ c ∨
      rev = .toApply cmd.toRevision ∧ (cmd.toRevision = none ∨ target ∉ c))) ?_ fun rev => ?_
  · unfold targetRev
    cases hrev : cmd.toRevision with
    | none => exact Triple.pure fun t ht => ⟨ht.1, .inr ⟨rfl, .inl rfl⟩⟩
    | some revision =>
        rw [hrev] at haims
        have hkeys := haims.mem
        rcases haims with ⟨hnone, -⟩ | ⟨hsome, -⟩
        · cases hnone
        cases hsome
        refine Triple.bind (Triple.conseq (query_at hE) (fun t ht => ht.1) fun _ _ ht => ht)
          fun _ => ?_
        refine Triple.bind (R := fun s t => (Place.plain none).At c t ∧ s.current = c)
          (Triple.get fun s hs => ⟨hs, hs.current⟩) fun s => ?_
        refine Triple.assume (fun t ht => ht.2) fun hcurrent => ?_
        rw [hcurrent]
        refine Triple.ite (fun hin => ?_) fun hout => Triple.ite (fun _ => ?_) fun hunknown => ?_
        · exact Triple.pure fun t ht => ⟨ht.1, .inl ⟨rfl, rfl, hin⟩⟩
        · exact Triple.pure fun t ht => ⟨ht.1, .inr ⟨rfl, .inr hout⟩⟩
        · exact absurd hkeys hunknown
  · refine Triple.assume (fun t ht => ht.2) ?_
    rintro (⟨rfl, hrev, hin⟩ | ⟨rfl, hnot⟩)
    · exact Triple.pure fun t ht => ⟨hrev, hin, ht.1⟩
    · refine Triple.bind (Triple.conseq (applyTo_at hE hc haims hnot hgood) (fun t ht => ht.1)
        fun _ _ ht => ht) fun _ => ?_
      exact Triple.pure fun t ht => ht

end Command

/-! ## Runs that stop -/

section Stopped

variable (C : Checkout S.hasher)

theorem Checkout.files_hashed (migrations : List (String × MigrationFile))
    (h : migrations ⊆ C.chain.migrations) :
    KeepsSound.Files S (migrations.map Prod.snd) := by
  intro file hmem
  obtain ⟨migration, hmigration, rfl⟩ := List.mem_map.mp hmem
  apply C.hashed_of_mem
  exact List.mem_append_right _ (List.mem_map_of_mem (h hmigration))

theorem operations_hashed {path : List PathElem} {a b : String} {operations : List Operation}
    (hpath : C.revisions.IsPath a path b)
    (hoperations : pathOperations C.chain.migrations path = .ok operations) :
    KeepsSound.Operations S operations := by
  induction path generalizing a operations with
  | nil =>
      cases hoperations
      nofun
  | cons elem path ih =>
      obtain ⟨hmem, -, next, hend, hpath⟩ := hpath
      obtain ⟨rest, hrest⟩ := pathOperations_ok C hpath
      have hhashed := C.hashed_of_mem hmem
      have htail := ih hpath hrest
      cases elem with
      | normal file =>
          rw [pathOperations, elemOperations, hrest] at hoperations
          cases hoperations
          intro operation hoperation
          rcases List.mem_cons.mp hoperation with rfl | hoperation
          · exact hhashed
          · exact htail operation hoperation
      | fixup file =>
          have htarget : file.fixupTarget = some next := hend
          have hkeys := C.target_of_fixup hmem htarget
          have helem : elemOperations C.chain.migrations (.fixup file) = .ok
              [.apply file, .rewrite (C.chain.migrations.take (C.keys.idxOf next + 1))] := by
            simp only [elemOperations, htarget, C.indexOf_eq hkeys, C.range_eq hkeys]
          rw [pathOperations, helem, hrest] at hoperations
          cases hoperations
          intro operation hoperation
          rcases List.mem_cons.mp hoperation with rfl | hoperation
          · exact hhashed
          rcases List.mem_cons.mp hoperation with rfl | hoperation
          · exact C.files_hashed _ (List.take_subset _ _)
          · exact htail operation hoperation

variable {ctx : Context} {cmd : Command} {fuel : Nat}

theorem keepsSound_fixup {revision target : String} (hnew : revision ∉ C.keys)
    (htarget : target ∈ C.keys) :
    KeepsSound S (fixup S fuel ctx cmd C.chain.migrations C.fixups revision target) := by
  have hne : revision ≠ target := by
    rintro rfl
    exact hnew htarget
  refine KeepsSound.external.bind fun _ => ?_
  refine Triple.bind (R := fun path s =>
    findPath fuel C.chain.migrations C.fixups revision target = some (.ok (some path)) ∧
      Sound S.hasher s) (Triple.ofExcept ?_ fun _ _ _ hs => hs) fun path => ?_
  · intro path s hfound hs
    refine ⟨?_, hs⟩
    unfold foundPath at hfound
    split at hfound <;> cases hfound
    next hfind => exact hfind
  refine Triple.assume (fun s hs => hs.1) fun hfind => ?_
  obtain ⟨hpath, -⟩ := C.revisions.isPath_of_returns hne ⟨fuel, hfind⟩
  obtain ⟨operations, hoperations⟩ := pathOperations_ok C hpath
  rw [hoperations]
  refine Triple.bind (R := fun operations' s => operations' = operations ∧ Sound S.hasher s)
    (Triple.ofExcept ?_ fun _ _ _ hs => hs.2) fun operations' => ?_
  · rintro _ s ⟨⟩ hs
    exact ⟨rfl, hs.2⟩
  refine Triple.assume (fun s hs => hs.1) ?_
  rintro rfl
  exact (KeepsSound.applyMigrations (operations_hashed C hpath hoperations)).conseq
    (fun s hs => hs.2) fun _ s hs => hs

theorem keepsSound_applySlice {history : List String} {stop : Option String} :
    KeepsSound S (applySlice S ctx cmd C.chain.migrations history stop) := by
  have hbuild : KeepsSound S (buildIndexes S cmd) :=
    KeepsSound.ite KeepsSound.pure (KeepsSound.execute trivial)
  unfold applySlice
  split
  · exact KeepsSound.throw
  · exact hbuild
  next migrations _ hslice =>
  have hsubset : migrations ⊆ C.chain.migrations := by
    unfold slice range at hslice
    obtain ⟨-, hslice⟩ := Option.ite_none_right_eq_some.mp hslice
    cases hslice
    exact fun migration hmem => List.take_subset _ _ (List.drop_subset _ _ hmem)
  have hfiles := C.files_hashed migrations hsubset
  have hoperations : KeepsSound.Operations S
      (migrations.map fun migration => .apply migration.2) := by
    intro operation hmem
    obtain ⟨migration, hmigration, rfl⟩ := List.mem_map.mp hmem
    exact hfiles migration.2 (List.mem_map_of_mem hmigration)
  refine KeepsSound.autoBackup.bind fun _ => ?_
  refine (KeepsSound.applyMigrations hoperations).bind fun _ => ?_
  exact hbuild.bind fun _ => KeepsSound.ite (KeepsSound.execute trivial) KeepsSound.pure

theorem keepsSound_applyTo {history : List String} {stop : Option String}
    (hstop : ∀ revision, stop = some revision → revision ∈ C.keys) :
    KeepsSound S (applyTo S fuel ctx cmd C.chain.migrations C.fixups history stop) := by
  unfold applyTo
  split
  · exact keepsSound_applySlice C
  split
  · exact KeepsSound.throw
  next last file hlast =>
  refine Triple.ite (fun _ => keepsSound_applySlice C) fun hnew => ?_
  refine KeepsSound.autoBackup.bind fun _ => keepsSound_fixup C hnew ?_
  cases stop with
  | none => exact List.mem_map_of_mem (List.mem_of_getLast? hlast)
  | some revision => exact hstop revision rfl

/-- **A run that stops leaves lineages**, wherever it stops. -/
theorem keepsSound_runInner :
    KeepsSound S (runInner S fuel ctx cmd C.chain.migrations C.fixups) := by
  have hquery : KeepsSound S (execute S .query) := KeepsSound.execute trivial
  refine KeepsSound.external.bind fun _ => hquery.bind fun _ => KeepsSound.get.bind fun s => ?_
  refine Triple.bind (R := fun rev s => Sound S.hasher s ∧ ∀ stop, rev = .toApply stop →
    ∀ revision, stop = some revision → revision ∈ C.keys) ?_ fun rev => ?_
  · unfold targetRev
    split
    · refine Triple.pure fun s hs => ⟨hs, ?_⟩
      rintro _ ⟨⟩ _ ⟨⟩
    · refine Triple.bind hquery fun _ => Triple.bind KeepsSound.get fun s => ?_
      refine Triple.ite (fun _ => ?_) fun _ => Triple.ite (fun hmem => ?_) fun _ => ?_
      · exact Triple.pure fun s hs => ⟨hs, nofun⟩
      · refine Triple.pure fun s hs => ⟨hs, ?_⟩
        rintro _ ⟨⟩ _ ⟨⟩
        exact hmem
      · exact Triple.throw fun s hs => hs
  · refine Triple.assume (fun s hs => hs.2) fun hstop => ?_
    refine Triple.conseq ?_ (fun s hs => hs.1) fun _ _ hs => hs
    cases rev with
    | applied => exact Triple.pure fun s hs => hs
    | toApply stop =>
        exact Triple.bind (keepsSound_applyTo C (hstop stop rfl)) fun _ =>
          Triple.pure fun s hs => hs

end Stopped

/-! ## A second run -/

/-- The server when nothing fails. -/
def Server.calm (S : Server) : Server := { S with fault := fun _ => .none }

/-- A run on which nothing fails ends with the chain up to the target. -/
def Succeeds (S : Server) (C : Checkout S.hasher) (ctx : Context) (cmd : Command)
    (target : String) (s : Session) : Prop :=
  ∃ fuel ending t, runInner S.calm fuel ctx cmd C.chain.migrations C.fixups s = .ok ending t ∧
    t.history = C.chainTo target

theorem place_reconnect (s : Session) :
    (Place.plain none).At s.reconnect.history s.reconnect :=
  ⟨rfl, rfl, rfl, rfl⟩

theorem exists_finds (C : Checkout S.hasher) {cmd : Command} {target : String}
    {history : List String} (htarget : target ∈ C.keys)
    (hresumable : C.Resumable cmd target history) : ∃ fuel, C.Finds fuel target history := by
  cases hlast : history.getLast? with
  | none =>
      refine ⟨0, fun revision hrevision => ?_⟩
      rw [hlast] at hrevision
      cases hrevision
  | some revision =>
      rcases hresumable revision hlast with ⟨hmem, -⟩ | ⟨hnew, -, hpath, hdescends⟩
      · refine ⟨0, fun revision' hrevision hnew => ?_⟩
        cases hlast.symm.trans hrevision
        exact absurd hmem hnew
      · have hne : revision ≠ target := by
          rintro rfl
          exact hnew htarget
        obtain ⟨path, fuel, hfind⟩ := C.revisions.exists_returns hne hpath hdescends
        refine ⟨fuel, fun revision' hrevision _ => ?_⟩
        cases hlast.symm.trans hrevision
        exact ⟨path, hfind⟩

theorem succeeds_iff (C : Checkout S.hasher) {ctx : Context} {cmd : Command} {target : String}
    {s : Session} (haims : C.Aims cmd.toRevision target)
    (hlineage : S.hasher.Lineage s.history) (hs : (Place.plain none).At s.history s) :
    Succeeds S C ctx cmd target s ↔ C.Resumable cmd target s.history := by
  constructor
  · rintro ⟨fuel, ending, t, hrun, ht⟩
    have hE : Quiet S.calm fun _ _ => True := .inr fun _ _ => trivial
    have hleft := (runInner_at (S := S.calm) (C := C) hE hlineage haims
      (.inr fun _ _ => trivial)).of_ok hs hrun
    cases ending with
    | done => exact hleft.1
    | upToDate =>
        -- the history is the one before, so the database has reached the target already
        obtain ⟨-, -, -, hhistory, -⟩ := hleft
        intro revision hlast
        rw [← hhistory, ht, C.getLast?_chainTo haims.mem] at hlast
        cases hlast
        exact .inl ⟨haims.mem, le_refl _⟩
  · intro hresumable
    obtain ⟨fuel, hfinds⟩ := exists_finds C haims.mem hresumable
    have hE : Quiet S.calm fun _ _ => False := .inl ⟨fun _ => rfl, fun _ _ hfalse => hfalse⟩
    obtain ⟨ending, t, hrun, hleft⟩ := (runInner_at (S := S.calm) (C := C) hE hlineage haims
      (.inl ⟨hresumable, hfinds⟩)).exists_ok hs
    refine ⟨fuel, ending, t, hrun, ?_⟩
    cases ending with
    | done =>
        obtain ⟨-, -, hhistory, -⟩ := hleft
        exact hhistory
    | upToDate =>
        obtain ⟨hrev, hin, -, hhistory, -⟩ := hleft
        rw [hhistory]
        obtain hnil | ⟨revision, hends⟩ := ends_of_lineage hlineage
        · rw [hnil] at hin
          cases hin
        rcases hresumable revision hends.last with ⟨hmem, hle⟩ | ⟨-, hnot, -⟩
        · -- not before the target, and not after it
          have hchain := C.eq_chainTo hends.lineage hends.last hmem
          rw [hchain] at hin
          have hlt := (List.mem_take_iff_idxOf_lt haims.mem).mp hin
          have hidx : C.keys.idxOf revision = C.keys.idxOf target := by omega
          rw [hchain, Checkout.chainTo, Checkout.chainTo, hidx]
        · rcases hnot with hnone | hout
          · rw [hrev] at hnone
            cases hnone
          · exact absurd hin hout

/-- **When an interrupted run can be resumed**: a run that ends well leaves the chain up to
the target, and after one that stopped with an error a second run, on which nothing
fails, gets there iff the history it finds is `Resumable`. -/
theorem apply_resumes_iff (S : Server) (C : Checkout S.hasher) (ctx : Context) (cmd : Command)
    {target : String} (haims : C.Aims cmd.toRevision target) {history : List String}
    (hhistory : S.hasher.Lineage history) (clock : Nat) :
    (∀ fuel t, runInner S fuel ctx cmd C.chain.migrations C.fixups (.fresh history clock) =
      .ok .done t → t.history = C.chainTo target) ∧
    ∀ fuel e s, runInner S fuel ctx cmd C.chain.migrations C.fixups (.fresh history clock) =
      .error e s →
      (Succeeds S C ctx cmd target s.reconnect ↔
        C.Resumable cmd target s.reconnect.history) := by
  constructor
  · intro fuel t hrun
    have hE : Quiet S fun _ _ => True := .inr fun _ _ => trivial
    have hfresh : (Place.plain none).At history (.fresh history clock) := ⟨rfl, rfl, rfl, rfl⟩
    have hleft := (runInner_at (C := C) hE hhistory haims (.inr fun _ _ => trivial)).of_ok
      hfresh hrun
    obtain ⟨-, -, ht, -⟩ := hleft
    exact ht
  · intro fuel e s hrun
    have hfresh : Sound S.hasher (.fresh history clock) := ⟨hhistory, nofun, nofun⟩
    have hsound : Sound S.hasher s := (keepsSound_runInner C).of_error hfresh hrun
    exact succeeds_iff C haims hsound.reconnect.history (place_reconnect s)

section Sample

/-- One migration, and a fixup to it from the one of another branch. -/
def fixupCheckout : Checkout spellingHasher where
  chain :=
    { migrations := [sampleFile "initial" "a"]
      lineage := .make "a" .nil
      ids := by
        intro migration hmem
        rw [List.mem_singleton.mp hmem]
        rfl
      follows := ⟨rfl, trivial⟩ }
  normal := by
    intro migration hmem
    rw [List.mem_singleton.mp hmem]
    rfl
  fixups := [{ (sampleFile (spelled "initial" "x") "f").2 with
    fixupTarget := some (spelled "initial" "a") }]
  targets := by
    intro file hmem
    rw [List.mem_singleton.mp hmem]
    exact ⟨_, List.mem_singleton_self _, rfl⟩
  hashed := by
    intro file hmem
    rw [List.mem_singleton.mp hmem]
    exact ⟨"f", rfl⟩

/-- The start of the rewrite fails. -/
def rewriteFails : Server where
  hasher := spellingHasher
  fault n := if n = 7 then .error else .none
  schemaDiff _ := []
  devModeSupported := true

def latest : Command := ⟨none, true, false⟩

def otherBranch : List String := [spelled "initial" "x"]

/-- The run applies the fixup and stops there. -/
theorem runInner_stops : ∃ s, runInner rewriteFails 5 quietContext latest
      fixupCheckout.chain.migrations fixupCheckout.fixups (.fresh otherBranch 0) =
        .error (.failed .startRewrite) s ∧
      s.reconnect.history = [spelled "initial" "x", spelled (spelled "initial" "x") "f"] :=
  ⟨_, rfl, rfl⟩

/-- No file leads on from the fixup. -/
theorem not_resumable : ¬ fixupCheckout.Resumable latest (spelled "initial" "a")
    [spelled "initial" "x", spelled (spelled "initial" "x") "f"] := by
  intro hresumable
  rcases hresumable _ rfl with ⟨hmem, -⟩ | ⟨-, -, ⟨path, hpath⟩, -⟩
  · exact absurd hmem (by decide)
  · cases path with
    | nil =>
        have hne : spelled (spelled "initial" "x") "f" ≠ spelled "initial" "a" := by decide
        exact hne hpath
    | cons elem path =>
        obtain ⟨hmem, hparent, -⟩ := hpath
        have hall : ∀ file ∈ fixupCheckout.revisions.files,
            file.data.parentId ≠ spelled (spelled "initial" "x") "f" := by decide
        exact hall _ hmem hparent

theorem aims_latest : fixupCheckout.Aims latest.toRevision (spelled "initial" "a") :=
  .inl ⟨rfl, rfl⟩

theorem lineage_otherBranch : spellingHasher.Lineage otherBranch := .make "x" .nil

theorem apply_resumes_iff_stopped :
    ∃ s, runInner rewriteFails 5 quietContext latest fixupCheckout.chain.migrations
        fixupCheckout.fixups (.fresh otherBranch 0) = .error (.failed .startRewrite) s ∧
      ¬ Succeeds rewriteFails fixupCheckout quietContext latest (spelled "initial" "a")
        s.reconnect := by
  obtain ⟨s, hrun, hhistory⟩ := runInner_stops
  refine ⟨s, hrun, fun hsucceeds => ?_⟩
  have hresumable := ((apply_resumes_iff rewriteFails fixupCheckout quietContext latest
    aims_latest lineage_otherBranch 0).2 5 _ s hrun).mp hsucceeds
  rw [hhistory] at hresumable
  exact not_resumable hresumable

/-- The run that applied the fixup is not resumed: the path search finds nothing. -/
theorem fixup_not_resumed :
    ¬ ∀ (S : Server) (C : Checkout S.hasher) (ctx : Context) (cmd : Command) (target : String)
      (history : List String), cmd.singleTransaction = false → C.Aims cmd.toRevision target →
      S.hasher.Lineage history →
      (∃ revision path, history.getLast? = some revision ∧
        FindPathReturns C.chain.migrations C.fixups revision target (.ok (some path))) →
      ∀ fuel e s, runInner S fuel ctx cmd C.chain.migrations C.fixups (.fresh history 0) =
        .error e s → Succeeds S C ctx cmd target s.reconnect := by
  intro hclaim
  obtain ⟨s, hrun, hhistory⟩ := runInner_stops
  have hreturns : ∃ path, FindPathReturns fixupCheckout.chain.migrations fixupCheckout.fixups
      (spelled "initial" "x") (spelled "initial" "a") (.ok (some path)) := ⟨_, 4, rfl⟩
  obtain ⟨path, hreturns⟩ := hreturns
  have hsucceeds := hclaim rewriteFails fixupCheckout quietContext latest _ otherBranch rfl
    aims_latest lineage_otherBranch ⟨_, path, rfl, hreturns⟩ 5 _ s hrun
  have hfresh : Sound rewriteFails.hasher (.fresh otherBranch 0) :=
    ⟨lineage_otherBranch, nofun, nofun⟩
  have hsound : Sound rewriteFails.hasher s :=
    (keepsSound_runInner fixupCheckout).of_error hfresh hrun
  have hresumable := (succeeds_iff fixupCheckout aims_latest hsound.reconnect.history
    (place_reconnect s)).mp hsucceeds
  rw [hhistory] at hresumable
  exact not_resumable hresumable

end Sample

end GelCli.Migrations
