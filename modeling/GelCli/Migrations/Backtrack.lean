import Mathlib.Data.Nat.Find
import GelCli.Migrations.ShortestPath

/-!
# When backtracking succeeds

`backtrack` sees one mark for each revision, the last level the search queued it
at. It walks from the database revision and takes, at every level, the first
listed edge to a revision with the right mark. `Descends` is that walk over any
choice of marks, `fresh` says in terms of routes which revisions still have the
mark of their distance, and `findPath_correct_iff` puts the two together.
-/

namespace GelCli.Migrations

open GelCli.Foundation GelCli.Foundation.QueueSearch

namespace Revisions

variable (R : Revisions)

/-! ## The walk along the marks -/

/-- The walk that always takes the first listed edge to a revision that is fresh
for the next level gets from level `n` down to level 0. -/
def Descends (fresh : Nat → String → Bool) : Nat → String → Prop
  | 0, _ => True
  | k + 1, x =>
      match (R.successors x).find? (fresh k) with
      | none => False
      | some next => Descends fresh k next

/-- Only the levels below the start matter. -/
theorem descends_congr {fresh fresh' : Nat → String → Bool} {n : Nat} {x : String}
    (h : ∀ k < n, ∀ y, fresh k y = fresh' k y) :
    R.Descends fresh n x ↔ R.Descends fresh' n x := by
  induction n generalizing x with
  | zero => exact Iff.rfl
  | succ n ih =>
      have hn : fresh n = fresh' n := funext (h n (Nat.lt_succ_self n))
      unfold Descends
      rw [hn]
      cases (R.successors x).find? (fresh' n) with
      | none => exact Iff.rfl
      | some next => exact ih fun k hk => h k (Nat.lt_succ_of_lt hk)

def marked (markup : HashMap String Nat) (k : Nat) (x : String) : Bool :=
  decide (markup.get x = some k)

/-- What the pass over `sources` returns: the first end with the mark `idx`, by
an element that leads there. -/
def Picks (markup : HashMap String Nat) (idx : Nat) (sources : List MigrationFile) :
    Option (PathElem × String) → Prop
  | none => (sources.flatMap ends).find? (marked markup idx) = none
  | some (elem, next) =>
      (sources.flatMap ends).find? (marked markup idx) = some next ∧
        elem.file ∈ sources ∧ elem.endpoint = some next

theorem Picks.skip {markup : HashMap String Nat} {idx : Nat} {item : MigrationFile}
    {sources : List MigrationFile} {pick : Option (PathElem × String)}
    (h : Picks markup idx sources pick) (hitem : (ends item).find? (marked markup idx) = none) :
    Picks markup idx (item :: sources) pick := by
  cases pick with
  | none =>
      show ((item :: sources).flatMap ends).find? _ = none
      rw [List.flatMap_cons, List.find?_append, hitem]
      exact h
  | some elem =>
      obtain ⟨hfind, hmem, hend⟩ := h
      refine ⟨?_, List.mem_cons_of_mem _ hmem, hend⟩
      rw [List.flatMap_cons, List.find?_append, hitem]
      exact hfind

theorem pickSource_picks (markup : HashMap String Nat) (idx : Nat) (x : String)
    (sources : List MigrationFile) (hx : ∀ file ∈ sources, file.data.parentId = x) :
    Picks markup idx sources (pickSource markup idx x sources) := by
  induction sources with
  | nil => rfl
  | cons item sources ih =>
      have hitem : item.data.parentId = x := hx item (List.mem_cons_self ..)
      specialize ih fun file hfile => hx file (List.mem_cons_of_mem _ hfile)
      unfold pickSource
      rw [if_neg (not_not.mpr hitem)]
      by_cases hid : markup.get item.data.id = some idx
      · rw [if_pos hid]
        exact ⟨by simp [ends, marked, hid], List.mem_cons_self .., rfl⟩
      · rw [if_neg hid]
        cases hfix : item.fixupTarget with
        | none => exact ih.skip (by simp [ends, marked, hid, hfix])
        | some fixup =>
            by_cases hmark : markup.get fixup = some idx
            · simp only [if_pos hmark]
              exact ⟨by simp [ends, marked, hid, hfix, hmark], List.mem_cons_self .., hfix⟩
            · simp only [if_neg hmark]
              exact ih.skip (by simp [ends, marked, hid, hfix, hmark])

/-! ## The backtracking loop -/

/-- The index `by_source` at a revision: its files, absent when it has none. -/
theorem bySource_get (x : String) :
    (indexes R.migrations R.fixups).bySource.get x =
      if R.filesFrom x = [] then none else some (R.filesFrom x) := by
  rw [indexes_eq, HashMap.get_pushAll, filed_parentId]

/-- A pass that picks nothing leaves the result short for good. -/
theorem backtrackLoop_length_le (markup : HashMap String Nat)
    (bySource : HashMap String (List MigrationFile)) (n : Nat) (x : String)
    (result : List PathElem) {path : List PathElem}
    (h : backtrackLoop markup bySource n x result = .ok path) :
    path.length ≤ result.length + n := by
  induction n generalizing x result with
  | zero =>
      obtain rfl : result = path := by simpa [backtrackLoop] using h
      simp
  | succ n ih =>
      unfold backtrackLoop at h
      split at h
      · cases h
      · split at h
        · have hle := ih _ _ h
          rw [List.length_append, List.length_singleton] at hle
          omega
        · have hle := ih _ _ h
          omega

/-- **The loop fills its path iff the walk along the marks descends**, and then
the path leads to a revision marked 0. -/
theorem backtrackLoop_descends {markup : HashMap String Nat} {n : Nat} {x : String}
    (result : List PathElem) (h : R.Descends (marked markup) n x)
    (hx : n = 0 → markup.get x = some 0) :
    ∃ path y, backtrackLoop markup (indexes R.migrations R.fixups).bySource n x result =
        .ok (result ++ path) ∧
      path.length = n ∧ R.IsPath x path y ∧ markup.get y = some 0 := by
  induction n generalizing x result with
  | zero => exact ⟨[], x, by simp [backtrackLoop], rfl, rfl, hx rfl⟩
  | succ n ih =>
      have hpick := pickSource_picks markup n x (R.filesFrom x) R.parentId_of_filesFrom
      unfold Descends at h
      have hfiles : R.filesFrom x ≠ [] := by
        intro hnil
        simp [successors, hnil] at h
      unfold backtrackLoop
      rw [bySource_get, if_neg hfiles]
      cases hp : pickSource markup n x (R.filesFrom x) with
      | none =>
          rw [hp] at hpick
          rw [show (R.successors x).find? (marked markup n) = none from hpick] at h
          exact h.elim
      | some pick =>
          obtain ⟨elem, next⟩ := pick
          rw [hp] at hpick
          obtain ⟨hfind, hmem, hend⟩ := hpick
          rw [show (R.successors x).find? (marked markup n) = some next from hfind] at h
          have hnext : markup.get next = some n := by
            simpa [marked] using List.find?_some hfind
          obtain ⟨path, y, heq, hlen, hpath, hy⟩ := ih (result ++ [elem]) h fun hn => hn ▸ hnext
          refine ⟨elem :: path, y, by simp [hp, heq], by simp [hlen], ?_, hy⟩
          exact ⟨R.mem_files_of_filesFrom hmem, R.parentId_of_filesFrom _ hmem,
            next, hend, hpath⟩

theorem descends_of_backtrackLoop {markup : HashMap String Nat} {n : Nat} {x : String}
    {result path : List PathElem}
    (h : backtrackLoop markup (indexes R.migrations R.fixups).bySource n x result = .ok path)
    (hlen : path.length = result.length + n) :
    R.Descends (marked markup) n x := by
  induction n generalizing x result with
  | zero => trivial
  | succ n ih =>
      have hpick := pickSource_picks markup n x (R.filesFrom x) R.parentId_of_filesFrom
      unfold Descends
      unfold backtrackLoop at h
      rw [bySource_get] at h
      by_cases hfiles : R.filesFrom x = []
      · simp [hfiles] at h
      rw [if_neg hfiles] at h
      cases hp : pickSource markup n x (R.filesFrom x) with
      | none =>
          -- this pass adds nothing, so the path stays one element short
          simp only [hp] at h
          have hle := backtrackLoop_length_le _ _ _ _ _ h
          omega
      | some pick =>
          obtain ⟨elem, next⟩ := pick
          simp only [hp] at h
          rw [hp] at hpick
          rw [show (R.successors x).find? (marked markup n) = some next from hpick.1]
          apply ih h
          simp [hlen]
          omega

/-! ## The search as a queue search -/

theorem searchLoop_eq_search (db : String) (fuel : Nat) (queue : List (String × Nat))
    (markup : HashMap String Nat) :
    searchLoop (indexes R.migrations R.fixups) db fuel queue markup =
      (QueueSearch.search R.sources db fuel queue markup).map fun found =>
        match found with
        | none => .ok none
        | some (num, markup) =>
            (backtrack markup (indexes R.migrations R.fixups).bySource num db).map some := by
  induction fuel generalizing queue markup with
  | zero => rfl
  | succ fuel ih =>
      cases queue with
      | nil => rfl
      | cons entry queue =>
          obtain ⟨x, num⟩ := entry
          unfold searchLoop QueueSearch.search
          by_cases hx : x = db
          · simp [hx]
          · rw [if_neg hx, if_neg hx, ← R.getD_byTarget x]
            cases (indexes R.migrations R.fixups).byTarget.get x with
            | none => simp [ih, HashMap.insertAll]
            | some items => simp [ih, HashMap.insertAll]

theorem findPathReturns_iff {db target : String} {result : FindResult} :
    FindPathReturns R.migrations R.fixups db target result ↔
      ∃ fuel found,
        QueueSearch.search R.sources db fuel [(target, 0)]
          (HashMap.empty.insert target 0) = some found ∧
        (match found with
          | none => .ok none
          | some (num, markup) =>
              (backtrack markup (indexes R.migrations R.fixups).bySource num db).map some) =
          result := by
  simp only [FindPathReturns, findPath, searchLoop_eq_search, Option.map_eq_some_iff]

/-- The search has one result. -/
theorem findPathReturns_unique {db target : String} {result result' : FindResult}
    (h : FindPathReturns R.migrations R.fixups db target result)
    (h' : FindPathReturns R.migrations R.fixups db target result') : result = result' := by
  obtain ⟨fuel, found, hs, rfl⟩ := R.findPathReturns_iff.mp h
  obtain ⟨fuel', found', hs', rfl⟩ := R.findPathReturns_iff.mp h'
  have hm := search_fuel_mono (Nat.le_max_left fuel fuel') hs
  rw [search_fuel_mono (Nat.le_max_right fuel fuel') hs'] at hm
  rw [Option.some.inj hm]

/-! ## Stale revisions -/

/-- The first level that holds the database revision: the length of its
shortest routes. -/
def Distance (db target : String) (d : Nat) : Prop :=
  db ∈ R.level target d ∧ ∀ k < d, db ∉ R.level target k

/-- A revision of level `k` is fresh when no other route of it has been seen
before the search meets the database revision at level `d`: none of at most `d`
files, and none of `d + 1` files that starts with a step to a revision queued
before the database revision. -/
def fresh (db target : String) (d k : Nat) (x : String) : Bool :=
  decide (x ∈ R.level target k ∧ (∀ j ≤ d, k < j → x ∉ R.level target j) ∧
    x ∉ ((R.level target d).takeWhile (fun y => decide (y ≠ db))).flatMap R.sources)

/-- The walk from the database revision along fresh revisions reaches the
target, whatever its distance is. -/
def DescendsFresh (db target : String) : Prop :=
  ∀ d, R.Distance db target d → R.Descends (R.fresh db target d) d db

theorem marked_eq_fresh {db target : String} {d : Nat} {markup : HashMap String Nat}
    (h : Marks R.sources target d
      ((R.level target d).takeWhile (fun y => decide (y ≠ db))) markup)
    {k : Nat} (hk : k < d) (x : String) :
    marked markup k x = R.fresh db target d k x := by
  unfold marked fresh
  rw [decide_eq_decide, h x k]
  unfold LastMark
  constructor
  · rintro (⟨hkd, -⟩ | ⟨hx, hlevel, -, hlast⟩)
    · omega
    · exact ⟨hlevel, fun j hj hkj => hlast j hkj hj, hx⟩
  · rintro ⟨hlevel, hlast, hx⟩
    exact Or.inr ⟨hx, hlevel, hk.le, fun j hkj hj => hlast j hj hkj⟩

/-! ## The search, when the database revision is met -/

/-- `backtrack` after a search that met the database revision at level `d`. -/
theorem backtrack_of_descends {db target : String} {d : Nat} {markup : HashMap String Nat}
    (hd : 0 < d) (htarget : ∀ y, markup.get y = some 0 → y = target)
    (h : R.Descends (marked markup) d db) :
    ∃ path, backtrack markup (indexes R.migrations R.fixups).bySource d db = .ok path ∧
      path.length = d ∧ R.IsPath db path target := by
  obtain ⟨path, y, hloop, hlen, hpath, hy⟩ := R.backtrackLoop_descends [] h (by omega)
  have hne : path ≠ [] := List.ne_nil_of_length_pos (by omega)
  exact ⟨path, by simp [backtrack, hloop, hlen, hne], hlen, htarget y hy ▸ hpath⟩

theorem descends_of_backtrack {db : String} {d : Nat} {markup : HashMap String Nat}
    {path : List PathElem}
    (h : backtrack markup (indexes R.migrations R.fixups).bySource d db = .ok path) :
    R.Descends (marked markup) d db := by
  unfold backtrack at h
  split at h
  · cases h
  · next result hloop =>
      split at h
      · cases h
      · next hfull =>
          simp only [Bool.or_eq_true, bne_iff_ne, not_or, not_not] at hfull
          exact R.descends_of_backtrackLoop hloop (by simpa using hfull.2)

/-- What a search that meets the database revision returns. -/
theorem findPathReturns_of_distance {db target : String} {d : Nat}
    (hdist : R.Distance db target d) :
    ∃ markup,
      FindPathReturns R.migrations R.fixups db target
        ((backtrack markup (indexes R.migrations R.fixups).bySource d db).map some) ∧
      (∀ y, markup.get y = some 0 → y = target) ∧
      (R.Descends (marked markup) d db ↔ R.Descends (R.fresh db target d) d db) := by
  obtain ⟨fuel, markup, hmarks, hsearch⟩ := search_found hdist.1 hdist.2
  refine ⟨markup, R.findPathReturns_iff.mpr ⟨fuel, _, hsearch, rfl⟩, ?_,
    R.descends_congr fun k hk => R.marked_eq_fresh hmarks hk⟩
  intro y hy
  rcases (hmarks y 0).mp hy with ⟨h, -⟩ | ⟨-, hlevel, -⟩
  · omega
  · simpa [layer] using hlevel

theorem exists_distance {db target : String} {path : List PathElem}
    (h : R.IsPath db path target) : ∃ d, R.Distance db target d := by
  have hex : ∃ d, db ∈ R.level target d := ⟨path.length, R.mem_level_iff.mpr ⟨path, rfl, h⟩⟩
  exact ⟨Nat.find hex, Nat.find_spec hex, fun k hk => Nat.find_min hex hk⟩

theorem Distance.le_length {db target : String} {d : Nat} (h : R.Distance db target d)
    {path : List PathElem} (hpath : R.IsPath db path target) : d ≤ path.length := by
  by_contra hlt
  exact h.2 path.length (by omega) (R.mem_level_iff.mpr ⟨path, rfl, hpath⟩)

/-- What a search returns is a path, and it has met the revision of the database. -/
theorem isPath_of_returns {db target : String} {path : List PathElem} (hne : db ≠ target)
    (h : FindPathReturns R.migrations R.fixups db target (.ok (some path))) :
    R.IsPath db path target ∧ R.DescendsFresh db target := by
  obtain ⟨fuel, found, hsearch, hresult⟩ := R.findPathReturns_iff.mp h
  cases found with
  | none => cases hresult
  | some found =>
      obtain ⟨num, markup⟩ := found
      have hlevel : db ∈ R.level target num := by
        apply mem_layer_of_search ?_ hsearch
        intro entry hmem
        obtain rfl := List.mem_singleton.mp hmem
        exact List.mem_singleton_self target
      obtain ⟨path₀, -, hpath₀⟩ := R.mem_level_iff.mp hlevel
      obtain ⟨d, hdist⟩ := R.exists_distance hpath₀
      obtain ⟨marks, hreturns, htarget, hfresh⟩ := R.findPathReturns_of_distance hdist
      have hsame := R.findPathReturns_unique h hreturns
      have hpos : 0 < d := by
        rcases Nat.eq_zero_or_pos d with rfl | hpos
        · exact absurd (by simpa [level, layer] using hdist.1) hne
        · exact hpos
      cases hback : backtrack marks (indexes R.migrations R.fixups).bySource d db with
      | error e =>
          rw [hback] at hsame
          cases hsame
      | ok path' =>
          rw [hback] at hsame
          cases hsame
          have hdescends := R.descends_of_backtrack hback
          obtain ⟨path'', hback', -, hpath⟩ := R.backtrack_of_descends hpos htarget hdescends
          cases hback.symm.trans hback'
          refine ⟨hpath, fun d' hdist' => ?_⟩
          have hd : d' = d := by
            rcases Nat.lt_trichotomy d' d with hlt | heq | hlt
            · exact absurd hdist'.1 (hdist.2 d' hlt)
            · exact heq
            · exact absurd hdist.1 (hdist'.2 d hlt)
          rw [hd]
          exact hfresh.mp hdescends

/-- A walk along fresh revisions is all the search needs to find a path. -/
theorem exists_returns {db target : String} (hne : db ≠ target)
    (hex : ∃ path, R.IsPath db path target) (h : R.DescendsFresh db target) :
    ∃ path, FindPathReturns R.migrations R.fixups db target (.ok (some path)) := by
  obtain ⟨path, hpath⟩ := hex
  obtain ⟨d, hdist⟩ := R.exists_distance hpath
  obtain ⟨markup, hreturns, htarget, hfresh⟩ := R.findPathReturns_of_distance hdist
  have hpos : 0 < d := by
    rcases Nat.eq_zero_or_pos d with rfl | hpos
    · exact absurd (by simpa [level, layer] using hdist.1) hne
    · exact hpos
  obtain ⟨found, hback, -⟩ := R.backtrack_of_descends hpos htarget (hfresh.mpr (h d hdist))
  rw [hback] at hreturns
  exact ⟨found, hreturns⟩

/-- **Exactly when the search is right** on an acyclic graph: when the walk from
the database revision along fresh revisions never gets stuck. -/
theorem findPath_correct_iff (hR : Acyclic R.Edge) {db target : String}
    (hne : db ≠ target) :
    R.FindPathCorrect db target ↔ R.DescendsFresh db target := by
  constructor
  · rintro ⟨result, hreturns, hfound, -⟩ d hdist
    obtain ⟨markup, hreturns', -, hfresh⟩ := R.findPathReturns_of_distance hdist
    obtain ⟨path, -, hpath⟩ := R.mem_level_iff.mp hdist.1
    obtain ⟨path, rfl, -⟩ := hfound ⟨path, hpath⟩
    have hresult := R.findPathReturns_unique hreturns hreturns'
    apply hfresh.mp
    cases hback : backtrack markup (indexes R.migrations R.fixups).bySource d db with
    | error e =>
        rw [hback] at hresult
        cases hresult
    | ok path' => exact R.descends_of_backtrack hback
  · intro hdescends
    by_cases hex : ∃ path, R.IsPath db path target
    · obtain ⟨path, hpath⟩ := hex
      obtain ⟨d, hdist⟩ := R.exists_distance hpath
      obtain ⟨markup, hreturns, htarget, hfresh⟩ := R.findPathReturns_of_distance hdist
      have hpos : 0 < d := by
        rcases Nat.eq_zero_or_pos d with rfl | hpos
        · exact absurd (by simpa [level, layer] using hdist.1) hne
        · exact hpos
      obtain ⟨found, hback, hlen, hfound⟩ :=
        R.backtrack_of_descends hpos htarget (hfresh.mpr (hdescends d hdist))
      rw [hback] at hreturns
      refine ⟨_, hreturns, fun _ => ⟨found, rfl, hfound, fun path' hpath' => ?_⟩,
        fun hnone => absurd ⟨path, hpath⟩ hnone⟩
      rw [hlen]
      exact hdist.le_length R hpath'
    · have hlevel : ∀ k, db ∉ R.level target k := by
        intro k hk
        obtain ⟨path, -, hpath⟩ := R.mem_level_iff.mp hk
        exact hex ⟨path, hpath⟩
      obtain ⟨fuel, hsearch⟩ := search_exhausted (R.level_eq_nil hR target) hlevel
      exact ⟨.ok none, R.findPathReturns_iff.mpr ⟨fuel, none, hsearch, rfl⟩,
        fun h => absurd h hex, fun _ => rfl⟩

/-! ## Migrations and one fixup -/

def migrationFile (id parentId : String) : String × MigrationFile :=
  (id, { path := "", fixupTarget := none, data := { id := id, parentId := parentId } })

/-- A linear history with a fixup from `m102` to `m104`. The search from `m104`
queues `m102` at level 1 by the fixup and again at level 2 by `m103`. -/
def shortcut : Revisions where
  migrations := [migrationFile "m101" "initial", migrationFile "m102" "m101",
    migrationFile "m103" "m102", migrationFile "m104" "m103"]
  fixups := [{ path := "", fixupTarget := some "m104",
               data := { id := "m104m102", parentId := "m102" } }]
  normal := by decide

def shortcutRank (revision : String) : Nat :=
  if revision = "initial" then 0
  else if revision = "m101" then 1
  else if revision = "m102" then 2
  else if revision = "m103" then 3
  else 4

theorem shortcut_acyclic : Acyclic shortcut.Edge := by
  refine Acyclic.of_rank shortcutRank ?_
  rintro a b ⟨file, hfile, rfl, hend⟩
  have hall : ∀ file ∈ shortcut.files, ∀ b ∈ ends file,
      shortcutRank file.data.parentId < shortcutRank b := by decide
  apply hall file hfile b
  rcases hend with hid | hfix
  · simp [ends, hid]
  · simp [ends, hfix]

theorem findPath_correct_shortcut :
    shortcut.FindPathCorrect "m102" "m104" ↔ shortcut.DescendsFresh "m102" "m104" :=
  shortcut.findPath_correct_iff shortcut_acyclic (by decide)

/-- One migration further back the search fails: at `m101` the mark of `m102`
is no longer the level of its fixup. -/
theorem findPath_shortcut_fails :
    Acyclic shortcut.Edge ∧
      (∃ path, shortcut.IsPath "m101" path "m104") ∧
      FindPathReturns shortcut.migrations shortcut.fixups "m101" "m104"
        (.error backtrackError) ∧
      ¬ shortcut.FindPathCorrect "m101" "m104" := by
  have hpath : ∃ path, shortcut.IsPath "m101" path "m104" := by
    have hlevel : "m101" ∈ shortcut.level "m104" 2 := by decide
    obtain ⟨path, -, hpath⟩ := shortcut.mem_level_iff.mp hlevel
    exact ⟨path, hpath⟩
  have hreturns : FindPathReturns shortcut.migrations shortcut.fixups "m101" "m104"
      (.error backtrackError) := ⟨4, rfl⟩
  refine ⟨shortcut_acyclic, hpath, hreturns, ?_⟩
  rintro ⟨result, hresult, hfound, -⟩
  obtain ⟨path, rfl, -⟩ := hfound hpath
  cases shortcut.findPathReturns_unique hreturns hresult

end Revisions

end GelCli.Migrations
