import GelCli.Foundation.Linked
import GelCli.Migrations.Files

/-!
# Which directories are one chain

`sort_revisions` follows the files from `initial`, each time by the id of the file it
took last, and returns when none is left. So it accepts the files that are one chain
in which every file is used, as long as the number of each name is that of its place;
a name without a number is refused. The map that is returned goes by the ids of the
files: two files with one id are one entry of it.
-/

namespace GelCli.Migrations.Files

open GelCli.Foundation

/-- What `_read_all` hands over: the files by their parents. -/
structure Collection where
  all : FileMap
  keyed : ∀ item ∈ all.items, item.2.data.parentId = item.1

namespace Collection

def files (c : Collection) : List MigrationFile := c.all.items.map Prod.snd

end Collection

def Follows (p : Text) (files : List MigrationFile) : Prop :=
  Linked (fun file => file.data.parentId) (fun file => file.data.id) p files

/-- The names carry the numbers from `n` on. -/
def Numbered : Nat → List MigrationFile → Prop
  | _, [] => True
  | n, file :: files => fileNum file.path = some n ∧ Numbered (n + 1) files

/-- All files, following one another from `initial`. -/
structure OneChain (c : Collection) (order : List MigrationFile) : Prop where
  follows : Follows nullMigration order
  perm : order.Perm c.files

def store (res : FileMap) (file : MigrationFile) : FileMap := res.set file.data.id file

/-! ## The walk -/

section Walk

variable {s : SortState} (hkeyed : ∀ item ∈ s.all.items, item.2.data.parentId = item.1)
include hkeyed

theorem parentId_of_get {k : Text} {file : MigrationFile} (h : s.all.get k = some file) :
    file.data.parentId = k :=
  hkeyed _ (Dict.get_eq_some.mp h)

theorem get_of_mem {file : MigrationFile} (h : file ∈ s.all.items.map Prod.snd) :
    s.all.get file.data.parentId = some file := by
  obtain ⟨⟨k, file⟩, hmem, rfl⟩ := List.mem_map.mp h
  obtain rfl : file.data.parentId = k := hkeyed _ hmem
  exact Dict.get_eq_some.mpr hmem

/-- What is left of the walk: the files left, in a chain from where it is. -/
theorem sortLoop_ok_iff {fuel : Nat} (hfuel : s.all.items.length < fuel) {res : FileMap} :
    sortLoop fuel s = some (.ok res) ↔
      ∃ order, Follows s.parentId order ∧ order.Perm (s.all.items.map Prod.snd) ∧
        Numbered s.counter order ∧ res = order.foldl store s.res := by
  induction fuel generalizing s with
  | zero => cases hfuel
  | succ fuel ih =>
      unfold sortLoop sortTurn
      by_cases hempty : s.all.items = []
      · rw [if_pos hempty, hempty, List.map_nil]
        constructor
        · intro h
          cases h
          exact ⟨[], trivial, .nil, trivial, rfl⟩
        · rintro ⟨order, -, hperm, -, rfl⟩
          rw [List.perm_nil.mp hperm]
          rfl
      rw [if_neg hempty]
      -- the next file is the one whose parent the walk has come to
      have hnext : ∀ order, Follows s.parentId order →
          order.Perm (s.all.items.map Prod.snd) → ∃ file rest, order = file :: rest ∧
            s.all.get s.parentId = some file ∧ Follows file.data.id rest := by
        intro order hfollows hperm
        cases order with
        | nil => exact absurd (List.map_eq_nil_iff.mp (List.nil_perm.mp hperm)) hempty
        | cons file rest =>
            obtain ⟨hparent, hrest⟩ := hfollows
            refine ⟨file, rest, rfl, ?_, hrest⟩
            rw [← hparent]
            exact get_of_mem hkeyed (hperm.subset List.mem_cons_self)
      cases hget : s.all.get s.parentId with
      | none =>
          constructor
          · intro h
            cases h
          · rintro ⟨order, hfollows, hperm, -, -⟩
            obtain ⟨file, rest, -, hfile, -⟩ := hnext order hfollows hperm
            rw [hget] at hfile
            cases hfile
      | some file =>
          have hparent := parentId_of_get hkeyed hget
          have herase := (Dict.items_perm_cons_erase hget).map Prod.snd
          rw [List.map_cons] at herase
          by_cases hnum : fileNum file.path = some s.counter
          · simp only [hnum, ne_eq, not_true_eq_false, if_false]
            rw [ih (fun item hitem => hkeyed item (List.mem_of_mem_filter hitem))]
            · constructor
              · rintro ⟨rest, hfollows, hperm, hnumbered, rfl⟩
                exact ⟨file :: rest, ⟨hparent, hfollows⟩, (hperm.cons file).trans herase.symm,
                  ⟨hnum, hnumbered⟩, rfl⟩
              · rintro ⟨order, hfollows, hperm, hnumbered, rfl⟩
                obtain ⟨file', rest, rfl, hfile, hrest⟩ := hnext order hfollows hperm
                cases hget.symm.trans hfile
                exact ⟨rest, hrest, (hperm.trans herase).cons_inv, hnumbered.2, rfl⟩
            · have hlength := herase.length_eq
              simp only [List.length_map, List.length_cons] at hlength
              show (s.all.erase s.parentId).items.length < fuel
              omega
          · simp only [hnum, ne_eq, not_false_eq_true, if_true]
            constructor
            · intro h
              cases h
            · rintro ⟨order, hfollows, hperm, hnumbered, -⟩
              obtain ⟨file', rest, rfl, hfile, -⟩ := hnext order hfollows hperm
              cases hget.symm.trans hfile
              exact absurd hnumbered.1 hnum

end Walk

namespace Collection

variable (c : Collection)

theorem parents_nodup : (c.files.map fun file => file.data.parentId).Nodup := by
  have hkeys : c.files.map (fun file => file.data.parentId) = c.all.items.map Prod.fst := by
    rw [files, List.map_map]
    exact List.map_congr_left c.keyed
  rw [hkeys]
  exact c.all.nodup

/-- What `sort_revisions` returns: the files of the chain, each stored by its id. -/
theorem sortRevisions_eq_ok {res : FileMap} :
    sortRevisions c.all = .ok res ↔
      ∃ order, OneChain c order ∧ Numbered 1 order ∧ res = order.foldl store .empty := by
  have hloop : sortLoop (c.all.items.length + 1) (.start c.all) = some (sortRevisions c.all) :=
    (Option.some_get _).symm
  have hiff : sortLoop (c.all.items.length + 1) (.start c.all) = some (.ok res) ↔ _ :=
    sortLoop_ok_iff c.keyed (Nat.lt_add_one c.all.items.length)
  rw [← Option.some_inj, ← hloop, hiff]
  constructor
  · rintro ⟨order, hfollows, hperm, hnumbered, hres⟩
    exact ⟨order, ⟨hfollows, hperm⟩, hnumbered, hres⟩
  · rintro ⟨order, ⟨hfollows, hperm⟩, hnumbered, hres⟩
    exact ⟨order, hfollows, hperm, hnumbered, hres⟩

variable {c}

theorem chain_unique {order order' : List MigrationFile} (h : OneChain c order)
    (h' : OneChain c order') : order = order' :=
  h.follows.unique h'.follows (h.perm.trans h'.perm.symm)
    ((h.perm.map _).nodup_iff.mpr c.parents_nodup)

/-- Files with different ids are all there, in the order they were stored in. -/
theorem items_foldl_store {order : List MigrationFile}
    (h : (order.map fun file => file.data.id).Nodup) :
    (order.foldl store .empty).items = order.map fun file => (file.data.id, file) :=
  Dict.items_foldl_set (by simpa [Dict.keys, Dict.empty] using h)

end Collection

/-! ## The directories that are accepted -/

/-- **A directory is accepted iff it is one chain**, numbered from 1 in its order. The
walk ends, and files with different ids are all returned, in the order of the chain. -/
theorem sortRevisions_accepts_iff (c : Collection) :
    (∃ fuel, sortLoop fuel (.start c.all) = some (sortRevisions c.all)) ∧
      ((∃ res, sortRevisions c.all = .ok res) ↔
        ∃ order, OneChain c order ∧ Numbered 1 order) ∧
      ∀ res order, sortRevisions c.all = .ok res → OneChain c order →
        (order.map fun file => file.data.id).Nodup →
        res.items = order.map fun file => (file.data.id, file) := by
  refine ⟨⟨_, (Option.some_get _).symm⟩, ?_, ?_⟩
  · constructor
    · rintro ⟨res, h⟩
      obtain ⟨order, hchain, hnumbered, -⟩ := c.sortRevisions_eq_ok.mp h
      exact ⟨order, hchain, hnumbered⟩
    · rintro ⟨order, hchain, hnumbered⟩
      exact ⟨_, c.sortRevisions_eq_ok.mpr ⟨order, hchain, hnumbered, rfl⟩⟩
  · intro res order h hchain hnodup
    obtain ⟨order', hchain', -, rfl⟩ := c.sortRevisions_eq_ok.mp h
    obtain rfl := Collection.chain_unique hchain hchain'
    exact Collection.items_foldl_store hnodup

/-! ## A name without a number -/

/-- The names that carry numbers carry those from `n` on. -/
def NumberedIfAtAll : Nat → List MigrationFile → Prop
  | _, [] => True
  | n, file :: files =>
      (∀ m, fileNum file.path = some m → m = n) ∧ NumberedIfAtAll (n + 1) files

/-- A file for tests, as it is after parsing. -/
def sampleFile (path id parentId : String) : MigrationFile where
  path := path.toList
  fixupTarget := none
  data := ⟨none, id.toList, (0, 0), parentId.toList, (0, 0), (0, 0)⟩

def unnumbered : Collection where
  all := ⟨[(nullMigration, sampleFile "some.edgeql" "m10001" "initial")], List.nodup_singleton _⟩
  keyed := by
    intro item hitem
    obtain rfl := List.mem_singleton.mp hitem
    rfl

theorem sortRevisions_refuses_unnumbered :
    ¬ ∀ c : Collection, (∃ res, sortRevisions c.all = .ok res) ↔
      ∃ order, OneChain c order ∧ NumberedIfAtAll 1 order := by
  intro hclaim
  have hchain : OneChain unnumbered [sampleFile "some.edgeql" "m10001" "initial"] :=
    ⟨⟨rfl, trivial⟩, List.Perm.refl _⟩
  have hnumbered : NumberedIfAtAll 1 [sampleFile "some.edgeql" "m10001" "initial"] := by
    refine ⟨fun m hm => ?_, trivial⟩
    have hnone : fileNum (sampleFile "some.edgeql" "m10001" "initial").path = none := by decide
    rw [hnone] at hm
    cases hm
  obtain ⟨res, hres⟩ := (hclaim unnumbered).mpr ⟨_, hchain, hnumbered⟩
  have herror : sortRevisions unnumbered.all = .error (.wrongName "some.edgeql".toList 1) :=
    rfl
  rw [herror] at hres
  cases hres

end GelCli.Migrations.Files
