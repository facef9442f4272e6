import GelCli.Migrations.Backtrack
import GelCli.Migrations.Files

/-!
# When the path search ends

`find_path` queues what it has queued before, so a cycle of revisions that leads to
the target keeps it going for ever, unless the revision of the database is met.
Fixup files can make such a cycle: `_read_fixups` takes the target out of the file
name and checks it against nothing.
-/

namespace GelCli.Migrations

open GelCli.Foundation GelCli.Foundation.QueueSearch

namespace Revisions

variable (R : Revisions)

/-- The search ends, and with `Ok(None)` when the target cannot be reached. -/
def FindPathEnds (dbMigration target : String) : Prop :=
  (∃ result, FindPathReturns R.migrations R.fixups dbMigration target result) ∧
    ((¬ ∃ path, R.IsPath dbMigration path target) →
      FindPathReturns R.migrations R.fixups dbMigration target (.ok none))

/-- A revision that leads to the target leads back to itself. -/
def CycleTo (target : String) : Prop :=
  ∃ a, Relation.TransGen R.Edge a a ∧ Relation.ReflTransGen R.Edge a target

/-- Without a cycle the routes to the target are no longer than there are files. -/
theorem level_eq_nil_of_acyclic {target : String} (h : ¬ R.CycleTo target) :
    R.level target (R.files.length + 1) = [] := by
  rw [List.eq_nil_iff_forall_not_mem]
  intro x hx
  obtain ⟨path, hlen, hpath⟩ := R.mem_level_iff.mp hx
  have hwalk := (R.walk_iff_isPath.mpr ⟨path, hlen, hpath⟩).toward
  have hsource : ∀ a b, Toward R.Edge target a b →
      a ∈ R.files.map fun file => file.data.parentId := by
    rintro a b ⟨⟨file, hfile, rfl, -⟩, -⟩
    exact List.mem_map_of_mem hfile
  have hle := (acyclic_toward_iff.mpr h).walk_length_le _ hsource hwalk
  rw [List.length_map] at hle
  omega

/-- Round a cycle there are routes to the target of any length. -/
theorem level_ne_nil_of_cycle {target : String} (h : R.CycleTo target) (n : Nat) :
    R.level target n ≠ [] := by
  intro hnil
  obtain ⟨a, hcycle, hroute⟩ := h
  obtain ⟨k, hk⟩ := Walk.of_reflTransGen hroute
  obtain ⟨m, hle, hm⟩ := Walk.of_cycle hcycle n
  obtain ⟨path, hlen, hpath⟩ := R.walk_iff_isPath.mp (hm.trans hk)
  have hmem := R.mem_level_iff.mpr ⟨path, hlen, hpath⟩
  rw [level, layer_eq_nil_of_le (by omega) hnil] at hmem
  cases hmem

/-- The search does not end when it can only go round a cycle. -/
theorem not_ends_of_cycle {db target : String} (hcycle : R.CycleTo target)
    (hnone : ¬ ∃ path, R.IsPath db path target) : ¬ R.FindPathEnds db target := by
  rintro ⟨-, hends⟩
  obtain ⟨fuel, found, hsearch, -⟩ := R.findPathReturns_iff.mp (hends hnone)
  cases found with
  | none =>
      obtain ⟨n, hn⟩ := layer_of_search_none hsearch (target, 0) List.mem_cons_self
      exact R.level_ne_nil_of_cycle hcycle n hn
  | some found =>
      have hmem : db ∈ R.level target found.1 := by
        refine mem_layer_of_search (fun entry hentry => ?_) hsearch
        obtain rfl := List.mem_singleton.mp hentry
        exact List.mem_singleton_self target
      obtain ⟨path, -, hpath⟩ := R.mem_level_iff.mp hmem
      exact hnone ⟨path, hpath⟩

/-- **Exactly when the search ends**: when the target can be reached from the revision
of the database, or no cycle of revisions leads to it. -/
theorem findPath_ends_iff {db target : String} :
    R.FindPathEnds db target ↔
      (∃ path, R.IsPath db path target) ∨ ¬ R.CycleTo target := by
  by_cases hex : ∃ path, R.IsPath db path target
  · obtain ⟨path, hpath⟩ := hex
    obtain ⟨d, hdist⟩ := R.exists_distance hpath
    obtain ⟨markup, hreturns, -⟩ := R.findPathReturns_of_distance hdist
    exact iff_of_true ⟨⟨_, hreturns⟩, fun hnone => absurd ⟨path, hpath⟩ hnone⟩ (.inl ⟨path, hpath⟩)
  constructor
  · exact fun hends => .inr fun hcycle => R.not_ends_of_cycle hcycle hex hends
  · rintro (hpath | hcycle)
    · exact absurd hpath hex
    · have hlevel : ∀ k, db ∉ R.level target k := by
        intro k hk
        obtain ⟨path, -, hpath⟩ := R.mem_level_iff.mp hk
        exact hex ⟨path, hpath⟩
      obtain ⟨fuel, hsearch⟩ := search_exhausted (R.level_eq_nil_of_acyclic hcycle) hlevel
      have hreturns : FindPathReturns R.migrations R.fixups db target (.ok none) :=
        R.findPathReturns_iff.mpr ⟨fuel, none, hsearch, rfl⟩
      exact ⟨⟨_, hreturns⟩, fun _ => hreturns⟩

/-! ## A fixup that goes back -/

/-- A file as the search sees it. -/
def ofFile (file : Files.MigrationFile) : MigrationFile where
  path := String.ofList file.path
  fixupTarget := file.fixupTarget.map String.ofList
  data := ⟨String.ofList file.data.id, String.ofList file.data.parentId⟩

/-- The revisions come from a directory of migrations that is accepted and from one of
fixups. -/
structure ReadFromDisk : Prop where
  migrations : ∃ all res, Files.sortRevisions all = .ok res ∧
    R.migrations = res.items.map fun item => (String.ofList item.1, ofFile item.2)
  fixups : ∃ parsed, R.fixups = (Files.readFixups parsed).map ofFile

def parsed (id parentId : String) : Files.Migration :=
  ⟨none, id.toList, (0, 0), parentId.toList, (0, 0), (0, 0)⟩

def roundFiles : Files.FileMap where
  items := [("initial".toList, ⟨"00001.edgeql".toList, none, parsed "m101" "initial"⟩),
    ("m101".toList, ⟨"00002.edgeql".toList, none, parsed "m102" "m101"⟩)]
  nodup := by decide

/-- Two migrations, and a fixup from the second one back to the first. -/
def round : Revisions where
  migrations := [("m101", ⟨"00001.edgeql", none, ⟨"m101", "initial"⟩⟩),
    ("m102", ⟨"00002.edgeql", none, ⟨"m102", "m101"⟩⟩)]
  fixups := [⟨"m102-m101.edgeql", some "m101", ⟨"m103", "m102"⟩⟩]
  normal := by decide

theorem round_readFromDisk : round.ReadFromDisk where
  migrations := ⟨roundFiles,
    (Dict.empty.set "m101".toList
      ⟨"00001.edgeql".toList, none, parsed "m101" "initial"⟩).set "m102".toList
      ⟨"00002.edgeql".toList, none, parsed "m102" "m101"⟩, rfl, rfl⟩
  fixups := ⟨[("m102-m101.edgeql".toList, parsed "m103" "m102")], rfl⟩

theorem round_cycle : round.CycleTo "m102" := by
  have hback : round.Edge "m102" "m101" :=
    ⟨⟨"m102-m101.edgeql", some "m101", ⟨"m103", "m102"⟩⟩, by decide, rfl, .inr rfl⟩
  have hforth : round.Edge "m101" "m102" :=
    ⟨⟨"00002.edgeql", none, ⟨"m102", "m101"⟩⟩, by decide, rfl, .inl rfl⟩
  exact ⟨"m102", .tail (.single hback) hforth, .refl⟩

/-- From a revision that is not there the search never ends. -/
theorem findPath_goes_round :
    ¬ ∀ R : Revisions, R.ReadFromDisk → ∀ db target, R.FindPathEnds db target := by
  intro hclaim
  refine round.not_ends_of_cycle round_cycle ?_ (hclaim round round_readFromDisk "m104" "m102")
  rintro ⟨path, hpath⟩
  cases path with
  | nil =>
      have hne : "m104" ≠ "m102" := by decide
      exact hne hpath
  | cons elem path =>
      have hnone : ∀ file ∈ round.files, file.data.parentId ≠ "m104" := by decide
      exact hnone _ hpath.1 hpath.2.1

end Revisions

end GelCli.Migrations
