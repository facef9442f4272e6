import GelCli.Foundation.FirstByKey
import GelCli.Versions.Selection

/-!
# The packages of all channels

`all_packages_with_reporter` of `src/portable/server/list_versions.rs` loads one catalogue
after the other and tells a reporter what went wrong. The catalogues share their sources,
so that one failure may come up in several of them, and so may a conflict.
-/

namespace GelCli.Versions

open GelCli.Foundation GelCli.Registry

def reportSource : SourceReport → RegistrySource
  | .healthy source _ _ | .unavailable source _ | .rejected source _ => source

def isDegradedReport : SourceReport → Bool
  | .healthy _ _ _ => false
  | .unavailable _ _ | .rejected _ _ => true

/-- The sources that were seen are those of the items that are kept. -/
def dedupeFirstBySource {α : Type} (sourceOf : α → RegistrySource) (items : List α) : List α :=
  firstByKey sourceOf items

/-! ## The loop over the channels -/

structure AllPackages where
  pkgs : List ServerPackage
  degradedReports : List SourceReport
  firstConflicts : List CatalogConflict

def AllPackages.empty : AllPackages := ⟨[], [], []⟩

/-- One turn; `none` is the panic of the sort in `server_packages`. -/
def AllPackages.add (d : Digits) (a : AllPackages) (load : CatalogLoad) : Option AllPackages :=
  (serverPackages d load.artifacts).map fun packages =>
    { pkgs := a.pkgs ++ packages
      degradedReports := a.degradedReports ++ load.sourceReports.filter isDegradedReport
      firstConflicts := load.conflicts.foldl (pushNew CatalogConflict.identity) a.firstConflicts }

/-- What is returned, and what `on_report` and `on_conflict` are called with. -/
structure Listing where
  result : Except NoHealthySources (List ServerPackage)
  reports : List SourceReport
  conflicts : List CatalogConflict

def AllPackages.finish (sources : List RegistrySource) (a : AllPackages) : Listing :=
  let firstDegradedReports := dedupeFirstBySource reportSource a.degradedReports
  { result := .ok a.pkgs
    reports := (dedupeFirstBySource id sources).filterMap fun configuredSource =>
      firstDegradedReports.find? fun report => reportSource report = configuredSource
    conflicts := a.firstConflicts }

/-- A channel without a healthy source ends the loop before anything is reported. -/
def loadChannels (d : Digits) (sources : List RegistrySource) (a : AllPackages) :
    List (Option (Except NoHealthySources CatalogLoad)) → Option Listing
  | [] => some (a.finish sources)
  | result :: results => do
      match ← result with
      | .error error => return ⟨.error error, [], []⟩
      | .ok load => loadChannels d sources (← a.add d load) results

def allPackagesWithReporter (d : Digits) (sources : List RegistrySource)
    (results : List (Option (Except NoHealthySources CatalogLoad))) : Option Listing :=
  loadChannels d sources .empty results

/-- The channels that the source goes through. -/
def allChannels : List Registry.Channel := [.stable, .testing, .nightly]

/-- `out` is what comes out where the channels are loaded in this order, each of them in
some order of completion of its fetches. -/
def ListsPackages (d : Digits) (loader : Registry.Channel → Loader) (platform : String)
    (sources : List RegistrySource) (channels : List Registry.Channel)
    (out : Option Listing) : Prop :=
  ∃ results, List.Forall₂ (fun channel result =>
      Load (loader channel) channel platform sources result) channels results ∧
    out = allPackagesWithReporter d sources results

/-! ## What is to be reported -/

def outcomeSource (outcome : ConfiguredSourceOutcome) : RegistrySource :=
  reportSource outcome.report

/-- The reports of all channels, in their order. -/
def allReports (tables : List (List ConfiguredSourceOutcome)) : List SourceReport :=
  tables.flatMap fun table => table.map ConfiguredSourceOutcome.report

/-- No report of the same source before this one is a failure. -/
def FirstFailure (tables : List (List ConfiguredSourceOutcome)) (report : SourceReport) : Prop :=
  isDegradedReport report ∧ ∃ before after, allReports tables = before ++ report :: after ∧
    ∀ earlier ∈ before, reportSource earlier = reportSource report → ¬ isDegradedReport earlier

structure ReportedOnce (sources : List RegistrySource)
    (tables : List (List ConfiguredSourceOutcome)) (listing : Listing) : Prop where
  once : (listing.reports.map reportSource).Nodup
  degraded : ∀ source, source ∈ listing.reports.map reportSource ↔
    ∃ table ∈ tables, ∃ outcome ∈ table, outcomeSource outcome = source ∧ ¬ outcome.isHealthy
  configured : (listing.reports.map reportSource).Pairwise fun source source' =>
    sources.idxOf source < sources.idxOf source'
  first : ∀ report ∈ listing.reports, FirstFailure tables report
  conflictOnce : (listing.conflicts.map CatalogConflict.identity).Nodup
  contested : ∀ id, id ∈ listing.conflicts.map CatalogConflict.identity ↔
    ∃ table ∈ tables, Contested (healthyRecords table) id

/-! ## What is gathered -/

section Gathering

variable {d : Digits} {tables : List (List ConfiguredSourceOutcome)} {a : AllPackages}

/-- After the channels of `tables`. -/
structure Gathered (tables : List (List ConfiguredSourceOutcome)) (a : AllPackages) : Prop where
  reports : a.degradedReports = (allReports tables).filter isDegradedReport
  conflicts : ∃ conflicts, a.firstConflicts = firstByKey CatalogConflict.identity conflicts ∧
    ∀ id, id ∈ conflicts.map CatalogConflict.identity ↔
      ∃ table ∈ tables, Contested (healthyRecords table) id

theorem Gathered.empty : Gathered [] .empty where
  reports := rfl
  conflicts := ⟨[], rfl, fun id => by simp⟩

theorem Gathered.add {table : List ConfiguredSourceOutcome} {load : CatalogLoad} {a' : AllPackages}
    (h : Gathered tables a)
    (hreports : load.sourceReports = table.map ConfiguredSourceOutcome.report)
    (hsafe : ConflictSafe (healthyRecords table) load) (hadd : a.add d load = some a') :
    Gathered (tables ++ [table]) a' := by
  obtain ⟨packages, -, rfl⟩ := Option.map_eq_some_iff.mp hadd
  obtain ⟨conflicts, hconflicts, hcontested⟩ := h.conflicts
  refine ⟨?_, conflicts ++ load.conflicts, ?_, fun id => ?_⟩
  · show a.degradedReports ++ load.sourceReports.filter isDegradedReport = _
    rw [h.reports, hreports, allReports, allReports, List.flatMap_append, List.filter_append,
      List.flatMap_singleton]
  · show load.conflicts.foldl (pushNew CatalogConflict.identity) a.firstConflicts = _
    rw [hconflicts, firstByKey, firstByKey, List.foldl_append]
  · have hload : id ∈ load.conflicts.map CatalogConflict.identity ↔
        Contested (healthyRecords table) id := by
      rw [← hsafe.reported_iff id]
      exact List.mem_map
    rw [List.map_append, List.mem_append, hcontested id, hload]
    constructor
    · rintro (⟨table', hmem, hid⟩ | hid)
      · exact ⟨table', List.mem_append_left _ hmem, hid⟩
      · exact ⟨table, List.mem_append_right _ List.mem_cons_self, hid⟩
    · rintro ⟨table', hmem, hid⟩
      rcases List.mem_append.mp hmem with hmem | hmem
      · exact .inl ⟨table', hmem, hid⟩
      · exact .inr (List.mem_singleton.mp hmem ▸ hid)

/-! ## What is reported of it -/

theorem degraded_report {outcome : ConfiguredSourceOutcome} :
    isDegradedReport outcome.report ↔ ¬ outcome.isHealthy := by
  cases outcome with
  | healthy source selectedIndexes artifacts => exact ⟨fun h => (by cases h), fun h => absurd rfl h⟩
  | unavailable source error => exact ⟨fun _ h => (by cases h), fun _ => rfl⟩
  | rejected source error => exact ⟨fun _ h => (by cases h), fun _ => rfl⟩

theorem mem_degradedReports (h : Gathered tables a) {source : RegistrySource} :
    source ∈ a.degradedReports.map reportSource ↔
      ∃ table ∈ tables, ∃ outcome ∈ table,
        outcomeSource outcome = source ∧ ¬ outcome.isHealthy := by
  rw [h.reports, List.mem_map]
  constructor
  · rintro ⟨report, hreport, rfl⟩
    obtain ⟨hmem, hdegraded⟩ := List.mem_filter.mp hreport
    obtain ⟨table, htable, hmem⟩ := List.mem_flatMap.mp hmem
    obtain ⟨outcome, houtcome, rfl⟩ := List.mem_map.mp hmem
    exact ⟨table, htable, outcome, houtcome, rfl, degraded_report.mp hdegraded⟩
  · rintro ⟨table, htable, outcome, houtcome, rfl, hunhealthy⟩
    refine ⟨outcome.report, List.mem_filter.mpr ⟨?_, degraded_report.mpr hunhealthy⟩, rfl⟩
    exact List.mem_flatMap.mpr ⟨table, htable, List.mem_map_of_mem houtcome⟩

/-- A source is looked up among the first failures. -/
theorem find?_reportSource {reports : List SourceReport} {source : RegistrySource}
    {report : SourceReport}
    (h : (reports.find? fun report => reportSource report = source) = some report) :
    report ∈ reports ∧ reportSource report = source :=
  ⟨List.mem_of_find?_eq_some h, by simpa using List.find?_some h⟩

theorem map_reports (sources : List RegistrySource) (a : AllPackages) :
    (a.finish sources).reports.map reportSource =
      (firstByKey id sources).filter fun source =>
        source ∈ a.degradedReports.map reportSource := by
  show (List.filterMap _ (firstByKey id sources)).map reportSource = _
  induction firstByKey id sources with
  | nil => rfl
  | cons source rest ih =>
      rw [List.filterMap_cons, List.filter_cons]
      split
      · next hnone =>
        have hnot : source ∉ a.degradedReports.map reportSource := by
          rw [← mem_map_firstByKey]
          intro hmem
          obtain ⟨report, hreport, hsource⟩ := List.mem_map.mp hmem
          exact absurd (decide_eq_true hsource) (List.find?_eq_none.mp hnone report hreport)
        rw [decide_eq_false hnot, ih]
        rfl
      · next report hsome =>
        obtain ⟨hreport, rfl⟩ := find?_reportSource hsome
        have hmem : reportSource report ∈ a.degradedReports.map reportSource :=
          mem_map_firstByKey.mp (List.mem_map_of_mem hreport)
        rw [decide_eq_true hmem, List.map_cons, ih]
        rfl

theorem firstFailure_of_mem (h : Gathered tables a) {sources : List RegistrySource}
    {report : SourceReport} (hreport : report ∈ (a.finish sources).reports) :
    FirstFailure tables report := by
  obtain ⟨source, -, hfound⟩ := List.mem_filterMap.mp hreport
  obtain ⟨hmem, -⟩ := find?_reportSource hfound
  obtain ⟨before, after, hsplit, hfirst⟩ := first_of_mem_firstByKey hmem
  rw [h.reports] at hsplit
  obtain ⟨before', rest, hall, rfl, hrest⟩ := List.filter_eq_append_iff.mp hsplit
  obtain ⟨skipped, after', rfl, hskipped, hdegraded, rfl⟩ := List.filter_eq_cons_iff.mp hrest
  refine ⟨hdegraded, before' ++ skipped, after', by rw [hall, List.append_assoc], ?_⟩
  intro earlier hearlier hsource hfailed
  rcases List.mem_append.mp hearlier with hearlier | hearlier
  · exact hfirst earlier (List.mem_filter.mpr ⟨hearlier, hfailed⟩) hsource
  · exact hskipped earlier hearlier hfailed

/-- All that was gathered is reported once. -/
theorem Gathered.reportedOnce {sources : List RegistrySource} (h : Gathered tables a)
    (hsources : ∀ table ∈ tables, ∀ outcome ∈ table, outcomeSource outcome ∈ sources) :
    ReportedOnce sources tables (a.finish sources) := by
  have hmap := map_reports sources a
  have hordered : ((firstByKey id sources).map id).Pairwise fun source source' =>
      (sources.map id).idxOf source < (sources.map id).idxOf source' := pairwise_firstByKey
  obtain ⟨conflicts, hconflicts, hcontested⟩ := h.conflicts
  rw [List.map_id, List.map_id] at hordered
  have hpairwise : ((a.finish sources).reports.map reportSource).Pairwise fun source source' =>
      sources.idxOf source < sources.idxOf source' := by
    rw [hmap]
    exact hordered.filter _
  exact
    { once := hpairwise.imp fun hlt heq => absurd (heq ▸ hlt) (Nat.lt_irrefl _)
      degraded := fun source => by
        rw [hmap, List.mem_filter, decide_eq_true_eq, mem_degradedReports h, and_iff_right_iff_imp]
        rintro ⟨table, htable, outcome, houtcome, rfl, -⟩
        have hmem := hsources table htable outcome houtcome
        rw [← List.map_id (firstByKey id sources), mem_map_firstByKey, List.map_id]
        exact hmem
      configured := hpairwise
      first := fun report hreport => firstFailure_of_mem h hreport
      conflictOnce := by
        show (a.firstConflicts.map _).Nodup
        rw [hconflicts]
        exact nodup_firstByKey
      contested := fun id => by
        show id ∈ a.firstConflicts.map _ ↔ _
        rw [hconflicts, mem_map_firstByKey]
        exact hcontested id }

end Gathering

/-! ## Runs over the channels -/

section Runs

variable {d : Digits} {sources : List RegistrySource} {tables : List (List ConfiguredSourceOutcome)}
  {a : AllPackages} {listing : Listing}

/-- The versions of all server packages are read. -/
def ServersRead (d : Digits) (table : List ConfiguredSourceOutcome) : Prop :=
  ∀ record ∈ healthyRecords table, ∀ pkg, serverPackage? record.2 = some pkg →
    ((packageBuild pkg).specific d).isSome

theorem add_isSome {table : List ConfiguredSourceOutcome} {load : CatalogLoad}
    (hload : assemble table = some (.ok load)) (hread : ServersRead d table) :
    (a.add d load).isSome := by
  have hservers : ∀ pkg ∈ servers load.artifacts, ((packageBuild pkg).specific d).isSome := by
    intro pkg hpkg
    obtain ⟨artifact, hmem, hartifact⟩ := List.mem_filterMap.mp hpkg
    obtain ⟨source, hrecord⟩ := record_of_assemble hload hmem
    exact hread _ hrecord pkg hartifact
  rw [AllPackages.add, Option.isSome_map]
  exact Comparing.run_sort_isSome fun p hp p' hp' =>
    cmpPackages_isSome (hservers p hp) (hservers p' hp')

theorem loadChannels_ok {load : CatalogLoad}
    (results : List (Option (Except NoHealthySources CatalogLoad))) :
    loadChannels d sources a (some (.ok load) :: results) =
      (a.add d load).bind fun a' => loadChannels d sources a' results := rfl

theorem loadChannels_error {error : NoHealthySources}
    (results : List (Option (Except NoHealthySources CatalogLoad))) :
    loadChannels d sources a (some (.error error) :: results) = some ⟨.error error, [], []⟩ := rfl

/-- With a healthy source in every channel the loop comes to its end. -/
theorem loadChannels_gathered {before rest : List (List ConfiguredSourceOutcome)}
    (h : Gathered before a) (hhealthy : ∀ table ∈ rest, ∃ outcome ∈ table, outcome.isHealthy)
    (hrun : loadChannels d sources a (rest.map assemble) = some listing) :
    ∃ a', Gathered (before ++ rest) a' ∧ listing = a'.finish sources := by
  induction rest generalizing before a with
  | nil =>
      cases hrun
      exact ⟨a, by rwa [List.append_nil], rfl⟩
  | cons table rest ih =>
      obtain ⟨load, hload, hreports, hsafe⟩ := assemble_healthy (hhealthy table List.mem_cons_self)
      rw [List.map_cons, hload, loadChannels_ok, Option.bind_eq_some_iff] at hrun
      obtain ⟨a', hadd, hrun⟩ := hrun
      rw [List.append_cons]
      exact ih (h.add hreports hsafe hadd)
        (fun table' hmem => hhealthy table' (List.mem_cons_of_mem _ hmem)) hrun

theorem loadChannels_isSome {rest : List (List ConfiguredSourceOutcome)}
    (hread : ∀ table ∈ rest, ServersRead d table) :
    (loadChannels d sources a (rest.map assemble)).isSome := by
  induction rest generalizing a with
  | nil => rfl
  | cons table rest ih =>
      by_cases hhealthy : ∃ outcome ∈ table, outcome.isHealthy
      · obtain ⟨load, hload, -⟩ := assemble_healthy hhealthy
        obtain ⟨a', hadd⟩ := Option.isSome_iff_exists.mp
          (add_isSome (a := a) hload (hread table List.mem_cons_self))
        rw [List.map_cons, hload, loadChannels_ok, hadd, Option.bind_some]
        exact ih fun table' hmem => hread table' (List.mem_cons_of_mem _ hmem)
      · rw [List.map_cons, assemble_unhealthy fun outcome hmem hout => hhealthy ⟨outcome, hmem, hout⟩,
          loadChannels_error]
        rfl

/-- A channel without a healthy source is an error, and nothing else is reported. -/
theorem loadChannels_aborts {rest : List (List ConfiguredSourceOutcome)}
    {table : List ConfiguredSourceOutcome} (hmem : table ∈ rest)
    (hunhealthy : ∀ outcome ∈ table, ¬ outcome.isHealthy)
    (hrun : loadChannels d sources a (rest.map assemble) = some listing) :
    ∃ error, listing = ⟨.error error, [], []⟩ := by
  induction rest generalizing a with
  | nil => cases hmem
  | cons table' rest ih =>
      by_cases hhealthy : ∃ outcome ∈ table', outcome.isHealthy
      · obtain ⟨load, hload, -⟩ := assemble_healthy hhealthy
        rw [List.map_cons, hload, loadChannels_ok, Option.bind_eq_some_iff] at hrun
        obtain ⟨a', -, hrun⟩ := hrun
        rcases List.mem_cons.mp hmem with rfl | hmem
        · obtain ⟨outcome, houtcome, hhealthy⟩ := hhealthy
          exact absurd hhealthy (hunhealthy outcome houtcome)
        · exact ih hmem hrun
      · rw [List.map_cons, assemble_unhealthy fun outcome hmem hout => hhealthy ⟨outcome, hmem, hout⟩,
          loadChannels_error] at hrun
        cases hrun
        exact ⟨_, rfl⟩

end Runs

section Loading

variable {d : Digits} {loader : Registry.Channel → Loader} {platform : String}
  {sources : List RegistrySource} {channels : List Registry.Channel} {out : Option Listing}

/-- The outcomes of all sources, channel by channel. -/
def outcomeTables (loader : Registry.Channel → Loader) (platform : String)
    (sources : List RegistrySource) (channels : List Registry.Channel) :
    List (List ConfiguredSourceOutcome) :=
  channels.map fun channel => sourceOutcomes (loader channel) channel platform sources

theorem listsPackages_iff :
    ListsPackages d loader platform sources channels out ↔
      out = loadChannels d sources .empty
        ((outcomeTables loader platform sources channels).map assemble) := by
  have hresults : ∀ results, List.Forall₂ (fun channel result =>
      Load (loader channel) channel platform sources result) channels results ↔
      results = (outcomeTables loader platform sources channels).map assemble := by
    intro results
    simp only [load_iff, outcomeTables, List.map_map]
    exact forall₂_eq_map
  constructor
  · rintro ⟨results, hall, rfl⟩
    rw [← (hresults results).mp hall]
    rfl
  · rintro rfl
    exact ⟨_, (hresults _).mpr rfl, rfl⟩

def resolvedSource : ResolvedSourceOutcome → RegistrySource
  | .ready source _ | .unavailable source _ | .rejected source _ => source

theorem resolvedSource_resolve {loader : Loader} {channel : Registry.Channel} (n : Nat)
    (source : RegistrySource) :
    resolvedSource (resolveConfiguredSource loader channel platform (n, source)) = source := by
  cases source with
  | manifest manifestSource =>
      show resolvedSource (resolveManifest loader channel platform n _ manifestSource) = _
      rw [resolveManifest]
      split
      · rfl
      · split
        · rfl
        · split
          · rfl
          · rfl
  | legacyPackageRoot root =>
      rw [resolveConfiguredSource]
      split
      · rfl
      · rfl

/-- The outcomes are those of the configured sources. -/
theorem outcomeSource_sourceOutcome {loader : Loader} {channel : Registry.Channel} (n : Nat)
    (source : RegistrySource) :
    outcomeSource (sourceOutcome loader channel platform (n, source)) = source := by
  have hsource : resolvedSource (resolveConfiguredSource loader channel platform (n, source)) =
      source := resolvedSource_resolve n source
  rw [sourceOutcome]
  split
  · next heq =>
    rw [heq] at hsource
    split
    · next failure _ => cases failure <;> exact hsource
    · exact hsource
  · next heq =>
    rw [heq] at hsource
    exact hsource
  · next heq =>
    rw [heq] at hsource
    exact hsource

theorem outcomeSource_mem {table : List ConfiguredSourceOutcome}
    (htable : table ∈ outcomeTables loader platform sources channels)
    {outcome : ConfiguredSourceOutcome} (houtcome : outcome ∈ table) :
    outcomeSource outcome ∈ sources := by
  obtain ⟨channel, -, rfl⟩ := List.mem_map.mp htable
  obtain ⟨⟨n, source⟩, hinput, rfl⟩ := List.mem_map.mp houtcome
  rw [outcomeSource_sourceOutcome]
  obtain ⟨i, hi, heq⟩ := List.mem_mapIdx.mp hinput
  cases heq
  exact List.getElem_mem hi

end Loading

/-! ## Two sources -/

/-- Two roots, of which some indexes time out. -/
def twoRoots : List RegistrySource :=
  [.legacyPackageRoot "https://first.example.com", .legacyPackageRoot "https://second.example.com"]

def timingOut (times : Nat → Bool) : Loader :=
  { missingIndex with
    loadIndex := fun source _ _ => if times source then .error "timeout" else .ok [] }

end GelCli.Versions
