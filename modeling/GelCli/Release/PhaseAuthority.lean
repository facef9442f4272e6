import Mathlib.Data.List.MinMax
import GelCli.Release.Timeline

/-!
# Phase authority and the order of a timeline

The latest transition of a label decides in every order in which a timeline is listed,
if its entries can be sorted. An entry without a timestamp leaves the order as it is
listed, and then the decision is the same in every order only if the transitions agree.
-/

namespace GelCli.Release

open GelCli.Foundation

section Authority

variable (fromisoformat : Text → Option Datetime) (label : Text)
  (permissions : List (Text × Json))

/-- The latest transition of the label grants the phase. -/
def Authorized (timeline : List Entry) : Prop :=
  ∃ entry ∈ timeline, isTransition label entry ∧ grants permissions entry ∧
    ∃ d, created fromisoformat entry = some d ∧
      ∀ other ∈ timeline, isTransition label other → ∀ d', created fromisoformat other = some d' →
        d'.micros ≤ d.micros

/-- The transitions of the label have timestamps of one kind, no two the same. -/
structure DatedTransitions (timeline : List Entry) : Prop where
  dated : ∃ aware, ∀ entry ∈ timeline, isTransition label entry →
    ∃ d, created fromisoformat entry = some d ∧ d.isAware = aware
  distinct : ((timeline.filter (isTransition label)).map (created fromisoformat)).Nodup

/-- Every entry has a timestamp, and all are of one kind. -/
def Sortable (timeline : List Entry) : Prop :=
  ∃ aware, ∀ entry ∈ timeline, ∃ d, created fromisoformat entry = some d ∧ d.isAware = aware

/-- Every transition of the label grants the phase, or none does. -/
def Agree (timeline : List Entry) : Prop :=
  ∀ entry ∈ timeline, ∀ other ∈ timeline, isTransition label entry → isTransition label other →
    grants permissions entry = grants permissions other

variable {fromisoformat label permissions}

/-! ## Sorting -/

theorem timelineSort_of_undated {timeline : List Entry} {entry : Entry} (hmem : entry ∈ timeline)
    (h : created fromisoformat entry = none) :
    timelineSort fromisoformat timeline = .ok timeline := by
  have hnone : (timeline.mapM fun e => (created fromisoformat e).map fun d => (d, e)) = none := by
    induction timeline with
    | nil => cases hmem
    | cons e timeline ih =>
        rw [List.mapM_cons]
        rcases List.mem_cons.mp hmem with rfl | hmem
        · rw [h]
          rfl
        · rw [ih hmem]
          cases created fromisoformat e <;> rfl
  rw [timelineSort, hnone]

/-- The entries with their timestamps. -/
theorem exists_parsed {timeline : List Entry}
    (h : ∀ entry ∈ timeline, ∃ d, created fromisoformat entry = some d) :
    ∃ parsed, (timeline.mapM fun e => (created fromisoformat e).map fun d => (d, e)) = some parsed ∧
      parsed.map Prod.snd = timeline ∧ ∀ x ∈ parsed, created fromisoformat x.2 = some x.1 := by
  induction timeline with
  | nil => exact ⟨[], rfl, rfl, fun x hx => by cases hx⟩
  | cons e timeline ih =>
      obtain ⟨d, hd⟩ := h e List.mem_cons_self
      obtain ⟨parsed, hparsed, hsnd, hcreated⟩ := ih fun x hx => h x (List.mem_cons_of_mem e hx)
      refine ⟨(d, e) :: parsed, ?_, by rw [List.map_cons, hsnd], ?_⟩
      · rw [List.mapM_cons, hd, hparsed]
        rfl
      · exact List.forall_mem_cons.mpr ⟨hd, hcreated⟩

/-- Entries that can be sorted come out by their timestamps. -/
theorem timelineSort_of_sortable {timeline : List Entry} (h : Sortable fromisoformat timeline) :
    ∃ entries, timelineSort fromisoformat timeline = .ok entries ∧ entries.Perm timeline ∧
      entries.Pairwise fun a b => ∃ d d', created fromisoformat a = some d ∧
        created fromisoformat b = some d' ∧ d.micros ≤ d'.micros := by
  obtain ⟨aware, haware⟩ := h
  obtain ⟨parsed, hparsed, hsnd, hcreated⟩ :=
    exists_parsed fun entry hentry => (haware entry hentry).imp fun d hd => hd.1
  have hkind : ∀ x ∈ parsed, x.1.isAware = aware := by
    intro x hx
    obtain ⟨d, hd, hkind⟩ := haware x.2 (hsnd ▸ List.mem_map_of_mem hx)
    rw [hcreated x hx, Option.some.injEq] at hd
    rw [hd]
    exact hkind
  have hone : (parsed.any (fun x => x.1.isAware) && parsed.any (fun x => !x.1.isAware)) = false := by
    rw [Bool.and_eq_false_iff, List.any_eq_false, List.any_eq_false]
    cases aware with
    | true => exact .inr fun x hx => by simp [hkind x hx]
    | false => exact .inl fun x hx => by simp [hkind x hx]
  have hsorted : timelineSort fromisoformat timeline =
      .ok ((parsed.mergeSort fun a b => a.1.micros ≤ b.1.micros).map Prod.snd) := by
    rw [timelineSort, hparsed]
    show (sortDated parsed).map _ = _
    rw [sortDated, hone]
    rfl
  have hperm : (parsed.mergeSort fun a b => a.1.micros ≤ b.1.micros).Perm parsed :=
    List.mergeSort_perm _ _
  have hpairwise : (parsed.mergeSort fun a b => a.1.micros ≤ b.1.micros).Pairwise fun a b =>
      decide (a.1.micros ≤ b.1.micros) :=
    List.pairwise_mergeSort
      (fun a b c hab hbc => by
        simp only [decide_eq_true_eq] at hab hbc ⊢
        exact le_trans hab hbc)
      (fun a b => by
        simp only [Bool.or_eq_true, decide_eq_true_eq]
        exact le_total _ _) parsed
  refine ⟨_, hsorted, hsnd ▸ hperm.map Prod.snd, ?_⟩
  rw [List.pairwise_map]
  refine hpairwise.imp_of_mem fun {a b} ha hb hle => ?_
  exact ⟨a.1, b.1, hcreated a (hperm.mem_iff.mp ha), hcreated b (hperm.mem_iff.mp hb),
    of_decide_eq_true hle⟩

/-- Timestamps of both kinds cannot be compared. -/
theorem timelineSort_of_mixed {timeline : List Entry}
    (hall : ∀ entry ∈ timeline, ∃ d, created fromisoformat entry = some d)
    (h : ¬ Sortable fromisoformat timeline) :
    ∃ error, timelineSort fromisoformat timeline = .error error := by
  obtain ⟨parsed, hparsed, hsnd, hcreated⟩ := exists_parsed hall
  have hboth : (parsed.any (fun x => x.1.isAware) && parsed.any (fun x => !x.1.isAware)) = true := by
    by_contra hnot
    rw [Bool.not_eq_true, Bool.and_eq_false_iff, List.any_eq_false, List.any_eq_false] at hnot
    apply h
    rcases hnot with hnaive | haware
    · refine ⟨false, fun entry hentry => ?_⟩
      obtain ⟨x, hx, rfl⟩ := List.mem_map.mp (hsnd.symm ▸ hentry)
      exact ⟨x.1, hcreated x hx, by simpa using hnaive x hx⟩
    · refine ⟨true, fun entry hentry => ?_⟩
      obtain ⟨x, hx, rfl⟩ := List.mem_map.mp (hsnd.symm ▸ hentry)
      exact ⟨x.1, hcreated x hx, by simpa using haware x hx⟩
  have hraise : timelineSort fromisoformat timeline =
      .error "can't compare offset-naive and offset-aware datetimes" := by
    rw [timelineSort, hparsed]
    show (sortDated parsed).map _ = _
    rw [sortDated, hboth]
    rfl
  exact ⟨_, hraise⟩

/-! ## The decision -/

theorem mem_transitions {entries : List Entry} {entry : Entry} :
    entry ∈ entries.filter (isTransition label) ↔ entry ∈ entries ∧ isTransition label entry :=
  List.mem_filter

theorem Datetime.eq_of_micros {d d' : Datetime} (hkind : d.isAware = d'.isAware)
    (hmicros : d.micros = d'.micros) : d = d' := by
  cases d with
  | naive t =>
      cases d' with
      | naive t' => exact congrArg Datetime.naive hmicros
      | aware t' => cases hkind
  | aware t =>
      cases d' with
      | naive t' => cases hkind
      | aware t' => exact congrArg Datetime.aware hmicros

namespace DatedTransitions

variable {timeline : List Entry}

theorem exists_created (h : DatedTransitions fromisoformat label timeline) {entry : Entry}
    (hmem : entry ∈ timeline) (htransition : isTransition label entry) :
    ∃ d, created fromisoformat entry = some d := by
  obtain ⟨aware, hdated⟩ := h.dated
  exact (hdated entry hmem htransition).imp fun d hd => hd.1

/-- Two transitions of one time are one. -/
theorem eq_of_micros (h : DatedTransitions fromisoformat label timeline) {a b : Entry}
    {d d' : Datetime} (ha : a ∈ timeline) (hatr : isTransition label a) (hb : b ∈ timeline)
    (hbtr : isTransition label b) (hd : created fromisoformat a = some d)
    (hd' : created fromisoformat b = some d') (hmicros : d.micros = d'.micros) : a = b := by
  obtain ⟨aware, hdated⟩ := h.dated
  obtain ⟨e, he, hkind⟩ := hdated a ha hatr
  obtain ⟨e', he', hkind'⟩ := hdated b hb hbtr
  obtain rfl := Option.some.inj (hd.symm.trans he)
  obtain rfl := Option.some.inj (hd'.symm.trans he')
  obtain rfl := Datetime.eq_of_micros (hkind.trans hkind'.symm) hmicros
  exact List.inj_on_of_nodup_map h.distinct (mem_transitions.mpr ⟨ha, hatr⟩)
    (mem_transitions.mpr ⟨hb, hbtr⟩) (hd.trans hd'.symm)

/-- There is a latest transition, if there is one at all. -/
theorem exists_latest (h : DatedTransitions fromisoformat label timeline) {entry : Entry}
    (hentry : entry ∈ timeline) (htransition : isTransition label entry) :
    ∃ last ∈ timeline, isTransition label last ∧ ∃ d, created fromisoformat last = some d ∧
      ∀ other ∈ timeline, isTransition label other → ∀ d', created fromisoformat other = some d' →
        d'.micros ≤ d.micros := by
  let time (e : Entry) : Int := (created fromisoformat e).elim 0 Datetime.micros
  have htime : ∀ {e d}, created fromisoformat e = some d → time e = d.micros := by
    intro e d hd
    show (created fromisoformat e).elim 0 Datetime.micros = _
    rw [hd]
    rfl
  have hin := mem_transitions.mpr ⟨hentry, htransition⟩
  cases hlast : (timeline.filter (isTransition label)).argmax time with
  | none =>
      rw [List.argmax_eq_none.mp hlast] at hin
      cases hin
  | some last =>
      obtain ⟨hmem, hlasttr⟩ := mem_transitions.mp (List.argmax_mem hlast)
      obtain ⟨d, hd⟩ := h.exists_created hmem hlasttr
      refine ⟨last, hmem, hlasttr, d, hd, fun other hother hothertr d' hd' => ?_⟩
      have hle := List.le_of_mem_argmax (mem_transitions.mpr ⟨hother, hothertr⟩) hlast
      rwa [htime hd, htime hd'] at hle

end DatedTransitions

/-- Entries with the latest transition last decide as the latest transition does. -/
theorem verdict_iff {timeline entries : List Entry}
    (h : DatedTransitions fromisoformat label timeline) (hperm : entries.Perm timeline)
    (hlast : ∀ last ∈ (entries.filter (isTransition label)).getLast?, ∀ other ∈ timeline,
      isTransition label other → ∀ d d', created fromisoformat last = some d →
        created fromisoformat other = some d' → d'.micros ≤ d.micros) :
    verdict label permissions entries ↔ Authorized fromisoformat label permissions timeline := by
  rw [verdict]
  cases hentry : (entries.filter (isTransition label)).getLast? with
  | none =>
      constructor
      · intro hfalse
        cases hfalse
      · rintro ⟨entry, hmem, htransition, -⟩
        have hin : entry ∈ entries.filter (isTransition label) :=
          mem_transitions.mpr ⟨hperm.mem_iff.mpr hmem, htransition⟩
        rw [List.getLast?_eq_none_iff.mp hentry] at hin
        cases hin
  | some last =>
      obtain ⟨hmem, htransition⟩ := mem_transitions.mp (List.mem_of_getLast? hentry)
      have hmem := hperm.mem_iff.mp hmem
      obtain ⟨d', hd'⟩ := h.exists_created hmem htransition
      constructor
      · intro hgrants
        exact ⟨last, hmem, htransition, hgrants, d', hd',
          fun other hother hother' d hd => hlast last hentry other hother hother' d' d hd' hd⟩
      · rintro ⟨entry, hentry', hentrytr, hgrants, d, hd, hlatest⟩
        -- neither of the two is before the other
        have hle : d'.micros ≤ d.micros := hlatest last hmem htransition d' hd'
        have hge : d.micros ≤ d'.micros := hlast last hentry entry hentry' hentrytr d' d hd' hd
        rw [h.eq_of_micros hmem htransition hentry' hentrytr hd' hd (le_antisymm hle hge)]
        exact hgrants

/-- In every order in which the timeline is listed the latest transition decides. -/
def OrderFree (fromisoformat : Text → Option Datetime) (timeline : List Entry) (phase : Phase)
    (permissions : List (Text × Json)) : Prop :=
  ∀ listed : List Entry, listed.Perm timeline →
    ∃ b, phaseAuthorized fromisoformat listed phase permissions = .ok b ∧
      (b = true ↔ Authorized fromisoformat phase.label permissions timeline)

theorem Sortable.perm {timeline listed : List Entry} (h : Sortable fromisoformat timeline)
    (hperm : listed.Perm timeline) : Sortable fromisoformat listed := by
  obtain ⟨aware, haware⟩ := h
  exact ⟨aware, fun entry hentry => haware entry (hperm.mem_iff.mp hentry)⟩

theorem orderFree_of_sortable {timeline : List Entry} {phase : Phase}
    (h : DatedTransitions fromisoformat phase.label timeline)
    (hsortable : Sortable fromisoformat timeline) :
    OrderFree fromisoformat timeline phase permissions := by
  intro listed hperm
  obtain ⟨entries, hsort, hentries, hsorted⟩ := timelineSort_of_sortable (hsortable.perm hperm)
  refine ⟨verdict phase.label permissions entries, by rw [phaseAuthorized_eq, hsort]; rfl, ?_⟩
  have hall := hentries.trans hperm
  refine verdict_iff h hall fun last hlast other hother hother' d d' hd hd' => ?_
  obtain ⟨front, hfront⟩ := List.getLast?_eq_some_iff.mp hlast
  have hin : other ∈ front ++ [last] := by
    rw [← hfront]
    exact mem_transitions.mpr ⟨hall.mem_iff.mpr hother, hother'⟩
  rcases List.mem_append.mp hin with hin | hin
  · have htransitions := hsorted.filter (isTransition phase.label)
    rw [hfront] at htransitions
    obtain ⟨e', e, he', he, hle⟩ :=
      (List.pairwise_append.mp htransitions).2.2 other hin last (List.mem_singleton_self last)
    obtain rfl := Option.some.inj (hd.symm.trans he)
    obtain rfl := Option.some.inj (hd'.symm.trans he')
    exact hle
  · obtain rfl := List.mem_singleton.mp hin
    obtain rfl := Option.some.inj (hd.symm.trans hd')
    exact le_rfl

/-- Where an entry has no timestamp, the entries decide in the order they are listed in. -/
theorem phaseAuthorized_of_undated {listed : List Entry} {phase : Phase} {undated : Entry}
    (hmem : undated ∈ listed) (hundated : created fromisoformat undated = none) :
    phaseAuthorized fromisoformat listed phase permissions =
      .ok (verdict phase.label permissions listed) := by
  rw [phaseAuthorized_eq, timelineSort_of_undated hmem hundated]
  rfl

theorem orderFree_of_agree {timeline : List Entry} {phase : Phase}
    (h : DatedTransitions fromisoformat phase.label timeline) {undated : Entry}
    (hmem : undated ∈ timeline) (hundated : created fromisoformat undated = none)
    (hagree : Agree phase.label permissions timeline) :
    OrderFree fromisoformat timeline phase permissions := by
  intro listed hperm
  refine ⟨_, phaseAuthorized_of_undated (hperm.mem_iff.mpr hmem) hundated, ?_⟩
  rw [verdict]
  cases hlast : (listed.filter (isTransition phase.label)).getLast? with
  | none =>
      constructor
      · intro hfalse
        cases hfalse
      · rintro ⟨entry, hentry, htransition, -⟩
        have hin := mem_transitions.mpr ⟨hperm.mem_iff.mpr hentry, htransition⟩
        rw [List.getLast?_eq_none_iff.mp hlast] at hin
        cases hin
  | some last =>
      obtain ⟨hin, htransition⟩ := mem_transitions.mp (List.mem_of_getLast? hlast)
      have hin := hperm.mem_iff.mp hin
      constructor
      · intro hgrants
        obtain ⟨latest, hlatest, hlatesttr, hd⟩ := h.exists_latest hin htransition
        exact ⟨latest, hlatest, hlatesttr,
          (hagree last hin latest hlatest htransition hlatesttr).symm.trans hgrants, hd⟩
      · rintro ⟨entry, hentry, hentrytr, hgrants, -⟩
        exact (hagree last hin entry hentry htransition hentrytr).trans hgrants

/-- A transition that is listed last decides. -/
theorem verdict_append {entries : List Entry} {entry : Entry} (h : isTransition label entry) :
    verdict label permissions (entries ++ [entry]) = grants permissions entry := by
  rw [verdict, List.filter_append, List.filter_cons_of_pos h, List.filter_nil,
    List.getLast?_concat]

/-- Any transition can be listed last. -/
theorem OrderFree.grants_iff {timeline : List Entry} {phase : Phase} {undated entry : Entry}
    (horder : OrderFree fromisoformat timeline phase permissions) (hmem : undated ∈ timeline)
    (hundated : created fromisoformat undated = none) (hentry : entry ∈ timeline)
    (htransition : isTransition phase.label entry) :
    grants permissions entry = true ↔
      Authorized fromisoformat phase.label permissions timeline := by
  obtain ⟨front, back, rfl⟩ := List.append_of_mem hentry
  have hperm : (front ++ back ++ [entry]).Perm (front ++ entry :: back) :=
    (List.perm_append_singleton entry (front ++ back)).trans List.perm_middle.symm
  obtain ⟨b, hb, hiff⟩ := horder _ hperm
  rw [phaseAuthorized_of_undated (hperm.mem_iff.mpr hmem) hundated, Except.ok.injEq,
    verdict_append htransition] at hb
  rw [hb]
  exact hiff

end Authority

/-- **The latest transition decides in every order exactly if the timeline can be sorted or
its transitions agree.** A single entry without a timestamp leaves the whole timeline as it
is listed. -/
theorem orderFree_iff (fromisoformat : Text → Option Datetime) (timeline : List Entry)
    (phase : Phase) (permissions : List (Text × Json))
    (h : DatedTransitions fromisoformat phase.label timeline) :
    OrderFree fromisoformat timeline phase permissions ↔
      Sortable fromisoformat timeline ∨
        (∃ entry ∈ timeline, created fromisoformat entry = none) ∧
          Agree phase.label permissions timeline := by
  constructor
  · intro horder
    by_cases hall : ∀ entry ∈ timeline, ∃ d, created fromisoformat entry = some d
    · refine .inl (not_not.mp fun hnot => ?_)
      obtain ⟨error, herror⟩ := timelineSort_of_mixed hall hnot
      obtain ⟨b, hb, -⟩ := horder timeline (List.Perm.refl timeline)
      rw [phaseAuthorized_eq, herror] at hb
      cases hb
    · push Not at hall
      obtain ⟨undated, hmem, hundated⟩ := hall
      have hnone := Option.eq_none_iff_forall_ne_some.mpr hundated
      refine .inr ⟨⟨undated, hmem, hnone⟩, fun entry hentry other hother htr hothertr => ?_⟩
      have hiff := (horder.grants_iff hmem hnone hentry htr).trans
        (horder.grants_iff hmem hnone hother hothertr).symm
      exact Bool.eq_iff_iff.mpr hiff
  · rintro (hsortable | ⟨⟨undated, hmem, hundated⟩, hagree⟩)
    · exact orderFree_of_sortable h hsortable
    · exact orderFree_of_agree h hmem hundated hagree

/-! ## A timeline with a commit -/

namespace OrderExample

def digits? (t : Text) : Option Nat :=
  if t.all Char.isDigit then some (Nat.ofDigitChars 10 t 0) else none

def isLeap (year : Nat) : Bool := year % 4 = 0 ∧ (year % 100 ≠ 0 ∨ year % 400 = 0)

def daysOfMonths (year : Nat) : List Nat :=
  [31, if isLeap year then 29 else 28, 31, 30, 31, 30, 31, 31, 30, 31, 30, 31]

/-- Whole seconds at UTC, as `2026-01-31T23:59:59+00:00`. -/
def fromisoformat (t : Text) : Option Datetime := do
  let [y₀, y₁, y₂, y₃, '-', m₀, m₁, '-', d₀, d₁, 'T', h₀, h₁, ':', n₀, n₁, ':', s₀, s₁,
    '+', '0', '0', ':', '0', '0'] := t | none
  let year ← digits? [y₀, y₁, y₂, y₃]
  let month ← digits? [m₀, m₁]
  let day ← digits? [d₀, d₁]
  let hour ← digits? [h₀, h₁]
  let minute ← digits? [n₀, n₁]
  let second ← digits? [s₀, s₁]
  let length ← (daysOfMonths year)[month - 1]?
  if year = 0 ∨ month = 0 ∨ day = 0 ∨ length < day ∨ 24 ≤ hour ∨ 60 ≤ minute ∨ 60 ≤ second then
    none
  else
    let past := year - 1
    let days := past * 365 + past / 4 - past / 100 + past / 400 +
      ((daysOfMonths year).take (month - 1)).sum + (day - 1)
    some (.aware ((((days * 24 + hour) * 60 + minute) * 60 + second) * 1000000))

def entry (event created : String) : Entry :=
  [("event", .str event.toList), ("created_at", .str created.toList),
    ("label", .obj [("name", .str "prerelease:alpha".toList)]),
    ("actor", .obj [("login", .str "maintainer".toList)])]

def added : Entry := entry "labeled" "2026-01-01T00:00:00Z"

def removed : Entry := entry "unlabeled" "2026-01-02T00:00:00Z"

/-- A commit has no `created_at`. -/
def committed : Entry := [("event", .str "committed".toList)]

def maintainers : List (Text × Json) := [("maintainer".toList, .str "maintain".toList)]

theorem created_added : created fromisoformat added = some (.aware 63902822400000000) := by
  decide +kernel

theorem created_removed : created fromisoformat removed = some (.aware 63902908800000000) := by
  decide +kernel

theorem datedTransitions {timeline : List Entry}
    (hsub : timeline ⊆ [added, removed, committed])
    (hdistinct : ((timeline.filter (isTransition Phase.alpha.label)).map
      (created fromisoformat)).Nodup) :
    DatedTransitions fromisoformat Phase.alpha.label timeline := by
  refine ⟨⟨true, fun entry hentry htransition => ?_⟩, hdistinct⟩
  rcases List.mem_cons.mp (hsub hentry) with rfl | hentry
  · exact ⟨_, created_added, rfl⟩
  rcases List.mem_cons.mp hentry with rfl | hentry
  · exact ⟨_, created_removed, rfl⟩
  obtain rfl := List.mem_singleton.mp hentry
  have hnot : isTransition Phase.alpha.label committed = false := by decide +kernel
  rw [hnot] at htransition
  cases htransition

end OrderExample

open OrderExample in
theorem orderFree_two_transitions :
    OrderFree fromisoformat [added, removed] .alpha maintainers :=
  (orderFree_iff fromisoformat [added, removed] .alpha maintainers
    (datedTransitions (List.prefix_append [added, removed] [committed]).subset
      (by decide +kernel))).mpr
    (.inl ⟨true, List.forall_mem_cons.mpr ⟨⟨_, created_added, rfl⟩,
      List.forall_mem_singleton.mpr ⟨_, created_removed, rfl⟩⟩⟩)

open OrderExample in
/-- The label is removed on the second day. The commit keeps the order in which the two
days are listed, and the answer is that of the one listed last. -/
theorem order_decides_with_commit :
    DatedTransitions fromisoformat Phase.alpha.label [removed, added, committed] ∧
      phaseAuthorized fromisoformat [removed, added, committed] .alpha maintainers = .ok true ∧
      phaseAuthorized fromisoformat [added, removed, committed] .alpha maintainers = .ok false ∧
      ¬ Authorized fromisoformat Phase.alpha.label maintainers [removed, added, committed] := by
  have hperm : [removed, added, committed].Perm [added, removed, committed] :=
    List.Perm.swap added removed [committed]
  refine ⟨datedTransitions hperm.subset (by decide +kernel), by decide +kernel,
    by decide +kernel, ?_⟩
  rintro ⟨entry, hentry, htransition, hgrants, d, hd, hlatest⟩
  rcases List.mem_cons.mp (hperm.subset hentry) with rfl | hentry
  · have hle := hlatest removed List.mem_cons_self (by decide +kernel) _ created_removed
    obtain rfl := Option.some.inj (hd.symm.trans created_added)
    exact absurd hle (by decide)
  · have hnot : grants maintainers removed = false ∧ grants maintainers committed = false := by
      decide +kernel
    rcases List.mem_pair.mp hentry with rfl | rfl
    · rw [hnot.1] at hgrants
      cases hgrants
    · rw [hnot.2] at hgrants
      cases hgrants

end GelCli.Release
