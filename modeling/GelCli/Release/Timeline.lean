import Mathlib.Data.List.Induction
import GelCli.Release.PullRequest

/-!
# The authority of a phase label

`phase_authorized` of `github_release.py`: whether the latest transition of a phase
label in the timeline of a pull request added it, and by somebody who may. A timeline is
sorted by its timestamps only if every entry has one that is valid.
-/

namespace GelCli.Release

open GelCli.Foundation

/-- An entry of a timeline, as an object. -/
abbrev Entry := List (String × Json)

/-- What `datetime.fromisoformat` returns; only aware values are instants. -/
inductive Datetime where
  | naive (micros : Int)
  | aware (micros : Int)
deriving DecidableEq, Repr

namespace Datetime

def isAware : Datetime → Bool
  | naive _ => false
  | aware _ => true

def micros : Datetime → Int
  | naive t => t
  | aware t => t

end Datetime

/-! ## Reading an entry -/

/-- `entry.get(key, entry.get(other))` -/
def Entry.getOr (entry : Entry) (key other : String) : Json :=
  (entry.lookup key).getD ((entry.lookup other).getD .null)

/-- `created.replace("Z", "+00:00")` -/
def replaceZulu (t : Text) : Text := t.flatMap fun c => if c = 'Z' then "+00:00".toList else [c]

def labeled : Text := "labeled".toList

def unlabeled : Text := "unlabeled".toList

def timelineLabel (entry : Entry) : Option Text := labelName ((Json.obj entry).get "label")

def timelineActor (entry : Entry) : Option Text × Option Text :=
  let actor := entry.getOr "actor" "user"
  ((actor.get "login").str?, (actor.get "type").str?)

/-- `str.lower`; no other character is lowered to a letter of the words it is compared
with. -/
def lower (t : Text) : Text := t.map Char.toLower

def permissionOf : Json → Option Text
  | .obj fields => ((Json.obj fields).get "permission").str?.map lower
  | value => value.str?.map lower

def authorizedPermissions : List Text := ["write".toList, "maintain".toList, "admin".toList]

/-- The test on the latest actor. -/
def actorAuthorized (permissions : List (Text × Json)) (actor : Option Text × Option Text) : Bool :=
  match actor.1 with
  | none => false
  | some login =>
      if login = [] ∨ actor.2.map lower = some "bot".toList ∨ "[bot]".toList <:+ login then false
      else
        match permissionOf ((permissions.lookup login).getD .null) with
        | some permission => authorizedPermissions.contains permission
        | none => false

/-! ## The timeline -/

section Sorting

variable (fromisoformat : Text → Option Datetime)

def created (entry : Entry) : Option Datetime :=
  match entry.lookup "created_at" with
  | some (.str created) => fromisoformat (replaceZulu created)
  | _ => none

/-- `parsed.sort`, by the timestamps and then by the places: a stable sort. It compares
two values of different kinds if there are any, which raises. -/
def sortDated (parsed : List (Datetime × Entry)) : Except String (List (Datetime × Entry)) :=
  if parsed.any (fun x => x.1.isAware) && parsed.any (fun x => !x.1.isAware) then
    .error "can't compare offset-naive and offset-aware datetimes"
  else .ok (parsed.mergeSort fun a b => a.1.micros ≤ b.1.micros)

def timelineSort (timeline : List Entry) : Except String (List Entry) :=
  match timeline.mapM fun entry => (created fromisoformat entry).map fun d => (d, entry) with
  | none => .ok timeline
  | some parsed => (sortDated parsed).map (List.map Prod.snd)

/-- One turn of the loop over the sorted entries. -/
def latestActor (label : Text) (latest : Option (Option Text × Option Text)) (entry : Entry) :
    Option (Option Text × Option Text) :=
  if timelineLabel entry ≠ some label then latest
  else
    match (entry.getOr "event" "type").str? with
    | some event =>
        if event = unlabeled then none
        else if event = labeled then some (timelineActor entry)
        else latest
    | none => latest

def phaseAuthorized (timeline : List Entry) (phase : Phase) (permissions : List (Text × Json)) :
    Except String Bool := do
  let entries ← timelineSort fromisoformat timeline
  return match entries.foldl (latestActor phase.label) none with
    | none => false
    | some actor => actorAuthorized permissions actor

end Sorting

/-! ## Transitions -/

def Entry.event (entry : Entry) : Option Text := (entry.getOr "event" "type").str?

/-- A labeled or unlabeled event for the label. -/
def isTransition (label : Text) (entry : Entry) : Bool :=
  timelineLabel entry = some label ∧
    (entry.event = some labeled ∨ entry.event = some unlabeled)

/-- A labeled event of an authorized actor who is no bot. -/
def grants (permissions : List (Text × Json)) (entry : Entry) : Bool :=
  entry.event = some labeled ∧ actorAuthorized permissions (timelineActor entry)

/-- What the entries decide in the order they are in. -/
def verdict (label : Text) (permissions : List (Text × Json)) (entries : List Entry) : Bool :=
  match (entries.filter (isTransition label)).getLast? with
  | none => false
  | some entry => grants permissions entry

theorem labeled_ne_unlabeled : labeled ≠ unlabeled := by decide

theorem latestActor_eq {label : Text} {latest : Option (Option Text × Option Text)}
    {entry : Entry} : latestActor label latest entry =
      if isTransition label entry then
        if entry.event = some labeled then some (timelineActor entry) else none
      else latest := by
  unfold latestActor isTransition
  change (if timelineLabel entry ≠ some label then latest else match entry.event with
    | some event => _
    | none => latest) = _
  by_cases hlabel : timelineLabel entry = some label
  · rw [if_neg (not_not.mpr hlabel)]
    cases hevent : entry.event with
    | none => simp
    | some event =>
        by_cases hun : event = unlabeled
        · subst hun
          simp [hlabel, labeled_ne_unlabeled.symm]
        · by_cases hlab : event = labeled
          · subst hlab
            simp [hlabel, labeled_ne_unlabeled]
          · simp [hun, hlab]
  · simp [hlabel]

theorem foldl_latestActor (label : Text) (entries : List Entry) :
    entries.foldl (latestActor label) none =
      ((entries.filter (isTransition label)).getLast?).bind fun entry =>
        if entry.event = some labeled then some (timelineActor entry) else none := by
  induction entries using List.reverseRecOn with
  | nil => rfl
  | append_singleton entries entry ih =>
      rw [List.foldl_append, List.foldl_cons, List.foldl_nil, latestActor_eq, List.filter_append]
      by_cases h : isTransition label entry
      · simp [h]
      · simp [h, ih]

/-- The loop comes to the verdict of the sorted entries. -/
theorem phaseAuthorized_eq {fromisoformat : Text → Option Datetime} {timeline : List Entry}
    {phase : Phase} {permissions : List (Text × Json)} :
    phaseAuthorized fromisoformat timeline phase permissions =
      (timelineSort fromisoformat timeline).map (verdict phase.label permissions) := by
  rw [phaseAuthorized]
  cases timelineSort fromisoformat timeline with
  | error e => rfl
  | ok entries =>
      show Except.ok _ = Except.ok _
      rw [foldl_latestActor, verdict]
      cases (entries.filter (isTransition phase.label)).getLast? with
      | none => rfl
      | some entry =>
          by_cases h : entry.event = some labeled
          · simp [grants, h]
          · simp [grants, h]

end GelCli.Release
