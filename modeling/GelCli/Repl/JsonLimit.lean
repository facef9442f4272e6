import GelCli.Foundation.Decimal
import GelCli.Foundation.JsonText

/-!
# The limit of JSON results

`check_json_limit` of `src/interactive.rs`. The path is one buffer: the loops write a
step at its end and cut it back behind the call for the value there.
-/

namespace GelCli.Repl

open GelCli.Foundation

variable {N : Type}

/-- `[{idx}]` -/
def indexStep (idx : Nat) : Text := '[' :: Decimal.ofNat idx ++ [']']

/-- `.{key}` -/
def keyStep (key : String) : Text := '.' :: key.toList

mutual

/-- `_check_json_limit` and the path that it leaves. -/
def checkLevel (limit : Nat) : JsonValue N → Text → Bool × Text
  | .array items, path =>
      if items.length > limit then (false, path)
      else (true, checkItems limit path.length 0 items path)
  | .object pairs, path => (true, checkPairs limit path.length pairs path)
  | _, path => (true, path)

/-- What the calls return is not looked at. -/
def checkItems (limit level : Nat) : Nat → List (JsonValue N) → Text → Text
  | _, [], path => path
  | idx, item :: items, path =>
      checkItems limit level (idx + 1) items
        ((checkLevel limit item (path ++ indexStep idx)).2.take level)

def checkPairs (limit level : Nat) : List (String × JsonValue N) → Text → Text
  | [], path => path
  | (key, value) :: pairs, path =>
      checkPairs limit level pairs
        ((checkLevel limit value (path ++ keyStep key)).2.take level)

end

/-- `print_json_limit_error` -/
def jsonLimitError (path : Text) : Text :=
  "Error: Cannot render JSON result: ".toList ++ (if path = [] then ['.'] else path) ++
    (" is too long. Consider adding an explicit `limit` clause, " ++
      "or increasing the implicit limit using `\\set limit`.").toList

/-- The result, and what is printed before it. -/
def checkJsonLimit (json : JsonValue N) (path : Text) (limit : Nat) : Bool × Option Text :=
  match checkLevel limit json path with
  | (false, pathBuf) => (false, some (jsonLimitError pathBuf))
  | (true, _) => (true, none)

/-! ## The path -/

section Path

variable {limit : Nat}

mutual

/-- The path is left as it was. -/
theorem path_checkLevel (json : JsonValue N) (path : Text) :
    (checkLevel limit json path).2 = path := by
  cases json with
  | array items =>
      rw [checkLevel]
      split
      · rfl
      · exact path_checkItems items 0 path
  | object pairs => exact path_checkPairs pairs path
  | null => rfl
  | bool b => rfl
  | number n => rfl
  | string s => rfl

theorem path_checkItems (items : List (JsonValue N)) (idx : Nat) (path : Text) :
    checkItems limit path.length idx items path = path := by
  cases items with
  | nil => rw [checkItems]
  | cons item items =>
      rw [checkItems, path_checkLevel item, List.take_left]
      exact path_checkItems items (idx + 1) path

theorem path_checkPairs (pairs : List (String × JsonValue N)) (path : Text) :
    checkPairs limit path.length pairs path = path := by
  cases pairs with
  | nil => rw [checkPairs]
  | cons pair pairs =>
      obtain ⟨key, value⟩ := pair
      rw [checkPairs, path_checkLevel value, List.take_left]
      exact path_checkPairs pairs path

end

end Path

/-! ## What it is for -/

/-- The values of a document by the paths to them. -/
inductive At : JsonValue N → Text → JsonValue N → Prop where
  | here {json : JsonValue N} : At json [] json
  | item {items : List (JsonValue N)} {idx : Nat} {item json : JsonValue N} {path : Text}
      (hitem : items[idx]? = some item) (h : At item path json) :
      At (.array items) (indexStep idx ++ path) json
  | pair {pairs : List (String × JsonValue N)} {key : String} {value json : JsonValue N}
      {path : Text} (hpair : (key, value) ∈ pairs) (h : At value path json) :
      At (.object pairs) (keyStep key ++ path) json

/-- An array with more elements than the limit. -/
def TooLong (limit : Nat) : JsonValue N → Prop
  | .array items => limit < items.length
  | _ => False

/-- The check is about all arrays of the document, and the path in front of the error
leads to one that is too long. -/
structure SeesAll (json : JsonValue N) (path : Text) (limit : Nat) : Prop where
  fails_iff : (checkJsonLimit json path limit).1 = false ↔
    ∃ rest array, At json rest array ∧ TooLong limit array
  leads : ∀ message, (checkJsonLimit json path limit).2 = some message →
    ∃ rest array, message = jsonLimitError (path ++ rest) ∧ At json rest array ∧
      TooLong limit array

/-! ## What is seen -/

theorem checkLevel_eq_false {limit : Nat} {json : JsonValue N} {path : Text} :
    (checkLevel limit json path).1 = false ↔ TooLong limit json := by
  cases json with
  | array items =>
      rw [checkLevel, TooLong]
      split
      · next hlong => exact iff_of_true rfl hlong
      · next hlong => exact iff_of_false (by simp) hlong
  | object pairs => exact iff_of_false (by simp [checkLevel]) id
  | null => exact iff_of_false (by simp [checkLevel]) id
  | bool b => exact iff_of_false (by simp [checkLevel]) id
  | number n => exact iff_of_false (by simp [checkLevel]) id
  | string s => exact iff_of_false (by simp [checkLevel]) id

theorem checkJsonLimit_of_tooLong {limit : Nat} {json : JsonValue N} (path : Text)
    (h : TooLong limit json) :
    checkJsonLimit json path limit = (false, some (jsonLimitError path)) := by
  have hlevel : checkLevel limit json path = (false, path) :=
    Prod.ext (checkLevel_eq_false.mpr h) (path_checkLevel json path)
  rw [checkJsonLimit, hlevel]

theorem checkJsonLimit_of_not_tooLong {limit : Nat} {json : JsonValue N} (path : Text)
    (h : ¬ TooLong limit json) : checkJsonLimit json path limit = (true, none) := by
  have hlevel : checkLevel limit json path = (true, path) := by
    refine Prod.ext ?_ (path_checkLevel json path)
    rw [← Bool.not_eq_false, checkLevel_eq_false]
    exact h
  rw [checkJsonLimit, hlevel]

/-- **Which documents are seen whole**: those that are too long themselves, and those
without any array that is. -/
theorem seesAll_iff (json : JsonValue N) (path : Text) (limit : Nat) :
    SeesAll json path limit ↔
      (∃ rest array, At json rest array ∧ TooLong limit array) → TooLong limit json := by
  constructor
  · rintro ⟨hfails, -⟩ harray
    by_contra h
    have htrue := hfails.mpr harray
    rw [checkJsonLimit_of_not_tooLong path h] at htrue
    cases htrue
  · intro h
    by_cases hlong : TooLong limit json
    · refine ⟨?_, ?_⟩
      · rw [checkJsonLimit_of_tooLong path hlong]
        exact iff_of_true rfl ⟨[], json, .here, hlong⟩
      · rw [checkJsonLimit_of_tooLong path hlong]
        intro message hmessage
        refine ⟨[], json, ?_, .here, hlong⟩
        rw [List.append_nil]
        exact (Option.some.inj hmessage).symm
    · refine ⟨?_, ?_⟩
      · rw [checkJsonLimit_of_not_tooLong path hlong]
        exact iff_of_false (by simp) fun harray => hlong (h harray)
      · rw [checkJsonLimit_of_not_tooLong path hlong]
        intro message hmessage
        cases hmessage

/-- One item that is an array of two. -/
def nestedArray : JsonValue Nat := .array [.array [.number 1, .number 2]]

theorem not_seesAll_nestedArray :
    ¬ ∀ (json : JsonValue Nat) (path : Text) (limit : Nat), SeesAll json path limit := by
  intro h
  have hfalse : (checkJsonLimit nestedArray [] 1).1 = false :=
    (h nestedArray [] 1).fails_iff.mpr
      ⟨indexStep 0 ++ [], .array [.number 1, .number 2], .item rfl .here, Nat.lt_succ_self 1⟩
  have hroot : ¬ TooLong 1 nestedArray := Nat.lt_irrefl 1
  have htrue : (checkJsonLimit nestedArray [] 1).1 = true := by
    rw [checkJsonLimit_of_not_tooLong [] hroot]
  rw [hfalse] at htrue
  cases htrue

end GelCli.Repl
