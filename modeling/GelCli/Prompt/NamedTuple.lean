import Mathlib.Data.List.DropRight
import Mathlib.Data.List.Nodup
import Mathlib.Data.List.Perm.Subperm
import GelCli.Prompt.Boundaries

/-!
# Named tuples in any order

The input of a named tuple writes its elements in any order, and the value has them in the
order of the shape. How the elements stand in the input is said apart from the parser; the
parser accepts what is written so, if each name of the shape is written once.
-/

namespace GelCli.Prompt

open GelCli.Foundation

/-! ## Lists with a trailing separator -/

section Lists

variable {α β : Type} {sep : Parser β} {f : Parser α} {body place mid rest : Text}
  {values result : List α}

/-- Behind these elements and a separator behind each of them. -/
inductive After (sep : Parser β) (f : Parser α) (body : Text) : List α → Text → Prop where
  | start : After sep f body [] body
  | step {values : List α} {place mid next : Text} {value : α} {separator : β}
      (h : After sep f body values place) (hvalue : f place = .ok mid value)
      (hsep : sep mid = .ok next separator) (hlength : next.length ≠ mid.length) :
      After sep f body (values ++ [value]) next

/-- The list ends behind a separator, or behind an element. -/
inductive Ends (sep : Parser β) (f : Parser α) (body : Text) : List α → Text → Prop where
  | separator {values : List α} {place : Text} {e : ParsingError}
      (h : After sep f body values place) (hvalue : f place = .error e) :
      Ends sep f body values place
  | element {values : List α} {place rest : Text} {value : α} {e : ParsingError}
      (h : After sep f body values place) (hvalue : f place = .ok rest value)
      (hsep : sep rest = .error e) : Ends sep f body (values ++ [value]) rest

theorem separatedTurns_turn {turns : Nat} {next : Text} {separator : β}
    (hsep : sep mid = .ok next separator) (hlength : next.length ≠ mid.length) :
    separatedTurns sep f (turns + 1) mid values =
      match f next with
      | .error _ => .ok mid values
      | .failure e => .failure e
      | .panic => .panic
      | .ok rest value => separatedTurns sep f turns rest (values ++ [value]) := by
  rw [separatedTurns, hsep]
  exact if_neg hlength

theorem separatedTurns_stop {turns : Nat} {e : ParsingError} (hsep : sep mid = .error e) :
    separatedTurns sep f (turns + 1) mid values = .ok mid values := by
  rw [separatedTurns, hsep]

/-- The turns that are left when the list has come to an element. -/
theorem separatedList0_after (hsep : Stays True sep) (hf : Stays True f) {value : α}
    (h : After sep f body values place) (hvalue : f place = .ok mid value) :
    ∃ turns, mid.length < turns ∧
      separatedList0 sep f body = separatedTurns sep f turns mid (values ++ [value]) := by
  induction h generalizing mid value with
  | start =>
      have hlength := (hf.suffix hvalue).length_le
      refine ⟨body.length + 1, by omega, ?_⟩
      rw [separatedList0, hvalue]
      rfl
  | step _ hvalue' hseparator hlength ih =>
      obtain ⟨turns, hturns, heq⟩ := ih hvalue'
      have hnext := (hsep.suffix hseparator).length_le
      have hmid := (hf.suffix hvalue).length_le
      obtain ⟨turns, rfl⟩ := Nat.exists_eq_succ_of_ne_zero (Nat.ne_zero_of_lt hturns)
      refine ⟨turns, by omega, ?_⟩
      rw [heq, separatedTurns_turn hseparator hlength, hvalue]

/-- Where the turns end. -/
theorem separatedTurns_ends {turns : Nat} {value : α} (h : After sep f body values place)
    (hvalue : f place = .ok mid value)
    (hok : separatedTurns sep f turns mid (values ++ [value]) = .ok rest result) :
    ∃ values' value' place', result = values' ++ [value'] ∧ After sep f body values' place' ∧
      f place' = .ok rest value' ∧ ((∃ e, sep rest = .error e) ∨
        ∃ next separator e, sep rest = .ok next separator ∧ next.length ≠ rest.length ∧
          f next = .error e) := by
  induction turns generalizing values value place mid with
  | zero => cases hok
  | succ turns ih =>
      cases hsep : sep mid with
      | error e =>
          rw [separatedTurns_stop hsep] at hok
          cases hok
          exact ⟨values, value, place, rfl, h, hvalue, .inl ⟨e, hsep⟩⟩
      | ok next separator =>
          by_cases hlength : next.length = mid.length
          · rw [separatedTurns, hsep] at hok
            simp only [hlength, if_true] at hok
            cases hok
          · rw [separatedTurns_turn hsep hlength] at hok
            cases hnext : f next with
            | error e =>
                rw [hnext] at hok
                cases hok
                exact ⟨values, value, place, rfl, h, hvalue,
                  .inr ⟨next, separator, e, hsep, hlength, hnext⟩⟩
            | ok mid' value' =>
                rw [hnext] at hok
                exact ih (.step h hvalue hsep hlength) hnext hok
            | failure e =>
                rw [hnext] at hok
                cases hok
            | panic =>
                rw [hnext] at hok
                cases hok
      | failure e =>
          rw [separatedTurns, hsep] at hok
          cases hok
      | panic =>
          rw [separatedTurns, hsep] at hok
          cases hok

/-- The separator that may stand behind the last element. -/
theorem trailing_eq (values : List α) (value : α) (mid : Text) :
    ((cond (!(values ++ [value]).isEmpty) (opt sep) mid).next fun rest _ =>
        .ok rest (values ++ [value])) =
      match sep mid with
      | .ok rest _ => .ok rest (values ++ [value])
      | .error _ => .ok mid (values ++ [value])
      | .failure e => .failure e
      | .panic => .panic := by
  have hsome : (!(values ++ [value]).isEmpty) = true := by simp
  rw [hsome]
  simp only [cond, if_true, map, opt]
  cases sep mid <;> rfl

theorem trailingSeparatedList0_of_ends (hsep : Stays True sep) (hf : Stays True f)
    (h : Ends sep f body values rest) : trailingSeparatedList0 sep f body = .ok rest values := by
  cases h with
  | separator h hvalue =>
      cases h with
      | start =>
          rw [trailingSeparatedList0, separatedList0, hvalue]
          rfl
      | step h hvalue' hseparator hlength =>
          obtain ⟨turns, hturns, heq⟩ := separatedList0_after hsep hf h hvalue'
          obtain ⟨turns, rfl⟩ := Nat.exists_eq_succ_of_ne_zero (Nat.ne_zero_of_lt hturns)
          rw [trailingSeparatedList0, heq, separatedTurns_turn hseparator hlength, hvalue]
          exact (trailing_eq _ _ _).trans (by rw [hseparator])
  | element h hvalue hstop =>
      obtain ⟨turns, hturns, heq⟩ := separatedList0_after hsep hf h hvalue
      obtain ⟨turns, rfl⟩ := Nat.exists_eq_succ_of_ne_zero (Nat.ne_zero_of_lt hturns)
      rw [trailingSeparatedList0, heq, separatedTurns_stop hstop]
      exact (trailing_eq _ _ _).trans (by rw [hstop])

theorem ends_of_trailingSeparatedList0
    (h : trailingSeparatedList0 sep f body = .ok rest values) : Ends sep f body values rest := by
  obtain ⟨mid, result, hlist, htrailing⟩ := next_eq_ok.mp h
  rw [separatedList0] at hlist
  cases hvalue : f body with
  | error e =>
      rw [hvalue] at hlist
      cases hlist
      cases htrailing
      exact .separator .start hvalue
  | ok mid' value =>
      rw [hvalue] at hlist
      obtain ⟨values', value', place, rfl, hafter, hvalue', hstop⟩ :=
        separatedTurns_ends .start hvalue hlist
      rw [trailing_eq] at htrailing
      rcases hstop with ⟨e, hstop⟩ | ⟨next, separator, e, hsep, hlength, hnext⟩
      · rw [hstop] at htrailing
        cases htrailing
        exact .element hafter hvalue' hstop
      · rw [hsep] at htrailing
        cases htrailing
        exact .separator (.step hafter hvalue' hsep hlength) hnext
  | failure e =>
      rw [hvalue] at hlist
      cases hlist
  | panic =>
      rw [hvalue] at hlist
      cases hlist

theorem trailingSeparatedList0_eq_ok (hsep : Stays True sep) (hf : Stays True f) :
    trailingSeparatedList0 sep f body = .ok rest values ↔ Ends sep f body values rest :=
  ⟨ends_of_trailingSeparatedList0, trailingSeparatedList0_of_ends hsep hf⟩

end Lists

/-! ## Between blanks -/

def skipBlanks (t : Text) : Text :=
  t.dropWhile fun c => c = ' ' || c = '\t' || c = '\r' || c = '\n'

section Blanks

variable {α : Type} {parser : Parser α} {input rest : Text} {value : α}

theorem skipBlanks_skipBlanks (t : Text) : skipBlanks (skipBlanks t) = skipBlanks t :=
  List.dropWhile_idempotent _ _

theorem whiteSpace_eq_ok : whiteSpace parser input = .ok rest value ↔
    ∃ mid, parser (skipBlanks input) = .ok mid value ∧ skipBlanks mid = rest := by
  rw [whiteSpace, preceded_eq_ok]
  constructor
  · rintro ⟨place, _, hplace, h⟩
    cases hplace
    obtain ⟨mid, _, hparser, hmid⟩ := terminated_eq_ok.mp h
    cases hmid
    exact ⟨mid, hparser, rfl⟩
  · rintro ⟨mid, hparser, rfl⟩
    exact ⟨_, _, rfl, terminated_eq_ok.mpr ⟨mid, _, hparser, rfl⟩⟩

theorem whiteSpace_error {e : ParsingError} (h : parser (skipBlanks input) = .error e) :
    whiteSpace parser input = .error e := by
  show (preceded multispace0 (terminated parser multispace0)) input = _
  have hparser : terminated parser multispace0 (skipBlanks input) = .error e := by
    rw [terminated, h]
    rfl
  exact hparser

theorem whiteSpace_char {c : Char} {u : Unit} : whiteSpace (char c) input = .ok rest u ↔
    ∃ more, skipBlanks input = c :: more ∧ skipBlanks more = rest := by
  rw [whiteSpace_eq_ok]
  simp only [char_eq_ok]

theorem closing_eq_ok {c : Char} {u : Unit} :
    preceded multispace0 (char c) input = .ok rest u ↔ skipBlanks input = c :: rest := by
  rw [preceded_eq_ok]
  constructor
  · rintro ⟨mid, _, hmid, h⟩
    cases hmid
    exact char_eq_ok.mp h
  · exact fun h => ⟨_, _, rfl, char_eq_ok.mpr h⟩

theorem char_error {c : Char} (h : ∀ more, input ≠ c :: more) : ∃ e, char c input = .error e := by
  cases input with
  | nil => exact ⟨_, rfl⟩
  | cons d input =>
      have hne : d ≠ c := fun heq => h input (by rw [heq])
      exact ⟨_, if_neg hne⟩

theorem comma_error (h : ∀ more, skipBlanks input ≠ ',' :: more) : ∃ e, comma input = .error e := by
  obtain ⟨e, he⟩ := char_error h
  exact ⟨e, whiteSpace_error he⟩

theorem closing_error {c : Char} (h : ∀ more, skipBlanks input ≠ c :: more) :
    ∃ e, preceded multispace0 (char c) input = .error e := by
  obtain ⟨e, he⟩ := char_error h
  exact ⟨e, he⟩

end Blanks

/-! ## Elements -/

/-- An element as it is written: its name, the text that its value is read from, and the
value. -/
structure Field (V : Type) where
  name : Text
  text : Text
  value : Value V

section Elements

variable {V : Type} (lib : Library V) (elements : List (Text × VarType))

/-- The name at the front of a text. -/
def identAt (place : Text) : Text := (skipBlanks place).takeWhile isIdent

/-- At `place` there is a name, an assignment, and a value that leaves `rest`. -/
def ReadsField (place : Text) (field : Field V) (rest : Text) : Prop :=
  field.name = identAt place ∧
    (∃ more, skipBlanks ((skipBlanks place).dropWhile isIdent) = ':' :: '=' :: more ∧
      skipBlanks more = field.text) ∧
    ∃ parser, parserOf lib elements field.name = some parser ∧
      parser field.text = .ok rest field.value

/-- Behind these elements and a comma behind each of them. -/
inductive AfterFields (body : Text) : List (Field V) → Text → Prop where
  | start : AfterFields body [] body
  | step {fields : List (Field V)} {place rest more : Text} {field : Field V}
      (h : AfterFields body fields place) (hfield : ReadsField lib elements place field rest)
      (hcomma : skipBlanks rest = ',' :: more) :
      AfterFields body (fields ++ [field]) (skipBlanks more)

/-- In parentheses, with a comma behind the last element or without one. -/
inductive WrittenAs (input : Text) : List (Field V) → Text → Prop where
  | trailing {opened place rest : Text} {fields : List (Field V)}
      (hopen : skipBlanks input = '(' :: opened)
      (h : AfterFields lib elements (skipBlanks opened) fields place)
      (hclose : skipBlanks place = ')' :: rest) : WrittenAs input fields rest
  | element {opened place mid rest : Text} {fields : List (Field V)} {field : Field V}
      (hopen : skipBlanks input = '(' :: opened)
      (h : AfterFields lib elements (skipBlanks opened) fields place)
      (hfield : ReadsField lib elements place field mid)
      (hclose : skipBlanks mid = ')' :: rest) : WrittenAs input (fields ++ [field]) rest

/-- Behind some elements a name is written that is none of the shape. -/
def UsesUnknown (input : Text) : Prop :=
  ∃ opened fields place, skipBlanks input = '(' :: opened ∧
    AfterFields lib elements (skipBlanks opened) fields place ∧
    identAt place ≠ [] ∧ identAt place ∉ elements.map Prod.fst

end Elements

section Fields

variable {V : Type} {lib : Library V} {elements : List (Text × VarType)} {place rest : Text}

/-- Where the names are distinct, each has the parser of its own type. -/
theorem parserOf_of_mem (hnodup : (elements.map Prod.fst).Nodup) {element : Text × VarType}
    (h : element ∈ elements) :
    parserOf lib elements element.1 = some (parse lib element.2 true) := by
  induction elements with
  | nil => cases h
  | cons first elements ih =>
      obtain ⟨hnot, hnodup⟩ := List.nodup_cons.mp hnodup
      rw [parserOf]
      rcases List.mem_cons.mp h with rfl | h
      · cases hlast : parserOf lib elements element.1 with
        | some parser => exact absurd (mem_of_parserOf lib hlast) hnot
        | none => exact if_pos rfl
      · rw [ih hnodup h]

theorem identifier_eq_ok {α : Type} {names : List Text} {get : Text → Option α}
    {element : Text × α} :
    identifier names get place = .ok rest element ↔
      get (place.takeWhile isIdent) = some element.2 ∧ element.1 = place.takeWhile isIdent ∧
        rest = place.dropWhile isIdent := by
  rw [identifier, next_eq_ok]
  constructor
  · rintro ⟨mid, ident, htake, h⟩
    cases htake
    cases hget : get (place.takeWhile isIdent) with
    | some parser =>
        rw [hget] at h
        cases h
        exact ⟨rfl, rfl, rfl⟩
    | none =>
        rw [hget] at h
        cases h
  · rintro ⟨hget, hname, rfl⟩
    refine ⟨_, _, rfl, ?_⟩
    rw [hget, ← hname]

theorem tag_assign {t : Text} {u : Text} :
    tag ":=".toList t = .ok rest u ↔ t = ':' :: '=' :: rest ∧ u = ":=".toList := by
  rw [tag]
  split
  · next h =>
    obtain ⟨more, rfl⟩ := List.isPrefixOf_iff_prefix.mp h
    constructor
    · intro heq
      cases heq
      exact ⟨rfl, rfl⟩
    · rintro ⟨heq, rfl⟩
      rw [List.append_cancel_left heq]
      rfl
  · next h =>
    constructor
    · intro heq
      cases heq
    · rintro ⟨rfl, -⟩
      exact absurd (List.isPrefixOf_iff_prefix.mpr ⟨rest, rfl⟩) h

theorem fieldName_eq_ok {names : List Text} {get : Text → Option (Parser (Value V))}
    {element : Text × Parser (Value V)} :
    fieldName names get place = .ok rest element ↔
      get (identAt place) = some element.2 ∧ element.1 = identAt place ∧
        ∃ more, skipBlanks ((skipBlanks place).dropWhile isIdent) = ':' :: '=' :: more ∧
          skipBlanks more = rest := by
  rw [fieldName, terminated_eq_ok]
  simp only [context_eq_ok, whiteSpace_eq_ok, identifier_eq_ok, tag_assign]
  constructor
  · rintro ⟨_, u, ⟨_, ⟨hget, hname, rfl⟩, rfl⟩, more, ⟨hassign, -⟩, hrest⟩
    rw [skipBlanks_skipBlanks] at hassign
    exact ⟨hget, hname, more, hassign, hrest⟩
  · rintro ⟨hget, hname, more, hassign, hrest⟩
    refine ⟨_, _, ⟨_, ⟨hget, hname, rfl⟩, rfl⟩, more, ⟨?_, rfl⟩, hrest⟩
    rw [skipBlanks_skipBlanks]
    exact hassign

theorem parseField_eq_ok {result : Text × Value V} :
    parseField (elements.map Prod.fst) (parserOf lib elements) place = .ok rest result ↔
      ∃ field, ReadsField lib elements place field rest ∧ result = (field.name, field.value) := by
  rw [parseField, next_eq_ok]
  simp only [next_eq_ok, context_eq_ok, fieldName_eq_ok]
  constructor
  · rintro ⟨text, element, ⟨hget, hname, hassign⟩, mid, value, hvalue, h⟩
    cases h
    exact ⟨⟨element.1, text, value⟩, ⟨hname, hassign, element.2, hname ▸ hget, hvalue⟩, rfl⟩
  · rintro ⟨field, ⟨hname, hassign, parser, hparser, hvalue⟩, rfl⟩
    exact ⟨field.text, (field.name, parser), ⟨hname ▸ hparser, hname, hassign⟩, rest, field.value,
      hvalue, rfl⟩

/-- The name is none of the shape, or nothing is assigned to it. -/
theorem fieldName_error {names : List Text} {get : Text → Option (Parser (Value V))}
    (h : get (identAt place) = none ∨
      ∀ more, skipBlanks ((skipBlanks place).dropWhile isIdent) ≠ ':' :: more) :
    ∃ e, fieldName names get place = .error e := by
  cases hget : get (identAt place) with
  | none =>
      have hident :
          identifier names get (skipBlanks place) = .error (.unknownIdentifier names) := by
        rw [identAt] at hget
        simp only [identifier, takeWhile0, Parsed.next, hget]
      refine ⟨.context "identifier" (.unknownIdentifier names), ?_⟩
      rw [fieldName, terminated, whiteSpace_error hident]
      rfl
  | some parser =>
      rcases h with h | h
      · rw [hget] at h
        cases h
      · have hname : whiteSpace (identifier names get) place = .ok
            (skipBlanks ((skipBlanks place).dropWhile isIdent)) (identAt place, parser) :=
          whiteSpace_eq_ok.mpr ⟨_, identifier_eq_ok.mpr ⟨hget, rfl, rfl⟩, rfl⟩
        obtain ⟨e, htag⟩ : ∃ e, tag ":=".toList
            (skipBlanks (skipBlanks ((skipBlanks place).dropWhile isIdent))) = .error e := by
          refine ⟨_, if_neg fun hprefix => ?_⟩
          obtain ⟨more, hmore⟩ := List.isPrefixOf_iff_prefix.mp hprefix
          rw [skipBlanks_skipBlanks] at hmore
          exact h ('=' :: more) hmore.symm
        refine ⟨.context "assignment_op" e, ?_⟩
        rw [fieldName, terminated, hname]
        show (context "assignment_op" (whiteSpace _ _)).next _ = _
        rw [whiteSpace_error htag]
        rfl

theorem parseField_error {names : List Text} {get : Text → Option (Parser (Value V))}
    (h : get (identAt place) = none ∨
      ∀ more, skipBlanks ((skipBlanks place).dropWhile isIdent) ≠ ':' :: more) :
    ∃ e, parseField names get place = .error e := by
  obtain ⟨e, he⟩ := fieldName_error h
  exact ⟨e, by rw [parseField, he]; rfl⟩

/-- No element begins with the closing parenthesis. -/
theorem parseField_closing {names : List Text} {get : Text → Option (Parser (Value V))}
    (h : skipBlanks place = ')' :: rest) : ∃ e, parseField names get place = .error e := by
  refine parseField_error (.inr fun more => ?_)
  rw [h]
  intro heq
  have hclose : skipBlanks ((')' :: rest).dropWhile isIdent) = ')' :: rest := rfl
  rw [hclose] at heq
  exact absurd (List.cons.inj heq).1 (by decide)

theorem get_none_of_unknown (h : identAt place ∉ elements.map Prod.fst) :
    parserOf lib elements (identAt place) = none := by
  cases hget : parserOf lib elements (identAt place) with
  | none => rfl
  | some parser => exact absurd (mem_of_parserOf lib hget) h

theorem name_mem_of_readsField {field : Field V} (h : ReadsField lib elements place field rest) :
    field.name ∈ elements.map Prod.fst := by
  obtain ⟨-, -, parser, hparser, -⟩ := h
  exact mem_of_parserOf lib hparser

/-- The elements behind which the list has come to a place. -/
theorem after_iff {body : Text} {values : List (Text × Value V)} :
    After comma (parseField (elements.map Prod.fst) (parserOf lib elements)) body values place ↔
      ∃ fields, AfterFields lib elements body fields place ∧
        values = fields.map fun field => (field.name, field.value) := by
  constructor
  · intro h
    induction h with
    | start => exact ⟨[], .start, rfl⟩
    | step _ hvalue hsep hlength ih =>
        obtain ⟨fields, hfields, rfl⟩ := ih
        obtain ⟨field, hfield, rfl⟩ := parseField_eq_ok.mp hvalue
        obtain ⟨more, hcomma, rfl⟩ := whiteSpace_char.mp hsep
        exact ⟨fields ++ [field], .step hfields hfield hcomma, by rw [List.map_append]; rfl⟩
  · rintro ⟨fields, h, rfl⟩
    induction h with
    | start => exact .start
    | @step fields place rest more field _ hfield hcomma ih =>
        have hsep : comma rest = .ok (skipBlanks more) () :=
          whiteSpace_char.mpr ⟨more, hcomma, rfl⟩
        rw [List.map_append]
        refine .step ih (parseField_eq_ok.mpr ⟨field, hfield, rfl⟩) hsep fun hlength => ?_
        -- the comma is taken off
        have hskip : (skipBlanks more).length ≤ more.length :=
          (List.dropWhile_suffix _).length_le
        have hrest : (skipBlanks rest).length ≤ rest.length :=
          (List.dropWhile_suffix _).length_le
        rw [hcomma, List.length_cons] at hrest
        omega

end Fields

/-! ## The value -/

section Values

variable {V : Type} {names : List Text} {rest : Text} {result : List (Text × Value V)}

theorem duplicate_eq_none {l : List Text} : duplicate l = none ↔ l.Nodup := by
  rw [duplicate, Option.map_eq_none_iff, List.find?_eq_none, List.Nodup, List.pairwise_iff_getElem]
  simp only [decide_eq_true_eq, List.mem_take_iff_getElem]
  constructor
  · intro h i j hi hj hlt heq
    refine h (l[j], j) (List.mk_mem_zipIdx_iff_getElem?.mpr (List.getElem?_eq_getElem hj)) ?_
    exact ⟨i, by simp; omega, heq⟩
  · rintro h ⟨name, j⟩ hmem ⟨i, hi, heq⟩
    obtain ⟨hj, rfl⟩ := List.getElem?_eq_some_iff.mp (List.mk_mem_zipIdx_iff_getElem?.mp hmem)
    exact h i j (by omega) hj (by simp at hi; omega) heq

theorem position_of_mem {name : Text} (h : name ∈ names) :
    position names name = some (names.idxOf name) := if_pos h

/-- The elements in the order of the shape. -/
def inShapeOrder (names : List Text) (result : List (Text × Value V)) : List (Text × Value V) :=
  result.mergeSort fun a b => (position names a.1).getD 0 ≤ (position names b.1).getD 0

theorem map_inShapeOrder (hnodup : names.Nodup) (hperm : (result.map Prod.fst).Perm names) :
    (inShapeOrder names result).map Prod.fst = names := by
  have hsorted : (inShapeOrder names result).Pairwise fun a b =>
      decide ((position names a.1).getD 0 ≤ (position names b.1).getD 0) = true :=
    List.pairwise_mergeSort (fun a b c hab hbc => by simp at hab hbc ⊢; omega)
      (fun a b => by simp; omega) result
  have hperm' : ((inShapeOrder names result).map Prod.fst).Perm names :=
    ((List.mergeSort_perm result _).map Prod.fst).trans hperm
  have hmem : ∀ a ∈ inShapeOrder names result, a.1 ∈ names := fun a ha =>
    hperm'.mem_iff.mp (List.mem_map_of_mem ha)
  have hantisymm : ∀ a b, a ∈ (inShapeOrder names result).map Prod.fst → b ∈ names →
      names.idxOf a ≤ names.idxOf b → names.idxOf b ≤ names.idxOf a → a = b := by
    intro a b ha _ hab hba
    exact (List.idxOf_inj (hperm'.mem_iff.mp ha)).mp (by omega)
  refine List.Perm.eq_of_pairwise hantisymm ?_ ?_ hperm'
  · rw [List.pairwise_map]
    refine hsorted.imp_of_mem fun {a b} ha hb hle => ?_
    rw [position_of_mem (hmem a ha), position_of_mem (hmem b hb)] at hle
    simpa using hle
  · rw [List.pairwise_iff_getElem]
    intro i j hi hj hlt
    rw [hnodup.idxOf_getElem i hi, hnodup.idxOf_getElem j hj]
    omega

theorem namedTupleValue_perm (hnodup : names.Nodup) (hperm : (result.map Prod.fst).Perm names) :
    namedTupleValue names rest result =
      .ok rest (.namedTuple names ((inShapeOrder names result).map Prod.snd)) := by
  have hlength : ¬ result.length < names.length := by
    rw [← hperm.length_eq, List.length_map]
    omega
  have hpositions : ¬ (2 ≤ result.length ∧ result.any fun t => (position names t.1).isNone) := by
    rintro ⟨-, hany⟩
    obtain ⟨t, ht, hnone⟩ := List.any_eq_true.mp hany
    rw [position_of_mem (hperm.mem_iff.mp (List.mem_map_of_mem ht))] at hnone
    cases hnone
  rw [namedTupleValue, if_neg hlength,
    duplicate_eq_none.mpr ((hperm.nodup_iff).mpr hnodup)]
  exact if_neg hpositions

/-- Where some name is missing or stands twice there is no value. -/
theorem namedTupleValue_error (hknown : ∀ field ∈ result, field.1 ∈ names)
    (h : ¬ (names.Nodup ∧ (result.map Prod.fst).Perm names)) :
    ∃ e, namedTupleValue names rest result = .error e := by
  rw [namedTupleValue]
  split
  · exact ⟨_, rfl⟩
  · next hlength =>
    cases hduplicate : duplicate (result.map Prod.fst) with
    | some name => exact ⟨_, rfl⟩
    | none =>
        refine absurd ?_ h
        have hnodup := duplicate_eq_none.mp hduplicate
        have hsubset : result.map Prod.fst ⊆ names := by
          intro name hname
          obtain ⟨field, hfield, rfl⟩ := List.mem_map.mp hname
          exact hknown field hfield
        have hsubperm := List.subperm_of_subset hnodup hsubset
        have hperm := hsubperm.perm_of_length_le (by rw [List.length_map]; omega)
        exact ⟨hperm.nodup_iff.mp hnodup, hperm⟩

end Values

/-! ## Inputs -/

section Inputs

variable {V : Type} {lib : Library V} {elements : List (Text × VarType)} {input place rest : Text}
  {fields : List (Field V)}

/-- What stands between the parentheses. -/
theorem fields_eq_ok {result : List (Text × Value V)} :
    preceded (whiteSpace (char '('))
        (terminated
          (trailingSeparatedList0 comma (parseField (elements.map Prod.fst) (parserOf lib elements)))
          (preceded multispace0 (char ')'))) input = .ok rest result ↔
      ∃ fields, WrittenAs lib elements input fields rest ∧
        result = fields.map fun field => (field.name, field.value) := by
  rw [preceded_eq_ok]
  simp only [terminated_eq_ok, whiteSpace_char, closing_eq_ok,
    trailingSeparatedList0_eq_ok stays_comma (stays_parseField (stays_parserOf lib elements))]
  constructor
  · rintro ⟨_, _, ⟨opened, hopen, rfl⟩, place, _, hends, hclose⟩
    rcases hends with ⟨hafter, hstop⟩ | ⟨hafter, hvalue, hstop⟩
    · obtain ⟨fields, hfields, rfl⟩ := after_iff.mp hafter
      exact ⟨fields, .trailing hopen hfields hclose, rfl⟩
    · obtain ⟨fields, hfields, rfl⟩ := after_iff.mp hafter
      obtain ⟨field, hfield, rfl⟩ := parseField_eq_ok.mp hvalue
      exact ⟨fields ++ [field], .element hopen hfields hfield hclose, by rw [List.map_append]; rfl⟩
  · rintro ⟨fields, hwritten, rfl⟩
    rcases hwritten with ⟨hopen, hfields, hclose⟩ | ⟨hopen, hfields, hfield, hclose⟩
    · obtain ⟨e, hstop⟩ := parseField_closing hclose
      exact ⟨_, (), ⟨_, hopen, rfl⟩, _, (),
        .separator (after_iff.mpr ⟨_, hfields, rfl⟩) hstop, hclose⟩
    · -- no comma follows, as the parenthesis does
      obtain ⟨e, hstop⟩ := comma_error fun more hcomma => by
        rw [hclose] at hcomma
        exact absurd (List.cons.inj hcomma).1 (by decide)
      rw [List.map_append]
      exact ⟨_, (), ⟨_, hopen, rfl⟩, _, (),
        .element (after_iff.mpr ⟨_, hfields, rfl⟩) (parseField_eq_ok.mpr ⟨_, hfield, rfl⟩) hstop,
        hclose⟩

theorem readsField_of_after {body : Text} (h : AfterFields lib elements body fields place) :
    ∀ field ∈ fields, ∃ place rest, ReadsField lib elements place field rest := by
  induction h with
  | start =>
      intro field hmem
      cases hmem
  | step _ hfield _ ih =>
      intro field hmem
      rcases List.mem_append.mp hmem with hmem | hmem
      · exact ih field hmem
      · rw [List.mem_singleton.mp hmem]
        exact ⟨_, _, hfield⟩

theorem readsField_of_writtenAs (h : WrittenAs lib elements input fields rest) :
    ∀ field ∈ fields, ∃ place rest, ReadsField lib elements place field rest := by
  rcases h with ⟨_, hafter, _⟩ | ⟨_, hafter, hfield, _⟩
  · exact readsField_of_after hafter
  · intro field hmem
    rcases List.mem_append.mp hmem with hmem | hmem
    · exact readsField_of_after hafter field hmem
    · rw [List.mem_singleton.mp hmem]
      exact ⟨_, _, hfield⟩

theorem name_mem_of_writtenAs (h : WrittenAs lib elements input fields rest) :
    ∀ field ∈ fields.map fun field => (field.name, field.value),
      field.1 ∈ elements.map Prod.fst := by
  intro result hmem
  obtain ⟨field, hfield, rfl⟩ := List.mem_map.mp hmem
  obtain ⟨place, rest, hreads⟩ := readsField_of_writtenAs h field hfield
  exact name_mem_of_readsField hreads

theorem map_names (fields : List (Field V)) :
    (fields.map fun field => (field.name, field.value)).map Prod.fst = fields.map Field.name := by
  rw [List.map_map]
  rfl

/-- Behind some elements the list stops at the unknown name, and no parenthesis closes it. -/
theorem fields_error_of_unknown (h : UsesUnknown lib elements input) :
    ∃ e, preceded (whiteSpace (char '('))
      (terminated
        (trailingSeparatedList0 comma (parseField (elements.map Prod.fst) (parserOf lib elements)))
        (preceded multispace0 (char ')'))) input = .error e := by
  obtain ⟨opened, fields, place, hopen, hafter, hident, hunknown⟩ := h
  obtain ⟨e, hstop⟩ : ∃ e, parseField (elements.map Prod.fst) (parserOf lib elements) place =
      .error e := parseField_error (.inl (get_none_of_unknown hunknown))
  have hlist := (trailingSeparatedList0_eq_ok stays_comma
    (stays_parseField (stays_parserOf lib elements))).mpr
      (.separator (after_iff.mpr ⟨fields, hafter, rfl⟩) hstop)
  obtain ⟨e, hclose⟩ : ∃ e, preceded multispace0 (char ')') place = .error e := by
    apply closing_error
    intro more hmore
    rw [identAt, hmore] at hident
    exact hident rfl
  have hparen : whiteSpace (char '(') input = .ok (skipBlanks opened) () :=
    whiteSpace_char.mpr ⟨opened, hopen, rfl⟩
  refine ⟨e, ?_⟩
  rw [preceded, hparen]
  show terminated _ _ (skipBlanks opened) = _
  rw [terminated, hlist]
  show (preceded multispace0 (char ')') place).next _ = _
  rw [hclose]
  rfl

/-- One element of the shape and its entry of the value: the parser of the element reads the
value from the text behind the assignment to its name. -/
def EntryOf (lib : Library V) (fields : List (Field V)) (element : Text × VarType)
    (value : Value V) : Prop :=
  ∃ field ∈ fields, field.name = element.1 ∧ field.value = value ∧
    ∃ rest, parse lib element.2 true field.text = .ok rest value

theorem entries_of_writtenAs (hnodup : (elements.map Prod.fst).Nodup)
    (h : WrittenAs lib elements input fields rest) {values : List (Text × Value V)}
    (hmem : ∀ value ∈ values, ∃ field ∈ fields, value = (field.name, field.value))
    (hnames : values.map Prod.fst = elements.map Prod.fst) :
    List.Forall₂ (EntryOf lib fields) elements (values.map Prod.snd) := by
  rw [List.forall₂_map_right_iff]
  have hforall : List.Forall₂ (fun (element : Text × VarType) (value : Text × Value V) =>
      element ∈ elements ∧ value ∈ values ∧ element.1 = value.1) elements values := by
    rw [List.forall₂_iff_get]
    have hlength : elements.length = values.length := by
      rw [← List.length_map (f := Prod.fst), ← hnames, List.length_map]
    refine ⟨hlength, fun i hi hi' => ⟨List.get_mem _ _, List.get_mem _ _, ?_⟩⟩
    have hat : (values.map Prod.fst)[i]? = (elements.map Prod.fst)[i]? := by rw [hnames]
    simpa [hi, hi'] using hat.symm
  refine hforall.imp ?_
  rintro element value ⟨helement, hvalue, hname⟩
  obtain ⟨field, hfield, rfl⟩ := hmem value hvalue
  obtain ⟨place, rest, -, -, parser, hparser, hread⟩ := readsField_of_writtenAs h field hfield
  have hname : element.1 = field.name := hname
  rw [← hname, parserOf_of_mem hnodup helement] at hparser
  cases hparser
  exact ⟨field, hfield, hname.symm, rfl, rest, hread⟩

/-! ## The parser -/

/-- An input is accepted as the elements are written, in any order, and not if a name is
repeated, omitted or unknown. -/
structure OrderFree (lib : Library V) (elements : List (Text × VarType)) (forceQuotedStrings : Bool)
    (input : Text) : Prop where
  accepted : ∀ rest value,
    parse lib (.namedTuple elements) forceQuotedStrings input = .ok rest value →
      ∃ fields values, WrittenAs lib elements input fields rest ∧
        (fields.map Field.name).Perm (elements.map Prod.fst) ∧ (elements.map Prod.fst).Nodup ∧
        value = .namedTuple (elements.map Prod.fst) values ∧
        List.Forall₂ (EntryOf lib fields) elements values
  anyOrder : ∀ fields rest, WrittenAs lib elements input fields rest →
    (fields.map Field.name).Perm (elements.map Prod.fst) → (elements.map Prod.fst).Nodup →
      ∃ values, parse lib (.namedTuple elements) forceQuotedStrings input =
          .ok rest (.namedTuple (elements.map Prod.fst) values) ∧
        List.Forall₂ (EntryOf lib fields) elements values
  repeated : ∀ fields rest, WrittenAs lib elements input fields rest →
    ¬ (fields.map Field.name).Nodup →
      ∃ e, parse lib (.namedTuple elements) forceQuotedStrings input = .error e
  omitted : ∀ fields rest, WrittenAs lib elements input fields rest →
    ∀ name ∈ elements.map Prod.fst, name ∉ fields.map Field.name →
      ∃ e, parse lib (.namedTuple elements) forceQuotedStrings input = .error e
  unknown : UsesUnknown lib elements input →
    ∃ e, parse lib (.namedTuple elements) forceQuotedStrings input = .error e

theorem parse_of_writtenAs (forceQuotedStrings : Bool)
    (h : WrittenAs lib elements input fields rest) :
    parse lib (.namedTuple elements) forceQuotedStrings input =
      context "named_tuple" (namedTupleValue (elements.map Prod.fst) rest
        (fields.map fun field => (field.name, field.value))) := by
  rw [parse, parseNamedTuple, fields_eq_ok.mpr ⟨fields, h, rfl⟩]
  rfl

theorem parse_error (forceQuotedStrings : Bool) (h : WrittenAs lib elements input fields rest)
    (hnot : ¬ ((elements.map Prod.fst).Nodup ∧
      (fields.map Field.name).Perm (elements.map Prod.fst))) :
    ∃ e, parse lib (.namedTuple elements) forceQuotedStrings input = .error e := by
  rw [← map_names] at hnot
  obtain ⟨e, he⟩ : ∃ e, namedTupleValue (elements.map Prod.fst) rest
      (fields.map fun field => (field.name, field.value)) = .error e :=
    namedTupleValue_error (name_mem_of_writtenAs h) hnot
  refine ⟨.context "named_tuple" e, ?_⟩
  rw [parse_of_writtenAs _ h, he]
  rfl

theorem parse_unknown (forceQuotedStrings : Bool) (h : UsesUnknown lib elements input) :
    ∃ e, parse lib (.namedTuple elements) forceQuotedStrings input = .error e := by
  obtain ⟨e, he⟩ := fields_error_of_unknown h
  refine ⟨.context "named_tuple" e, ?_⟩
  rw [parse, parseNamedTuple, he]
  rfl

theorem parse_anyOrder (forceQuotedStrings : Bool) (h : WrittenAs lib elements input fields rest)
    (hperm : (fields.map Field.name).Perm (elements.map Prod.fst))
    (hnodup : (elements.map Prod.fst).Nodup) :
    ∃ values, parse lib (.namedTuple elements) forceQuotedStrings input =
        .ok rest (.namedTuple (elements.map Prod.fst) values) ∧
      List.Forall₂ (EntryOf lib fields) elements values := by
  rw [← map_names] at hperm
  refine ⟨_, by rw [parse_of_writtenAs _ h, namedTupleValue_perm hnodup hperm]; rfl,
    entries_of_writtenAs hnodup h ?_ (map_inShapeOrder hnodup hperm)⟩
  intro value hmem
  obtain ⟨field, hfield, rfl⟩ := List.mem_map.mp ((List.mergeSort_perm _ _).mem_iff.mp hmem)
  exact ⟨field, hfield, rfl⟩

theorem parse_accepted (forceQuotedStrings : Bool) {value : Value V}
    (h : parse lib (.namedTuple elements) forceQuotedStrings input = .ok rest value) :
    ∃ fields values, WrittenAs lib elements input fields rest ∧
      (fields.map Field.name).Perm (elements.map Prod.fst) ∧ (elements.map Prod.fst).Nodup ∧
      value = .namedTuple (elements.map Prod.fst) values ∧
      List.Forall₂ (EntryOf lib fields) elements values := by
  have hparse := h
  rw [parse, parseNamedTuple, context_eq_ok, next_eq_ok] at hparse
  obtain ⟨mid, result, hresult, hvalue⟩ := hparse
  obtain ⟨fields, hwritten, rfl⟩ := fields_eq_ok.mp hresult
  by_cases hfits : (elements.map Prod.fst).Nodup ∧
      (fields.map Field.name).Perm (elements.map Prod.fst)
  · obtain ⟨hnodup, hperm⟩ := hfits
    obtain ⟨values, hvalues, hentries⟩ := parse_anyOrder forceQuotedStrings hwritten hperm hnodup
    have hread : mid = rest ∧ value = .namedTuple (elements.map Prod.fst) values := by
      rw [parse_of_writtenAs _ hwritten, context_eq_ok, hvalue] at hvalues
      cases hvalues
      exact ⟨rfl, rfl⟩
    obtain ⟨rfl, rfl⟩ := hread
    exact ⟨fields, values, hwritten, hperm, hnodup, rfl, hentries⟩
  · obtain ⟨e, he⟩ := parse_error forceQuotedStrings hwritten hfits
    rw [h] at he
    cases he

/-- **Named tuples are free of order.** Whatever the shape and the input, a parsed value has
the elements of the shape in its order, each as its parser reads what is written behind its
name. -/
theorem parse_orderFree (lib : Library V) (elements : List (Text × VarType))
    (forceQuotedStrings : Bool) (input : Text) :
    OrderFree lib elements forceQuotedStrings input where
  accepted _ _ h := parse_accepted _ h
  anyOrder _ _ h hperm hnodup := parse_anyOrder _ h hperm hnodup
  repeated _ _ h hnot := parse_error _ h fun hfits => hnot (hfits.2.nodup_iff.mpr hfits.1)
  omitted _ _ h _ hname hnot := parse_error _ h fun hfits => hnot (hfits.2.mem_iff.mpr hname)
  unknown h := parse_unknown _ h

end Inputs

end GelCli.Prompt
