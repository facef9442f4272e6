import GelCli.Prompt.Variable

/-!
# Panics of the variable parsers

What a parser leaves is the end of its input, since every one of them takes characters off
the front. The one cut that may fall inside a character is that of a quoted string, whose
end is counted in characters. `CutsWell` says of a type and an input that no literal the
parser comes to is cut so, and then, and only then, the parser does not panic.
-/

namespace GelCli.Prompt

open GelCli.Foundation

/-! ## What a parser leaves -/

/-- What is left is the end of the input; where panics are ruled out, this is none. -/
def Leaves {α : Type} (mayPanic : Prop) (input : Text) : Parsed α → Prop
  | .ok rest _ => rest <:+ input
  | .panic => mayPanic
  | _ => True

/-- The parser leaves the end of every input. -/
def Stays {α : Type} (mayPanic : Prop) (parser : Parser α) : Prop :=
  ∀ input, Leaves mayPanic input (parser input)

section Combinators

variable {α β : Type} {mayPanic : Prop} {input mid : Text}

theorem Leaves.weaken {parsed : Parsed α} (h : Leaves False input parsed) :
    Leaves mayPanic input parsed := by
  cases parsed with
  | panic => exact h.elim
  | _ => exact h

theorem Leaves.trans {parsed : Parsed α} (h : Leaves mayPanic mid parsed) (hmid : mid <:+ input) :
    Leaves mayPanic input parsed := by
  cases parsed with
  | ok rest value => exact List.IsSuffix.trans h hmid
  | _ => exact h

theorem Leaves.next {parsed : Parsed α} {f : Text → α → Parsed β}
    (h : Leaves mayPanic input parsed) (hf : ∀ mid a, Leaves mayPanic mid (f mid a)) :
    Leaves mayPanic input (parsed.next f) := by
  cases parsed with
  | ok mid a => exact (hf mid a).trans h
  | _ => exact h

theorem Leaves.context {parsed : Parsed α} (ctx : String) (h : Leaves mayPanic input parsed) :
    Leaves mayPanic input (context ctx parsed) := by
  cases parsed <;> exact h

theorem Leaves.mapRes {parsed : Parsed α} {f : α → Except Text β}
    {external : Text → Text → ParsingError} (h : Leaves mayPanic input parsed) :
    Leaves mayPanic input (mapRes f external input parsed) := by
  cases parsed with
  | ok rest a =>
      rw [Prompt.mapRes]
      cases f a with
      | error reason => trivial
      | ok value => exact h
  | _ => exact h

theorem Leaves.ite {p : Prop} [Decidable p] {parsed parsed' : Parsed α}
    (h : Leaves mayPanic input parsed) (h' : Leaves mayPanic input parsed') :
    Leaves mayPanic input (if p then parsed else parsed') := by
  split
  · exact h
  · exact h'

variable {parser first : Parser α} {second : Parser β}

theorem Stays.map {f : α → β} (h : Stays mayPanic parser) : Stays mayPanic (map f parser) :=
  fun input => (h input).next fun _ _ => List.suffix_rfl

theorem Stays.opt (h : Stays mayPanic parser) : Stays mayPanic (opt parser) := by
  intro input
  have hinput := h input
  unfold Prompt.opt
  generalize parser input = parsed at hinput ⊢
  cases parsed with
  | error e => exact List.suffix_rfl
  | _ => exact hinput

theorem Stays.cond (p : Bool) (h : Stays mayPanic parser) : Stays mayPanic (cond p parser) := by
  cases p with
  | true => exact h.map
  | false => exact fun _ => List.suffix_rfl

theorem Stays.cut (h : Stays mayPanic parser) : Stays mayPanic (cut parser) := by
  intro input
  have hinput := h input
  unfold Prompt.cut
  generalize parser input = parsed at hinput ⊢
  cases parsed <;> exact hinput

theorem Stays.recognize (h : Stays mayPanic parser) : Stays mayPanic (recognize parser) := by
  intro input
  have hinput := h input
  unfold Prompt.recognize
  generalize parser input = parsed at hinput ⊢
  cases parsed <;> exact hinput

theorem Stays.altern {other : Parser α} (h : Stays mayPanic parser) (h' : Stays mayPanic other) :
    Stays mayPanic (altern parser other) := by
  intro input
  have hinput := h input
  have hother := h' input
  unfold Prompt.altern
  generalize parser input = parsed at hinput ⊢
  cases parsed with
  | error e =>
      generalize other input = second at hother ⊢
      cases second <;> exact hother
  | _ => exact hinput

theorem Stays.preceded (h : Stays mayPanic first) (h' : Stays mayPanic second) :
    Stays mayPanic (preceded first second) :=
  fun input => (h input).next fun mid _ => h' mid

theorem Stays.terminated (h : Stays mayPanic first) (h' : Stays mayPanic second) :
    Stays mayPanic (terminated first second) :=
  fun input => (h input).next fun mid _ => (h' mid).next fun _ _ => List.suffix_rfl

end Combinators

/-! ## Characters and numbers -/

section Characters

variable {mayPanic : Prop}

theorem stays_char (c : Char) : Stays mayPanic (char c) := by
  intro input
  cases input with
  | nil => trivial
  | cons d input => exact Leaves.ite (List.suffix_cons d input) trivial

theorem stays_tag (t : Text) : Stays mayPanic (tag t) :=
  fun _ => Leaves.ite (List.drop_suffix _ _) trivial

theorem stays_tagNoCase (t : Text) : Stays mayPanic (tagNoCase t) :=
  fun _ => Leaves.ite (List.drop_suffix _ _) trivial

theorem stays_takeWhile0 (p : Char → Bool) : Stays mayPanic (takeWhile0 p) :=
  fun _ => List.dropWhile_suffix _

theorem stays_takeWhile1 (kind : String) (p : Char → Bool) :
    Stays mayPanic (takeWhile1 kind p) :=
  fun _ => Leaves.ite trivial (List.dropWhile_suffix _)

theorem stays_takeWhileMN (m n : Nat) (p : Char → Bool) : Stays mayPanic (takeWhileMN m n p) := by
  intro input
  have htake : ∀ count, Leaves mayPanic input
      (if count ≤ input.length then .ok (input.drop count) (input.take count)
        else .error (.kind "TakeWhileMN" input)) :=
    fun count => Leaves.ite (List.drop_suffix _ _) trivial
  exact Leaves.ite (Leaves.ite (htake n) (Leaves.ite List.nil_suffix trivial))
    (Leaves.ite (htake _) trivial)

theorem Stays.whiteSpace {α : Type} {parser : Parser α} (h : Stays mayPanic parser) :
    Stays mayPanic (whiteSpace parser) :=
  (stays_takeWhile0 _).preceded (h.terminated (stays_takeWhile0 _))

theorem stays_sign : Stays mayPanic sign := ((stays_char '+').altern (stays_char '-')).opt

theorem stays_digit1 : Stays mayPanic digit1 := stays_takeWhile1 _ _

theorem stays_exponent : Stays mayPanic (exponent digit1) :=
  (((stays_char 'e').altern (stays_char 'E')).preceded (stays_sign.preceded stays_digit1.cut)).opt

theorem stays_int (bits : Nat) : Stays mayPanic (int bits) := by
  intro input
  exact (stays_sign input).next fun rest _ => Leaves.ite trivial (List.dropWhile_suffix _)

theorem stays_recognizeFloat : Stays mayPanic recognizeFloat :=
  (stays_sign.preceded
    (((stays_digit1.preceded ((stays_char '.').preceded stays_digit1.opt).opt.map).altern
      ((stays_char '.').preceded stays_digit1.map)).preceded stays_exponent)).recognize

theorem stays_recognizeFloatOrExceptions : Stays mayPanic recognizeFloatOrExceptions :=
  stays_recognizeFloat.altern ((stays_tagNoCase _).altern
    ((stays_tagNoCase _).altern (stays_tagNoCase _)))

theorem stays_recognizeFloatParts : Stays mayPanic recognizeFloatParts := by
  refine Stays.recognize fun input => ?_
  refine ((stays_sign.preceded (stays_takeWhile0 _)) input).next fun mid integer => ?_
  refine (((stays_char '.').preceded (stays_takeWhile0 _)).opt mid).next fun rest fraction => ?_
  exact Leaves.ite trivial
    ((((stays_char 'e').altern (stays_char 'E')).preceded (stays_int 32).cut).opt rest)

end Characters

/-! ## Panics -/

section Panics

variable {α β : Type} {input rest : Text}

theorem Stays.ne_panic {parser : Parser α} (h : Stays False parser) (input : Text) :
    parser input ≠ .panic := by
  intro hpanic
  have hinput := h input
  rw [hpanic] at hinput
  exact hinput

theorem Stays.suffix {mayPanic : Prop} {parser : Parser α} {value : α}
    (h : Stays mayPanic parser) (hok : parser input = .ok rest value) : rest <:+ input := by
  have hinput := h input
  rw [hok] at hinput
  exact hinput

theorem next_eq_ok {parsed : Parsed α} {f : Text → α → Parsed β} {value : β} :
    parsed.next f = .ok rest value ↔ ∃ mid a, parsed = .ok mid a ∧ f mid a = .ok rest value := by
  cases parsed <;> simp [Parsed.next]

theorem preceded_eq_ok {first : Parser α} {second : Parser β} {value : β} :
    preceded first second input = .ok rest value ↔
      ∃ mid a, first input = .ok mid a ∧ second mid = .ok rest value :=
  next_eq_ok

theorem terminated_eq_ok {first : Parser α} {second : Parser β} {value : α} :
    terminated first second input = .ok rest value ↔
      ∃ mid b, first input = .ok mid value ∧ second mid = .ok rest b := by
  rw [terminated, next_eq_ok]
  constructor
  · rintro ⟨mid, a, hfirst, h⟩
    obtain ⟨mid', b, hsecond, h⟩ := next_eq_ok.mp h
    cases h
    exact ⟨mid, b, hfirst, hsecond⟩
  · rintro ⟨mid, b, hfirst, hsecond⟩
    exact ⟨mid, value, hfirst, next_eq_ok.mpr ⟨rest, b, hsecond, rfl⟩⟩

/-- What is read between blanks is read from some place of the input on. -/
theorem exists_of_whiteSpace {parser : Parser α} {value : α}
    (h : whiteSpace parser input = .ok rest value) :
    ∃ place mid, parser place = .ok mid value := by
  obtain ⟨place, _, _, h⟩ := preceded_eq_ok.mp h
  obtain ⟨mid, _, h, _⟩ := terminated_eq_ok.mp h
  exact ⟨place, mid, h⟩

theorem next_ne_panic {parsed : Parsed α} {f : Text → α → Parsed β} :
    parsed.next f ≠ .panic ↔
      parsed ≠ .panic ∧ ∀ mid a, parsed = .ok mid a → f mid a ≠ .panic := by
  cases parsed <;> simp [Parsed.next]

theorem context_ne_panic {ctx : String} {parsed : Parsed α} :
    context ctx parsed ≠ .panic ↔ parsed ≠ .panic := by
  cases parsed <;> simp [context]

theorem map_ne_panic {f : α → β} {parser : Parser α} :
    map f parser input ≠ .panic ↔ parser input ≠ .panic := by
  rw [map, next_ne_panic]
  exact and_iff_left fun _ _ _ h => (by cases h)

theorem recognize_ne_panic {parser : Parser α} :
    recognize parser input ≠ .panic ↔ parser input ≠ .panic := by
  unfold recognize
  cases parser input <;> simp

theorem mapRes_ne_panic {f : α → Except Text β} {external : Text → Text → ParsingError}
    {parsed : Parsed α} : mapRes f external input parsed ≠ .panic ↔ parsed ≠ .panic := by
  cases parsed with
  | ok rest a => cases h : f a <;> simp [mapRes, h]
  | _ => simp [mapRes]

theorem altern_ne_panic {first second : Parser α} :
    altern first second input ≠ .panic ↔ first input ≠ .panic ∧
      ((∃ e, first input = .error e) → second input ≠ .panic) := by
  unfold altern
  cases first input with
  | error e => cases second input <;> simp
  | _ => simp

theorem preceded_ne_panic {first : Parser α} {second : Parser β} (h : Stays False first) :
    preceded first second input ≠ .panic ↔
      ∀ rest a, first input = .ok rest a → second rest ≠ .panic := by
  rw [preceded, next_ne_panic]
  exact and_iff_right (h.ne_panic input)

theorem terminated_ne_panic {first : Parser α} {second : Parser β} (h : Stays False second) :
    terminated first second input ≠ .panic ↔ first input ≠ .panic := by
  rw [terminated, next_ne_panic]
  refine and_iff_left fun mid a _ => next_ne_panic.mpr ⟨h.ne_panic mid, ?_⟩
  exact fun _ _ _ h => (by cases h)

end Panics

/-! ## Lists -/

section Lists

variable {α β : Type} {sep : Parser β} {f : Parser α}

/-- Behind an element, the list comes to an element at this place. -/
inductive TriesAfter (sep : Parser β) (f : Parser α) : Text → Text → Prop where
  | turn {input rest : Text} {separator : β} :
      sep input = .ok rest separator → rest.length ≠ input.length → TriesAfter sep f input rest
  | later {input rest mid place : Text} {separator : β} {value : α} :
      sep input = .ok rest separator → rest.length ≠ input.length → f rest = .ok mid value →
      TriesAfter sep f mid place → TriesAfter sep f input place

/-- The list comes to an element at this place. -/
def Tries (sep : Parser β) (f : Parser α) (input place : Text) : Prop :=
  place = input ∨ ∃ rest value, f input = .ok rest value ∧ TriesAfter sep f rest place

theorem stays_separatedTurns (hsep : Stays True sep) (hf : Stays True f) (turns : Nat)
    (input : Text) (values : List α) :
    Leaves True input (separatedTurns sep f turns input values) := by
  induction turns generalizing input values with
  | zero => trivial
  | succ turns ih =>
      rw [separatedTurns]
      cases hseparator : sep input with
      | ok rest separator =>
          have hrest := hsep.suffix hseparator
          refine Leaves.ite trivial ?_
          cases hvalue : f rest with
          | ok mid value => exact (ih mid _).trans ((hf.suffix hvalue).trans hrest)
          | error e => exact List.suffix_rfl
          | failure e => trivial
          | panic => trivial
      | error e => exact List.suffix_rfl
      | failure e => trivial
      | panic => trivial

theorem stays_trailingSeparatedList0 (hsep : Stays True sep) (hf : Stays True f) :
    Stays True (trailingSeparatedList0 sep f) := by
  intro input
  have hlist : Leaves True input (separatedList0 sep f input) := by
    rw [separatedList0]
    cases hvalue : f input with
    | ok rest value =>
        exact (stays_separatedTurns hsep hf _ rest [value]).trans (hf.suffix hvalue)
    | error e => exact List.suffix_rfl
    | failure e => trivial
    | panic => trivial
  exact hlist.next fun mid values => (hsep.opt.cond _ mid).next fun _ _ => List.suffix_rfl

theorem triesAfter_iff {input rest place : Text} {separator : β}
    (hseparator : sep input = .ok rest separator) (hlength : rest.length ≠ input.length) :
    TriesAfter sep f input place ↔
      place = rest ∨ ∃ mid value, f rest = .ok mid value ∧ TriesAfter sep f mid place := by
  constructor
  · intro h
    cases h with
    | turn h _ =>
        rw [hseparator] at h
        cases h
        exact .inl rfl
    | later h _ hvalue hlater =>
        rw [hseparator] at h
        cases h
        exact .inr ⟨_, _, hvalue, hlater⟩
  · rintro (rfl | ⟨mid, value, hvalue, hlater⟩)
    · exact .turn hseparator hlength
    · exact .later hseparator hlength hvalue hlater

theorem not_triesAfter {input : Text}
    (h : ∀ rest separator, sep input = .ok rest separator → rest.length = input.length)
    (place : Text) : ¬ TriesAfter sep f input place := by
  intro htries
  cases htries with
  | turn hseparator hlength => exact hlength (h _ _ hseparator)
  | later hseparator hlength _ _ => exact hlength (h _ _ hseparator)

/-- The turns are enough, and they panic exactly if an element does that they come to. -/
theorem separatedTurns_ne_panic (hsep : Stays False sep) (hf : Stays True f) {turns : Nat}
    {input : Text} (hturns : input.length < turns) (values : List α) :
    separatedTurns sep f turns input values ≠ .panic ↔
      ∀ place, TriesAfter sep f input place → f place ≠ .panic := by
  induction turns generalizing input values with
  | zero => exact absurd hturns (Nat.not_lt_zero _)
  | succ turns ih =>
      rw [separatedTurns]
      cases hseparator : sep input with
      | panic => exact absurd hseparator (hsep.ne_panic input)
      | error e =>
          refine iff_of_true (fun h => (by cases h)) fun place h => absurd h ?_
          exact not_triesAfter (fun _ _ h => by rw [hseparator] at h; cases h) place
      | failure e =>
          refine iff_of_true (fun h => (by cases h)) fun place h => absurd h ?_
          exact not_triesAfter (fun _ _ h => by rw [hseparator] at h; cases h) place
      | ok rest separator =>
          show (if rest.length = input.length then _ else _) ≠ _ ↔ _
          by_cases hlength : rest.length = input.length
          · rw [if_pos hlength]
            refine iff_of_true (fun h => (by cases h)) fun place h => absurd h ?_
            refine not_triesAfter (fun _ _ h => ?_) place
            rw [hseparator] at h
            cases h
            exact hlength
          · rw [if_neg hlength]
            simp only [triesAfter_iff hseparator hlength]
            have hrest := (hsep.suffix hseparator).length_le
            cases hvalue : f rest with
            | panic => exact iff_of_false (fun h => h rfl) fun h => h rest (.inl rfl) hvalue
            | error e =>
                refine iff_of_true (fun h => (by cases h)) ?_
                rintro place (rfl | ⟨mid, value, h, -⟩)
                · rw [hvalue]
                  exact fun h => (by cases h)
                · cases h
            | failure e =>
                refine iff_of_true (fun h => (by cases h)) ?_
                rintro place (rfl | ⟨mid, value, h, -⟩)
                · rw [hvalue]
                  exact fun h => (by cases h)
                · cases h
            | ok mid value =>
                have hmid := (hf.suffix hvalue).length_le
                refine (ih (by omega) _).trans ?_
                constructor
                · rintro h place (rfl | ⟨mid', value', hvalue', hlater⟩)
                  · rw [hvalue]
                    exact fun h => (by cases h)
                  · cases hvalue'
                    exact h place hlater
                · exact fun h place hlater => h place (.inr ⟨mid, value, rfl, hlater⟩)

/-- A list panics exactly if an element does that it comes to. -/
theorem trailingSeparatedList0_ne_panic (hsep : Stays False sep) (hf : Stays True f)
    (input : Text) : trailingSeparatedList0 sep f input ≠ .panic ↔
      ∀ place, Tries sep f input place → f place ≠ .panic := by
  have htrailing : ∀ mid (values : List α),
      (cond (!values.isEmpty) (opt sep) mid).next (fun rest _ => .ok rest values) ≠ .panic :=
    fun mid values => next_ne_panic.mpr
      ⟨(hsep.opt.cond _).ne_panic mid, fun _ _ _ h => (by cases h)⟩
  rw [trailingSeparatedList0, next_ne_panic, and_iff_left fun mid values _ => htrailing mid values,
    separatedList0]
  cases hvalue : f input with
  | panic => exact iff_of_false (fun h => h rfl) fun h => h input (.inl rfl) hvalue
  | error e =>
      refine iff_of_true (fun h => (by cases h)) ?_
      rintro place (rfl | ⟨rest, value, h, -⟩)
      · rw [hvalue]
        exact fun h => (by cases h)
      · rw [hvalue] at h
        cases h
  | failure e =>
      refine iff_of_true (fun h => (by cases h)) ?_
      rintro place (rfl | ⟨rest, value, h, -⟩)
      · rw [hvalue]
        exact fun h => (by cases h)
      · rw [hvalue] at h
        cases h
  | ok rest value =>
      have hrest := (hf.suffix hvalue).length_le
      refine (separatedTurns_ne_panic hsep hf (by omega) _).trans ?_
      constructor
      · rintro h place (rfl | ⟨rest', value', hvalue', hlater⟩)
        · rw [hvalue]
          exact fun h => (by cases h)
        · rw [hvalue] at hvalue'
          cases hvalue'
          exact h place hlater
      · exact fun h place hlater => h place (.inr ⟨rest, value, hvalue, hlater⟩)

theorem separatedTurns_forall {P : α → Prop}
    (hf : ∀ input rest value, f input = .ok rest value → P value) {turns : Nat}
    {input rest : Text} {values values' : List α} (hvalues : ∀ value ∈ values, P value)
    (h : separatedTurns sep f turns input values = .ok rest values') :
    ∀ value ∈ values', P value := by
  induction turns generalizing input values with
  | zero => cases h
  | succ turns ih =>
      rw [separatedTurns] at h
      cases hseparator : sep input with
      | ok mid separator =>
          simp only [hseparator] at h
          split at h
          · cases h
          cases hvalue : f mid with
          | ok mid' value =>
              simp only [hvalue] at h
              refine ih (fun v hv => ?_) h
              rcases List.mem_append.mp hv with hv | hv
              · exact hvalues v hv
              · exact List.mem_singleton.mp hv ▸ hf _ _ _ hvalue
          | error e =>
              simp only [hvalue] at h
              cases h
              exact hvalues
          | failure e =>
              simp only [hvalue] at h
              cases h
          | panic =>
              simp only [hvalue] at h
              cases h
      | error e =>
          simp only [hseparator] at h
          cases h
          exact hvalues
      | failure e =>
          simp only [hseparator] at h
          cases h
      | panic =>
          simp only [hseparator] at h
          cases h

/-- What holds of every element that is read holds of the elements of a list. -/
theorem trailingSeparatedList0_forall {P : α → Prop}
    (hf : ∀ input rest value, f input = .ok rest value → P value) {input rest : Text}
    {values : List α} (h : trailingSeparatedList0 sep f input = .ok rest values) :
    ∀ value ∈ values, P value := by
  obtain ⟨mid, values', hlist, h⟩ := next_eq_ok.mp h
  obtain ⟨_, _, _, h⟩ := next_eq_ok.mp h
  cases h
  rw [separatedList0] at hlist
  cases hvalue : f input with
  | ok mid' value =>
      simp only [hvalue] at hlist
      refine separatedTurns_forall hf (fun v hv => ?_) hlist
      exact List.mem_singleton.mp hv ▸ hf _ _ _ hvalue
  | error e =>
      simp only [hvalue] at hlist
      cases hlist
      exact fun v hv => (by cases hv)
  | failure e =>
      simp only [hvalue] at hlist
      cases hlist
  | panic =>
      simp only [hvalue] at hlist
      cases hlist

end Lists

/-! ## Quoted strings -/

/-- The closing quote of a literal, counted in characters, is at the end of a character when
that number is taken as bytes. -/
def EndsBetween (quote : Char) (body : Text) : Prop :=
  ∀ pos, endQuote quote none body = some pos →
    ∃ before after, Text.splitAtByte body pos = some (before, after)

section Quoted

variable {unquote : Text → Except Text Text} {quote : Char}

theorem skipBody_ne_panic {body : Text} : skipBody quote body ≠ .panic ↔ EndsBetween quote body := by
  rw [skipBody, EndsBetween]
  cases hpos : endQuote quote none body with
  | none => simp
  | some pos =>
      cases hsplit : Text.splitAtByte body pos with
      | none => simp [hsplit]
      | some parts =>
          refine iff_of_true (fun h => by simp [hsplit] at h) fun pos' h => ?_
          cases h
          exact ⟨parts.1, parts.2, hsplit⟩

theorem andThen_eq_next {α β : Type} {parsed : Parsed α} {f : Text → Parsed β} :
    andThen parsed f = parsed.next fun rest _ => f rest := by
  cases parsed <;> rfl

theorem stays_skipBody : Stays True (skipBody quote) := by
  intro body
  rw [skipBody]
  cases endQuote quote none body with
  | none => trivial
  | some pos =>
      cases hsplit : Text.splitAtByte body pos with
      | none =>
          simp only [hsplit]
          trivial
      | some parts =>
          simp only [hsplit]
          exact ⟨parts.1, (Text.splitAtByte_eq_some.mp hsplit).1.symm⟩

theorem stays_quotedStrParser : Stays True fun input => quotedStrParser unquote input quote := by
  intro input
  refine Leaves.context _ (Leaves.mapRes (Stays.recognize (fun input => ?_) input))
  rw [andThen_eq_next]
  refine (stays_char quote input).next fun body _ => ?_
  rw [andThen_eq_next]
  exact (stays_skipBody body).next fun rest _ => stays_char quote rest

theorem quotedStrParser_ne_panic {input : Text} : quotedStrParser unquote input quote ≠ .panic ↔
    ∀ body, input = quote :: body → EndsBetween quote body := by
  rw [quotedStrParser, context_ne_panic, mapRes_ne_panic, recognize_ne_panic, andThen_eq_next,
    next_ne_panic, and_iff_right ((stays_char quote).ne_panic input)]
  simp only [andThen_eq_next, next_ne_panic, skipBody_ne_panic, char_eq_ok]
  constructor
  · exact fun h body hbody => (h body () hbody).1
  · exact fun h body _ hbody => ⟨h body hbody, fun mid _ _ => (stays_char quote).ne_panic mid⟩

/-- The literal at the front of the input, if there is one, can be cut at its end. -/
def LiteralCutsWell (input : Text) : Prop :=
  ∀ quote ∈ ['\'', '"'], ∀ body, input = quote :: body → EndsBetween quote body

theorem stays_parseStr (forceQuotedStrings : Bool) :
    Stays True (parseStr unquote forceQuotedStrings) := by
  intro input
  unfold parseStr
  have hsingle : Stays True (singleQuotedStr unquote) :=
    fun input => (stays_quotedStrParser input).context _
  have hdouble : Stays True (doubleQuotedStr unquote) :=
    fun input => (stays_quotedStrParser input).context _
  exact Leaves.ite (((hsingle.altern hdouble input).context _).context _) List.nil_suffix

theorem parseStr_ne_panic {input : Text} :
    parseStr unquote true input ≠ .panic ↔ LiteralCutsWell input := by
  have hsingle : ∀ input, singleQuotedStr unquote input ≠ .panic ↔
      ∀ body, input = '\'' :: body → EndsBetween '\'' body :=
    fun input => context_ne_panic.trans quotedStrParser_ne_panic
  have hdouble : ∀ input, doubleQuotedStr unquote input ≠ .panic ↔
      ∀ body, input = '"' :: body → EndsBetween '"' body :=
    fun input => context_ne_panic.trans quotedStrParser_ne_panic
  rw [parseStr, if_pos rfl, context_ne_panic, quotedStr, context_ne_panic, altern_ne_panic,
    hsingle, hdouble, LiteralCutsWell]
  constructor
  · rintro ⟨h, h'⟩ quote hquote body rfl
    rcases List.mem_pair.mp hquote with rfl | rfl
    · exact h body rfl
    · exact h' ⟨_, rfl⟩ body rfl
  · exact fun h => ⟨h '\'' (by simp), fun _ => h '"' (by simp)⟩

end Quoted

/-! ## Scalars -/

section Scalars

variable {V : Type} {lib : Library V}

theorem stays_parseFloat {ctx : String} {convert : Text → Option V} :
    Stays False (parseFloat ctx convert) := by
  intro input
  refine Leaves.context _ ((stays_recognizeFloatOrExceptions input).next fun rest digits => ?_)
  cases convert digits with
  | some value => exact List.suffix_rfl
  | none => trivial

theorem stays_parseBool : Stays False (parseBool (V := V)) :=
  fun input => (((stays_tagNoCase _).map.altern (stays_tagNoCase _).map) input).context _

theorem stays_parseConverted {ctx : String} {recognized : Parser Text}
    {convert : Text → Except Text V} (h : Stays False recognized) :
    Stays False (parseConverted ctx recognized convert) := by
  intro input
  have hconverted : Stays False fun input =>
      mapRes convert .external input (recognized input) := fun input => (h input).mapRes
  exact (hconverted.map input).context _

theorem stays_parseJson : Stays False (parseJson lib) := by
  intro input
  refine Leaves.context _ ?_
  cases hoffset : lib.byteOffset input with
  | error reason => trivial
  | ok offset =>
      obtain ⟨before, after, hsplit⟩ := lib.boundary input offset hoffset
      simp only [hsplit]
      exact ⟨before, (Text.splitAtByte_eq_some.mp hsplit).1.symm⟩

/-- Every scalar but a quoted string. -/
theorem stays_parseScalar {scalar : Scalar} {forceQuotedStrings : Bool}
    (h : scalar = .str → forceQuotedStrings = false) :
    Stays False (parseScalar lib scalar forceQuotedStrings) := by
  have hint : ∀ (ctx : String) (bits : Nat), Stays False fun input =>
      context ctx (map (Value.int (V := V)) (int bits) input) :=
    fun ctx bits input => ((stays_int bits).map input).context _
  cases scalar with
  | str =>
      obtain rfl := h rfl
      exact Stays.map fun _ => List.nil_suffix
  | uuid => exact stays_parseConverted (stays_takeWhileMN _ _ _)
  | int16 => exact hint _ _
  | int32 => exact hint _ _
  | int64 => exact hint _ _
  | float32 => exact stays_parseFloat
  | float64 => exact stays_parseFloat
  | bool => exact stays_parseBool
  | bigint =>
      exact stays_parseConverted
        (stays_sign.preceded (stays_digit1.preceded stays_exponent)).recognize
  | decimal => exact stays_parseConverted stays_recognizeFloatParts
  | json => exact stays_parseJson

end Scalars

/-! ## Arrays and tuples -/

section Compounds

variable {V : Type}

theorem stays_comma {mayPanic : Prop} : Stays mayPanic comma := (stays_char ',').whiteSpace

theorem stays_closing {mayPanic : Prop} (c : Char) :
    Stays mayPanic (preceded multispace0 (char c)) :=
  (stays_takeWhile0 _).preceded (stays_char c)

theorem stays_parseArray {element : Parser (Value V)} (h : Stays True element) :
    Stays True (parseArray element) :=
  fun input => (((stays_char '[').whiteSpace.preceded
    ((stays_trailingSeparatedList0 stays_comma h).terminated (stays_closing ']'))).map
      input).context _

theorem parseArray_ne_panic {element : Parser (Value V)} (h : Stays True element)
    {input : Text} : parseArray element input ≠ .panic ↔
      ∀ rest u, whiteSpace (char '[') input = .ok rest u →
        ∀ place, Tries comma element rest place → element place ≠ .panic := by
  rw [parseArray, context_ne_panic, map_ne_panic,
    preceded_ne_panic (stays_char '[').whiteSpace]
  simp only [terminated_ne_panic (stays_closing ']'),
    trailingSeparatedList0_ne_panic stays_comma h]

theorem stays_tupleEnd {mayPanic : Prop} (elements : Nat) :
    Stays mayPanic (preceded (cond (decide (0 < elements)) (opt comma))
      (preceded multispace0 (char ')'))) :=
  (stays_comma.opt.cond _).preceded (stays_closing ')')

theorem stays_parseTuple {elements : Nat} {body : Parser (List (Value V))}
    (h : Stays True body) : Stays True (parseTuple elements body) :=
  fun input => (((stays_char '(').whiteSpace.preceded
    (h.terminated (stays_tupleEnd elements))).map input).context _

theorem parseTuple_ne_panic {elements : Nat} {body : Parser (List (Value V))} {input : Text} :
    parseTuple elements body input ≠ .panic ↔
      ∀ rest u, whiteSpace (char '(') input = .ok rest u → body rest ≠ .panic := by
  rw [parseTuple, context_ne_panic, map_ne_panic,
    preceded_ne_panic (stays_char '(').whiteSpace]
  simp only [terminated_ne_panic (stays_tupleEnd elements)]

/-! ## Named tuples -/

variable {names : List Text} {get : Text → Option (Parser (Value V))}

theorem stays_fieldName {mayPanic : Prop} : Stays mayPanic (fieldName names get) := by
  have hident : Stays mayPanic (identifier names get) := by
    refine fun input => (stays_takeWhile0 _ input).next fun rest ident => ?_
    cases get ident with
    | some elementType => exact List.suffix_rfl
    | none => trivial
  have hname : Stays mayPanic fun input =>
      context "identifier" (whiteSpace (identifier names get) input) :=
    fun input => (hident.whiteSpace input).context _
  have htag : Stays mayPanic fun input =>
      context "assignment_op" (whiteSpace (tag ":=".toList) input) :=
    fun input => ((stays_tag _).whiteSpace input).context _
  exact hname.terminated htag

/-- The name that was read is one of the elements. -/
theorem get_of_fieldName {input rest : Text} {element : Text × Parser (Value V)}
    (h : fieldName names get input = .ok rest element) : get element.1 = some element.2 := by
  obtain ⟨mid, _, hname, -⟩ := terminated_eq_ok.mp h
  obtain ⟨place, mid', hident⟩ := exists_of_whiteSpace (context_eq_ok.mp hname)
  rw [identifier] at hident
  obtain ⟨_, ident, -, h⟩ := next_eq_ok.mp hident
  cases hget : get ident with
  | some parser =>
      rw [hget] at h
      cases h
      exact hget
  | none =>
      rw [hget] at h
      cases h

theorem stays_parseField (h : ∀ ident parser, get ident = some parser → Stays True parser) :
    Stays True (parseField names get) := by
  intro input
  rw [parseField]
  cases hname : fieldName names get input with
  | ok mid element =>
      have hvalue := h element.1 element.2 (get_of_fieldName hname)
      have hmid : mid <:+ input := (@stays_fieldName V names get True).suffix hname
      have hfield : Leaves True mid ((context "named_tuple_element" (element.2 mid)).next
          fun rest value => .ok rest (element.1, value)) :=
        ((hvalue mid).context _).next fun _ _ => List.suffix_rfl
      exact hfield.trans hmid
  | error e => trivial
  | failure e => trivial
  | panic => trivial

theorem parseField_ne_panic {input : Text} : parseField names get input ≠ .panic ↔
    ∀ rest element, fieldName names get input = .ok rest element → element.2 rest ≠ .panic := by
  rw [parseField, next_ne_panic, and_iff_right (stays_fieldName.ne_panic input)]
  simp only [next_ne_panic, context_ne_panic]
  exact forall₃_congr fun rest element _ => and_iff_left fun _ _ _ h => (by cases h)

theorem fst_of_parseField {input rest : Text} {field : Text × Value V}
    (h : parseField names get input = .ok rest field) : ∃ parser, get field.1 = some parser := by
  obtain ⟨mid, element, hname, h⟩ := next_eq_ok.mp h
  obtain ⟨_, _, _, h⟩ := next_eq_ok.mp h
  cases h
  exact ⟨element.2, get_of_fieldName hname⟩

/-- Sorting panics only over a name that is not in the shape. -/
theorem namedTupleValue_leaves {mayPanic : Prop} {rest : Text} {result : List (Text × Value V)}
    (h : (∃ field ∈ result, field.1 ∉ names) → mayPanic) :
    Leaves mayPanic rest (namedTupleValue names rest result) := by
  rw [namedTupleValue]
  refine Leaves.ite trivial ?_
  cases duplicate (result.map Prod.fst) with
  | some name => trivial
  | none =>
      show Leaves mayPanic rest (if 2 ≤ result.length ∧ _ then _ else _)
      split
      · next hpanic =>
        obtain ⟨field, hfield, hposition⟩ := List.any_eq_true.mp hpanic.2
        refine h ⟨field, hfield, fun hmem => ?_⟩
        rw [position, if_pos hmem] at hposition
        cases hposition
      · exact List.suffix_rfl

theorem stays_parseNamedTuple
    (h : ∀ ident parser, get ident = some parser → Stays True parser) :
    Stays True (parseNamedTuple names get) :=
  fun input => ((((stays_char '(').whiteSpace.preceded
    ((stays_trailingSeparatedList0 stays_comma (stays_parseField h)).terminated
      (stays_closing ')'))) input).next fun _ _ =>
        namedTupleValue_leaves fun _ => trivial).context _

theorem parseNamedTuple_ne_panic
    (h : ∀ ident parser, get ident = some parser → Stays True parser)
    (hnames : ∀ ident parser, get ident = some parser → ident ∈ names) {input : Text} :
    parseNamedTuple names get input ≠ .panic ↔
      ∀ rest u, whiteSpace (char '(') input = .ok rest u →
        ∀ place, Tries comma (parseField names get) rest place →
          ∀ mid element, fieldName names get place = .ok mid element →
            element.2 mid ≠ .panic := by
  rw [parseNamedTuple, context_ne_panic, next_ne_panic, and_iff_left,
    preceded_ne_panic (stays_char '(').whiteSpace]
  · simp only [terminated_ne_panic (stays_closing ')'), parseField_ne_panic,
      trailingSeparatedList0_ne_panic stays_comma (stays_parseField h)]
  · intro mid result hlist hpanic
    obtain ⟨rest, _, _, hlist⟩ := preceded_eq_ok.mp hlist
    obtain ⟨mid', _, hlist, _⟩ := terminated_eq_ok.mp hlist
    have hfields := trailingSeparatedList0_forall
      (fun _ _ _ hfield => fst_of_parseField hfield) hlist
    have hleaves : Leaves False mid (namedTupleValue names mid result) := by
      refine namedTupleValue_leaves ?_
      rintro ⟨field, hfield, hnot⟩
      obtain ⟨parser, hparser⟩ := hfields field hfield
      exact hnot (hnames _ _ hparser)
    rw [hpanic] at hleaves
    exact hleaves

end Compounds

/-! ## All types -/

section Types

variable {V : Type} (lib : Library V)

theorem mem_of_parserOf {elements : List (Text × VarType)} {ident : Text}
    {parser : Parser (Value V)} (h : parserOf lib elements ident = some parser) :
    ident ∈ elements.map Prod.fst := by
  induction elements with
  | nil => cases h
  | cons element elements ih =>
      rw [parserOf] at h
      cases hlast : parserOf lib elements ident with
      | some found => exact List.mem_cons_of_mem _ (ih (by rw [hlast] at h ⊢; exact h))
      | none =>
          simp only [hlast] at h
          split at h
          · next heq =>
            rw [List.map_cons, heq]
            exact List.mem_cons_self
          · cases h

mutual

/-- What a value of any type leaves is the end of the input. -/
theorem stays_parse : ∀ (type : VarType) (forceQuotedStrings : Bool),
    Stays True (parse lib type forceQuotedStrings)
  | .scalar scalar, forceQuotedStrings => by
      rw [parse]
      by_cases hstr : scalar = .str
      · subst hstr
        exact (stays_parseStr forceQuotedStrings).map
      · exact fun input => (stays_parseScalar (fun h => absurd h hstr) input).weaken
  | .array elementType, _ => by
      rw [parse]
      exact stays_parseArray (stays_parse elementType true)
  | .tuple elementTypes, _ => by
      rw [parse]
      exact stays_parseTuple (stays_parseElements elementTypes true)
  | .namedTuple elements, _ => by
      rw [parse]
      exact stays_parseNamedTuple (stays_parserOf elements)

theorem stays_parseElements : ∀ (elementTypes : List VarType) (first : Bool),
    Stays True (parseElements lib elementTypes first)
  | [], _ => by
      intro input
      rw [parseElements]
      exact List.suffix_rfl
  | elementType :: elementTypes, first => by
      intro input
      rw [parseElements]
      exact (stays_comma.cond (!first) input).next fun rest _ =>
        (stays_parse elementType true rest).next fun rest value =>
          (stays_parseElements elementTypes false rest).next fun _ _ => List.suffix_rfl

theorem stays_parserOf : ∀ (elements : List (Text × VarType)) (ident : Text)
    (parser : Parser (Value V)), parserOf lib elements ident = some parser → Stays True parser
  | [], _, _, h => by cases h
  | (name, elementType) :: elements, ident, parser, h => by
      rw [parserOf] at h
      cases hlast : parserOf lib elements ident with
      | some found =>
          simp only [hlast] at h
          cases h
          exact stays_parserOf elements ident _ hlast
      | none =>
          simp only [hlast] at h
          split at h
          · cases h
            exact stays_parse elementType true
          · cases h

end

/-! ## Where literals are cut -/

mutual

/-- No literal that the parser of the type comes to is cut inside a character. -/
def CutsWell : VarType → (forceQuotedStrings : Bool) → Text → Prop
  | .scalar .str, true => LiteralCutsWell
  | .scalar _, _ => fun _ => True
  | .array elementType, _ => fun input =>
      ∀ rest u, whiteSpace (char '[') input = .ok rest u →
        ∀ place, Tries comma (parse lib elementType true) rest place →
          CutsWell elementType true place
  | .tuple elementTypes, _ => fun input =>
      ∀ rest u, whiteSpace (char '(') input = .ok rest u →
        ElementsCutWell elementTypes true rest
  | .namedTuple elements, _ => fun input =>
      ∀ rest u, whiteSpace (char '(') input = .ok rest u →
        ∀ place, Tries comma (parseField (elements.map Prod.fst) (parserOf lib elements)) rest place →
          ∀ mid element, fieldName (elements.map Prod.fst) (parserOf lib elements) place =
            .ok mid element → ElementCutsWell elements element.1 mid

def ElementsCutWell : List VarType → (first : Bool) → Text → Prop
  | [], _ => fun _ => True
  | elementType :: elementTypes, first => fun input =>
      ∀ rest u, cond (!first) comma input = .ok rest u →
        CutsWell elementType true rest ∧ ∀ mid value, parse lib elementType true rest =
          .ok mid value → ElementsCutWell elementTypes false mid

/-- No literal in the element of this name is. -/
def ElementCutsWell : List (Text × VarType) → Text → Text → Prop
  | [], _ => fun _ => True
  | (name, elementType) :: elements, ident => fun input =>
      if (parserOf lib elements ident).isSome then ElementCutsWell elements ident input
      else name = ident → CutsWell elementType true input

end

mutual

theorem parse_ne_panic : ∀ (type : VarType) (forceQuotedStrings : Bool) (input : Text),
    parse lib type forceQuotedStrings input ≠ .panic ↔
      CutsWell lib type forceQuotedStrings input
  | .scalar scalar, forceQuotedStrings, input => by
      rw [parse]
      by_cases hstr : scalar = .str ∧ forceQuotedStrings = true
      · obtain ⟨rfl, rfl⟩ := hstr
        rw [CutsWell, parseScalar, map_ne_panic]
        exact parseStr_ne_panic
      · have hstays : Stays False (parseScalar lib scalar forceQuotedStrings) :=
          stays_parseScalar fun h => by
            cases forceQuotedStrings with
            | true => exact absurd ⟨h, rfl⟩ hstr
            | false => rfl
        refine iff_of_true (hstays.ne_panic input) ?_
        rw [CutsWell.eq_2]
        · trivial
        · intro h h'
          exact hstr ⟨h', h⟩
  | .array elementType, _, input => by
      rw [parse, CutsWell, parseArray_ne_panic (stays_parse lib elementType true)]
      simp only [parse_ne_panic elementType true]
  | .tuple elementTypes, _, input => by
      rw [parse, CutsWell, parseTuple_ne_panic]
      simp only [parseElements_ne_panic elementTypes true]
  | .namedTuple elements, _, input => by
      rw [parse, CutsWell, parseNamedTuple_ne_panic (stays_parserOf lib elements)
        fun ident parser h => mem_of_parserOf lib h]
      refine forall₃_congr fun rest u _ => forall₃_congr fun place _ mid => ?_
      exact forall₂_congr fun element hname =>
        parserOf_ne_panic elements element.1 element.2 (get_of_fieldName hname) mid

theorem parseElements_ne_panic : ∀ (elementTypes : List VarType) (first : Bool) (input : Text),
    parseElements lib elementTypes first input ≠ .panic ↔
      ElementsCutWell lib elementTypes first input
  | [], _, input => by
      rw [parseElements, ElementsCutWell]
      exact iff_of_true (fun h => by cases h) trivial
  | elementType :: elementTypes, first, input => by
      rw [parseElements, ElementsCutWell, next_ne_panic,
        and_iff_right ((stays_comma.cond (!first)).ne_panic input)]
      refine forall₃_congr fun rest u _ => ?_
      rw [next_ne_panic, parse_ne_panic elementType true rest]
      refine and_congr_right fun _ => forall₃_congr fun mid value _ => ?_
      rw [next_ne_panic, parseElements_ne_panic elementTypes false mid]
      exact and_iff_left fun _ _ _ h => by cases h

theorem parserOf_ne_panic : ∀ (elements : List (Text × VarType)) (ident : Text)
    (parser : Parser (Value V)), parserOf lib elements ident = some parser →
      ∀ input, parser input ≠ .panic ↔ ElementCutsWell lib elements ident input
  | [], _, _, h, _ => by cases h
  | (name, elementType) :: elements, ident, parser, h, input => by
      rw [ElementCutsWell]
      rw [parserOf] at h
      cases hlast : parserOf lib elements ident with
      | some found =>
          simp only [hlast] at h
          cases h
          exact parserOf_ne_panic elements ident _ hlast input
      | none =>
          simp only [hlast] at h
          split at h
          · next hname =>
            cases h
            rw [parse_ne_panic elementType true input]
            exact ⟨fun h _ => h, fun h => h hname⟩
          · cases h

end

end Types

/-- **A variable is read without a panic, and leaves the end of the input, exactly if no
literal that the parser comes to is cut inside a character.** -/
theorem parse_leaves_iff {V : Type} (lib : Library V) (type : VarType) (forceQuotedStrings : Bool)
    (input : Text) :
    (parse lib type forceQuotedStrings input ≠ .panic ∧
      ∀ rest value, parse lib type forceQuotedStrings input = .ok rest value → rest <:+ input) ↔
        CutsWell lib type forceQuotedStrings input := by
  rw [parse_ne_panic]
  exact and_iff_left fun rest value h => (stays_parse lib type forceQuotedStrings).suffix h

/-- The other conversions are not come to. -/
def sampleLibrary : Library Text where
  unquoteString := unescape
  isAlphanumeric := Char.isAlphanum
  uuid digits := .ok digits
  float32 digits := some digits
  float64 digits := some digits
  bigint digits := .ok digits
  decimal digits := .ok digits
  byteOffset _ := .error "expected value at line 1 column 1".toList
  boundary _ _ h := by cases h

/-- A letter of two bytes in an array makes the cut fall inside it. -/
theorem parse_array_accent_panics :
    ¬ (parse sampleLibrary (.array (.scalar .str)) false "['é']".toList ≠ .panic ∧
      ∀ rest value, parse sampleLibrary (.array (.scalar .str)) false "['é']".toList =
        .ok rest value → rest <:+ "['é']".toList) := by
  intro h
  refine h.1 ?_
  rw [parse]
  rfl

end GelCli.Prompt
