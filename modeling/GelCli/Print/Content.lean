import GelCli.Print.Formatter

/-!
# What a printed text shows

The content of an output is what is left of it without layout: no whitespace, no
line breaks, no trailing commas, and without the hint that the ellipsis carries
when it stands on a line of its own. `Doc.Shows` says which content a value has,
with no reference to the printer; only a vector that is cut to the width has
more than one.
-/

namespace GelCli.Print

inductive Token where
  | text (s : String)
  | opening (s : String)
  | closing (s : String)
  | comma
  | dots
deriving DecidableEq, Repr

@[simp] def Piece.token : Piece → Option Token
  | .text s => some (.text s)
  | .opening s => some (.opening s)
  | .closing s => some (.closing s)
  | .comma => some .comma
  | .dots => some .dots
  | .hint _ => none
  | .spaces _ => none
  | .newline => none

def CString.tokens (s : CString) : List Token := s.pieces.filterMap Piece.token

def tokens (strings : List CString) : List Token := strings.flatMap CString.tokens

@[simp] theorem tokens_nil : tokens [] = [] := rfl

@[simp] theorem tokens_append (a b : List CString) :
    tokens (a ++ b) = tokens a ++ tokens b :=
  List.flatMap_append

@[simp] theorem tokens_cons (s : CString) (strings : List CString) :
    tokens (s :: strings) = s.tokens ++ tokens strings :=
  List.flatMap_cons

@[simp] theorem tokens_styled (style : Style) (piece : Piece) :
    (styled style piece).tokens = piece.token.toList := by
  cases piece <;> rfl

@[simp] theorem tokens_unstyled_nil : (unstyled []).tokens = [] := rfl

@[simp] theorem tokens_unstyled_cons (piece : Piece) (pieces : List Piece) :
    (unstyled (piece :: pieces)).tokens = piece.token.toList ++ (unstyled pieces).tokens := by
  cases piece <;> rfl

/-! ## Trailing commas -/

/-- Putting a token in front, unless it is a comma before a closing bracket. -/
def pushToken : Token → List Token → List Token
  | .comma, .closing s :: ts => .closing s :: ts
  | t, ts => t :: ts

/-- The tokens without trailing commas. -/
def strip (ts : List Token) : List Token := ts.foldr pushToken []

def content (strings : List CString) : List Token := strip (tokens strings)

theorem pushToken_ne_comma {t : Token} (ht : t ≠ .comma) (ts : List Token) :
    pushToken t ts = t :: ts := by
  cases t <;> first | rfl | exact absurd rfl ht

theorem strip_cons (t : Token) (ts : List Token) :
    strip (t :: ts) = pushToken t (strip ts) := rfl

theorem strip_append_right {b b' : List Token} (h : strip b = strip b') (a : List Token) :
    strip (a ++ b) = strip (a ++ b') := by
  unfold strip at *
  rw [List.foldr_append, List.foldr_append, h]

theorem strip_strip_append (a b : List Token) : strip (strip a ++ b) = strip (a ++ b) := by
  induction a with
  | nil => rfl
  | cons t a ih =>
      rw [List.cons_append, strip_cons, strip_cons, ← ih]
      by_cases ht : t = .comma
      · subst ht
        cases hs : strip a with
        | nil => rfl
        | cons u us =>
            by_cases hu : ∃ s, u = .closing s
            · obtain ⟨s, rfl⟩ := hu
              show strip (Token.closing s :: us ++ b) =
                pushToken .comma (strip (.closing s :: us ++ b))
              rw [List.cons_append, strip_cons, pushToken_ne_comma (by simp)]
              rfl
            · have hpush : pushToken .comma (u :: us) = .comma :: u :: us := by
                cases u <;> first | rfl | exact absurd ⟨_, rfl⟩ hu
              rw [hpush, List.cons_append, strip_cons]
      · rw [pushToken_ne_comma ht, List.cons_append, strip_cons]

theorem strip_append_left {a a' : List Token} (h : strip a = strip a') (b : List Token) :
    strip (a ++ b) = strip (a' ++ b) := by
  rw [← strip_strip_append a, ← strip_strip_append a', h]

theorem strip_append_comma (a : List Token) :
    strip (a ++ [.comma]) = strip a ++ [.comma] := by
  induction a with
  | nil => rfl
  | cons t a ih =>
      rw [List.cons_append, strip_cons, ih, strip_cons]
      cases hs : strip a with
      | nil => cases t <;> rfl
      | cons u us => cases t <;> cases u <;> rfl

/-! ## The content of a value -/

def Field.tokens : Field → List Token
  | .object name _ => [.text name, .text ": "]
  | .tuple name => [.text name, .text " := "]

/-- Elements with a comma between neighbours, the dots being the last one. -/
def separated (items : List (List Token)) (more : Bool) : List Token :=
  [Token.comma].intercalate (items ++ if more then [[.dots]] else [])

/-- A vector shows all its items or, with at least three of them, a proper
prefix followed by the dots. -/
def VectorShows (items : List String) (shown : List Token) : Prop :=
  let tokens := items.map fun item => [Token.text item]
  shown = separated tokens false ∨
    ∃ k, 3 ≤ k ∧ k < items.length ∧
      (shown = separated (tokens.take k) true ∨
        shown = separated (tokens.take k) false ++ [.dots])

mutual
def Doc.Shows : Doc → List Token → Prop
  | .const _ text, ts => ts = [.text text]
  | .typed typ text, ts =>
      ts = [.text ("<" ++ typ ++ ">"), .text ("'" ++ escapeDefault text ++ "'")]
  | .block _ opening closing entries more, ts =>
      ∃ items, Entries.Shows entries items ∧
        ts = .opening opening :: separated items more ++ [.closing closing]
  | .vector items, ts =>
      ∃ shown, VectorShows items shown ∧
        ts = .opening "<ext::pgvector::vector>[" :: shown ++ [.closing "]"]

/-- One list of tokens for every entry. -/
def Entries.Shows : Entries → List (List Token) → Prop
  | .nil, items => items = []
  | .cons fld value entries, items =>
      ∃ ts rest, Doc.Shows value ts ∧ Entries.Shows entries rest ∧
        items = ((fld.map Field.tokens).getD [] ++ ts) :: rest
end

/-- Every element followed by a comma, as the printer goes through them. -/
def commaed (items : List (List Token)) : List Token := items.flatMap (· ++ [.comma])

theorem commaed_cons (item : List Token) (items : List (List Token)) :
    commaed (item :: items) = item ++ .comma :: commaed items := by
  simp [commaed]

theorem separated_cons (item : List Token) (items : List (List Token)) (more : Bool) :
    separated (item :: items) more =
      if items = [] ∧ more = false then item
      else item ++ .comma :: separated items more := by
  unfold separated
  cases items with
  | nil => cases more <;> simp [List.intercalate, List.intersperse]
  | cons item' items => simp [List.intercalate]

theorem separated_true (items : List (List Token)) :
    separated items true = commaed items ++ [.dots] := by
  induction items with
  | nil => rfl
  | cons item items ih => simp [separated_cons, commaed_cons, ih]

theorem commaed_eq (items : List (List Token)) (h : items ≠ []) :
    commaed items = separated items false ++ [.comma] := by
  induction items with
  | nil => exact absurd rfl h
  | cons item items ih =>
      rw [commaed_cons, separated_cons]
      by_cases hitems : items = []
      · simp [hitems, commaed]
      · simp [hitems, ih hitems]

/-- Before a closing bracket the printer's trailing comma makes no difference. -/
theorem strip_commaed_close (items : List (List Token)) (more : Bool) (close : String) :
    strip (commaed items ++ (if more then [Token.dots] else []) ++ [.closing close]) =
      strip (separated items more ++ [.closing close]) := by
  cases more with
  | true => simp [separated_true]
  | false =>
      by_cases hitems : items = []
      · subst hitems
        rfl
      · simp only [Bool.false_eq_true, if_false, List.append_nil]
        rw [commaed_eq items hitems, List.append_assoc]
        exact strip_append_right (by rfl) _

end GelCli.Print
