import GelCli.Print.Content

/-!
# The normal form of contents

What a value shows is in normal form: it has no trailing comma to strip, and its
brackets match. The first makes the canonical text of a list of rows canonical,
the second tells an output without its closing bracket from a complete one.
-/

namespace GelCli.Print

/-! ## No trailing commas -/

/-- A text that can stand between commas: it has no trailing commas of its own,
does not begin with a closing bracket and does not end with a comma. -/
structure Tight (ts : List Token) : Prop where
  strip_eq : strip ts = ts
  head : ∀ s rest, ts ≠ .closing s :: rest
  last : ts.getLast? ≠ some .comma
  ne_nil : ts ≠ []

theorem pushToken_ne_nil (t : Token) (ts : List Token) : pushToken t ts ≠ [] := by
  cases t <;> cases ts with
  | nil => simp [pushToken]
  | cons u us => cases u <;> simp [pushToken]

theorem strip_append {b : List Token} (hb : ∀ s rest, strip b ≠ .closing s :: rest)
    (a : List Token) : strip (a ++ b) = strip a ++ strip b := by
  induction a with
  | nil => rfl
  | cons t a ih =>
      rw [List.cons_append, strip_cons, strip_cons, ih]
      cases hs : strip a with
      | nil =>
          cases hsb : strip b with
          | nil => cases t <;> rfl
          | cons u us => cases t <;> cases u <;> first | rfl | exact absurd hsb (hb _ _)
      | cons u us => cases t <;> cases u <;> rfl

theorem strip_append_closing {a : List Token} (ha : a.getLast? ≠ some .comma)
    (s : String) (rest : List Token) :
    strip (a ++ .closing s :: rest) = strip a ++ strip (.closing s :: rest) := by
  induction a with
  | nil => rfl
  | cons t a ih =>
      cases a with
      | nil =>
          have ht : t ≠ .comma := by
            rintro rfl
            exact ha rfl
          show strip (t :: .closing s :: rest) = strip [t] ++ _
          rw [strip_cons, strip_cons t [], pushToken_ne_comma ht, pushToken_ne_comma ht]
          rfl
      | cons u us =>
          have ha' : (u :: us).getLast? ≠ some .comma := by
            rwa [List.getLast?_cons_cons] at ha
          rw [List.cons_append, strip_cons, strip_cons t, ih ha']
          cases hs : strip (u :: us) with
          | nil => exact absurd hs (pushToken_ne_nil _ _)
          | cons v vs => cases t <;> cases v <;> rfl

theorem Tight.singleton {t : Token} (hclosing : ∀ s, t ≠ .closing s) (hcomma : t ≠ .comma) :
    Tight [t] where
  strip_eq := pushToken_ne_comma hcomma []
  head := by
    intro s rest h
    exact hclosing s (List.cons.inj h).1
  last := by
    intro h
    exact hcomma (Option.some.inj h)
  ne_nil := by simp

/-- A token that is neither comma nor closing bracket in front of a text. -/
theorem Tight.cons {t : Token} {ts : List Token} (hclosing : ∀ s, t ≠ .closing s)
    (hcomma : t ≠ .comma) (h : Tight ts) : Tight (t :: ts) where
  strip_eq := by rw [strip_cons, h.strip_eq, pushToken_ne_comma hcomma]
  head := by
    intro s rest heq
    exact hclosing s (List.cons.inj heq).1
  last := by
    cases ts with
    | nil => exact absurd rfl h.ne_nil
    | cons u us =>
        rw [List.getLast?_cons_cons]
        exact h.last
  ne_nil := by simp

/-- Two texts with a comma between them. -/
theorem Tight.comma {a b : List Token} (ha : Tight a) (hb : Tight b) :
    Tight (a ++ .comma :: b) where
  strip_eq := by
    have hcomma : strip (.comma :: b) = .comma :: b := by
      rw [strip_cons, hb.strip_eq]
      cases b with
      | nil => rfl
      | cons u us => cases u <;> first | rfl | exact absurd rfl (hb.head _ _)
    rw [strip_append (by rw [hcomma]; simp), ha.strip_eq, hcomma]
  head := by
    intro s rest heq
    cases a with
    | nil => exact ha.ne_nil rfl
    | cons t a => exact ha.head s a (by rw [(List.cons.inj heq).1])
  last := by
    cases b with
    | nil => exact absurd rfl hb.ne_nil
    | cons u us => simpa [List.getLast?_cons_cons] using hb.last
  ne_nil := by simp

theorem Tight.separated {items : List (List Token)} {more : Bool}
    (h : ∀ item ∈ items, Tight item) (hne : items ≠ [] ∨ more = true) :
    Tight (separated items more) := by
  induction items with
  | nil =>
      obtain rfl : more = true := hne.resolve_left (by simp)
      exact Tight.singleton (by simp) (by simp)
  | cons item items ih =>
      have hitem : Tight item := h item (List.mem_cons_self ..)
      rw [separated_cons]
      split
      · exact hitem
      · next hrest =>
          apply hitem.comma
          apply ih fun item' h' => h item' (List.mem_cons_of_mem _ h')
          by_cases hitems : items = []
          · exact Or.inr (by simpa [hitems] using hrest)
          · exact Or.inl hitems

/-- A bracketed list of such texts has no trailing comma either. -/
theorem strip_bracketed {inner : List Token} (opening closing : String)
    (h : inner = [] ∨ Tight inner) :
    strip (.opening opening :: inner ++ [.closing closing]) =
      .opening opening :: inner ++ [.closing closing] := by
  rw [List.cons_append, strip_cons, pushToken_ne_comma (by simp)]
  rcases h with rfl | h
  · rfl
  · rw [strip_append_closing h.last, h.strip_eq]
    rfl

theorem Tight.bracketed {inner : List Token} (opening closing : String)
    (h : inner = [] ∨ Tight inner) : Tight (.opening opening :: inner ++ [.closing closing]) where
  strip_eq := strip_bracketed opening closing h
  head := by
    intro s rest heq
    cases heq
  last := by
    rw [List.getLast?_concat]
    simp
  ne_nil := by simp

theorem separated_tight {items : List (List Token)} {more : Bool}
    (h : ∀ item ∈ items, Tight item) :
    separated items more = [] ∨ Tight (separated items more) := by
  cases items with
  | cons item items => exact Or.inr (Tight.separated h (Or.inl (by simp)))
  | nil =>
      cases more with
      | true => exact Or.inr (Tight.separated h (Or.inr rfl))
      | false => exact Or.inl rfl

theorem VectorShows.tight {items : List String} {shown : List Token}
    (h : VectorShows items shown) : shown = [] ∨ Tight shown := by
  have hitems : ∀ tokens : List (List Token),
      tokens ⊆ items.map (fun item => [Token.text item]) → ∀ item ∈ tokens, Tight item := by
    intro tokens hsub item hitem
    obtain ⟨text, -, rfl⟩ := List.mem_map.mp (hsub hitem)
    exact Tight.singleton (by simp) (by simp)
  rcases h with rfl | ⟨k, hk, hlen, rfl | rfl⟩
  · exact separated_tight (hitems _ (List.Subset.refl _))
  · exact separated_tight (hitems _ (List.take_subset _ _))
  · right
    have hne : (items.map fun item => [Token.text item]).take k ≠ [] := by
      apply List.ne_nil_of_length_pos
      rw [List.length_take, List.length_map]
      omega
    have htight : Tight (separated _ false) :=
      Tight.separated (hitems _ (List.take_subset k _)) (Or.inl hne)
    refine ⟨?_, ?_, ?_, by simp⟩
    · rw [strip_append (by simp [strip, pushToken]), htight.strip_eq]
      rfl
    · intro s rest heq
      cases hs : separated ((items.map fun item => [Token.text item]).take k) false with
      | nil => exact htight.ne_nil hs
      | cons t ts =>
          rw [hs] at heq
          exact htight.head s ts (by rw [hs, (List.cons.inj heq).1])
    · rw [List.getLast?_concat]
      simp

mutual
/-- The content of a value is in normal form: nothing is left to strip. -/
theorem Doc.Shows.tight : ∀ {doc : Doc} {ts : List Token}, doc.Shows ts → Tight ts
  | .const _ _, _, h => by
      obtain rfl := h
      exact Tight.singleton (by simp) (by simp)
  | .typed _ _, _, h => by
      obtain rfl := h
      exact Tight.cons (by simp) (by simp) (Tight.singleton (by simp) (by simp))
  | .vector _, _, h => by
      obtain ⟨shown, hshown, rfl⟩ := h
      exact Tight.bracketed _ _ hshown.tight
  | .block _ opening closing entries more, _, h => by
      obtain ⟨items, hitems, rfl⟩ := h
      exact Tight.bracketed opening closing (separated_tight (Entries.Shows.tight hitems))

theorem Entries.Shows.tight : ∀ {entries : Entries} {items : List (List Token)},
    entries.Shows items → ∀ item ∈ items, Tight item
  | .nil, _, h => by
      obtain rfl := h
      simp
  | .cons fld value entries, _, h => by
      obtain ⟨ts, rest, hts, hrest, rfl⟩ := h
      intro item hitem
      rcases List.mem_cons.mp hitem with rfl | hitem
      · have htight := Doc.Shows.tight hts
        cases fld with
        | none => exact htight
        | some fld =>
            cases fld with
            | object name linkprop =>
                exact Tight.cons (by simp) (by simp) (Tight.cons (by simp) (by simp) htight)
            | tuple name =>
                exact Tight.cons (by simp) (by simp) (Tight.cons (by simp) (by simp) htight)
      · exact Entries.Shows.tight hrest item hitem
end

/-! ## Brackets -/

def Token.isOpening : Token → Bool
  | .opening _ => true
  | _ => false

def Token.isClosing : Token → Bool
  | .closing _ => true
  | _ => false

/-- As many opening as closing brackets. -/
def Balanced (ts : List Token) : Prop :=
  ts.countP Token.isOpening = ts.countP Token.isClosing

theorem Balanced.append {a b : List Token} (ha : Balanced a) (hb : Balanced b) :
    Balanced (a ++ b) := by
  unfold Balanced at *
  rw [List.countP_append, List.countP_append, ha, hb]

/-- Trailing commas are no brackets. -/
theorem countP_strip {f : Token → Bool} (hf : f .comma = false) (ts : List Token) :
    (strip ts).countP f = ts.countP f := by
  induction ts with
  | nil => rfl
  | cons t ts ih =>
      rw [strip_cons, List.countP_cons, ← ih]
      by_cases ht : t = .comma
      · subst ht
        cases strip ts with
        | nil => simp [pushToken, hf]
        | cons u us => cases u <;> simp [pushToken, hf, List.countP_cons]
      · rw [pushToken_ne_comma ht, List.countP_cons]

theorem balanced_commaed {items : List (List Token)} (h : ∀ item ∈ items, Balanced item) :
    Balanced (commaed items) := by
  induction items with
  | nil => rfl
  | cons item items ih =>
      rw [commaed_cons]
      have hrest : Balanced (.comma :: commaed items) :=
        Balanced.append (a := [.comma]) rfl
          (ih fun item' h' => h item' (List.mem_cons_of_mem _ h'))
      exact (h item (List.mem_cons_self ..)).append hrest

theorem balanced_separated {items : List (List Token)} (more : Bool)
    (h : ∀ item ∈ items, Balanced item) : Balanced (separated items more) := by
  cases more with
  | true =>
      rw [separated_true]
      exact (balanced_commaed h).append rfl
  | false =>
      by_cases hitems : items = []
      · subst hitems
        rfl
      · have hcommas := balanced_commaed h
        rw [commaed_eq items hitems] at hcommas
        unfold Balanced at *
        simpa [Token.isOpening, Token.isClosing] using hcommas

theorem balanced_bracketed {inner : List Token} (opening closing : String)
    (h : Balanced inner) : Balanced (.opening opening :: inner ++ [.closing closing]) := by
  unfold Balanced at *
  simp [List.countP_cons, Token.isOpening, Token.isClosing, h]

theorem VectorShows.balanced {items : List String} {shown : List Token}
    (h : VectorShows items shown) : Balanced shown := by
  have hitems : ∀ tokens : List (List Token), tokens ⊆ items.map (fun item => [Token.text item]) →
      ∀ item ∈ tokens, Balanced item := by
    intro tokens hsub item hitem
    obtain ⟨text, -, rfl⟩ := List.mem_map.mp (hsub hitem)
    rfl
  rcases h with rfl | ⟨k, -, -, rfl | rfl⟩
  · exact balanced_separated false (hitems _ (List.Subset.refl _))
  · exact balanced_separated true (hitems _ (List.take_subset _ _))
  · exact (balanced_separated false (hitems _ (List.take_subset _ _))).append rfl

mutual
/-- The brackets of a value match. -/
theorem Doc.Shows.balanced : ∀ {doc : Doc} {ts : List Token}, doc.Shows ts → Balanced ts
  | .const _ _, _, h => by
      obtain rfl := h
      rfl
  | .typed _ _, _, h => by
      obtain rfl := h
      rfl
  | .vector _, _, h => by
      obtain ⟨shown, hshown, rfl⟩ := h
      exact balanced_bracketed _ _ hshown.balanced
  | .block _ opening closing entries more, _, h => by
      obtain ⟨items, hitems, rfl⟩ := h
      exact balanced_bracketed opening closing
        (balanced_separated more (Entries.Shows.balanced hitems))

theorem Entries.Shows.balanced : ∀ {entries : Entries} {items : List (List Token)},
    entries.Shows items → ∀ item ∈ items, Balanced item
  | .nil, _, h => by
      obtain rfl := h
      simp
  | .cons fld value entries, _, h => by
      obtain ⟨ts, rest, hts, hrest, rfl⟩ := h
      intro item hitem
      rcases List.mem_cons.mp hitem with rfl | hitem
      · refine Balanced.append ?_ (Doc.Shows.balanced hts)
        cases fld with
        | none => rfl
        | some fld => cases fld <;> rfl
      · exact Entries.Shows.balanced hrest item hitem
end

/-! ## One content -/

mutual
/-- No part of the value is cut to the width. -/
def Doc.Fixed : Doc → Prop
  | .const _ _ => True
  | .typed _ _ => True
  | .block _ _ _ entries _ => Entries.Fixed entries
  | .vector _ => False

def Entries.Fixed : Entries → Prop
  | .nil => True
  | .cons _ value entries => Doc.Fixed value ∧ Entries.Fixed entries
end

mutual
/-- Such a value has one content, whatever the layout. -/
theorem Doc.Shows.unique : ∀ {doc : Doc} {ts ts' : List Token}, doc.Fixed →
    doc.Shows ts → doc.Shows ts' → ts = ts'
  | .const _ _, _, _, _, h, h' => Eq.trans h (Eq.symm h')
  | .typed _ _, _, _, _, h, h' => Eq.trans h (Eq.symm h')
  | .vector _, _, _, hfixed, _, _ => hfixed.elim
  | .block _ _ _ _ _, _, _, hfixed, h, h' => by
      obtain ⟨items, hitems, rfl⟩ := h
      obtain ⟨items', hitems', rfl⟩ := h'
      rw [Entries.Shows.unique hfixed hitems hitems']

theorem Entries.Shows.unique : ∀ {entries : Entries} {items items' : List (List Token)},
    entries.Fixed → entries.Shows items → entries.Shows items' → items = items'
  | .nil, _, _, _, h, h' => Eq.trans h (Eq.symm h')
  | .cons _ _ _, _, _, hfixed, h, h' => by
      obtain ⟨ts, rest, hts, hrest, rfl⟩ := h
      obtain ⟨ts', rest', hts', hrest', rfl⟩ := h'
      rw [Doc.Shows.unique hfixed.1 hts hts', Entries.Shows.unique hfixed.2 hrest hrest']
end

end GelCli.Print
