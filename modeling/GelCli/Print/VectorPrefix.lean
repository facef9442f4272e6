import GelCli.Print.Complete

/-!
# Vectors as prefixes

A vector is printed in full, or as a prefix of at least three items and the dots behind a
comma of their own. `printsVector_iff` says when: unless the attempt on the vector's own line
ends inside an item, which takes the comma with it.
-/

namespace GelCli.Print

variable {cfg : PrinterConfig}

/-! ## Prefixes -/

/-- All items with a comma between neighbours, or the first ones, at least three of them, with
the dots as one more element. -/
def VectorPrefix (items : List String) (ts : List Token) : Prop :=
  ts = separated (itemTokens items) false ∨
    ∃ k, 3 ≤ k ∧ k < items.length ∧ ts = separated (itemTokens (items.take k)) true

theorem VectorPrefix.vectorShows {items : List String} {ts : List Token}
    (h : VectorPrefix items ts) : VectorShows items ts := by
  rcases h with rfl | ⟨k, hk, hlength, rfl⟩
  · exact vectorShows_all items
  · exact .inr ⟨k, hk, hlength, .inl (by rw [itemTokens, List.map_take])⟩

theorem mem_separated {items : List (List Token)} {t : Token} (h : t ∈ separated items false) :
    t = .comma ∨ ∃ item ∈ items, t ∈ item := by
  induction items with
  | nil => cases h
  | cons item items ih =>
      rw [separated_cons] at h
      split at h
      · exact .inr ⟨item, List.mem_cons_self, h⟩
      · rcases List.mem_append.mp h with h | h
        · exact .inr ⟨item, List.mem_cons_self, h⟩
        · rcases List.mem_cons.mp h with rfl | h
          · exact .inl rfl
          · rcases ih h with rfl | ⟨item', hitem', h⟩
            · exact .inl rfl
            · exact .inr ⟨item', List.mem_cons_of_mem _ hitem', h⟩

theorem dots_notMem_separated (items : List String) :
    Token.dots ∉ separated (itemTokens items) false := by
  intro h
  rcases mem_separated h with h | ⟨item, hitem, h⟩
  · cases h
  · obtain ⟨text, -, rfl⟩ := List.mem_map.mp hitem
    cases List.mem_singleton.mp h

/-- Dots without a comma of their own are no element. -/
theorem not_vectorPrefix_bare {items before : List String} (hne : before ≠ []) :
    ¬ VectorPrefix items (separated (itemTokens before) false ++ [.dots]) := by
  rintro (h | ⟨k, hk, hlength, h⟩)
  · apply dots_notMem_separated items
    rw [← h]
    exact List.mem_append_right _ (List.mem_singleton_self _)
  · have htake : itemTokens (items.take k) ≠ [] := by
      apply List.ne_nil_of_length_pos
      rw [itemTokens, List.length_map, List.length_take]
      omega
    rw [separated_true, commaed_eq _ htake] at h
    have htight : Tight (separated (itemTokens before) false) := by
      apply Tight.separated
      · intro item hitem
        obtain ⟨text, -, rfl⟩ := List.mem_map.mp hitem
        exact Tight.singleton (by simp) (by simp)
      · exact .inl (by simpa [itemTokens] using hne)
    apply htight.last
    rw [List.append_cancel_right h, List.getLast?_concat]

/-! ## Where the margin is crossed -/

def openingBracket : String := "<ext::pgvector::vector>["

/-- The column behind the opening bracket of a vector on a line of its own. -/
def openColumn (p : Printer) : Nat :=
  (if p.delim = .comma then 0 else p.column) + (if p.delim = .field then 0 else p.curIndent) +
    openingBracket.length

/-- Behind three items or more, each with room left for the dots, one goes over the margin. -/
def CrossesMargin (cfg : PrinterConfig) (items : List String) (p : Printer) : Prop :=
  ∃ before item place, StopsAt cfg items (.none, openColumn p) before item place ∧
    3 ≤ before.length ∧ fitConst cfg .number item place = none

theorem BrokenVector.vectorPrefix_iff {items : List String} {p : Printer} {ts : List Token}
    (h : BrokenVector cfg items (.none, openColumn p) ts) :
    VectorPrefix items ts ↔ ¬ CrossesMargin cfg items p := by
  rcases h with h | ⟨hstops, hthree, hitem⟩ | ⟨hstops, hthree, hitem⟩ | ⟨hshort, -⟩
  · refine iff_of_true (.inl rfl) ?_
    rintro ⟨before, item, place, hstops, -, -⟩
    rw [fitVector, hstops.none] at h
    cases h
  · refine iff_of_true (.inr ⟨_, hthree, hstops.take.1, ?_⟩) ?_
    · rw [hstops.take.2, itemTokens, itemTokens, List.map_take]
    · rintro ⟨before', item', place', hstops', -, hitem'⟩
      obtain ⟨rfl, rfl, rfl⟩ := hstops.unique hstops'
      exact hitem hitem'
  · refine iff_of_false (not_vectorPrefix_bare ?_) fun h => h ⟨_, _, _, hstops, hthree, hitem⟩
    rintro rfl
    cases hthree
  · refine iff_of_true ?_ ?_
    · by_cases hdrop : items.drop 3 = []
      · have hlength : items.length ≤ 3 := List.drop_eq_nil_iff.mp hdrop
        refine .inl ?_
        rw [List.take_of_length_le hlength]
        simp [hdrop]
      · have hlength : 3 < items.length :=
          Nat.lt_of_not_le fun hle => hdrop (List.drop_eq_nil_iff.mpr hle)
        exact .inr ⟨3, Nat.le_refl 3, hlength, by simp [hdrop]⟩
    · rintro ⟨before, item, place, hstops, hthree, -⟩
      exact absurd (hshort _ _ _ hstops) (by omega)

/-! ## The column behind the bracket -/

theorem advance_plain {graphemes : List String} (h : "\n" ∉ graphemes) (p : Printer) :
    advance p graphemes = .ok { p with column := p.column + graphemes.length } := by
  induction graphemes generalizing p with
  | nil => rfl
  | cons g graphemes ih =>
      obtain ⟨hne, hrest⟩ := List.ne_and_not_mem_of_not_mem_cons h
      rw [advance, if_neg (Ne.symm hne), ih hrest, List.length_cons, Nat.add_assoc,
        Nat.add_comm 1]

theorem write_column {p p' : Printer} {s : CString}
    (hplain : isPlain s.toStr = true) (h : write cfg s p = .ok p') :
    p'.column = p.column + s.toStr.length := by
  obtain ⟨hline, hlength⟩ := graphemes_plain cfg hplain
  rw [write, advance_plain hline, hlength] at h
  simp only [bind, Except.bind] at h
  split at h
  · cases h
  · cases h
    rfl

theorem delimit_column {p q : Printer} (hflow : p.flow = false) (h : delimit cfg p = .ok q) :
    q.column = (if p.delim = .comma then 0 else p.column) +
      (if p.delim = .field then 0 else p.curIndent) := by
  unfold delimit at h
  cases hdelim : p.delim with
  | none =>
      simp [hdelim, hflow, bind, Except.bind, writeIndent] at h
      simp [← h]
  | comma =>
      obtain ⟨c, hwrite⟩ := write_broken cfg hflow (unstyled [.comma])
      simp [hdelim, hflow, hwrite, bind, Except.bind, writeIndent, commitLine, flushBuf] at h
      simp [← h]
  | field =>
      simp [hdelim, hflow, bind, Except.bind] at h
      simp [← h]

theorem commit_column (p : Printer) : (commit cfg p).column = p.column := by
  simp only [commit]
  split <;> rfl

theorem openBlock_column {p p₁ : Printer} {s : CString} {flag : Bool}
    (hplain : isPlain s.toStr = true) (hdelim : p.delim = .none)
    (h : openBlock cfg s p = .ok (flag, p₁)) : p₁.column = p.column + s.toStr.length := by
  rw [openBlock_eq hdelim] at h
  cases hwrite : write cfg s p with
  | error q =>
      rw [hwrite] at h
      cases h
  | ok q =>
      rw [hwrite] at h
      have hcolumn := write_column hplain hwrite
      simp only [bind, Except.bind] at h
      split at h
      · cases h
        exact hcolumn
      · cases h
        exact (commit_column q).trans hcolumn

/-! ## The printed vector -/

/-- What a vector adds to the output, its brackets included. -/
def vectorTokens (ts : List Token) : List Token := .opening openingBracket :: ts ++ [.closing "]"]

theorem autoSizedVector_broken (items : List String) {p : Printer} (hflow : p.flow = false) :
    ∃ p' ts, autoSizedVector cfg items p = .ok p' ∧
      BrokenVector cfg items (.none, openColumn p) ts ∧
      Same (shown p') (shown p ++ vectorTokens ts) := by
  obtain ⟨q, ts, hop, hflow', -, hdelim, rfl, hsame⟩ := (prints_delimit cfg).broken p hflow trivial
  have hdelim : q.delim = .none := hdelim
  obtain ⟨p₁, hopen, hopened⟩ :=
    openBlock_broken cfg hflow' hdelim (styled .array (.opening openingBracket))
  have hcolumn : p₁.column = openColumn p := by
    rw [openBlock_column rfl hdelim hopen, delimit_column hflow hop]
    rfl
  obtain ⟨p', ts, hrest, -, -, -, hts, hsame'⟩ := vectorRest_broken items hopened
  rw [hopened.delim, hcolumn] at hts
  refine ⟨p', ts, ?_, hts, ?_⟩
  · rw [autoSizedVector, hop]
    show (openBlock cfg (styled .array (.opening openingBracket)) q >>= _) = _
    rw [hopen]
    exact hrest
  · rw [hopened.shown] at hsame'
    rw [List.append_nil] at hsame
    refine hsame'.trans ?_
    rw [List.append_assoc]
    exact strip_append_left hsame _

/-- What is said of a printed vector: it prints with a line of its own, and wherever it prints
it shows a prefix of its items; on another block's line it may ask for more room, with nothing
done that cannot be taken back. -/
structure PrintsVector (cfg : PrinterConfig) (items : List String) (p : Printer) : Prop where
  prints : p.flow = false → ∃ p', autoSizedVector cfg items p = .ok p'
  undone : p.flow = true → ∀ p', autoSizedVector cfg items p = .error p' → Kept p p'
  shows : ∀ p', autoSizedVector cfg items p = .ok p' →
    ∃ ts, VectorPrefix items ts ∧ Same (shown p') (shown p ++ vectorTokens ts)

/-- On another block's line a vector is printed in full or not at all. -/
theorem autoSizedVector_flow {items : List String} {p p' : Printer} (hflow : p.flow = true)
    (h : autoSizedVector cfg items p = .ok p') :
    Same (shown p') (shown p ++ vectorTokens (separated (itemTokens items) false)) := by
  cases hfits : (Doc.vector items).fit cfg (p.delim, p.column) with
  | none =>
      obtain ⟨q, hop, -⟩ := (prints_vector items).overflow p hflow trivial hfits
      rw [h] at hop
      cases hop
  | some pos =>
      obtain ⟨pos', hdelimit, hfits⟩ := Option.bind_eq_some_iff.mp hfits
      obtain ⟨q, ts, hop, hflows, hdelim, rfl, hsame⟩ :=
        (prints_delimit cfg).fit p pos' hflow trivial hdelimit
      rw [← hflows.pos] at hfits
      obtain ⟨q', hop', -, -, hsame'⟩ := vectorBody_fit hflows.flow hdelim hfits
      have hbody : autoSizedVector cfg items p = vectorBody cfg items q := by
        rw [autoSizedVector, hop]
        rfl
      rw [hbody, hop'] at h
      obtain rfl := Except.ok.inj h
      exact hsame.trans_append hsame'

theorem same_vectorTokens {a : List Token} {items : List String} {ts ts' : List Token}
    (hts : VectorShows items ts) (hts' : VectorShows items ts')
    (h : Same (a ++ vectorTokens ts) (a ++ vectorTokens ts')) : ts = ts' := by
  have hstrip : ∀ {us : List Token}, VectorShows items us →
      strip (a ++ vectorTokens us) = strip a ++ vectorTokens us := by
    intro us hus
    have htight := Tight.bracketed openingBracket "]" hus.tight
    rw [strip_append, vectorTokens, htight.strip_eq]
    intro s rest heq
    rw [vectorTokens, htight.strip_eq] at heq
    exact htight.head s rest heq
  unfold Same at h
  rw [hstrip hts, hstrip hts'] at h
  have hcancel := List.append_cancel_left h
  exact List.append_cancel_right (List.cons.inj hcancel).2

theorem not_printsVector {items : List String} {p : Printer} (hflow : p.flow = false)
    (h : CrossesMargin cfg items p) : ¬ PrintsVector cfg items p := by
  intro hprints
  obtain ⟨p', ts, hop, hts, hsame⟩ := autoSizedVector_broken items hflow
  obtain ⟨ts', hts', hsame'⟩ := hprints.shows p' hop
  obtain rfl := same_vectorTokens hts.shows hts'.vectorShows (hsame.symm.trans hsame')
  exact hts.vectorPrefix_iff.mp hts' h

/-- **A vector is a prefix with its dots apart**, unless it has a line of its own on which an
item behind three or more goes over the margin. -/
theorem printsVector_iff (cfg : PrinterConfig) (items : List String) (p : Printer) :
    PrintsVector cfg items p ↔ ¬ (p.flow = false ∧ CrossesMargin cfg items p) := by
  constructor
  · rintro hprints ⟨hflow, hcrosses⟩
    exact not_printsVector hflow hcrosses hprints
  · intro h
    constructor
    · intro hflow
      obtain ⟨p', ts, hop, -⟩ := @autoSizedVector_broken cfg items p hflow
      exact ⟨p', hop⟩
    · intro hflow p' herror
      cases hfits : (Doc.vector items).fit cfg (p.delim, p.column) with
      | none =>
          obtain ⟨q, hop, hkept, -⟩ := (prints_vector items).overflow p hflow trivial hfits
          obtain rfl := Except.error.inj (herror.symm.trans hop)
          exact hkept
      | some pos =>
          obtain ⟨q, ts, hop, -⟩ := (prints_vector items).fit p pos hflow trivial hfits
          rw [herror] at hop
          cases hop
    · intro p' hop
      cases hflow : p.flow with
      | true => exact ⟨_, .inl rfl, autoSizedVector_flow hflow hop⟩
      | false =>
          obtain ⟨q, ts, hop', hts, hsame⟩ := @autoSizedVector_broken cfg items p hflow
          obtain rfl := Except.ok.inj (hop.symm.trans hop')
          exact ⟨ts, hts.vectorPrefix_iff.mpr fun hcrosses => h ⟨hflow, hcrosses⟩, hsame⟩

/-! ## A number over the margin -/

/-- Where a row of a result set begins that is broken up. -/
def rowPrinter : Printer :=
  { Printer.new with stream := [unstyled [.opening "\x7b"], unstyled [.newline]], curIndent := 2 }

/-- Three numbers, and a fourth one that is too long for the width. -/
def longNumber : List String := ["1", "2", "3", "4.5678912"]

theorem not_printsVector_longNumber :
    (∃ p', autoSizedVector (plainConfig 42 none) longNumber rowPrinter = .ok p' ∧
      renderAll (plainConfig 42 none) p'.buffer = "  <ext::pgvector::vector>[1, 2, 3...]") ∧
    ¬ ∀ cfg items p, PrintsVector cfg items p := by
  refine ⟨⟨_, rfl, by decide +kernel⟩, fun h => ?_⟩
  refine not_printsVector rfl ?_ (h (plainConfig 42 none) longNumber rowPrinter)
  exact ⟨["1", "2", "3"], "4.5678912", (.comma, 33),
    ⟨⟨[], rfl⟩, by decide +kernel, by decide +kernel⟩, by decide, by decide +kernel⟩

end GelCli.Print
