import Mathlib.Data.List.Basic
import GelCli.Print.Rules

/-!
# Vectors cut to the width

A vector is first tried on one line. Where that fails behind three items or more, it goes
back to its savepoint and puts the dots there; else it is broken up and shows three items.
`BrokenVector` lists what a vector with a line of its own shows.
-/

namespace GelCli.Print

variable (cfg : PrinterConfig)

/-! ## Constants -/

def fitConst (style : Style) (text : String) (pos : Pos) : Option Pos :=
  fitDelimit cfg pos >>= put cfg (styled style (.text text))

variable {cfg}

theorem prints_const (style : Style) (text : String) :
    Prints anyDelim noDelim (formatConst cfg style text) (fitConst cfg style text)
      (fun ts => ts = [.text text]) := by
  refine Prints.shows_mono
    (Prints.seq (prints_delimit cfg) (prints_write cfg (styled style (.text text)))) ?_
  rintro ts ⟨a, b, rfl, rfl, rfl⟩
  exact ⟨_, rfl, rfl⟩

/-- Printable ASCII characters only. -/
def isPlain (s : String) : Bool := s.toList.all fun c => ' ' ≤ c ∧ c ≤ '~'

variable (cfg) in
theorem graphemes_plain {s : String} (hplain : isPlain s = true) :
    "\n" ∉ cfg.graphemes s ∧ (cfg.graphemes s).length = s.length := by
  have hascii : ∀ c ∈ s.toList, ' ' ≤ c ∧ c ≤ '~' := fun c hc =>
    of_decide_eq_true (List.all_eq_true.mp hplain c hc)
  have hgraphemes := cfg.graphemes_ascii s hascii
  constructor
  · rw [hgraphemes]
    intro hmem
    obtain ⟨c, hc, heq⟩ := List.mem_map.mp hmem
    have hnewline : c = '\n' := by
      have hlist := congrArg String.toList heq
      rw [String.toList_singleton] at hlist
      exact (List.cons.inj hlist).1
    have hspace := (hascii c hc).1
    rw [hnewline] at hspace
    exact absurd hspace (by decide)
  · rw [hgraphemes, List.length_map, String.length_toList]

/-- Printable ASCII takes a column for each character. -/
theorem put_plain {s : CString} {pos : Pos} (hplain : isPlain s.toStr = true)
    (hroom : pos.2 + s.toStr.length ≤ cfg.maxWidth) :
    put cfg s pos = some (pos.1, pos.2 + s.toStr.length) := by
  obtain ⟨hline, hlength⟩ := graphemes_plain cfg hplain
  unfold put
  simp only [hlength]
  rw [if_neg]
  rintro (hmem | hover)
  · exact hline hmem
  · omega

/-! ## Where items fit -/

variable (cfg) in
/-- A vector fits when behind every item there is room left for the dots. -/
def fitItems : List String → Pos → Option Pos
  | [], pos => some pos
  | item :: items, pos =>
      fitConst cfg .number item pos >>= fun pos =>
        if cfg.maxWidth - pos.2 > vectorTail.length then fitItems items (.comma, pos.2) else none

/-- The comma is owed and there is room left for the dots. -/
def Reserved (cfg : PrinterConfig) (place : Pos) : Prop :=
  place.1 = .comma ∧ vectorTail.length < cfg.maxWidth - place.2

theorem fitItems_cons (item : String) (items : List String) (pos : Pos) :
    fitItems cfg (item :: items) pos = fitItems cfg [item] pos >>= fitItems cfg items := by
  unfold fitItems
  cases fitConst cfg .number item pos with
  | none => rfl
  | some place =>
      simp only [bind, Option.bind]
      split <;> rfl

theorem fitItems_append (before items : List String) (pos : Pos) :
    fitItems cfg (before ++ items) pos = fitItems cfg before pos >>= fitItems cfg items := by
  induction before generalizing pos with
  | nil => rfl
  | cons item before ih =>
      rw [List.cons_append, fitItems_cons, fitItems_cons item before]
      cases fitItems cfg [item] pos with
      | none => rfl
      | some place => exact ih place

theorem reserved_item {item : String} {pos place : Pos}
    (h : fitItems cfg [item] pos = some place) : Reserved cfg place := by
  unfold fitItems at h
  cases hconst : fitConst cfg .number item pos with
  | none =>
      rw [hconst] at h
      cases h
  | some pos' =>
      rw [hconst] at h
      simp only [bind, Option.bind] at h
      split at h
      · next hroom =>
        obtain rfl := Option.some.inj h
        exact ⟨rfl, hroom⟩
      · cases h

theorem reserved_items {items : List String} {pos place : Pos}
    (h : fitItems cfg items pos = some place) (hne : items ≠ []) : Reserved cfg place := by
  obtain ⟨items, item, rfl⟩ := List.eq_nil_or_concat' items |>.resolve_left hne
  rw [fitItems_append] at h
  obtain ⟨pos', -, h⟩ := Option.bind_eq_some_iff.mp h
  exact reserved_item h

/-- The item at which a line ends that does not fit. -/
structure StopsAt (cfg : PrinterConfig) (items : List String) (pos : Pos)
    (before : List String) (item : String) (place : Pos) : Prop where
  split : ∃ after, items = before ++ item :: after
  fits : fitItems cfg before pos = some place
  stops : fitItems cfg [item] place = none

theorem exists_stopsAt {items : List String} {pos : Pos} (h : fitItems cfg items pos = none) :
    ∃ before item place, StopsAt cfg items pos before item place := by
  induction items generalizing pos with
  | nil => cases h
  | cons item items ih =>
      rw [fitItems_cons] at h
      cases hitem : fitItems cfg [item] pos with
      | none => exact ⟨[], item, pos, ⟨items, rfl⟩, rfl, hitem⟩
      | some pos' =>
          rw [hitem] at h
          obtain ⟨before, item', place, ⟨after, rfl⟩, hfits, hstops⟩ := ih h
          refine ⟨item :: before, item', place, ⟨after, rfl⟩, ?_, hstops⟩
          rw [fitItems_cons, hitem]
          exact hfits

theorem StopsAt.none {items before : List String} {item : String} {pos place : Pos}
    (h : StopsAt cfg items pos before item place) : fitItems cfg items pos = none := by
  obtain ⟨⟨after, rfl⟩, hfits, hstops⟩ := h
  rw [fitItems_append, hfits]
  show fitItems cfg (item :: after) place = _
  rw [fitItems_cons, hstops]
  rfl

/-- There is one such item only. -/
theorem StopsAt.unique {items before before' : List String} {item item' : String}
    {pos place place' : Pos} (h : StopsAt cfg items pos before item place)
    (h' : StopsAt cfg items pos before' item' place') :
    before = before' ∧ item = item' ∧ place = place' := by
  obtain ⟨⟨after, rfl⟩, hfits, hstops⟩ := h
  obtain ⟨⟨after', hsplit⟩, hfits', hstops'⟩ := h'
  induction before generalizing before' pos with
  -- the induction is on what stands before the item; both splits are of the same list
  | nil =>
      cases before' with
      | nil =>
          obtain ⟨rfl, -⟩ := List.cons.inj hsplit
          exact ⟨rfl, rfl, Option.some.inj (hfits.symm.trans hfits')⟩
      | cons first before' =>
          obtain ⟨rfl, -⟩ := List.cons.inj hsplit
          obtain rfl := Option.some.inj hfits
          rw [fitItems_cons, hstops] at hfits'
          cases hfits'
  | cons first before ih =>
      cases before' with
      | nil =>
          obtain ⟨rfl, -⟩ := List.cons.inj hsplit
          obtain rfl := Option.some.inj hfits'
          rw [fitItems_cons, hstops'] at hfits
          cases hfits
      | cons first' before' =>
          obtain ⟨rfl, htail⟩ := List.cons.inj hsplit
          rw [fitItems_cons] at hfits hfits'
          cases hitem : fitItems cfg [first] pos with
          | none =>
              rw [hitem] at hfits
              cases hfits
          | some pos' =>
              rw [hitem] at hfits hfits'
              obtain ⟨rfl, hrest⟩ := ih hfits hfits' htail
              exact ⟨rfl, hrest⟩

/-! ## Items on the line -/

def itemTokens (items : List String) : List (List Token) :=
  items.map fun item => [Token.text item]

theorem prints_item (item : String) :
    Prints anyDelim anyDelim (fun p => formatConst cfg .number item p >>= comma cfg)
      (fun pos => fitConst cfg .number item pos >>= fitComma)
      (fun ts => ts = [.text item, .comma]) := by
  refine Prints.shows_mono (Prints.seq (prints_const .number item) prints_comma) ?_
  rintro ts ⟨a, b, rfl, rfl, rfl⟩
  exact ⟨_, rfl, rfl⟩

/-- One turn of the first attempt at a vector, when its item fits. -/
theorem item_fit {item : String} {p : Printer} {pos : Pos} (hflow : p.flow = true)
    (hfits : fitConst cfg .number item (p.delim, p.column) = some pos) :
    ∃ p', (formatConst cfg .number item p >>= comma cfg) = .ok p' ∧
      Flows p p' (.comma, pos.2) ∧ Same (shown p') (shown p ++ [.text item, .comma]) := by
  have hitem : (fitConst cfg .number item (p.delim, p.column) >>= fitComma) =
      some (.comma, pos.2) := by
    rw [hfits]
    rfl
  obtain ⟨p', ts, hop, hflows, -, rfl, hsame⟩ :=
    (prints_item item).fit p _ hflow trivial hitem
  exact ⟨p', hop, hflows, hsame⟩

/-- Behind a comma that is owed the delimiter has room, and only the item can go over. -/
theorem item_overflow {item : String} {p : Printer} (hflow : p.flow = true)
    (hreserved : Reserved cfg (p.delim, p.column))
    (hfits : fitConst cfg .number item (p.delim, p.column) = none) :
    ∃ p', (formatConst cfg .number item p >>= comma cfg) = .error p' ∧ p'.delim = .none := by
  have hdelimit : ∃ pos, fitDelimit cfg (p.delim, p.column) = some pos := by
    have hroom : p.column + 2 ≤ cfg.maxWidth := by
      have hroom : 7 < cfg.maxWidth - p.column := hreserved.2
      omega
    have hput := @put_plain cfg (unstyled [.comma, .spaces 1]) (p.delim, p.column) rfl hroom
    have hcomma : p.delim = .comma := hreserved.1
    unfold fitDelimit
    rw [if_pos hcomma, hput]
    exact ⟨_, rfl⟩
  obtain ⟨pos, hdelimit⟩ := hdelimit
  obtain ⟨q, ts, hop, hflows, hdelim, -, -⟩ :=
    (prints_delimit cfg).fit p pos hflow trivial hdelimit
  unfold fitConst at hfits
  rw [hdelimit, ← hflows.pos] at hfits
  obtain ⟨c, hwrite⟩ := write_overflow cfg hflows.flow hfits
  refine ⟨{ q with column := c }, ?_, hdelim⟩
  rw [formatConst, hop]
  show (write cfg _ q >>= comma cfg) = _
  rw [hwrite]
  rfl

theorem firstTry_append (before items : List String) (t : VectorTry) :
    firstTry cfg (before ++ items) t = firstTry cfg before t >>= firstTry cfg items := by
  induction before generalizing t with
  | nil => rfl
  | cons item before ih =>
      rw [List.cons_append, firstTry, firstTry]
      cases formatConst cfg .number item t.printer >>= comma cfg with
      | error p => rfl
      | ok p =>
          simp only
          split
          · exact ih _
          · rfl

/-- At the savepoint nothing has been written behind it. -/
def AtSavepoint (t : VectorTry) : Prop :=
  t.savepoint = (t.printer.buffer.length, t.printer.column)

theorem firstTry_fit {items : List String} {t : VectorTry} {pos : Pos}
    (hflow : t.printer.flow = true) (hsave : AtSavepoint t)
    (hfits : fitItems cfg items (t.printer.delim, t.printer.column) = some pos) :
    ∃ t', firstTry cfg items t = .ok t' ∧ Flows t.printer t'.printer pos ∧ AtSavepoint t' ∧
      t'.printed = t.printed + items.length ∧
      Same (shown t'.printer) (shown t.printer ++ commaed (itemTokens items)) := by
  induction items generalizing t with
  | nil =>
      refine ⟨t, rfl, ⟨Kept.refl _, hflow, Option.some.inj hfits⟩, hsave, rfl, ?_⟩
      simp [Same, itemTokens, commaed]
  | cons item items ih =>
      unfold fitItems at hfits
      cases hconst : fitConst cfg .number item (t.printer.delim, t.printer.column) with
      | none =>
          rw [hconst] at hfits
          cases hfits
      | some pos' =>
          rw [hconst] at hfits
          simp only [bind, Option.bind] at hfits
          split at hfits
          case isFalse => cases hfits
          case isTrue hroom =>
            obtain ⟨p', hop, hflows, hsame⟩ := item_fit hflow hconst
            have hcolumn : p'.column = pos'.2 := congrArg Prod.snd hflows.pos
            obtain ⟨t', htry, hflows', hsave', hprinted, hsame'⟩ :=
              @ih ⟨p', t.printed + 1, p'.buffer.length, p'.column⟩ hflows.flow rfl
                (by rw [hflows.pos]; exact hfits)
            refine ⟨t', ?_, hflows.trans hflows', hsave', ?_, ?_⟩
            · simp only [firstTry, hop, hcolumn]
              rw [if_pos hroom, ← hcolumn]
              exact htry
            · rw [hprinted, List.length_cons, Nat.add_assoc, Nat.add_comm 1]
            · have hall := hsame.trans_append hsame'
              simpa [itemTokens, commaed_cons] using hall

/-- An item that does not fit ends the attempt. Behind a comma that is owed the delimiter is
lost, if the item itself goes over the margin. -/
theorem firstTry_stop {item : String} {after : List String} {t : VectorTry}
    (hflow : t.printer.flow = true)
    (hstops : fitItems cfg [item] (t.printer.delim, t.printer.column) = none) :
    ∃ p', firstTry cfg (item :: after) t = .error { t with printer := p' } ∧
      Kept t.printer p' ∧ p'.flow = true ∧
      (Reserved cfg (t.printer.delim, t.printer.column) →
        (p'.delim = .comma ↔
          fitConst cfg .number item (t.printer.delim, t.printer.column) ≠ none)) := by
  cases hconst : fitConst cfg .number item (t.printer.delim, t.printer.column) with
  | none =>
      have hitem : (fitConst cfg .number item (t.printer.delim, t.printer.column) >>=
          fitComma) = none := by
        rw [hconst]
        rfl
      obtain ⟨p', hop, hkept, hflow'⟩ :=
        (prints_item item).overflow t.printer hflow trivial hitem
      refine ⟨p', by simp only [firstTry, hop], hkept, hflow', fun hreserved => ?_⟩
      obtain ⟨q, hop', hdelim⟩ := item_overflow hflow hreserved hconst
      obtain rfl : p' = q := Except.error.inj (hop.symm.trans hop')
      rw [hdelim]
      exact ⟨fun h => (by cases h), fun h => absurd rfl h⟩
  | some pos =>
      obtain ⟨p', hop, hflows, -⟩ := item_fit hflow hconst
      have hcolumn : p'.column = pos.2 := congrArg Prod.snd hflows.pos
      unfold fitItems at hstops
      rw [hconst] at hstops
      simp only [bind, Option.bind] at hstops
      split at hstops
      · cases hstops
      · next hroom =>
        -- the item is written but leaves no room for the dots
        refine ⟨p', ?_, hflows.kept, hflows.flow, fun _ => ⟨fun _ h => (by cases h), fun _ => ?_⟩⟩
        · simp only [firstTry, hop, hcolumn]
          rw [if_neg hroom]
        · exact congrArg Prod.fst hflows.pos

/-- A first attempt that fails: it has printed the items before the one that does not fit,
and its savepoint is the printer `q` right behind them. -/
structure Stopped (cfg : PrinterConfig) (items : List String) (p : Printer) (t : VectorTry)
    (before : List String) (item : String) (place : Pos) (q : Printer) : Prop where
  stopsAt : StopsAt cfg items (p.delim, p.column) before item place
  kept : Kept p t.printer
  flow : t.printer.flow = true
  printed : t.printed = before.length
  savepoint : t.savepoint = (q.buffer.length, place.2)
  saved : Kept q t.printer
  flows : Flows p q place
  shown : Same (shown q) (shown p ++ commaed (itemTokens before))
  delim : Reserved cfg place → (t.printer.delim = .comma ↔ fitConst cfg .number item place ≠ none)

theorem firstTry_stopped {items : List String} {p : Printer} (hflow : p.flow = true)
    (hfits : fitItems cfg items (p.delim, p.column) = none) :
    ∃ t before item place q,
      firstTry cfg items ⟨p, 0, p.buffer.length, p.column⟩ = .error t ∧
        Stopped cfg items p t before item place q := by
  obtain ⟨before, item, place, hstops⟩ := exists_stopsAt hfits
  obtain ⟨after, rfl⟩ := hstops.split
  obtain ⟨t, htry, hflows, hsave, hprinted, hsame⟩ :=
    @firstTry_fit cfg before ⟨p, 0, p.buffer.length, p.column⟩ place hflow rfl hstops.fits
  have hstop := hstops.stops
  rw [← hflows.pos] at hstop
  obtain ⟨p', herror, hkept, hflow', hdelim⟩ := @firstTry_stop cfg item after t hflows.flow hstop
  rw [hflows.pos] at hdelim
  refine ⟨{ t with printer := p' }, before, item, place, t.printer, ?_, hstops,
    hflows.kept.trans hkept, hflow', by simpa using hprinted, ?_, hkept, hflows, hsame, hdelim⟩
  · rw [firstTry_append, htry]
    exact herror
  · rw [← hflows.pos]
    exact hsave

/-! ## Three items -/

variable (cfg) in
theorem prints_items (items : List String) :
    Prints anyDelim anyDelim
      (fun p => items.foldlM (fun p item => formatConst cfg .number item p >>= comma cfg) p)
      (fun pos => items.foldlM
        (fun pos item => fitConst cfg .number item pos >>= fitComma) pos)
      (fun ts => ts = commaed (itemTokens items)) := by
  induction items with
  | nil => exact prints_skip
  | cons item items ih =>
      refine Prints.shows_mono (Prints.seq (prints_item item) ih) ?_
      rintro ts ⟨a, b, rfl, rfl, rfl⟩
      exact ⟨_, rfl, by simp [itemTokens, commaed_cons, Same]⟩

/-- The dots behind three items, if there are more. -/
def moreDots (cfg : PrinterConfig) (items : List String) (dots : CString) (p : Printer) :
    Except Printer Printer :=
  if items.drop 3 ≠ [] then delimit cfg p >>= write cfg dots else .ok p

variable (cfg) in
theorem prints_moreDots (items : List String) (dots : CString) (hdots : dots.tokens = [.dots]) :
    ∃ fits, Prints anyDelim anyDelim (moreDots cfg items dots) fits
      (fun ts => ts = if items.drop 3 ≠ [] then [.dots] else []) := by
  by_cases hdrop : items.drop 3 ≠ []
  · have hop : moreDots cfg items dots = fun p => delimit cfg p >>= write cfg dots := by
      funext p
      exact if_pos hdrop
    simp only [hop, if_pos hdrop]
    have hprints := ((prints_delimit cfg).seq (prints_write cfg dots)).delim_mono
      (fun _ => id) fun (delim : Delim) (_ : noDelim delim) => (trivial : anyDelim delim)
    refine ⟨_, hprints.shows_mono ?_⟩
    rintro ts ⟨a, b, rfl, rfl, rfl⟩
    exact ⟨_, rfl, by simp [hdots, Same]⟩
  · have hop : moreDots cfg items dots = fun p => .ok p := by
      funext p
      exact if_neg hdrop
    simp only [hop, if_neg hdrop]
    exact ⟨_, prints_skip⟩

variable (cfg) in
theorem prints_threeItems (items : List String) (dots : CString)
    (hdots : dots.tokens = [.dots]) :
    ∃ fits, Prints anyDelim anyDelim (threeItems cfg items dots) fits
      (fun ts => ts = commaed (itemTokens (items.take 3)) ++
        if items.drop 3 ≠ [] then [.dots] else []) := by
  obtain ⟨fits, hmore⟩ := prints_moreDots cfg items dots hdots
  refine ⟨_, Prints.shows_mono (Prints.seq (prints_items cfg (items.take 3)) hmore) ?_⟩
  rintro ts ⟨a, b, rfl, rfl, rfl⟩
  exact ⟨_, rfl, rfl⟩

/-! ## What a vector shows -/

theorem vectorShows_all (items : List String) :
    VectorShows items (separated (itemTokens items) false) :=
  Or.inl rfl

/-- Broken up, a vector shows three items, and the dots if there are more. -/
theorem vectorShows_three (items : List String) :
    VectorShows items
      (separated (itemTokens (items.take 3)) (decide (items.drop 3 ≠ []))) := by
  by_cases hdrop : items.drop 3 = []
  · have hlen : items.length ≤ 3 := List.drop_eq_nil_iff.mp hdrop
    rw [List.take_of_length_le hlen]
    simpa [hdrop] using vectorShows_all items
  · have hlen : 3 < items.length :=
      Nat.lt_of_not_le fun hle => hdrop (List.drop_eq_nil_iff.mpr hle)
    refine Or.inr ⟨3, Nat.le_refl 3, hlen, Or.inl ?_⟩
    simp [hdrop, itemTokens, List.map_take]

/-- Where the rest of a vector fits behind its opening bracket. -/
def fitVector (cfg : PrinterConfig) (items : List String) (pos : Pos) : Option Pos :=
  fitItems cfg items pos >>= fitClose cfg (styled .array (.closing "]"))

/-- What a vector with a line of its own shows behind its opening bracket: all items or, with
three or more before the one that does not fit, these and the dots, which stand without a
comma if that item itself goes over the margin. -/
inductive BrokenVector (cfg : PrinterConfig) (items : List String) (pos : Pos) :
    List Token → Prop where
  | line {end_ : Pos} (h : fitVector cfg items pos = some end_) :
      BrokenVector cfg items pos (separated (itemTokens items) false)
  | dots {before : List String} {item : String} {place : Pos}
      (hstops : StopsAt cfg items pos before item place) (hthree : 3 ≤ before.length)
      (hitem : fitConst cfg .number item place ≠ none) :
      BrokenVector cfg items pos (separated (itemTokens before) true)
  | bare {before : List String} {item : String} {place : Pos}
      (hstops : StopsAt cfg items pos before item place) (hthree : 3 ≤ before.length)
      (hitem : fitConst cfg .number item place = none) :
      BrokenVector cfg items pos (separated (itemTokens before) false ++ [.dots])
  | three (hshort : ∀ before item place, StopsAt cfg items pos before item place →
        before.length < 3) (h : fitVector cfg items pos = none) :
      BrokenVector cfg items pos
        (separated (itemTokens (items.take 3)) (decide (items.drop 3 ≠ [])))

theorem StopsAt.take {items before : List String} {item : String} {pos place : Pos}
    (h : StopsAt cfg items pos before item place) :
    before.length < items.length ∧
      itemTokens before = (itemTokens items).take before.length := by
  obtain ⟨after, rfl⟩ := h.split
  refine ⟨by simp, ?_⟩
  rw [itemTokens, itemTokens, List.map_append, List.take_left' (by rw [List.length_map])]

theorem BrokenVector.shows {items : List String} {pos : Pos} {ts : List Token}
    (h : BrokenVector cfg items pos ts) : VectorShows items ts := by
  rcases h with h | ⟨hstops, hthree, -⟩ | ⟨hstops, hthree, -⟩ | -
  · exact vectorShows_all items
  · obtain ⟨hlength, htake⟩ := hstops.take
    rw [htake]
    exact .inr ⟨_, hthree, hlength, .inl rfl⟩
  · obtain ⟨hlength, htake⟩ := hstops.take
    rw [htake]
    exact .inr ⟨_, hthree, hlength, .inr rfl⟩
  · exact vectorShows_three items

/-! ## The attempts -/

/-- Where every item had room behind it, the bracket fits. -/
theorem fitClose_bracket {pos : Pos} (hreserved : Reserved cfg pos) :
    ∃ pos', fitClose cfg (styled .array (.closing "]")) pos = some pos' := by
  have hroom : pos.2 + 1 ≤ cfg.maxWidth := by
    have hroom : 7 < cfg.maxWidth - pos.2 := hreserved.2
    omega
  exact ⟨_, @put_plain cfg (styled .array (.closing "]")) (.none, pos.2) rfl hroom⟩

theorem vectorAttempt_fit {items : List String} {p : Printer} {pos : Pos} (flag : Bool)
    (hflow : p.flow = true) (hfits : fitVector cfg items (p.delim, p.column) = some pos) :
    ∃ p', vectorAttempt cfg items flag p = .ok p' ∧ Kept p p' ∧ p'.flow = !flag ∧
      (p'.delim, p'.column) = pos ∧ p'.delim = .none ∧
      Same (shown p') (shown p ++ (separated (itemTokens items) false ++ [.closing "]"])) := by
  obtain ⟨pos', hitems, hclose⟩ := Option.bind_eq_some_iff.mp hfits
  obtain ⟨t, htry, hflows, -, -, hsame⟩ :=
    @firstTry_fit cfg items ⟨p, 0, p.buffer.length, p.column⟩ pos' hflow rfl hitems
  rw [← hflows.pos] at hclose
  obtain ⟨p', hop, hkept, hflow', hpos, hdelim, hsame'⟩ := closeBlock_fit flag hflows.flow hclose
  refine ⟨p', ?_, hflows.kept.trans hkept, hflow', hpos, hdelim, ?_⟩
  · unfold vectorAttempt vectorClose
    rw [htry]
    simp only [hop]
  · have hall := hsame.trans_append hsame'
    have hcommas := strip_commaed_close (itemTokens items) false "]"
    simp only [Bool.false_eq_true, if_false, List.append_nil] at hcommas
    exact hall.trans (strip_append_right hcommas _)

/-- An attempt fails at an item, or there is no item and the bracket does not fit. -/
theorem vectorAttempt_overflow {items : List String} {p : Printer} (flag : Bool)
    (hflow : p.flow = true) (hfits : fitVector cfg items (p.delim, p.column) = none) :
    ∃ t, vectorAttempt cfg items flag p = .error t ∧ Kept p t.printer ∧ t.printer.flow = true ∧
      ((items = [] ∧ t.printed = 0) ∨
        ∃ before item place q, Stopped cfg items p t before item place q) := by
  cases hitems : fitItems cfg items (p.delim, p.column) with
  | none =>
      obtain ⟨t, before, item, place, q, htry, hstopped⟩ := firstTry_stopped hflow hitems
      refine ⟨t, ?_, hstopped.kept, hstopped.flow, .inr ⟨before, item, place, q, hstopped⟩⟩
      unfold vectorAttempt
      rw [htry]
  | some pos' =>
      obtain ⟨t, htry, hflows, -, hprinted, -⟩ :=
        @firstTry_fit cfg items ⟨p, 0, p.buffer.length, p.column⟩ pos' hflow rfl hitems
      have hclose : fitClose cfg (styled .array (.closing "]")) pos' = none := by
        rw [fitVector, hitems] at hfits
        exact hfits
      have hnil : items = [] := by
        by_contra hne
        obtain ⟨pos'', hsome⟩ := fitClose_bracket (reserved_items hitems hne)
        rw [hclose] at hsome
        cases hsome
      rw [← hflows.pos] at hclose
      obtain ⟨p', hop, hkept, hflow'⟩ := closeBlock_overflow flag hflows.flow hclose
      refine ⟨{ t with printer := p' }, ?_, hflows.kept.trans hkept, hflow', .inl ⟨hnil, ?_⟩⟩
      · unfold vectorAttempt vectorClose
        rw [htry]
        simp only [hop]
      · simpa [hnil] using hprinted

theorem vectorElided_eq (flag : Bool) (t : VectorTry) (q : Printer)
    (htake : t.printer.buffer.take t.savepoint.1 = q.buffer) :
    vectorElided cfg flag t =
      (delimit cfg >=> write cfg (unstyled [.dots]))
        { t.printer with buffer := q.buffer, column := t.savepoint.2 } >>=
      closeBlock cfg (styled .array (.closing "]")) flag := by
  unfold vectorElided
  rw [htake]
  rfl

/-- The room that is reserved behind an item holds the delimiter, the dots and the bracket. -/
theorem elided_fits {column : Nat} (hroom : vectorTail.length < cfg.maxWidth - column)
    (delim : Delim) :
    ∃ pos, ((fitDelimit cfg (delim, column) >>= put cfg (unstyled [.dots])) >>=
      fitClose cfg (styled .array (.closing "]"))) = some pos := by
  have hroom : column + 6 ≤ cfg.maxWidth := by
    have hroom : 7 < cfg.maxWidth - column := hroom
    omega
  have hdelimit : ∃ c, c ≤ column + 2 ∧ fitDelimit cfg (delim, column) = some (.none, c) := by
    unfold fitDelimit
    split
    · have hput := @put_plain cfg (unstyled [.comma, .spaces 1]) (delim, column) rfl
        (Nat.le_trans (Nat.add_le_add_left (show 2 ≤ 6 by decide) column) hroom)
      rw [hput]
      exact ⟨_, Nat.le_refl _, rfl⟩
    · exact ⟨column, by omega, rfl⟩
  obtain ⟨c, hc, hdelimit⟩ := hdelimit
  have hdots := @put_plain cfg (unstyled [.dots]) (.none, c) rfl
    (show c + 3 ≤ cfg.maxWidth by omega)
  have hclose := @put_plain cfg (styled .array (.closing "]")) (.none, c + 3) rfl
    (show c + 3 + 1 ≤ cfg.maxWidth by omega)
  refine ⟨(.none, c + 4), ?_⟩
  rw [hdelimit]
  show (put cfg (unstyled [.dots]) (.none, c) >>= _) = _
  rw [hdots]
  exact hclose

/-- The dots behind a prefix of at least three items, on the vector's own line. -/
theorem vectorElided_shows {items before : List String} {item : String} {place : Pos}
    {p p₁ q : Printer} {t : VectorTry} {opening : List Token} (hopen : Opened p p₁ opening)
    (h : Stopped cfg items p₁ t before item place q) (hthree : 3 ≤ before.length) :
    ∃ p' ts, vectorElided cfg true t = .ok p' ∧ p'.flow = false ∧ p'.delim = .none ∧
      p'.curIndent = p.curIndent ∧ BrokenVector cfg items (p₁.delim, p₁.column) ts ∧
      Same (shown p') (shown p₁ ++ (ts ++ [.closing "]"])) := by
  have hne : before ≠ [] := by
    rintro rfl
    cases hthree
  have hreserved : Reserved cfg place := reserved_items h.stopsAt.fits hne
  have htake : t.printer.buffer.take t.savepoint.1 = q.buffer := by
    obtain ⟨added, hadded⟩ := h.saved.buffer
    rw [h.savepoint, ← hadded, List.take_left]
  have hsavepoint : t.savepoint.2 = place.2 := by rw [h.savepoint]
  -- the buffer is cut back to what it was before the item that did not fit
  set cut : Printer := { t.printer with buffer := q.buffer, column := t.savepoint.2 } with hcut
  have hcutKept : Kept p₁ cut := ⟨h.kept.stream, h.kept.committed, h.kept.committedIndent,
    h.kept.curIndent, h.flows.kept.buffer⟩
  have htokens : tokens (cut.stream ++ cut.buffer) = tokens (q.stream ++ q.buffer) := by
    rw [hcut, h.kept.stream, h.flows.kept.stream]
  have hshownq : shown q = tokens (q.stream ++ q.buffer) ++ [.comma] := by
    have hdelim : q.delim = .comma := (congrArg Prod.fst h.flows.pos).trans hreserved.1
    simp [shown, hdelim]
  have hdots : Prints anyDelim anyDelim (delimit cfg >=> write cfg (unstyled [.dots]))
      (fun pos => fitDelimit cfg pos >>= put cfg (unstyled [.dots]))
      (seqShows (fun ts => ts = []) fun ts => ts = (unstyled [.dots]).tokens) :=
    ((prints_delimit cfg).seq (prints_write cfg (unstyled [.dots]))).delim_mono
      (fun _ => id) fun delim (_ : noDelim delim) => (trivial : anyDelim delim)
  -- the room for the dots was reserved by every item that was printed
  have hroom : vectorTail.length < cfg.maxWidth - cut.column := by
    rw [hcut, hsavepoint]
    exact hreserved.2
  obtain ⟨pos, hfits⟩ := elided_fits hroom cut.delim
  rw [vectorElided_eq true t q htake]
  obtain ⟨p', ts, hop, hkept', hflow', -, hdelim', ⟨a, b, rfl, rfl, rfl⟩, hsame⟩ :=
    @attempt_fit cfg _ _ _ _ hdots .array "]" cut pos true h.flow trivial hfits
  have hindent : p'.curIndent = p.curIndent :=
    (hkept'.curIndent.trans hcutKept.curIndent).trans hopen.curIndent
  have hdelim := h.delim hreserved
  by_cases hcomma : cut.delim = .comma
  · -- the attempt failed behind an item: the comma is still owed
    have hshown : shown cut = shown q := by
      rw [hshownq, ← htokens]
      simp [shown, hcomma]
    rw [hshown] at hsame
    refine ⟨p', separated (itemTokens before) true, hop, hflow', hdelim', hindent,
      .dots h.stopsAt hthree (hdelim.mp hcomma), ?_⟩
    have hall := h.shown.trans_append hsame
    simpa [separated_true] using hall
  · -- it failed inside an item: the comma is gone with the item
    have hshown : shown cut = tokens (q.stream ++ q.buffer) := by
      rw [← htokens]
      simp [shown, hcomma]
    have hitem : fitConst cfg .number item place = none := by
      by_contra hitem
      exact hcomma (hdelim.mpr hitem)
    have hstart : Same (tokens (q.stream ++ q.buffer))
        (shown p₁ ++ separated (itemTokens before) false) := by
      have hsame := h.shown
      rw [hshownq, commaed_eq _ (by simpa [itemTokens] using hne), ← List.append_assoc] at hsame
      unfold Same at hsame
      rw [strip_append_comma, strip_append_comma] at hsame
      exact List.append_cancel_right hsame
    rw [hshown] at hsame
    refine ⟨p', separated (itemTokens before) false ++ [.dots], hop, hflow', hdelim', hindent,
      .bare h.stopsAt hthree hitem, ?_⟩
    have hall := hstart.trans_append hsame
    simpa using hall

/-- Broken up, a vector always prints: on its own line, on its own line with the
dots, or one item a line. -/
theorem vectorRest_broken (items : List String) {p p₁ : Printer} {opening : List Token}
    (hopen : Opened p p₁ opening) :
    ∃ p' ts, vectorRest cfg items true p₁ = .ok p' ∧ p'.flow = false ∧
      p'.delim = .none ∧ p'.curIndent = p.curIndent ∧
      BrokenVector cfg items (p₁.delim, p₁.column) ts ∧
      Same (shown p') (shown p₁ ++ (ts ++ [.closing "]"])) := by
  unfold vectorRest
  rw [if_pos hopen.flow]
  -- the attempt on one line, whose result decides between the three ways to go on
  cases hfits : fitVector cfg items (p₁.delim, p₁.column) with
  | some pos =>
      obtain ⟨p', hop, hkept, hflow, -, hdelim, hsame⟩ :=
        vectorAttempt_fit true hopen.flow hfits
      rw [hop]
      exact ⟨p', _, rfl, hflow, hdelim, hkept.curIndent.trans hopen.curIndent, .line hfits, hsame⟩
  | none =>
      obtain ⟨t, hop, hkept, hflow, hstop⟩ := vectorAttempt_overflow true hopen.flow hfits
      -- fewer than three items stayed: the vector is printed again, three items in a block
      have hinBlock : t.printed < 3 → ∃ p' ts, vectorInBlock cfg items true t.printer = .ok p' ∧
          p'.flow = false ∧ p'.delim = .none ∧ p'.curIndent = p.curIndent ∧
          BrokenVector cfg items (p₁.delim, p₁.column) ts ∧
          Same (shown p') (shown p₁ ++ (ts ++ [.closing "]"])) := by
        intro hshort
        obtain ⟨fits, hthree⟩ := prints_threeItems cfg items (unstyled [.dots, .newline]) rfl
        obtain ⟨p', ts, hop, hflow, hdelim, hindent, rfl, hsame⟩ :=
          reprint hthree .array "]" trivial hopen hkept
        refine ⟨p', _, hop, hflow, hdelim, hindent, .three ?_ hfits, ?_⟩
        · intro before item place hstops
          rcases hstop with ⟨rfl, -⟩ | ⟨before', item', place', q, hstopped⟩
          · exact absurd hstops.take.1 (Nat.not_lt_zero _)
          · obtain ⟨rfl, -, -⟩ := hstops.unique hstopped.stopsAt
            rw [← hstopped.printed]
            exact hshort
        · rw [hopen.shown, List.append_assoc]
          refine hsame.trans (strip_append_right (strip_append_right ?_ _) _)
          simpa using
            strip_commaed_close (itemTokens (items.take 3)) (decide (items.drop 3 ≠ [])) "]"
      rw [hop]
      by_cases hthree : t.printed ≥ 3
      · rcases hstop with ⟨-, hzero⟩ | ⟨before, item, place, q, hstopped⟩
        · omega
        · obtain ⟨p', ts, hop', hrest⟩ :=
            vectorElided_shows hopen hstopped (hstopped.printed ▸ hthree)
          simp only [if_true, if_pos hthree, hop']
          exact ⟨p', ts, rfl, hrest⟩
      · simp only [if_true, if_neg hthree]
        exact hinBlock (by omega)

/-- A vector behind its delimiter. -/
def vectorBody (cfg : PrinterConfig) (items : List String) (p : Printer) :
    Except Printer Printer := do
  let (flag, p) ← openBlock cfg (styled .array (.opening "<ext::pgvector::vector>[")) p
  vectorRest cfg items flag p

/-- On another block's line a vector that fits is printed in full. -/
theorem vectorBody_fit {items : List String} {p : Printer} {pos : Pos} (hflow : p.flow = true)
    (hdelim : p.delim = .none)
    (hfits : (put cfg (styled .array (.opening "<ext::pgvector::vector>[")) (p.delim, p.column) >>=
      fitVector cfg items) = some pos) :
    ∃ p', vectorBody cfg items p = .ok p' ∧ Flows p p' pos ∧ p'.delim = .none ∧
      Same (shown p') (shown p ++ (.opening "<ext::pgvector::vector>[" ::
        separated (itemTokens items) false ++ [.closing "]"])) := by
  obtain ⟨pos', hput, hfits⟩ := Option.bind_eq_some_iff.mp hfits
  obtain ⟨q, hop, hflows, -, hshown⟩ := openBlock_fit hflow hdelim hput
  rw [← hflows.pos] at hfits
  obtain ⟨p', hop', hkept, hflow', hpos, hdelim', hsame⟩ :=
    vectorAttempt_fit false hflows.flow hfits
  refine ⟨p', ?_, ⟨hflows.kept.trans hkept, hflow', hpos⟩, hdelim', ?_⟩
  · unfold vectorBody
    rw [hop]
    show vectorRest cfg items false q = _
    rw [vectorRest, if_pos hflows.flow, hop']
  · rw [hshown] at hsame
    simpa using hsame

theorem prints_vectorBody (items : List String) :
    Prints noDelim noDelim (vectorBody cfg items)
      (fun pos => put cfg (styled .array (.opening "<ext::pgvector::vector>[")) pos >>=
        fitVector cfg items)
      (fun ts => (Doc.vector items).Shows ts) where
  fit := by
    intro p pos hflow hdelim hfits
    obtain ⟨p', hop, hflows, hdelim', hsame⟩ := vectorBody_fit hflow hdelim hfits
    exact ⟨p', _, hop, hflows, hdelim', ⟨_, vectorShows_all items, rfl⟩, hsame⟩
  -- in flow an overflow is passed on, at the opening bracket or inside the attempt
  overflow := by
    intro p hflow hdelim hfits
    have hdelim : p.delim = .none := hdelim
    cases hput : put cfg (styled .array (.opening "<ext::pgvector::vector>["))
        (p.delim, p.column) with
    | none =>
        obtain ⟨p', hop, hkept⟩ := openBlock_overflow hflow hdelim hput
        refine ⟨p', ?_, hkept⟩
        unfold vectorBody
        rw [hop]
        rfl
    | some pos' =>
        rw [hput] at hfits
        obtain ⟨q, hop, hflows, -, -⟩ := openBlock_fit hflow hdelim hput
        rw [← hflows.pos] at hfits
        obtain ⟨t, hop', hkept, hflow', -⟩ := vectorAttempt_overflow false hflows.flow hfits
        refine ⟨t.printer, ?_, hflows.kept.trans hkept, hflow'⟩
        unfold vectorBody
        rw [hop]
        show vectorRest cfg items false q = _
        rw [vectorRest, if_pos hflows.flow, hop']
        rfl
  broken := by
    intro p hflow hdelim
    obtain ⟨p₁, hop, hopen⟩ := openBlock_broken cfg hflow hdelim
      (styled .array (.opening "<ext::pgvector::vector>["))
    have hbody : vectorBody cfg items p = vectorRest cfg items true p₁ := by
      unfold vectorBody
      rw [hop]
      rfl
    obtain ⟨p', ts, hop', hflow', hdelim', hindent, hts, hsame⟩ := vectorRest_broken items hopen
    refine ⟨p', _, hbody.trans hop', hflow', hindent, hdelim', ⟨ts, hts.shows, rfl⟩, ?_⟩
    rw [hopen.shown] at hsame
    simpa using hsame

end GelCli.Print
