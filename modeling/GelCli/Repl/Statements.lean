import GelCli.Repl.Backslash

/-!
# Statements of backslash commands

A statement ends with its line, or with a semicolon that stands in no quote. The scan of a
token stops within the statement that it starts in.
-/

namespace GelCli.Repl.Backslash

open GelCli.Foundation
open Text

/-- The quote that is open behind a character. -/
def quoteAfter (quote : Option Quote) (c : Char) : Option Quote :=
  match quote with
  | none => quoteOf c
  | some quote => if c = quote.char then none else some quote

/-- A line end of one character, or of the two `\r\n`, and what is left. -/
def lineEnd (c : Char) (rest : Text) : Text × Text :=
  if c = '\r' ∧ rest.head? = some '\n' then ([c, '\n'], rest.tail) else ([c], rest)

/-- The first statement of a text that starts inside the quote, and what is left. -/
def firstStatement : Option Quote → Text → Text × Text
  | _, [] => ([], [])
  | quote, c :: rest =>
      if isLineEnd c then lineEnd c rest
      else if c = ';' ∧ quote = none then ([c], rest)
      else (firstStatement (quoteAfter quote c) rest).map (c :: ·) id

/-- No statement ends in `w`, and behind it the quote `quote'` is open. -/
def Passes (quote quote' : Option Quote) (w : Text) : Prop :=
  ∀ t, firstStatement quote (w ++ t) = (firstStatement quote' t).map (w ++ ·) id

/-! ## Quotes -/

theorem quoteOf_char (quote : Quote) : quoteOf quote.char = some quote := by
  cases quote <;> rfl

theorem char_of_quoteOf {c : Char} {quote : Quote} (h : quoteOf c = some quote) :
    c = quote.char := by
  unfold quoteOf at h
  split_ifs at h with hsingle hdouble hback
  · cases h
    exact hsingle
  · cases h
    exact hdouble
  · cases h
    exact hback

theorem isLineEnd_eq_true {c : Char} : isLineEnd c = true ↔ c = '\r' ∨ c = '\n' := by
  rw [isLineEnd, Bool.or_eq_true, decide_eq_true_eq, decide_eq_true_eq]

theorem isLineEnd_of_quoteOf {c : Char} {quote : Quote} (h : quoteOf c = some quote) :
    isLineEnd c = false := by
  rw [Bool.eq_false_iff]
  intro hline
  rcases isLineEnd_eq_true.mp hline with rfl | rfl <;> cases h

theorem semicolon_of_quoteOf {c : Char} {quote : Quote} (h : quoteOf c = some quote) :
    c ≠ ';' := by
  rintro rfl
  cases h

theorem lineEnd_append (c : Char) (rest : Text) :
    (lineEnd c rest).1 ++ (lineEnd c rest).2 = c :: rest := by
  unfold lineEnd
  split
  · next h =>
    obtain ⟨t, ht⟩ : ∃ t, rest = '\n' :: t := List.head?_eq_some_iff.mp h.2
    rw [ht]
    rfl
  · rfl

theorem lineEnd_fst (c : Char) (rest : Text) :
    ∃ l, (lineEnd c rest).1 = c :: l ∧ (lineEnd c l).1 = c :: l := by
  by_cases h : c = '\r' ∧ rest.head? = some '\n'
  · refine ⟨['\n'], ?_, ?_⟩
    · rw [lineEnd, if_pos h]
    · rw [lineEnd, if_pos ⟨h.1, rfl⟩]
  · refine ⟨[], ?_, ?_⟩
    · rw [lineEnd, if_neg h]
    · rw [lineEnd, if_neg (by rintro ⟨-, ⟨⟩⟩)]

theorem firstStatement_lineEnd {c : Char} (h : isLineEnd c = true) (quote : Option Quote)
    (rest : Text) : firstStatement quote (c :: rest) = lineEnd c rest := by
  rw [firstStatement, if_pos h]

theorem firstStatement_semicolon (rest : Text) :
    firstStatement none (';' :: rest) = ([';'], rest) := rfl

theorem firstStatement_append (quote : Option Quote) (t : Text) :
    (firstStatement quote t).1 ++ (firstStatement quote t).2 = t := by
  induction t generalizing quote with
  | nil => rfl
  | cons c t ih =>
      rw [firstStatement]
      split
      · exact lineEnd_append c t
      · split
        · rfl
        · exact congrArg (c :: ·) (ih (quoteAfter quote c))

theorem firstStatement_ne_nil {t : Text} (h : t ≠ []) (quote : Option Quote) :
    (firstStatement quote t).1 ≠ [] := by
  cases t with
  | nil => exact absurd rfl h
  | cons c t =>
      rw [firstStatement]
      split
      · unfold lineEnd
        split <;> exact List.cons_ne_nil _ _
      · split <;> exact List.cons_ne_nil _ _

theorem firstStatement_cons (c : Char) (t : Text) :
    ∃ l, (firstStatement none (c :: t)).1 = c :: l := by
  have happend := firstStatement_append none (c :: t)
  cases hfirst : (firstStatement none (c :: t)).1 with
  | nil => exact absurd hfirst (firstStatement_ne_nil (List.cons_ne_nil c t) none)
  | cons d l =>
      rw [hfirst] at happend
      obtain rfl : d = c := (List.cons.inj happend).1
      exact ⟨l, rfl⟩

theorem passes_nil (quote : Option Quote) : Passes quote quote [] := fun _ => rfl

theorem Passes.append {quote quote' quote'' : Option Quote} {w w' : Text}
    (h : Passes quote quote' w) (h' : Passes quote' quote'' w') :
    Passes quote quote'' (w ++ w') := by
  intro t
  rw [List.append_assoc, h, h']
  simp only [Prod.map, List.append_assoc, id]

theorem passes_char {c : Char} {quote : Option Quote} (hline : isLineEnd c = false)
    (hsemi : ¬ (c = ';' ∧ quote = none)) : Passes quote (quoteAfter quote c) [c] := by
  intro t
  have hnot : ¬ isLineEnd c = true := by
    rw [hline]
    exact Bool.false_ne_true
  rw [List.singleton_append, firstStatement, if_neg hnot, if_neg hsemi]
  rfl

theorem Passes.eq_self {quote quote' : Option Quote} {w : Text} (h : Passes quote quote' w) :
    firstStatement quote w = (w, []) := by
  have heq := h []
  rw [List.append_nil] at heq
  rw [heq]
  simp [firstStatement, Prod.map]

theorem passes_blanks {gap : Text} (h : ∀ c ∈ gap, isBlank c = true) : Passes none none gap := by
  induction gap with
  | nil => exact passes_nil none
  | cons c gap ih =>
      have hgap := ih fun d hd => h d (List.mem_cons_of_mem c hd)
      have hc := h c List.mem_cons_self
      rw [isBlank, Bool.or_eq_true, decide_eq_true_eq, decide_eq_true_eq] at hc
      have hpass : Passes none none [c] := by
        rcases hc with rfl | rfl
        · exact passes_char rfl (by decide)
        · exact passes_char rfl (by decide)
      exact hpass.append hgap

/-- A quote that closes on its line ends no statement. -/
theorem passes_quote {quote : Quote} {body : Text}
    (h : ∀ c ∈ body, c ≠ quote.char ∧ isLineEnd c = false) :
    Passes none none (quote.char :: body ++ [quote.char]) := by
  have hquote := quoteOf_char quote
  have hopen : Passes none (some quote) [quote.char] := by
    have hpass := @passes_char quote.char none (isLineEnd_of_quoteOf hquote)
      fun h => semicolon_of_quoteOf hquote h.1
    rwa [quoteAfter, hquote] at hpass
  have hclose : Passes (some quote) none [quote.char] := by
    have hpass := @passes_char quote.char (some quote) (isLineEnd_of_quoteOf hquote)
      fun h => semicolon_of_quoteOf hquote h.1
    rwa [quoteAfter, if_pos rfl] at hpass
  have hbody : Passes (some quote) (some quote) body := by
    induction body with
    | nil => exact passes_nil _
    | cons c body ih =>
        obtain ⟨hne, hline⟩ := h c List.mem_cons_self
        have hpass := @passes_char c (some quote) hline (by rintro ⟨-, ⟨⟩⟩)
        rw [quoteAfter, if_neg hne] at hpass
        exact hpass.append (ih fun d hd => h d (List.mem_cons_of_mem c hd))
  exact (hopen.append hbody).append hclose

/-! ## The scan -/

/-- What a scan that goes on at `idx` tells about the rest of the tail. -/
def Finds (opened : Option (Quote × Nat)) (idx : Nat) (tail : Text) : Scan → Prop
  | .word stop => ∃ w t, tail = w ++ t ∧ stop = idx + byteLen w ∧
      Passes (opened.map Prod.fst) none w
  | .quoteLineEnd quote start stop => ∃ w t, tail = w ++ t ∧ stop = idx + byteLen w ∧
      firstStatement (opened.map Prod.fst) tail = (firstStatement none t).map (w ++ ·) id ∧
      (opened = some (quote, start) ∨
        ∃ u v, w = u ++ v ∧ v ≠ [] ∧ start = idx + byteLen u)
  | .incomplete _ => firstStatement (opened.map Prod.fst) tail = (tail, [])
  | .semicolon => idx = 0 ∧ ∃ t, tail = ';' :: t
  | .newline len => idx = 0 ∧ byteLen (firstStatement none tail).1 = len ∧
      ∃ c t, tail = c :: t ∧ isLineEnd c = true

theorem Finds.cons {opened opened' : Option (Quote × Nat)} {idx : Nat} {c : Char} {rest : Text}
    {found : Scan} (hpass : Passes (opened.map Prod.fst) (opened'.map Prod.fst) [c])
    (hopen : ∀ quote start, opened' = some (quote, start) → opened = opened' ∨ start = idx)
    (h : Finds opened' (idx + c.utf8Size) rest found) : Finds opened idx (c :: rest) found := by
  have hc := c.utf8Size_pos
  cases found with
  | word stop =>
      obtain ⟨w, t, rfl, rfl, hw⟩ := h
      exact ⟨c :: w, t, rfl, by rw [byteLen_cons]; omega, hpass.append hw⟩
  | quoteLineEnd quote start stop =>
      obtain ⟨w, t, rfl, rfl, hw, hstart⟩ := h
      refine ⟨c :: w, t, rfl, by rw [byteLen_cons]; omega, ?_, ?_⟩
      · have hstep := hpass (w ++ t)
        rw [hw] at hstep
        exact hstep
      · rcases hstart with hstart | ⟨u, v, rfl, hv, rfl⟩
        · rcases hopen quote start hstart with heq | rfl
          · exact .inl (heq.trans hstart)
          · exact .inr ⟨[], c :: w, rfl, List.cons_ne_nil _ _, rfl⟩
        · exact .inr ⟨c :: u, v, rfl, hv, by rw [byteLen_cons]; omega⟩
  | incomplete quote =>
      have hstep := hpass rest
      rw [h] at hstep
      exact hstep
  | semicolon =>
      obtain ⟨hidx, -⟩ := h
      omega
  | newline len =>
      obtain ⟨hidx, -⟩ := h
      omega

theorem scan_quote_cons (quote : Quote) (start idx : Nat) (c : Char) (rest : Text) :
    scan (some (quote, start)) idx (c :: rest) =
      if c = quote.char then scan none (idx + c.utf8Size) rest
      else if isLineEnd c then .quoteLineEnd quote start idx
      else scan (some (quote, start)) (idx + c.utf8Size) rest := rfl

theorem scan_open {c : Char} {quote : Quote} (h : quoteOf c = some quote) (idx : Nat)
    (rest : Text) :
    scan none idx (c :: rest) = scan (some (quote, idx)) (idx + c.utf8Size) rest := by
  rw [scan, h]

theorem scan_lineEnd {c : Char} (h : isLineEnd c = true) (idx : Nat) (rest : Text) :
    scan none idx (c :: rest) =
      if idx = 0 then .newline (byteLen (lineEnd c rest).1) else .word idx := by
  rcases isLineEnd_eq_true.mp h with rfl | rfl
  · by_cases hidx : idx = 0
    · by_cases hpair : rest.head? = some '\n'
      · simp [scan, quoteOf, hidx, hpair, lineEnd]
        rfl
      · simp [scan, quoteOf, hidx, hpair, lineEnd]
        rfl
    · simp [scan, quoteOf, hidx, endsWord, h]
  · by_cases hidx : idx = 0
    · simp [scan, quoteOf, hidx, lineEnd]
      rfl
    · simp [scan, quoteOf, hidx, endsWord, h]

theorem scan_semicolon (idx : Nat) (rest : Text) :
    scan none idx (';' :: rest) = if idx = 0 then .semicolon else .word idx := by
  by_cases hidx : idx = 0
  · simp [scan, quoteOf, hidx]
  · simp [scan, quoteOf, hidx, endsWord]

theorem scan_plain {c : Char} (hquote : quoteOf c = none) (hline : isLineEnd c = false)
    (hsemi : c ≠ ';') (idx : Nat) (rest : Text) :
    scan none idx (c :: rest) =
      if isBlank c then .word idx else scan none (idx + c.utf8Size) rest := by
  have hcr : c ≠ '\r' := by
    rintro rfl
    cases hline
  have hlf : c ≠ '\n' := by
    rintro rfl
    cases hline
  simp [scan, hquote, hsemi, hcr, hlf, endsWord, hline]

theorem scan_finds (opened : Option (Quote × Nat)) (idx : Nat) (tail : Text) :
    Finds opened idx tail (scan opened idx tail) := by
  induction tail generalizing opened idx with
  | nil =>
      cases opened with
      | none => exact ⟨[], [], rfl, rfl, passes_nil none⟩
      | some quoted => exact rfl
  | cons c rest ih =>
      cases opened with
      | some quoted =>
          obtain ⟨quote, start⟩ := quoted
          rw [scan_quote_cons]
          split
          · next hc =>
            refine Finds.cons ?_ (by rintro _ _ ⟨⟩) (ih none _)
            have hpass := @passes_char c (some quote)
              (isLineEnd_of_quoteOf (hc ▸ quoteOf_char quote)) (by rintro ⟨-, ⟨⟩⟩)
            rwa [quoteAfter, if_pos hc] at hpass
          · next hc =>
            split
            · next hline =>
              refine ⟨[], c :: rest, rfl, rfl, ?_, .inl rfl⟩
              rw [firstStatement_lineEnd hline, firstStatement_lineEnd hline]
              rfl
            · next hline =>
              refine Finds.cons ?_ (fun _ _ h => .inl rfl) (ih (some (quote, start)) _)
              have hpass := @passes_char c (some quote) (Bool.eq_false_iff.mpr hline)
                (by rintro ⟨-, ⟨⟩⟩)
              rwa [quoteAfter, if_neg hc] at hpass
      | none =>
          cases hquote : quoteOf c with
          | some quote =>
              rw [scan_open hquote]
              refine Finds.cons ?_ ?_ (ih (some (quote, idx)) _)
              · have hpass := @passes_char c none (isLineEnd_of_quoteOf hquote)
                  fun h => semicolon_of_quoteOf hquote h.1
                rwa [quoteAfter, hquote] at hpass
              · intro quote' start h
                cases h
                exact .inr rfl
          | none =>
              by_cases hline : isLineEnd c = true
              · rw [scan_lineEnd hline]
                split
                · next hidx =>
                  exact ⟨hidx, by rw [firstStatement_lineEnd hline], c, rest, rfl, hline⟩
                · exact ⟨[], c :: rest, rfl, rfl, passes_nil none⟩
              · by_cases hsemi : c = ';'
                · rw [hsemi, scan_semicolon]
                  split
                  · next hidx => exact ⟨hidx, rest, rfl⟩
                  · exact ⟨[], _, rfl, rfl, passes_nil none⟩
                · have hline' := Bool.eq_false_iff.mpr hline
                  rw [scan_plain hquote hline' hsemi]
                  split
                  · exact ⟨[], c :: rest, rfl, rfl, passes_nil none⟩
                  · refine Finds.cons ?_ (by rintro _ _ ⟨⟩) (ih none _)
                    have hpass := @passes_char c none hline' fun h => hsemi h.1
                    rwa [quoteAfter, hquote] at hpass

/-- The scan stops within the statement. -/
theorem scan_firstStatement (opened : Option (Quote × Nat)) (idx : Nat) (tail : Text) :
    scan opened idx (firstStatement (opened.map Prod.fst) tail).1 = scan opened idx tail := by
  induction tail generalizing opened idx with
  | nil => rfl
  | cons c rest ih =>
      by_cases hline : isLineEnd c = true
      · obtain ⟨l, hl, hagain⟩ := lineEnd_fst c rest
        rw [firstStatement_lineEnd hline, hl]
        cases opened with
        | some quoted =>
            obtain ⟨quote, start⟩ := quoted
            rw [scan_quote_cons, scan_quote_cons, if_pos hline, if_pos hline]
            have hne : c ≠ quote.char := by
              rintro rfl
              rw [isLineEnd_of_quoteOf (quoteOf_char quote)] at hline
              cases hline
            rw [if_neg hne, if_neg hne]
        | none => rw [scan_lineEnd hline, scan_lineEnd hline, hagain, hl]
      · have hline' := Bool.eq_false_iff.mpr hline
        cases opened with
        | some quoted =>
            obtain ⟨quote, start⟩ := quoted
            have hpass := @passes_char c (some quote) hline' (by rintro ⟨-, ⟨⟩⟩)
            rw [Option.map_some, ← List.singleton_append, hpass rest]
            simp only [Prod.map, List.singleton_append, scan_quote_cons, quoteAfter, if_neg hline]
            split
            · exact ih none _
            · exact ih (some (quote, start)) _
        | none =>
            by_cases hsemi : c = ';'
            · rw [hsemi, Option.map_none, firstStatement_semicolon, scan_semicolon, scan_semicolon]
            · have hpass := @passes_char c none hline' fun h => hsemi h.1
              rw [Option.map_none, ← List.singleton_append, hpass rest]
              simp only [Prod.map, List.singleton_append, quoteAfter]
              cases hquote : quoteOf c with
              | some quote =>
                  rw [scan_open hquote, scan_open hquote]
                  exact ih (some (quote, idx)) _
              | none =>
                  rw [scan_plain hquote hline' hsemi, scan_plain hquote hline' hsemi]
                  split
                  · rfl
                  · exact ih none _

/-! ## One token -/

/-- A text whose first character behind the blanks opens a quote. -/
def opensQuote (t : Text) : Bool := (t.dropWhile isBlank).head?.any fun c => (quoteOf c).isSome

/-- A token of `rest`, which starts at `offset`: a piece of it behind a gap. The token ends
the first statement of `rest`, or the statement goes on behind the token. -/
structure TokenAt (firstItem : Bool) (offset : Nat) (rest : Text) (tok : Token)
    (gap piece after : Text) : Prop where
  split : rest = gap ++ piece ++ after
  nonempty : piece ≠ []
  span : tok.span = (offset + byteLen gap, offset + byteLen (gap ++ piece))
  ends : tok.item.endsStatement = true → firstStatement none rest = (gap ++ piece, after)
  goesOn : tok.item.endsStatement = false → (firstItem = true → opensQuote rest = false) →
    firstStatement none rest = (firstStatement none after).map (gap ++ piece ++ ·) id

theorem opensQuote_cons {c : Char} (h : isBlank c = false) (t : Text) :
    opensQuote (c :: t) = (quoteOf c).isSome := by
  rw [opensQuote, List.dropWhile_cons_of_neg (by rw [h]; exact Bool.false_ne_true)]
  rfl

/-- A word is the character at its start and what was scanned behind it. -/
theorem scan_word {c : Char} {t : Text} {stop : Nat} (h : scan none 0 (c :: t) = .word stop)
    (hblank : isBlank c = false) :
    isLineEnd c = false ∧ c ≠ ';' ∧
      ∃ w after, t = w ++ after ∧ stop = byteLen (c :: w) ∧ Passes none none (c :: w) := by
  have hline : isLineEnd c = false := by
    rw [Bool.eq_false_iff]
    intro hline
    rw [scan_lineEnd hline, if_pos rfl] at h
    cases h
  have hsemi : c ≠ ';' := by
    rintro rfl
    rw [scan_semicolon, if_pos rfl] at h
    cases h
  have hpass := @passes_char c none hline fun h => hsemi h.1
  refine ⟨hline, hsemi, ?_⟩
  cases hquote : quoteOf c with
  | some quote =>
      rw [scan_open hquote] at h
      have hfinds := scan_finds (some (quote, 0)) (0 + c.utf8Size) t
      rw [h] at hfinds
      obtain ⟨w, after, ht, hstop, hw⟩ := hfinds
      rw [quoteAfter, hquote] at hpass
      exact ⟨w, after, ht, by rw [hstop, byteLen_cons]; omega, hpass.append hw⟩
  | none =>
      rw [scan_plain hquote hline hsemi, hblank] at h
      have hfinds := scan_finds none (0 + c.utf8Size) t
      rw [if_neg Bool.false_ne_true] at h
      rw [h] at hfinds
      obtain ⟨w, after, ht, hstop, hw⟩ := hfinds
      rw [quoteAfter, hquote] at hpass
      exact ⟨w, after, ht, by rw [hstop, byteLen_cons]; omega, hpass.append hw⟩

theorem wordToken_spec {firstItem : Bool} {offset : Nat} {c : Char} {w after : Text}
    (hblank : isBlank c = false) (hline : isLineEnd c = false) (hsemi : c ≠ ';')
    (hpass : Passes none none (c :: w)) :
    ∃ tok gap piece after',
      wordToken firstItem offset (byteLen (c :: w)) (c :: w) = some tok ∧
        TokenAt firstItem offset (c :: w ++ after) tok gap piece after' := by
  have hword : ∀ item, item.endsStatement = false →
      TokenAt firstItem offset (c :: w ++ after) ⟨item, (offset, offset + byteLen (c :: w))⟩
        [] (c :: w) after := by
    intro item hitem
    refine ⟨rfl, List.cons_ne_nil _ _, rfl, ?_, fun _ _ => hpass after⟩
    intro hends
    rw [hitem] at hends
    cases hends
  cases firstItem with
  | false => exact ⟨_, [], c :: w, after, rfl, hword _ rfl⟩
  | true =>
      rw [wordToken, if_pos rfl]
      by_cases hback : c = '\\'
      · rw [if_neg (not_not_intro hback)]
        by_cases hdash : w.head? = some '-'
        · rw [if_pos hdash]
          obtain ⟨w, rfl⟩ : ∃ v, w = '-' :: v := List.head?_eq_some_iff.mp hdash
          subst hback
          refine ⟨_, ['\\'], ['-'], w ++ after, rfl, rfl, List.cons_ne_nil _ _, rfl, ?_, ?_⟩
          · rintro ⟨⟩
          · rintro - -
            have hslash := @passes_char '\\' none rfl (by decide)
            have hdash := @passes_char '-' none rfl (by decide)
            exact hslash.append hdash (w ++ after)
        · rw [if_neg hdash]
          exact ⟨_, [], c :: w, after, rfl, hword _ rfl⟩
      · rw [if_pos hback]
        refine ⟨_, [], [c], w ++ after, rfl, rfl, List.cons_ne_nil _ _, ?_, ?_, ?_⟩
        · simp
        · rintro ⟨⟩
        · rintro - hopens
          have hnone := hopens rfl
          rw [List.cons_append, opensQuote_cons hblank, Option.isSome_eq_false_iff,
            Option.isNone_iff_eq_none] at hnone
          have hchar := @passes_char c none hline fun h => hsemi h.1
          rw [quoteAfter, hnone] at hchar
          exact hchar (w ++ after)

theorem readToken_spec (firstItem : Bool) (offset : Nat) {c : Char} (t : Text)
    (hblank : isBlank c = false) :
    ∃ tok gap piece after,
      readToken firstItem offset (offset + byteLen (c :: t)) (c :: t) = some tok ∧
        TokenAt firstItem offset (c :: t) tok gap piece after := by
  have hfinds := scan_finds none 0 (c :: t)
  rw [readToken]
  cases hscan : scan none 0 (c :: t) with
  | semicolon =>
      rw [hscan] at hfinds
      obtain ⟨-, t', heq⟩ := hfinds
      cases heq
      exact ⟨_, [], [';'], t, rfl, rfl, List.cons_ne_nil _ _, rfl, fun _ => rfl, by rintro ⟨⟩⟩
  | newline len =>
      rw [hscan] at hfinds
      obtain ⟨-, rfl, -⟩ := hfinds
      have hne := firstStatement_ne_nil (List.cons_ne_nil c t) none
      refine ⟨_, [], (firstStatement none (c :: t)).1, (firstStatement none (c :: t)).2, rfl, ?_,
        hne, rfl, fun _ => rfl, by rintro ⟨⟩⟩
      exact (firstStatement_append none (c :: t)).symm
  | quoteLineEnd quote start stop =>
      rw [hscan] at hfinds
      obtain ⟨w, after, heq, rfl, hstatement, hstart⟩ := hfinds
      rcases hstart with ⟨⟨⟩⟩ | ⟨gap, piece, rfl, hpiece, rfl⟩
      refine ⟨_, gap, piece, after, rfl, heq, hpiece, ?_, by rintro ⟨⟩, fun _ _ => hstatement⟩
      rw [Nat.zero_add, Nat.zero_add]
  | incomplete quote =>
      rw [hscan] at hfinds
      refine ⟨_, [], c :: t, [], rfl, by simp, List.cons_ne_nil _ _, rfl, by rintro ⟨⟩, ?_⟩
      rintro - -
      rw [show firstStatement none (c :: t) = (c :: t, []) from hfinds]
      simp [firstStatement, Prod.map]
  | word stop =>
      obtain ⟨hline, hsemi, w, after, rfl, rfl, hpass⟩ := scan_word hscan hblank
      obtain ⟨tok, gap, piece, after', hword, htok⟩ :=
        @wordToken_spec firstItem offset c w after hblank hline hsemi hpass
      refine ⟨tok, gap, piece, after', ?_, htok⟩
      have hsplit := splitAtByte_append (c :: w) after
      rw [List.cons_append] at hsplit
      simp only [hsplit, Option.bind_eq_bind, Option.bind_some]
      exact hword

/-- The token of a tail is the token of its first statement. -/
theorem readToken_firstStatement (firstItem : Bool) (offset : Nat) {c : Char} (t : Text)
    (hblank : isBlank c = false) :
    readToken firstItem offset (offset + byteLen (firstStatement none (c :: t)).1)
        (firstStatement none (c :: t)).1 =
      readToken firstItem offset (offset + byteLen (c :: t)) (c :: t) := by
  have hscan : scan none 0 (firstStatement none (c :: t)).1 = scan none 0 (c :: t) :=
    scan_firstStatement none 0 (c :: t)
  have hfinds := scan_finds none 0 (c :: t)
  rw [readToken, readToken, hscan]
  cases hfound : scan none 0 (c :: t) with
  | semicolon => rfl
  | newline len => rfl
  | quoteLineEnd quote start stop => rfl
  | incomplete quote =>
      rw [hfound] at hfinds
      rw [show firstStatement none (c :: t) = (c :: t, []) from hfinds]
  | word stop =>
      obtain ⟨-, -, w, after, rfl, rfl, hpass⟩ := scan_word hfound hblank
      have hcut := hpass after
      rw [List.cons_append] at hcut
      have hsplit := splitAtByte_append (c :: w) after
      rw [List.cons_append] at hsplit
      rw [hcut]
      simp only [Prod.map, hsplit, splitAtByte_append]
      rfl

end GelCli.Repl.Backslash
