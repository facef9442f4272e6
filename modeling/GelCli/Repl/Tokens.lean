import GelCli.Foundation.Spans
import GelCli.Repl.Statements

/-!
# Tokens of backslash commands

The tokens of a text lay it out, and up to the token that ends the first statement they
are the tokens of that statement alone.
-/

namespace GelCli.Repl.Backslash

open GelCli.Foundation
open Text

/-! ## The parser -/

/-- The parser between `before`, which it has read, and `rest`. -/
def parserAt (before rest : Text) (firstItem : Bool) : Parser :=
  ⟨before ++ rest, firstItem, byteLen before⟩

theorem exists_blanks (rest : Text) :
    ∃ gap tail, rest = gap ++ tail ∧ (∀ c ∈ gap, isBlank c = true) ∧
      (tail = [] ∨ ∃ c t, tail = c :: t ∧ isBlank c = false) := by
  refine ⟨rest.takeWhile isBlank, rest.dropWhile isBlank,
    List.takeWhile_append_dropWhile.symm, fun c hc => List.mem_takeWhile_imp hc, ?_⟩
  cases htail : rest.dropWhile isBlank with
  | nil => exact .inl rfl
  | cons c t =>
      have hhead := List.head?_dropWhile_not isBlank rest
      rw [htail] at hhead
      exact .inr ⟨c, t, rfl, by simpa using hhead⟩

theorem dropWhile_blanks {gap : Text} (h : ∀ c ∈ gap, isBlank c = true) (tail : Text) :
    (gap ++ tail).dropWhile isBlank = tail.dropWhile isBlank :=
  List.dropWhile_append_of_pos h

theorem opensQuote_blanks {gap : Text} (h : ∀ c ∈ gap, isBlank c = true) (tail : Text) :
    opensQuote (gap ++ tail) = opensQuote tail := by
  rw [opensQuote, opensQuote, dropWhile_blanks h]

theorem token_blanks {gap : Text} (h : ∀ c ∈ gap, isBlank c = true) (before : Text)
    (firstItem : Bool) : (parserAt before gap firstItem).token = some none := by
  have hdrop := dropWhile_blanks h []
  rw [List.append_nil] at hdrop
  rw [parserAt, Parser.token]
  simp only [splitAtByte_append, Option.bind_eq_bind, Option.bind_some, hdrop]
  rfl

theorem token_behind {gap : Text} (h : ∀ c ∈ gap, isBlank c = true) {c : Char}
    (hblank : isBlank c = false) (before t : Text) (firstItem : Bool) :
    (parserAt before (gap ++ c :: t) firstItem).token =
      (readToken firstItem (byteLen (before ++ gap)) (byteLen (before ++ gap) + byteLen (c :: t))
        (c :: t)).map some := by
  have hdrop := dropWhile_blanks h (c :: t)
  rw [List.dropWhile_cons_of_neg (by rw [hblank]; exact Bool.false_ne_true)] at hdrop
  have hlen : byteLen (before ++ (gap ++ c :: t)) = byteLen (before ++ gap) + byteLen (c :: t) := by
    rw [← List.append_assoc, byteLen_append]
  rw [parserAt, Parser.token]
  simp only [splitAtByte_append, Option.bind_eq_bind, Option.bind_some, hdrop, hlen,
    Nat.add_sub_cancel, if_neg (List.cons_ne_nil c t)]
  cases readToken firstItem (byteLen (before ++ gap)) (byteLen (before ++ gap) + byteLen (c :: t))
    (c :: t) <;> rfl

theorem TokenAt.blanks {firstItem : Bool} {offset : Nat} {blanks rest : Text} {tok : Token}
    {gap piece after : Text} (hblanks : ∀ c ∈ blanks, isBlank c = true)
    (h : TokenAt firstItem (offset + byteLen blanks) rest tok gap piece after) :
    TokenAt firstItem offset (blanks ++ rest) tok (blanks ++ gap) piece after := by
  have hpass := passes_blanks hblanks
  refine ⟨?_, h.nonempty, ?_, ?_, ?_⟩
  · rw [h.split]
    simp only [List.append_assoc]
  · rw [h.span]
    simp only [byteLen_append, Nat.add_assoc]
  · intro hends
    rw [hpass rest, h.ends hends]
    simp [Prod.map]
  · intro hends hopens
    rw [opensQuote_blanks hblanks] at hopens
    rw [hpass rest, h.goesOn hends hopens]
    simp [Prod.map]

/-- **A token at any place of a text.** -/
theorem token_spec (before rest : Text) (firstItem : Bool) :
    (parserAt before rest firstItem).token = some none ∧ Passes none none rest ∨
      ∃ tok gap piece after, (parserAt before rest firstItem).token = some (some tok) ∧
        TokenAt firstItem (byteLen before) rest tok gap piece after := by
  obtain ⟨blanks, tail, rfl, hblanks, rfl | ⟨c, t, rfl, hc⟩⟩ := exists_blanks rest
  · rw [List.append_nil]
    exact .inl ⟨token_blanks hblanks before firstItem, passes_blanks hblanks⟩
  · right
    obtain ⟨tok, gap, piece, after, hread, htok⟩ :=
      readToken_spec firstItem (byteLen (before ++ blanks)) t hc
    refine ⟨tok, blanks ++ gap, piece, after, ?_, ?_⟩
    · rw [token_behind hblanks hc, hread]
      rfl
    · rw [byteLen_append] at htok
      exact htok.blanks hblanks

theorem token_firstStatement (before rest : Text) (firstItem : Bool) :
    (parserAt before (firstStatement none rest).1 firstItem).token =
      (parserAt before rest firstItem).token := by
  obtain ⟨blanks, tail, rfl, hblanks, rfl | ⟨c, t, rfl, hc⟩⟩ := exists_blanks rest
  · rw [List.append_nil, (passes_blanks hblanks).eq_self]
  · have hread := readToken_firstStatement firstItem (byteLen (before ++ blanks)) t hc
    obtain ⟨l, hl⟩ := firstStatement_cons c t
    rw [passes_blanks hblanks (c :: t)]
    simp only [Prod.map]
    rw [hl] at hread ⊢
    rw [token_behind hblanks hc, token_behind hblanks hc, hread]

/-! ## All tokens -/

/-- What the iterator yields until it ends. -/
inductive Yields : Parser → List Token → Prop
  | done {p : Parser} : p.next = some none → Yields p []
  | token {p p' : Parser} {tok : Token} {toks : List Token} :
      p.next = some (some (tok, p')) → Yields p' toks → Yields p (tok :: toks)

/-- The tokens up to the one that ends the statement. -/
def throughEnd : List Token → List Token
  | [] => []
  | tok :: toks => if tok.item.endsStatement then [tok] else tok :: throughEnd toks

theorem Yields.collect {p : Parser} {toks : List Token} (h : Yields p toks) {fuel : Nat}
    (hfuel : toks.length < fuel) : p.collect fuel = some toks := by
  induction h generalizing fuel with
  | done hnext =>
      obtain ⟨fuel, rfl⟩ := Nat.exists_eq_succ_of_ne_zero (Nat.ne_zero_of_lt hfuel)
      simp only [Parser.collect, hnext, Option.bind_eq_bind, Option.bind_some]
      rfl
  | @token p p' tok toks hnext _ ih =>
      obtain ⟨fuel, rfl⟩ := Nat.exists_eq_succ_of_ne_zero (Nat.ne_zero_of_lt hfuel)
      rw [List.length_cons] at hfuel
      simp only [Parser.collect, hnext, ih (show toks.length < fuel by omega),
        Option.bind_eq_bind, Option.bind_some]
      rfl

theorem Yields.unique {p : Parser} {toks toks' : List Token} (h : Yields p toks)
    (h' : Yields p toks') : toks = toks' := by
  have hcollect := h.collect (Nat.lt_succ_of_le (Nat.le_add_right toks.length toks'.length))
  rw [h'.collect (Nat.lt_succ_of_le (Nat.le_add_left _ _))] at hcollect
  exact (Option.some.inj hcollect).symm

theorem next_of_token {before gap piece after : Text} {firstItem : Bool} {tok : Token}
    (htok : (parserAt before (gap ++ piece ++ after) firstItem).token = some (some tok))
    (hspan : tok.span = (byteLen before + byteLen gap, byteLen before + byteLen (gap ++ piece))) :
    (parserAt before (gap ++ piece ++ after) firstItem).next =
      some (some (tok, parserAt (before ++ gap ++ piece) after false)) := by
  rw [Parser.next, htok]
  simp [parserAt, hspan]

theorem next_nil (before : Text) (firstItem : Bool) :
    (parserAt before [] firstItem).next = some none := by
  rw [Parser.next, token_blanks (fun c hc => absurd hc List.not_mem_nil)]
  rfl

/-- The tokens of `rest`, which stands behind `before`. -/
structure Reads (before rest : Text) (firstItem : Bool) (toks : List Token) : Prop where
  yields : Yields (parserAt before rest firstItem) toks
  laid : Laid before rest (toks.map Token.span)
  nonempty : ∀ tok ∈ toks, tok.span.1 < tok.span.2
  count : toks.length ≤ rest.length

/-- The splitter cuts behind the first statement, which has the same tokens on its own. -/
structure Cuts (before rest : Text) (firstItem : Bool) (toks : List Token) : Prop where
  stop : statementEnd (byteLen (before ++ rest)) toks =
    byteLen (before ++ (firstStatement none rest).1)
  yields : Yields (parserAt before (firstStatement none rest).1 firstItem) (throughEnd toks)

theorem Reads.token {before rest gap piece after : Text} {firstItem : Bool} {tok : Token}
    {toks : List Token}
    (htok : (parserAt before rest firstItem).token = some (some tok))
    (hat : TokenAt firstItem (byteLen before) rest tok gap piece after)
    (h : Reads (before ++ gap ++ piece) after false toks) :
    Reads before rest firstItem (tok :: toks) := by
  obtain rfl := hat.split
  have hpiece := List.length_pos_iff.mpr hat.nonempty
  have hspan : tok.span = (byteLen (before ++ gap), byteLen (before ++ gap ++ piece)) := by
    rw [hat.span]
    simp only [byteLen_append, Nat.add_assoc]
  refine ⟨.token (next_of_token htok hat.span) h.yields, ?_, ?_, ?_⟩
  · rw [List.map_cons, hspan]
    exact .piece h.laid
  · intro tok' htok'
    rcases List.mem_cons.mp htok' with rfl | htok'
    · have hlen := length_le_byteLen piece
      rw [hspan, byteLen_append (before ++ gap)]
      omega
    · exact h.nonempty tok' htok'
  · have hcount := h.count
    simp only [List.length_cons, List.length_append]
    omega

theorem Cuts.token {before rest gap piece after : Text} {firstItem : Bool} {tok : Token}
    {toks : List Token}
    (htok : (parserAt before rest firstItem).token = some (some tok))
    (hat : TokenAt firstItem (byteLen before) rest tok gap piece after)
    (hopens : firstItem = true → opensQuote rest = false)
    (h : Cuts (before ++ gap ++ piece) after false toks) :
    Cuts before rest firstItem (tok :: toks) := by
  have hlocal := token_firstStatement before rest firstItem
  rw [htok] at hlocal
  by_cases hends : tok.item.endsStatement = true
  · rw [hat.ends hends] at hlocal
    have hnext := @next_of_token before gap piece [] firstItem tok
      (by rwa [List.append_nil]) hat.span
    rw [List.append_nil] at hnext
    constructor
    · rw [statementEnd, if_pos hends, hat.span, hat.ends hends]
      exact (byteLen_append before (gap ++ piece)).symm
    · rw [throughEnd, if_pos hends, hat.ends hends]
      exact .token hnext (.done (next_nil _ _))
  · have hgoes := hat.goesOn (Bool.eq_false_iff.mpr hends) hopens
    rw [hgoes] at hlocal
    constructor
    · rw [statementEnd, if_neg hends, hgoes, hat.split]
      have hstop := h.stop
      simp only [List.append_assoc] at hstop
      simpa only [Prod.map, List.append_assoc] using hstop
    · rw [throughEnd, if_neg hends, hgoes]
      exact .token (next_of_token hlocal hat.span) h.yields

/-- **The tokens of a text.** By induction on what is left to read: each token takes a part
of it, and either ends the first statement or leaves the end of it in the rest. -/
theorem exists_reads (before rest : Text) (firstItem : Bool) :
    ∃ toks, Reads before rest firstItem toks ∧
      ((firstItem = true → opensQuote rest = false) → Cuts before rest firstItem toks) := by
  induction hn : rest.length using Nat.strong_induction_on generalizing before rest firstItem with
  | _ n ih =>
      rcases token_spec before rest firstItem with
        ⟨hnone, hpass⟩ | ⟨tok, gap, piece, after, htok, hat⟩
      · have hnext : (parserAt before rest firstItem).next = some none := by
          rw [Parser.next, hnone]
          rfl
        refine ⟨[], ⟨.done hnext, .done before rest, ?_, Nat.zero_le _⟩, fun _ => ⟨?_, ?_⟩⟩
        · exact fun tok htok => absurd htok List.not_mem_nil
        · rw [statementEnd, hpass.eq_self]
        · rw [hpass.eq_self]
          exact .done hnext
      · have hless : after.length < n := by
          have hpiece := List.length_pos_iff.mpr hat.nonempty
          rw [← hn, hat.split]
          simp only [List.length_append]
          omega
        obtain ⟨toks, hreads, hcuts⟩ :=
          ih after.length hless (before ++ gap ++ piece) after false rfl
        refine ⟨tok :: toks, hreads.token htok hat, fun hopens => ?_⟩
        exact (hcuts (by rintro ⟨⟩)).token htok hat hopens

theorem Reads.tokens {s : Text} {toks : List Token} (h : Reads [] s true toks) {fuel : Nat}
    (hfuel : s.length < fuel) : (Parser.new s).collect fuel = some toks :=
  h.yields.collect (Nat.lt_of_le_of_lt h.count hfuel)

end GelCli.Repl.Backslash
