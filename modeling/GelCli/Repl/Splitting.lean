import GelCli.Repl.Tokens

/-!
# Splitting a text into commands

A text is cut at `full_statement` again and again, each command is parsed from the text
that starts with it, and the REPL takes the commands of a source the same way. A text that
starts with a quote is no command; its first token leaves the quote behind, so the splitter
can cut inside it.
-/

namespace GelCli.Repl.Backslash

open GelCli.Foundation
open Text

/-- The parts of a text that is cut at `full_statement` until nothing is left. -/
def pieces : Nat → Text → Option (List Text)
  | _, [] => some []
  | 0, _ :: _ => none
  | fuel + 1, s => do
      let p ← fullStatement s
      let (command, rest) ← splitAtByte s p
      let commands ← pieces fuel rest
      return command :: commands

/-- The statements of a text, one behind the other. -/
inductive Statements : Text → List Text → Prop
  | nil : Statements [] []
  | cons {s : Text} {commands : List Text} : s ≠ [] →
      Statements (firstStatement none s).2 commands →
      Statements s ((firstStatement none s).1 :: commands)

/-! ## The loop of the REPL -/

inductive ToDoItem where
  | query (text : Text)
  | explain (text : Text)
  | backslash (text : Text)
  deriving DecidableEq

section ToDo

-- The preparser of EdgeQL and the classification of its statements.
variable (isEmpty : Text → Bool) (edgeqlStatement : Text → Option Nat) (isAnalyze : Text → Bool)

/-- `ToDo::next`, from `src/interactive.rs`: the item and the tail behind it, in at most
`fuel` turns of the loop. -/
def toDoNext : Nat → Text → Option (Option (ToDoItem × Text))
  | 0, _ => none
  | fuel + 1, tail => do
      let tail := trimStart tail
      if tail.head? = some '\\' then
        let len ← fullStatement tail
        let (command, rest) ← splitAtByte tail len
        return some (.backslash command, rest)
      else if isEmpty tail then return none
      else
        let (query, rest) ← splitAtByte tail ((edgeqlStatement tail).getD (byteLen tail))
        if isEmpty query then toDoNext fuel rest
        else if isAnalyze query then return some (.explain query, rest)
        else return some (.query query, rest)

end ToDo

/-! ## Cutting -/

theorem fullStatement_of_reads {s : Text} {toks : List Token} (h : Reads [] s true toks) :
    fullStatement s = some (statementEnd (byteLen s) toks) := by
  rw [fullStatement, tokens, h.tokens (Nat.lt_succ_self _)]
  rfl

/-- The end that the splitter takes is the end of the text or of a token. -/
theorem statementEnd_mem (len : Nat) (toks : List Token) :
    statementEnd len toks = len ∨ ∃ tok ∈ toks, statementEnd len toks = tok.span.2 := by
  induction toks with
  | nil => exact .inl rfl
  | cons tok toks ih =>
      rw [statementEnd]
      split
      · exact .inr ⟨tok, List.mem_cons_self, rfl⟩
      · rcases ih with ih | ⟨tok', hmem, ih⟩
        · exact .inl ih
        · exact .inr ⟨tok', List.mem_cons_of_mem _ hmem, ih⟩

theorem exists_fullStatement (s : Text) :
    ∃ p, fullStatement s = some p ∧ p ≤ byteLen s ∧ IsBoundary s p ∧ (s ≠ [] → 0 < p) := by
  obtain ⟨toks, hreads, -⟩ := exists_reads [] s true
  refine ⟨_, fullStatement_of_reads hreads, ?_⟩
  rcases statementEnd_mem (byteLen s) toks with heq | ⟨tok, hmem, heq⟩
  · rw [heq]
    refine ⟨Nat.le_refl _, ⟨s, [], splitAtByte_eq_some.mpr ⟨(List.append_nil s).symm, rfl⟩⟩, ?_⟩
    intro hs
    exact Nat.lt_of_lt_of_le (List.length_pos_iff.mpr hs) (length_le_byteLen s)
  · obtain ⟨-, -, hstop⟩ := hreads.laid.ordered.cuts tok.span (List.mem_map_of_mem hmem)
    rw [List.nil_append] at hstop
    rw [heq]
    refine ⟨?_, hstop, fun _ => Nat.zero_lt_of_lt (hreads.nonempty tok hmem)⟩
    obtain ⟨a, b, hs, ha⟩ := hstop.exists_append
    rw [hs, byteLen_append]
    omega

/-- Where no quote opens the text, the splitter cuts behind the first statement. -/
theorem fullStatement_eq {s : Text} (h : opensQuote s = false) :
    fullStatement s = some (byteLen (firstStatement none s).1) := by
  obtain ⟨toks, hreads, hcuts⟩ := exists_reads [] s true
  have hstop := (hcuts fun _ => h).stop
  rw [fullStatement_of_reads hreads]
  exact congrArg some hstop

theorem splitAtByte_firstStatement (s : Text) :
    splitAtByte s (byteLen (firstStatement none s).1) = some (firstStatement none s) :=
  splitAtByte_eq_some.mpr ⟨(firstStatement_append none s).symm, rfl⟩

section Parse

variable {B : Type} (help : B) (getMatches : List Text → Except ClapError B)
  (isWord : Char → Bool)

theorem readTokens_throughEnd (arguments : List Text) (toks : List Token) :
    readTokens help arguments (throughEnd toks) = readTokens help arguments toks := by
  induction toks generalizing arguments with
  | nil => rfl
  | cons tok toks ih =>
      obtain ⟨item, span⟩ := tok
      cases item with
      | command x =>
          simp only [throughEnd, Item.endsStatement, Bool.false_eq_true, if_false, readTokens, ih]
      | argument x =>
          simp only [throughEnd, Item.endsStatement, Bool.false_eq_true, if_false, readTokens, ih]
      | error message => rfl
      | incomplete message => rfl
      | semicolon => rfl
      | newline => rfl

theorem parse_firstStatement {s : Text} (h : opensQuote s = false) :
    parse help getMatches isWord (firstStatement none s).1 = parse help getMatches isWord s := by
  obtain ⟨toks, hreads, hcuts⟩ := exists_reads [] s true
  obtain ⟨toks', hreads', -⟩ := exists_reads [] (firstStatement none s).1 true
  obtain rfl := hreads'.yields.unique (hcuts fun _ => h).yields
  rw [parse, parse, tokens, tokens, hreads.tokens (Nat.lt_succ_self _),
    hreads'.tokens (Nat.lt_succ_self _), Option.map_some, Option.map_some, parseTokens,
    parseTokens, readTokens_throughEnd]

end Parse

/-! ## Cutting again and again -/

theorem opensQuote_firstStatement (s : Text) :
    opensQuote (firstStatement none s).1 = opensQuote s := by
  obtain ⟨blanks, tail, rfl, hblanks, rfl | ⟨c, t, rfl, hc⟩⟩ := exists_blanks s
  · rw [List.append_nil, (passes_blanks hblanks).eq_self]
  · obtain ⟨l, hl⟩ := firstStatement_cons c t
    rw [passes_blanks hblanks (c :: t)]
    simp only [Prod.map, hl]
    rw [opensQuote_blanks hblanks, opensQuote_blanks hblanks, opensQuote_cons hc,
      opensQuote_cons hc]

theorem length_firstStatement_snd {s : Text} (h : s ≠ []) :
    (firstStatement none s).2.length < s.length := by
  have happend := congrArg List.length (firstStatement_append none s)
  have hpos := List.length_pos_iff.mpr (firstStatement_ne_nil h none)
  rw [List.length_append] at happend
  omega

theorem exists_statements (s : Text) : ∃ commands, Statements s commands := by
  induction hn : s.length using Nat.strong_induction_on generalizing s with
  | _ n ih =>
      by_cases hs : s = []
      · subst hs
        exact ⟨[], .nil⟩
      · have hless := length_firstStatement_snd hs
        rw [hn] at hless
        obtain ⟨commands, hcommands⟩ := ih _ hless (firstStatement none s).2 rfl
        exact ⟨_, .cons hs hcommands⟩

theorem pieces_cons {s command rest : Text} {p fuel : Nat} (hs : s ≠ [])
    (hp : fullStatement s = some p) (hsplit : splitAtByte s p = some (command, rest)) :
    pieces (fuel + 1) s = (pieces fuel rest).map (command :: ·) := by
  cases s with
  | nil => exact absurd rfl hs
  | cons c t =>
      rw [pieces.eq_3 _ _ hs]
      simp only [hp, hsplit, Option.bind_eq_bind, Option.bind_some]
      cases pieces fuel rest <;> rfl

/-- The cutting uses the text up, whatever it starts with. -/
theorem exists_pieces (s : Text) {fuel : Nat} (hfuel : s.length ≤ fuel) :
    ∃ commands, pieces fuel s = some commands ∧ commands.flatten = s := by
  induction fuel generalizing s with
  | zero =>
      obtain rfl := List.length_eq_zero_iff.mp (Nat.le_zero.mp hfuel)
      exact ⟨[], rfl, rfl⟩
  | succ fuel ih =>
      by_cases hs : s = []
      · subst hs
        exact ⟨[], rfl, rfl⟩
      · obtain ⟨p, hp, -, ⟨command, rest, hsplit⟩, hpos⟩ := exists_fullStatement s
        obtain ⟨happend, hlen⟩ := splitAtByte_eq_some.mp hsplit
        have hcommand : command ≠ [] := by
          rintro rfl
          exact absurd hlen (Nat.ne_of_lt (hpos hs))
        have hrest : rest.length ≤ fuel := by
          have hpositive := List.length_pos_iff.mpr hcommand
          rw [happend, List.length_append] at hfuel
          omega
        obtain ⟨commands, hcommands, hflatten⟩ := ih rest hrest
        refine ⟨command :: commands, ?_, ?_⟩
        · rw [pieces_cons hs hp hsplit, hcommands]
          rfl
        · rw [List.flatten_cons, hflatten, happend]

/-- Where no statement opens with a quote, the parts are the statements. -/
theorem Statements.pieces {s : Text} {commands : List Text} (h : Statements s commands)
    (hopens : ∀ command ∈ commands, opensQuote command = false) {fuel : Nat}
    (hfuel : s.length ≤ fuel) : pieces fuel s = some commands := by
  induction h generalizing fuel with
  | nil => cases fuel <;> rfl
  | @cons s commands hs _ ih =>
      have hless := length_firstStatement_snd hs
      obtain ⟨fuel, rfl⟩ := Nat.exists_eq_succ_of_ne_zero (show fuel ≠ 0 by omega)
      have hopen := hopens _ List.mem_cons_self
      rw [opensQuote_firstStatement] at hopen
      rw [pieces_cons hs (fullStatement_eq hopen) (splitAtByte_firstStatement s),
        ih (fun command hc => hopens command (List.mem_cons_of_mem _ hc)) (by omega)]
      rfl

/-- A backslash behind white space stands before any quote. -/
theorem opensQuote_of_trimStart {s : Text} (h : (trimStart s).head? = some '\\') :
    opensQuote s = false := by
  induction s with
  | nil => rfl
  | cons c s ih =>
      by_cases hspace : isWhitespace c = true
      · rw [trimStart, List.dropWhile_cons_of_pos hspace] at h
        by_cases hblank : isBlank c = true
        · rw [opensQuote, List.dropWhile_cons_of_pos hblank]
          exact ih h
        · rw [opensQuote_cons (Bool.eq_false_iff.mpr hblank), Option.isSome_eq_false_iff,
            Option.isNone_iff_eq_none]
          cases hquote : quoteOf c with
          | none => rfl
          | some quote =>
              obtain rfl := char_of_quoteOf hquote
              cases quote <;> cases hspace
      · rw [trimStart_of_head (Bool.eq_false_iff.mpr hspace)] at h
        obtain rfl := Option.some.inj h
        rfl

theorem toDoNext_backslash (isEmpty : Text → Bool) (edgeqlStatement : Text → Option Nat)
    (isAnalyze : Text → Bool) {tail : Text} (h : (trimStart tail).head? = some '\\')
    (fuel : Nat) :
    toDoNext isEmpty edgeqlStatement isAnalyze (fuel + 1) tail =
      some (some (.backslash (firstStatement none (trimStart tail)).1,
        (firstStatement none (trimStart tail)).2)) := by
  have hopens : opensQuote (trimStart tail) = false := by
    obtain ⟨t, ht⟩ := List.head?_eq_some_iff.mp h
    rw [ht]
    rfl
  rw [toDoNext]
  simp only [if_pos h, fullStatement_eq hopens, splitAtByte_firstStatement, Option.bind_eq_bind,
    Option.bind_some]
  rfl

/-! ## The agreement -/

/-- The splitter and the parser agree about `s`; where they read a command, it has to be
one that `allowed` admits. -/
structure SplitterAgrees {B : Type} (help : B) (getMatches : List Text → Except ClapError B)
    (isWord : Char → Bool) (allowed : Text → Prop) (s : Text) : Prop where
  tokens : ∃ toks, (∀ fuel, s.length < fuel → (Parser.new s).collect fuel = some toks) ∧
    Ordered s (toks.map Token.span) ∧ ∀ tok ∈ toks, tok.span.1 < tok.span.2
  stop : ∃ p, fullStatement s = some p ∧ p ≤ byteLen s ∧ IsBoundary s p ∧ (s ≠ [] → 0 < p)
  command : allowed s → ∃ p command rest, fullStatement s = some p ∧
    splitAtByte s p = some (command, rest) ∧ firstStatement none s = (command, rest) ∧
    parse help getMatches isWord s = parse help getMatches isWord command
  quotes : allowed s → ∀ (a b body : Text) (quote : Quote),
    s = a ++ (quote.char :: body ++ [quote.char]) ++ b → Passes none none a →
    (∀ c ∈ body, c ≠ quote.char ∧ isLineEnd c = false) →
    ∃ p, fullStatement s = some p ∧ byteLen (a ++ (quote.char :: body ++ [quote.char])) ≤ p
  consumed : ∃ commands, pieces s.length s = some commands ∧ commands.flatten = s
  statements : ∃ commands, Statements s commands ∧
    ((∀ command ∈ commands, allowed command) → pieces s.length s = some commands)

/-- **Splitter and parser read the same commands.** Only a text that opens with a quote is
left out; a text that starts with a backslash behind white space does not. -/
theorem splitterAgrees_unlessQuoted {B : Type} (help : B)
    (getMatches : List Text → Except ClapError B) (isWord : Char → Bool) (s : Text) :
    SplitterAgrees help getMatches isWord (fun t => opensQuote t = false) s ∧
      ((trimStart s).head? = some '\\' → opensQuote s = false ∧
        ∀ isEmpty edgeqlStatement isAnalyze,
          toDoNext isEmpty edgeqlStatement isAnalyze 1 s =
            some (some (.backslash (firstStatement none (trimStart s)).1,
              (firstStatement none (trimStart s)).2))) := by
  obtain ⟨toks, hreads, -⟩ := exists_reads [] s true
  obtain ⟨commands, hcommands⟩ := exists_statements s
  have hagrees : SplitterAgrees help getMatches isWord (fun t => opensQuote t = false) s := by
    refine ⟨⟨toks, fun fuel => hreads.tokens, hreads.laid.ordered, hreads.nonempty⟩,
      exists_fullStatement s, ?_, ?_, exists_pieces s (Nat.le_refl _),
      ⟨commands, hcommands, fun hopens => hcommands.pieces hopens (Nat.le_refl _)⟩⟩
    · intro hopens
      exact ⟨_, _, _, fullStatement_eq hopens, splitAtByte_firstStatement s, rfl,
        (parse_firstStatement help getMatches isWord hopens).symm⟩
    · intro hopens a b body quote hs ha hbody
      refine ⟨_, fullStatement_eq hopens, ?_⟩
      rw [hs, ha.append (passes_quote hbody) b]
      simp only [Prod.map, byteLen_append]
      omega
  exact ⟨hagrees, fun h => ⟨opensQuote_of_trimStart h,
    fun isEmpty edgeqlStatement isAnalyze =>
      toDoNext_backslash isEmpty edgeqlStatement isAnalyze h 0⟩⟩

/-- The first token of `'a;b'` is the quote, and the splitter goes on behind it. -/
theorem not_splitterAgrees_quoted :
    ¬ ∀ s, SplitterAgrees () (fun _ => .ok ()) (fun _ => true) (fun _ => True) s := by
  intro h
  have hbody : ∀ c ∈ ['a', ';', 'b'], c ≠ Quote.single.char ∧ isLineEnd c = false := by
    intro c hc
    rcases List.mem_cons.mp hc with rfl | hc
    · exact ⟨by decide, rfl⟩
    · rcases List.mem_cons.mp hc with rfl | hc
      · exact ⟨by decide, rfl⟩
      · obtain rfl := List.mem_singleton.mp hc
        exact ⟨by decide, rfl⟩
  obtain ⟨p, hp, hle⟩ := (h ['\'', 'a', ';', 'b', '\'']).quotes trivial [] [] ['a', ';', 'b']
    .single rfl (passes_nil none) hbody
  have hstop : fullStatement ['\'', 'a', ';', 'b', '\''] = some 3 := rfl
  rw [hstop] at hp
  cases hp
  exact absurd hle (by decide)

end GelCli.Repl.Backslash
