import GelCli.Repl.CommandFsm
import GelCli.Repl.ReadStatement
import GelCli.Repl.Splitting

/-!
# Highlighting

The functions of `highlight.rs` and `EdgeqlHelper::highlight`: the line that is typed is cut
into statements, a statement into tokens and the gaps between them, and the parts are
written again with styles. The tokenizer and the preparser of the EdgeQL parser are
parameters.
-/

namespace GelCli.Repl.Highlight

open GelCli.Foundation GelCli.Repl.Backslash
open Text

/-! ## Styles -/

inductive Style where
  | decorator
  | comment
  | string
  | number
  | boolean
  | punctuation
  | keyword
  | operator
  | backslashCommand
  | error
  deriving DecidableEq

/-- The kinds of tokens that have a style of their own, and all others. -/
inductive Kind where
  | keyword (word : Text)
  | ident
  | at
  | dot
  | backwardLink
  | assign
  | subAssign
  | addAssign
  | arrow
  | coalesce
  | floorDiv
  | concat
  | greaterEq
  | lessEq
  | notEq
  | comma
  | semicolon
  | colon
  | add
  | sub
  | doubleSplat
  | mul
  | div
  | modulo
  | pow
  | less
  | greater
  | eq
  | ampersand
  | pipe
  | decimalConst
  | floatConst
  | intConst
  | bigIntConst
  | binStr
  | str
  | substitution
  | strInterpStart
  | strInterpCont
  | strInterpEnd
  | other
  deriving DecidableEq

structure EdgeqlToken where
  kind : Kind
  text : Text
  span : Span

/-- A part that is written as it is, or with a style: its escapes stand around the text. -/
inductive Piece where
  | plain (text : Text)
  | styled (style : Style) (text : Text)

def Piece.text : Piece → Text
  | plain text => text
  | styled _ text => text

/-- The output without the escapes. -/
def erase (pieces : List Piece) : Text := pieces.flatMap Piece.text

/-- A value with its style, if it has one. -/
def piece (style : Option Style) (value : Text) : Piece :=
  match style with
  | some style => .styled style value
  | none => .plain value

/-- `token_style`; a word is looked up among the unreserved keywords in lower case. -/
def tokenStyle (unreserved : Text → Bool) (kind : Kind) (value : Text) : Option Style :=
  match kind with
  | .keyword word =>
      if word = "true".toList ∨ word = "false".toList then some .boolean else some .keyword
  | .ident => if unreserved value then some .keyword else none
  | .dot | .comma | .semicolon => some .punctuation
  | .at | .backwardLink | .assign | .subAssign | .addAssign | .arrow | .coalesce | .floorDiv
  | .concat | .greaterEq | .lessEq | .notEq | .colon | .add | .sub | .doubleSplat | .mul | .div
  | .modulo | .pow | .less | .greater | .eq | .ampersand | .pipe => some .operator
  | .decimalConst | .floatConst | .intConst | .bigIntConst => some .number
  | .binStr | .str | .strInterpStart | .strInterpCont | .strInterpEnd => some .string
  | .substitution => some .decorator
  | .other => none

/-! ## Writing -/

/-- The comments of what stands between tokens; the line end behind one is not styled. -/
def emitInsignificant (chunk : Text) : List Piece :=
  match _hash : cut '#' chunk with
  | none => [.plain chunk]
  | some (before, behind) =>
      match _line : cut '\n' ('#' :: behind) with
      | none => [.plain chunk]
      | some (comment, rest) =>
          .plain before :: .styled .comment comment :: .plain ['\n'] :: emitInsignificant rest
termination_by chunk.length
decreasing_by
  obtain ⟨rfl, -⟩ := cut_eq_some _hash
  obtain ⟨heq, -⟩ := cut_eq_some _line
  have hlen := congrArg List.length heq
  simp only [List.length_append, List.length_cons] at hlen ⊢
  omega

/-- `emit_insignificant` of the text in front of a token, if there is any. -/
def emitGap (text : Text) (pos start : Nat) : Option (List Piece) :=
  if start > pos then (slice text pos start).map emitInsignificant else some []

section Statements

variable (unreserved : Text → Bool) (cache : CommandCache)

/-- The loop of `edgeql`, which stops at the first error of the tokenizer. -/
def edgeqlTokens (text : Text) : Nat → List (Except Unit EdgeqlToken) → Option (List Piece)
  | pos, [] => do
      let (_, rest) ← splitAtByte text pos
      return emitInsignificant rest
  | pos, .error _ :: _ => do
      let (_, rest) ← splitAtByte text pos
      return [.plain rest]
  | pos, .ok tok :: toks => do
      let gap ← emitGap text pos tok.span.1
      let pieces ← edgeqlTokens text tok.span.2 toks
      return gap ++ piece (tokenStyle unreserved tok.kind tok.text) tok.text :: pieces

def edgeql (tokenizer : Text → List (Except Unit EdgeqlToken)) (text : Text) :
    Option (List Piece) :=
  edgeqlTokens unreserved text 0 (tokenizer text)

def validationStyle : ValidationResult → Option Style
  | .valid => some .backslashCommand
  | .invalid => some .error
  | .unknown => none

/-- The loop of `backslash`. -/
def backslashTokens (text : Text) : Nat → BackslashFsm → List Token → Option (List Piece)
  | pos, _, [] => do
      let (_, rest) ← splitAtByte text pos
      return emitInsignificant rest
  | pos, fsm, tok :: toks => do
      let gap ← emitGap text pos tok.span.1
      let value ← slice text tok.span.1 tok.span.2
      let next ← fsm.advance cache tok.item
      let pieces ← backslashTokens text tok.span.2 next toks
      return gap ++ piece (validationStyle (fsm.validate cache tok.item)) value :: pieces

def backslash (text : Text) : Option (List Piece) := do
  let toks ← tokens text
  backslashTokens cache text 0 .command toks

end Statements

/-- What is outside of the repository, and the commands of the argument parser. -/
structure Parsers where
  preparser : Preparser
  tokenizer : Text → List (Except Unit EdgeqlToken)
  unreserved : Text → Bool
  cache : CommandCache

/-- The loop of `EdgeqlHelper::highlight`, in at most `fuel` turns. -/
def highlightFrom (parsers : Parsers) : Nat → Text → Option (List Piece)
  | 0, _ => none
  | fuel + 1, data =>
      if trim data = [] then some [.plain data]
      else if (trimStart data).head? = some '\\' then do
        let bytes ← fullStatement data
        let (command, rest) ← splitAtByte data bytes
        let pieces ← backslash parsers.cache command
        let more ← highlightFrom parsers fuel rest
        return pieces ++ more
      else
        match parsers.preparser.fullStatement (utf8 data) none with
        | .ok bytes => do
            let (statement, rest) ← splitAtByte data bytes
            let pieces ← edgeql parsers.unreserved parsers.tokenizer statement
            let more ← highlightFrom parsers fuel rest
            return pieces ++ more
        | .error _ => do
            let pieces ← edgeql parsers.unreserved parsers.tokenizer data
            let more ← highlightFrom parsers fuel []
            return pieces ++ more

def highlight (parsers : Parsers) (line : Text) : Option (List Piece) :=
  highlightFrom parsers (line.length + 1) line

/-! ## What is written -/

@[simp] theorem erase_nil : erase [] = [] := rfl

@[simp] theorem erase_cons (p : Piece) (pieces : List Piece) :
    erase (p :: pieces) = p.text ++ erase pieces := rfl

@[simp] theorem erase_append (a b : List Piece) : erase (a ++ b) = erase a ++ erase b :=
  List.flatMap_append

@[simp] theorem text_piece (style : Option Style) (value : Text) :
    (piece style value).text = value := by
  cases style <;> rfl

theorem erase_emitInsignificant (chunk : Text) : erase (emitInsignificant chunk) = chunk := by
  fun_induction emitInsignificant chunk with
  | case1 chunk hash => exact List.append_nil chunk
  | case2 chunk before behind hash line => exact List.append_nil chunk
  | case3 chunk before behind hash comment rest line ih =>
      obtain ⟨rfl, -⟩ := cut_eq_some hash
      obtain ⟨heq, -⟩ := cut_eq_some line
      rw [erase_cons, erase_cons, erase_cons, ih, heq]
      rfl

/-- The output is there, and it is the text. -/
def Writes (out : Option (List Piece)) (t : Text) : Prop :=
  ∃ pieces, out = some pieces ∧ erase pieces = t

theorem writes_gap {before gap : Text} (behind : Text) :
    Writes (emitGap (before ++ gap ++ behind) (byteLen before) (byteLen (before ++ gap))) gap := by
  unfold emitGap
  split
  · have hslice : slice (before ++ gap ++ behind) (byteLen before) (byteLen (before ++ gap)) =
        some gap := slice_eq_some.mpr ⟨before, behind, rfl, rfl, (byteLen_append before gap).symm⟩
    exact ⟨emitInsignificant gap, by rw [hslice]; rfl, erase_emitInsignificant gap⟩
  · next hle =>
    have hlen := length_le_byteLen gap
    rw [byteLen_append] at hle
    obtain rfl : gap = [] := List.length_eq_zero_iff.mp (by omega)
    exact ⟨[], rfl, rfl⟩

/-! ## EdgeQL -/

/-- The tokens in front of the first error. -/
def okTokens : List (Except Unit EdgeqlToken) → List EdgeqlToken
  | .ok tok :: toks => tok :: okTokens toks
  | _ => []

/-- Increasing spans on character boundaries, each with the text that it cuts out. -/
structure TokenizerLawful (tokenizer : Text → List (Except Unit EdgeqlToken)) : Prop where
  ordered : ∀ text, Ordered text ((okTokens (tokenizer text)).map EdgeqlToken.span)
  slices : ∀ text, ∀ tok ∈ okTokens (tokenizer text),
    slice text tok.span.1 tok.span.2 = some tok.text

/-- The rest of the text is written, from where the tokens before end. -/
theorem writes_edgeqlTokens (unreserved : Text → Bool) {toks : List (Except Unit EdgeqlToken)}
    {before rest : Text} (hlaid : Laid before rest ((okTokens toks).map EdgeqlToken.span))
    (hslices : ∀ tok ∈ okTokens toks,
      slice (before ++ rest) tok.span.1 tok.span.2 = some tok.text) :
    Writes (edgeqlTokens unreserved (before ++ rest) (byteLen before) toks) rest := by
  induction toks generalizing before rest with
  | nil =>
      refine ⟨emitInsignificant rest, ?_, erase_emitInsignificant rest⟩
      rw [edgeqlTokens, splitAtByte_append]
      rfl
  | cons result toks ih =>
      cases result with
      | error e =>
          refine ⟨[.plain rest], ?_, List.append_nil rest⟩
          rw [edgeqlTokens, splitAtByte_append]
          rfl
      | ok tok =>
          obtain ⟨kind, value, span⟩ := tok
          rw [okTokens, List.map_cons] at hlaid
          generalize hspans : (okTokens toks).map EdgeqlToken.span = spans at hlaid
          cases hlaid with
          | @piece before gap value' rest spans hlaid =>
              rw [← hspans] at hlaid
              have htext : before ++ (gap ++ value' ++ rest) = before ++ gap ++ value' ++ rest := by
                simp only [List.append_assoc]
              rw [htext] at hslices ⊢
              have hvalue := hslices _ List.mem_cons_self
              obtain ⟨gapPieces, hgap, herase⟩ := @writes_gap before gap (value' ++ rest)
              rw [← List.append_assoc] at hgap
              obtain ⟨pieces, hpieces, hrest⟩ := ih hlaid fun tok htok =>
                hslices tok (List.mem_cons_of_mem _ htok)
              have hsame : value = value' := by
                have hslice : slice (before ++ gap ++ value' ++ rest) (byteLen (before ++ gap))
                    (byteLen (before ++ gap ++ value')) = some value' :=
                  slice_eq_some.mpr ⟨before ++ gap, rest, rfl, rfl, (byteLen_append _ _).symm⟩
                exact Option.some.inj (hvalue.symm.trans hslice)
              refine ⟨gapPieces ++ piece (tokenStyle unreserved kind value) value :: pieces, ?_, ?_⟩
              · rw [edgeqlTokens, hgap, hpieces]
                rfl
              · rw [erase_append, erase_cons, text_piece, herase, hrest, hsame, List.append_assoc]

theorem writes_edgeql (unreserved : Text → Bool)
    {tokenizer : Text → List (Except Unit EdgeqlToken)} (h : TokenizerLawful tokenizer)
    (text : Text) : Writes (edgeql unreserved tokenizer text) text := by
  have hordered := h.ordered text
  have hlaid : Laid [] text _ := Ordered.laid hordered fun s _ => Nat.zero_le s.1
  exact writes_edgeqlTokens unreserved hlaid (h.slices text)

/-! ## Backslash commands -/

theorem writes_backslashTokens (cache : CommandCache) {toks : List Token} {before rest : Text}
    (fsm : BackslashFsm) (hlaid : Laid before rest (toks.map Token.span))
    (hnamed : ∀ tok ∈ toks, tok.item.IsNamed) :
    Writes (backslashTokens cache (before ++ rest) (byteLen before) fsm toks) rest := by
  induction toks generalizing before rest fsm with
  | nil =>
      refine ⟨emitInsignificant rest, ?_, erase_emitInsignificant rest⟩
      rw [backslashTokens, splitAtByte_append]
      rfl
  | cons tok toks ih =>
      obtain ⟨item, span⟩ := tok
      rw [List.map_cons] at hlaid
      generalize hspans : toks.map Token.span = spans at hlaid
      cases hlaid with
      | @piece before gap value rest spans hlaid =>
          rw [← hspans] at hlaid
          have htext : before ++ (gap ++ value ++ rest) = before ++ gap ++ value ++ rest := by
            simp only [List.append_assoc]
          rw [htext]
          have hslice : slice (before ++ gap ++ value ++ rest) (byteLen (before ++ gap))
              (byteLen (before ++ gap ++ value)) = some value :=
            slice_eq_some.mpr ⟨before ++ gap, rest, rfl, rfl, (byteLen_append _ _).symm⟩
          obtain ⟨gapPieces, hgap, herase⟩ := @writes_gap before gap (value ++ rest)
          rw [← List.append_assoc] at hgap
          obtain ⟨next, hnext⟩ := exists_advance cache fsm (hnamed _ List.mem_cons_self)
          obtain ⟨pieces, hpieces, hrest⟩ := ih next hlaid fun tok htok =>
            hnamed tok (List.mem_cons_of_mem _ htok)
          refine ⟨gapPieces ++
            piece (validationStyle (fsm.validate cache item)) value :: pieces, ?_, ?_⟩
          · rw [backslashTokens, hgap]
            simp only [hslice, hnext, hpieces, Option.bind_eq_bind, Option.bind_some]
            rfl
          · rw [erase_append, erase_cons, text_piece, herase, hrest, List.append_assoc]

theorem writes_backslash (cache : CommandCache) (text : Text) :
    Writes (backslash cache text) text := by
  obtain ⟨toks, hreads, -⟩ := exists_reads [] text true
  have htokens : tokens text = some toks := hreads.tokens (Nat.lt_succ_self _)
  rw [backslash, htokens]
  exact writes_backslashTokens cache .command hreads.laid hreads.yields.isNamed

/-! ## Lines -/

/-- What the EdgeQL parser is relied on for: a statement has at least one byte and ends
between characters, and the tokens of a text lie one behind the other. -/
structure Parsers.Lawful (parsers : Parsers) : Prop where
  statement : ∀ data len, parsers.preparser.fullStatement (utf8 data) none = .ok len →
    0 < len ∧ IsBoundary data len
  tokenizer : TokenizerLawful parsers.tokenizer

theorem Writes.bind {out : Option (List Piece)} {more : Option (List Piece)} {a b : Text}
    (h : Writes out a) (hmore : Writes more b) :
    Writes (do let pieces ← out; let rest ← more; return pieces ++ rest) (a ++ b) := by
  obtain ⟨pieces, rfl, rfl⟩ := h
  obtain ⟨rest, rfl, rfl⟩ := hmore
  exact ⟨pieces ++ rest, rfl, erase_append pieces rest⟩

/-- A part that is cut off in front leaves less. -/
theorem length_behind {data front rest : Text} {len : Nat} (hlen : 0 < len)
    (h : splitAtByte data len = some (front, rest)) :
    data = front ++ rest ∧ rest.length < data.length := by
  obtain ⟨rfl, hfront⟩ := splitAtByte_eq_some.mp h
  have hne : front ≠ [] := by
    rintro rfl
    exact absurd hfront (Nat.ne_of_lt hlen)
  have hpos := List.length_pos_iff.mpr hne
  refine ⟨rfl, ?_⟩
  rw [List.length_append]
  omega

theorem writes_highlightFrom {parsers : Parsers} (h : parsers.Lawful) {fuel : Nat} {data : Text}
    (hfuel : data.length < fuel) : Writes (highlightFrom parsers fuel data) data := by
  induction fuel generalizing data with
  | zero => exact absurd hfuel (Nat.not_lt_zero _)
  | succ fuel ih =>
      rw [highlightFrom]
      split
      · exact ⟨[.plain data], rfl, List.append_nil data⟩
      next htrim =>
      have hne : data ≠ [] := by
        rintro rfl
        exact htrim rfl
      split
      · obtain ⟨bytes, hbytes, -, ⟨command, rest, hsplit⟩, hpos⟩ := exists_fullStatement data
        obtain ⟨rfl, hless⟩ := length_behind (hpos hne) hsplit
        rw [hbytes, Option.bind_eq_bind, Option.bind_some, hsplit]
        exact (writes_backslash parsers.cache command).bind (ih (by omega))
      · cases hfull : parsers.preparser.fullStatement (utf8 data) none with
        | ok bytes =>
            obtain ⟨hpos, statement, rest, hsplit⟩ := h.statement data bytes hfull
            obtain ⟨rfl, hless⟩ := length_behind hpos hsplit
            simp only [hsplit, Option.bind_eq_bind, Option.bind_some]
            exact (writes_edgeql parsers.unreserved h.tokenizer statement).bind (ih (by omega))
        | error cont =>
            have hpos := List.length_pos_iff.mpr hne
            have hnil : Writes (highlightFrom parsers fuel []) [] := ih (by simp; omega)
            have hout := (writes_edgeql parsers.unreserved h.tokenizer data).bind hnil
            rw [List.append_nil] at hout
            exact hout

/-- **The highlighted line is the line that was typed**, with escapes around parts of it. -/
theorem highlight_writes (parsers : Parsers) (h : parsers.Lawful) (line : Text) :
    ∃ pieces, highlight parsers line = some pieces ∧ erase pieces = line :=
  writes_highlightFrom h (Nat.lt_succ_self _)

/-! ## Single characters -/

def behindSemicolon (t : Text) : Except Unit Nat :=
  match cut ';' t with
  | some (front, _) => .ok (byteLen front + 1)
  | none => .error ()

/-- A preparser for texts without quotes, brackets and comments. -/
def textSemicolons : Preparser where
  Continuation := Unit
  fullStatement data _ := (ofUtf8 data).elim (.error ()) behindSemicolon

theorem textSemicolons_utf8 (t : Text) :
    textSemicolons.fullStatement (utf8 t) none = behindSemicolon t := by
  show (ofUtf8 (utf8 t)).elim (.error ()) behindSemicolon = behindSemicolon t
  rw [ofUtf8_utf8]
  rfl

/-- A tokenizer for texts in which every token is one character. -/
def charTokens : Nat → Text → List (Except Unit EdgeqlToken)
  | _, [] => []
  | pos, c :: t =>
      if isWhitespace c then charTokens (pos + c.utf8Size) t
      else .ok ⟨if c = ';' then .semicolon else .other, [c], (pos, pos + c.utf8Size)⟩ ::
        charTokens (pos + c.utf8Size) t

theorem laid_charTokens (before gap rest : Text) :
    Laid before (gap ++ rest)
      ((okTokens (charTokens (byteLen (before ++ gap)) rest)).map EdgeqlToken.span) := by
  induction rest generalizing before gap with
  | nil => exact .done _ _
  | cons c rest ih =>
      have hlen : byteLen (before ++ gap) + c.utf8Size = byteLen (before ++ gap ++ [c]) := by
        rw [byteLen_append _ [c], byteLen_cons, byteLen_nil, Nat.add_zero]
      rw [charTokens, hlen]
      split
      · have hlaid := ih before (gap ++ [c])
        rwa [← List.append_assoc, List.append_assoc gap, List.singleton_append] at hlaid
      · have hlaid := ih (before ++ gap ++ [c]) []
        rw [List.append_nil, List.nil_append] at hlaid
        have hpiece := Laid.piece hlaid
        rwa [List.append_assoc gap, List.singleton_append] at hpiece

theorem slices_charTokens (before rest : Text) :
    ∀ tok ∈ okTokens (charTokens (byteLen before) rest),
      slice (before ++ rest) tok.span.1 tok.span.2 = some tok.text := by
  induction rest generalizing before with
  | nil => exact fun tok htok => absurd htok List.not_mem_nil
  | cons c rest ih =>
      have hlen : byteLen before + c.utf8Size = byteLen (before ++ [c]) := by
        simp
      have hrest := ih (before ++ [c])
      rw [List.append_assoc, List.singleton_append] at hrest
      rw [charTokens, hlen]
      split
      · exact hrest
      · intro tok htok
        rcases List.mem_cons.mp htok with rfl | htok
        · exact slice_eq_some.mpr ⟨before, rest, by simp, rfl, by simp⟩
        · exact hrest tok htok

def singleCharacters : Parsers where
  preparser := textSemicolons
  tokenizer := charTokens 0
  unreserved _ := false
  cache := ⟨[], [("exit".toList, .normal ⟨[], "exit".toList⟩)], ["\\exit".toList, "\\q".toList]⟩

theorem singleCharacters_lawful : singleCharacters.Lawful where
  statement := by
    intro data len h
    have hcut : behindSemicolon data = .ok len := (textSemicolons_utf8 data).symm.trans h
    unfold behindSemicolon at hcut
    split at hcut
    · next front rest hfront =>
      cases hcut
      obtain ⟨rfl, -⟩ := cut_eq_some hfront
      have hsplit := isBoundary_append (front ++ [';']) rest
      rw [List.append_assoc, List.singleton_append, byteLen_append] at hsplit
      exact ⟨Nat.succ_pos _, hsplit⟩
    · cases hcut
  tokenizer :=
    { ordered := fun text => (laid_charTokens [] [] text).ordered
      slices := fun text => slices_charTokens [] text }

/-- A command, a statement and an unfinished one. -/
theorem highlight_writes_three :
    ∃ pieces, highlight singleCharacters "\\q\n( 1 );\n(".toList = some pieces ∧
      erase pieces = "\\q\n( 1 );\n(".toList :=
  highlight_writes singleCharacters singleCharacters_lawful _

end GelCli.Repl.Highlight
