import GelCli.Print.Native
import GelCli.Prompt.QuotedStr

/-!
# Typing back a printed string

What `format_string` prints is read by `quoted_str`. A quote that a backslash comes
before is taken for an escaped one, so a string that ends with a backslash is not
closed; and a character of more than one byte puts the cut before the closing quote.
All other strings are read back, whatever follows them.
-/

namespace GelCli.Prompt

open GelCli.Foundation

/-! ## The standard escapes -/

/-- How a character may stand in a literal: as it is, or by a standard escape. -/
inductive Spelling (quote : Char) : Char → Text → Prop where
  | plain {c : Char} : c ≠ quote → c ≠ '\\' → Spelling quote c [c]
  | backslash : Spelling quote '\\' ['\\', '\\']
  | escapedQuote : Spelling quote quote ['\\', quote]
  | newline : Spelling quote '\n' ['\\', 'n']
  | carriageReturn : Spelling quote '\r' ['\\', 'r']
  | tab : Spelling quote '\t' ['\\', 't']
  | hex2 {c : Char} : c.toNat < 0x80 → Spelling quote c ('\\' :: 'x' :: (Print.hex 2 c.toNat).toList)
  | hex4 {c : Char} : c.toNat < 0x10000 →
      Spelling quote c ('\\' :: 'u' :: (Print.hex 4 c.toNat).toList)

inductive Spells (quote : Char) : Text → Text → Prop where
  | nil : Spells quote [] []
  | cons {c : Char} {piece s body : Text} :
      Spelling quote c piece → Spells quote s body → Spells quote (c :: s) (piece ++ body)

/-- The crate reads a literal in single quotes as what it spells. -/
def InvertsEscapes (unquote : Text → Except Text Text) : Prop :=
  ∀ s body, Spells '\'' s body → unquote ('\'' :: (body ++ ['\''])) = .ok s

/-! ## What is printed -/

def piece (expanded : Bool) (c : Char) : Text := (Print.formatStringChar expanded c).toList

def body (expanded : Bool) (s : Text) : Text := s.flatMap (piece expanded)

theorem toList_formatString (s : String) (expanded : Bool) :
    (Print.formatString s expanded).toList = '\'' :: (body expanded s.toList ++ ['\'']) := by
  have hjoin : ∀ l : List Char,
      (String.join (l.map (Print.formatStringChar expanded))).toList = body expanded l := by
    intro l
    rw [String.toList_join, List.flatMap_map]
    rfl
  simp [Print.formatString, hjoin]

/-- Every character is printed by a standard escape or as it is. -/
theorem spelling_piece (expanded : Bool) (c : Char) : Spelling '\'' c (piece expanded c) := by
  unfold piece Print.formatStringChar
  dsimp only
  split
  · next h =>
    rw [String.toList_append]
    exact .hex2 (by omega)
  split
  · next h =>
    rw [String.toList_append]
    exact .hex4 (by omega)
  split
  · next h =>
    subst h
    exact .escapedQuote
  split
  · next h =>
    subst h
    exact .backslash
  split
  · next h =>
    obtain ⟨rfl, -⟩ := h
    exact .carriageReturn
  split
  · next h =>
    obtain ⟨rfl, -⟩ := h
    exact .newline
  split
  · next h =>
    obtain ⟨rfl, -⟩ := h
    exact .tab
  · next hquote hbackslash _ _ _ =>
    rw [String.toList_singleton]
    exact .plain hquote hbackslash

theorem spells_body (expanded : Bool) (s : Text) : Spells '\'' s (body expanded s) := by
  induction s with
  | nil => exact .nil
  | cons c s ih =>
      rw [body, List.flatMap_cons]
      exact .cons (spelling_piece expanded c) ih

/-! ## The shape of what is printed -/

/-- A character that does not end a literal and takes one byte. -/
def tame (c : Char) : Bool := c != '\'' && c != '\\' && c.utf8Size == 1

inductive Shape : Char → Text → Prop where
  | plain {c : Char} : c ≠ '\'' → c ≠ '\\' → c.toNat < 0x80 ∨ 0xA0 ≤ c.toNat → Shape c [c]
  | quote : Shape '\'' ['\\', '\'']
  | backslash : Shape '\\' ['\\', '\\']
  | letters {c d : Char} {t : Text} : c ≠ '\\' → c.toNat < 0xA0 → tame d → t.all tame →
      Shape c ('\\' :: d :: t)

theorem tame_digitChar : ∀ d : Fin 16, tame (Nat.digitChar d) := by
  decide

theorem tame_toDigits (n : Nat) : (Nat.toDigits 16 n).all tame := by
  induction n using Nat.strongRecOn with
  | ind n ih =>
      by_cases h : n < 16
      · rw [Nat.toDigits_of_lt_base h, List.all_cons, tame_digitChar ⟨n, h⟩]
        rfl
      · have hlast := tame_digitChar ⟨n % 16, by omega⟩
        rw [Nat.toDigits_of_base_le (by decide) (by omega), List.all_append,
          ih (n / 16) (by omega), List.all_cons, hlast]
        rfl

theorem tame_hex (width n : Nat) : (Print.hex width n).toList.all tame := by
  rw [Print.hex, String.toList_ofList, List.all_append, tame_toDigits, Bool.and_true]
  refine List.all_eq_true.mpr fun c hc => ?_
  rw [List.eq_of_mem_replicate hc]
  rfl

theorem shape_piece (expanded : Bool) (c : Char) : Shape c (piece expanded c) := by
  unfold piece Print.formatStringChar
  dsimp only
  have hbackslash : c = '\\' → c.toNat = 92 := fun h => h ▸ rfl
  split
  · next h =>
    rw [String.toList_append]
    exact .letters (fun heq => by have := hbackslash heq; omega) (by omega) (by decide)
      (tame_hex 2 c.toNat)
  split
  · next h =>
    rw [String.toList_append]
    exact .letters (fun heq => by have := hbackslash heq; omega) (by omega) (by decide)
      (tame_hex 4 c.toNat)
  split
  · next h =>
    subst h
    exact .quote
  split
  · next h =>
    subst h
    exact .backslash
  split
  · next h =>
    obtain ⟨rfl, -⟩ := h
    exact .letters (by decide) (by decide) (by decide) (by decide)
  split
  · next h =>
    obtain ⟨rfl, -⟩ := h
    exact .letters (by decide) (by decide) (by decide) (by decide)
  split
  · next h =>
    obtain ⟨rfl, -⟩ := h
    exact .letters (by decide) (by decide) (by decide) (by decide)
  · next hcode hquote hbackslash _ _ _ =>
    rw [String.toList_singleton]
    exact .plain hquote hbackslash (by omega)

theorem byteLen_of_tame {t : Text} (h : t.all tame) : Text.byteLen t = t.length := by
  induction t with
  | nil => rfl
  | cons c t ih =>
      rw [List.all_cons, Bool.and_eq_true] at h
      have hc : c.utf8Size = 1 := by
        simp only [tame, Bool.and_eq_true, beq_iff_eq] at h
        exact h.1.2
      rw [Text.byteLen_cons, ih h.2, hc, List.length_cons, Nat.add_comm]

/-- What is printed has a byte for each of its characters when it is ASCII. -/
theorem Shape.byteLen {c : Char} {t : Text} (h : Shape c t) :
    Text.byteLen t = t.length ↔ c.toNat < 0xA0 := by
  cases h with
  | plain hquote hbackslash hrange =>
      rw [Text.byteLen_cons, Text.byteLen_nil, Nat.add_zero, List.length_singleton,
        Text.utf8Size_eq_one]
      omega
  | quote => decide
  | backslash => decide
  | @letters _ d t hne hlt hd ht =>
      refine iff_of_true ?_ hlt
      have htame : (d :: t).all tame := by
        rw [List.all_cons, hd, ht]
        rfl
      have hbackslash : '\\'.utf8Size = 1 := by decide
      rw [Text.byteLen_cons, byteLen_of_tame htame, hbackslash, Nat.add_comm]
      rfl

theorem byteLen_body (expanded : Bool) (s : Text) :
    Text.byteLen (body expanded s) = (body expanded s).length ↔ ∀ c ∈ s, c.toNat < 0xA0 := by
  induction s with
  | nil => simp [body]
  | cons c s ih =>
      have hpiece := (shape_piece expanded c).byteLen
      have hle := Text.length_le_byteLen (piece expanded c)
      have hle' := Text.length_le_byteLen (body expanded s)
      rw [body, List.flatMap_cons, Text.byteLen_append, List.length_append, List.forall_mem_cons,
        ← ih, ← hpiece]
      rw [body] at hle' ⊢
      omega

/-! ## The search for the end -/

theorem endQuote_skip {quote c : Char} {prev : Option Char} (rest : Text)
    (h : c ≠ quote ∨ prev = some '\\') :
    endQuote quote prev (c :: rest) = (endQuote quote (some c) rest).map (· + 1) := by
  rw [endQuote, if_neg]
  rintro ⟨hc, hprev⟩
  rcases h with h | h
  · exact h hc
  · exact hprev h

theorem endQuote_tame {t : Text} (ht : t.all tame) (c : Char) (rest : Text) (hc : c ≠ '\\') :
    ∃ d, d ≠ '\\' ∧ endQuote '\'' (some c) (t ++ rest) =
      (endQuote '\'' (some d) rest).map (· + t.length) := by
  induction t generalizing c with
  | nil => exact ⟨c, hc, by simp⟩
  | cons e t ih =>
      rw [List.all_cons, Bool.and_eq_true] at ht
      have he : e ≠ '\'' ∧ e ≠ '\\' := by
        simp only [tame, Bool.and_eq_true, bne_iff_ne] at ht
        exact ht.1.1
      obtain ⟨d, hd, heq⟩ := ih ht.2 e he.2
      refine ⟨d, hd, ?_⟩
      rw [List.cons_append, endQuote_skip _ (.inl he.1), heq, Option.map_map]
      rfl

/-- What is printed for a character does not end the literal, and ends with a backslash
only for a backslash. -/
theorem Shape.endQuote {c : Char} {t : Text} (h : Shape c t) (prev : Option Char) (rest : Text) :
    ∃ d, (d = '\\' ↔ c = '\\') ∧ endQuote '\'' prev (t ++ rest) =
      (endQuote '\'' (some d) rest).map (· + t.length) := by
  cases h with
  | plain hquote hbackslash hrange =>
      exact ⟨c, Iff.rfl, endQuote_skip _ (.inl hquote)⟩
  | quote =>
      refine ⟨'\'', Iff.rfl, ?_⟩
      rw [List.cons_append, endQuote_skip _ (.inl (by decide)), List.cons_append,
        endQuote_skip _ (.inr rfl), Option.map_map]
      rfl
  | backslash =>
      refine ⟨'\\', Iff.rfl, ?_⟩
      rw [List.cons_append, endQuote_skip _ (.inl (by decide)), List.cons_append,
        endQuote_skip _ (.inl (by decide)), Option.map_map]
      rfl
  | @letters _ e t hne hlt hd ht =>
      have he : e ≠ '\'' ∧ e ≠ '\\' := by
        simp only [tame, Bool.and_eq_true, bne_iff_ne] at hd
        exact hd.1
      obtain ⟨d, hd', heq⟩ := endQuote_tame ht e rest he.2
      refine ⟨d, iff_of_false hd' hne, ?_⟩
      rw [List.cons_append, endQuote_skip _ (.inl (by decide)), List.cons_append,
        endQuote_skip _ (.inl he.1), heq, Option.map_map, Option.map_map]
      rfl

/-- The search passes over what is printed, and comes to the closing quote with a
backslash before it iff the string ends with one. -/
theorem endQuote_body (expanded : Bool) (s : Text) (prev : Option Char) (rest : Text) :
    ∃ last, (last = some '\\' ↔ (s.getLast?.or prev) = some '\\') ∧
      endQuote '\'' prev (body expanded s ++ rest) =
        (endQuote '\'' last rest).map (· + (body expanded s).length) := by
  induction s generalizing prev with
  | nil => exact ⟨prev, by simp, by simp [body]⟩
  | cons c s ih =>
      obtain ⟨d, hd, hpiece⟩ :=
        (shape_piece expanded c).endQuote prev (body expanded s ++ rest)
      obtain ⟨last, hlast, hbody⟩ := ih (some d)
      refine ⟨last, hlast.trans ?_, ?_⟩
      · cases hs : s.getLast? with
        | none =>
            rw [List.getLast?_eq_none_iff.mp hs]
            simp [hd]
        | some e => simp [List.getLast?_cons, hs]
      · rw [body, List.flatMap_cons, List.append_assoc]
        rw [body] at hpiece hbody
        rw [hpiece, hbody, Option.map_map, List.length_append]
        congr 1
        funext n
        simp only [Function.comp_apply]
        omega

/-! ## Reading what was printed -/

/-- The string is read back behind its literal, whatever follows. -/
def ReadsBack (unquote : Text → Except Text Text) (s : String) (expanded : Bool) : Prop :=
  ∀ rest, parseStr unquote true ((Print.formatString s expanded).toList ++ rest) =
    .ok rest s.toList

section Stages

variable {α β : Type} {input rest value : Text}

@[simp] theorem context_eq_ok {ctx : String} {parsed : Parsed α} {a : α} :
    context ctx parsed = .ok rest a ↔ parsed = .ok rest a := by
  cases parsed <;> simp [context]

@[simp] theorem char_eq_ok {c : Char} {a : Unit} :
    char c input = .ok rest a ↔ input = c :: rest := by
  cases input with
  | nil => simp [char]
  | cons d input => by_cases h : d = c <;> simp [char, h]

theorem andThen_eq_ok {parsed : Parsed α} {next : Text → Parsed β} {b : β} :
    andThen parsed next = .ok rest b ↔ ∃ mid a, parsed = .ok mid a ∧ next mid = .ok rest b := by
  cases parsed <;> simp [andThen]

theorem skipBody_eq_ok {quote : Char} {a : Unit} :
    skipBody quote input = .ok rest a ↔
      ∃ pos before, endQuote quote none input = some pos ∧
        Text.splitAtByte input pos = some (before, rest) := by
  unfold skipBody
  cases hpos : endQuote quote none input with
  | none => simp
  | some pos =>
      cases hsplit : Text.splitAtByte input pos with
      | none => simp [hsplit]
      | some parts =>
          obtain ⟨before, after⟩ := parts
          simp [hsplit]

theorem recognize_eq_ok {parser : Text → Parsed α} :
    recognize parser input = .ok rest value ↔
      (∃ a, parser input = .ok rest a) ∧ input.take (input.length - rest.length) = value := by
  unfold recognize
  cases parser input with
  | ok rest' a =>
      simp only [Parsed.ok.injEq, exists_and_left, exists_eq', and_true]
      exact and_congr_right fun h => by rw [h]
  | error e => simp
  | failure e => simp
  | panic => simp

theorem mapRes_eq_ok {f : α → Except Text β} {external : Text → Text → ParsingError}
    {parsed : Parsed α} {b : β} :
    mapRes f external input parsed = .ok rest b ↔ ∃ a, parsed = .ok rest a ∧ f a = .ok b := by
  cases parsed with
  | ok rest' a => cases h : f a <;> simp [mapRes, h]
  | error e => simp [mapRes]
  | failure e => simp [mapRes]
  | panic => simp [mapRes]

theorem quotedStrParser_eq_ok {unquote : Text → Except Text Text} {quote : Char} {str : Text} :
    quotedStrParser unquote (quote :: str) quote = .ok rest value ↔
      ∃ pos before, endQuote quote none str = some pos ∧
        Text.splitAtByte str pos = some (before, quote :: rest) ∧
        unquote ((quote :: str).take ((quote :: str).length - rest.length)) = .ok value := by
  simp only [quotedStrParser, context_eq_ok, mapRes_eq_ok, recognize_eq_ok, andThen_eq_ok,
    char_eq_ok, skipBody_eq_ok, List.cons.injEq, true_and]
  constructor
  · rintro ⟨_, ⟨⟨_, _, _, rfl, _, _, ⟨pos, before, hpos, hsplit⟩, rfl⟩, rfl⟩, hvalue⟩
    exact ⟨pos, before, hpos, hsplit, hvalue⟩
  · rintro ⟨pos, before, hpos, hsplit, hvalue⟩
    exact ⟨_, ⟨⟨(), str, (), rfl, _, (), ⟨pos, before, hpos, hsplit⟩, rfl⟩, rfl⟩, hvalue⟩

end Stages

/-- What the parts of `quoted_str` have done when a literal in single quotes is read. -/
theorem parseStr_eq_ok {unquote : Text → Except Text Text} {str rest value : Text} :
    parseStr unquote true ('\'' :: str) = .ok rest value ↔
      ∃ pos before, endQuote '\'' none str = some pos ∧
        Text.splitAtByte str pos = some (before, '\'' :: rest) ∧
        unquote (('\'' :: str).take (('\'' :: str).length - rest.length)) = .ok value := by
  rw [← quotedStrParser_eq_ok]
  -- the alternative in double quotes fails at the first character
  have hdouble : ∃ e, doubleQuotedStr unquote ('\'' :: str) = .error e := ⟨_, rfl⟩
  obtain ⟨e, hdouble⟩ := hdouble
  have hsingle : singleQuotedStr unquote ('\'' :: str) = .ok rest value ↔
      quotedStrParser unquote ('\'' :: str) '\'' = .ok rest value := context_eq_ok
  rw [← hsingle]
  unfold parseStr quotedStr altern
  rw [if_pos rfl, context_eq_ok, context_eq_ok]
  cases hparsed : singleQuotedStr unquote ('\'' :: str) with
  | ok rest value => exact Iff.rfl
  | error e => simp [hdouble]
  | failure e => simp
  | panic => simp

/-- **Exactly the strings that are read back**: those without a character from U+00A0 on
that do not end with a backslash. -/
theorem printed_readsBack_iff {unquote : Text → Except Text Text}
    (hunquote : InvertsEscapes unquote) (s : String) (expanded : Bool) :
    ReadsBack unquote s expanded ↔
      (∀ c ∈ s.toList, c.toNat < 0xA0) ∧ s.toList.getLast? ≠ some '\\' := by
  have hinput : ∀ rest : Text, (Print.formatString s expanded).toList ++ rest =
      '\'' :: (body expanded s.toList ++ '\'' :: rest) := by
    intro rest
    rw [toList_formatString, List.cons_append, List.append_assoc, List.singleton_append]
  rw [← byteLen_body expanded]
  constructor
  · intro h
    have hnil := h []
    rw [hinput, parseStr_eq_ok] at hnil
    obtain ⟨pos, before, hpos, hsplit, -⟩ := hnil
    obtain ⟨last, hlast, hscan⟩ := endQuote_body expanded s.toList none ['\'']
    have hclosed : last ≠ some '\\' := by
      rintro rfl
      rw [hscan, endQuote_skip _ (.inr rfl)] at hpos
      cases hpos
    rw [hscan, endQuote, if_pos ⟨rfl, hclosed⟩] at hpos
    obtain rfl : (body expanded s.toList).length = pos := by simpa using hpos
    obtain ⟨heq, hlen⟩ := Text.splitAtByte_eq_some.mp hsplit
    obtain rfl := List.append_cancel_right heq
    refine ⟨by omega, fun hend => hclosed (hlast.mpr ?_)⟩
    rw [hend]
    rfl
  · rintro ⟨hbytes, hend⟩ rest
    obtain ⟨last, hlast, hscan⟩ := endQuote_body expanded s.toList none ('\'' :: rest)
    have hclosed : last ≠ some '\\' := by
      intro heq
      rw [Option.or_none] at hlast
      exact hend (hlast.mp heq)
    rw [hinput, parseStr_eq_ok]
    refine ⟨(body expanded s.toList).length, body expanded s.toList, ?_, ?_, ?_⟩
    · rw [hscan, endQuote, if_pos ⟨rfl, hclosed⟩]
      simp
    · exact Text.splitAtByte_eq_some.mpr ⟨rfl, hbytes⟩
    · have htake : ('\'' :: (body expanded s.toList ++ '\'' :: rest)).take
          (('\'' :: (body expanded s.toList ++ '\'' :: rest)).length - rest.length) =
          '\'' :: (body expanded s.toList ++ ['\'']) := by
        rw [← List.singleton_append (l := rest), ← List.append_assoc, ← List.cons_append,
          List.length_append, Nat.add_sub_cancel, List.take_left]
      rw [htake]
      exact hunquote _ _ (spells_body expanded s.toList)

/-! ## A reader of the standard escapes -/

def hexDigit (c : Char) : Nat := if c.isDigit then c.toNat - 48 else c.toNat - 87

def hexValue (n : Nat) (digits : Text) : Nat := digits.foldl (fun n c => 16 * n + hexDigit c) n

def unescapeChar : Text → Option (Char × Text)
  | [] => none
  | c :: rest =>
      if c ≠ '\\' then some (c, rest)
      else
        match rest with
        | [] => none
        | e :: rest =>
            if e = 'x' then some (Char.ofNat (hexValue 0 (rest.take 2)), rest.drop 2)
            else if e = 'u' then some (Char.ofNat (hexValue 0 (rest.take 4)), rest.drop 4)
            else if e = 'n' then some ('\n', rest)
            else if e = 'r' then some ('\r', rest)
            else if e = 't' then some ('\t', rest)
            else some (e, rest)

/-- At most `n` characters are read. -/
def unescapeBody : Nat → Text → Option Text
  | _, [] => some []
  | 0, _ :: _ => none
  | n + 1, c :: t => do
      let (c, rest) ← unescapeChar (c :: t)
      let s ← unescapeBody n rest
      return c :: s

def unescape (literal : Text) : Except Text Text :=
  match unescapeBody literal.length literal.tail.dropLast with
  | some s => .ok s
  | none => .error "invalid escape sequence".toList

theorem hexDigit_digitChar : ∀ d : Fin 16, hexDigit (Nat.digitChar d) = d := by
  decide

theorem hexValue_toDigits (n : Nat) : hexValue 0 (Nat.toDigits 16 n) = n := by
  induction n using Nat.strongRecOn with
  | ind n ih =>
      by_cases h : n < 16
      · have hdigit := hexDigit_digitChar ⟨n, h⟩
        rw [Nat.toDigits_of_lt_base h]
        simpa [hexValue] using hdigit
      · have hdigit := hexDigit_digitChar ⟨n % 16, by omega⟩
        have hprefix := ih (n / 16) (by omega)
        rw [hexValue] at hprefix
        rw [Nat.toDigits_of_base_le (by decide) (by omega), hexValue, List.foldl_append, hprefix,
          List.foldl_cons, List.foldl_nil, hdigit]
        exact Nat.div_add_mod n 16

theorem hexValue_hex (width n : Nat) : hexValue 0 (Print.hex width n).toList = n := by
  have hzeros : ∀ k, hexValue 0 (List.replicate k '0') = 0 := by
    intro k
    induction k with
    | zero => rfl
    | succ k ih =>
        have hzero : 16 * 0 + hexDigit '0' = 0 := by decide
        rw [hexValue] at ih
        rw [List.replicate_succ, hexValue, List.foldl_cons, hzero, ih]
  have hvalue := hexValue_toDigits n
  have hzeros := hzeros (width - (Nat.toDigits 16 n).length)
  rw [hexValue] at hvalue hzeros
  rw [Print.hex, String.toList_ofList, hexValue, List.foldl_append, hzeros, hvalue]

theorem length_hex {width n : Nat} (hwidth : 0 < width) (h : n < 16 ^ width) :
    (Print.hex width n).toList.length = width := by
  have hle := (Nat.length_toDigits_le_iff (by decide) hwidth).mpr h
  rw [Print.hex, String.toList_ofList, List.length_append, List.length_replicate]
  omega

theorem unescapeChar_spelling {c : Char} {piece : Text} (h : Spelling '\'' c piece) (rest : Text) :
    unescapeChar (piece ++ rest) = some (c, rest) := by
  cases h with
  | plain hquote hbackslash => simp [unescapeChar, hbackslash]
  | backslash => rfl
  | escapedQuote => rfl
  | newline => rfl
  | carriageReturn => rfl
  | tab => rfl
  | hex2 hc =>
      have hlen : (Print.hex 2 c.toNat).toList.length = 2 := length_hex (by decide) (by omega)
      rw [List.cons_append, List.cons_append, unescapeChar, if_neg (by decide)]
      simp only [if_true]
      rw [List.take_left' hlen, List.drop_left' hlen, hexValue_hex, Char.ofNat_toNat]
  | hex4 hc =>
      have hlen : (Print.hex 4 c.toNat).toList.length = 4 := length_hex (by decide) (by omega)
      rw [List.cons_append, List.cons_append, unescapeChar, if_neg (by decide)]
      simp only [if_neg (show 'u' ≠ 'x' by decide), if_true]
      rw [List.take_left' hlen, List.drop_left' hlen, hexValue_hex, Char.ofNat_toNat]

theorem unescapeBody_spells {s body : Text} (h : Spells '\'' s body) (n : Nat)
    (hn : body.length ≤ n) : unescapeBody n body = some s := by
  induction h generalizing n with
  | nil => cases n <;> rfl
  | @cons c piece s body hpiece hbody ih =>
      have hread := unescapeChar_spelling hpiece body
      cases piece with
      | nil => cases hpiece
      | cons d piece =>
          cases n with
          | zero => cases hn
          | succ n =>
              have hle : body.length ≤ n := by
                simp only [List.cons_append, List.length_cons, List.length_append] at hn
                omega
              rw [List.cons_append] at hread ⊢
              simp [unescapeBody, hread, ih n hle]

theorem invertsEscapes_unescape : InvertsEscapes unescape := by
  intro s body h
  have hbody := unescapeBody_spells h ('\'' :: (body ++ ['\''])).length (by simp; omega)
  rw [unescape, List.tail_cons, List.dropLast_concat, hbody]

/-- A string with a quote, a backslash and a line break is read back. -/
theorem printed_readsBack_iff_escapes :
    InvertsEscapes unescape ∧
      (ReadsBack unescape "it's a \\ \n" false ↔
        (∀ c ∈ "it's a \\ \n".toList, c.toNat < 0xA0) ∧
          "it's a \\ \n".toList.getLast? ≠ some '\\') :=
  ⟨invertsEscapes_unescape,
    printed_readsBack_iff invertsEscapes_unescape "it's a \\ \n" false⟩

/-- A letter of two bytes makes the cut fall inside it. -/
theorem printed_accent_panics :
    ¬ ∀ (unquote : Text → Except Text Text), InvertsEscapes unquote → ∀ s expanded,
      ReadsBack unquote s expanded := by
  intro h
  have hread := h unescape invertsEscapes_unescape "é" true []
  have hpanic : parseStr unescape true ((Print.formatString "é" true).toList ++ []) = .panic := by
    decide +kernel
  rw [hpanic] at hread
  cases hread

end GelCli.Prompt
