import GelCli.Foundation.Decimal
import GelCli.Migrations.Tokens

/-!
# A plain tokenizer

Words, strings in single quotes and single marks, with white space between them: the
part of the tokenizer that migrations without comments and numbers need. A list of
lexemes is what a text is taken apart into iff it renders as that text and no two words
touch in it.
-/

namespace GelCli.Migrations.Plain

open GelCli.Foundation

/-! ## The tokenizer -/

def isSpace (c : Char) : Bool := c = ' ' || c = '\n' || c = '\t' || c = '\r'

def isWord (c : Char) : Bool := c.isAlphanum || c = '_'

def keywords : List Text := ["create", "migration", "onto", "set"].map String.toList

def wordToken (w : Text) : Token :=
  ⟨if w.map Char.toLower ∈ keywords then .keyword (w.map Char.toLower) else .ident, w⟩

def markToken (c : Char) : Token :=
  ⟨if c = '\x7b' then .openBrace else if c = '\x7d' then .closeBrace
    else if c = ';' then .semicolon else .other 0, [c]⟩

/-- Where the tokenizer is, with the gap before the token it is in. -/
inductive Mode where
  | gap (g : Text)
  | word (g w : Text)
  | str (g s : Text)

/-- A character outside a token. -/
def start (g : Text) (c : Char) : List Lexeme × Mode :=
  if isSpace c then ([], .gap (g ++ [c]))
  else if c = '\'' then ([], .str g [c])
  else if isWord c then ([], .word g [c])
  else ([⟨g, markToken c⟩], .gap [])

def step : Mode → Char → List Lexeme × Mode
  | .gap g, c => start g c
  | .word g w, c =>
      if isWord c then ([], .word g (w ++ [c]))
      else (⟨g, wordToken w⟩ :: (start [] c).1, (start [] c).2)
  | .str g s, c =>
      if c = '\'' then ([⟨g, ⟨.str, s ++ [c]⟩⟩], .gap []) else ([], .str g (s ++ [c]))

def run : Mode → Text → List Lexeme × Mode
  | m, [] => ([], m)
  | m, c :: t => ((step m c).1 ++ (run (step m c).2 t).1, (run (step m c).2 t).2)

def finish (xs : List Lexeme) : Mode → Except LexError Lexed
  | .gap g => .ok ⟨xs, g⟩
  | .word g w => .ok ⟨xs ++ [⟨g, wordToken w⟩], []⟩
  | .str _ _ => .error ⟨"end".toList, "unterminated string, quoted by `'`".toList⟩

def lexFrom (m : Mode) (t : Text) : Except LexError Lexed := finish (run m t).1 (run m t).2

def lex (t : Text) : Except LexError Lexed := lexFrom (.gap []) t

theorem run_append (m : Mode) (a b : Text) :
    run m (a ++ b) = ((run m a).1 ++ (run (run m a).2 b).1, (run (run m a).2 b).2) := by
  induction a generalizing m with
  | nil => rfl
  | cons c a ih => simp only [List.cons_append, run, ih, List.append_assoc]

def prepend (xs : List Lexeme) (l : Lexed) : Lexed := ⟨xs ++ l.lexemes, l.trail⟩

theorem finish_append (xs ys : List Lexeme) (m : Mode) :
    finish (xs ++ ys) m = (finish ys m).map (prepend xs) := by
  cases m with
  | gap g => rfl
  | word g w => exact congrArg (fun zs => Except.ok (Lexed.mk zs [])) (List.append_assoc ..)
  | str g s => rfl

theorem lexFrom_append (m : Mode) (a b : Text) :
    lexFrom m (a ++ b) = (lexFrom (run m a).2 b).map (prepend (run m a).1) := by
  rw [lexFrom, run_append, finish_append]
  rfl

theorem map_prepend_nil (l : Except LexError Lexed) : l.map (prepend []) = l := by
  cases l <;> rfl

/-! ## Single tokens -/

theorem isWord_of_isAlphanum {c : Char} (h : c.isAlphanum) : isWord c := by
  rw [isWord, h]
  rfl

theorem isSpace_of_isWord {c : Char} (h : isWord c) : isSpace c = false := by
  rw [Bool.eq_false_iff]
  intro hspace
  simp only [isSpace, Bool.or_eq_true, decide_eq_true_eq] at hspace
  rcases hspace with ((rfl | rfl) | rfl) | rfl
  · exact absurd h (by decide)
  · exact absurd h (by decide)
  · exact absurd h (by decide)
  · exact absurd h (by decide)

theorem ne_quote_of_isWord {c : Char} (h : isWord c) : c ≠ '\'' := by
  rintro rfl
  exact absurd h (by decide)

theorem run_spaces {sp : Text} (h : ∀ c ∈ sp, isSpace c) (g : Text) :
    run (.gap g) sp = ([], .gap (g ++ sp)) := by
  induction sp generalizing g with
  | nil => rw [run, List.append_nil]
  | cons c sp ih =>
      rw [List.forall_mem_cons] at h
      rw [run, step, start, if_pos h.1, ih h.2, List.append_assoc]
      rfl

theorem run_wordChars {w : Text} (h : ∀ c ∈ w, isWord c) (g v : Text) :
    run (.word g v) w = ([], .word g (v ++ w)) := by
  induction w generalizing v with
  | nil => rw [run, List.append_nil]
  | cons c w ih =>
      rw [List.forall_mem_cons] at h
      rw [run, step, if_pos h.1, ih h.2, List.append_assoc]
      rfl

theorem run_word {w : Text} (hne : w ≠ []) (h : ∀ c ∈ w, isWord c) (g : Text) :
    run (.gap g) w = ([], .word g w) := by
  cases w with
  | nil => exact absurd rfl hne
  | cons c w =>
      rw [List.forall_mem_cons] at h
      rw [run, step, start, isSpace_of_isWord h.1, if_neg Bool.false_ne_true,
        if_neg (ne_quote_of_isWord h.1), if_pos h.1, run_wordChars h.2]
      rfl

theorem run_strChars {s : Text} (h : '\'' ∉ s) (g v : Text) :
    run (.str g v) s = ([], .str g (v ++ s)) := by
  induction s generalizing v with
  | nil => rw [run, List.append_nil]
  | cons c s ih =>
      rw [List.mem_cons, not_or] at h
      rw [run, step, if_neg (Ne.symm h.1), ih h.2, List.append_assoc]
      rfl

/-- A word ends with the next character that is none of a word. -/
theorem lexFrom_word_end {g w t : Text} (h : ∀ c ∈ t.head?, isWord c = false) :
    lexFrom (.word g w) t = (lexFrom (.gap []) t).map (prepend [⟨g, wordToken w⟩]) := by
  cases t with
  | nil => rfl
  | cons c t =>
      have hc : isWord c = false := h c rfl
      rw [← List.singleton_append, lexFrom_append, lexFrom_append]
      simp only [run, step, hc, if_neg Bool.false_ne_true, List.append_nil]
      cases lexFrom (start [] c).2 t <;> rfl

theorem lexFrom_word {g w t : Text} (hne : w ≠ []) (hw : ∀ c ∈ w, isWord c)
    (h : ∀ c ∈ t.head?, isWord c = false) :
    lexFrom (.gap g) (w ++ t) = (lexFrom (.gap []) t).map (prepend [⟨g, wordToken w⟩]) := by
  rw [lexFrom_append, run_word hne hw, map_prepend_nil, lexFrom_word_end h]

theorem lexFrom_spaces {g sp t : Text} (h : ∀ c ∈ sp, isSpace c) :
    lexFrom (.gap g) (sp ++ t) = lexFrom (.gap (g ++ sp)) t := by
  rw [lexFrom_append, run_spaces h, map_prepend_nil]

theorem lexFrom_str {g s t : Text} (h : '\'' ∉ s) :
    lexFrom (.gap g) ('\'' :: (s ++ '\'' :: t)) =
      (lexFrom (.gap []) t).map (prepend [⟨g, ⟨.str, '\'' :: (s ++ ['\''])⟩⟩]) := by
  have hrun : run (.gap g) ('\'' :: (s ++ ['\''])) =
      ([⟨g, ⟨.str, '\'' :: (s ++ ['\''])⟩⟩], .gap []) := by
    rw [run, run_append]
    show ([] ++ ((run (.str g ['\'']) s).1 ++ _), _) = _
    rw [show (step (.gap g) '\'').2 = .str g ['\''] from rfl, run_strChars h]
    rfl
  have hsplit : '\'' :: (s ++ '\'' :: t) = '\'' :: (s ++ ['\'']) ++ t := by simp
  rw [hsplit, lexFrom_append, hrun]

def isMark (c : Char) : Prop := isSpace c = false ∧ c ≠ '\'' ∧ isWord c = false

theorem lexFrom_mark {g t : Text} {c : Char} (h : isMark c) :
    lexFrom (.gap g) (c :: t) = (lexFrom (.gap []) t).map (prepend [⟨g, markToken c⟩]) := by
  obtain ⟨hspace, hquote, hword⟩ := h
  rw [← List.singleton_append, lexFrom_append]
  simp only [run, step, start, hspace, hword, if_neg hquote, if_neg Bool.false_ne_true,
    List.append_nil]

/-! ## Texts and their lexemes -/

inductive IsToken : Token → Prop where
  | word {w : Text} : w ≠ [] → (∀ c ∈ w, isWord c) → IsToken (wordToken w)
  | str {s : Text} : '\'' ∉ s → IsToken ⟨.str, '\'' :: (s ++ ['\''])⟩
  | mark {c : Char} : isMark c → IsToken (markToken c)

/-- Lexemes of tokens, where no word stands right before another. -/
inductive Proper : List Lexeme → Prop where
  | nil : Proper []
  | cons {g : Text} {x : Token} {xs : List Lexeme} : (∀ c ∈ g, isSpace c) → IsToken x →
      ((∀ c ∈ x.text, isWord c) → ∀ y ∈ xs.head?, y.gap = [] →
        ∀ c ∈ y.token.text.head?, isWord c = false) →
      Proper xs → Proper (⟨g, x⟩ :: xs)

theorem IsToken.text_ne_nil {x : Token} (h : IsToken x) : x.text ≠ [] := by
  cases h with
  | word hne hw => exact hne
  | str hs => exact List.cons_ne_nil _ _
  | mark hc => exact List.cons_ne_nil _ _

theorem not_isWord_of_isSpace {c : Char} (h : isSpace c) : isWord c = false := by
  rw [Bool.eq_false_iff]
  intro hword
  rw [isSpace_of_isWord hword] at h
  cases h

/-- The first character of what follows a word. -/
theorem head_render {xs : List Lexeme} {trail : Text} (hxs : Proper xs)
    (htrail : ∀ c ∈ trail, isSpace c)
    (h : ∀ y ∈ xs.head?, y.gap = [] → ∀ c ∈ y.token.text.head?, isWord c = false) :
    ∀ c ∈ (render xs ++ trail).head?, isWord c = false := by
  intro c hc
  cases hxs with
  | nil => exact not_isWord_of_isSpace (htrail c (List.mem_of_mem_head? hc))
  | @cons g x xs hg hx _ _ =>
      cases g with
      | nil =>
          refine h ⟨[], x⟩ rfl rfl c ?_
          obtain ⟨d, t, ht⟩ := List.exists_cons_of_ne_nil hx.text_ne_nil
          simpa [render, ht] using hc
      | cons d g =>
          obtain rfl : d = c := by simpa [render] using hc
          exact not_isWord_of_isSpace (hg d List.mem_cons_self)

theorem lexFrom_render {xs : List Lexeme} {trail : Text} (hxs : Proper xs)
    (htrail : ∀ c ∈ trail, isSpace c) :
    lexFrom (.gap []) (render xs ++ trail) = .ok ⟨xs, trail⟩ := by
  induction hxs with
  | nil =>
      show lexFrom (.gap []) trail = _
      rw [lexFrom, run_spaces htrail]
      rfl
  | @cons g x xs hg hx hnext hxs ih =>
      have hsplit : render (⟨g, x⟩ :: xs) ++ trail = g ++ (x.text ++ (render xs ++ trail)) := by
        simp [render]
      rw [hsplit, lexFrom_spaces hg, List.nil_append]
      have hdone : (lexFrom (.gap []) (render xs ++ trail)).map (prepend [⟨g, x⟩]) =
          .ok ⟨⟨g, x⟩ :: xs, trail⟩ := by
        rw [ih]
        rfl
      cases hx with
      | word hne hw =>
          rw [← hdone]
          exact lexFrom_word hne hw (head_render hxs htrail (hnext hw))
      | @str s hs =>
          rw [← hdone]
          have hstr := lexFrom_str (g := g) (t := render xs ++ trail) hs
          simpa using hstr
      | mark hc =>
          rw [← hdone]
          exact lexFrom_mark hc

/-- What a text begins with outside a token. -/
theorem lexFrom_gap_cases {g t : Text} {l : Lexed} (h : lexFrom (.gap g) t = .ok l) :
    (t = [] ∧ l = ⟨[], g⟩) ∨
      (∃ c u, t = c :: u ∧ isSpace c ∧ lexFrom (.gap (g ++ [c])) u = .ok l) ∨
      ∃ x u l', t = x.text ++ u ∧ IsToken x ∧
        ((∀ c ∈ x.text, isWord c) → ∀ c ∈ u.head?, isWord c = false) ∧
        lexFrom (.gap []) u = .ok l' ∧ l = ⟨⟨g, x⟩ :: l'.lexemes, l'.trail⟩ := by
  have hmap : ∀ {u : Text} {x : Token}, (lexFrom (.gap []) u).map (prepend [⟨g, x⟩]) = .ok l →
      ∃ l', lexFrom (.gap []) u = .ok l' ∧ l = ⟨⟨g, x⟩ :: l'.lexemes, l'.trail⟩ := by
    intro u x hu
    cases hlex : lexFrom (.gap []) u with
    | error e =>
        rw [hlex] at hu
        cases hu
    | ok l' =>
        rw [hlex] at hu
        cases hu
        exact ⟨l', rfl, rfl⟩
  cases t with
  | nil =>
      cases h
      exact .inl ⟨rfl, rfl⟩
  | cons c u =>
      refine .inr ?_
      by_cases hspace : isSpace c
      · rw [← List.singleton_append, lexFrom_spaces (by simpa using hspace)] at h
        exact .inl ⟨c, u, rfl, hspace, h⟩
      refine .inr ?_
      by_cases hquote : c = '\''
      · subst hquote
        by_cases hclosed : '\'' ∈ u
        · obtain ⟨s, u, rfl, hs⟩ := List.eq_append_cons_of_mem hclosed
          rw [lexFrom_str hs] at h
          obtain ⟨l', hl', rfl⟩ := hmap h
          refine ⟨⟨.str, '\'' :: (s ++ ['\''])⟩, u, l', by simp, .str hs, fun hword => ?_, hl', rfl⟩
          exact absurd (hword '\'' List.mem_cons_self) (by decide)
        · -- the string is not closed
          rw [← List.singleton_append, lexFrom_append,
            show (run (.gap g) ['\'']) = ([], .str g ['\'']) from rfl, lexFrom,
            run_strChars hclosed] at h
          cases h
      by_cases hword : isWord c
      · have hsplit := List.takeWhile_append_dropWhile (p := isWord) (l := c :: u)
        have hend : ∀ d ∈ ((c :: u).dropWhile isWord).head?, isWord d = false := by
          intro d hd
          have hnot := List.head?_dropWhile_not isWord (c :: u)
          rw [Option.mem_def.mp hd] at hnot
          exact hnot
        have hne : (c :: u).takeWhile isWord ≠ [] := by simp [hword]
        have hall : ∀ d ∈ (c :: u).takeWhile isWord, isWord d :=
          fun d hd => List.all_eq_true.mp List.all_takeWhile d hd
        rw [← hsplit, lexFrom_word hne hall hend] at h
        obtain ⟨l', hl', rfl⟩ := hmap h
        exact ⟨wordToken _, _, l', hsplit.symm, .word hne hall, fun _ => hend, hl', rfl⟩
      · have hmark : isMark c := ⟨Bool.eq_false_iff.mpr hspace, hquote, Bool.eq_false_iff.mpr hword⟩
        rw [lexFrom_mark hmark] at h
        obtain ⟨l', hl', rfl⟩ := hmap h
        refine ⟨markToken c, u, l', rfl, .mark hmark, fun hall => ?_, hl', rfl⟩
        exact absurd (hall c List.mem_cons_self) hword

/-- **What a text is taken apart into.** -/
theorem lex_eq_ok {t trail : Text} {xs : List Lexeme} :
    lex t = .ok ⟨xs, trail⟩ ↔ Proper xs ∧ (∀ c ∈ trail, isSpace c) ∧ render xs ++ trail = t := by
  constructor
  · intro h
    -- from any gap, by the length of what is left
    have hfrom : ∀ (n : Nat) (g t : Text) (l : Lexed), t.length ≤ n → (∀ c ∈ g, isSpace c) →
        lexFrom (.gap g) t = .ok l →
          Proper l.lexemes ∧ (∀ c ∈ l.trail, isSpace c) ∧ render l.lexemes ++ l.trail = g ++ t := by
      intro n
      induction n with
      | zero =>
          intro g t l hn hg h
          obtain rfl := List.length_eq_zero_iff.mp (Nat.le_zero.mp hn)
          cases h
          exact ⟨.nil, hg, (List.append_nil g).symm⟩
      | succ n ih =>
          intro g t l hn hg h
          rcases lexFrom_gap_cases h with
            ⟨rfl, rfl⟩ | ⟨c, u, rfl, hc, hu⟩ | ⟨x, u, l', rfl, hx, hend, hu, rfl⟩
          · exact ⟨.nil, hg, by simp [render]⟩
          · have hgc : ∀ d ∈ g ++ [c], isSpace d := by
              intro d hd
              rcases List.mem_append.mp hd with hd | hd
              · exact hg d hd
              · rw [List.mem_singleton.mp hd]
                exact hc
            obtain ⟨hproper, htrail, htext⟩ := ih _ u l (Nat.le_of_succ_le_succ hn) hgc hu
            exact ⟨hproper, htrail, by rw [htext]; simp⟩
          · have hlen : u.length ≤ n := by
              have hpos := List.length_pos_iff.mpr hx.text_ne_nil
              rw [List.length_append] at hn
              omega
            obtain ⟨hproper, htrail, htext⟩ := ih [] u l' hlen (fun _ h => by cases h) hu
            refine ⟨.cons hg hx (fun hall y hy hgap c hc => ?_) hproper, htrail, ?_⟩
            · refine hend hall c ?_
              rw [List.nil_append] at htext
              obtain ⟨ys, hys⟩ := List.head?_eq_some_iff.mp (Option.mem_def.mp hy)
              obtain ⟨v, hv⟩ := List.head?_eq_some_iff.mp (Option.mem_def.mp hc)
              rw [← htext, hys, render_cons, hgap, hv]
              rfl
            · rw [render_cons, List.append_assoc, htext]
              simp
    have hproper := hfrom t.length [] t _ (Nat.le_refl _) (fun _ h => by cases h) h
    exact hproper
  · rintro ⟨hproper, htrail, rfl⟩
    exact lexFrom_render hproper htrail

end GelCli.Migrations.Plain
