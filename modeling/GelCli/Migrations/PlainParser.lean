import GelCli.Migrations.PlainTokens

/-!
# A plain parser crate

The plain tokenizer with a hash of its own is a parser crate as the program relies on
it. The hash spells out what was added, but for the migrations whose names the tests
of the program give.
-/

namespace GelCli.Migrations.Plain

open GelCli.Foundation

/-! ## Names -/

theorem isWord_of_serverName {name : Text} (h : Db.ServerName name) : ∀ c ∈ name, isWord c := by
  obtain ⟨hash, rfl, -, halnum⟩ := h
  intro c hc
  rcases List.mem_cons.mp hc with rfl | hc
  · decide
  rcases List.mem_cons.mp hc with rfl | hc
  · decide
  · exact isWord_of_isAlphanum (halnum c hc)

theorem wordToken_serverName {name : Text} (h : Db.ServerName name) :
    wordToken name = ⟨.ident, name⟩ := by
  obtain ⟨hash, rfl, -, -⟩ := h
  rw [wordToken, if_neg]
  intro hmem
  simp only [keywords, List.map_cons, List.map_nil, List.mem_cons, List.not_mem_nil, or_false] at hmem
  rcases hmem with h | h | h | h
  · exact absurd (List.cons.inj h).1 (by decide)
  · exact absurd (List.cons.inj (List.cons.inj h).2).1 (by decide)
  · exact absurd (List.cons.inj h).1 (by decide)
  · exact absurd (List.cons.inj h).1 (by decide)

theorem isWord_of_parentName {name : Text} (h : ParentName name) : ∀ c ∈ name, isWord c := by
  rcases h with rfl | h
  · exact fun c hc => List.all_eq_true.mp (by decide) c hc
  · exact isWord_of_serverName h

theorem wordToken_parentName {name : Text} (h : ParentName name) :
    wordToken name = ⟨.ident, name⟩ := by
  rcases h with rfl | h
  · rfl
  · exact wordToken_serverName h

theorem parentName_ne_nil {name : Text} (h : ParentName name) : name ≠ [] := by
  rcases h with rfl | ⟨hash, rfl, -, -⟩
  · decide
  · exact List.cons_ne_nil _ _

theorem isWord_of_kind {x : Token} (h : IsToken x)
    (hkind : x.kind = .ident ∨ ∃ value, x.kind = .keyword value) : ∀ c ∈ x.text, isWord c := by
  cases h with
  | word hne hw => exact hw
  | str hs => rcases hkind with hkind | ⟨value, hkind⟩ <;> cases hkind
  | @mark c hc =>
      exfalso
      unfold markToken at hkind
      split at hkind
      · rcases hkind with hkind | ⟨value, hkind⟩ <;> cases hkind
      split at hkind
      · rcases hkind with hkind | ⟨value, hkind⟩ <;> cases hkind
      split at hkind
      · rcases hkind with hkind | ⟨value, hkind⟩ <;> cases hkind
      · rcases hkind with hkind | ⟨value, hkind⟩ <;> cases hkind

theorem isWord_of_ident {x : Token} (h : IsToken x) (hkind : x.kind = .ident) :
    ∀ c ∈ x.text, isWord c :=
  isWord_of_kind h (.inl hkind)

theorem isWord_of_keyword {x : Token} {value : Text} (h : IsToken x)
    (hkind : x.kind = .keyword value) : ∀ c ∈ x.text, isWord c :=
  isWord_of_kind h (.inr ⟨value, hkind⟩)

/-! ## Parts of proper lists -/

theorem proper_cons_iff {x : Lexeme} {xs : List Lexeme} :
    Proper (x :: xs) ↔ (∀ c ∈ x.gap, isSpace c) ∧ IsToken x.token ∧
      ((∀ c ∈ x.token.text, isWord c) → ∀ y ∈ xs.head?, y.gap = [] →
        ∀ c ∈ y.token.text.head?, isWord c = false) ∧ Proper xs := by
  constructor
  · intro h
    cases h with
    | cons hg hx hnext hxs => exact ⟨hg, hx, hnext, hxs⟩
  · rintro ⟨hg, hx, hnext, hxs⟩
    exact .cons hg hx hnext hxs

theorem Proper.of_append {xs ys : List Lexeme} (h : Proper (xs ++ ys)) : Proper xs ∧ Proper ys := by
  induction xs with
  | nil => exact ⟨.nil, h⟩
  | cons x xs ih =>
      obtain ⟨hg, hx, hnext, hrest⟩ := proper_cons_iff.mp h
      obtain ⟨hxs, hys⟩ := ih hrest
      refine ⟨proper_cons_iff.mpr ⟨hg, hx, fun hall y hy => ?_, hxs⟩, hys⟩
      refine hnext hall y ?_
      cases xs with
      | nil => cases hy
      | cons z zs => exact hy

/-- A name in the place of a word. -/
theorem Proper.rename {before after : List Lexeme} {x : Lexeme} {name : Text}
    (h : Proper (before ++ x :: after)) (hx : ∀ c ∈ x.token.text, isWord c)
    (hname : Db.ServerName name) :
    Proper (before ++ ⟨x.gap, ⟨.ident, name⟩⟩ :: after) := by
  have hword := isWord_of_serverName hname
  have hne : name ≠ [] := parentName_ne_nil (.inr hname)
  induction before with
  | nil =>
      obtain ⟨hg, hxt, hnext, hafter⟩ := proper_cons_iff.mp h
      refine proper_cons_iff.mpr ⟨hg, ?_, fun _ => hnext hx, hafter⟩
      rw [← wordToken_serverName hname]
      exact .word hne hword
  | cons y before ih =>
      obtain ⟨hg, hy, hnext, hrest⟩ := proper_cons_iff.mp h
      refine proper_cons_iff.mpr ⟨hg, hy, fun hall z hz hgap => ?_, ih hrest⟩
      cases before with
      | nil =>
          -- two words would touch already
          obtain rfl := Option.some.inj hz
          obtain ⟨-, hxt, -, -⟩ := proper_cons_iff.mp hrest
          obtain ⟨c, t, ht⟩ := List.exists_cons_of_ne_nil hxt.text_ne_nil
          have hno := hnext hall x rfl hgap c (by rw [ht]; rfl)
          rw [hx c (by rw [ht]; exact List.mem_cons_self)] at hno
          cases hno
      | cons w before => exact hnext hall z hz hgap

/-- A word behind a word has a gap. -/
theorem Proper.gap_ne_nil {x y : Lexeme} {xs : List Lexeme} (h : Proper (x :: y :: xs))
    (hx : ∀ c ∈ x.token.text, isWord c) (hy : ∀ c ∈ y.token.text, isWord c) : y.gap ≠ [] := by
  intro hgap
  obtain ⟨-, -, hnext, hrest⟩ := proper_cons_iff.mp h
  obtain ⟨-, hyt, -, -⟩ := proper_cons_iff.mp hrest
  obtain ⟨c, t, ht⟩ := List.exists_cons_of_ne_nil hyt.text_ne_nil
  have hno := hnext hx y rfl hgap c (by rw [ht]; rfl)
  rw [hy c (by rw [ht]; exact List.mem_cons_self)] at hno
  cases hno

section Headed

variable {f : Headed} {id parent : Text}

theorem headed_kinds (h : f.head.map (·.token.kind) = headKinds) :
    f.migration.token.kind = .keyword "migration".toList ∧ f.id.token.kind = .ident ∧
      f.onto.token.kind = .keyword "onto".toList ∧ f.parent.token.kind = .ident := by
  obtain ⟨-, h⟩ := List.cons.inj h
  obtain ⟨hmigration, h⟩ := List.cons.inj h
  obtain ⟨hid, h⟩ := List.cons.inj h
  obtain ⟨honto, h⟩ := List.cons.inj h
  obtain ⟨hparent, -⟩ := List.cons.inj h
  exact ⟨hmigration, hid, honto, hparent⟩

theorem apart_of_proper (h : Proper (f.head ++ f.rest))
    (hkinds : f.head.map (·.token.kind) = headKinds) : f.Apart id parent := by
  obtain ⟨hmigration, hid, honto, hparent⟩ := headed_kinds hkinds
  obtain ⟨-, -, -, h₁⟩ := proper_cons_iff.mp h
  obtain ⟨-, hmigrationToken, -, h₂⟩ := proper_cons_iff.mp h₁
  obtain ⟨-, hidToken, -, h₃⟩ := proper_cons_iff.mp h₂
  obtain ⟨-, hontoToken, -, h₄⟩ := proper_cons_iff.mp h₃
  obtain ⟨-, hparentToken, -, -⟩ := proper_cons_iff.mp h₄
  have hmigrationWord := isWord_of_keyword hmigrationToken hmigration
  have hidWord := isWord_of_ident hidToken hid
  have hontoWord := isWord_of_keyword hontoToken honto
  have hparentWord := isWord_of_ident hparentToken hparent
  exact ⟨fun _ => ⟨h₁.gap_ne_nil hmigrationWord hidWord, h₂.gap_ne_nil hidWord hontoWord⟩,
    fun _ => h₃.gap_ne_nil hontoWord hparentWord⟩

theorem proper_named (h : Proper (f.head ++ f.rest))
    (hkinds : f.head.map (·.token.kind) = headKinds) (hnames : f.Renames id parent) :
    Proper ((f.named id parent).head ++ f.rest) := by
  obtain ⟨-, hid, -, hparent⟩ := headed_kinds hkinds
  -- a name that stays is the token itself
  have hsame : ∀ {x : Lexeme} {name : Text}, x.token.kind = .ident → name = x.token.text →
      (⟨x.gap, ⟨.ident, name⟩⟩ : Lexeme) = x := by
    rintro ⟨gap, kind, text⟩ name hkind rfl
    obtain rfl : kind = .ident := hkind
    rfl
  have hparentNamed : Proper ([f.create, f.migration, f.id, f.onto] ++
      ⟨f.parent.gap, ⟨.ident, parent⟩⟩ :: f.opening :: f.rest) := by
    rcases hnames.2 with hold | hname
    · rw [hsame hparent hold]
      exact h
    · have hparts : Proper ([f.create, f.migration, f.id, f.onto] ++
          f.parent :: f.opening :: f.rest) := h
      obtain ⟨-, htoken, -, -⟩ := proper_cons_iff.mp hparts.of_append.2
      exact hparts.rename (isWord_of_ident htoken hparent) hname
  rcases hnames.1 with hold | hname
  · show Proper ([f.create, f.migration] ++ ⟨f.id.gap, ⟨.ident, id⟩⟩ :: _)
    rw [hsame hid hold]
    exact hparentNamed
  · have hparts : Proper ([f.create, f.migration] ++ f.id :: f.onto ::
        ⟨f.parent.gap, ⟨.ident, parent⟩⟩ :: f.opening :: f.rest) := hparentNamed
    obtain ⟨-, htoken, -, -⟩ := proper_cons_iff.mp hparts.of_append.2
    exact hparts.rename (isWord_of_ident htoken hid) hname

end Headed

/-! ## Indented lines -/

def tokensOf (out : List Lexeme × Mode) : List Token := out.1.map Lexeme.token

theorem tokensOf_run_append (m : Mode) (a b : Text) :
    tokensOf (run m (a ++ b)) = tokensOf (run m a) ++ tokensOf (run (run m a).2 b) := by
  rw [run_append]
  exact List.map_append

theorem tokensOf_run_cons (m : Mode) (c : Char) (t : Text) :
    tokensOf (run m (c :: t)) = tokensOf (step m c) ++ tokensOf (run (step m c).2 t) :=
  List.map_append

/-- Modes within a line, without and with the indentation of the lines before. -/
def SameWithin : Mode → Mode → Prop
  | .gap _, .gap _ => True
  | .word _ w, .word _ w' => w' = w ∧ '\n' ∉ w
  | .str _ s, .str _ s' => s' = Text.relined s
  | _, _ => False

/-- Modes at the beginning of a line. -/
def SameBefore : Mode → Mode → Prop
  | .gap _, .gap _ => True
  | .str _ s, .str _ s' => s' ++ [' ', ' '] = Text.relined s
  | _, _ => False

theorem relined_append (t u : Text) : Text.relined (t ++ u) = Text.relined t ++ Text.relined u :=
  List.flatMap_append

theorem relined_singleton {c : Char} (hc : c ≠ '\n') : Text.relined [c] = [c] :=
  Text.relined_eq_self.mpr fun h => hc (List.mem_singleton.mp h).symm

theorem relined_of_notMem {x : Token} (h : '\n' ∉ x.text) : x.relined = x := by
  rw [Token.relined, Text.relined_eq_self.mpr h]

theorem start_same {g g' : Text} {c : Char} (hc : c ≠ '\n') :
    tokensOf (start g' c) = (tokensOf (start g c)).map Token.relined ∧
      SameWithin (start g c).2 (start g' c).2 := by
  have hmem : '\n' ∉ [c] := fun h => hc (List.mem_singleton.mp h).symm
  unfold start
  split
  · exact ⟨rfl, trivial⟩
  split
  · exact ⟨rfl, (relined_singleton hc).symm⟩
  split
  · exact ⟨rfl, rfl, hmem⟩
  · exact ⟨by simp [tokensOf, relined_of_notMem (x := markToken c) hmem], trivial⟩

theorem step_word {g w : Text} {c : Char} (hc : isWord c) :
    step (.word g w) c = ([], .word g (w ++ [c])) :=
  if_pos hc

theorem step_word_end {g w : Text} {c : Char} (hc : ¬ isWord c) :
    step (.word g w) c = (⟨g, wordToken w⟩ :: (start [] c).1, (start [] c).2) :=
  if_neg hc

theorem step_str {g s : Text} {c : Char} (hc : c ≠ '\'') :
    step (.str g s) c = ([], .str g (s ++ [c])) :=
  if_neg hc

theorem step_str_end {g s : Text} {c : Char} (hc : c = '\'') :
    step (.str g s) c = ([⟨g, ⟨.str, s ++ [c]⟩⟩], .gap []) :=
  if_pos hc

theorem step_same {m m' : Mode} {c : Char} (h : SameWithin m m') (hc : c ≠ '\n') :
    tokensOf (step m' c) = (tokensOf (step m c)).map Token.relined ∧
      SameWithin (step m c).2 (step m' c).2 := by
  cases m with
  | gap g =>
      cases m' with
      | gap g' => exact start_same hc
      | word g' w' => cases h
      | str g' s' => cases h
  | word g w =>
      cases m' with
      | gap g' => cases h
      | word g' w' =>
          obtain ⟨rfl, hw⟩ := h
          by_cases hword : isWord c
          · rw [step_word hword, step_word hword]
            refine ⟨rfl, rfl, ?_⟩
            rw [List.mem_append, not_or]
            exact ⟨hw, fun hmem => hc (List.mem_singleton.mp hmem).symm⟩
          · obtain ⟨htokens, hmode⟩ := start_same hc
            rw [step_word_end hword, step_word_end hword]
            refine ⟨?_, hmode⟩
            show wordToken w' :: tokensOf (start [] c) =
              (wordToken w').relined :: (tokensOf (start [] c)).map Token.relined
            rw [relined_of_notMem (x := wordToken w') hw, ← htokens]
      | str g' s' => cases h
  | str g s =>
      cases m' with
      | gap g' => cases h
      | word g' w' => cases h
      | str g' s' =>
          obtain rfl : s' = Text.relined s := h
          by_cases hquote : c = '\''
          · rw [step_str_end hquote, step_str_end hquote]
            refine ⟨?_, trivial⟩
            show [Token.mk .str (Text.relined s ++ [c])] = [Token.relined ⟨.str, s ++ [c]⟩]
            rw [Token.relined, relined_append, relined_singleton hc]
          · rw [step_str hquote, step_str hquote]
            refine ⟨rfl, ?_⟩
            show Text.relined s ++ [c] = Text.relined (s ++ [c])
            rw [relined_append, relined_singleton hc]

theorem run_same {m m' : Mode} {line : Text} (h : SameWithin m m') (hline : '\n' ∉ line) :
    tokensOf (run m' line) = (tokensOf (run m line)).map Token.relined ∧
      SameWithin (run m line).2 (run m' line).2 := by
  induction line generalizing m m' with
  | nil => exact ⟨rfl, h⟩
  | cons c line ih =>
      rw [List.mem_cons, not_or] at hline
      obtain ⟨hstep, hmode⟩ := step_same h (Ne.symm hline.1)
      obtain ⟨hrest, hend⟩ := ih hmode hline.2
      refine ⟨?_, hend⟩
      rw [tokensOf_run_cons, tokensOf_run_cons, hstep, hrest, List.map_append]

/-- At the end of a line no word goes on. -/
theorem newline_same {m m' : Mode} (h : SameWithin m m') :
    tokensOf (step m' '\n') = (tokensOf (step m '\n')).map Token.relined ∧
      SameBefore (step m '\n').2 (step m' '\n').2 := by
  cases m with
  | gap g =>
      cases m' with
      | gap g' => exact ⟨rfl, trivial⟩
      | word g' w' => cases h
      | str g' s' => cases h
  | word g w =>
      cases m' with
      | gap g' => cases h
      | word g' w' =>
          obtain ⟨rfl, hw⟩ := h
          refine ⟨?_, trivial⟩
          show [wordToken w'] = [(wordToken w').relined]
          rw [relined_of_notMem (x := wordToken w') hw]
      | str g' s' => cases h
  | str g s =>
      cases m' with
      | gap g' => cases h
      | word g' w' => cases h
      | str g' s' =>
          obtain rfl : s' = Text.relined s := h
          refine ⟨rfl, ?_⟩
          show Text.relined s ++ ['\n'] ++ [' ', ' '] = Text.relined (s ++ ['\n'])
          rw [relined_append, List.append_assoc]
          rfl

theorem indent_same {m m' : Mode} (h : SameBefore m m') :
    tokensOf (run m' [' ', ' ']) = [] ∧ SameWithin m (run m' [' ', ' ']).2 := by
  cases m with
  | gap g =>
      cases m' with
      | gap g' => exact ⟨rfl, trivial⟩
      | word g' w' => cases h
      | str g' s' => cases h
  | word g w => cases m' <;> cases h
  | str g s =>
      cases m' with
      | gap g' => cases h
      | word g' w' => cases h
      | str g' s' =>
          refine ⟨rfl, ?_⟩
          show s' ++ [' '] ++ [' '] = Text.relined s
          rw [List.append_assoc]
          exact h

theorem run_lines {m m' : Mode} {ls : List Text} (h : SameBefore m m')
    (hls : ∀ line ∈ ls, '\n' ∉ line) :
    tokensOf (run m' (Text.indentLines ls)) =
        (tokensOf (run m (Text.unlines ls))).map Token.relined ∧
      SameBefore (run m (Text.unlines ls)).2 (run m' (Text.indentLines ls)).2 := by
  induction ls generalizing m m' with
  | nil => exact ⟨rfl, h⟩
  | cons line ls ih =>
      rw [List.forall_mem_cons] at hls
      have hunlines : Text.unlines (line :: ls) = line ++ ('\n' :: Text.unlines ls) := by
        simp [Text.unlines]
      have hindent : Text.indentLines (line :: ls) =
          [' ', ' '] ++ (line ++ ('\n' :: Text.indentLines ls)) := by
        simp [Text.indentLines]
      obtain ⟨hspaces, hin⟩ := indent_same h
      obtain ⟨hline, hwithin⟩ := run_same hin hls.1
      obtain ⟨hnewline, hbefore⟩ := newline_same hwithin
      obtain ⟨hrest, hend⟩ := ih hbefore hls.2
      rw [hunlines, hindent, tokensOf_run_append, hspaces, List.nil_append, tokensOf_run_append,
        tokensOf_run_append, tokensOf_run_cons, tokensOf_run_cons, hline, hnewline, hrest,
        List.map_append, List.map_append]
      refine ⟨rfl, ?_⟩
      rw [run_append, run_append, run_append]
      exact hend

/-! ## Headers and bodies -/

def Mode.forget : Mode → Mode
  | .gap _ => .gap []
  | .word _ w => .word [] w
  | .str _ s => .str [] s

theorem step_forget (m : Mode) (c : Char) :
    tokensOf (step m.forget c) = tokensOf (step m c) ∧
      (step m.forget c).2.forget = (step m c).2.forget := by
  have hstart : ∀ g, tokensOf (start [] c) = tokensOf (start g c) ∧
      (start [] c).2.forget = (start g c).2.forget := by
    intro g
    unfold start
    split
    · exact ⟨rfl, rfl⟩
    split
    · exact ⟨rfl, rfl⟩
    split
    · exact ⟨rfl, rfl⟩
    · exact ⟨rfl, rfl⟩
  cases m with
  | gap g => exact hstart g
  | word g w =>
      by_cases hc : isWord c
      · rw [Mode.forget, step_word hc, step_word hc]
        exact ⟨rfl, rfl⟩
      · rw [Mode.forget, step_word_end hc, step_word_end hc]
        exact ⟨rfl, rfl⟩
  | str g s =>
      by_cases hc : c = '\''
      · rw [Mode.forget, step_str_end hc, step_str_end hc]
        exact ⟨rfl, rfl⟩
      · rw [Mode.forget, step_str hc, step_str hc]
        exact ⟨rfl, rfl⟩

/-- The gap before a text makes no difference to its tokens. -/
theorem run_forget {m m' : Mode} (h : m.forget = m'.forget) (t : Text) :
    tokensOf (run m t) = tokensOf (run m' t) ∧ (run m t).2.forget = (run m' t).2.forget := by
  induction t generalizing m m' with
  | nil => exact ⟨rfl, h⟩
  | cons c t ih =>
      obtain ⟨htokens, hmode⟩ := step_forget m c
      obtain ⟨htokens', hmode'⟩ := step_forget m' c
      rw [h] at htokens hmode
      obtain ⟨hrest, hend⟩ := ih (hmode.symm.trans hmode')
      rw [tokensOf_run_cons, tokensOf_run_cons, ← htokens, htokens', hrest]
      exact ⟨rfl, hend⟩

def headLexemes (id parent : Text) : List Lexeme :=
  [⟨[], wordToken "CREATE".toList⟩, ⟨[' '], wordToken "MIGRATION".toList⟩, ⟨[' '], ⟨.ident, id⟩⟩,
    ⟨"\n    ".toList, wordToken "ONTO".toList⟩, ⟨[' '], ⟨.ident, parent⟩⟩, ⟨['\n'], markToken '\x7b'⟩]

/-- A word and the white space behind it. -/
theorem lexFrom_word_spaces {g w sp : Text} (hne : w ≠ []) (hw : ∀ c ∈ w, isWord c)
    (hsp : sp ≠ []) (hspaces : sp.all isSpace) (t : Text) :
    lexFrom (.gap g) (w ++ (sp ++ t)) =
      (lexFrom (.gap sp) t).map (prepend [⟨g, wordToken w⟩]) := by
  rw [List.all_eq_true] at hspaces
  rw [lexFrom_word hne hw, lexFrom_spaces hspaces, List.nil_append]
  intro c hc
  obtain ⟨d, u, rfl⟩ := List.exists_cons_of_ne_nil hsp
  obtain rfl := Option.some.inj hc
  exact not_isWord_of_isSpace (hspaces d List.mem_cons_self)

theorem map_prepend_map (l : Except LexError Lexed) (xs ys : List Lexeme) :
    (l.map (prepend ys)).map (prepend xs) = l.map (prepend (xs ++ ys)) := by
  cases l with
  | error e => rfl
  | ok l => exact congrArg (fun zs => Except.ok (Lexed.mk zs l.trail)) (List.append_assoc ..).symm

theorem frame_eq (id parent body : Text) :
    frame id parent body = "CREATE".toList ++ ([' '] ++ ("MIGRATION".toList ++ ([' '] ++
      (id ++ ("\n    ".toList ++ ("ONTO".toList ++ ([' '] ++ (parent ++ (['\n'] ++ ('\x7b' ::
        (['\n'] ++ (body ++ "\x7d;\n".toList)))))))))))) := by
  have hcreate : "CREATE MIGRATION ".toList =
      "CREATE".toList ++ ([' '] ++ ("MIGRATION".toList ++ [' '])) := by decide
  have honto : "\n    ONTO ".toList = "\n    ".toList ++ ("ONTO".toList ++ [' ']) := by decide
  have hopen : "\n\x7b\n".toList = ['\n'] ++ ('\x7b' :: ['\n']) := by decide
  unfold frame
  rw [hcreate, honto, hopen]
  generalize "CREATE".toList = create, "MIGRATION".toList = migration, "\n    ".toList = indent,
    "ONTO".toList = onto, "\x7d;\n".toList = closing
  simp only [List.append_assoc, List.cons_append, List.nil_append]

theorem lex_frame {id parent : Text} (hid : Db.ServerName id) (hparent : ParentName parent)
    (body : Text) :
    lex (frame id parent body) =
      (lexFrom (.gap ['\n']) (body ++ "\x7d;\n".toList)).map (prepend (headLexemes id parent)) := by
  have hcreate : ∀ c ∈ "CREATE".toList, isWord c := fun c hc => List.all_eq_true.mp (by decide) c hc
  have hmigration : ∀ c ∈ "MIGRATION".toList, isWord c :=
    fun c hc => List.all_eq_true.mp (by decide) c hc
  have honto : ∀ c ∈ "ONTO".toList, isWord c := fun c hc => List.all_eq_true.mp (by decide) c hc
  have hindent : "\n    ".toList.all isSpace := by decide
  rw [frame_eq, lex,
    lexFrom_word_spaces (by decide) hcreate (List.cons_ne_nil _ _) (by decide),
    lexFrom_word_spaces (by decide) hmigration (List.cons_ne_nil _ _) (by decide),
    lexFrom_word_spaces (parentName_ne_nil (.inr hid)) (isWord_of_serverName hid) (by decide)
      hindent,
    lexFrom_word_spaces (by decide) honto (List.cons_ne_nil _ _) (by decide),
    lexFrom_word_spaces (parentName_ne_nil hparent) (isWord_of_parentName hparent)
      (List.cons_ne_nil _ _) (by decide),
    lexFrom_mark ⟨by decide, by decide, by decide⟩,
    lexFrom_spaces (List.all_eq_true.mp (by decide)), wordToken_serverName hid,
    wordToken_parentName hparent]
  simp only [map_prepend_map]
  rfl

/-- The tokens of what a mode has begun. -/
def begun : Mode → Option (List Token)
  | .gap _ => some []
  | .word _ w => some [wordToken w]
  | .str _ _ => none

theorem tokens_lexFrom (m : Mode) (t : Text) :
    ((lexFrom m t).map Lexed.tokens).toOption =
      (begun (run m t).2).map (tokensOf (run m t) ++ ·) := by
  rw [lexFrom]
  obtain ⟨xs, m'⟩ := run m t
  cases m' with
  | gap g =>
      show some (xs.map Lexeme.token) = some (xs.map Lexeme.token ++ [])
      rw [List.append_nil]
  | word g w => exact congrArg some List.map_append
  | str g s => rfl

/-- Whole lines end outside of words. -/
theorem run_indentLines (g : Text) (ls : List Text) :
    (∃ g', (run (.gap g) (Text.indentLines ls)).2 = .gap g') ∨
      ∃ g' s, (run (.gap g) (Text.indentLines ls)).2 = .str g' s := by
  rcases List.eq_nil_or_concat' ls with rfl | ⟨front, last, rfl⟩
  · exact .inl ⟨g, rfl⟩
  · have hsplit : Text.indentLines (front ++ [last]) =
        Text.indentLines front ++ ([' ', ' '] ++ last) ++ ['\n'] := by simp [Text.indentLines]
    rw [hsplit, run_append]
    cases (run (.gap g) (Text.indentLines front ++ ([' ', ' '] ++ last))).2 with
    | gap g' => exact .inl ⟨_, rfl⟩
    | word g' w => exact .inl ⟨_, rfl⟩
    | str g' s => exact .inr ⟨_, _, rfl⟩

theorem tokens_frame {id parent : Text} (hid : Db.ServerName id) (hparent : ParentName parent)
    (ls : List Text) :
    ((lex (frame id parent (Text.indentLines ls))).map Lexed.tokens).toOption =
      ((lex (Text.indentLines ls)).map Lexed.tokens).toOption.map fun body =>
        headTokens id parent ++ body ++ closeTokens := by
  have hhead : ∀ l : Except LexError Lexed,
      ((l.map (prepend (headLexemes id parent))).map Lexed.tokens).toOption =
        (l.map Lexed.tokens).toOption.map (headTokens id parent ++ ·) := by
    intro l
    cases l with
    | error e => rfl
    | ok l => exact congrArg some List.map_append
  have hforget : (Mode.gap ['\n']).forget = (Mode.gap []).forget := rfl
  obtain ⟨htokens, hmode⟩ := run_forget hforget (Text.indentLines ls)
  rw [lex_frame hid hparent, hhead, lex, tokens_lexFrom, tokens_lexFrom, tokensOf_run_append,
    run_append, htokens]
  rcases run_indentLines ['\n'] ls with ⟨g, hg⟩ | ⟨g, s, hs⟩
  · rcases run_indentLines [] ls with ⟨g', hg'⟩ | ⟨g', s', hs'⟩
    · rw [hg, hg']
      refine congrArg some ?_
      show headTokens id parent ++
          (tokensOf (run (.gap []) (Text.indentLines ls)) ++ closeTokens ++ []) =
        headTokens id parent ++
          (tokensOf (run (.gap []) (Text.indentLines ls)) ++ []) ++ closeTokens
      rw [List.append_nil, List.append_nil, List.append_assoc]
    · rw [hg, hs'] at hmode
      cases hmode
  · rcases run_indentLines [] ls with ⟨g', hg'⟩ | ⟨g', s', hs'⟩
    · rw [hs, hg'] at hmode
      cases hmode
    · rw [hs, hs']
      rfl

/-! ## The hash -/

/-- What was hashed, in letters and digits. -/
def spell (t : Text) : Text := (t.flatMap fun c => Decimal.ofNat c.toNat ++ ['y']) ++ ['z']

/-- The migrations whose ids the tests of the program give. -/
def known (parent : Text) (texts : List Text) : Option Text :=
  if parent = "initial".toList ∧ texts = [] then
    some "m1tjyzfl33vvzwjd5izo5nyp4zdsekyvxpdm7zhtt5ufmqjzczopdq".toList
  else if texts = ["CREATE", "TYPE", "Type1", ";"].map String.toList then
    if parent = "initial".toList then
      some "m1q3jjfe7zjl74v3n2vxjwzneousdas6vvd4qwrfd6j6xmhmktyada".toList
    else if parent = "m1g3qzqdr57pp3w2mdwdkq4g7dq4oefawqdavzgeiov7fiwntpb3lq".toList then
      some "m1fvpcra5cxntkss3k2to2yfu7pit3t3owesvdw2nysqvvpihdiszq".toList
    else none
  else none

def migrationId (parent : Text) (texts : List Text) : Text :=
  (known parent texts).getD ("m100000".toList ++ (parent :: texts).flatMap spell)

theorem isAlphanum_spell {t : Text} {c : Char} (h : c ∈ spell t) : c.isAlphanum := by
  rcases List.mem_append.mp h with h | h
  · obtain ⟨d, -, h⟩ := List.mem_flatMap.mp h
    rcases List.mem_append.mp h with h | h
    · have hdigit := Decimal.isDigit_of_mem_ofNat h
      simp [Char.isAlphanum, hdigit]
    · rw [List.mem_singleton.mp h]
      decide
  · rw [List.mem_singleton.mp h]
    decide

theorem serverName_known {parent id : Text} {texts : List Text}
    (h : known parent texts = some id) : Db.ServerName id := by
  have hname : ∀ {hash : Text}, 5 ≤ hash.length → hash.all Char.isAlphanum →
      Db.ServerName ('m' :: '1' :: hash) :=
    fun hlen hall => ⟨_, rfl, hlen, List.all_eq_true.mp hall⟩
  unfold known at h
  split at h
  · rw [← Option.some.inj h]
    exact hname (by decide) (by decide)
  split at h
  · split at h
    · rw [← Option.some.inj h]
      exact hname (by decide) (by decide)
    split at h
    · rw [← Option.some.inj h]
      exact hname (by decide) (by decide)
    · cases h
  · cases h

theorem serverName_migrationId (parent : Text) (texts : List Text) :
    Db.ServerName (migrationId parent texts) := by
  cases hknown : known parent texts with
  | some id =>
      rw [migrationId, hknown]
      exact serverName_known hknown
  | none =>
      rw [migrationId, hknown]
      refine ⟨"00000".toList ++ (parent :: texts).flatMap spell, rfl, ?_, fun c hc => ?_⟩
      · rw [List.length_append]
        exact Nat.le_add_right _ _
      · rcases List.mem_append.mp hc with hc | hc
        · exact List.all_eq_true.mp (by decide : "00000".toList.all Char.isAlphanum) c hc
        · obtain ⟨t, -, hc⟩ := List.mem_flatMap.mp hc
          exact isAlphanum_spell hc

/-! ## The crate -/

/-- Strings without escapes. -/
def unquote (t : Text) : Except Text Text := .ok (t.drop 1).dropLast

def parser : EdgeqlParser where
  lex := lex
  unquote := unquote
  migrationId := migrationId

theorem lawful : Lawful parser where
  render := fun {t l} h => (lex_eq_ok.mp h).2.2
  indent := by
    intro ls hls
    have hbefore : SameBefore (.gap []) (.gap []) := trivial
    obtain ⟨htokens, hmode⟩ := run_lines hbefore hls
    show ((lexFrom (.gap []) _).map Lexed.tokens).toOption =
      ((lexFrom (.gap []) _).map Lexed.tokens).toOption.map _
    rw [tokens_lexFrom, tokens_lexFrom, htokens]
    cases hm : (run (.gap []) (Text.unlines ls)).2 with
    | gap g =>
        cases hm' : (run (.gap []) (Text.indentLines ls)).2 with
        | gap g' => simp [begun]
        | word g' w' => rw [hm, hm'] at hmode; cases hmode
        | str g' s' => rw [hm, hm'] at hmode; cases hmode
    | word g w => rw [hm] at hmode; cases hmode
    | str g s =>
        cases hm' : (run (.gap []) (Text.indentLines ls)).2 with
        | gap g' => rw [hm, hm'] at hmode; cases hmode
        | word g' w' => rw [hm, hm'] at hmode; cases hmode
        | str g' s' => rfl
  frame := fun hid hparent ls => tokens_frame hid hparent ls
  slice := by
    intro t head xs closing last trail h _ _
    obtain ⟨hproper, -, -⟩ := lex_eq_ok.mp h
    obtain ⟨hfront, hends⟩ := hproper.of_append
    obtain ⟨hgap, -, -, -⟩ := proper_cons_iff.mp hends
    have hxs := hfront.of_append.2
    refine tokens_eq_ok.mpr ?_
    cases xs with
    | nil => exact ⟨⟨[], []⟩, rfl, rfl⟩
    | cons x xs =>
        obtain ⟨-, hx, hnext, hrest⟩ := proper_cons_iff.mp hxs
        refine ⟨⟨⟨[], x.token⟩ :: xs, closing.gap⟩, lex_eq_ok.mpr ⟨?_, hgap, ?_⟩, rfl⟩
        · exact proper_cons_iff.mpr ⟨fun _ hc => (by cases hc), hx, hnext, hrest⟩
        · rw [render_cons, List.nil_append, bodyText]
  rename := by
    intro f id parent h hkinds hnames _
    obtain ⟨hproper, htrail, -⟩ := lex_eq_ok.mp h
    exact lex_eq_ok.mpr ⟨proper_named hproper hkinds hnames, htrail, rfl⟩
  joined := by
    intro f id parent h hkinds hnames hjoined
    exact absurd (apart_of_proper (lex_eq_ok.mp h).1 hkinds) hjoined
  migrationId := serverName_migrationId

end GelCli.Migrations.Plain
