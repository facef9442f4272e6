import GelCli.Migrations.GrammarRules
import GelCli.Migrations.PlainParser
import GelCli.Migrations.WriteFile

/-!
# Reading back what was written

A migration is written line by line, each line with an indentation of its own, and its
id was computed from the statements before. A token that goes over several lines takes
up the indentation and is another token then. All other migrations read back as what
they are, as long as their statements are statements of the grammar.
-/

namespace GelCli.Migrations

open GelCli.Foundation

variable {E : EdgeqlParser}

/-! ## Tokens of a written file -/

/-- The tokens of the lines of the statements, with the indentation behind the line breaks
inside of them. -/
def indentedTokens (E : EdgeqlParser) (descr : MigrationToText) : Except LexError (List Token) :=
  (E.tokens (Text.unlines descr.lines)).map (List.map Token.relined)

/-- The tokens of the file: those of the lines, between those around them. -/
theorem tokens_text (hE : Lawful E) {descr : MigrationToText} (hid : Db.ServerName descr.id)
    (hparent : ParentName descr.parent) {ts : List Token} :
    E.tokens descr.text = .ok ts ↔ ∃ js, indentedTokens E descr = .ok js ∧
      ts = headTokens descr.id descr.parent ++ js ++ closeTokens := by
  have hlines : ∀ line ∈ descr.lines, '\n' ∉ line := by
    intro line hline
    obtain ⟨statement, -, hline⟩ := List.mem_flatMap.mp hline
    exact Text.newline_notMem_of_mem_lines hline
  have hindented : (E.tokens (Text.indentLines descr.lines)).toOption =
      (indentedTokens E descr).toOption := by
    rw [hE.indent _ hlines, indentedTokens]
    cases E.tokens (Text.unlines descr.lines) <;> rfl
  rw [MigrationToText.text, ← toOption_eq_some, hE.frame hid hparent, hindented,
    Option.map_eq_some_iff]
  simp only [toOption_eq_some]
  exact exists_congr fun js => and_congr_right fun _ => eq_comm

/-- The lexemes of the file in their three parts. -/
theorem lex_text (hE : Lawful E) {descr : MigrationToText} (hid : Db.ServerName descr.id)
    (hparent : ParentName descr.parent) {js : List Token}
    (hjs : indentedTokens E descr = .ok js) :
    ∃ head xs closing last trail,
      E.lex descr.text = .ok ⟨head ++ xs ++ [closing, last], trail⟩ ∧
        head.map Lexeme.token = headTokens descr.id descr.parent ∧
        xs.map Lexeme.token = js ∧ [closing.token, last.token] = closeTokens := by
  obtain ⟨⟨lexemes, trail⟩, hlex, htokens⟩ :=
    tokens_eq_ok.mp ((tokens_text hE hid hparent).mpr ⟨js, hjs, rfl⟩)
  obtain ⟨front, ends, hlexemes, hfront, hends⟩ := List.map_eq_append_iff.mp htokens
  obtain ⟨head, xs, rfl, hhead, hxs⟩ := List.map_eq_append_iff.mp hfront
  obtain ⟨closing, ends, rfl, hclosing, hlast⟩ := List.map_eq_cons_iff.mp hends
  obtain ⟨last, ends, rfl, hlast, hnil⟩ := List.map_eq_cons_iff.mp hlast
  obtain rfl := List.map_eq_nil_iff.mp hnil
  refine ⟨head, xs, closing, last, trail, ?_, hhead, hxs, ?_⟩
  · rw [hlex]
    exact congrArg (fun lexemes => Except.ok (Lexed.mk lexemes trail)) hlexemes
  · exact hends

/-- What is cut out by the range of the body has the tokens of the body. -/
theorem tokens_body (hE : Lawful E) {t trail : Text} {head xs : List Lexeme}
    {closing last : Lexeme} (hlex : E.lex t = .ok ⟨head ++ xs ++ [closing, last], trail⟩)
    (hhead : head.map (·.token.kind) = headKinds) (hclosing : closing.token.kind = .closeBrace) :
    ∃ body, Text.slice t (offset (head ++ xs ++ [closing, last]) 6)
        (offset (head ++ xs ++ [closing, last]) (6 + xs.length)) = some body ∧
      E.tokens body = .ok (xs.map Lexeme.token) := by
  refine ⟨bodyText closing.gap xs, ?_, hE.slice hlex hhead hclosing⟩
  rw [← hE.render hlex]
  exact slice_textRange (length_of_kinds hhead)

/-! ## Parsed files -/

/-- Statements of the grammar from the first token to the last, with one message at most. -/
def Complete (E : EdgeqlParser) (ts : List Token) : Prop :=
  ∃ items message, StatementsOf E.unquote ts items ∧ collectMessage none items = .ok message

/-- The tokens of what the range of the body cuts out of the text of a file. -/
def BodyTokens (E : EdgeqlParser) (t : Text) (m : Files.Migration) (js : List Token) : Prop :=
  ∃ body, Text.slice t m.textRange.1 m.textRange.2 = some body ∧ E.tokens body = .ok js

theorem BodyTokens.unique {t : Text} {m : Files.Migration} {js js' : List Token}
    (h : BodyTokens E t m js) (h' : BodyTokens E t m js') : js = js' := by
  obtain ⟨body, hslice, hbody⟩ := h
  obtain ⟨body', hslice', hbody'⟩ := h'
  obtain rfl := Option.some.inj (hslice.symm.trans hslice')
  exact Except.ok.inj (hbody.symm.trans hbody')

theorem BodyTokens.expectedId {t : Text} {m : Files.Migration} {js : List Token}
    (h : BodyTokens E t m js) :
    m.expectedId E t = .ok (E.migrationId m.parentId (js.map Token.text)) := by
  obtain ⟨body, hslice, hbody⟩ := h
  simp only [Files.Migration.expectedId, sliceOrPanic, hslice, bind, Except.bind, hashSource, hbody]

/-- The tokens of a file that is parsed, in their three parts. -/
theorem bodyTokens_of_parseMigration (hE : Lawful E) {t : Text} {m : Files.Migration}
    (h : parseMigration E t = .ok m) : ∃ front js ends, BodyTokens E t m js ∧ Complete E js ∧
      E.tokens t = .ok (front ++ js ++ ends) ∧ front.length = 6 ∧ ends.length = 2 := by
  obtain ⟨head, xs, closing, last, trail, items, hlex, hhead, hclosing, -, hitems, hmessage, -, -,
    hrange⟩ := parseMigration_eq_ok.mp h
  have hkinds := hhead.kinds
  rw [List.map_map] at hkinds
  obtain ⟨body, hslice, hbody⟩ := tokens_body hE hlex hkinds hclosing
  refine ⟨head.map Lexeme.token, xs.map Lexeme.token, [closing.token, last.token],
    ⟨body, by rw [hrange]; exact hslice, hbody⟩, ⟨items, m.message, hitems, hmessage⟩,
    tokens_eq_ok.mpr ⟨_, hlex, ?_⟩, ?_, rfl⟩
  · rw [Lexed.tokens, List.map_append, List.map_append]
    rfl
  · rw [List.length_map]
    exact length_of_kinds hkinds

/-- A written file is parsed iff the tokens in it are complete statements. -/
theorem parseMigration_text (hE : Lawful E) {descr : MigrationToText} (hid : Db.ServerName descr.id)
    (hparent : ParentName descr.parent) {js : List Token} :
    (∃ m, parseMigration E descr.text = .ok m ∧ BodyTokens E descr.text m js) ↔
      indentedTokens E descr = .ok js ∧ Complete E js := by
  constructor
  · rintro ⟨m, hparse, hbody⟩
    obtain ⟨front, js', ends, hbody', hcomplete, htokens, hfront, hends⟩ :=
      bodyTokens_of_parseMigration hE hparse
    obtain rfl := hbody.unique hbody'
    obtain ⟨js', hjs', heq⟩ := (tokens_text hE hid hparent).mp htokens
    -- six tokens stand before the body and two behind it
    have hlen : (front ++ js).length = (headTokens descr.id descr.parent ++ js').length := by
      refine Nat.add_right_cancel (m := 2) ?_
      rw [← hends, ← List.length_append, heq, List.length_append, hends]
      rfl
    obtain ⟨-, rfl⟩ := List.append_inj (List.append_inj heq hlen).1 hfront
    exact ⟨hjs', hcomplete⟩
  · rintro ⟨hindented, items, message, hitems, hmessage⟩
    obtain ⟨head, xs, closing, last, trail, hlex, hhead, hxs, hends⟩ :=
      lex_text hE hid hparent hindented
    obtain ⟨hclosing, hlast⟩ := List.cons.inj hends
    have hclosing : closing.token.kind = .closeBrace := by rw [hclosing]
    have hlast : last.token.kind = .semicolon := by rw [(List.cons.inj hlast).1]
    have hisHeader : IsHeader descr.id descr.parent (head.map Lexeme.token) :=
      hhead ▸ isHeader_headTokens _ _
    have hparse := parseMigration_eq_ok (m := ⟨message, descr.id, tokenRange head 2, descr.parent,
      tokenRange head 4, (offset (head ++ xs ++ [closing, last]) 6,
        offset (head ++ xs ++ [closing, last]) (6 + xs.length))⟩) |>.mpr
      ⟨head, xs, closing, last, trail, items, hlex, hisHeader, hclosing, hlast, hxs ▸ hitems,
        hmessage, rfl, rfl, rfl⟩
    have hkinds := hisHeader.kinds
    rw [List.map_map] at hkinds
    obtain ⟨body, hslice, hbody⟩ := tokens_body hE hlex hkinds hclosing
    exact ⟨_, hparse, body, hslice, hxs ▸ hbody⟩

/-- The names in a written file. -/
theorem names_of_parseMigration_text (hE : Lawful E) {descr : MigrationToText}
    (hid : Db.ServerName descr.id) (hparent : ParentName descr.parent) {m : Files.Migration}
    (h : parseMigration E descr.text = .ok m) : m.id = descr.id ∧ m.parentId = descr.parent := by
  obtain ⟨head, xs, closing, last, trail, items, hlex, hhead, -⟩ := parseMigration_eq_ok.mp h
  obtain ⟨js, -, heq⟩ := (tokens_text hE hid hparent).mp (tokens_eq_ok.mpr ⟨_, hlex, rfl⟩)
  have hlen : (head.map Lexeme.token).length = (headTokens descr.id descr.parent).length := by
    have hkinds := congrArg List.length hhead.kinds
    rw [List.length_map] at hkinds
    exact hkinds
  rw [Lexed.tokens, List.map_append, List.map_append, List.append_assoc, List.append_assoc] at heq
  rw [(List.append_inj heq hlen).1] at hhead
  have hnames := Option.some.inj (hhead.symm.trans (isHeader_headTokens descr.id descr.parent))
  exact ⟨(Prod.mk.inj hnames).1, (Prod.mk.inj (Prod.mk.inj hnames).2).1⟩

/-! ## Reading -/

theorem validateText_eq_ok {m : Files.Migration} {t : Text} (hid : Db.ServerName m.id) :
    validateText E t m = .ok () ↔ m.expectedId E t = .ok m.id := by
  obtain ⟨hash, hm, -⟩ := hid
  have hstart : "m1".toList.isPrefixOf m.id := by
    rw [hm]
    rfl
  rw [validateText, if_pos hstart]
  cases m.expectedId E t with
  | error e => exact iff_of_false (fun h => by cases h) (fun h => by cases h)
  | ok id =>
      show (if id ≠ m.id then Except.error (FileError.wrongName id m.id) else .ok ()) = .ok () ↔ _
      by_cases hne : id = m.id
      · rw [if_neg (not_not.mpr hne), hne]
        exact ⟨fun _ => rfl, fun _ => rfl⟩
      · rw [if_pos hne]
        exact iff_of_false (fun h => by cases h) (fun h => hne (Except.ok.inj h))

theorem readFile_eq_ok {validate : Bool} {t : Text} {m : Files.Migration} :
    readFile E validate t = .ok m ↔
      parseMigration E t = .ok m ∧ (validate → validateText E t m = .ok ()) := by
  unfold readFile
  cases parseMigration E t with
  | error e => exact iff_of_false (fun h => by cases h) (fun h => by cases h.1)
  | ok data =>
      cases validate with
      | false =>
          show Except.ok data = .ok m ↔ _
          simp
      | true =>
          cases hvalid : validateText E t data with
          | error e =>
              simp only [hvalid, if_true]
              refine iff_of_false (fun h => by cases h) ?_
              rintro ⟨h, hm⟩
              rw [← Except.ok.inj h, hvalid] at hm
              cases hm trivial
          | ok u =>
              simp only [hvalid, if_true]
              constructor
              · intro h
                rw [← Except.ok.inj h]
                exact ⟨rfl, fun _ => hvalid⟩
              · exact fun h => congrArg Except.ok (Except.ok.inj h.1)

/-- The tokens in the file are complete statements and, where it matters, have the id as
their hash. -/
def Readable (E : EdgeqlParser) (validate : Bool) (descr : MigrationToText) : Prop :=
  ∃ js, indentedTokens E descr = .ok js ∧ Complete E js ∧
    (validate → descr.id = E.migrationId descr.parent (js.map Token.text))

/-- **What it takes to read a written file.** -/
theorem readFile_text (hE : Lawful E) {validate : Bool} {descr : MigrationToText}
    (hid : Db.ServerName descr.id) (hparent : ParentName descr.parent) :
    (∃ m, readFile E validate descr.text = .ok m ∧ m.id = descr.id ∧
        m.parentId = descr.parent) ↔ Readable E validate descr := by
  -- of what was parsed, the id is the hash of the tokens or it is not
  have hvalid : ∀ {m js}, m.id = descr.id → m.parentId = descr.parent →
      BodyTokens E descr.text m js → (validateText E descr.text m = .ok () ↔
        descr.id = E.migrationId descr.parent (js.map Token.text)) := by
    intro m js hmid hmparent hbody
    rw [validateText_eq_ok (hmid ▸ hid), hbody.expectedId, hmid, hmparent]
    exact ⟨fun h => (Except.ok.inj h).symm, fun h => congrArg Except.ok h.symm⟩
  constructor
  · rintro ⟨m, hread, hmid, hmparent⟩
    obtain ⟨hparse, hm⟩ := readFile_eq_ok.mp hread
    obtain ⟨front, js, ends, hbody, -⟩ := bodyTokens_of_parseMigration hE hparse
    obtain ⟨hjs, hcomplete⟩ := (parseMigration_text hE hid hparent).mp ⟨m, hparse, hbody⟩
    exact ⟨js, hjs, hcomplete, fun hv => (hvalid hmid hmparent hbody).mp (hm hv)⟩
  · rintro ⟨js, hjs, hcomplete, hhash⟩
    obtain ⟨m, hparse, hbody⟩ := (parseMigration_text hE hid hparent).mpr ⟨hjs, hcomplete⟩
    obtain ⟨hmid, hmparent⟩ := names_of_parseMigration_text hE hid hparent hparse
    exact ⟨m, readFile_eq_ok.mpr ⟨hparse, fun hv => (hvalid hmid hmparent hbody).mpr (hhash hv)⟩,
      hmid, hmparent⟩

/-! ## Reading back -/

/-- The file is parsed as the migration that was written and has the tokens of its
statements, and the id that is computed from it is the one that was computed before. -/
def ReadsBack (E : EdgeqlParser) (descr : MigrationToText) : Prop :=
  ∃ m body ts, parseMigration E descr.text = .ok m ∧ m.id = descr.id ∧ m.parentId = descr.parent ∧
    Text.slice descr.text m.textRange.1 m.textRange.2 = some body ∧ E.tokens body = .ok ts ∧
    statementTokens E descr.statements = .ok ts ∧
    m.expectedId E descr.text = .ok descr.id ∧ readFile E true descr.text = .ok m

theorem relined_eq_self {ts : List Token} :
    ts.map Token.relined = ts ↔ ∀ x ∈ ts, '\n' ∉ x.text := by
  have htoken : ∀ x : Token, x.relined = x ↔ '\n' ∉ x.text := by
    intro x
    rw [← Text.relined_eq_self]
    constructor
    · intro h
      exact congrArg Token.text h
    · intro h
      rw [Token.relined, h]
  induction ts with
  | nil => simp
  | cons x ts ih =>
      rw [List.map_cons, List.cons.injEq, htoken, List.forall_mem_cons]
      exact and_congr_right fun _ => ih

/-- Where the statements have the same tokens one below the other, the indentation leaves
them as they are iff none goes over several lines. -/
theorem indentedTokens_eq_ok {descr : MigrationToText} {ts : List Token}
    (h : E.tokens (Text.unlines descr.lines) = .ok ts) :
    indentedTokens E descr = .ok ts ↔ ∀ x ∈ ts, '\n' ∉ x.text := by
  rw [indentedTokens, h, ← relined_eq_self]
  exact ⟨Except.ok.inj, congrArg Except.ok⟩

/-- **Exactly the migrations that read back**: the indentation leaves the tokens of the
statements as they are, and these are complete statements. -/
theorem writtenMigration_readsBack_iff (hE : Lawful E) {descr : MigrationToText}
    {fresh : List Token} (hfresh : statementTokens E descr.statements = .ok fresh)
    (hid : computeId E descr.parent descr.statements = .ok descr.id)
    (hparent : ParentName descr.parent) :
    ReadsBack E descr ↔ indentedTokens E descr = .ok fresh ∧ Complete E fresh := by
  have hcomputed : descr.id = E.migrationId descr.parent (fresh.map Token.text) := by
    rw [computeId, hfresh] at hid
    exact (Except.ok.inj hid).symm
  have hname : Db.ServerName descr.id := hcomputed ▸ hE.migrationId _ _
  rw [← parseMigration_text hE hname hparent]
  constructor
  · rintro ⟨m, body, ts, hparse, -, -, hslice, hbody, hstatements, -, -⟩
    obtain rfl : fresh = ts := Except.ok.inj (hfresh.symm.trans hstatements)
    exact ⟨m, hparse, body, hslice, hbody⟩
  · rintro ⟨m, hparse, hbody⟩
    obtain ⟨hid, hparentId⟩ := names_of_parseMigration_text hE hname hparent hparse
    have hexpected := hbody.expectedId
    rw [hparentId, ← hcomputed] at hexpected
    obtain ⟨body, hslice, hbody⟩ := hbody
    refine ⟨m, body, fresh, hparse, hid, hparentId, hslice, hbody, hfresh, hexpected, ?_⟩
    exact readFile_eq_ok.mpr ⟨hparse, fun _ =>
      (validateText_eq_ok (hid ▸ hname)).mpr (hexpected.trans (congrArg Except.ok hid.symm))⟩

/-! ## Two migrations -/

def createType : MigrationToText where
  key := .index 1
  parent := "initial".toList
  id := "m1q3jjfe7zjl74v3n2vxjwzneousdas6vvd4qwrfd6j6xmhmktyada".toList
  statements := ["CREATE TYPE Type1;".toList]

/-- A string of two lines. -/
def createAlias : MigrationToText where
  key := .index 1
  parent := "initial".toList
  id := Plain.migrationId "initial".toList
    (["CREATE", "ALIAS", "Lines", ":", "=", "'a\nb'", ";"].map String.toList)
  statements := ["CREATE ALIAS Lines := 'a\nb';".toList]

def createTypeTokens : List Token :=
  [⟨.keyword "create".toList, "CREATE".toList⟩, ⟨.ident, "TYPE".toList⟩,
    ⟨.ident, "Type1".toList⟩, ⟨.semicolon, ";".toList⟩]

theorem writtenMigration_readsBack_createType :
    statementTokens Plain.parser createType.statements = .ok createTypeTokens ∧
      ReadsBack Plain.parser createType := by
  have hfresh : statementTokens Plain.parser createType.statements = .ok createTypeTokens := rfl
  have hid : computeId Plain.parser createType.parent createType.statements =
      .ok createType.id := rfl
  have hitem : statement Plain.unquote createTypeTokens = .ok (.ignored, []) := rfl
  refine ⟨hfresh, (writtenMigration_readsBack_iff Plain.lawful hfresh hid (.inl rfl)).mpr
    ⟨rfl, [.ignored], none, ?_, rfl⟩⟩
  exact StatementsOf.cons hitem .nil

/-- The second line of the string is indented with the line it is on, so that the file has
another id than the one it says. -/
theorem writtenMigration_changes_createAlias :
    ¬ ∀ (E : EdgeqlParser) (descr : MigrationToText), Lawful E →
      (∀ statement ∈ descr.statements, ∃ ts, E.tokens statement = .ok ts) →
        computeId E descr.parent descr.statements = .ok descr.id → ParentName descr.parent →
          ReadsBack E descr := by
  intro hclaim
  have htokens : ∀ statement ∈ createAlias.statements,
      ∃ ts, Plain.parser.tokens statement = .ok ts := by
    intro statement hmem
    obtain rfl := List.mem_singleton.mp hmem
    exact ⟨_, rfl⟩
  obtain ⟨m, -, -, -, -, -, -, -, -, -, hread⟩ :=
    hclaim Plain.parser createAlias Plain.lawful htokens rfl (.inl rfl)
  have hrefused : (readFile Plain.parser true createAlias.text).toOption = none := by
    decide +kernel
  rw [hread] at hrefused
  cases hrefused

end GelCli.Migrations
