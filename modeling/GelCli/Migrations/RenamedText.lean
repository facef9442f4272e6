import GelCli.Migrations.WrittenBack

/-!
# Texts with other names

The header of a migration is rewritten in place, by the ranges of its names.
-/

namespace GelCli.Migrations

open GelCli.Foundation

variable {E : EdgeqlParser}

theorem replaceRange_append (a u b v : Text) :
    replaceRange (a ++ u ++ b) (Text.byteLen a, Text.byteLen a + Text.byteLen u) v =
      .ok (a ++ v ++ b) := by
  have hstart : Text.splitAtByte (a ++ u ++ b) (Text.byteLen a) = some (a, u ++ b) := by
    rw [List.append_assoc, Text.splitAtByte_append]
  have hstop : Text.splitAtByte (a ++ u ++ b) (Text.byteLen a + Text.byteLen u) =
      some (a ++ u, b) := by
    rw [← Text.byteLen_append, Text.splitAtByte_append]
  simp only [replaceRange, hstart, hstop]

theorem offset_length_add (xs ys : List Lexeme) (i : Nat) :
    offset (xs ++ ys) (xs.length + i) = Text.byteLen (render xs) + offset ys i := by
  rw [offset, offset, List.take_length_add_append, List.getElem?_append_right (Nat.le_add_right _ _),
    Nat.add_sub_cancel_left, render_append, Text.byteLen_append, Nat.add_assoc]

namespace Headed

variable (f : Headed) (id parent : Text)

/-- What stands before the id. -/
def before : Text := render [f.create, f.migration] ++ f.id.gap

/-- What stands between the names. -/
def between : Text := f.onto.gap ++ f.onto.token.text ++ f.parent.gap

/-- What stands behind the parent. -/
def behind : Text := render (f.opening :: f.rest) ++ f.trail

theorem text_named :
    (f.named id parent).text = f.before ++ id ++ (f.between ++ parent ++ f.behind) := by
  simp [text, lexed, head, named, Lexed.render, before, between, behind]

theorem text_eq :
    f.text = f.before ++ f.id.token.text ++ (f.between ++ f.parent.token.text ++ f.behind) := by
  simp [text, lexed, head, Lexed.render, before, between, behind]

theorem tokenRange_id :
    tokenRange f.head 2 =
      (Text.byteLen f.before, Text.byteLen f.before + Text.byteLen f.id.token.text) := by
  simp [tokenRange, offset, head, before, Nat.add_assoc]

theorem tokenRange_parent :
    tokenRange f.head 4 = (Text.byteLen (f.before ++ f.id.token.text ++ f.between),
      Text.byteLen (f.before ++ f.id.token.text ++ f.between) +
        Text.byteLen f.parent.token.text) := by
  simp [tokenRange, offset, head, before, between, Nat.add_assoc]

/-- The parent is replaced first. -/
theorem replaceRange_parent :
    replaceRange f.text (tokenRange f.head 4) parent =
      .ok (f.named f.id.token.text parent).text := by
  have htext : f.text =
      (f.before ++ f.id.token.text ++ f.between) ++ f.parent.token.text ++ f.behind := by
    rw [text_eq]
    simp only [List.append_assoc]
  rw [htext, tokenRange_parent, replaceRange_append, text_named]
  simp only [List.append_assoc]

/-- The range of the id is not moved by it. -/
theorem replaceRange_id :
    replaceRange (f.named f.id.token.text parent).text (tokenRange f.head 2) id =
      .ok (f.named id parent).text := by
  rw [text_named, text_named, tokenRange_id, replaceRange_append]

/-- The kinds of a header say which tokens it has. -/
theorem kinds_iff : f.head.map (·.token.kind) = headKinds ↔
    f.create.token.kind = .keyword "create".toList ∧
      f.migration.token.kind = .keyword "migration".toList ∧ f.id.token.kind = .ident ∧
      f.onto.token.kind = .keyword "onto".toList ∧ f.parent.token.kind = .ident ∧
      f.opening.token.kind = .openBrace := by
  simp [head, headKinds, headTokens]

theorem kinds_named (h : f.head.map (·.token.kind) = headKinds) :
    (f.named id parent).head.map (·.token.kind) = headKinds := by
  obtain ⟨hcreate, hmigration, -, honto, -, hopening⟩ := (kinds_iff f).mp h
  exact (kinds_iff _).mpr ⟨hcreate, hmigration, rfl, honto, rfl, hopening⟩

theorem isHeader_named (h : IsHeader f.id.token.text f.parent.token.text (f.head.map Lexeme.token)) :
    IsHeader id parent ((f.named id parent).head.map Lexeme.token) := by
  have hkinds := h.kinds
  rw [List.map_map] at hkinds
  obtain ⟨-, -, hid, -, hparent, -⟩ := (kinds_iff f).mp hkinds
  have hhead : header (f.head.map Lexeme.token) =
      some (f.id.token.text, f.parent.token.text, []) := h
  simp only [head, List.map_cons, List.map_nil, header, hid, hparent] at hhead
  split at hhead
  · next hwords =>
    simp only [IsHeader, head, named, List.map_cons, List.map_nil, header]
    rw [if_pos hwords]
  · cases hhead

/-- What stands before the closing brace. -/
theorem slice_body {xs : List Lexeme} {closing last : Lexeme} (hrest : f.rest = xs ++ [closing, last]) :
    Text.slice f.text (offset (f.head ++ f.rest) 6) (offset (f.head ++ f.rest) (6 + xs.length)) =
      some (bodyText closing.gap xs) := by
  rw [text, lexed, hrest, ← List.append_assoc]
  exact slice_textRange rfl

end Headed

/-! ## Parsed texts -/

/-- What a text that is parsed looks like. -/
structure Shape (E : EdgeqlParser) (t : Text) (m : Files.Migration) (f : Headed) : Prop where
  lex : E.lex t = .ok f.lexed
  text : f.text = t
  kinds : f.head.map (·.token.kind) = headKinds
  id : m.id = f.id.token.text
  parentId : m.parentId = f.parent.token.text
  idRange : m.idRange = tokenRange f.head 2
  parentIdRange : m.parentIdRange = tokenRange f.head 4

theorem exists_shape (hE : Lawful E) {t : Text} {m : Files.Migration}
    (h : parseMigration E t = .ok m) : ∃ f, Shape E t m f := by
  obtain ⟨head, xs, closing, last, trail, items, hlex, hhead, -, -, -, -, hid, hparent, -⟩ :=
    parseMigration_eq_ok.mp h
  have hkinds := hhead.kinds
  rw [List.map_map] at hkinds
  obtain ⟨create, migration, id, onto, parent, opening, rfl⟩ :
      ∃ create migration id onto parent opening,
        head = [create, migration, id, onto, parent, opening] := by
    have hlen := length_of_kinds hkinds
    match head, hlen with
    | [create, migration, id, onto, parent, opening], _ =>
        exact ⟨create, migration, id, onto, parent, opening, rfl⟩
  have hnames : header ([create, migration, id, onto, parent, opening].map Lexeme.token) =
      some (m.id, m.parentId, []) := hhead
  simp only [List.map_cons, List.map_nil, header] at hnames
  split at hnames
  · rw [Option.some.injEq, Prod.mk.injEq, Prod.mk.injEq] at hnames
    refine ⟨⟨create, migration, id, onto, parent, opening, xs ++ [closing, last], trail⟩,
      ?_, ?_, hkinds, hnames.1.symm, hnames.2.1.symm, hid, hparent⟩
    · rw [hlex, List.append_assoc]
      rfl
    · have hrender := hE.render hlex
      rw [List.append_assoc] at hrender
      exact hrender
  · cases hnames

namespace Shape

variable {t : Text} {m : Files.Migration} {f : Headed}

theorem lex_text (h : Shape E t m f) : E.lex f.text = .ok f.lexed := by
  rw [h.text]
  exact h.lex

theorem unique (h : Shape E t m f) {f' : Headed} (hlex : E.lex t = .ok f'.lexed) : f' = f := by
  have hlexed := Except.ok.inj (h.lex.symm.trans hlex)
  obtain ⟨hlexemes, htrail⟩ := Lexed.mk.inj hlexed
  obtain ⟨hhead, hrest⟩ := List.append_inj hlexemes rfl
  obtain ⟨create, migration, id, onto, parent, opening, rest, trail⟩ := f
  obtain ⟨create', migration', id', onto', parent', opening', rest', trail'⟩ := f'
  simp only [Headed.head, List.cons.injEq, and_true] at hhead
  obtain ⟨rfl, rfl, rfl, rfl, rfl, rfl⟩ := hhead
  cases hrest
  cases htrail
  rfl

/-- The names are replaced one after the other. -/
theorem replaceParentId_eq (h : Shape E t m f) (parent : Text) :
    m.replaceParentId t parent = .ok (f.named m.id parent).text := by
  rw [Files.Migration.replaceParentId, h.parentIdRange, ← h.text, f.replaceRange_parent, h.id]

theorem replaceId_eq (h : Shape E t m f) (id parent : Text) :
    m.replaceId (f.named m.id parent).text id = .ok (f.named id parent).text := by
  rw [Files.Migration.replaceId, h.idRange, h.id, f.replaceRange_id]

/-- Names that stay leave the text as it is. -/
theorem text_named_self (h : Shape E t m f) : (f.named m.id m.parentId).text = t := by
  rw [f.text_named, h.id, h.parentId, ← f.text_eq, h.text]

/-- What stands behind the header of a text that is parsed. -/
theorem exists_rest (h : Shape E t m f) (hparse : parseMigration E t = .ok m) :
    ∃ xs closing last items, f.rest = xs ++ [closing, last] ∧
      IsHeader m.id m.parentId (f.head.map Lexeme.token) ∧
      closing.token.kind = .closeBrace ∧ last.token.kind = .semicolon ∧
      StatementsOf E.unquote (xs.map Lexeme.token) items ∧
      collectMessage none items = .ok m.message ∧
      m.textRange = (offset (f.head ++ f.rest) 6, offset (f.head ++ f.rest) (6 + xs.length)) := by
  obtain ⟨head, xs, closing, last, trail, items, hlex, hhead, hclosing, hlast, hitems, hmessage, -,
    -, hrange⟩ := parseMigration_eq_ok.mp hparse
  have hkinds := hhead.kinds
  rw [List.map_map] at hkinds
  have hlen : head.length = 6 := length_of_kinds hkinds
  obtain ⟨hlexemes, -⟩ := Lexed.mk.inj (Except.ok.inj (h.lex.symm.trans hlex))
  rw [List.append_assoc] at hlexemes
  obtain ⟨rfl, hrest⟩ := List.append_inj hlexemes hlen.symm
  rw [List.append_assoc, ← hrest] at hrange
  exact ⟨xs, closing, last, items, hrest, hhead, hclosing, hlast, hitems, hmessage, hrange⟩

/-- **The text with other names is parsed under these**, with the body that it had. -/
theorem parse_named (hE : Lawful E) (h : Shape E t m f) (hparse : parseMigration E t = .ok m)
    {id parent : Text} (hnames : f.Renames id parent) (hapart : f.Apart id parent) :
    ∃ m', parseMigration E (f.named id parent).text = .ok m' ∧ m'.id = id ∧
      m'.parentId = parent ∧
      Text.slice (f.named id parent).text m'.textRange.1 m'.textRange.2 =
        Text.slice t m.textRange.1 m.textRange.2 := by
  obtain ⟨xs, closing, last, items, hrest, hhead, hclosing, hlast, hitems, hmessage, hrange⟩ :=
    h.exists_rest hparse
  have hrename := hE.rename h.lex_text h.kinds hnames hapart
  have hlexed : (f.named id parent).lexed =
      ⟨(f.named id parent).head ++ xs ++ [closing, last], f.trail⟩ := by
    rw [List.append_assoc, ← hrest]
    rfl
  rw [hlexed] at hrename
  have hheader : IsHeader id parent ((f.named id parent).head.map Lexeme.token) := by
    refine f.isHeader_named id parent ?_
    rw [← h.id, ← h.parentId]
    exact hhead
  refine ⟨⟨m.message, id, _, parent, _, (offset ((f.named id parent).head ++ f.rest) 6,
    offset ((f.named id parent).head ++ f.rest) (6 + xs.length))⟩, parseMigration_eq_ok.mpr
      ⟨_, xs, closing, last, f.trail, items, hrename, hheader, hclosing, hlast, hitems, hmessage,
        rfl, rfl, ?_⟩, rfl, rfl, ?_⟩
  · rw [List.append_assoc, ← hrest]
  · rw [← h.text, hrange, f.slice_body hrest]
    exact (f.named id parent).slice_body hrest

/-- With a parent of the same length the body stays where it is. -/
theorem slice_named (h : Shape E t m f) (hparse : parseMigration E t = .ok m) {parent : Text}
    (hlen : Text.byteLen parent = Text.byteLen m.parentId) :
    Text.slice (f.named m.id parent).text m.textRange.1 m.textRange.2 =
      Text.slice t m.textRange.1 m.textRange.2 := by
  obtain ⟨xs, closing, last, -, hrest, -, -, -, -, -, hrange⟩ := h.exists_rest hparse
  have hhead : Text.byteLen (render (f.named m.id parent).head) =
      Text.byteLen (render f.head) := by
    simp [Headed.head, Headed.named, hlen, h.id, h.parentId]
  have hoffset : ∀ i, offset ((f.named m.id parent).head ++ f.rest) (6 + i) =
      offset (f.head ++ f.rest) (6 + i) := by
    intro i
    have hmoved := offset_length_add (f.named m.id parent).head f.rest i
    rw [hhead] at hmoved
    exact hmoved.trans (offset_length_add f.head f.rest i).symm
  rw [hrange, ← h.text, f.slice_body hrest, ← hoffset, ← hoffset 0]
  exact (f.named m.id parent).slice_body hrest

/-- With a name that joins a word the text is not parsed. -/
theorem not_parse_named (hE : Lawful E) (h : Shape E t m f) {id parent : Text}
    (hnames : f.Renames id parent) (hjoined : ¬ f.Apart id parent) (m' : Files.Migration) :
    parseMigration E (f.named id parent).text ≠ .ok m' := by
  intro hparse
  obtain ⟨head, xs, closing, last, trail, items, hlex, hhead, -⟩ := parseMigration_eq_ok.mp hparse
  refine hE.joined h.lex_text h.kinds hnames hjoined _ hlex ?_
  have hkinds := hhead.kinds
  rw [List.map_map] at hkinds
  rw [List.append_assoc, List.map_append]
  exact ⟨_, congrArg (· ++ _) hkinds.symm⟩

end Shape

end GelCli.Migrations
