import GelCli.Migrations.Grammar

/-!
# What the grammar accepts

A statement is read from the front of the tokens, whatever follows it; the body of a
migration is statements up to the brace that closes it. The ranges of what was parsed
cut the id, the parent and the body out of the text.
-/

namespace GelCli.Migrations

open GelCli.Foundation

variable {unquote : Text → Except Text Text}

/-! ## Single statements -/

theorem anyStatement_eq_some {depth : Nat} {ts rest : List Token} :
    anyStatement depth ts = some rest ↔
      ∃ read, ts = read ++ rest ∧ anyStatement depth read = some [] := by
  induction ts generalizing depth with
  | nil =>
      refine iff_of_false (fun h => by cases h) ?_
      rintro ⟨read, heq, h⟩
      rw [(List.nil_eq_append_iff.mp heq).1] at h
      cases h
  | cons x xs ih =>
      -- the statement ends with this token, or it is that of the tokens behind it
      have hgo : ∀ {d : Nat}, (∀ ys, anyStatement depth (x :: ys) = anyStatement d ys) →
          (anyStatement depth (x :: xs) = some rest ↔
            ∃ read, x :: xs = read ++ rest ∧ anyStatement depth read = some []) := by
        intro d hd
        rw [hd, ih]
        constructor
        · rintro ⟨read, rfl, h⟩
          exact ⟨x :: read, rfl, (hd read).trans h⟩
        · rintro ⟨read, heq, h⟩
          cases read with
          | nil => cases h
          | cons y read =>
              obtain ⟨rfl, rfl⟩ := List.cons.inj heq
              exact ⟨read, rfl, (hd read).symm.trans h⟩
      cases hkind : x.kind with
      | openBrace => exact hgo fun ys => by rw [anyStatement, hkind]
      | closeBrace =>
          by_cases hdepth : depth = 0
          · refine iff_of_false (by simp [anyStatement, hkind, hdepth]) ?_
            rintro ⟨read, heq, h⟩
            cases read with
            | nil => cases h
            | cons y read =>
                obtain ⟨rfl, rfl⟩ := List.cons.inj heq
                simp [anyStatement, hkind, hdepth] at h
          · exact hgo fun ys => by rw [anyStatement, hkind]; exact if_neg hdepth
      | semicolon =>
          by_cases hdepth : depth = 0
          · have hend : ∀ ys, anyStatement depth (x :: ys) = some ys := by
              intro ys
              rw [anyStatement, hkind]
              exact if_pos hdepth
            rw [hend]
            constructor
            · intro h
              obtain rfl := Option.some.inj h
              exact ⟨[x], rfl, hend []⟩
            · rintro ⟨read, heq, h⟩
              cases read with
              | nil => cases h
              | cons y read =>
                  obtain ⟨rfl, rfl⟩ := List.cons.inj heq
                  rw [hend] at h
                  rw [Option.some.inj h]
                  rfl
          · exact hgo fun ys => by rw [anyStatement, hkind]; exact if_neg hdepth
      | keyword value => exact hgo fun ys => by rw [anyStatement, hkind]
      | ident => exact hgo fun ys => by rw [anyStatement, hkind]
      | assign => exact hgo fun ys => by rw [anyStatement, hkind]
      | str => exact hgo fun ys => by rw [anyStatement, hkind]
      | other tag => exact hgo fun ys => by rw [anyStatement, hkind]

/-- A reader of tokens goes by the tokens it reads. -/
def ReadsPrefix (read : List Token → Except ParseError (Statement × List Token)) : Prop :=
  ∀ ts item rest, read ts = .ok (item, rest) ↔ ∃ front, ts = front ++ rest ∧ read front = .ok (item, [])

theorem ignoredStatement_readsPrefix : ReadsPrefix ignoredStatement := by
  intro ts item rest
  have hok : ∀ us r, ignoredStatement us = .ok (item, r) ↔
      item = .ignored ∧ anyStatement 0 us = some r := by
    intro us r
    rw [ignoredStatement]
    cases anyStatement 0 us <;> simp [eq_comm]
  simp only [hok]
  rw [anyStatement_eq_some]
  constructor
  · rintro ⟨hitem, front, heq, h⟩
    exact ⟨front, heq, hitem, h⟩
  · rintro ⟨front, heq, hitem, h⟩
    exact ⟨hitem, front, heq, h⟩

theorem messageStatement_eq_ok {ts rest : List Token} {item : Statement} :
    messageStatement unquote ts = .ok (item, rest) ↔
      ∃ assign token semicolon text, ts = [assign, token, semicolon] ++ rest ∧
        assign.kind = .assign ∧ token.kind = .str ∧ semicolon.kind = .semicolon ∧
        unquote token.text = .ok text ∧ item = .setMessage text := by
  constructor
  · intro h
    unfold messageStatement at h
    split at h
    · next assign token semicolon rest' =>
      split at h
      · next hkinds =>
        split at h
        · next text htext =>
          cases h
          exact ⟨assign, token, semicolon, text, rfl, hkinds.1, hkinds.2.1, hkinds.2.2, htext, rfl⟩
        · cases h
      · cases h
    · cases h
  · rintro ⟨assign, token, semicolon, text, rfl, hassign, hstr, hsemicolon, htext, rfl⟩
    simp [messageStatement, hassign, hstr, hsemicolon, htext]

theorem messageStatement_readsPrefix : ReadsPrefix (messageStatement unquote) := by
  intro ts item rest
  rw [messageStatement_eq_ok]
  constructor
  · rintro ⟨assign, token, semicolon, text, rfl, h⟩
    exact ⟨[assign, token, semicolon], rfl,
      messageStatement_eq_ok.mpr ⟨assign, token, semicolon, text, rfl, h⟩⟩
  · rintro ⟨front, rfl, hfront⟩
    obtain ⟨assign, token, semicolon, text, rfl, h⟩ := messageStatement_eq_ok.mp hfront
    exact ⟨assign, token, semicolon, text, rfl, h⟩

/-- The first token decides how to go on, with all tokens or with those behind it. -/
theorem ReadsPrefix.cons {read whole next : List Token → Except ParseError (Statement × List Token)}
    {test : Token → Bool} (hnil : ∀ out, read [] ≠ .ok out) (hwholeNil : ∀ out, whole [] ≠ .ok out)
    (hread : ∀ x xs, read (x :: xs) = if test x then next xs else whole (x :: xs))
    (hnext : ReadsPrefix next) (hwhole : ReadsPrefix whole) : ReadsPrefix read := by
  intro ts item rest
  cases ts with
  | nil =>
      refine iff_of_false (hnil _) ?_
      rintro ⟨front, heq, h⟩
      rw [(List.nil_eq_append_iff.mp heq).1] at h
      exact hnil _ h
  | cons x xs =>
      by_cases htest : test x
      · rw [hread, if_pos htest, hnext]
        constructor
        · rintro ⟨front, rfl, h⟩
          exact ⟨x :: front, rfl, by rw [hread, if_pos htest, h]⟩
        · rintro ⟨front, heq, h⟩
          cases front with
          | nil => exact absurd h (hnil _)
          | cons y front =>
              obtain ⟨rfl, rfl⟩ := List.cons.inj heq
              rw [hread, if_pos htest] at h
              exact ⟨front, rfl, h⟩
      · rw [hread, if_neg htest, hwhole]
        constructor
        · rintro ⟨front, heq, h⟩
          cases front with
          | nil => exact absurd h (hwholeNil _)
          | cons y front =>
              obtain ⟨rfl, rfl⟩ := List.cons.inj heq
              exact ⟨x :: front, rfl, by rw [hread, if_neg htest, h]⟩
        · rintro ⟨front, heq, h⟩
          cases front with
          | nil => exact absurd h (hnil _)
          | cons y front =>
              obtain ⟨rfl, rfl⟩ := List.cons.inj heq
              rw [hread, if_neg htest] at h
              exact ⟨x :: front, rfl, h⟩

theorem statement_readsPrefix : ReadsPrefix (statement unquote) := by
  have hignored : ∀ out, ignoredStatement [] ≠ .ok out := fun _ h => by cases h
  have hset : ReadsPrefix (setStatement unquote) :=
    .cons (fun _ h => by cases h) hignored (fun _ _ => rfl) messageStatement_readsPrefix
      ignoredStatement_readsPrefix
  exact .cons (fun _ h => by cases h) hignored (fun _ _ => rfl) hset ignoredStatement_readsPrefix

/-- No statement begins with the brace that closes the body. -/
theorem statement_closeBrace {x : Token} {xs : List Token} (h : x.kind = .closeBrace)
    (out : Statement × List Token) : statement unquote (x :: xs) ≠ .ok out := by
  have hset : x.kw "set" = false := by simp [Token.kw, h]
  rw [statement, hset, if_neg Bool.false_ne_true, ignoredStatement, anyStatement, h]
  intro heq
  cases heq

/-! ## Bodies -/

/-- The tokens are statements from the first to the last. -/
inductive StatementsOf (unquote : Text → Except Text Text) : List Token → List Statement → Prop where
  | nil : StatementsOf unquote [] []
  | cons {front ts : List Token} {item : Statement} {items : List Statement} :
      statement unquote front = .ok (item, []) → StatementsOf unquote ts items →
        StatementsOf unquote (front ++ ts) (item :: items)

theorem statementsOf_iff {ts : List Token} {items : List Statement} :
    StatementsOf unquote ts items ↔
      (ts = [] ∧ items = []) ∨ ∃ front rest item items', ts = front ++ rest ∧
        items = item :: items' ∧ statement unquote front = .ok (item, []) ∧
        StatementsOf unquote rest items' := by
  constructor
  · intro h
    cases h with
    | nil => exact .inl ⟨rfl, rfl⟩
    | cons hfront hrest => exact .inr ⟨_, _, _, _, rfl, rfl, hfront, hrest⟩
  · rintro (⟨rfl, rfl⟩ | ⟨front, rest, item, items', rfl, rfl, hfront, hrest⟩)
    · exact .nil
    · exact .cons hfront hrest

theorem StatementsOf.eq_nil {items : List Statement} (h : StatementsOf unquote [] items) :
    items = [] := by
  rcases statementsOf_iff.mp h with ⟨-, rfl⟩ | ⟨front, rest, item, items', heq, -, hfront, -⟩
  · rfl
  · rw [(List.nil_eq_append_iff.mp heq).1] at hfront
    cases hfront

/-- **What `many` reads**: the statements up to the end or to a brace that closes. -/
theorem manyStatements_eq_ok {fuel : Nat} {ts rest : List Token} {items : List Statement}
    (hfuel : ts.length ≤ fuel) :
    manyStatements unquote fuel ts = .ok (items, rest) ↔
      ∃ body, ts = body ++ rest ∧ StatementsOf unquote body items ∧
        (rest = [] ∨ rest.head?.map Token.kind = some .closeBrace) := by
  induction fuel generalizing ts items with
  | zero =>
      obtain rfl := List.length_eq_zero_iff.mp (Nat.le_zero.mp hfuel)
      rw [manyStatements]
      constructor
      · intro h
        cases h
        exact ⟨[], rfl, .nil, .inl rfl⟩
      · rintro ⟨body, heq, hbody, -⟩
        obtain ⟨rfl, rfl⟩ := List.nil_eq_append_iff.mp heq
        rw [hbody.eq_nil]
  | succ fuel ih =>
      rw [manyStatements]
      split
      · next hstop =>
        constructor
        · intro h
          cases h
          exact ⟨[], rfl, .nil, hstop⟩
        · rintro ⟨body, rfl, hbody, -⟩
          -- a statement neither is empty nor begins with the brace
          rcases statementsOf_iff.mp hbody with
            ⟨rfl, rfl⟩ | ⟨front, rest', item, items', rfl, rfl, hfront, -⟩
          · rfl
          · cases front with
            | nil => cases hfront
            | cons x front =>
                rcases hstop with hstop | hstop
                · cases hstop
                · exact absurd hfront (statement_closeBrace (Option.some.inj hstop) _)
      · next hgo =>
        constructor
        · intro h
          split at h
          · cases h
          · next item left hstatement =>
            split at h
            · cases h
            · next items' rest' hmany =>
              cases h
              obtain ⟨front, rfl, hfront⟩ := (statement_readsPrefix _ _ _).mp hstatement
              have hlen : left.length ≤ fuel := by
                cases front with
                | nil => cases hfront
                | cons x front =>
                    simp only [List.cons_append, List.length_cons, List.length_append] at hfuel
                    omega
              obtain ⟨body, rfl, hbody, hrest⟩ := (ih hlen).mp hmany
              exact ⟨front ++ body, by rw [List.append_assoc], .cons hfront hbody, hrest⟩
        · rintro ⟨body, rfl, hbody, hrest⟩
          rcases statementsOf_iff.mp hbody with
            ⟨rfl, rfl⟩ | ⟨front, body, item, items', rfl, rfl, hfront, hbody⟩
          · exact absurd hrest hgo
          · have hstatement : statement unquote (front ++ body ++ rest) = .ok (item, body ++ rest) :=
              (statement_readsPrefix _ _ _).mpr ⟨front, List.append_assoc .., hfront⟩
            have hlen : (body ++ rest).length ≤ fuel := by
              cases front with
              | nil => cases hfront
              | cons x front =>
                  simp only [List.cons_append, List.length_cons, List.length_append] at hfuel ⊢
                  omega
            have hmany := (ih hlen).mpr ⟨body, rfl, hbody, hrest⟩
            rw [hstatement]
            simp only [hmany]

/-! ## Whole files -/

theorem closes_iff {rest : List Token} :
    closes rest ↔ ∃ closing last, rest = [closing, last] ∧ closing.kind = .closeBrace ∧
      last.kind = .semicolon := by
  constructor
  · intro h
    unfold closes at h
    split at h
    · next closing last =>
      rw [Bool.and_eq_true, decide_eq_true_eq, decide_eq_true_eq] at h
      exact ⟨closing, last, rfl, h⟩
    · cases h
  · rintro ⟨closing, last, rfl, hclosing, hlast⟩
    simp [closes, hclosing, hlast]

/-- The six tokens before the body. -/
def IsHeader (id parentId : Text) (head : List Token) : Prop :=
  header head = some (id, parentId, [])

theorem header_eq_some {ts body : List Token} {id parentId : Text} :
    header ts = some (id, parentId, body) ↔ ∃ head, ts = head ++ body ∧ IsHeader id parentId head := by
  constructor
  · intro h
    unfold header at h
    split at h
    · next create migration idToken onto parent opening body' =>
      split at h
      · next hkinds =>
        cases h
        refine ⟨[create, migration, idToken, onto, parent, opening], rfl, ?_⟩
        rw [IsHeader, header, if_pos hkinds]
      · cases h
    · cases h
  · rintro ⟨head, rfl, hhead⟩
    rw [IsHeader] at hhead
    unfold header at hhead
    split at hhead
    · next create migration idToken onto parent opening body' =>
      split at hhead
      · next hkinds =>
        cases hhead
        show header (create :: migration :: idToken :: onto :: parent :: opening :: body) = _
        rw [header, if_pos hkinds]
      · cases hhead
    · cases hhead

theorem IsHeader.kinds {id parentId : Text} {head : List Token} (h : IsHeader id parentId head) :
    head.map Token.kind = headKinds := by
  rw [IsHeader] at h
  unfold header at h
  split at h
  · next create migration idToken onto parent opening body =>
    split at h
    · next hkinds =>
      cases h
      obtain ⟨hcreate, hmigration, hid, honto, hparent, hopening⟩ := hkinds
      have hkw : ∀ {value : String} {x : Token}, x.kw value → x.kind = .keyword value.toList := by
        intro value x hx
        rw [Token.kw, Bool.and_eq_true, decide_eq_true_eq] at hx
        exact hx.1
      simp only [List.map_cons, List.map_nil, hkw hcreate, hkw hmigration, hid, hkw honto, hparent,
        hopening]
      rfl
    · cases h
  · cases h

theorem isHeader_headTokens (id parentId : Text) : IsHeader id parentId (headTokens id parentId) :=
  rfl

theorem offset_append {xs : List Lexeme} {i : Nat} (h : i < xs.length) (ys : List Lexeme) :
    offset (xs ++ ys) i = offset xs i := by
  rw [offset, offset, List.take_append_of_le_length (Nat.le_of_lt h), List.getElem?_append_left h]

theorem tokenRange_append {xs : List Lexeme} {i : Nat} (h : i < xs.length) (ys : List Lexeme) :
    tokenRange (xs ++ ys) i = tokenRange xs i := by
  rw [tokenRange, tokenRange, offset_append h, List.getElem?_append_left h]

theorem length_of_kinds {head : List Lexeme} (h : head.map (·.token.kind) = headKinds) :
    head.length = 6 := by
  have hlen := congrArg List.length h
  rwa [List.length_map] at hlen

/-- **Which texts are parsed**: a header, statements with one message at most, and the
end. -/
theorem parseMigration_eq_ok {E : EdgeqlParser} {data : Text} {m : Files.Migration} :
    parseMigration E data = .ok m ↔
      ∃ head xs closing last trail items,
        E.lex data = .ok ⟨head ++ xs ++ [closing, last], trail⟩ ∧
        IsHeader m.id m.parentId (head.map Lexeme.token) ∧
        closing.token.kind = .closeBrace ∧ last.token.kind = .semicolon ∧
        StatementsOf E.unquote (xs.map Lexeme.token) items ∧
        collectMessage none items = .ok m.message ∧
        m.idRange = tokenRange head 2 ∧ m.parentIdRange = tokenRange head 4 ∧
        m.textRange = (offset (head ++ xs ++ [closing, last]) 6,
          offset (head ++ xs ++ [closing, last]) (6 + xs.length)) := by
  constructor
  · intro h
    unfold parseMigration at h
    split at h
    · cases h
    · next l hlex =>
      split at h
      · cases h
      · next id parentId body hheader =>
        split at h
        · cases h
        · next items rest hmany =>
          split at h
          · next hcloses =>
            split at h
            · cases h
            · next message hmessage =>
              cases h
              obtain ⟨headTs, htokens, hhead⟩ := header_eq_some.mp hheader
              obtain ⟨bodyTs, rfl, hbody, -⟩ := (manyStatements_eq_ok (Nat.le_refl _)).mp hmany
              obtain ⟨closing, last, rfl, hclosing, hlast⟩ := closes_iff.mp hcloses
              -- the lexemes fall into the same parts as their tokens
              obtain ⟨head, after, hlexemes, rfl, hafter⟩ := List.map_eq_append_iff.mp htokens
              obtain ⟨xs, ends, rfl, rfl, hends⟩ := List.map_eq_append_iff.mp hafter
              obtain ⟨closingX, ends, rfl, rfl, hlastX⟩ := List.map_eq_cons_iff.mp hends
              obtain ⟨lastX, ends, rfl, rfl, hnil⟩ := List.map_eq_cons_iff.mp hlastX
              obtain rfl := List.map_eq_nil_iff.mp hnil
              have hkinds := hhead.kinds
              rw [List.map_map] at hkinds
              have hlen : head.length = 6 := length_of_kinds hkinds
              have hsplit : l.lexemes = head ++ xs ++ [closingX, lastX] := by
                rw [hlexemes, List.append_assoc]
              refine ⟨head, xs, closingX, lastX, l.trail, items, ?_, hhead, hclosing, hlast, hbody,
                hmessage, ?_, ?_, ?_⟩
              · rw [hlex, ← hsplit]
              · show tokenRange l.lexemes 2 = _
                rw [hlexemes, tokenRange_append (by omega)]
              · show tokenRange l.lexemes 4 = _
                rw [hlexemes, tokenRange_append (by omega)]
              · show (offset l.lexemes 6, offset l.lexemes (l.lexemes.length - 2)) = _
                have hend : l.lexemes.length - 2 = 6 + xs.length := by
                  rw [hsplit, List.length_append, List.length_append, hlen]
                  rfl
                rw [hend, hsplit]
          · cases h
  · rintro ⟨head, xs, closing, last, trail, items, hlex, hhead, hclosing, hlast, hbody, hmessage,
      hid, hparent, htext⟩
    have hkinds := hhead.kinds
    rw [List.map_map] at hkinds
    have hlen : head.length = 6 := length_of_kinds hkinds
    have htokens : (⟨head ++ xs ++ [closing, last], trail⟩ : Lexed).tokens =
        head.map Lexeme.token ++ (xs.map Lexeme.token ++ [closing.token, last.token]) := by
      rw [Lexed.tokens, List.map_append, List.map_append, List.append_assoc]
      rfl
    have hcloses : closes [closing.token, last.token] :=
      closes_iff.mpr ⟨_, _, rfl, hclosing, hlast⟩
    have hmany : manyStatements E.unquote (xs.map Lexeme.token ++ [closing.token, last.token]).length
        (xs.map Lexeme.token ++ [closing.token, last.token]) =
          .ok (items, [closing.token, last.token]) :=
      (manyStatements_eq_ok (Nat.le_refl _)).mpr ⟨_, rfl, hbody, .inr (congrArg some hclosing)⟩
    have hlength : (head ++ xs ++ [closing, last]).length - 2 = 6 + xs.length := by
      rw [List.length_append, List.length_append, hlen]
      rfl
    unfold parseMigration
    simp only [hlex, htokens, header_eq_some.mpr ⟨_, rfl, hhead⟩, hmany, hcloses, if_true, hmessage,
      hlength]
    rw [List.append_assoc, tokenRange_append (by omega), tokenRange_append (by omega),
      ← List.append_assoc, ← hid, ← hparent, ← htext]

/-! ## The ranges -/

/-- The offset of the token that stands behind others. -/
theorem offset_length (xs : List Lexeme) (x : Lexeme) (ys : List Lexeme) :
    offset (xs ++ x :: ys) xs.length = Text.byteLen (render xs ++ x.gap) := by
  rw [offset, List.take_left, List.getElem?_append_right (Nat.le_refl _), Nat.sub_self,
    Text.byteLen_append]
  rfl

/-- The range of the body cuts out its tokens with what stands between them and before
the brace. -/
theorem slice_textRange {head xs : List Lexeme} {closing last : Lexeme} {trail : Text}
    (hlen : head.length = 6) :
    Text.slice (⟨head ++ xs ++ [closing, last], trail⟩ : Lexed).render
        (offset (head ++ xs ++ [closing, last]) 6)
        (offset (head ++ xs ++ [closing, last]) (6 + xs.length)) =
      some (bodyText closing.gap xs) := by
  have hstop : offset (head ++ xs ++ [closing, last]) (6 + xs.length) =
      Text.byteLen (render (head ++ xs) ++ closing.gap) := by
    rw [← hlen, ← List.length_append, offset_length]
  rw [hstop, Text.slice_eq_some]
  cases xs with
  | nil =>
      rw [List.append_nil, ← hlen, offset_length]
      exact ⟨render head ++ closing.gap, closing.token.text ++ render [last] ++ trail,
        by simp [Lexed.render, render_append, bodyText], rfl, rfl⟩
  | cons x xs =>
      have hstart : offset (head ++ x :: xs ++ [closing, last]) 6 =
          Text.byteLen (render head ++ x.gap) := by
        rw [← hlen, List.append_assoc, List.cons_append, offset_length]
      rw [hstart]
      refine ⟨render head ++ x.gap, closing.token.text ++ render [last] ++ trail, ?_, rfl, ?_⟩
      · simp [Lexed.render, render_append, bodyText]
      · simp only [bodyText, render_append, render_cons, Text.byteLen_append]
        omega

end GelCli.Migrations
