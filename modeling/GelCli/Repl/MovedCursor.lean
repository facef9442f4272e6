import GelCli.Repl.CurrentMoves

/-!
# The statement at a cursor behind other statements

Exactly when `current` finds behind complete statements what it finds without them: the cursor
is not behind a command that is the whole line, in one of the two lines and not in the other,
and no line end is cut in two.
-/

namespace GelCli.Repl.Completion

open GelCli.Foundation GelCli.Repl.Backslash
open Text

variable (edgeql : Edgeql)

/-- What stands at the cursor is the same behind `a`, with its offset moved. -/
def Moves (a b : Text) (c : Nat) : Prop :=
  current edgeql (a ++ b) (byteLen a + c) = (current edgeql b c).map (shift (byteLen a))

/-- The cursor `c` of `b` is not at one of the ends where a statement depends on those in
front. -/
structure Clear (a : Text) (sts : List Statement) (b : Text) (c : Nat) : Prop where
  ends : a ≠ [] → ∀ s, Begins edgeql b (.backslash s) [] → c < byteLen s
  alone : b = [] → ∀ s, sts ≠ [.backslash s]
  seam : Seam sts b → ∃ st behind, Begins edgeql b st behind ∧ byteLen st.text ≤ c

variable {edgeql}

/-! ## What a text begins with -/

theorem append_inj_of_byteLen {a b a' b' : Text} (h : a ++ b = a' ++ b')
    (hlen : byteLen a = byteLen a') : a = a' ∧ b = b' := by
  have hsplit : splitAtByte (a ++ b) (byteLen a) = some (a', b') :=
    splitAtByte_eq_some.mpr ⟨h, hlen.symm⟩
  rw [splitAtByte_append, Option.some.injEq, Prod.mk.injEq] at hsplit
  exact hsplit

/-- A text is cut in one way. -/
theorem Begins.unique {rest behind behind' : Text} {st st' : Statement}
    (h : Begins edgeql rest st behind) (h' : Begins edgeql rest st' behind') :
    st = st' ∧ behind = behind' := by
  have hsplit : st.text ++ behind = st'.text ++ behind' := h.split.symm.trans h'.split
  have hcuts := h.cuts
  have hcuts' := h'.cuts
  cases st with
  | edgeql s =>
      cases st' with
      | backslash s' => exact absurd hcuts'.1 hcuts.1
      | edgeql s' =>
          have hlen := Except.ok.inj (hcuts.2.symm.trans hcuts'.2)
          obtain ⟨rfl, rfl⟩ :=
            append_inj_of_byteLen (show s ++ behind = s' ++ behind' from hsplit) hlen
          exact ⟨rfl, rfl⟩
  | backslash s =>
      cases st' with
      | edgeql s' => exact absurd hcuts.1 hcuts'.1
      | backslash s' =>
          have hlen := Option.some.inj (hcuts.2.symm.trans hcuts'.2)
          obtain ⟨rfl, rfl⟩ :=
            append_inj_of_byteLen (show s ++ behind = s' ++ behind' from hsplit) hlen
          exact ⟨rfl, rfl⟩

/-- The last of the statements, with what is in front of it split off. -/
theorem Splits.init {rest behind : Text} {sts : List Statement} {last : Statement}
    (h : Splits edgeql rest (sts ++ [last]) behind) :
    ∃ mid, Splits edgeql rest sts mid ∧ Begins edgeql mid last behind := by
  induction sts generalizing rest with
  | nil =>
      rw [List.nil_append] at h
      cases h with
      | cons hbegins hsplits =>
          cases hsplits
          exact ⟨rest, .nil rest, hbegins⟩
  | cons st sts ih =>
      rw [List.cons_append] at h
      cases h with
      | cons hbegins hsplits =>
          obtain ⟨mid, hfront, hlast⟩ := ih hsplits
          exact ⟨mid, .cons hbegins hfront, hlast⟩

/-- A command behind a line end is that line end. -/
theorem Begins.newline {rest s behind : Text}
    (h : Begins edgeql ('\n' :: rest) (.backslash s) behind) : s = ['\n'] ∧ behind = rest := by
  have hfirst : firstStatement none ('\n' :: rest) = (s, behind) := h.first
  rw [firstStatement_lineEnd (by rfl), lineEnd, if_neg (by rintro ⟨⟨⟩, -⟩)] at hfirst
  obtain ⟨rfl, rfl⟩ := Prod.mk.inj hfirst
  exact ⟨rfl, rfl⟩

theorem trimStart_newline (rest : Text) : trimStart ('\n' :: rest) = trimStart rest := by
  rw [trimStart, List.dropWhile_cons_of_pos (by decide)]
  rfl

/-- No line end is the whole of a statement of a line. -/
theorem not_begins_newline (h : edgeql.Lawful) {st : Statement} {behind : Text} :
    ¬ Begins edgeql ['\n'] st behind := by
  intro hbegins
  have hcuts := hbegins.cuts
  cases st with
  | backslash s =>
      have hback := hcuts.1
      rw [trimStart_newline] at hback
      cases hback
  | edgeql s =>
      obtain ⟨n, -, hnil⟩ := h.newline _ _ hcuts.2
      obtain ⟨front, rest, hsplit, -⟩ := h.semicolon _ _ hnil
      exact absurd hsplit.symm (List.append_ne_nil_of_right_ne_nil _ (List.cons_ne_nil _ _))

/-- A line end in front of a statement of EdgeQL belongs to it. -/
theorem Begins.behind_newline (h : edgeql.Lawful) {rest s behind : Text}
    (hbegins : Begins edgeql ('\n' :: rest) (.edgeql s) behind) :
    ∃ s', s = '\n' :: s' ∧ Begins edgeql rest (.edgeql s') behind := by
  obtain ⟨hback, hfull⟩ := hbegins.cuts
  obtain ⟨n, hlen, hrest⟩ := h.newline _ _ hfull
  obtain ⟨front, after, hsplit, hn⟩ := h.semicolon _ _ hrest
  have hlines : s ++ behind = ('\n' :: (front ++ [';'])) ++ after := by
    rw [List.cons_append, List.append_assoc]
    exact hbegins.split.symm.trans (congrArg ('\n' :: ·) hsplit)
  have hsize : byteLen ('\n' :: (front ++ [';'])) = byteLen s := by
    rw [hlen, hn, byteLen_cons, byteLen_append]
    show 1 + (byteLen front + 1) = byteLen front + 1 + 1
    omega
  obtain ⟨rfl, rfl⟩ := append_inj_of_byteLen hlines hsize.symm
  refine ⟨front ++ [';'], rfl, ?_, ?_, ?_, ?_, ?_⟩
  · rw [hsplit]
    exact List.append_cons front ';' behind
  · exact List.append_ne_nil_of_right_ne_nil _ (List.cons_ne_nil _ _)
  · rw [← h.empty_newline]
    exact hbegins.notEmpty
  · rw [← trimStart_newline]
    exact hback
  · rw [hrest, hn]
    show _ = Except.ok (byteLen (front ++ [';']))
    rw [byteLen_append]
    rfl

/-! ## Two lines -/

section Lines

variable {a b : Text} {c : Nat} {sts : List Statement}

theorem moves_iff_of_lands (h : edgeql.Lawful) {r r' : Nat × Current}
    (hb : Lands edgeql b c [] b r)
    (hline : Lands edgeql (a ++ b) (byteLen a + c) [] (a ++ b) r') :
    Moves edgeql a b c ↔ r' = shift (byteLen a) r := by
  rw [Moves, (current_eq_some h).mpr hb, (current_eq_some h).mpr hline, Option.map_some,
    Option.some.injEq]

theorem not_moves_of_offset (h : edgeql.Lawful) {r r' : Nat × Current}
    (hb : Lands edgeql b c [] b r)
    (hline : Lands edgeql (a ++ b) (byteLen a + c) [] (a ++ b) r')
    (hoffset : r'.1 ≠ byteLen a + r.1) : ¬ Moves edgeql a b c := by
  rw [moves_iff_of_lands h hb hline]
  rintro rfl
  exact hoffset rfl

/-- The splitter passes the statements in front of the cursor, when no end of theirs depends
on what is behind. -/
theorem Consumed.lands (h : edgeql.Lawful) (hsts : Consumed edgeql a sts)
    (halone : b = [] → ∀ s, sts ≠ [.backslash s]) (hseam : ¬ Seam sts b) {r : Nat × Current}
    (hlands : Lands edgeql (a ++ b) (byteLen a + c) a b r) :
    Lands edgeql (a ++ b) (byteLen a + c) [] (a ++ b) r := by
  have htexts := hsts.texts_eq
  refine (hsts.splits.append h hsts.complete fun _ => hseam).lands ?_ ?_ ?_
  · rw [htexts]
    exact Nat.le_add_right _ _
  · by_cases hb : b = []
    · subst hb
      rintro st hst ⟨s, rfl, hlen⟩
      rw [List.append_nil, ← htexts] at hlen
      exact halone rfl s (eq_singleton_of_byteLen hsts.splits.nonempty hst hlen)
    · refine not_fillsLine ?_
      have hpos := byteLen_pos hb
      rw [htexts, byteLen_append]
      omega
  · rw [htexts]
    exact hlands

/-- A command alone in the line holds also the cursor behind it. -/
theorem not_moves_alone (h : edgeql.Lawful) {s : Text}
    (hsts : Consumed edgeql a [.backslash s]) : ¬ Moves edgeql a [] c := by
  have htext : s = a := by
    have htexts := hsts.texts_eq
    rwa [texts, List.flatMap_singleton] at htexts
  subst htext
  obtain ⟨mid, hsplits, hbegins⟩ := @Splits.init _ _ _ [] _ hsts.splits
  cases hsplits
  obtain ⟨r, hr⟩ := exists_lands h [] c [] []
  have hline : Lands edgeql (s ++ []) (byteLen s + c) [] (s ++ []) (0, .backslash s) := by
    rw [List.append_nil]
    exact .stops hbegins (.inr ⟨s, rfl, rfl⟩)
  refine not_moves_of_offset h hr hline ?_
  have hpos := byteLen_pos hbegins.nonempty
  change 0 < byteLen s at hpos
  show 0 ≠ byteLen s + r.1
  omega

/-- Behind a command that is the whole of `b` the cursor is in it, and behind other statements
it is not. -/
theorem not_moves_ends (h : edgeql.Lawful) {s : Text}
    (hbegins : Begins edgeql b (.backslash s) []) (hc : byteLen s ≤ c)
    (hpass : ∀ r, Lands edgeql (a ++ b) (byteLen a + c) a b r →
      Lands edgeql (a ++ b) (byteLen a + c) [] (a ++ b) r)
    (ha : a ≠ []) : ¬ Moves edgeql a b c := by
  have hb : b = s := by
    rw [hbegins.split]
    exact List.append_nil s
  subst hb
  have hpos := byteLen_pos hbegins.nonempty
  have hposa := byteLen_pos ha
  obtain ⟨r, hr⟩ := exists_lands h (a ++ b) (byteLen a + c) (a ++ b) []
  have hline : Lands edgeql (a ++ b) (byteLen a + c) a b r := by
    refine .goesOn hbegins ?_ hr
    rintro (hlt | ⟨s, heq, hlen⟩)
    · rw [byteLen_append] at hlt
      change byteLen a + c < byteLen a + byteLen b at hlt
      omega
    · cases heq
      rw [byteLen_append] at hlen
      omega
  refine not_moves_of_offset h (.stops hbegins (.inr ⟨b, rfl, rfl⟩)) (hpass r hline) ?_
  have hle := hr.offset_le
  change 0 < byteLen b at hpos
  show r.1 ≠ byteLen a + 0
  rw [byteLen_append] at hle
  omega

/-! ## A line end in two parts -/

/-- The last command `s` of `a` ends in front of the line end that `b` begins with, and takes
it when the two are one line. -/
structure Joins (edgeql : Edgeql) (a b front s rest : Text) : Prop where
  before : a = front ++ s
  behind : b = '\n' :: rest
  nonempty : s ≠ []
  command : Begins edgeql (s ++ '\n' :: rest) (.backslash (s ++ ['\n'])) rest
  lands : ∀ pos r, byteLen front ≤ pos →
    Lands edgeql (a ++ b) pos front (s ++ '\n' :: rest) r → Lands edgeql (a ++ b) pos [] (a ++ b) r

theorem exists_joins (h : edgeql.Lawful) (hsts : Consumed edgeql a sts) (hseam : Seam sts b) :
    ∃ front s rest, Joins edgeql a b front s rest := by
  obtain ⟨⟨s, hlast, hcr⟩, hhead⟩ := hseam
  obtain ⟨rest, rfl⟩ := List.head?_eq_some_iff.mp hhead
  obtain ⟨sts, rfl⟩ := List.getLast?_eq_some_iff.mp hlast
  obtain ⟨mid, hsplits, hbegins⟩ := hsts.splits.init
  have hmid : mid = s := by
    rw [hbegins.split]
    exact List.append_nil s
  subst hmid
  have hends : endsAt none mid = true := hsts.complete _ (List.mem_append_right _ List.mem_cons_self)
  have hcomplete : ∀ st ∈ sts, st.Complete :=
    fun st hst => hsts.complete st (List.mem_append_left _ hst)
  have hline : Splits edgeql (a ++ '\n' :: rest) sts (mid ++ '\n' :: rest) := by
    refine hsplits.append h hcomplete ?_
    intro hnil
    exact absurd hnil hbegins.nonempty
  refine ⟨texts sts, mid, rest, hsplits.split, rfl, hbegins.nonempty, ?_, ?_⟩
  · obtain ⟨hback, -⟩ := hbegins.cuts
    have hne : trimStart mid ≠ [] := by
      intro hnil
      rw [hnil] at hback
      cases hback
    refine begins_backslash ?_ ?_ (firstStatement_seam hends hbegins.first hcr rest)
    · rw [Bool.eq_false_iff]
      intro hempty
      have hfalse := hbegins.notEmpty
      rw [h.empty_prefix _ _ hempty] at hfalse
      cases hfalse
    · rw [trimStart_append_of_ne_nil hne]
      exact hback
  · intro pos r hpos hlands
    refine hline.lands hpos (not_fillsLine ?_) hlands
    rw [hsplits.split, List.append_assoc, byteLen_append (texts sts), byteLen_append mid,
      byteLen_cons]
    have hsize := Char.utf8Size_pos '\n'
    omega

section Joined

variable {front s rest : Text}

theorem Joins.line (hjoins : Joins edgeql a b front s rest) :
    a ++ b = front ++ (s ++ '\n' :: rest) := by
  rw [hjoins.before, hjoins.behind, List.append_assoc]

theorem Joins.byteLen_before (hjoins : Joins edgeql a b front s rest) :
    byteLen a = byteLen front + byteLen s ∧ 0 < byteLen s := by
  refine ⟨?_, byteLen_pos hjoins.nonempty⟩
  rw [hjoins.before, byteLen_append]

/-- The cursor is in front of the line end, or the command and its line end are the line. -/
theorem Joins.stops (hjoins : Joins edgeql a b front s rest)
    (hstop : c = 0 ∨ front = [] ∧ rest = []) :
    Lands edgeql (a ++ b) (byteLen a + c) [] (a ++ b)
      (byteLen front, .backslash (s ++ ['\n'])) := by
  obtain ⟨hlen, -⟩ := hjoins.byteLen_before
  refine hjoins.lands _ _ (by omega) (.stops hjoins.command ?_)
  rcases hstop with rfl | ⟨rfl, rfl⟩
  · left
    show byteLen a + 0 < byteLen (front ++ (s ++ ['\n']))
    rw [byteLen_append, byteLen_append, byteLen_cons]
    have hsize := Char.utf8Size_pos '\n'
    omega
  · right
    exact ⟨_, rfl, congrArg byteLen hjoins.line.symm⟩

/-- Elsewhere the loop goes on behind the line end. -/
theorem Joins.goesOn (hjoins : Joins edgeql a b front s rest) (hc : c ≠ 0)
    (hfills : ¬ (front = [] ∧ rest = [])) {r : Nat × Current}
    (hlands : Lands edgeql (a ++ b) (byteLen a + c) (a ++ ['\n']) rest r) :
    Lands edgeql (a ++ b) (byteLen a + c) [] (a ++ b) r := by
  obtain ⟨hlen, -⟩ := hjoins.byteLen_before
  have hsize : byteLen (s ++ ['\n']) = byteLen s + 1 := by
    rw [byteLen_append]
    rfl
  refine hjoins.lands _ _ (by omega) (.goesOn hjoins.command ?_ ?_)
  · rintro (hlt | ⟨s', heq, hall⟩)
    · rw [byteLen_append] at hlt
      change _ < byteLen front + byteLen (s ++ ['\n']) at hlt
      omega
    · cases heq
      rw [hjoins.line, byteLen_append front, byteLen_append s ('\n' :: rest), byteLen_cons,
        hsize] at hall
      change _ = byteLen front + (byteLen s + (1 + byteLen rest)) at hall
      exact hfills ⟨byteLen_eq_zero.mp (by omega), byteLen_eq_zero.mp (by omega)⟩
  · have hbefore : front ++ (s ++ ['\n']) = a ++ ['\n'] := by
      rw [hjoins.before, List.append_assoc]
    show Lands edgeql _ _ (front ++ (s ++ ['\n'])) rest r
    rw [hbefore]
    exact hlands

/-- A statement that begins with the line end and is passed leads to the same place. -/
theorem Joins.moves (h : edgeql.Lawful) (hjoins : Joins edgeql a b front s rest) (hc : c ≠ 0)
    (hfills : ¬ (front = [] ∧ rest = [])) {st : Statement} {behind : Text}
    (hbegins : Begins edgeql b st behind) (hle : byteLen st.text ≤ c) : Moves edgeql a b c := by
  have ha : a ≠ [] := by
    rw [hjoins.before]
    exact List.append_ne_nil_of_right_ne_nil _ hjoins.nonempty
  obtain ⟨r, hr⟩ := exists_lands h b c st.text behind
  have hshift : Lands edgeql (a ++ b) (byteLen a + c) (a ++ st.text) behind
      (shift (byteLen a) r) :=
    hr.shift ha hbegins.split fun hnil => absurd hnil hbegins.nonempty
  have hstops : ¬ Stops b c [] st := by
    rintro (hlt | ⟨s', rfl, hall⟩)
    · rw [List.nil_append] at hlt
      omega
    · rw [hjoins.behind] at hbegins hall
      obtain ⟨rfl, -⟩ := hbegins.newline
      obtain rfl : rest = [] := by
        rw [byteLen_cons] at hall
        change 1 + 0 = 1 + byteLen rest at hall
        exact byteLen_eq_zero.mp (by omega)
      exact not_begins_newline h hbegins
  refine (moves_iff_of_lands h (.goesOn hbegins hstops hr)
    (hjoins.goesOn hc hfills ?_)).mpr rfl
  rw [hjoins.behind] at hbegins
  cases st with
  | backslash s' =>
      obtain ⟨rfl, rfl⟩ := hbegins.newline
      exact hshift
  | edgeql s' =>
      obtain ⟨s', rfl, hrest⟩ := hbegins.behind_newline h
      have hsplit : a ++ ['\n'] ++ s' = a ++ '\n' :: s' := by
        rw [List.append_assoc]
        rfl
      refine .goesOn hrest ?_ ?_
      · rintro (hlt | ⟨s'', heq, -⟩)
        · change _ < byteLen (a ++ ['\n'] ++ s') at hlt
          change byteLen ('\n' :: s') ≤ c at hle
          rw [hsplit, byteLen_append] at hlt
          omega
        · cases heq
      · show Lands edgeql _ _ (a ++ ['\n'] ++ s') behind _
        rw [hsplit]
        exact hshift

theorem Joins.moves_iff (h : edgeql.Lawful) (hjoins : Joins edgeql a b front s rest) :
    Moves edgeql a b c ↔ ∃ st behind, Begins edgeql b st behind ∧ byteLen st.text ≤ c := by
  obtain ⟨hlen, hpos⟩ := hjoins.byteLen_before
  obtain ⟨r, hr⟩ := exists_lands h b c [] b
  by_cases hstop : c = 0 ∨ front = [] ∧ rest = []
  · refine iff_of_false (not_moves_of_offset h hr (hjoins.stops hstop) ?_) ?_
    · show byteLen front ≠ byteLen a + r.1
      omega
    · rintro ⟨st, behind, hbegins, hle⟩
      rcases hstop with rfl | ⟨-, rfl⟩
      · have hne := byteLen_pos hbegins.nonempty
        omega
      · rw [hjoins.behind] at hbegins
        exact not_begins_newline h hbegins
  · obtain ⟨hc, hfills⟩ := not_or.mp hstop
    constructor
    · intro hmoves
      obtain ⟨r', hr'⟩ := exists_lands h (a ++ b) (byteLen a + c) (a ++ ['\n']) rest
      -- the loop is past the line end, so in `b` it has passed a statement
      have hoffset : r.1 ≠ 0 := by
        intro hzero
        refine not_moves_of_offset h hr (hjoins.goesOn hc hfills hr') ?_ hmoves
        have hle := hr'.offset_le
        rw [byteLen_append] at hle
        change byteLen a + 1 ≤ r'.1 at hle
        omega
      cases hr with
      | empty | unfinished | stops => exact absurd rfl hoffset
      | @goesOn _ _ behind st _ hbegins hstops =>
          exact ⟨st, behind, hbegins, Nat.le_of_not_lt (not_or.mp hstops).1⟩
    · rintro ⟨st, behind, hbegins, hle⟩
      exact hjoins.moves h hc hfills hbegins hle

end Joined

/-- **Exactly when `current` does not depend on the statements in front.** -/
theorem moves_iff (h : edgeql.Lawful) (hsts : Consumed edgeql a sts) :
    Moves edgeql a b c ↔ Clear edgeql a sts b c := by
  by_cases ha : a = []
  · subst ha
    obtain rfl : sts = [] := hsts.splits.eq_nil
    refine iff_of_true ?_ ⟨fun hne => absurd rfl hne, fun _ s => List.cons_ne_nil _ _ ∘ Eq.symm, ?_⟩
    · have hid : ∀ r : Nat × Current, shift (byteLen []) r = r := by
        rintro ⟨offset, cur⟩
        exact congrArg (·, cur) (Nat.zero_add offset)
      rw [Moves, List.nil_append, funext hid, Option.map_id']
      exact congrArg (current edgeql b) (Nat.zero_add c)
    · rintro ⟨⟨s, hlast, -⟩, -⟩
      cases hlast
  by_cases hseam : Seam sts b
  · obtain ⟨front, s, rest, hjoins⟩ := exists_joins h hsts hseam
    rw [hjoins.moves_iff h]
    refine ⟨fun hpassed => ⟨fun _ s hbegins => ?_, fun hb => ?_, fun _ => hpassed⟩,
      fun hclear => hclear.seam hseam⟩
    · rw [hjoins.behind] at hbegins
      obtain ⟨rfl, hnil⟩ := hbegins.newline
      subst hnil
      exact absurd hbegins (not_begins_newline h)
    · rw [hjoins.behind] at hb
      cases hb
  · constructor
    · intro hmoves
      have halone : b = [] → ∀ s, sts ≠ [.backslash s] := by
        rintro rfl s rfl
        exact not_moves_alone h hsts hmoves
      refine ⟨fun _ s hbegins => Nat.lt_of_not_le fun hc => ?_, halone,
        fun hseam' => absurd hseam' hseam⟩
      exact not_moves_ends h hbegins hc (fun r => hsts.lands h halone hseam) ha hmoves
    · intro hclear
      obtain ⟨r, hr⟩ := exists_lands h b c [] b
      have hshift := hr.shift ha rfl fun _ => hclear.ends ha
      rw [List.append_nil] at hshift
      exact (moves_iff_of_lands h hr (hsts.lands h hclear.alone hseam hshift)).mpr rfl

end Lines

end GelCli.Repl.Completion
