import GelCli.Repl.ReadStatement
import GelCli.Repl.Splitting

/-!
# The statement at the cursor

`current` of `completion.rs`: a line is split into statements from its start, up to the one
that the cursor is in. A position counts from the start of the line, the length of a
statement does not.
-/

namespace GelCli.Repl.Completion

open GelCli.Foundation GelCli.Repl.Backslash
open Text

/-! ## The loop -/

/-- The preparser of EdgeQL: its cut, and which texts have nothing but blanks in them. -/
structure Edgeql where
  preparser : Preparser
  isEmpty : Text → Bool

inductive Current where
  | edgeql (text : Text) (complete : Bool)
  | backslash (text : Text)
  | empty
  deriving DecidableEq

variable (edgeql : Edgeql)

/-- The loop of `current` in at most `fuel` turns. -/
def currentFrom (data : Text) (pos : Nat) : Nat → Nat → Option (Nat × Current)
  | 0, _ => none
  | fuel + 1, offset => do
      let (_, rest) ← splitAtByte data offset
      if edgeql.isEmpty rest then return (offset, .empty)
      else if (trimStart rest).head? = some '\\' then
        let bytes ← fullStatement rest
        if offset + bytes > pos ∨ bytes = byteLen data then
          let (text, _) ← splitAtByte rest bytes
          return (offset, .backslash text)
        else currentFrom data pos fuel (offset + bytes)
      else
        match edgeql.preparser.fullStatement (utf8 rest) none with
        | .ok bytes =>
            if offset + bytes > pos then do
              let (text, _) ← splitAtByte rest bytes
              return (offset, .edgeql text true)
            else currentFrom data pos fuel (offset + bytes)
        | .error _ => return (offset, .edgeql rest false)

def current (data : Text) (pos : Nat) : Option (Nat × Current) :=
  currentFrom edgeql data pos (data.length + 1) 0

/-! ## Statements of a line -/

/-- A statement ends behind a semicolon and does not depend on what follows it, and blanks in
front of a text are not looked at. -/
structure Edgeql.Lawful : Prop where
  semicolon : ∀ data len, edgeql.preparser.fullStatement (utf8 data) none = .ok len →
    ∃ front rest, data = front ++ ';' :: rest ∧ len = byteLen front + 1
  stable : ∀ data more len, edgeql.preparser.fullStatement (utf8 data) none = .ok len →
    edgeql.preparser.fullStatement (utf8 (data ++ more)) none = .ok len
  newline : ∀ data len, edgeql.preparser.fullStatement (utf8 ('\n' :: data)) none = .ok len →
    ∃ n, len = n + 1 ∧ edgeql.preparser.fullStatement (utf8 data) none = .ok n
  empty_prefix : ∀ data more, edgeql.isEmpty (data ++ more) = true → edgeql.isEmpty data = true
  empty_newline : ∀ data, edgeql.isEmpty ('\n' :: data) = edgeql.isEmpty data

inductive Statement where
  | edgeql (text : Text)
  | backslash (text : Text)

namespace Statement

def text : Statement → Text
  | .edgeql text => text
  | .backslash text => text

def current : Statement → Current
  | .edgeql text => .edgeql text true
  | .backslash text => .backslash text

/-- A command that takes up the whole line holds also a cursor behind it. -/
def FillsLine (st : Statement) (data : Text) : Prop :=
  ∃ s, st = .backslash s ∧ byteLen s = byteLen data

end Statement

/-- What the splitter takes a text for that is not empty and has a statement in front. -/
def Cuts (rest : Text) : Statement → Prop
  | .edgeql s => (trimStart rest).head? ≠ some '\\' ∧
      edgeql.preparser.fullStatement (utf8 rest) none = .ok (byteLen s)
  | .backslash s => (trimStart rest).head? = some '\\' ∧ fullStatement rest = some (byteLen s)

/-- The statement that a text begins with, and what is behind it. -/
structure Begins (rest : Text) (st : Statement) (behind : Text) : Prop where
  split : rest = st.text ++ behind
  nonempty : st.text ≠ []
  notEmpty : edgeql.isEmpty rest = false
  cuts : Cuts edgeql rest st

/-- The statements are split off one by one, with the rest of the line present. -/
inductive Splits : Text → List Statement → Text → Prop where
  | nil (behind : Text) : Splits behind [] behind
  | cons {rest next behind : Text} {st : Statement} {sts : List Statement}
      (hbegins : Begins edgeql rest st next) (hsplits : Splits next sts behind) :
      Splits rest (st :: sts) behind

def texts (sts : List Statement) : Text := sts.flatMap Statement.text

variable {edgeql}

/-- A text has nothing in it, begins with a statement or is an unfinished one. -/
theorem begins_cases (h : edgeql.Lawful) (rest : Text) :
    edgeql.isEmpty rest = true ∨ (∃ st behind, Begins edgeql rest st behind) ∨
      (edgeql.isEmpty rest = false ∧ (trimStart rest).head? ≠ some '\\' ∧
        ∃ cont, edgeql.preparser.fullStatement (utf8 rest) none = .error cont) := by
  cases hempty : edgeql.isEmpty rest with
  | true => exact .inl rfl
  | false =>
      refine .inr ?_
      by_cases hback : (trimStart rest).head? = some '\\'
      · have hne : rest ≠ [] := by
          rintro rfl
          cases hback
        obtain ⟨bytes, hbytes, -, ⟨s, behind, hsplit⟩, hpos⟩ := exists_fullStatement rest
        obtain ⟨rfl, rfl⟩ := splitAtByte_eq_some.mp hsplit
        refine .inl ⟨.backslash s, behind, rfl, ?_, hempty, hback, hbytes⟩
        intro hs
        exact absurd (congrArg byteLen hs) (Nat.ne_of_gt (hpos hne))
      · cases hfull : edgeql.preparser.fullStatement (utf8 rest) none with
        | error cont => exact .inr ⟨rfl, hback, cont, rfl⟩
        | ok len =>
            obtain ⟨front, behind, rfl, rfl⟩ := h.semicolon rest len hfull
            refine .inl ⟨.edgeql (front ++ [';']), behind, ?_, ?_, hempty, hback, ?_⟩
            · exact List.append_cons front ';' behind
            · exact List.append_ne_nil_of_right_ne_nil _ (List.cons_ne_nil _ _)
            · rw [hfull, byteLen_append]
              rfl

/-! ## One turn -/

section Turn

variable {before rest : Text} {pos fuel : Nat}

theorem currentFrom_empty (h : edgeql.isEmpty rest = true) :
    currentFrom edgeql (before ++ rest) pos (fuel + 1) (byteLen before) =
      some (byteLen before, .empty) := by
  rw [currentFrom, splitAtByte_append, Option.bind_eq_bind, Option.bind_some]
  simp only
  rw [if_pos h]
  rfl

theorem currentFrom_unfinished {cont : edgeql.preparser.Continuation}
    (hempty : edgeql.isEmpty rest = false) (hback : (trimStart rest).head? ≠ some '\\')
    (hfull : edgeql.preparser.fullStatement (utf8 rest) none = .error cont) :
    currentFrom edgeql (before ++ rest) pos (fuel + 1) (byteLen before) =
      some (byteLen before, .edgeql rest false) := by
  rw [currentFrom, splitAtByte_append, Option.bind_eq_bind, Option.bind_some]
  simp only
  rw [if_neg (by rw [hempty]; exact Bool.false_ne_true), if_neg hback, hfull]
  rfl

/-- The loop stops at a statement that the cursor is in. -/
def Stops (data : Text) (pos : Nat) (before : Text) (st : Statement) : Prop :=
  pos < byteLen (before ++ st.text) ∨ st.FillsLine data

theorem currentFrom_stops {st : Statement} {behind : Text} (h : Begins edgeql rest st behind)
    (hstops : Stops (before ++ rest) pos before st) :
    currentFrom edgeql (before ++ rest) pos (fuel + 1) (byteLen before) =
      some (byteLen before, st.current) := by
  have hsplit : splitAtByte rest (byteLen st.text) = some (st.text, behind) :=
    splitAtByte_eq_some.mpr ⟨h.split, rfl⟩
  have hempty : ¬ edgeql.isEmpty rest = true := by
    rw [h.notEmpty]
    exact Bool.false_ne_true
  rw [currentFrom, splitAtByte_append, Option.bind_eq_bind, Option.bind_some]
  simp only
  rw [if_neg hempty]
  cases st with
  | backslash s =>
      obtain ⟨hback, hfull⟩ := h.cuts
      have hcond : byteLen before + byteLen s > pos ∨ byteLen s = byteLen (before ++ rest) := by
        rcases hstops with hlt | ⟨s', heq, hlen⟩
        · exact .inl (by rw [byteLen_append] at hlt; exact hlt)
        · cases heq
          exact .inr hlen
      rw [if_pos hback, hfull, Option.bind_eq_bind, Option.bind_some, if_pos hcond]
      have hsplit : splitAtByte rest (byteLen s) = some (s, behind) := hsplit
      rw [hsplit]
      rfl
  | edgeql s =>
      obtain ⟨hback, hfull⟩ := h.cuts
      have hcond : byteLen before + byteLen s > pos := by
        rcases hstops with hlt | ⟨s', heq, -⟩
        · rw [byteLen_append] at hlt
          exact hlt
        · cases heq
      rw [if_neg hback, hfull]
      simp only
      rw [if_pos hcond]
      have hsplit : splitAtByte rest (byteLen s) = some (s, behind) := hsplit
      rw [hsplit]
      rfl

theorem currentFrom_goesOn {st : Statement} {behind : Text} (h : Begins edgeql rest st behind)
    (hstops : ¬ Stops (before ++ rest) pos before st) :
    currentFrom edgeql (before ++ rest) pos (fuel + 1) (byteLen before) =
      currentFrom edgeql (before ++ rest) pos fuel (byteLen (before ++ st.text)) := by
  have hempty : ¬ edgeql.isEmpty rest = true := by
    rw [h.notEmpty]
    exact Bool.false_ne_true
  obtain ⟨hle, hfills⟩ := not_or.mp hstops
  rw [byteLen_append] at hle
  rw [currentFrom, splitAtByte_append, Option.bind_eq_bind, Option.bind_some,
    byteLen_append before st.text]
  simp only
  rw [if_neg hempty]
  cases st with
  | backslash s =>
      obtain ⟨hback, hfull⟩ := h.cuts
      have hcond : ¬ (byteLen before + byteLen s > pos ∨ byteLen s = byteLen (before ++ rest)) := by
        rintro (hlt | hlen)
        · exact hle hlt
        · exact hfills ⟨s, rfl, hlen⟩
      rw [if_pos hback, hfull, Option.bind_eq_bind, Option.bind_some, if_neg hcond]
      rfl
  | edgeql s =>
      obtain ⟨hback, hfull⟩ := h.cuts
      have hcond : ¬ byteLen before + byteLen s > pos := hle
      rw [if_neg hback, hfull]
      simp only
      rw [if_neg hcond]
      rfl

end Turn

/-! ## All turns -/

variable (edgeql) in
/-- Where the loop ends that stands between `before` and `rest`. -/
inductive Lands (data : Text) (pos : Nat) : Text → Text → Nat × Current → Prop where
  | empty {before rest : Text} (hempty : edgeql.isEmpty rest = true) :
      Lands data pos before rest (byteLen before, .empty)
  | unfinished {before rest : Text} {cont : edgeql.preparser.Continuation}
      (hempty : edgeql.isEmpty rest = false) (hback : (trimStart rest).head? ≠ some '\\')
      (hfull : edgeql.preparser.fullStatement (utf8 rest) none = .error cont) :
      Lands data pos before rest (byteLen before, .edgeql rest false)
  | stops {before rest behind : Text} {st : Statement} (hbegins : Begins edgeql rest st behind)
      (hstops : Stops data pos before st) :
      Lands data pos before rest (byteLen before, st.current)
  | goesOn {before rest behind : Text} {st : Statement} {r : Nat × Current}
      (hbegins : Begins edgeql rest st behind) (hstops : ¬ Stops data pos before st)
      (hlands : Lands data pos (before ++ st.text) behind r) : Lands data pos before rest r

theorem Begins.length_lt {rest behind : Text} {st : Statement}
    (h : Begins edgeql rest st behind) : behind.length < rest.length := by
  have hpos := List.length_pos_iff.mpr h.nonempty
  rw [h.split, List.length_append]
  omega

theorem exists_lands (h : edgeql.Lawful) (data : Text) (pos : Nat) (before rest : Text) :
    ∃ r, Lands edgeql data pos before rest r := by
  induction hlen : rest.length using Nat.strong_induction_on generalizing before rest with
  | _ n ih =>
      rcases begins_cases h rest with hempty | ⟨st, behind, hbegins⟩ | ⟨hempty, hback, cont, hfull⟩
      · exact ⟨_, .empty hempty⟩
      · by_cases hstops : Stops data pos before st
        · exact ⟨_, .stops hbegins hstops⟩
        · have hless := hbegins.length_lt
          obtain ⟨r, hr⟩ := ih _ (by omega) (before ++ st.text) behind rfl
          exact ⟨r, .goesOn hbegins hstops hr⟩
      · exact ⟨_, .unfinished hempty hback hfull⟩

theorem Lands.currentFrom {data before rest : Text} {pos : Nat} {r : Nat × Current}
    (h : Lands edgeql data pos before rest r) (hdata : data = before ++ rest) {fuel : Nat}
    (hfuel : rest.length < fuel) :
    currentFrom edgeql data pos fuel (byteLen before) = some r := by
  obtain ⟨fuel, rfl⟩ := Nat.exists_eq_succ_of_ne_zero (Nat.ne_zero_of_lt hfuel)
  induction h generalizing fuel with
  | empty hempty =>
      rw [hdata]
      exact currentFrom_empty hempty
  | unfinished hempty hback hfull =>
      rw [hdata]
      exact currentFrom_unfinished hempty hback hfull
  | stops hbegins hstops =>
      rw [hdata] at hstops ⊢
      exact currentFrom_stops hbegins hstops
  | goesOn hbegins hstops hlands ih =>
      have hless := hbegins.length_lt
      obtain ⟨fuel, rfl⟩ := Nat.exists_eq_succ_of_ne_zero (show fuel ≠ 0 by omega)
      have hnext := ih (by rw [hdata, hbegins.split, List.append_assoc]) fuel (by omega)
      rw [hdata] at hstops hnext ⊢
      rw [currentFrom_goesOn hbegins hstops]
      exact hnext

/-- The loop ends, for every cursor, and `Lands` says where. -/
theorem current_eq_some (h : edgeql.Lawful) {data : Text} {pos : Nat} {r : Nat × Current} :
    current edgeql data pos = some r ↔ Lands edgeql data pos [] data r := by
  have hcurrent : ∀ r, Lands edgeql data pos [] data r → current edgeql data pos = some r :=
    fun r hr => hr.currentFrom rfl (Nat.lt_succ_self _)
  constructor
  · intro hr
    obtain ⟨r', hlands⟩ := exists_lands h data pos [] data
    obtain rfl := Option.some.inj ((hcurrent r' hlands).symm.trans hr)
    exact hlands
  · exact hcurrent r

theorem Lands.offset_le {data before rest : Text} {pos : Nat} {r : Nat × Current}
    (h : Lands edgeql data pos before rest r) : byteLen before ≤ r.1 := by
  induction h with
  | empty | unfinished | stops => exact Nat.le_refl _
  | goesOn hbegins hstops hlands ih =>
      rw [byteLen_append] at ih
      omega

/-- Statements in front of the cursor are passed. -/
theorem Splits.lands {data before rest behind : Text} {pos : Nat} {sts : List Statement}
    {r : Nat × Current} (h : Splits edgeql rest sts behind)
    (hpos : byteLen (before ++ texts sts) ≤ pos) (hfills : ∀ st ∈ sts, ¬ st.FillsLine data)
    (hlands : Lands edgeql data pos (before ++ texts sts) behind r) :
    Lands edgeql data pos before rest r := by
  induction h generalizing before with
  | nil behind =>
      rw [texts, List.flatMap_nil, List.append_nil] at hlands
      exact hlands
  | @cons rest next behind st sts hbegins hsplits ih =>
      rw [texts, List.flatMap_cons, ← List.append_assoc] at hpos hlands
      refine .goesOn hbegins ?_
        (ih hpos (fun st hst => hfills st (List.mem_cons_of_mem _ hst)) hlands)
      rintro (hlt | hfill)
      · rw [byteLen_append] at hpos
        omega
      · exact hfills st List.mem_cons_self hfill

theorem Splits.split {rest behind : Text} {sts : List Statement}
    (h : Splits edgeql rest sts behind) : rest = texts sts ++ behind := by
  induction h with
  | nil behind => rfl
  | @cons rest next behind st sts hbegins hsplits ih =>
      rw [hbegins.split, ih, texts, texts, List.flatMap_cons, List.append_assoc]

end GelCli.Repl.Completion
