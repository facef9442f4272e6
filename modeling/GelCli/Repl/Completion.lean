import GelCli.Repl.Highlight
import GelCli.Repl.MovedCursor

/-!
# Completion of backslash commands

`complete` of `completion.rs` and the completer of the line editor, from `prompt.rs`. A
position that `complete` returns counts from the start of the statement; the line editor
takes it for a position in the line. So completion is right exactly for a command that the
line begins with.
-/

namespace GelCli.Repl.Completion

open GelCli.Foundation GelCli.Repl.Backslash
open Text

/-! ## Candidates -/

structure Pair where
  value : Text
  description : Text
  deriving DecidableEq

variable (edgeql : Edgeql) (cache : CommandCache)

def completeCommand (input : Text) : List Pair :=
  ((rangeFrom cache.topCommands input).filter fun x => input.isPrefixOf x).map fun x => ⟨x, x⟩

/-- `range_from` of a map. -/
def entriesFrom {α : Type} (entries : List (Text × α)) (val : Text) : List (Text × α) :=
  entries.filter fun entry => decide (val ≤ entry.1)

def completeSetting (input : Text) : List Pair :=
  ((entriesFrom cache.settings input).filter fun entry => input.isPrefixOf entry.1).map
    fun entry => ⟨entry.1, entry.2.nameDescription⟩

def completeSubcommand (input : Text) (cmds : List (Text × CommandInfo)) : List Pair :=
  ((entriesFrom cmds input).filter fun entry => input.isPrefixOf entry.1).map
    fun entry => ⟨entry.1, entry.2.nameDescription⟩

def completeSettingValue (input : Text) : SettingValue → List Pair
  | .usize => []
  | .variants v => (v.filter fun x => input.isPrefixOf x).map fun x => ⟨x, x⟩

/-! ## The loop over the tokens -/

/-- The candidates for the token that the cursor is in. -/
def completeToken (fsm : BackslashFsm) (tok : Token) : Option (Nat × List Pair) :=
  match fsm, tok.item with
  | .command, .command cmd => some (tok.span.1, completeCommand cache cmd)
  | .setting, .argument arg => some (tok.span.1, completeSetting cache arg)
  | .subcommands cmds, .argument arg => some (tok.span.1, completeSubcommand arg cmds)
  | .setValue cfg, .argument arg => some (tok.span.1, completeSettingValue arg cfg)
  | _, _ => none

/-- The candidates for a cursor behind all tokens. -/
def completeEnd (cursor : Nat) : BackslashFsm → Option (Nat × List Pair)
  | .command => some (cursor, completeCommand cache [])
  | .subcommands s => some (cursor, completeSubcommand [] s)
  | .setting => some (cursor, completeSetting cache [])
  | .setValue cfg => some (cursor, completeSettingValue [] cfg)
  | _ => none

/-- The outer `none` is a panic. -/
def completeTokens (cursor : Nat) : BackslashFsm → List Token → Option (Option (Nat × List Pair))
  | fsm, [] => some (completeEnd cache cursor fsm)
  | fsm, tok :: toks =>
      if cursor < tok.span.1 then some none
      else if cursor ≤ tok.span.2 then some (completeToken cache fsm tok)
      else do
        let fsm ← fsm.advance cache tok.item
        completeTokens cursor fsm toks

def complete (input : Text) (cursor : Nat) : Option (Option (Nat × List Pair)) := do
  let (off, cur) ← current edgeql input cursor
  match cur with
  | .empty => return none
  | .edgeql _ _ => return none
  | .backslash cmd =>
      let toks ← tokens cmd
      completeTokens cache (cursor - off) .command toks

/-- `Completer for EdgeqlHelper` -/
def completer (line : Text) (pos : Nat) : Option (Nat × List Pair) :=
  (complete edgeql cache line pos).map fun comp => comp.getD (pos, [])

/-- What the line editor replaces by a candidate: the line from the position to the cursor. -/
def replacedRange (line : Text) (pos : Nat) : Option (Nat × Nat) :=
  match completer edgeql cache line pos with
  | some (offset, _ :: _) => some (offset, pos)
  | _ => none

/-! ## The word at the cursor -/

/-- The token that the cursor is in or next to, or nothing, at the cursor. -/
def wordAt (toks : List Token) (cursor : Nat) : Nat × Nat :=
  match toks.find? fun tok => tok.span.1 ≤ cursor ∧ cursor ≤ tok.span.2 with
  | some tok => tok.span
  | none => (cursor, cursor)

/-- The word at the cursor, in the line. -/
def wordRange (line : Text) (pos : Nat) : Option (Nat × Nat) := do
  let (off, cur) ← current edgeql line pos
  match cur with
  | .backslash cmd =>
      let toks ← tokens cmd
      let word := wordAt toks (pos - off)
      return (off + word.1, off + word.2)
  | _ => none

/-- Completion behind `a` is completion without `a`, and replaces the word at the cursor. -/
structure Independent (a b : Text) (c : Nat) : Prop where
  current : Moves edgeql a b c
  complete : complete edgeql cache (a ++ b) (byteLen a + c) =
    (complete edgeql cache b c).map
      (Option.map fun result => (byteLen a + result.1, result.2))
  range : ∀ range, replacedRange edgeql cache (a ++ b) (byteLen a + c) = some range →
    wordRange edgeql (a ++ b) (byteLen a + c) = some range

/-! ## What may stand at the cursor -/

/-- The text of an item that has names to choose from. -/
def typedIn : BackslashFsm → Item → Option Text
  | .command, .command cmd => some cmd
  | .subcommands _, .argument arg => some arg
  | .setting, .argument arg => some arg
  | .setValue _, .argument arg => some arg
  | _, _ => none

/-- The names to choose from. -/
def names : BackslashFsm → Option (List Pair)
  | .command => some (cache.topCommands.map fun x => ⟨x, x⟩)
  | .subcommands cmds => some (cmds.map fun entry => ⟨entry.1, entry.2.nameDescription⟩)
  | .setting => some (cache.settings.map fun entry => ⟨entry.1, entry.2.nameDescription⟩)
  | .setValue .usize => some []
  | .setValue (.variants v) => some (v.map fun x => ⟨x, x⟩)
  | _ => none

def offered (typed : Text) (all : List Pair) : List Pair :=
  all.filter fun p => typed.isPrefixOf p.value

/-- The cursor is at the word `word`, where `typed` stands and one of the names may. -/
inductive Reaches (cursor : Nat) :
    BackslashFsm → List Token → Nat × Nat → Text → List Pair → Prop where
  | word {fsm : BackslashFsm} {tok : Token} {toks : List Token} {typed : Text} {all : List Pair}
      (hstart : tok.span.1 ≤ cursor) (hstop : cursor ≤ tok.span.2)
      (htyped : typedIn fsm tok.item = some typed) (hnames : names cache fsm = some all) :
      Reaches cursor fsm (tok :: toks) tok.span typed all
  | behind {fsm : BackslashFsm} {all : List Pair} (hnames : names cache fsm = some all) :
      Reaches cursor fsm [] (cursor, cursor) [] all
  | pass {fsm fsm' : BackslashFsm} {tok : Token} {toks : List Token} {word : Nat × Nat}
      {typed : Text} {all : List Pair} (hstart : tok.span.1 ≤ cursor)
      (hstop : tok.span.2 < cursor) (hadvance : fsm.advance cache tok.item = some fsm')
      (hreaches : Reaches cursor fsm' toks word typed all) :
      Reaches cursor fsm (tok :: toks) word typed all

/-- A command has names to choose from at the cursor. -/
def Offers (cmd : Text) (cursor : Nat) (word : Nat × Nat) (typed : Text) (all : List Pair) :
    Prop :=
  ∃ toks, tokens cmd = some toks ∧ Reaches cache cursor .command toks word typed all

/-- The cursor is in the command `cmd`, behind the statements `front`. -/
def CursorIn (data : Text) (pos : Nat) (front cmd : Text) : Prop :=
  ∃ sts behind, Splits edgeql data sts (cmd ++ behind) ∧ front = texts sts ∧
    Begins edgeql (cmd ++ behind) (.backslash cmd) behind ∧ byteLen front ≤ pos ∧
    Stops data pos front (.backslash cmd)

/-- Where there are names to choose from, no complete statement is in front, and where one of
them begins with the word, the line begins with the command and the cursor is behind the
word. -/
def AtStart (a b : Text) (c : Nat) : Prop :=
  ∀ front cmd, CursorIn edgeql b c front cmd → ∀ word typed all,
    Offers cache cmd (c - byteLen front) word typed all →
      a = [] ∧ ((∃ p ∈ all, typed <+: p.value) → front = [] ∧ c = word.2)

variable {edgeql cache}

/-! ## The candidates are the names that begin with the word -/

theorem map_filter_prefix {α : Type} (key : α → Text) (pair : α → Pair)
    (hpair : ∀ x, (pair x).value = key x) (input : Text) (all : List α) :
    (all.filter fun x => input.isPrefixOf (key x)).map pair = offered input (all.map pair) := by
  have hcomp : ((fun p : Pair => input.isPrefixOf p.value) ∘ pair) =
      fun x => input.isPrefixOf (key x) := by
    funext x
    exact congrArg (fun value => input.isPrefixOf value) (hpair x)
  rw [offered, List.filter_map, hcomp]

/-- What begins with a text is not in front of it. -/
theorem le_of_startsWith {input text : Text} (h : input <+: text) : input ≤ text :=
  le_of_not_gt fun hlt => h.le hlt

theorem map_filter_range {α : Type} (key : α → Text) (pair : α → Pair)
    (hpair : ∀ x, (pair x).value = key x) (input : Text) (all : List α) :
    ((all.filter fun x => decide (input ≤ key x)).filter fun x => input.isPrefixOf (key x)).map
      pair = offered input (all.map pair) := by
  rw [← map_filter_prefix key pair hpair, List.filter_filter]
  congr 1
  refine List.filter_congr fun x _ => ?_
  cases hprefix : input.isPrefixOf (key x) with
  | false => rfl
  | true => exact decide_eq_true (le_of_startsWith (List.isPrefixOf_iff_prefix.mp hprefix))

theorem completeCommand_eq (input : Text) :
    completeCommand cache input = offered input (cache.topCommands.map fun x => ⟨x, x⟩) :=
  map_filter_range id _ (fun _ => rfl) input _

theorem completeSetting_eq (input : Text) : completeSetting cache input =
    offered input (cache.settings.map fun entry => ⟨entry.1, entry.2.nameDescription⟩) :=
  map_filter_range Prod.fst _ (fun _ => rfl) input _

theorem completeSubcommand_eq (input : Text) (cmds : List (Text × CommandInfo)) :
    completeSubcommand input cmds =
      offered input (cmds.map fun entry => ⟨entry.1, entry.2.nameDescription⟩) :=
  map_filter_range Prod.fst _ (fun _ => rfl) input _

theorem completeVariants_eq (input : Text) (v : List Text) :
    completeSettingValue input (.variants v) = offered input (v.map fun x => ⟨x, x⟩) :=
  map_filter_prefix id _ (fun _ => rfl) input _

theorem completeToken_eq (fsm : BackslashFsm) (tok : Token) :
    completeToken cache fsm tok = (typedIn fsm tok.item).bind fun typed =>
      (names cache fsm).map fun all => (tok.span.1, offered typed all) := by
  rcases tok with ⟨item, span⟩
  cases fsm with
  | final | arguments => cases item <;> rfl
  | command =>
      cases item with
      | command cmd => exact congrArg (fun pairs => some (span.1, pairs)) (completeCommand_eq cmd)
      | _ => rfl
  | subcommands cmds =>
      cases item with
      | argument arg =>
          exact congrArg (fun pairs => some (span.1, pairs)) (completeSubcommand_eq arg cmds)
      | _ => rfl
  | setting =>
      cases item with
      | argument arg => exact congrArg (fun pairs => some (span.1, pairs)) (completeSetting_eq arg)
      | _ => rfl
  | setValue value =>
      cases item with
      | argument arg =>
          cases value with
          | usize => rfl
          | variants v =>
              exact congrArg (fun pairs => some (span.1, pairs)) (completeVariants_eq arg v)
      | _ => rfl

theorem completeEnd_eq (cursor : Nat) (fsm : BackslashFsm) :
    completeEnd cache cursor fsm =
      (names cache fsm).map fun all => (cursor, offered [] all) := by
  cases fsm with
  | final | arguments => rfl
  | command => exact congrArg (fun pairs => some (cursor, pairs)) (completeCommand_eq [])
  | subcommands cmds =>
      exact congrArg (fun pairs => some (cursor, pairs)) (completeSubcommand_eq [] cmds)
  | setting => exact congrArg (fun pairs => some (cursor, pairs)) (completeSetting_eq [])
  | setValue value =>
      cases value with
      | usize => rfl
      | variants v => exact congrArg (fun pairs => some (cursor, pairs)) (completeVariants_eq [] v)

/-! ## The loop over the tokens -/

theorem exists_completeTokens (cursor : Nat) (fsm : BackslashFsm) {toks : List Token}
    (h : ∀ tok ∈ toks, tok.item.IsNamed) :
    ∃ result, completeTokens cache cursor fsm toks = some result := by
  induction toks generalizing fsm with
  | nil => exact ⟨_, rfl⟩
  | cons tok toks ih =>
      obtain ⟨fsm', hadvance⟩ := exists_advance cache fsm (h tok List.mem_cons_self)
      rw [completeTokens]
      split
      · exact ⟨_, rfl⟩
      · split
        · exact ⟨_, rfl⟩
        · rw [hadvance]
          exact ih fsm' fun tok htok => h tok (List.mem_cons_of_mem _ htok)

theorem completeTokens_eq_some {cursor : Nat} {fsm : BackslashFsm} {toks : List Token}
    {start : Nat} {pairs : List Pair} :
    completeTokens cache cursor fsm toks = some (some (start, pairs)) ↔
      ∃ word typed all, Reaches cache cursor fsm toks word typed all ∧ start = word.1 ∧
        pairs = offered typed all := by
  constructor
  · intro h
    induction toks generalizing fsm with
    | nil =>
        rw [completeTokens, Option.some.injEq, completeEnd_eq, Option.map_eq_some_iff] at h
        obtain ⟨all, hnames, heq⟩ := h
        obtain ⟨rfl, rfl⟩ := Prod.mk.inj heq
        exact ⟨_, _, all, .behind hnames, rfl, rfl⟩
    | cons tok toks ih =>
        rw [completeTokens] at h
        split at h
        · cases h
        · next hstart =>
          split at h
          · next hstop =>
            rw [Option.some.injEq, completeToken_eq, Option.bind_eq_some_iff] at h
            obtain ⟨typed, htyped, h⟩ := h
            obtain ⟨all, hnames, heq⟩ := Option.map_eq_some_iff.mp h
            obtain ⟨rfl, rfl⟩ := Prod.mk.inj heq
            exact ⟨_, _, all, .word (Nat.le_of_not_lt hstart) hstop htyped hnames, rfl, rfl⟩
          · next hstop =>
            obtain ⟨fsm', hadvance, h⟩ := Option.bind_eq_some_iff.mp h
            obtain ⟨word, typed, all, hreaches, hword⟩ := ih h
            exact ⟨word, typed, all, .pass (Nat.le_of_not_lt hstart) (Nat.lt_of_not_le hstop)
              hadvance hreaches, hword⟩
  · rintro ⟨word, typed, all, hreaches, rfl, rfl⟩
    induction hreaches with
    | word hstart hstop htyped hnames =>
        rw [completeTokens, if_neg (Nat.not_lt_of_le hstart), if_pos hstop, completeToken_eq,
          htyped, Option.bind_some, hnames]
        rfl
    | behind hnames =>
        rw [completeTokens, completeEnd_eq, hnames]
        rfl
    | pass hstart hstop hadvance _ ih =>
        rw [completeTokens, if_neg (Nat.not_lt_of_le hstart), if_neg (Nat.not_le_of_lt hstop),
          hadvance]
        exact ih

theorem Reaches.wordAt {cursor : Nat} {fsm : BackslashFsm} {toks : List Token}
    {word : Nat × Nat} {typed : Text} {all : List Pair}
    (h : Reaches cache cursor fsm toks word typed all) : wordAt toks cursor = word := by
  induction h with
  | @word fsm tok toks typed all hstart hstop htyped hnames =>
      have hin : tok.span.1 ≤ cursor ∧ cursor ≤ tok.span.2 := ⟨hstart, hstop⟩
      rw [Completion.wordAt, List.find?_cons_of_pos (by exact decide_eq_true hin)]
  | behind hnames => rfl
  | pass hstart hstop hadvance _ ih =>
      rw [Completion.wordAt, List.find?_cons_of_neg]
      · exact ih
      · rw [decide_eq_true_eq]
        rintro ⟨-, hle⟩
        omega

theorem exists_tokens (s : Text) :
    ∃ toks, tokens s = some toks ∧ ∀ tok ∈ toks, tok.item.IsNamed := by
  obtain ⟨toks, hreads, -⟩ := exists_reads [] s true
  exact ⟨toks, hreads.tokens (Nat.lt_succ_self _), hreads.yields.isNamed⟩

/-! ## The command at the cursor -/

/-- Where the loop stands at a command, the statements in front of it are passed. -/
theorem Lands.command {data before rest : Text} {pos : Nat} {r : Nat × Current}
    (h : Lands edgeql data pos before rest r) (hbefore : byteLen before ≤ pos) {cmd : Text}
    (hcur : r.2 = .backslash cmd) :
    ∃ sts behind, Splits edgeql rest sts (cmd ++ behind) ∧
      r.1 = byteLen (before ++ texts sts) ∧
      Begins edgeql (cmd ++ behind) (.backslash cmd) behind ∧
      byteLen (before ++ texts sts) ≤ pos ∧
      Stops data pos (before ++ texts sts) (.backslash cmd) := by
  induction h with
  | empty | unfinished => cases hcur
  | @stops before rest behind st hbegins hstops =>
      cases st with
      | edgeql s => cases hcur
      | backslash s =>
          cases hcur
          have hsplit : rest = cmd ++ behind := hbegins.split
          have htexts : before ++ texts [] = before := List.append_nil before
          rw [hsplit] at hbegins
          refine ⟨[], behind, ?_, ?_, hbegins, ?_, ?_⟩
          · rw [hsplit]
            exact .nil _
          · rw [htexts]
          · rw [htexts]
            exact hbefore
          · rw [htexts]
            exact hstops
  | @goesOn before rest behind st r hbegins hstops hlands ih =>
      obtain ⟨hle, -⟩ := not_or.mp hstops
      obtain ⟨sts, after, hsplits, hrest⟩ := ih (Nat.le_of_not_lt hle) hcur
      refine ⟨st :: sts, after, .cons hbegins hsplits, ?_⟩
      rw [texts, List.flatMap_cons, ← List.append_assoc]
      exact hrest

theorem cursorIn_iff (h : edgeql.Lawful) {data cmd : Text} {pos off : Nat} :
    current edgeql data pos = some (off, .backslash cmd) ↔
      ∃ front, CursorIn edgeql data pos front cmd ∧ off = byteLen front := by
  rw [current_eq_some h]
  constructor
  · intro hlands
    obtain ⟨sts, behind, hsplits, hoff, hbegins, hle, hstops⟩ :=
      hlands.command (Nat.zero_le pos) rfl
    exact ⟨texts sts, ⟨sts, behind, hsplits, rfl, hbegins, hle, hstops⟩, hoff⟩
  · rintro ⟨front, ⟨sts, behind, hsplits, rfl, hbegins, hle, hstops⟩, rfl⟩
    refine hsplits.lands hle (not_fillsLine ?_) (.stops hbegins hstops)
    have hpos := byteLen_pos hbegins.nonempty
    change 0 < byteLen cmd at hpos
    rw [hsplits.split, byteLen_append, byteLen_append]
    omega

theorem complete_eq_some (h : edgeql.Lawful) {data : Text} {pos start : Nat}
    {pairs : List Pair} :
    complete edgeql cache data pos = some (some (start, pairs)) ↔
      ∃ front cmd word typed all, CursorIn edgeql data pos front cmd ∧
        Offers cache cmd (pos - byteLen front) word typed all ∧ start = word.1 ∧
        pairs = offered typed all := by
  constructor
  · intro hcomplete
    obtain ⟨⟨off, cur⟩, hcurrent, hcomplete⟩ := Option.bind_eq_some_iff.mp hcomplete
    cases cur with
    | empty | edgeql => cases hcomplete
    | backslash cmd =>
        obtain ⟨toks, htokens, hcomplete⟩ := Option.bind_eq_some_iff.mp hcomplete
        obtain ⟨word, typed, all, hreaches, hword⟩ := completeTokens_eq_some.mp hcomplete
        obtain ⟨front, hcursor, rfl⟩ := (cursorIn_iff h).mp hcurrent
        exact ⟨front, cmd, word, typed, all, hcursor, ⟨toks, htokens, hreaches⟩, hword⟩
  · rintro ⟨front, cmd, word, typed, all, hcursor, ⟨toks, htokens, hreaches⟩, hword⟩
    have hcurrent := (cursorIn_iff h).mpr ⟨front, hcursor, rfl⟩
    rw [complete, hcurrent, Option.bind_eq_bind, Option.bind_some]
    simp only [htokens]
    exact completeTokens_eq_some.mpr ⟨word, typed, all, hreaches, hword⟩

theorem exists_complete (h : edgeql.Lawful) (line : Text) (pos : Nat) :
    ∃ result, complete edgeql cache line pos = some result := by
  obtain ⟨⟨off, cur⟩, hlands⟩ := exists_lands h line pos [] line
  rw [complete, (current_eq_some h).mpr hlands, Option.bind_eq_bind, Option.bind_some]
  cases cur with
  | empty | edgeql => exact ⟨none, rfl⟩
  | backslash cmd =>
      obtain ⟨toks, htokens, hnamed⟩ := exists_tokens cmd
      simp only [htokens]
      exact exists_completeTokens _ _ hnamed

/-! ## The range that is replaced -/

theorem offered_eq_cons {typed : Text} {all : List Pair} :
    (∃ p pairs, offered typed all = p :: pairs) ↔ ∃ p ∈ all, typed <+: p.value := by
  constructor
  · rintro ⟨p, pairs, hoffered⟩
    have hmem : p ∈ offered typed all := by
      rw [hoffered]
      exact List.mem_cons_self
    obtain ⟨hall, hprefix⟩ := List.mem_filter.mp hmem
    exact ⟨p, hall, List.isPrefixOf_iff_prefix.mp hprefix⟩
  · rintro ⟨p, hall, hprefix⟩
    have hmem : p ∈ offered typed all :=
      List.mem_filter.mpr ⟨hall, List.isPrefixOf_iff_prefix.mpr hprefix⟩
    cases hoffered : offered typed all with
    | nil =>
        rw [hoffered] at hmem
        cases hmem
    | cons p pairs => exact ⟨p, pairs, rfl⟩

theorem replacedRange_eq_some (h : edgeql.Lawful) {data : Text} {pos : Nat}
    {range : Nat × Nat} :
    replacedRange edgeql cache data pos = some range ↔
      ∃ front cmd word typed all, CursorIn edgeql data pos front cmd ∧
        Offers cache cmd (pos - byteLen front) word typed all ∧
        (∃ p ∈ all, typed <+: p.value) ∧ range = (word.1, pos) := by
  obtain ⟨result, hresult⟩ := exists_complete h data pos
  rw [replacedRange, completer, hresult, Option.map_some]
  constructor
  · intro hrange
    rcases result with _ | ⟨start, _ | ⟨p, pairs⟩⟩
    · cases hrange
    · cases hrange
    · cases hrange
      obtain ⟨front, cmd, word, typed, all, hcursor, hoffers, rfl, hpairs⟩ :=
        (complete_eq_some h).mp hresult
      exact ⟨front, cmd, word, typed, all, hcursor, hoffers,
        offered_eq_cons.mp ⟨p, pairs, hpairs.symm⟩, rfl⟩
  · rintro ⟨front, cmd, word, typed, all, hcursor, hoffers, hprefix, rfl⟩
    have hcomplete := (complete_eq_some h).mpr
      ⟨front, cmd, word, typed, all, hcursor, hoffers, rfl, rfl⟩
    obtain ⟨p, pairs, hpairs⟩ := offered_eq_cons.mpr hprefix
    rw [hresult, Option.some.injEq] at hcomplete
    rw [hcomplete, hpairs]
    rfl

theorem wordRange_eq (h : edgeql.Lawful) {data front cmd typed : Text} {pos : Nat}
    {word : Nat × Nat} {all : List Pair} (hcursor : CursorIn edgeql data pos front cmd)
    (hoffers : Offers cache cmd (pos - byteLen front) word typed all) :
    wordRange edgeql data pos = some (byteLen front + word.1, byteLen front + word.2) := by
  obtain ⟨toks, htokens, hreaches⟩ := hoffers
  rw [wordRange, (cursorIn_iff h).mpr ⟨front, hcursor, rfl⟩, Option.bind_eq_bind,
    Option.bind_some]
  simp only [htokens]
  rw [← hreaches.wordAt]
  rfl

/-! ## Behind other statements -/

/-- The statement is the same one, and the cursor is at the same place of it. -/
theorem Moves.complete (h : edgeql.Lawful) {a b : Text} {c : Nat} (hmoves : Moves edgeql a b c) :
    complete edgeql cache (a ++ b) (byteLen a + c) = complete edgeql cache b c := by
  obtain ⟨⟨off, cur⟩, hlands⟩ := exists_lands h b c [] b
  have hb := (current_eq_some h).mpr hlands
  have hline : current edgeql (a ++ b) (byteLen a + c) = some (byteLen a + off, cur) := by
    rw [hmoves, hb]
    rfl
  rw [Completion.complete, Completion.complete, hline, hb]
  cases cur with
  | empty | edgeql => rfl
  | backslash cmd =>
      simp only [Option.bind_eq_bind, Option.bind_some, Nat.add_sub_add_left]

theorem Independent.atStart (h : edgeql.Lawful) {a b : Text} {c : Nat}
    (hind : Independent edgeql cache a b c) : AtStart edgeql cache a b c := by
  intro front cmd hcursor word typed all hoffers
  have hb := (complete_eq_some h).mpr
    ⟨front, cmd, word, typed, all, hcursor, hoffers, rfl, rfl⟩
  have ha : a = [] := by
    have hmoved := hind.complete
    rw [hind.current.complete h, hb, Option.map_some, Option.map_some, Option.some.injEq,
      Option.some.injEq, Prod.mk.injEq] at hmoved
    exact byteLen_eq_zero.mp (by omega)
  subst ha
  refine ⟨rfl, fun hprefix => ?_⟩
  have hrange := hind.range
  rw [List.nil_append, byteLen_nil, Nat.zero_add] at hrange
  have hword := hrange _
    ((replacedRange_eq_some h).mpr ⟨front, cmd, word, typed, all, hcursor, hoffers, hprefix, rfl⟩)
  rw [wordRange_eq h hcursor hoffers, Option.some.injEq, Prod.mk.injEq] at hword
  obtain ⟨hstart, hstop⟩ := hword
  obtain rfl : front = [] := byteLen_eq_zero.mp (by omega)
  exact ⟨rfl, by rw [← hstop, byteLen_nil, Nat.zero_add]⟩

theorem AtStart.independent (h : edgeql.Lawful) {a b : Text} {c : Nat}
    (hmoves : Moves edgeql a b c) (hstart : AtStart edgeql cache a b c) :
    Independent edgeql cache a b c := by
  obtain ⟨result, hresult⟩ := exists_complete h b c
  cases result with
  | none =>
      refine ⟨hmoves, ?_, fun range hrange => ?_⟩
      · rw [hmoves.complete h, hresult]
        rfl
      · rw [replacedRange, completer, hmoves.complete h, hresult] at hrange
        cases hrange
  | some result =>
      obtain ⟨front, cmd, word, typed, all, hcursor, hoffers, -⟩ :=
        (complete_eq_some h).mp hresult
      obtain ⟨rfl, -⟩ := hstart front cmd hcursor word typed all hoffers
      refine ⟨hmoves, ?_, fun range hrange => ?_⟩
      · rw [hmoves.complete h, hresult, Option.map_some, Option.map_some, byteLen_nil,
          Nat.zero_add]
      · rw [List.nil_append, byteLen_nil, Nat.zero_add] at hrange ⊢
        obtain ⟨front, cmd, word, typed, all, hcursor, hoffers, hprefix, rfl⟩ :=
          (replacedRange_eq_some h).mp hrange
        obtain ⟨-, hword⟩ := hstart front cmd hcursor word typed all hoffers
        obtain ⟨rfl, hstop⟩ := hword hprefix
        rw [wordRange_eq h hcursor hoffers, byteLen_nil, Nat.zero_add, Nat.zero_add, ← hstop]

/-- **Completion and the statements in front.** Both functions return for every line and
cursor. Behind complete statements they do what they do without them exactly where no end of a
statement depends on those in front, and where the command to complete begins the line and the
cursor is at the end of its word. -/
theorem independent_iff (edgeql : Edgeql) (h : edgeql.Lawful) (cache : CommandCache) :
    (∀ line pos, (∃ r, current edgeql line pos = some r) ∧
        ∃ result, complete edgeql cache line pos = some result) ∧
      ∀ a sts, Consumed edgeql a sts → ∀ b c,
        (Independent edgeql cache a b c ↔
          Clear edgeql a sts b c ∧ AtStart edgeql cache a b c) := by
  constructor
  · intro line pos
    obtain ⟨r, hlands⟩ := exists_lands h line pos [] line
    exact ⟨⟨r, (current_eq_some h).mpr hlands⟩, exists_complete h line pos⟩
  · intro a sts hsts b c
    rw [← moves_iff h hsts]
    constructor
    · intro hind
      exact ⟨hind.current, hind.atStart h⟩
    · rintro ⟨hmoves, hstart⟩
      exact hstart.independent h hmoves

/-! ## A statement and a command in one line -/

/-- EdgeQL without quotes, brackets and comments. -/
def plain : Edgeql where
  preparser := Highlight.textSemicolons
  isEmpty data := data.all fun c => isWhitespace c || c = ';'

theorem plain_fullStatement {data : Text} {len : Nat} :
    plain.preparser.fullStatement (utf8 data) none = .ok len ↔
      ∃ front rest, cut ';' data = some (front, rest) ∧ len = byteLen front + 1 := by
  show Highlight.textSemicolons.fullStatement (utf8 data) none = .ok len ↔ _
  rw [Highlight.textSemicolons_utf8, Highlight.behindSemicolon]
  cases cut ';' data with
  | none =>
      constructor
      · intro h
        cases h
      · rintro ⟨front, rest, heq, -⟩
        cases heq
  | some parts =>
      constructor
      · intro h
        cases h
        exact ⟨parts.1, parts.2, rfl, rfl⟩
      · rintro ⟨front, rest, heq, rfl⟩
        cases heq
        rfl

theorem plain_lawful : plain.Lawful where
  semicolon := by
    intro data len h
    obtain ⟨front, rest, hcut, rfl⟩ := plain_fullStatement.mp h
    exact ⟨front, rest, (cut_eq_some hcut).1, rfl⟩
  stable := by
    intro data more len h
    obtain ⟨front, rest, hcut, rfl⟩ := plain_fullStatement.mp h
    obtain ⟨rfl, hfront⟩ := cut_eq_some hcut
    refine plain_fullStatement.mpr ⟨front, rest ++ more, ?_, rfl⟩
    rw [List.append_assoc, List.cons_append, cut_append hfront]
  newline := by
    intro data len h
    obtain ⟨front, rest, hcut, rfl⟩ := plain_fullStatement.mp h
    rw [cut, if_neg (by decide)] at hcut
    obtain ⟨⟨front, rest⟩, hrest, heq⟩ := Option.map_eq_some_iff.mp hcut
    cases heq
    refine ⟨byteLen front + 1, ?_, plain_fullStatement.mpr ⟨front, rest, hrest, rfl⟩⟩
    show byteLen ('\n' :: front) + 1 = byteLen front + 1 + 1
    rw [byteLen_cons]
    show 1 + byteLen front + 1 = byteLen front + 1 + 1
    omega
  empty_prefix := by
    intro data more h
    have hall : (data ++ more).all (fun c => isWhitespace c || c = ';') = true := h
    rw [List.all_append, Bool.and_eq_true] at hall
    exact hall.1
  empty_newline _ := rfl

/-- The commands that begin with `\e`. -/
def twoCommands : CommandCache :=
  ⟨[], [(['e'], .normal ⟨[], ['e']⟩)], [['\\', 'e'], ['\\', 'e', 'x']]⟩

/-- `1;` -/
theorem consumed_one : Consumed plain ['1', ';'] [.edgeql ['1', ';']] where
  splits := by
    refine .cons ⟨rfl, List.cons_ne_nil _ _, rfl, ?_, ?_⟩ (.nil [])
    · intro h
      cases h
    · exact plain_fullStatement.mpr ⟨['1'], [], rfl, rfl⟩
  complete := by
    intro st hst
    obtain rfl := List.mem_singleton.mp hst
    trivial

theorem cursorIn_mem {edgeql : Edgeql} {data front cmd : Text} {pos : Nat}
    (h : CursorIn edgeql data pos front cmd) : '\\' ∈ data := by
  obtain ⟨sts, behind, hsplits, -, hbegins, -⟩ := h
  have hmem : '\\' ∈ trimStart (cmd ++ behind) := List.mem_of_head? hbegins.cuts.1
  rw [hsplits.split]
  refine List.mem_append_right _ ?_
  rw [← leadingBlank_append_trimStart (cmd ++ behind)]
  exact List.mem_append_right _ hmem

/-- `2;` behind `1;` -/
theorem independent_iff_two :
    (∃ result, complete plain twoCommands ['1', ';', '2', ';'] 3 = some result) ∧
      Independent plain twoCommands ['1', ';'] ['2', ';'] 1 := by
  have hall := independent_iff plain plain_lawful twoCommands
  refine ⟨(hall.1 _ 3).2, (hall.2 _ _ consumed_one _ 1).mpr ⟨⟨?_, ?_, ?_⟩, ?_⟩⟩
  · intro _ s hbegins
    cases hbegins.cuts.1
  · intro h
    cases h
  · rintro ⟨-, hhead⟩
    cases hhead
  · intro front cmd hcursor
    have hmem := cursorIn_mem hcursor
    simp at hmem

/-- `\e` behind `1;` is completed at the start of the line. -/
theorem not_independent :
    ¬ ∀ edgeql : Edgeql, edgeql.Lawful → ∀ cache a sts, Consumed edgeql a sts → ∀ b c,
      Independent edgeql cache a b c := by
  intro h
  have hind := h plain plain_lawful twoCommands _ _ consumed_one ['\\', 'e'] 2
  have hb : complete plain twoCommands ['\\', 'e'] 2 =
      some (some (0, [⟨['\\', 'e'], ['\\', 'e']⟩, ⟨['\\', 'e', 'x'], ['\\', 'e', 'x']⟩])) := by
    rfl
  have hcomplete := hind.complete
  rw [hind.current.complete plain_lawful, hb] at hcomplete
  cases hcomplete

end GelCli.Repl.Completion
