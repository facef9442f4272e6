import Mathlib.Data.List.Basic

/-!
# Reading statements

`read_statement` of `statement.rs`: bytes are read into a buffer until the preparser of the
EdgeQL parser finds the end of a statement in it. What the preparser knows of the bytes
that it has seen is kept from one read to the next, and dropped between statements.
-/

namespace GelCli.Repl

abbrev Bytes := List UInt8

/-! ## The preparser -/

/-- `edgeql_parser::preparser`: the length of the first statement, or how to go on when
there are more bytes. -/
structure Preparser where
  Continuation : Type
  fullStatement : Bytes → Option Continuation → Except Continuation Nat

/-- A statement is not empty, it does not depend on what follows it, and the search is
resumed exactly where it stopped. -/
structure Preparser.Lawful (P : Preparser) : Prop where
  within : ∀ data len, P.fullStatement data none = .ok len → 0 < len ∧ len ≤ data.length
  stable : ∀ data more len, P.fullStatement data none = .ok len →
    P.fullStatement (data ++ more) none = .ok len
  resumes : ∀ data more cont, P.fullStatement data none = .error cont →
    P.fullStatement (data ++ more) (some cont) = P.fullStatement (data ++ more) none

/-! ## The reader -/

/-- `u8::is_ascii_whitespace` -/
def isAsciiWhitespace (b : UInt8) : Bool :=
  b = 0x20 ∨ b = 0x09 ∨ b = 0x0a ∨ b = 0x0c ∨ b = 0x0d

/-- The buffer, and the stream behind it: the reads that return bytes, and the error, if
any, of the read after them. Without one that read and all others return nothing. -/
structure Source where
  buf : Bytes
  reads : List {read : Bytes // read ≠ []}
  failure : Option String

/-- All bytes that there are. -/
def Source.bytes (source : Source) : Bytes :=
  source.buf ++ (source.reads.map Subtype.val).flatten

inductive ReadError where
  | endOfFile
  | reading (error : String)
deriving DecidableEq, Repr

/-- The `Display` of the errors, with their context. -/
def ReadError.display : ReadError → String
  | endOfFile => "end of file"
  | reading error => "error reading query: " ++ error

variable (P : Preparser)

/-- The read behind the last bytes: nothing or an error. -/
def readNothing (failure : Option String) (buf : Bytes) : Except ReadError Bytes × Bytes :=
  match failure with
  | some error => (.error (.reading error), buf)
  | none =>
      if buf.any fun x => !isAsciiWhitespace x then (.ok buf, [])
      else (.error .endOfFile, buf)

/-- The loop of `read_statement`: the statement, and what is left in the buffer and to read. -/
def readLoop (failure : Option String) (continuation : Option P.Continuation) (buf : Bytes)
    (reads : List {read : Bytes // read ≠ []}) :
    Except ReadError Bytes × Bytes × List {read : Bytes // read ≠ []} :=
  match P.fullStatement buf continuation with
  | .ok len => (.ok (buf.take len), buf.drop len, reads)
  | .error cont =>
      match reads with
      | [] => ((readNothing failure buf).1, (readNothing failure buf).2, [])
      | read :: reads => readLoop failure (some cont) (buf ++ read.val) reads

def readStatement (source : Source) : Except ReadError Bytes × Source :=
  let out := readLoop P source.failure none source.buf source.reads
  (out.1, ⟨out.2.1, out.2.2, source.failure⟩)

/-- The calls of a caller that reads until an error. -/
inductive Calls : Source → List Bytes → ReadError → Prop where
  | statement {source source' : Source} {data : Bytes} {statements : List Bytes} {e : ReadError}
      (hread : readStatement P source = (.ok data, source'))
      (hrest : Calls source' statements e) : Calls source (data :: statements) e
  | stop {source source' : Source} {e : ReadError}
      (hread : readStatement P source = (.error e, source')) : Calls source [] e

/-! ## Statements of the bytes -/

/-- The statements that bytes are cut into when all of them are seen at once. -/
inductive Cut (failure : Option String) : Bytes → List Bytes → ReadError → Prop where
  | statement {data : Bytes} {len : Nat} {statements : List Bytes} {e : ReadError}
      (hfull : P.fullStatement data none = .ok len)
      (hrest : Cut failure (data.drop len) statements e) :
      Cut failure data (data.take len :: statements) e
  | unfinished {data : Bytes} {cont : P.Continuation}
      (hfull : P.fullStatement data none = .error cont) (heof : failure = none)
      (hany : ∃ x ∈ data, isAsciiWhitespace x = false) : Cut failure data [data] .endOfFile
  | blank {data : Bytes} {cont : P.Continuation}
      (hfull : P.fullStatement data none = .error cont) (heof : failure = none)
      (hall : ∀ x ∈ data, isAsciiWhitespace x = true) : Cut failure data [] .endOfFile
  | failed {data : Bytes} {cont : P.Continuation} {error : String}
      (hfull : P.fullStatement data none = .error cont) (hfailure : failure = some error) :
      Cut failure data [] (.reading error)

variable {P}

theorem exists_cut (hP : P.Lawful) (failure : Option String) (data : Bytes) :
    ∃ statements e, Cut P failure data statements e := by
  induction hlen : data.length using Nat.strongRecOn generalizing data with
  | ind n ih =>
      cases hfull : P.fullStatement data none with
      | ok len =>
          obtain ⟨hpos, hle⟩ := hP.within data len hfull
          have hshorter : (data.drop len).length < n := by
            rw [List.length_drop]
            omega
          obtain ⟨statements, e, hrest⟩ := ih _ hshorter _ rfl
          exact ⟨_, e, .statement hfull hrest⟩
      | error cont =>
          cases hfailure : failure with
          | some error => exact ⟨[], _, .failed hfull rfl⟩
          | none =>
              by_cases hall : ∀ x ∈ data, isAsciiWhitespace x = true
              · exact ⟨[], _, .blank hfull rfl hall⟩
              · push Not at hall
                obtain ⟨x, hx, hne⟩ := hall
                exact ⟨[data], _, .unfinished hfull rfl ⟨x, hx, Bool.eq_false_iff.mpr hne⟩⟩

/-- No byte is lost, and at the end of the file only white space is left out. -/
theorem Cut.flatten {failure : Option String} {data : Bytes} {statements : List Bytes}
    {e : ReadError} (h : Cut P failure data statements e) :
    ∃ rest, statements.flatten ++ rest = data ∧
      (failure = none → e = .endOfFile ∧ ∀ x ∈ rest, isAsciiWhitespace x = true) := by
  induction h with
  | @statement data len statements e hfull hrest ih =>
      obtain ⟨rest, hflatten, hblank⟩ := ih
      refine ⟨rest, ?_, hblank⟩
      rw [List.flatten_cons, List.append_assoc, hflatten, List.take_append_drop]
  | @unfinished data cont hfull heof hany =>
      refine ⟨[], ?_, fun _ => ⟨rfl, fun x hx => by cases hx⟩⟩
      rw [List.append_nil, List.flatten_singleton]
  | @blank data cont hfull heof hall => exact ⟨data, rfl, fun _ => ⟨rfl, hall⟩⟩
  | @failed data cont error hfull hfailure =>
      refine ⟨data, rfl, fun heof => ?_⟩
      cases hfailure.symm.trans heof

/-! ## Calls -/

/-- A statement that all bytes begin with is found whatever part of them is buffered. -/
theorem readLoop_statement (hP : P.Lawful) {failure : Option String}
    {continuation : Option P.Continuation} {buf : Bytes}
    {reads : List {read : Bytes // read ≠ []}} {len : Nat}
    (hcont : P.fullStatement buf continuation = P.fullStatement buf none)
    (h : P.fullStatement (buf ++ (reads.map Subtype.val).flatten) none = .ok len) :
    ∃ buf' reads', readLoop P failure continuation buf reads =
        (.ok ((buf ++ (reads.map Subtype.val).flatten).take len), buf', reads') ∧
      buf' ++ (reads'.map Subtype.val).flatten =
        (buf ++ (reads.map Subtype.val).flatten).drop len := by
  induction reads generalizing continuation buf with
  | nil =>
      rw [List.map_nil, List.flatten_nil, List.append_nil] at h ⊢
      refine ⟨buf.drop len, [], ?_, List.append_nil _⟩
      rw [readLoop, hcont, h]
  | cons read reads ih =>
      cases hbuf : P.fullStatement buf none with
      | ok found =>
          -- the statement was buffered before, and the reads do not change it
          obtain rfl := Except.ok.inj ((hP.stable _ _ _ hbuf).symm.trans h)
          obtain ⟨-, hle⟩ := hP.within _ _ hbuf
          refine ⟨buf.drop found, read :: reads, ?_, ?_⟩
          · rw [readLoop, hcont, hbuf, List.take_append_of_le_length hle]
          · rw [List.drop_append_of_le_length hle]
      | error cont =>
          rw [List.map_cons, List.flatten_cons, ← List.append_assoc] at h ⊢
          obtain ⟨buf', reads', hloop, hleft⟩ := ih (hP.resumes buf read.val cont hbuf) h
          refine ⟨buf', reads', ?_, hleft⟩
          rw [readLoop, hcont, hbuf]
          exact hloop

/-- Without a statement in them all bytes are read. -/
theorem readLoop_rest (hP : P.Lawful) {failure : Option String}
    {continuation : Option P.Continuation} {buf : Bytes}
    {reads : List {read : Bytes // read ≠ []}} {cont : P.Continuation}
    (hcont : P.fullStatement buf continuation = P.fullStatement buf none)
    (h : P.fullStatement (buf ++ (reads.map Subtype.val).flatten) none = .error cont) :
    readLoop P failure continuation buf reads =
      ((readNothing failure (buf ++ (reads.map Subtype.val).flatten)).1,
        (readNothing failure (buf ++ (reads.map Subtype.val).flatten)).2, []) := by
  induction reads generalizing continuation buf with
  | nil =>
      rw [List.map_nil, List.flatten_nil, List.append_nil] at h ⊢
      rw [readLoop, hcont, h]
  | cons read reads ih =>
      cases hbuf : P.fullStatement buf none with
      | ok found => cases (hP.stable _ _ _ hbuf).symm.trans h
      | error cont' =>
          rw [List.map_cons, List.flatten_cons, ← List.append_assoc] at h ⊢
          rw [readLoop, hcont, hbuf]
          exact ih (hP.resumes buf read.val cont' hbuf) h

theorem readStatement_rest (hP : P.Lawful) {source : Source} {cont : P.Continuation}
    (h : P.fullStatement source.bytes none = .error cont) :
    readStatement P source = ((readNothing source.failure source.bytes).1,
      ⟨(readNothing source.failure source.bytes).2, [], source.failure⟩) := by
  rw [readStatement, readLoop_rest hP rfl h]
  rfl

theorem readNothing_blank {data : Bytes} (h : ∀ x ∈ data, isAsciiWhitespace x = true) :
    readNothing none data = (.error .endOfFile, data) := by
  refine if_neg ?_
  rw [List.any_eq_true]
  rintro ⟨x, hx, hne⟩
  rw [h x hx] at hne
  cases hne

theorem readNothing_unfinished {data : Bytes} (h : ∃ x ∈ data, isAsciiWhitespace x = false) :
    readNothing none data = (.ok data, []) := by
  obtain ⟨x, hx, hne⟩ := h
  exact if_pos (List.any_eq_true.mpr ⟨x, hx, by rw [hne]; rfl⟩)

theorem Preparser.Lawful.nil (hP : P.Lawful) : ∃ cont, P.fullStatement [] none = .error cont := by
  cases hfull : P.fullStatement [] none with
  | ok len =>
      obtain ⟨hpos, hle⟩ := hP.within [] len hfull
      rw [List.length_nil] at hle
      omega
  | error cont => exact ⟨cont, rfl⟩

/-- The calls return the statements of the bytes. -/
theorem Cut.calls (hP : P.Lawful) {failure : Option String} {data : Bytes}
    {statements : List Bytes} {e : ReadError} (h : Cut P failure data statements e) :
    ∀ source : Source, source.bytes = data → source.failure = failure →
      Calls P source statements e := by
  induction h with
  | @statement data len statements e hfull hrest ih =>
      rintro source rfl rfl
      obtain ⟨buf', reads', hloop, hleft⟩ := readLoop_statement hP rfl hfull
      refine .statement ?_ (ih ⟨buf', reads', source.failure⟩ hleft rfl)
      rw [readStatement, hloop]
      rfl
  | @unfinished data cont hfull heof hany =>
      rintro source rfl hfailure
      rw [heof] at hfailure
      obtain ⟨cont', hnil⟩ := hP.nil
      have hread := readStatement_rest hP hfull
      rw [hfailure, readNothing_unfinished hany] at hread
      have hlast := @readStatement_rest P hP ⟨[], [], none⟩ cont' hnil
      exact .statement hread (.stop hlast)
  | @blank data cont hfull heof hall =>
      rintro source rfl hfailure
      rw [heof] at hfailure
      have hread := readStatement_rest hP hfull
      rw [hfailure, readNothing_blank hall] at hread
      exact .stop hread
  | @failed data cont error hfull hfail =>
      rintro source rfl hfailure
      rw [hfail] at hfailure
      have hread := readStatement_rest hP hfull
      rw [hfailure] at hread
      exact .stop hread

theorem Calls.unique {source : Source} {statements statements' : List Bytes} {e e' : ReadError}
    (h : Calls P source statements e) (h' : Calls P source statements' e') :
    statements' = statements ∧ e' = e := by
  induction h generalizing statements' with
  | statement hread hrest ih =>
      cases h' with
      | statement hread' hrest' =>
          cases hread.symm.trans hread'
          obtain ⟨rfl, rfl⟩ := ih hrest'
          exact ⟨rfl, rfl⟩
      | stop hread' => cases hread.symm.trans hread'
  | stop hread =>
      cases h' with
      | statement hread' hrest' => cases hread.symm.trans hread'
      | stop hread' =>
          cases hread.symm.trans hread'
          exact ⟨rfl, rfl⟩

/-! ## Cuttings of a stream -/

/-- What repeated calls return for a source. -/
def Returns (P : Preparser) (source : Source) (statements : List Bytes) (e : ReadError) : Prop :=
  ∀ statements' e', Calls P source statements' e' ↔ statements' = statements ∧ e' = e

/-- The reads do not matter, and the statements are the bytes that were read. -/
structure SameReading (P : Preparser) (first second : Source) : Prop where
  same : ∃ statements e, Returns P first statements e ∧ Returns P second statements e
  whole : ∀ statements e, Calls P first statements e → ∃ rest,
    statements.flatten ++ rest = first.bytes ∧
      (first.failure = none → e = .endOfFile ∧ ∀ x ∈ rest, isAsciiWhitespace x = true)

theorem Cut.returns (hP : P.Lawful) {source : Source} {statements : List Bytes} {e : ReadError}
    (h : Cut P source.failure source.bytes statements e) : Returns P source statements e := by
  have hcalls := h.calls hP source rfl rfl
  intro statements' e'
  constructor
  · exact fun h' => hcalls.unique h'
  · rintro ⟨rfl, rfl⟩
    exact hcalls

/-- **Repeated calls return the same statements and the same error for all cuttings of a
stream into reads, and the statements are the stream without white space behind them.** -/
theorem sameReading (P : Preparser) (hP : P.Lawful) (first second : Source)
    (hbytes : first.bytes = second.bytes) (hfailure : first.failure = second.failure) :
    SameReading P first second := by
  obtain ⟨statements, e, hcut⟩ := exists_cut hP first.failure first.bytes
  have hfirst := hcut.returns hP
  have hsecond : Cut P second.failure second.bytes statements e := by
    rwa [hbytes, hfailure] at hcut
  refine ⟨⟨statements, e, hfirst, hsecond.returns hP⟩, fun statements' e' hcalls => ?_⟩
  obtain ⟨rfl, rfl⟩ := (hfirst statements' e').mp hcalls
  exact hcut.flatten

/-! ## Statements that end with semicolons -/

def throughSemicolon (position total : Nat) : Option Nat → Except Nat Nat
  | some i => .ok (position + i + 1)
  | none => .error total

/-- A preparser for texts without quotes, brackets and comments. -/
def semicolons : Preparser where
  Continuation := Nat
  fullStatement data continuation :=
    throughSemicolon (continuation.getD 0) data.length
      ((data.drop (continuation.getD 0)).findIdx? (· = 0x3b))

theorem semicolons_none (data : Bytes) : semicolons.fullStatement data none =
    throughSemicolon 0 data.length (data.findIdx? (· = 0x3b)) := rfl

theorem semicolons_lawful : semicolons.Lawful where
  within := by
    intro data len h
    rw [semicolons_none] at h
    cases hfind : data.findIdx? (· = 0x3b) with
    | none =>
        rw [hfind] at h
        cases h
    | some i =>
        rw [hfind] at h
        obtain ⟨hlt, -⟩ := List.findIdx?_eq_some_iff_getElem.mp hfind
        cases h
        omega
  stable := by
    intro data more len h
    rw [semicolons_none] at h ⊢
    rw [List.findIdx?_append]
    cases hfind : data.findIdx? (· = 0x3b) with
    | none =>
        rw [hfind] at h
        cases h
    | some i =>
        rw [hfind] at h
        exact h
  resumes := by
    intro data more cont h
    rw [semicolons_none] at h ⊢
    cases hfind : data.findIdx? (· = 0x3b) with
    | some i =>
        rw [hfind] at h
        cases h
    | none =>
        rw [hfind] at h
        cases h
        show throughSemicolon data.length _ (((data ++ more).drop data.length).findIdx? _) = _
        rw [List.findIdx?_append, hfind, Option.none_or, List.drop_left]
        cases more.findIdx? (· = 0x3b) with
        | none => rfl
        | some i =>
            show Except.ok (data.length + i + 1) = Except.ok (0 + (i + data.length) + 1)
            rw [Nat.zero_add, Nat.add_comm i]

/-- `"a;b;\n"` in two reads and in one. -/
theorem sameReading_two :
    SameReading semicolons ⟨[], [⟨[97, 59, 98], by decide⟩, ⟨[59, 10], by decide⟩], none⟩
      ⟨[], [⟨[97, 59, 98, 59, 10], by decide⟩], none⟩ :=
  sameReading semicolons semicolons_lawful _ _ rfl rfl

end GelCli.Repl
