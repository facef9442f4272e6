import GelCli.Foundation.Text

/-!
# JSON texts

A reader of JSON texts, and which texts write a value: with blanks wherever they may stand,
and the literals of strings and numbers as they are read. `parse_laid` says that the reader
returns the value that a text writes. How the literals of numbers are read is a parameter.
-/

namespace GelCli.Foundation

/-- The members of an object are in the order of the text. -/
inductive JsonValue (N : Type) where
  | null
  | bool (b : Bool)
  | number (n : N)
  | string (s : String)
  | array (items : List (JsonValue N))
  | object (members : List (String × JsonValue N))

namespace JsonText

/-! ## Blanks -/

def isBlank (c : Char) : Bool := c = ' ' || c = '\t' || c = '\n' || c = '\r'

def Blank (t : Text) : Prop := ∀ c ∈ t, isBlank c = true

def skipBlanks (t : Text) : Text := t.dropWhile isBlank

theorem blank_nil : Blank [] := by
  intro c hc
  cases hc

theorem Blank.append {a b : Text} (ha : Blank a) (hb : Blank b) : Blank (a ++ b) := by
  intro c hc
  rcases List.mem_append.mp hc with hc | hc
  · exact ha c hc
  · exact hb c hc

theorem skipBlanks_append {blanks : Text} (h : Blank blanks) (t : Text) :
    skipBlanks (blanks ++ t) = skipBlanks t :=
  List.dropWhile_append_of_pos h

theorem skipBlanks_cons {c : Char} (hc : isBlank c = false) (t : Text) :
    skipBlanks (c :: t) = c :: t := by
  rw [skipBlanks, List.dropWhile_cons_of_neg (by simp [hc])]

/-! ## Strings -/

def hexDigit (c : Char) : Option Nat :=
  if c.isDigit then some (c.toNat - 48)
  else if 'a' ≤ c ∧ c ≤ 'f' then some (c.toNat - 87)
  else if 'A' ≤ c ∧ c ≤ 'F' then some (c.toNat - 55)
  else none

/-- So many hexadecimal digits behind a value that is read already. -/
def readHex : Nat → Nat → Text → Option (Nat × Text)
  | 0, value, t => some (value, t)
  | _ + 1, _, [] => none
  | digits + 1, value, c :: t => (hexDigit c).bind fun d => readHex digits (16 * value + d) t

/-- The code behind `\u`; a high surrogate needs a low one behind it. -/
def readUnicode (t : Text) : Option (Char × Text) :=
  (readHex 4 0 t).bind fun (high, t) =>
    if 0xD800 ≤ high ∧ high < 0xDC00 then
      if t.take 2 = ['\\', 'u'] then
        (readHex 4 0 (t.drop 2)).bind fun (low, t) =>
          if 0xDC00 ≤ low ∧ low < 0xE000 then
            some (Char.ofNat (0x10000 + (high - 0xD800) * 0x400 + (low - 0xDC00)), t)
          else none
      else none
    else if 0xDC00 ≤ high ∧ high < 0xE000 then none
    else some (Char.ofNat high, t)

def escapes : List (Char × Char) :=
  [('"', '"'), ('\\', '\\'), ('/', '/'), ('b', '\x08'), ('f', '\x0c'), ('n', '\n'), ('r', '\r'),
    ('t', '\t')]

/-- The character that is written behind a backslash. -/
def readEscape : Text → Option (Char × Text)
  | [] => none
  | c :: t => if c = 'u' then readUnicode t else (escapes.lookup c).map fun d => (d, t)

/-- The characters up to the closing quote; every turn takes something off. -/
def readChars : Nat → Text → Option (Text × Text)
  | 0, _ => none
  | _ + 1, [] => none
  | turns + 1, c :: t =>
      if c = '"' then some ([], t)
      else if c = '\\' then
        (readEscape t).bind fun (d, t) => (readChars turns t).map fun (s, rest) => (d :: s, rest)
      else if c < ' ' then none
      else (readChars turns t).map fun (s, rest) => (c :: s, rest)

def readString : Text → Option (String × Text)
  | [] => none
  | c :: t =>
      if c = '"' then
        (readChars (t.length + 1) t).map fun (s, rest) => (String.ofList s, rest)
      else none

/-- The text is a literal of the string. -/
def StringLiteral (s : String) (t : Text) : Prop :=
  ∀ rest, readString (t ++ rest) = some (s, rest)

theorem StringLiteral.quote {s : String} {t : Text} (h : StringLiteral s t) :
    ∃ body, t = '"' :: body := by
  have hread := h []
  rw [List.append_nil] at hread
  cases t with
  | nil => cases hread
  | cons c body =>
      rw [readString] at hread
      by_cases hc : c = '"'
      · exact ⟨body, by rw [hc]⟩
      · rw [if_neg hc] at hread
        cases hread

/-! ## Numbers -/

def isNumberChar (c : Char) : Bool :=
  c.isDigit || c = '-' || c = '+' || c = '.' || c = 'e' || c = 'E'

section Reading

variable {N : Type} (number : Text → Option N)

/-- The text is a literal of the number. -/
structure NumberLiteral (n : N) (t : Text) : Prop where
  chars : ∀ c ∈ t, isNumberChar c = true
  first : ∃ c rest, t = c :: rest ∧ (c.isDigit || c = '-') = true
  reads : number t = some n

/-- No longer literal of a number begins before the text. -/
def Apart (t : Text) : Prop := ∀ c rest, t = c :: rest → isNumberChar c = false

/-! ## Values -/

section Lists

variable {α : Type} (read : Text → Option (α × Text)) (close : Char)

/-- The elements from one on, up to the closing bracket. -/
def readElements : Nat → Text → Option (List α × Text)
  | 0, _ => none
  | turns + 1, t =>
      (read t).bind fun (a, t) =>
        match skipBlanks t with
        | [] => none
        | c :: rest =>
            if c = ',' then
              (readElements turns rest).map fun (as, rest) => (a :: as, rest)
            else if c = close then some ([a], rest)
            else none

/-- The elements between two brackets, of which the first is read already. -/
def readList (t : Text) : Option (List α × Text) :=
  if (skipBlanks t).head? = some close then some ([], (skipBlanks t).tail)
  else readElements read close (t.length + 1) t

def readMember (t : Text) : Option ((String × α) × Text) :=
  (readString (skipBlanks t)).bind fun (key, t) =>
    if (skipBlanks t).head? = some ':' then
      (read (skipBlanks t).tail).map fun (value, rest) => ((key, value), rest)
    else none

end Lists

def literals : List (Text × JsonValue N) :=
  [("null".toList, .null), ("true".toList, .bool true), ("false".toList, .bool false)]

/-- A value behind blanks, nested in at most so many others. -/
def readValue : Nat → Text → Option (JsonValue N × Text)
  | 0, _ => none
  | depth + 1, t =>
      match skipBlanks t with
      | [] => none
      | c :: rest =>
          if c = '"' then (readString (c :: rest)).map fun (s, rest) => (.string s, rest)
          else if c = '[' then
            (readList (readValue depth) ']' rest).map fun (items, rest) => (.array items, rest)
          else if c = '\x7b' then
            (readList (readMember (readValue depth)) '\x7d' rest).map fun (members, rest) =>
              (.object members, rest)
          else if c.isDigit || c = '-' then
            (number ((c :: rest).takeWhile isNumberChar)).map fun n =>
              (.number n, (c :: rest).dropWhile isNumberChar)
          else
            (literals.find? fun literal => literal.1.isPrefixOf (c :: rest)).map fun literal =>
              (literal.2, (c :: rest).drop literal.1.length)

/-- The value of a whole text. -/
def parse (t : Text) : Option (JsonValue N) :=
  match readValue number (t.length + 1) t with
  | some (value, rest) => if skipBlanks rest = [] then some value else none
  | none => none

/-! ## What texts write a value -/

/-- Blanks before an element, with a comma in them if it is not the first. -/
def Lead (first : Bool) (t : Text) : Prop :=
  ∃ before after, Blank before ∧ Blank after ∧
    t = if first then after else before ++ ',' :: after

/-- The elements one behind the other. -/
def Separated : List (Text → Prop) → Bool → Text → Prop
  | [], _, t => t = []
  | writes :: rest, first, t =>
      ∃ lead body tail, Lead first lead ∧ writes body ∧ Separated rest false tail ∧
        t = lead ++ body ++ tail

def Bracketed (opening closing : Char) (elements : List (Text → Prop)) (t : Text) : Prop :=
  ∃ inner blanks, Separated elements true inner ∧ Blank blanks ∧
    t = opening :: (inner ++ blanks ++ [closing])

def WritesMember (key : String) (writes : Text → Prop) (t : Text) : Prop :=
  ∃ name before after body, StringLiteral key name ∧ Blank before ∧ Blank after ∧ writes body ∧
    t = name ++ before ++ ':' :: after ++ body

mutual

/-- The text writes the value, without blanks around it. -/
def Writes : JsonValue N → Text → Prop
  | .null, t => t = "null".toList
  | .bool b, t => t = (if b then "true" else "false").toList
  | .number n, t => NumberLiteral number n t
  | .string s, t => StringLiteral s t
  | .array items, t => Bracketed '[' ']' (writesItems items) t
  | .object members, t => Bracketed '\x7b' '\x7d' (writesMembers members) t

def writesItems : List (JsonValue N) → List (Text → Prop)
  | [] => []
  | item :: items => Writes item :: writesItems items

def writesMembers : List (String × JsonValue N) → List (Text → Prop)
  | [] => []
  | (key, value) :: members => WritesMember key (Writes value) :: writesMembers members

end

variable {number}

theorem writesItems_eq (items : List (JsonValue N)) :
    writesItems number items = items.map (Writes number) := by
  induction items with
  | nil => rw [writesItems, List.map_nil]
  | cons item items ih => rw [writesItems, ih, List.map_cons]

theorem writesMembers_eq (members : List (String × JsonValue N)) :
    writesMembers number members =
      members.map fun member => WritesMember member.1 (Writes number member.2) := by
  induction members with
  | nil => rw [writesMembers, List.map_nil]
  | cons member members ih =>
      obtain ⟨key, value⟩ := member
      rw [writesMembers, ih, List.map_cons]

/-! ## Reading what is written -/

/-- Behind blanks the reader takes each of these texts for its value, where no number goes on
behind it. -/
def ReadsAs {α : Type} (read : Text → Option (α × Text)) (writes : Text → Prop) (a : α)
    (bound : Nat) : Prop :=
  ∀ body, writes body → body.length < bound → ∀ blanks rest, Blank blanks → Apart rest →
    read (blanks ++ body ++ rest) = some (a, rest)

/-- The text begins with neither a blank nor a closing bracket. -/
def Begins (t : Text) : Prop :=
  ∃ c rest, t = c :: rest ∧ isBlank c = false ∧ c ≠ ']' ∧ c ≠ '\x7d'

theorem apart_cons {c : Char} (hc : isNumberChar c = false) (t : Text) : Apart (c :: t) := by
  intro d rest heq
  rw [← (List.cons.inj heq).1]
  exact hc

theorem apart_blanks {blanks : Text} (h : Blank blanks) {t : Text} (ht : Apart t) :
    Apart (blanks ++ t) := by
  cases blanks with
  | nil => exact ht
  | cons c blanks =>
      apply apart_cons
      have hc := h c List.mem_cons_self
      simp only [isBlank, Bool.or_eq_true, decide_eq_true_eq] at hc
      rcases hc with ((rfl | rfl) | rfl) | rfl <;> rfl

theorem apart_nil : Apart [] := by
  intro c rest heq
  cases heq

section Lists

variable {α : Type} {read : Text → Option (α × Text)} {close : Char} {bound : Nat}

theorem closing_char (h : close = ']' ∨ close = '\x7d') :
    isBlank close = false ∧ close ≠ ',' ∧ isNumberChar close = false := by
  rcases h with rfl | rfl
  · exact ⟨rfl, by decide, rfl⟩
  · exact ⟨rfl, by decide, rfl⟩

theorem lead_false {t : Text} (h : Lead false t) :
    ∃ before after, Blank before ∧ Blank after ∧ t = before ++ ',' :: after := h

/-- Behind the first element. -/
theorem readElements_separated (hclose : close = ']' ∨ close = '\x7d')
    (writes : α → Text → Prop) {a : α} {as : List α}
    (h : ∀ b ∈ a :: as, ReadsAs read (writes b) b bound) {body tail blanks rest : Text}
    (hbody : writes a body) (htail : Separated (as.map writes) false tail) (hblanks : Blank blanks)
    (hlength : body.length + tail.length < bound) {turns : Nat} (hturns : as.length < turns)
    {lead : Text} (hlead : Blank lead) :
    readElements read close turns (lead ++ body ++ tail ++ blanks ++ close :: rest) =
      some (a :: as, rest) := by
  obtain ⟨hblank, hcomma, happart⟩ := closing_char hclose
  induction as generalizing a body tail turns lead with
  | nil =>
      -- the turn that finds the bracket behind the last element
      obtain ⟨turns, rfl⟩ := Nat.exists_eq_succ_of_ne_zero (Nat.ne_zero_of_lt hturns)
      obtain rfl : tail = [] := htail
      have hread := h a List.mem_cons_self body hbody (by omega) lead
        (blanks ++ close :: rest) hlead (apart_blanks hblanks (apart_cons happart rest))
      rw [List.append_nil, List.append_assoc, readElements, hread]
      simp only [Option.bind]
      rw [skipBlanks_append hblanks, skipBlanks_cons hblank]
      simp only [if_neg hcomma, if_true]
  | cons b as ih =>
      obtain ⟨turns, rfl⟩ := Nat.exists_eq_succ_of_ne_zero (Nat.ne_zero_of_lt hturns)
      obtain ⟨lead', body', tail', hlead', hbody', htail', rfl⟩ := htail
      obtain ⟨before, after, hbefore, hafter, rfl⟩ := lead_false hlead'
      have hrest := ih (fun c hc => h c (List.mem_cons_of_mem _ hc)) hbody' htail'
        -- the rest is read from behind the comma, with the blanks `after` in front of it
        (by simp only [List.length_append] at hlength; omega)
        (by simpa using hturns) hafter
      have hread := h a List.mem_cons_self body hbody (by omega) lead
        (before ++ ',' :: (after ++ body' ++ tail' ++ blanks ++ close :: rest)) hlead
        (apart_blanks hbefore (apart_cons (by decide) _))
      have hsplit : lead ++ body ++ (before ++ ',' :: after ++ body' ++ tail') ++ blanks ++
          close :: rest =
          lead ++ body ++
            (before ++ ',' :: (after ++ body' ++ tail' ++ blanks ++ close :: rest)) := by
        simp only [List.append_assoc, List.cons_append]
      rw [hsplit, readElements, hread]
      simp only [Option.bind]
      rw [skipBlanks_append hbefore, skipBlanks_cons (by decide)]
      simp only [if_true]
      rw [hrest]
      rfl

theorem lead_true {t : Text} (h : Lead true t) : Blank t := by
  obtain ⟨before, after, -, hafter, rfl⟩ := h
  exact hafter

theorem length_le_of_separated {writes : List (Text → Prop)} {t : Text}
    (h : Separated writes false t) : writes.length ≤ t.length := by
  induction writes generalizing t with
  | nil => exact Nat.zero_le _
  | cons _ rest ih =>
      obtain ⟨lead, body, tail, hlead, -, htail, rfl⟩ := h
      obtain ⟨before, after, -, -, rfl⟩ := lead_false hlead
      have hrest := ih htail
      simp only [List.length_append, List.length_cons]
      omega

theorem readList_bracketed (rest : Text) (hclose : close = ']' ∨ close = '\x7d')
    (writes : α → Text → Prop) {as : List α} (h : ∀ b ∈ as, ReadsAs read (writes b) b bound)
    (hbegins : ∀ b ∈ as, ∀ body, writes b body → Begins body) {inner blanks : Text}
    (hinner : Separated (as.map writes) true inner) (hblanks : Blank blanks)
    (hlength : inner.length < bound) :
    readList read close (inner ++ blanks ++ close :: rest) = some (as, rest) := by
  cases as with
  | nil =>
      obtain rfl : inner = [] := hinner
      have hskip : skipBlanks ([] ++ blanks ++ close :: rest) = close :: rest := by
        rw [List.nil_append, skipBlanks_append hblanks, skipBlanks_cons (closing_char hclose).1]
      rw [readList, hskip]
      exact if_pos rfl
  | cons a as =>
      obtain ⟨after, body, tail, hlead, hbody, htail, rfl⟩ := hinner
      have hafter := lead_true hlead
      obtain ⟨c, more, rfl, hblank, hbracket, hbrace⟩ := hbegins a List.mem_cons_self body hbody
      have hskip : skipBlanks (after ++ (c :: more) ++ tail ++ blanks ++ close :: rest) =
          c :: (more ++ tail ++ blanks ++ close :: rest) := by
        simp only [List.append_assoc, List.cons_append]
        rw [skipBlanks_append hafter, skipBlanks_cons hblank]
      -- the first element is not taken for the bracket of an empty list
      have hne : c ≠ close := by
        rcases hclose with rfl | rfl
        · exact hbracket
        · exact hbrace
      have htailLength := length_le_of_separated htail
      rw [List.length_map] at htailLength
      simp only [List.length_append] at hlength
      have hhead : (c :: (more ++ tail ++ blanks ++ close :: rest)).head? ≠ some close :=
        fun heq => hne (Option.some.inj heq)
      rw [readList, hskip, if_neg hhead]
      apply readElements_separated hclose writes h hbody htail hblanks (by omega) _ hafter
      simp only [List.length_append]
      omega

theorem readMember_writes {key : String} {value : α} {writes : Text → Prop}
    (h : ReadsAs read writes value bound) :
    ReadsAs (readMember read) (WritesMember key writes) (key, value) bound := by
  rintro _ ⟨name, before, after, body, hname, hbefore, hafter, hbody, rfl⟩ hlength blanks rest
    hblanks hrest
  obtain ⟨more, rfl⟩ := hname.quote
  have hskip : skipBlanks (blanks ++ ('"' :: more ++ before ++ ':' :: after ++ body) ++ rest) =
      ('"' :: more) ++ (before ++ ':' :: (after ++ body ++ rest)) := by
    simp only [List.append_assoc, List.cons_append]
    rw [skipBlanks_append hblanks, skipBlanks_cons rfl]
  have hcolon : skipBlanks (before ++ ':' :: (after ++ body ++ rest)) =
      ':' :: (after ++ body ++ rest) := by
    rw [skipBlanks_append hbefore, skipBlanks_cons rfl]
  have hvalue := h body hbody (by simp only [List.length_append] at hlength; omega) after rest
    hafter hrest
  rw [readMember, hskip, hname]
  simp only [Option.bind]
  rw [hcolon]
  simp only [List.head?_cons, if_true, List.tail_cons]
  rw [hvalue]
  rfl

end Lists

theorem begins_of_quote (t : Text) : Begins ('"' :: t) :=
  ⟨'"', t, rfl, rfl, by decide, by decide⟩

theorem begins_of_number {c : Char} (hc : (c.isDigit || c = '-') = true) (t : Text) :
    Begins (c :: t) := by
  refine ⟨c, t, rfl, ?_, ?_, ?_⟩
  · by_contra hblank
    rw [Bool.not_eq_false] at hblank
    simp only [isBlank, Bool.or_eq_true, decide_eq_true_eq] at hblank
    rcases hblank with ((rfl | rfl) | rfl) | rfl <;> exact absurd hc (by decide)
  · rintro rfl
    exact absurd hc (by decide)
  · rintro rfl
    exact absurd hc (by decide)

theorem begins_of_writes {value : JsonValue N} {t : Text} (h : Writes number value t) :
    Begins t := by
  cases value with
  | null =>
      rw [Writes] at h
      exact ⟨'n', "ull".toList, h, rfl, by decide, by decide⟩
  | bool b =>
      rw [Writes] at h
      cases b with
      | true => exact ⟨'t', "rue".toList, h, rfl, by decide, by decide⟩
      | false => exact ⟨'f', "alse".toList, h, rfl, by decide, by decide⟩
  | number n =>
      rw [Writes] at h
      obtain ⟨c, rest, rfl, hc⟩ := h.first
      exact begins_of_number hc rest
  | string s =>
      rw [Writes] at h
      obtain ⟨body, rfl⟩ := h.quote
      exact begins_of_quote body
  | array items =>
      rw [Writes] at h
      obtain ⟨inner, blanks, -, -, rfl⟩ := h
      exact ⟨'[', inner ++ blanks ++ [']'], rfl, rfl, by decide, by decide⟩
  | object members =>
      rw [Writes] at h
      obtain ⟨inner, blanks, -, -, rfl⟩ := h
      exact ⟨'\x7b', inner ++ blanks ++ ['\x7d'], rfl, rfl, by decide, by decide⟩

theorem begins_of_writesMember {key : String} {writes : Text → Prop} {t : Text}
    (h : WritesMember key writes t) : Begins t := by
  obtain ⟨name, before, after, body, hname, -, -, -, rfl⟩ := h
  obtain ⟨more, rfl⟩ := hname.quote
  exact begins_of_quote (more ++ before ++ ':' :: after ++ body)

theorem takeWhile_number {t rest : Text} (ht : ∀ c ∈ t, isNumberChar c = true)
    (hrest : Apart rest) :
    (t ++ rest).takeWhile isNumberChar = t ∧ (t ++ rest).dropWhile isNumberChar = rest := by
  have hstop : rest.takeWhile isNumberChar = [] ∧ rest.dropWhile isNumberChar = rest := by
    cases rest with
    | nil => exact ⟨rfl, rfl⟩
    | cons c rest =>
        have hc := hrest c rest rfl
        exact ⟨List.takeWhile_cons_of_neg (by simp [hc]), List.dropWhile_cons_of_neg (by simp [hc])⟩
  rw [List.takeWhile_append_of_pos ht, List.dropWhile_append_of_pos ht, hstop.1, hstop.2,
    List.append_nil]
  exact ⟨rfl, rfl⟩

/-- **The reader returns the value that a text writes**, if it is not nested too deeply. -/
theorem readValue_writes (depth : Nat) (value : JsonValue N) :
    ReadsAs (readValue number depth) (Writes number value) value depth := by
  induction depth generalizing value with
  | zero => exact fun _ _ hlength => absurd hlength (Nat.not_lt_zero _)
  | succ depth ih =>
      -- the induction is on the depth: a value inside brackets is shorter than the whole text
      intro body hbody hlength blanks rest hblanks hrest
      obtain ⟨c, more, hbegins, hblank, -, -⟩ := begins_of_writes hbody
      have hskip : skipBlanks (blanks ++ body ++ rest) = c :: (more ++ rest) := by
        rw [hbegins, List.append_assoc, skipBlanks_append hblanks, List.cons_append,
          skipBlanks_cons hblank]
      rw [readValue, hskip]
      cases value with
      | null =>
          rw [Writes] at hbody
          obtain ⟨rfl, rfl⟩ := List.cons.inj (hbegins.symm.trans hbody)
          rfl
      | bool b =>
          rw [Writes] at hbody
          cases b with
          | true =>
              obtain ⟨rfl, rfl⟩ := List.cons.inj (hbegins.symm.trans hbody)
              rfl
          | false =>
              obtain ⟨rfl, rfl⟩ := List.cons.inj (hbegins.symm.trans hbody)
              rfl
      | number n =>
          rw [Writes, hbegins] at hbody
          obtain ⟨_, _, heq, hc⟩ := hbody.first
          obtain ⟨rfl, rfl⟩ := List.cons.inj heq
          -- a number begins with none of the characters that are looked at before it
          have hquote : c ≠ '"' := by
            rintro rfl
            exact absurd hc (by decide)
          have hbracket : c ≠ '[' := by
            rintro rfl
            exact absurd hc (by decide)
          have hbrace : c ≠ '\x7b' := by
            rintro rfl
            exact absurd hc (by decide)
          obtain ⟨htake, hdrop⟩ := takeWhile_number hbody.chars hrest
          rw [List.cons_append] at htake hdrop
          simp only [if_neg hquote, if_neg hbracket, if_neg hbrace, if_pos hc]
          rw [htake, hdrop, hbody.reads]
          rfl
      | string s =>
          rw [Writes] at hbody
          obtain ⟨rest', rfl⟩ := hbody.quote
          obtain ⟨rfl, rfl⟩ := List.cons.inj hbegins
          have hread := hbody rest
          rw [List.cons_append] at hread
          simp only [if_true, hread]
          rfl
      | array items =>
          rw [Writes, writesItems_eq] at hbody
          obtain ⟨inner, blanks', hinner, hblanks', rfl⟩ := hbody
          obtain ⟨rfl, rfl⟩ := List.cons.inj hbegins
          have hread := readList_bracketed rest (.inl rfl) (Writes number) (fun item _ => ih item)
            (fun _ _ _ => begins_of_writes) hinner hblanks'
            (by simp only [List.length_append, List.length_cons] at hlength; omega)
          have hmore : inner ++ blanks' ++ [']'] ++ rest = inner ++ blanks' ++ ']' :: rest := by
            rw [List.append_assoc, List.singleton_append]
          rw [hmore]
          show (readList (readValue number depth) ']' _).map _ = _
          rw [hread]
          rfl
      | object members =>
          rw [Writes, writesMembers_eq] at hbody
          obtain ⟨inner, blanks', hinner, hblanks', rfl⟩ := hbody
          obtain ⟨rfl, rfl⟩ := List.cons.inj hbegins
          have hread := readList_bracketed rest (.inr rfl)
            (fun member : String × JsonValue N => WritesMember member.1 (Writes number member.2))
            (fun member _ => readMember_writes (ih member.2))
            (fun _ _ _ => begins_of_writesMember) hinner hblanks'
            (by simp only [List.length_append, List.length_cons] at hlength; omega)
          have hmore :
              inner ++ blanks' ++ ['\x7d'] ++ rest = inner ++ blanks' ++ '\x7d' :: rest := by
            rw [List.append_assoc, List.singleton_append]
          rw [hmore]
          show (readList (readMember (readValue number depth)) '\x7d' _).map _ = _
          rw [hread]
          rfl

theorem parse_writes {value : JsonValue N} {before t after : Text} (h : Writes number value t)
    (hbefore : Blank before) (hafter : Blank after) :
    parse number (before ++ t ++ after) = some value := by
  have hlength : t.length < (before ++ t ++ after).length + 1 := by
    simp only [List.length_append]
    omega
  have happart : Apart after := by
    have hblanks := apart_blanks hafter apart_nil
    rwa [List.append_nil] at hblanks
  have hread := readValue_writes _ value t h hlength before after hbefore happart
  have hskip : skipBlanks after = [] := by
    have hblanks := skipBlanks_append hafter []
    rw [List.append_nil] at hblanks
    exact hblanks
  rw [parse, hread]
  exact if_pos hskip

end Reading

/-! ## A writer of string literals -/

def hexChar (n : Nat) : Char := "0123456789abcdef".toList.getD n '0'

/-- Control characters are escaped, those that have a short escape with it. -/
def escapeChar (c : Char) : Text :=
  match escapes.find? fun escape => escape.2 = c && escape.1 ≠ '/' with
  | some escape => ['\\', escape.1]
  | none =>
      if c < ' ' then ['\\', 'u', '0', '0', hexChar (c.toNat / 16), hexChar (c.toNat % 16)]
      else [c]

def quoted (s : String) : Text := '"' :: (s.toList.flatMap escapeChar ++ ['"'])

theorem hexDigit_hexChar {n : Nat} (h : n < 16) : hexDigit (hexChar n) = some n := by
  have hall : ∀ n < 16, hexDigit (hexChar n) = some n := by decide
  exact hall n h

theorem readEscape_control {c : Char} (hc : c < ' ') (t : Text) :
    readEscape ('u' :: '0' :: '0' :: hexChar (c.toNat / 16) :: hexChar (c.toNat % 16) :: t) =
      some (c, t) := by
  have hsmall : c.toNat < 32 := hc
  have hzero : hexDigit '0' = some 0 := by decide
  have hhigh := hexDigit_hexChar (show c.toNat / 16 < 16 by omega)
  have hlow := hexDigit_hexChar (Nat.mod_lt c.toNat (show 0 < 16 by decide))
  have hread : readHex 4 0 ('0' :: '0' :: hexChar (c.toNat / 16) :: hexChar (c.toNat % 16) :: t) =
      some (c.toNat, t) := by
    simp only [readHex, hzero, hhigh, hlow, Option.bind]
    rw [show 16 * (16 * (16 * (16 * 0 + 0) + 0) + c.toNat / 16) + c.toNat % 16 = c.toNat by omega]
  rw [readEscape, if_pos rfl, readUnicode, hread]
  simp only [Option.bind]
  rw [if_neg (by omega), if_neg (by omega), Char.ofNat_toNat]

theorem readEscape_short {escape : Char × Char} (h : escape ∈ escapes) (t : Text) :
    readEscape (escape.1 :: t) = some (escape.2, t) := by
  have hall : (escapes.all fun escape =>
      escape.1 ≠ 'u' && escapes.lookup escape.1 = some escape.2) = true := by decide
  have hescape := List.all_eq_true.mp hall escape h
  rw [Bool.and_eq_true, decide_eq_true_eq, decide_eq_true_eq] at hescape
  rw [readEscape, if_neg hescape.1, hescape.2]
  rfl

theorem readChars_escapeChar (c : Char) (turns : Nat) (t : Text) :
    readChars (turns + 1) (escapeChar c ++ t) =
      (readChars turns t).map fun (s, rest) => (c :: s, rest) := by
  rw [escapeChar]
  cases hfind : escapes.find? fun escape => escape.2 = c && escape.1 ≠ '/' with
  | some escape =>
      have hmem := List.mem_of_find?_eq_some hfind
      have hescape := List.find?_some hfind
      rw [Bool.and_eq_true, decide_eq_true_eq] at hescape
      obtain ⟨rfl, -⟩ := hescape
      show readChars (turns + 1) ('\\' :: escape.1 :: t) = _
      rw [readChars, if_neg (by decide), if_pos rfl, readEscape_short hmem]
      rfl
  | none =>
      have hnone := List.find?_eq_none.mp hfind
      by_cases hc : c < ' '
      · simp only [if_pos hc]
        show readChars (turns + 1) ('\\' :: 'u' :: '0' :: '0' :: _ :: _ :: t) = _
        rw [readChars, if_neg (by decide), if_pos rfl, readEscape_control hc]
        rfl
      · have hquote : c ≠ '"' := by
          rintro rfl
          exact hnone ('"', '"') (by decide) (by decide)
        have hbackslash : c ≠ '\\' := by
          rintro rfl
          exact hnone ('\\', '\\') (by decide) (by decide)
        simp only [if_neg hc]
        show readChars (turns + 1) (c :: t) = _
        rw [readChars, if_neg hquote, if_neg hbackslash, if_neg hc]

theorem readChars_quoted (cs rest : Text) {turns : Nat} (h : cs.length < turns) :
    readChars turns (cs.flatMap escapeChar ++ '"' :: rest) = some (cs, rest) := by
  induction cs generalizing turns with
  | nil =>
      obtain ⟨turns, rfl⟩ := Nat.exists_eq_succ_of_ne_zero (Nat.ne_zero_of_lt h)
      rfl
  | cons c cs ih =>
      obtain ⟨turns, rfl⟩ := Nat.exists_eq_succ_of_ne_zero (Nat.ne_zero_of_lt h)
      rw [List.flatMap_cons, List.append_assoc, readChars_escapeChar,
        ih (by simpa using h)]
      rfl

theorem length_le_flatMap_escapeChar (cs : Text) : cs.length ≤ (cs.flatMap escapeChar).length := by
  induction cs with
  | nil => exact Nat.le_refl _
  | cons c cs ih =>
      have hne : 0 < (escapeChar c).length := by
        rw [escapeChar]
        split
        · exact Nat.succ_pos _
        · split <;> exact Nat.succ_pos _
      rw [List.flatMap_cons, List.length_append, List.length_cons]
      omega

theorem stringLiteral_quoted (s : String) : StringLiteral s (quoted s) := by
  intro rest
  have hlength := length_le_flatMap_escapeChar s.toList
  have hread := @readChars_quoted s.toList rest
    ((s.toList.flatMap escapeChar ++ '"' :: rest).length + 1) (by rw [List.length_append]; omega)
  rw [quoted, List.cons_append, List.append_assoc, List.singleton_append, readString, if_pos rfl,
    hread]
  show some (String.ofList s.toList, rest) = _
  rw [String.ofList_toList]

end JsonText

end GelCli.Foundation
