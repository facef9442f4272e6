import GelCli.Foundation.Lines
import Mathlib.Data.List.Induction

/-!
# Words in a cell of the analyze table

`WordList` of `src/analyze/table.rs`: the words of a cell are put into lines twice, once
to count the lines and once to print them. The two passes agree on where a word starts a
line. A word that is wider than the cell is broken: one pass divides its width by that of
the cell, the other fills rows until they are full.
-/

namespace GelCli.Analyze.Table

open GelCli.Foundation
open Text

inductive TextState where
  | normal
  | escape
  | bracket
  deriving DecidableEq

structure Counter where
  width : Nat
  state : TextState
  deriving DecidableEq

def Counter.new : Counter := ⟨0, .normal⟩

/-- The characters between the bracket and the last one of an escape sequence. -/
def isParameter (c : Char) : Bool := c = ';' || c = '?' || ('0' ≤ c && c ≤ '9')

/-- `div_ceil` -/
def divCeil (a b : Nat) : Nat := if 0 < a % b then a / b + 1 else a / b

section Printers

-- `UnicodeWidthChar::width`, with 0 for control characters.
variable (charWidth : Char → Nat)

def Counter.addChar (cnt : Counter) (c : Char) : Counter :=
  match cnt.state with
  | .escape => if c = '[' then ⟨cnt.width, .bracket⟩ else ⟨cnt.width, .normal⟩
  | .bracket => if isParameter c then cnt else ⟨cnt.width, .normal⟩
  | .normal =>
      if c = '\x1b' then ⟨cnt.width, .escape⟩ else ⟨cnt.width + charWidth c, .normal⟩

def displayWidth (word : Text) : Nat := (word.foldl (Counter.addChar charWidth) .new).width

/-- The width of the line before and with the word, and whether the word starts a line. -/
structure Placed where
  wraps : Bool
  spaced : Bool
  column : Nat

/-- The start of `word` in both printers. -/
def place (width column itemWidth : Nat) : Placed :=
  let spaceWidth := if column = 0 then 0 else 1
  if 0 < column ∧ width < column + spaceWidth + itemWidth then ⟨true, false, itemWidth⟩
  else ⟨false, decide (0 < spaceWidth), column + spaceWidth + itemWidth⟩

structure HeightPrinter where
  height : Nat
  column : Nat
  deriving DecidableEq

/-- `HeightPrinter::word` -/
def HeightPrinter.word (width : Nat) (p : HeightPrinter) (word : Text) : HeightPrinter :=
  let placed := place width p.column (displayWidth charWidth word)
  let height := if placed.wraps then p.height + 1 else p.height
  if width < placed.column then ⟨height + (divCeil placed.column width - 1), width⟩
  else ⟨height, placed.column⟩

def height (width : Nat) (words : List Text) : Nat :=
  (words.foldl (HeightPrinter.word charWidth width) ⟨1, 0⟩).height

/-- `HardWrap::write_str`: what is written, and the counter behind it. -/
def hardWrap (width : Nat) : Counter → Text → Text × Counter
  | cnt, [] => ([], cnt)
  | cnt, c :: word =>
      let cnt := cnt.addChar charWidth c
      if width ≤ cnt.width then
        let rest := hardWrap width ⟨0, cnt.state⟩ word
        (c :: '\n' :: rest.1, rest.2)
      else
        let rest := hardWrap width cnt word
        (c :: rest.1, rest.2)

/-- A word that is wider than the cell. -/
def wrapped (width : Nat) (word : Text) : Text :=
  let written := hardWrap charWidth width .new word
  if 0 < written.2.width then written.1 ++ ['\n'] else written.1

structure TextPrinter where
  out : Text
  column : Nat
  deriving DecidableEq

/-- `TextPrinter::word` -/
def TextPrinter.word (width : Nat) (p : TextPrinter) (word : Text) : TextPrinter :=
  let placed := place width p.column (displayWidth charWidth word)
  let out := p.out ++ (if placed.wraps then ['\n'] else if placed.spaced then [' '] else [])
  if width < placed.column then ⟨out ++ wrapped charWidth width word, 0⟩
  else ⟨out ++ word, placed.column⟩

def render (width : Nat) (words : List Text) : Text :=
  (words.foldl (TextPrinter.word charWidth width) ⟨[], 0⟩).out

end Printers

/-! ## What is printed -/

/-- `out` is `word` with line feeds in it. -/
inductive Broken : Text → Text → Prop
  | nil : Broken [] []
  | char (c : Char) {word out : Text} : Broken word out → Broken (c :: word) (c :: out)
  | feed {word out : Text} : Broken word out → Broken word ('\n' :: out)

/-- Every word is printed once, in order, with nothing, a space or a line feed before it. -/
inductive Printed : List Text → Text → Prop
  | nil : Printed [] []
  | word {words : List Text} {out sep word body : Text} : Printed words out →
      sep = [] ∨ sep = [' '] ∨ sep = ['\n'] → Broken word body →
      Printed (words ++ [word]) (out ++ sep ++ body)

/-- The height that is measured is the number of lines that are printed. -/
structure Measured (charWidth : Char → Nat) (width : Nat) (words : List Text) : Prop where
  lines : height charWidth width words = (Text.lines (render charWidth width words)).length
  printed : Printed words (render charWidth width words)

theorem Broken.refl (word : Text) : Broken word word := by
  induction word with
  | nil => exact .nil
  | cons c word ih => exact .char c ih

theorem Broken.append_feed {word out : Text} (h : Broken word out) :
    Broken word (out ++ ['\n']) := by
  induction h with
  | nil => exact .feed .nil
  | char c _ ih => exact .char c ih
  | feed _ ih => exact .feed ih

variable {charWidth : Char → Nat}

theorem broken_hardWrap (width : Nat) (cnt : Counter) (word : Text) :
    Broken word (hardWrap charWidth width cnt word).1 := by
  induction word generalizing cnt with
  | nil => exact .nil
  | cons c word ih =>
      simp only [hardWrap]
      split
      · exact .char c (.feed (ih _))
      · exact .char c (ih _)

theorem broken_wrapped (width : Nat) (word : Text) :
    Broken word (wrapped charWidth width word) := by
  simp only [wrapped]
  split
  · exact (broken_hardWrap width .new word).append_feed
  · exact broken_hardWrap width .new word

theorem printed_word {width : Nat} {words : List Text} {p : TextPrinter}
    (h : Printed words p.out) (word : Text) :
    Printed (words ++ [word]) (p.word charWidth width word).out := by
  have hsep : ∀ wraps spaced : Bool,
      (if wraps then ['\n'] else if spaced then [' '] else []) = [] ∨
        (if wraps then ['\n'] else if spaced then [' '] else []) = [' '] ∨
        (if wraps then ['\n'] else if spaced then [' '] else []) = ['\n'] := by decide
  simp only [TextPrinter.word]
  split
  · exact .word h (hsep _ _) (broken_wrapped width word)
  · exact .word h (hsep _ _) (.refl word)

theorem printed_render (width : Nat) (words : List Text) :
    Printed words (render charWidth width words) := by
  induction words using List.reverseRecOn with
  | nil => exact .nil
  | append_singleton words word ih =>
      rw [render, List.foldl_append]
      exact printed_word ih word

/-! ## Rows -/

/-- The widths that are counted for the characters of a word: none within an escape
sequence. -/
def charWidths (charWidth : Char → Nat) : TextState → Text → List Nat
  | _, [] => []
  | state, c :: word =>
      (Counter.addChar charWidth ⟨0, state⟩ c).width ::
        charWidths charWidth (Counter.addChar charWidth ⟨0, state⟩ c).state word

/-- The rows that characters of these widths fill, a row ending with the character that
makes it as wide as the cell. -/
def rows (width : Nat) : Nat → List Nat → Nat
  | filled, [] => if 0 < filled then 1 else 0
  | filled, x :: xs =>
      if width ≤ filled + x then rows width 0 xs + 1 else rows width (filled + x) xs

/-- Whether something stands behind the last line end of a word in rows: characters without
a width, since any other ones get a line end. -/
def looseEnd (width : Nat) : Nat → Bool → List (Char × Nat) → Bool
  | filled, isOpen, [] => decide (filled = 0) && isOpen
  | filled, _, (c, x) :: xs =>
      if width ≤ filled + x then looseEnd width 0 false xs
      else looseEnd width (filled + x) (decide (c ≠ '\n')) xs

def openEnd (t : Text) : Bool := t.getLast?.any fun c => decide (c ≠ '\n')

theorem openEnd_append (a : Text) {b : Text} (h : b ≠ []) : openEnd (a ++ b) = openEnd b := by
  rw [openEnd, List.getLast?_append_of_ne_nil a h]
  rfl

theorem openEnd_concat (a : Text) (c : Char) : openEnd (a ++ [c]) = decide (c ≠ '\n') := by
  rw [openEnd_append a (List.cons_ne_nil c [])]
  rfl

theorem length_consLine (c : Char) (ls : List Text) :
    (consLine c ls).length = max 1 ls.length := by
  cases ls with
  | nil => rfl
  | cons line rest =>
      simp only [consLine, List.length_cons]
      omega

theorem openEnd_cons (c : Char) {t : Text} (h : t ≠ []) : openEnd (c :: t) = openEnd t :=
  openEnd_append [c] h

/-- The lines of a text are its line feeds, and what stands behind the last one. -/
theorem length_lines (t : Text) :
    (lines t).length = t.count '\n' + if openEnd t then 1 else 0 := by
  induction t with
  | nil => rfl
  | cons c t ih =>
      rw [lines]
      cases t with
      | nil =>
          by_cases hc : c = '\n'
          · subst hc
            rfl
          · rw [if_neg hc, if_neg (by rintro ⟨-, ⟨⟩⟩)]
            simp [consLine, lines, openEnd, hc]
      | cons d t =>
          rw [openEnd_cons c (List.cons_ne_nil d t)]
          split
          · next hc =>
            rw [List.length_cons, ih, hc, List.count_cons_self]
            omega
          · next hc =>
            have hcount : (c :: d :: t).count '\n' = (d :: t).count '\n' :=
              List.count_cons_of_ne hc
            rw [hcount]
            split
            · exact ih
            · have hpos : 0 < (lines (d :: t)).length := by
                rw [ih]
                by_cases hopen : openEnd (d :: t) = true
                · rw [if_pos hopen]
                  omega
                · have hmem : '\n' ∈ d :: t := by
                    rw [openEnd, List.getLast?_eq_some_getLast (List.cons_ne_nil d t)] at hopen
                    have hlast : (d :: t).getLast (List.cons_ne_nil d t) = '\n' := by
                      simpa using hopen
                    rw [← hlast]
                    exact List.getLast_mem _
                  have hcounted := List.count_pos_iff.mpr hmem
                  omega
              rw [length_consLine, max_eq_right hpos, ih]

theorem addChar_eq (cnt : Counter) (c : Char) :
    cnt.addChar charWidth c =
      ⟨cnt.width + (Counter.addChar charWidth ⟨0, cnt.state⟩ c).width,
        (Counter.addChar charWidth ⟨0, cnt.state⟩ c).state⟩ := by
  obtain ⟨width, state⟩ := cnt
  cases state with
  | escape =>
      simp only [Counter.addChar]
      split <;> rfl
  | bracket =>
      simp only [Counter.addChar]
      split <;> rfl
  | normal =>
      simp only [Counter.addChar]
      split
      · rfl
      · simp

theorem foldl_addChar (cnt : Counter) (word : Text) :
    (word.foldl (Counter.addChar charWidth) cnt).width =
      cnt.width + (charWidths charWidth cnt.state word).sum := by
  induction word generalizing cnt with
  | nil => rfl
  | cons c word ih =>
      rw [List.foldl_cons, ih, addChar_eq, charWidths, List.sum_cons]
      simp only
      omega

theorem displayWidth_eq (word : Text) :
    displayWidth charWidth word = (charWidths charWidth .normal word).sum := by
  rw [displayWidth, foldl_addChar]
  exact Nat.zero_add _

/-- What stands behind the last character of a word in rows. -/
def lastFeed (cnt : Counter) : Text := if 0 < cnt.width then ['\n'] else []

theorem lastFeed_pos {cnt : Counter} (h : 0 < cnt.width) : lastFeed cnt = ['\n'] := if_pos h

theorem lastFeed_zero {cnt : Counter} (h : ¬ 0 < cnt.width) : lastFeed cnt = [] := if_neg h

theorem wrapped_eq (width : Nat) (word : Text) :
    wrapped charWidth width word = (hardWrap charWidth width .new word).1 ++
      lastFeed (hardWrap charWidth width .new word).2 := by
  simp only [wrapped, lastFeed]
  split
  · rfl
  · exact (List.append_nil _).symm

/-- The line ends that are written for a word are its rows and its own line feeds. -/
theorem count_hardWrap (width : Nat) (cnt : Counter) (word : Text) :
    ((hardWrap charWidth width cnt word).1 ++
        lastFeed (hardWrap charWidth width cnt word).2).count '\n' =
      word.count '\n' + rows width cnt.width (charWidths charWidth cnt.state word) := by
  induction word generalizing cnt with
  | nil =>
      rw [hardWrap, charWidths, rows]
      by_cases hpos : 0 < cnt.width
      · rw [lastFeed_pos hpos, if_pos hpos]
        rfl
      · rw [lastFeed_zero hpos, if_neg hpos]
        rfl
  | cons c word ih =>
      simp only [hardWrap, charWidths, rows]
      rw [addChar_eq]
      simp only
      split
      · have hrest := ih ⟨0, (Counter.addChar charWidth ⟨0, cnt.state⟩ c).state⟩
        simp only [List.cons_append, List.count_cons] at hrest ⊢
        simp only [hrest]
        simp
        omega
      · have hrest := ih ⟨cnt.width + (Counter.addChar charWidth ⟨0, cnt.state⟩ c).width,
          (Counter.addChar charWidth ⟨0, cnt.state⟩ c).state⟩
        simp only [List.cons_append, List.count_cons] at hrest ⊢
        simp only [hrest]
        omega

theorem openEnd_hardWrap (width : Nat) (before : Text) (cnt : Counter) (word : Text) :
    openEnd (before ++ (hardWrap charWidth width cnt word).1 ++
        lastFeed (hardWrap charWidth width cnt word).2) =
      looseEnd width cnt.width (openEnd before)
        (word.zip (charWidths charWidth cnt.state word)) := by
  induction word generalizing before cnt with
  | nil =>
      rw [hardWrap, charWidths, List.zip_nil_left, looseEnd, List.append_nil]
      by_cases hpos : 0 < cnt.width
      · rw [lastFeed_pos hpos, openEnd_concat]
        simp [Nat.ne_of_gt hpos]
      · rw [lastFeed_zero hpos, List.append_nil]
        simp [Nat.eq_zero_of_not_pos hpos]
  | cons c word ih =>
      simp only [hardWrap, charWidths, List.zip_cons_cons, looseEnd]
      rw [addChar_eq]
      simp only
      split
      · have hrest := ih (before ++ [c, '\n'])
          ⟨0, (Counter.addChar charWidth ⟨0, cnt.state⟩ c).state⟩
        have hfeed : openEnd (before ++ [c, '\n']) = false := openEnd_append before (by simp)
        rw [hfeed] at hrest
        simpa using hrest
      · have hrest := ih (before ++ [c]) ⟨cnt.width +
          (Counter.addChar charWidth ⟨0, cnt.state⟩ c).width,
          (Counter.addChar charWidth ⟨0, cnt.state⟩ c).state⟩
        rw [openEnd_concat] at hrest
        simpa using hrest

/-! ## The last line -/

/-- The last line of the words that are printed: how wide it is, whether anything stands in
it, and whether the last word was wider than the cell. -/
structure LastLine where
  column : Nat
  isOpen : Bool
  broken : Bool
  deriving DecidableEq

def LastLine.word (charWidth : Char → Nat) (width : Nat) (e : LastLine) (word : Text) : LastLine :=
  let placed := place width e.column (displayWidth charWidth word)
  if width < displayWidth charWidth word then
    ⟨0, looseEnd width 0 false (word.zip (charWidths charWidth .normal word)), true⟩
  else
    ⟨placed.column,
      if word = [] then !placed.wraps && (placed.spaced || e.isOpen) else openEnd word, false⟩

def lastLine (charWidth : Char → Nat) (width : Nat) (words : List Text) : LastLine :=
  words.foldl (LastLine.word charWidth width) ⟨0, false, false⟩

/-- The lines that are measured for a word beyond those that it gets. -/
def surplus (charWidth : Char → Nat) (width : Nat) (word : Text) : Int :=
  if width < displayWidth charWidth word then
    (divCeil (displayWidth charWidth word) width : Int) -
      (word.count '\n' + rows width 0 (charWidths charWidth .normal word) : Nat)
  else -(word.count '\n' : Nat)

/-- The line that is measured behind the last line feed is there, unless a broken word ends
with a line feed. -/
def lastSurplus (e : LastLine) : Int := (if e.isOpen then 1 else 0) - if e.broken then 0 else 1

theorem place_column {width column itemWidth : Nat} :
    width < (place width column itemWidth).column ↔ width < itemWidth := by
  unfold place
  by_cases hcolumn : column = 0
  · simp [hcolumn]
  · by_cases hwraps : width < column + 1 + itemWidth
    · simp [hcolumn, hwraps, Nat.pos_of_ne_zero hcolumn]
    · simp [hcolumn, hwraps]
      omega

/-- A word that does not fit starts a line, or stands at the start of one already. -/
theorem place_wide {width column itemWidth : Nat} (h : width < itemWidth) :
    (place width column itemWidth).column = itemWidth := by
  unfold place
  by_cases hcolumn : column = 0
  · simp [hcolumn]
  · have hwraps : width < column + 1 + itemWidth := by omega
    simp [hcolumn, hwraps, Nat.pos_of_ne_zero hcolumn]

/-- Behind a broken word the one printer is at the end of a line, the other at the start. -/
theorem place_full {width : Nat} (h : 1 ≤ width) (itemWidth : Nat) :
    place width width itemWidth = ⟨true, false, itemWidth⟩ := by
  rw [place, if_neg (Nat.ne_of_gt h), if_pos ⟨h, by omega⟩]

theorem place_start (width itemWidth : Nat) :
    place width 0 itemWidth = ⟨false, false, itemWidth⟩ := by
  simp [place]

theorem divCeil_pos {a b : Nat} (hb : 0 < b) (h : b < a) : 1 ≤ divCeil a b := by
  have hquotient := Nat.div_pos h.le hb
  unfold divCeil
  split
  · exact Nat.le_add_left 1 _
  · exact hquotient

/-- What both printers and the last line have to do with each other. -/
structure Follows (charWidth : Char → Nat) (width : Nat) (words : List Text)
    (p : HeightPrinter) (t : TextPrinter) (e : LastLine) : Prop where
  column : t.column = e.column
  measured : p.column = if e.broken then width else e.column
  start : e.broken = true → e.column = 0
  isOpen : openEnd t.out = e.isOpen
  height : (p.height : Int) = (words.map (surplus charWidth width)).sum +
    (t.out.count '\n' : Nat) + if e.broken then 0 else 1

/-- What stands before a word. -/
def separator (placed : Placed) : Text :=
  if placed.wraps then ['\n'] else if placed.spaced then [' '] else []

theorem count_separator (placed : Placed) :
    (separator placed).count '\n' = if placed.wraps then 1 else 0 := by
  obtain ⟨wraps, spaced, column⟩ := placed
  cases wraps <;> cases spaced <;> rfl

theorem openEnd_separator (out : Text) (placed : Placed) :
    openEnd (out ++ separator placed) =
      (!placed.wraps && (placed.spaced || openEnd out)) := by
  obtain ⟨wraps, spaced, column⟩ := placed
  cases wraps with
  | true => exact openEnd_concat out '\n'
  | false =>
      cases spaced with
      | true => exact openEnd_concat out ' '
      | false => exact congrArg openEnd (List.append_nil out)

section Word

variable {width : Nat} {word : Text}

theorem HeightPrinter.word_wide (h : width < displayWidth charWidth word) (p : HeightPrinter) :
    p.word charWidth width word =
      ⟨(if (place width p.column (displayWidth charWidth word)).wraps then p.height + 1
        else p.height) + (divCeil (displayWidth charWidth word) width - 1), width⟩ := by
  simp only [HeightPrinter.word]
  rw [if_pos (place_column.mpr h), place_wide h]

theorem HeightPrinter.word_narrow (h : ¬ width < displayWidth charWidth word)
    (p : HeightPrinter) :
    p.word charWidth width word =
      ⟨if (place width p.column (displayWidth charWidth word)).wraps then p.height + 1
        else p.height, (place width p.column (displayWidth charWidth word)).column⟩ := by
  simp only [HeightPrinter.word]
  rw [if_neg (mt place_column.mp h)]

theorem TextPrinter.word_wide (h : width < displayWidth charWidth word) (t : TextPrinter) :
    t.word charWidth width word =
      ⟨t.out ++ separator (place width t.column (displayWidth charWidth word)) ++
        wrapped charWidth width word, 0⟩ := by
  simp only [TextPrinter.word]
  rw [if_pos (place_column.mpr h)]
  rfl

theorem TextPrinter.word_narrow (h : ¬ width < displayWidth charWidth word)
    (t : TextPrinter) :
    t.word charWidth width word =
      ⟨t.out ++ separator (place width t.column (displayWidth charWidth word)) ++ word,
        (place width t.column (displayWidth charWidth word)).column⟩ := by
  simp only [TextPrinter.word]
  rw [if_neg (mt place_column.mp h)]
  rfl

theorem count_wrapped (width : Nat) (word : Text) :
    (wrapped charWidth width word).count '\n' =
      word.count '\n' + rows width 0 (charWidths charWidth .normal word) := by
  rw [wrapped_eq]
  exact count_hardWrap width .new word

theorem openEnd_wrapped (h : width < displayWidth charWidth word) (before : Text) :
    openEnd (before ++ wrapped charWidth width word) =
      looseEnd width 0 false (word.zip (charWidths charWidth .normal word)) := by
  rw [wrapped_eq, ← List.append_assoc]
  refine (openEnd_hardWrap width before .new word).trans ?_
  cases word with
  | nil => exact absurd h (Nat.not_lt_zero width)
  | cons c word => rfl

/-- The separators of the two printers are the same but behind a broken word, where one
printer still has to end the line. -/
theorem follows_wide (hwidth : 1 ≤ width) {words : List Text} {p : HeightPrinter}
    {t : TextPrinter} {e : LastLine} (h : Follows charWidth width words p t e)
    (hwide : width < displayWidth charWidth word) :
    Follows charWidth width (words ++ [word]) (p.word charWidth width word)
      (t.word charWidth width word) (e.word charWidth width word) := by
  obtain ⟨hcolumn, hmeasured, hstart, -, hheight⟩ := h
  have hlast : e.word charWidth width word =
      ⟨0, looseEnd width 0 false (word.zip (charWidths charWidth .normal word)), true⟩ :=
    if_pos hwide
  have hceil := divCeil_pos hwidth hwide
  rw [HeightPrinter.word_wide hwide, TextPrinter.word_wide hwide, hlast]
  refine ⟨rfl, rfl, fun _ => rfl, openEnd_wrapped hwide _, ?_⟩
  simp only [List.map_append, List.map_singleton, List.sum_append, List.sum_singleton, surplus,
    if_pos hwide, List.count_append, count_separator, count_wrapped, if_true]
  cases hbroken : e.broken with
  | true =>
      rw [hbroken] at hmeasured hheight
      rw [hmeasured, hcolumn, hstart hbroken, if_pos rfl, place_full hwidth, place_start]
      simp only [if_true, Bool.false_eq_true, if_false] at hheight ⊢
      omega
  | false =>
      rw [hbroken] at hmeasured hheight
      rw [hmeasured, hcolumn, if_neg Bool.false_ne_true]
      simp only [Bool.false_eq_true, if_false] at hheight
      split <;> omega

theorem follows_narrow (hwidth : 1 ≤ width) {words : List Text} {p : HeightPrinter}
    {t : TextPrinter} {e : LastLine} (h : Follows charWidth width words p t e)
    (hnarrow : ¬ width < displayWidth charWidth word) :
    Follows charWidth width (words ++ [word]) (p.word charWidth width word)
      (t.word charWidth width word) (e.word charWidth width word) := by
  obtain ⟨hcolumn, hmeasured, hstart, hopen, hheight⟩ := h
  have hlast : e.word charWidth width word =
      ⟨(place width e.column (displayWidth charWidth word)).column,
        if word = [] then
          !(place width e.column (displayWidth charWidth word)).wraps &&
            ((place width e.column (displayWidth charWidth word)).spaced || e.isOpen)
        else openEnd word, false⟩ := if_neg hnarrow
  rw [HeightPrinter.word_narrow hnarrow, TextPrinter.word_narrow hnarrow, hlast, hcolumn]
  refine ⟨rfl, ?_, by rintro ⟨⟩, ?_, ?_⟩
  · cases hbroken : e.broken with
    | true =>
        rw [hbroken] at hmeasured
        rw [hmeasured, hstart hbroken, if_pos rfl, place_full hwidth, place_start]
        rfl
    | false =>
        rw [hbroken] at hmeasured
        rw [hmeasured]
        rfl
  · by_cases hword : word = []
    · rw [if_pos hword, hword, List.append_nil, openEnd_separator, hopen]
    · rw [if_neg hword, openEnd_append _ hword]
  · simp only [List.map_append, List.map_singleton, List.sum_append, List.sum_singleton,
      surplus, if_neg hnarrow, List.count_append, count_separator, Bool.false_eq_true, if_false]
    cases hbroken : e.broken with
    | true =>
        rw [hbroken] at hmeasured hheight
        rw [hmeasured, hstart hbroken, if_pos rfl, place_full hwidth, place_start]
        simp only [if_true, Bool.false_eq_true, if_false] at hheight ⊢
        omega
    | false =>
        rw [hbroken] at hmeasured hheight
        rw [hmeasured, if_neg Bool.false_ne_true]
        simp only [Bool.false_eq_true, if_false] at hheight
        split <;> omega

end Word

/-- **When the measured height is the printed one.** -/
theorem measured_iff {width : Nat} (hwidth : 1 ≤ width) (words : List Text) :
    Measured charWidth width words ↔
      (words.map (surplus charWidth width)).sum = lastSurplus (lastLine charWidth width words) := by
  have hfollows : ∀ words, Follows charWidth width words
      (words.foldl (HeightPrinter.word charWidth width) ⟨1, 0⟩)
      (words.foldl (TextPrinter.word charWidth width) ⟨[], 0⟩)
      (lastLine charWidth width words) := by
    intro words
    induction words using List.reverseRecOn with
    | nil => exact ⟨rfl, rfl, fun _ => rfl, rfl, rfl⟩
    | append_singleton words word ih =>
        rw [lastLine, List.foldl_append, List.foldl_append, List.foldl_append]
        by_cases hwide : width < displayWidth charWidth word
        · exact follows_wide hwidth ih hwide
        · exact follows_narrow hwidth ih hwide
  obtain ⟨-, -, -, hopen, hheight⟩ := hfollows words
  have hlines := length_lines (render charWidth width words)
  have hopen : openEnd (render charWidth width words) =
      (lastLine charWidth width words).isOpen := hopen
  have hheight : (height charWidth width words : Int) =
      (words.map (surplus charWidth width)).sum +
        ((render charWidth width words).count '\n' : Nat) +
          if (lastLine charWidth width words).broken then 0 else 1 := hheight
  rw [hopen] at hlines
  have hcast : ((if (lastLine charWidth width words).isOpen then 1 else 0 : Nat) : Int) =
      if (lastLine charWidth width words).isOpen then 1 else 0 := by
    split <;> rfl
  rw [lastSurplus]
  constructor
  · rintro ⟨heq, -⟩
    omega
  · intro hsum
    exact ⟨by omega, printed_render width words⟩

/-- Characters of two columns, and all others of one. -/
def sampleWidth (c : Char) : Nat := if c = '漢' then 2 else 1

theorem measured_iff_twoWords :
    1 ≤ 3 ∧ (Measured sampleWidth 3 [['a', 'b'], ['c', '漢', 'd', 'e']] ↔
      ([['a', 'b'], ['c', '漢', 'd', 'e']].map (surplus sampleWidth 3)).sum =
        lastSurplus (lastLine sampleWidth 3 [['a', 'b'], ['c', '漢', 'd', 'e']])) :=
  ⟨by decide, measured_iff (by decide) [['a', 'b'], ['c', '漢', 'd', 'e']]⟩

/-- Eight columns make three rows of three, but two characters fill a row. -/
theorem not_measured_wide :
    ¬ ∀ (width : Nat) (words : List Text), 1 ≤ width → Measured sampleWidth width words := by
  intro h
  have hlines := (h 3 [['漢', '漢', '漢', '漢']] (by decide)).lines
  have hmeasured : height sampleWidth 3 [['漢', '漢', '漢', '漢']] = 3 := rfl
  have hprinted : (lines (render sampleWidth 3 [['漢', '漢', '漢', '漢']])).length = 2 := rfl
  rw [hmeasured, hprinted] at hlines
  exact absurd hlines (by decide)

end GelCli.Analyze.Table
