import GelCli.Print.Complete
import GelCli.Print.Json

/-!
# A JSON document prints as itself

What the printer writes for a JSON value is a text of that value, on one line or broken up, and
so it reads back as the value. The exception that breaks up a line never leaves a value that
has a line of its own.
-/

namespace GelCli.Print

open GelCli.Foundation
open GelCli.Foundation.JsonText

variable {N : Type} [SerdeJson N] {cfg : PrinterConfig}

/-! ## What the values write -/

/-- Behind the delimiter there are blanks and then such a text. -/
def Behind (writes : Text → Prop) (d : Delim) (t : Text) (d' : Delim) : Prop :=
  d' = .none ∧ ∃ blanks body, Blank blanks ∧ writes body ∧ t = owed d ++ blanks ++ body

/-- The value's texts. -/
abbrev Shown (value : JsonValue N) : Text → Prop := Writes SerdeJson.readNumber value

theorem text_piece (coloring : Coloring) (piece : Piece) :
    CString.text ⟨coloring, [piece]⟩ = piece.plain.toList := by
  show (String.join [piece.plain]).toList = _
  rw [String.join_cons, String.join_nil, String.append_empty]

theorem text_styled (style : Style) (s : String) :
    (styled style (.text s)).text = s.toList := text_piece _ _

theorem text_opening (style : Style) (c : Char) :
    (styled style (.opening (String.singleton c))).text = [c] :=
  (text_piece _ _).trans (String.toList_singleton c)

theorem text_closing (style : Style) (c : Char) :
    (styled style (.closing (String.singleton c))).text = [c] :=
  (text_piece _ _).trans (String.toList_singleton c)

variable (cfg) in
theorem adds_const (style : Style) (s : String) :
    Adds ((Doc.const style s).format cfg) (Behind fun body => body = s.toList) := by
  refine Adds.mono ((adds_delimit cfg).seq (adds_write cfg (styled style (.text s)))) ?_
  rintro d t d' ⟨_, _, mid, ⟨rfl, blanks, hblanks, rfl⟩, ⟨rfl, rfl⟩, rfl⟩
  exact ⟨rfl, blanks, s.toList, hblanks, rfl, by rw [text_styled]⟩

variable (cfg) in
theorem adds_colon : Adds (field cfg) (fun _ t d' => t = [':', ' '] ∧ d' = .field) := by
  intro p p' hop
  have hwrite := adds_write cfg (unstyled [.text ": "]) { p with delim := .field } p' hop
  obtain ⟨t, hwritten, rfl, hdelim⟩ := hwrite
  refine ⟨_, hwritten, ?_, hdelim⟩
  exact text_piece .unstyled (.text ": ")

variable (cfg) in
theorem adds_field (name : String) :
    Adds ((Field.object name false).format cfg) (fun d t d' => d' = .field ∧
      ∃ blanks, Blank blanks ∧ t = owed d ++ blanks ++ name.toList ++ [':', ' ']) := by
  refine Adds.mono ((adds_delimit cfg).seq
    ((adds_write cfg (styled .pointer (.text name))).seq (adds_colon cfg))) ?_
  rintro d t d' ⟨_, _, mid, ⟨rfl, blanks, hblanks, rfl⟩, ⟨_, _, mid', ⟨rfl, rfl⟩, ⟨rfl, rfl⟩, rfl⟩,
    rfl⟩
  refine ⟨rfl, blanks, hblanks, ?_⟩
  rw [text_styled]
  simp only [List.append_assoc]

theorem Behind.mono {writes writes' : Text → Prop} (h : ∀ t, writes t → writes' t) {d d' : Delim}
    {t : Text} (hbehind : Behind writes d t d') : Behind writes' d t d' := by
  obtain ⟨hd, blanks, body, hblanks, hbody, ht⟩ := hbehind
  exact ⟨hd, blanks, body, hblanks, h body hbody, ht⟩

variable (cfg) in
/-- A member: its key, and the value behind the colon. -/
theorem adds_member {key name : String} {value : Printer → Except Printer Printer}
    {writes : Text → Prop} (hname : StringLiteral key name.toList)
    (hvalue : Adds value (Behind writes)) :
    Adds (fun p => (Field.object name false).format cfg p >>= value)
      (Behind (WritesMember key writes)) := by
  refine Adds.mono ((adds_field cfg name).seq hvalue) ?_
  rintro d t d' ⟨_, _, mid, ⟨rfl, blanks, hblanks, rfl⟩, ⟨hd, blanks', body, hblanks', hbody, rfl⟩,
    rfl⟩
  have hspace : Blank (' ' :: blanks') := by
    intro c hc
    rcases List.mem_cons.mp hc with rfl | hc
    · rfl
    · exact hblanks' c hc
  refine ⟨hd, blanks, name.toList ++ ':' :: (' ' :: blanks') ++ body, hblanks,
    ⟨name.toList, [], ' ' :: blanks', body, hname, blank_nil, hspace, hbody, ?_⟩, ?_⟩
  · rw [List.append_nil]
  · show _ = owed d ++ blanks ++ _
    have howed : owed .field = [] := rfl
    rw [howed]
    simp only [List.append_assoc, List.cons_append, List.nil_append]

/-! ## Lists of entries -/

theorem lead_owed {blanks : Text} (h : Blank blanks) (d : Delim) :
    Lead (d ≠ .comma) (owed d ++ blanks) := by
  refine ⟨[], blanks, blank_nil, h, ?_⟩
  by_cases hd : d = .comma
  · simp [owed, hd]
  · simp [owed, hd]

/-- One entry more in front of a list. -/
theorem adds_cons (htrailing : cfg.trailingComma = false)
    {item rest : Printer → Except Printer Printer} {writes : Text → Prop} {elements : List (Text → Prop)} (hitem : Adds item (Behind writes))
    (hrest : Adds rest fun d t _ => Separated elements (d ≠ .comma) t) :
    Adds (fun p => item p >>= fun p => comma cfg p >>= rest)
      (fun d t _ => Separated (writes :: elements) (d ≠ .comma) t) := by
  refine Adds.mono (hitem.seq ((adds_comma htrailing).seq hrest)) ?_
  rintro d t d' ⟨_, _, mid, ⟨-, blanks, body, hblanks, hbody, rfl⟩,
    ⟨_, tail, mid', ⟨rfl, rfl⟩, htail, heq⟩, ht⟩
  rw [heq, List.nil_append] at ht
  exact ⟨owed d ++ blanks, body, tail, lead_owed hblanks d, hbody, htail, ht⟩

/-- Blanks behind the opening bracket stand before the first element, or before the closing
bracket. -/
theorem separated_before {elements : List (Text → Prop)} {before inner after : Text}
    (hbefore : Blank before) (h : Separated elements true inner) (hafter : Blank after) :
    ∃ inner' after', Separated elements true inner' ∧ Blank after' ∧
      before ++ inner ++ after = inner' ++ after' := by
  cases elements with
  | nil =>
      obtain rfl : inner = [] := h
      exact ⟨[], before ++ after, rfl, hbefore.append hafter, by rw [List.append_nil]; rfl⟩
  | cons writes elements =>
      obtain ⟨lead, body, tail, hlead, hbody, htail, rfl⟩ := h
      refine ⟨before ++ (lead ++ body ++ tail), after, ?_, hafter, rfl⟩
      refine ⟨before ++ lead, body, tail, ?_, hbody, htail, by simp only [List.append_assoc]⟩
      exact ⟨[], before ++ lead, blank_nil, hbefore.append (lead_true hlead), rfl⟩

/-- What brackets around entries write. -/
theorem adds_brackets {entries : Entries} {elements : List (Text → Prop)} (style : Style)
    (opening closing : Char)
    (hentries : Adds (entries.format cfg) fun d t _ => Separated elements (d ≠ .comma) t) :
    Adds ((Doc.block style (String.singleton opening) (String.singleton closing) entries
      false).format cfg) (Behind (Bracketed opening closing elements)) := by
  have hinner : Adds (fun p => entries.format cfg p >>= formatMore cfg false)
      fun d t _ => Separated elements (d ≠ .comma) t := by
    refine Adds.mono (hentries.seq adds_skip) ?_
    rintro d t d' ⟨a, _, mid, ha, ⟨rfl, -⟩, rfl⟩
    rw [List.append_nil]
    exact ha
  have hprints := (@Entries.prints cfg entries).seq (prints_more cfg false)
  rw [Doc.format_block]
  refine Adds.mono ((adds_delimit cfg).seq (adds_block hprints trivial hinner _ _)) ?_
  rintro d t d' ⟨_, _, mid, ⟨rfl, blanks, hblanks, rfl⟩,
    ⟨rfl, before, inner, after, _, hbefore, hafter, hinner, rfl⟩, rfl⟩
  obtain ⟨inner', after', hinner', hafter', heq⟩ := separated_before hbefore hinner hafter
  refine ⟨rfl, blanks, _, hblanks, ⟨inner', after', hinner', hafter', rfl⟩, ?_⟩
  rw [← heq, text_opening, text_closing]
  simp only [List.append_assoc, List.cons_append, List.nil_append]

/-! ## Values -/

mutual

theorem adds_json (htrailing : cfg.trailingComma = false) :
    ∀ value : JsonValue N, Adds ((jsonFormat value).format cfg) (Behind (Shown value))
  | .null => (adds_const cfg .boolean "null").mono fun _ _ _ => Behind.mono fun t ht => by
      rw [Shown, Writes]
      exact ht
  | .bool v => (adds_const cfg .boolean _).mono fun _ _ _ => Behind.mono fun t ht => by
      rw [Shown, Writes]
      exact ht
  | .string s => (adds_const cfg .string _).mono fun _ _ _ => Behind.mono fun t ht => by
      obtain rfl := ht
      rw [Shown, Writes]
      exact SerdeJson.string_literal s
  | .number n => (adds_const cfg .number _).mono fun _ _ _ => Behind.mono fun t ht => by
      obtain rfl := ht
      rw [Shown, Writes]
      exact SerdeJson.number_literal n
  | .array items =>
      (adds_brackets .array '[' ']' (adds_items htrailing items)).mono fun _ _ _ =>
        Behind.mono fun t ht => by
          rw [Shown, Writes]
          exact ht
  | .object dict =>
      (adds_brackets .object '\x7b' '\x7d' (adds_members htrailing dict)).mono fun _ _ _ =>
        Behind.mono fun t ht => by
          rw [Shown, Writes]
          exact ht

theorem adds_items (htrailing : cfg.trailingComma = false) : ∀ items : List (JsonValue N),
    Adds ((Entries.ofList ((jsonFormatAll items).map fun doc => (none, doc))).format cfg)
      (fun d t _ => Separated (writesItems SerdeJson.readNumber items) (d ≠ .comma) t)
  | [] => adds_skip.mono fun _ _ _ h => by
      rw [writesItems]
      exact h.1
  | item :: items => by
      rw [writesItems]
      exact adds_cons htrailing (adds_json htrailing item) (adds_items htrailing items)

theorem adds_members (htrailing : cfg.trailingComma = false) :
    ∀ dict : List (String × JsonValue N),
    Adds ((pairEntries (jsonFormatPairs dict)).format cfg)
      (fun d t _ => Separated (writesMembers SerdeJson.readNumber dict) (d ≠ .comma) t)
  | [] => adds_skip.mono fun _ _ _ h => by
      rw [writesMembers]
      exact h.1
  | (key, value) :: dict => by
      rw [writesMembers]
      have hformat : (pairEntries (jsonFormatPairs ((key, value) :: dict))).format cfg = fun p =>
          ((Field.object (SerdeJson.stringText N key) false).format cfg p >>=
            (jsonFormat value).format cfg) >>= fun p =>
              comma cfg p >>= (pairEntries (jsonFormatPairs dict)).format cfg := by
        funext p
        rw [jsonFormatPairs, bind_assoc]
        show (Entries.cons _ _ (pairEntries (jsonFormatPairs dict))).format cfg p = _
        rw [Entries.format_cons]
        rfl
      rw [hformat]
      exact adds_cons htrailing
        (adds_member cfg (SerdeJson.string_literal key) (adds_json htrailing value))
        (adds_members htrailing dict)

end

/-! ## Whole documents -/

theorem finish_stream (p : Printer) : textOf (finish cfg p).stream = written p := by
  show textOf ((commit cfg p).stream ++ (commit cfg p).buffer) = _
  rw [(commit_eq cfg p).2.1, written]

variable (cfg) in
theorem formatRows_eq (items : List (JsonValue N)) :
    (fun p => items.foldlM (fun p v => formatRow cfg v p) p) =
      (Entries.ofList ((jsonFormatAll items).map fun doc => (none, doc))).format cfg := by
  induction items with
  | nil => rfl
  | cons item items ih =>
      funext p
      rw [List.foldlM_cons, jsonFormatAll]
      show _ = (Entries.cons none (jsonFormat item) _).format cfg p
      rw [Entries.format_cons, ← ih]
      show (((jsonFormat item).format cfg p >>= comma cfg) >>= _) = _
      rw [bind_assoc]
      rfl

/-- The items printed as a block. -/
def rowsBlock (cfg : PrinterConfig) (items : List (JsonValue N)) : Except Printer Printer :=
  block cfg (unstyled [.opening "["])
    ((Entries.ofList ((jsonFormatAll items).map fun doc => (none, doc))).format cfg)
    (unstyled [.closing "]"]) Printer.new

/-- The two runs of `format_rows_str` are the two attempts at a block. -/
theorem jsonToString_eq {config : PrinterConfig} {items : List (JsonValue N)} {p : Printer}
    (h : rowsBlock (jsonConfig config) items = .ok p) :
    jsonToString config items = .ok (finish (jsonConfig config) p).stream := by
  obtain ⟨p₁, hopen⟩ := @openBlock_returns (jsonConfig config) Printer.new
    (unstyled [.opening "["]) rfl
  rw [rowsBlock, block_eq, hopen, ← formatRows_eq] at h
  have hattempt : blockAttempt (jsonConfig config)
      (fun p => items.foldlM (fun p v => formatRow (jsonConfig config) v p) p)
      (unstyled [.closing "]"]) true p₁ = .ok p := h
  rw [blockAttempt] at hattempt
  have hfirst : formatRowsStr (jsonConfig config) items "[" "]" false Printer.new =
      items.foldlM (fun p v => formatRow (jsonConfig config) v p) p₁ >>=
        closeBlock (jsonConfig config) (unstyled [.closing "]"]) true := by
    rw [formatRowsStr]
    simp only [hopen]
    rfl
  cases hline : items.foldlM (fun p v => formatRow (jsonConfig config) v p) p₁ >>=
      closeBlock (jsonConfig config) (unstyled [.closing "]"]) true with
  | ok q =>
      rw [hline] at hattempt hfirst
      obtain rfl := Except.ok.inj hattempt
      rw [jsonToString, hfirst]
  | error p₂ =>
      rw [hline] at hattempt hfirst
      have hsecond : formatRowsStr (jsonConfig config) items "[" "]" true p₂ = .ok p := hattempt
      simp only [jsonToString, hfirst, hsecond]

/-- What is said of a printed value. Where nothing has the line it returns, and has added one
text of itself behind all that was written; on another block's line it may throw, and a
rollback then gives the text it would have given before. -/
structure PrintsItself (config : PrinterConfig) (value : JsonValue N) : Prop where
  item : ∃ out, jsonItemToString config value = .ok out ∧
    parse SerdeJson.readNumber (renderAll (jsonConfig config) out).toList = some value
  once : ∀ p : Printer, p.flow = false →
    ∃ p' t, (jsonFormat value).format (jsonConfig config) p = .ok p' ∧
      written p' = written p ++ owed p.delim ++ t ∧ parse SerdeJson.readNumber t = some value
  undone : ∀ p p' : Printer, p.flow = true → p.committed ≤ p.buffer.length →
    (jsonFormat value).format (jsonConfig config) p = .error p' →
      written (rollback p') = written (rollback p)

theorem rollback_kept {p p' : Printer} (hcommitted : p.committed ≤ p.buffer.length)
    (h : Kept p p') : written (rollback p') = written (rollback p) := by
  obtain ⟨added, hadded⟩ := h.buffer
  show textOf (p'.stream ++ p'.buffer.take p'.committed) =
    textOf (p.stream ++ p.buffer.take p.committed)
  rw [h.stream, h.committed, ← hadded, List.take_append_of_le_length hcommitted]

theorem format_once (htrailing : cfg.trailingComma = false) (value : JsonValue N) {p : Printer}
    (hflow : p.flow = false) :
    ∃ p' t, (jsonFormat value).format cfg p = .ok p' ∧ written p' = written p ++ owed p.delim ++ t ∧
      parse SerdeJson.readNumber t = some value := by
  obtain ⟨p', ts, hop, -⟩ := (Doc.prints (jsonFormat value)).broken p hflow trivial
  obtain ⟨t, hwritten, -, blanks, body, hblanks, hbody, rfl⟩ := adds_json htrailing value p p' hop
  refine ⟨p', blanks ++ body, hop, ?_, ?_⟩
  · rw [hwritten]
    simp only [List.append_assoc]
  · have hparse := parse_writes hbody hblanks blank_nil
    rwa [List.append_nil] at hparse

theorem printsItself {config : PrinterConfig} (hcolors : config.colors = false)
    (value : JsonValue N) : PrintsItself config value where
  item := by
    obtain ⟨p', t, hop, hwritten, hparse⟩ :=
      @format_once N _ (jsonConfig config) rfl value Printer.new rfl
    refine ⟨(finish (jsonConfig config) p').stream, ?_, ?_⟩
    · have hformat : (FormatExt.format (jsonConfig config) value).format (jsonConfig config)
          Printer.new = .ok p' := hop
      simp only [jsonItemToString, hformat]
    · rw [@renderAll_toList (jsonConfig config) hcolors, finish_stream, hwritten]
      exact hparse
  once _ hflow := format_once rfl value hflow
  undone p p' hflow hcommitted herror :=
    rollback_kept hcommitted ((Doc.prints (jsonFormat value)).error_kept hflow trivial herror)

theorem rowsBlock_text (items : List (JsonValue N)) (config : PrinterConfig) :
    ∃ p t, rowsBlock (jsonConfig config) items = .ok p ∧ written p = t ∧
      parse SerdeJson.readNumber t = some (.array items) := by
  have hadds := @adds_items N _ (jsonConfig config) rfl items
  have hprints := @Entries.prints (jsonConfig config)
    (.ofList ((jsonFormatAll items).map fun doc => (none, doc)))
  obtain ⟨p, hop⟩ := block_returns hprints trivial (unstyled [.opening "["])
    (unstyled [.closing "]"]) (show Printer.new.flow = false from rfl)
  obtain ⟨t, hwritten, -, before, inner, after, d, hbefore, hafter, hinner, rfl⟩ :=
    adds_block hprints trivial hadds _ _ Printer.new p hop
  obtain ⟨inner', after', hinner', hafter', heq⟩ := separated_before hbefore hinner hafter
  refine ⟨p, _, hop, hwritten, ?_⟩
  have hwrites : Writes SerdeJson.readNumber (.array items)
      ('[' :: (inner' ++ after' ++ [']'])) := by
    rw [Writes]
    exact ⟨inner', after', hinner', hafter', rfl⟩
  have hopening : (unstyled [.opening "["]).text = ['['] := text_piece .unstyled (.opening "[")
  have hclosing : (unstyled [.closing "]"]).text = [']'] := text_piece .unstyled (.closing "]")
  have hempty : written Printer.new = [] := rfl
  have htext : ['['] ++ before ++ inner ++ after ++ [']'] = '[' :: (inner' ++ after' ++ [']']) := by
    rw [← heq]
    simp only [List.append_assoc, List.cons_append, List.nil_append]
  have hparse := parse_writes hwrites blank_nil blank_nil
  rw [List.nil_append, List.append_nil] at hparse
  rw [hopening, hclosing, hempty, List.nil_append, htext]
  exact hparse

/-- **A JSON document prints as itself.** Without colours, whatever the width and the indent,
`json_to_string` and `json_item_to_string` return, and what they print reads back as the value,
its keys in their order. -/
theorem json_printsItself (config : PrinterConfig) (hcolors : config.colors = false)
    (items : List (JsonValue N)) :
    (∃ out, jsonToString config items = .ok out ∧
      parse SerdeJson.readNumber (renderAll (jsonConfig config) out).toList =
        some (.array items)) ∧
      ∀ value : JsonValue N, PrintsItself config value := by
  refine ⟨?_, fun value => printsItself hcolors value⟩
  obtain ⟨p, t, hop, rfl, hparse⟩ := rowsBlock_text items config
  refine ⟨_, jsonToString_eq hop, ?_⟩
  rw [@renderAll_toList (jsonConfig config) hcolors, finish_stream]
  exact hparse

/-! ## A document -/

section Document

/-- A number as its literal. -/
def isLiteral (t : Text) : Bool :=
  t.all isNumberChar && t.head?.any fun c => c.isDigit || c = '-'

abbrev LiteralNumber := { t : Text // isLiteral t = true }

def readLiteral (t : Text) : Option LiteralNumber :=
  if h : isLiteral t = true then some ⟨t, h⟩ else none

theorem numberLiteral_literal (n : LiteralNumber) : NumberLiteral readLiteral n n.1 := by
  obtain ⟨t, ht⟩ := n
  have hread : readLiteral t = some ⟨t, ht⟩ := dif_pos ht
  rw [isLiteral, Bool.and_eq_true, List.all_eq_true] at ht
  obtain ⟨hchars, hfirst⟩ := ht
  cases t with
  | nil => cases hfirst
  | cons c rest => exact ⟨hchars, ⟨c, rest, rfl, hfirst⟩, hread⟩

instance serdeJsonLiteral : SerdeJson LiteralNumber where
  stringText s := String.ofList (quoted s)
  numberText n := String.ofList n.1
  readNumber := readLiteral
  string_literal s := by
    rw [String.toList_ofList]
    exact stringLiteral_quoted s
  number_literal n := by
    rw [String.toList_ofList]
    exact numberLiteral_literal n

/-- Two items that do not fit on one line, with a string to be escaped. -/
def document : List (JsonValue LiteralNumber) :=
  [.object [("b", .array [.number ⟨"1.5".toList, by decide⟩, .null]), ("a", .string "x\"\n")],
    .array []]

theorem json_printsItself_document :
    (∃ out, jsonToString (plainConfig 12 none) document = .ok out ∧
      parse readLiteral (renderAll (jsonConfig (plainConfig 12 none)) out).toList =
        some (.array document)) ∧
      ∀ value : JsonValue LiteralNumber, PrintsItself (plainConfig 12 none) value :=
  json_printsItself (plainConfig 12 none) rfl document

example :
    (jsonToString (plainConfig 12 none) document).toOption.map (renderAll (plainConfig 12 none)) =
      some ("[\n  \x7b\n    \"b\": [\n      1.5,\n      null\n    ],\n" ++
        "    \"a\": \"x\\\"\\n\"\n  \x7d,\n  []\n]") := by
  decide +kernel

end Document

end GelCli.Print
