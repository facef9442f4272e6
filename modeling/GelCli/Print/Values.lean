import GelCli.Print.Vector

/-!
# Values in both layouts

The rules of the printer applied to trees of formatter calls: every value fits
on a line exactly when `Doc.fit` says so, and in whichever layout shows what
`Doc.Shows` allows.
-/

namespace GelCli.Print

variable (cfg : PrinterConfig)

/-! ## Where a value fits -/

def Field.fit : Field → Pos → Option Pos
  | .object name linkprop => fun pos =>
      fitDelimit cfg pos >>= fun pos =>
        put cfg (styled (if linkprop then .linkProperty else .pointer) (.text name)) pos >>=
          fun pos => put cfg (unstyled [.text ": "]) (.field, pos.2)
  | .tuple name => fun pos =>
      fitDelimit cfg pos >>= fun pos =>
        put cfg (styled .tupleField (.text name)) pos >>=
          put cfg (styled .tuple (.text " := "))

mutual
def Doc.fit : Doc → Pos → Option Pos
  | .const style text => fitConst cfg style text
  | .typed typ text => fun pos =>
      fitDelimit cfg pos >>= fun pos =>
        put cfg (styled .cast (.text ("<" ++ typ ++ ">"))) pos >>=
          put cfg (styled .string (.text ("'" ++ escapeDefault text ++ "'")))
  | .block style opening closing entries more => fun pos =>
      fitDelimit cfg pos >>= fun pos =>
        put cfg (styled style (.opening opening)) pos >>= fun pos =>
          (Entries.fit entries pos >>= if more then fitDots cfg else some) >>=
            fitClose cfg (styled style (.closing closing))
  | .vector items => fun pos =>
      fitDelimit cfg pos >>= fun pos =>
        put cfg (styled .array (.opening "<ext::pgvector::vector>[")) pos >>= fun pos =>
          fitItems cfg items pos >>= fitClose cfg (styled .array (.closing "]"))

def Entries.fit : Entries → Pos → Option Pos
  | .nil => some
  | .cons fld value entries => fun pos =>
      (match fld with | some fld => fld.fit cfg pos | none => some pos) >>= fun pos =>
        Doc.fit value pos >>= fun pos => fitComma pos >>= Entries.fit entries
end

/-! ## Constants and fields -/

variable {cfg}

theorem prints_typed (typ text : String) :
    Prints anyDelim noDelim (formatTyped cfg typ text) ((Doc.typed typ text).fit cfg)
      (fun ts => (Doc.typed typ text).Shows ts) := by
  refine Prints.shows_mono (Prints.seq (prints_delimit cfg) (Prints.seq
    (prints_write cfg (styled .cast (.text ("<" ++ typ ++ ">"))))
    (prints_write cfg (styled .string (.text ("'" ++ escapeDefault text ++ "'")))))) ?_
  rintro ts ⟨a, b, rfl, ⟨c, d, rfl, rfl, rfl⟩, rfl⟩
  exact ⟨_, rfl, rfl⟩

/-- `field()` leaves its own delimiter pending, which only keeps the next value
from being indented. -/
theorem prints_field : Prints noDelim anyDelim (field cfg)
    (fun pos => put cfg (unstyled [.text ": "]) (.field, pos.2))
    (fun ts => ts = [.text ": "]) where
  fit := by
    intro p pos hflow hdelim hfits
    have hdelim : p.delim = .none := hdelim
    obtain ⟨heq, hpos⟩ := write_fit cfg (p := { p with delim := .field }) hflow hfits
    refine ⟨_, _, heq, ⟨⟨rfl, rfl, rfl, rfl, List.prefix_append _ _⟩, hflow,
      Prod.ext hpos.symm rfl⟩, trivial, rfl, ?_⟩
    simp [Same, shown, hdelim]
  overflow := by
    intro p hflow _ hfits
    obtain ⟨c, heq⟩ := write_overflow cfg (p := { p with delim := .field }) hflow hfits
    exact ⟨_, heq, ⟨rfl, rfl, rfl, rfl, List.prefix_refl _⟩, hflow⟩
  broken := by
    intro p hflow hdelim
    have hdelim : p.delim = .none := hdelim
    obtain ⟨c, heq⟩ := write_broken cfg (p := { p with delim := .field }) hflow
      (unstyled [.text ": "])
    refine ⟨_, _, heq, hflow, rfl, trivial, rfl, ?_⟩
    simp [Same, shown, hdelim]

theorem prints_fieldName (fld : Field) :
    Prints anyDelim anyDelim (fld.format cfg) (fld.fit cfg) (fun ts => ts = fld.tokens) := by
  cases fld with
  | object name linkprop =>
      refine Prints.shows_mono (Prints.seq (prints_delimit cfg) (Prints.seq
        (prints_write cfg (styled (if linkprop then .linkProperty else .pointer) (.text name)))
        prints_field)) ?_
      rintro ts ⟨a, b, rfl, ⟨c, d, rfl, rfl, rfl⟩, rfl⟩
      exact ⟨_, rfl, by simp [Field.tokens, Same]⟩
  | tuple name =>
      refine Prints.shows_mono (Prints.delim_mono (Prints.seq (prints_delimit cfg) (Prints.seq
        (prints_write cfg (styled .tupleField (.text name)))
        (prints_write cfg (styled .tuple (.text " := "))))) (fun _ => id) fun _ _ => trivial) ?_
      rintro ts ⟨a, b, rfl, ⟨c, d, rfl, rfl, rfl⟩, rfl⟩
      exact ⟨_, rfl, by simp [Field.tokens, Same]⟩

/-! ## Vectors -/

theorem prints_vector (items : List String) :
    Prints anyDelim noDelim (autoSizedVector cfg items) ((Doc.vector items).fit cfg)
      (fun ts => (Doc.vector items).Shows ts) := by
  refine Prints.shows_mono (Prints.seq (prints_delimit cfg) (prints_vectorBody items)) ?_
  rintro ts ⟨a, inner, rfl, hinner, rfl⟩
  exact ⟨_, hinner, rfl⟩

/-! ## Blocks and their entries -/

/-- The name in front of an entry, if it has one. -/
def formatName (cfg : PrinterConfig) (fld : Option Field) (p : Printer) :
    Except Printer Printer :=
  match fld with
  | some fld => fld.format cfg p
  | none => .ok p

variable (cfg) in
theorem prints_name (fld : Option Field) :
    Prints anyDelim anyDelim (formatName cfg fld)
      (fun pos => match fld with | some fld => fld.fit cfg pos | none => some pos)
      (fun ts => ts = (fld.map Field.tokens).getD []) := by
  cases fld with
  | some fld => exact prints_fieldName fld
  | none => exact prints_skip

/-- The ellipsis behind the entries, if it is due. -/
def formatMore (cfg : PrinterConfig) (more : Bool) (p : Printer) : Except Printer Printer :=
  if more then ellipsis cfg p else .ok p

variable (cfg) in
theorem prints_more (more : Bool) :
    Prints anyDelim anyDelim (formatMore cfg more) (if more then fitDots cfg else some)
      (fun ts => ts = if more then [.dots] else []) := by
  cases more with
  | true => exact prints_ellipsis.delim_mono (fun _ => id) fun _ _ => trivial
  | false => exact prints_skip

theorem Entries.format_cons (fld : Option Field) (value : Doc) (entries : Entries) :
    (Entries.cons fld value entries).format cfg = fun p =>
      formatName cfg fld p >>= fun p => value.format cfg p >>= fun p =>
        comma cfg p >>= entries.format cfg := by
  funext p
  cases fld <;> rfl

theorem Doc.format_block (style : Style) (opening closing : String) (entries : Entries)
    (more : Bool) :
    (Doc.block style opening closing entries more).format cfg = fun p =>
      delimit cfg p >>= GelCli.Print.block cfg (styled style (.opening opening))
        (fun p => entries.format cfg p >>= formatMore cfg more)
        (styled style (.closing closing)) := by
  rfl

mutual
/-- **Every value prints in both layouts** as `Doc.fit` and `Doc.Shows` say. -/
theorem Doc.prints : ∀ doc : Doc,
    Prints anyDelim noDelim (doc.format cfg) (doc.fit cfg) (fun ts => doc.Shows ts)
  | .const style text => prints_const style text
  | .typed typ text => prints_typed typ text
  | .vector items => prints_vector items
  | .block style opening closing entries more => by
      have hinner := Prints.shows_mono (Prints.seq (Entries.prints entries) (prints_more cfg more))
        (T := fun ts => ∃ items, entries.Shows items ∧
          ts = commaed items ++ if more then [.dots] else [])
        (by
          rintro ts ⟨a, rest, ⟨items, hitems, rfl⟩, rfl, rfl⟩
          exact ⟨_, ⟨items, hitems, rfl⟩, rfl⟩)
      rw [Doc.format_block]
      refine Prints.shows_mono (Prints.seq (prints_delimit cfg)
        (prints_block hinner style closing trivial opening)) ?_
      rintro ts ⟨a, rest, rfl, ⟨inner, ⟨items, hitems, rfl⟩, rfl⟩, rfl⟩
      refine ⟨_, ⟨items, hitems, rfl⟩, ?_⟩
      have hclose := strip_commaed_close items more closing
      simpa [Same] using strip_append_right hclose [.opening opening]

theorem Entries.prints : ∀ entries : Entries,
    Prints anyDelim anyDelim (entries.format cfg) (entries.fit cfg)
      (fun ts => ∃ items, entries.Shows items ∧ ts = commaed items)
  | .nil => by
      refine Prints.shows_mono prints_skip ?_
      rintro ts rfl
      exact ⟨[], ⟨[], rfl, rfl⟩, rfl⟩
  | .cons fld value entries => by
      rw [Entries.format_cons]
      refine Prints.shows_mono (Prints.seq (prints_name cfg fld) (Prints.seq (Doc.prints value)
        (Prints.seq prints_comma (Entries.prints entries)))) ?_
      rintro ts ⟨a, rest, rfl, ⟨ts, rest', hts, ⟨c, d, rfl, ⟨items, hitems, rfl⟩, rfl⟩, rfl⟩, rfl⟩
      exact ⟨_, ⟨_, ⟨ts, items, hts, hitems, rfl⟩, rfl⟩, by simp [commaed_cons, Same]⟩
end

end GelCli.Print
