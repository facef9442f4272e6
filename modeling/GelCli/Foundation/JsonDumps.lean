import Mathlib.Data.List.Perm.Basic
import GelCli.Foundation.Decimal
import GelCli.Foundation.Json
import GelCli.Foundation.JsonText
import GelCli.Foundation.Dict

/-!
# Writing JSON

`json.dumps`, on one line or indented, and `json.loads` of documents whose numbers are
integers. Every character that is not printable ASCII is escaped. `loads_dumps` says that a
value whose keys do not repeat is read back.
-/

namespace GelCli.Foundation

namespace JsonText

/-! ## Characters -/

def hex4 (n : ℕ) : Text :=
  [hexChar (n / 0x1000), hexChar (n / 0x100 % 16), hexChar (n / 0x10 % 16), hexChar (n % 16)]

/-- The escape of a code below `0x10000`. -/
def unicode (n : ℕ) : Text := '\\' :: 'u' :: hex4 n

/-- A code above is split into a pair of surrogates. -/
def asciiChar (c : Char) : Text :=
  match escapes.find? fun escape => escape.2 = c && escape.1 ≠ '/' with
  | some escape => ['\\', escape.1]
  | none =>
      if ' ' ≤ c ∧ c ≤ '~' then [c]
      else if c.toNat < 0x10000 then unicode c.toNat
      else unicode (0xD800 + (c.toNat - 0x10000) / 0x400) ++
        unicode (0xDC00 + (c.toNat - 0x10000) % 0x400)

def asciiQuoted (s : Text) : Text := '"' :: (s.flatMap asciiChar ++ ['"'])

theorem readHex_hex4 {n : ℕ} (h : n < 0x10000) (t : Text) :
    readHex 4 0 (hex4 n ++ t) = some (n, t) := by
  have hfirst := hexDigit_hexChar (show n / 0x1000 < 16 by omega)
  have hsecond := hexDigit_hexChar (Nat.mod_lt (n / 0x100) (show 0 < 16 by decide))
  have hthird := hexDigit_hexChar (Nat.mod_lt (n / 0x10) (show 0 < 16 by decide))
  have hlast := hexDigit_hexChar (Nat.mod_lt n (show 0 < 16 by decide))
  simp only [hex4, List.cons_append, List.nil_append, readHex, hfirst, hsecond, hthird, hlast,
    Option.bind]
  congr 2
  omega

theorem toNat_lt (c : Char) : c.toNat < 0x110000 := by
  rcases c.valid with h | h
  · exact h.trans (by decide)
  · exact h.2

theorem not_surrogate (c : Char) : c.toNat < 0xD800 ∨ 0xE000 ≤ c.toNat := by
  rcases c.valid with h | h
  · exact Or.inl h
  · exact Or.inr h.1

theorem readEscape_u (t : Text) : readEscape ('u' :: t) = readUnicode t := by
  rw [readEscape, if_pos rfl]

theorem readUnicode_small {c : Char} (h : c.toNat < 0x10000) (t : Text) :
    readUnicode (hex4 c.toNat ++ t) = some (c, t) := by
  have hscalar := not_surrogate c
  rw [readUnicode, readHex_hex4 h, Option.bind_some]
  simp only
  rw [if_neg (by omega), if_neg (by omega), Char.ofNat_toNat]

theorem readUnicode_pair {c : Char} (h : 0x10000 ≤ c.toNat) (t : Text) :
    readUnicode (hex4 (0xD800 + (c.toNat - 0x10000) / 0x400) ++
      (unicode (0xDC00 + (c.toNat - 0x10000) % 0x400) ++ t)) = some (c, t) := by
  have hlt := toNat_lt c
  have hhigh : 0xD800 + (c.toNat - 0x10000) / 0x400 < 0x10000 := by omega
  have hlow : 0xDC00 + (c.toNat - 0x10000) % 0x400 < 0x10000 := by omega
  rw [readUnicode, readHex_hex4 hhigh, Option.bind_some]
  simp only [unicode, List.cons_append, List.take_succ_cons, List.take_zero, List.drop_succ_cons,
    List.drop_zero]
  rw [if_pos (by omega), if_pos trivial, readHex_hex4 hlow, Option.bind_some]
  simp only
  rw [if_pos (by omega)]
  have hsum : 0x10000 + (0xD800 + (c.toNat - 0x10000) / 0x400 - 0xD800) * 0x400 +
      (0xDC00 + (c.toNat - 0x10000) % 0x400 - 0xDC00) = c.toNat := by omega
  rw [hsum, Char.ofNat_toNat]

/-- Behind a character that is written as it is or escaped, the rest is read. -/
theorem readChars_asciiChar (c : Char) (turns : ℕ) (t : Text) :
    readChars (turns + 1) (asciiChar c ++ t) =
      (readChars turns t).map fun (s, rest) => (c :: s, rest) := by
  have hescaped : ∀ {escaped : Text}, readEscape escaped = some (c, t) →
      readChars (turns + 1) ('\\' :: escaped) =
        (readChars turns t).map fun (s, rest) => (c :: s, rest) := by
    intro escaped hread
    rw [readChars, if_neg (by decide), if_pos rfl, hread]
    rfl
  rw [asciiChar]
  cases hfind : escapes.find? fun escape => escape.2 = c && escape.1 ≠ '/' with
  | some escape =>
      have hmem := List.mem_of_find?_eq_some hfind
      have hescape := List.find?_some hfind
      rw [Bool.and_eq_true, decide_eq_true_eq] at hescape
      obtain ⟨rfl, -⟩ := hescape
      exact hescaped (readEscape_short hmem t)
  | none =>
      have hnone := List.find?_eq_none.mp hfind
      by_cases hprintable : ' ' ≤ c ∧ c ≤ '~'
      · have hquote : c ≠ '"' := by
          rintro rfl
          exact hnone ('"', '"') (by decide) (by decide)
        have hbackslash : c ≠ '\\' := by
          rintro rfl
          exact hnone ('\\', '\\') (by decide) (by decide)
        simp only [if_pos hprintable]
        show readChars (turns + 1) (c :: t) = _
        rw [readChars, if_neg hquote, if_neg hbackslash, if_neg (not_lt.mpr hprintable.1)]
      · simp only [if_neg hprintable]
        by_cases hsmall : c.toNat < 0x10000
        · rw [if_pos hsmall]
          exact hescaped ((readEscape_u _).trans (readUnicode_small hsmall t))
        · rw [if_neg hsmall, List.append_assoc]
          exact hescaped ((readEscape_u _).trans (readUnicode_pair (not_lt.mp hsmall) t))

theorem asciiChar_ne_nil (c : Char) : asciiChar c ≠ [] := by
  unfold asciiChar
  split
  · exact List.cons_ne_nil _ _
  · split
    · exact List.cons_ne_nil _ _
    · split <;> exact List.cons_ne_nil _ _

theorem readChars_asciiChars (s rest : Text) {turns : ℕ} (h : s.length < turns) :
    readChars turns (s.flatMap asciiChar ++ '"' :: rest) = some (s, rest) := by
  induction s generalizing turns with
  | nil =>
      obtain ⟨turns, rfl⟩ := Nat.exists_eq_succ_of_ne_zero (Nat.ne_zero_of_lt h)
      rfl
  | cons c s ih =>
      obtain ⟨turns, rfl⟩ := Nat.exists_eq_succ_of_ne_zero (Nat.ne_zero_of_lt h)
      rw [List.flatMap_cons, List.append_assoc, readChars_asciiChar, ih (by simpa using h)]
      rfl

theorem length_le_asciiChars (s : Text) : s.length ≤ (s.flatMap asciiChar).length := by
  induction s with
  | nil => exact Nat.le_refl _
  | cons c s ih =>
      have hpos := List.length_pos_of_ne_nil (asciiChar_ne_nil c)
      rw [List.flatMap_cons, List.length_append, List.length_cons]
      omega

theorem stringLiteral_asciiQuoted (s : Text) :
    StringLiteral (String.ofList s) (asciiQuoted s) := by
  intro rest
  have hlength := length_le_asciiChars s
  have hread := @readChars_asciiChars s rest
    ((s.flatMap asciiChar ++ '"' :: rest).length + 1) (by rw [List.length_append]; omega)
  rw [asciiQuoted, List.cons_append, List.append_assoc, List.singleton_append, readString,
    if_pos rfl, hread]
  rfl

/-! ## Integers -/

def readInt (t : Text) : Option ℤ :=
  if t.head? = some '-' then
    if Decimal.numeral t.tail then some (-(Decimal.value t.tail : ℤ)) else none
  else if Decimal.numeral t then some (Decimal.value t) else none

def writeInt : ℤ → Text
  | .ofNat n => Decimal.ofNat n
  | .negSucc n => '-' :: Decimal.ofNat (n + 1)

theorem isNumberChar_of_isDigit {c : Char} (h : c.isDigit) : isNumberChar c = true := by
  unfold isNumberChar
  rw [h]
  rfl

theorem numberLiteral_writeInt (n : ℤ) : NumberLiteral readInt n (writeInt n) := by
  have hdigits : ∀ n : ℕ, ∃ c rest, Decimal.ofNat n = c :: rest ∧ c.isDigit = true := by
    intro n
    have hne : Decimal.ofNat n ≠ [] := by
      intro hnil
      have hnumeral := Decimal.numeral_ofNat n
      rw [hnil] at hnumeral
      cases hnumeral
    obtain ⟨c, rest, heq⟩ := List.exists_cons_of_ne_nil hne
    exact ⟨c, rest, heq, Decimal.isDigit_of_mem_ofNat (heq ▸ List.mem_cons_self)⟩
  cases n with
  | ofNat n =>
      obtain ⟨c, rest, heq, hc⟩ := hdigits n
      refine ⟨fun d hd => isNumberChar_of_isDigit (Decimal.isDigit_of_mem_ofNat hd),
        ⟨c, rest, heq, by rw [hc]; rfl⟩, ?_⟩
      have hsign : (Decimal.ofNat n).head? ≠ some '-' := by
        rw [heq]
        rintro ⟨⟩
        cases hc
      show readInt (Decimal.ofNat n) = _
      rw [readInt, if_neg hsign, if_pos (Decimal.numeral_ofNat n), Decimal.value_ofNat]
      rfl
  | negSucc n =>
      refine ⟨fun d hd => ?_, ⟨'-', Decimal.ofNat (n + 1), rfl, rfl⟩, ?_⟩
      · rcases List.mem_cons.mp hd with rfl | hd
        · rfl
        · exact isNumberChar_of_isDigit (Decimal.isDigit_of_mem_ofNat hd)
      · show readInt ('-' :: Decimal.ofNat (n + 1)) = _
        rw [readInt, List.head?_cons, if_pos rfl, List.tail_cons, if_pos (Decimal.numeral_ofNat _),
          Decimal.value_ofNat]
        rfl

/-! ## Values -/

/-- On one line, or every element on a line of its own. -/
inductive Layout where
  | line
  | indented (width : ℕ)

def Layout.newline : Layout → ℕ → Text
  | .line, _ => []
  | .indented width, depth => '\n' :: List.replicate (width * depth) ' '

/-- What stands before an element of a list. -/
def Layout.lead (l : Layout) (first : Bool) (depth : ℕ) : Text :=
  match first, l with
  | true, l => l.newline depth
  | false, .line => [',', ' ']
  | false, l => ',' :: l.newline depth

mutual

def dump (l : Layout) (depth : ℕ) : JsonValue ℤ → Text
  | .null => "null".toList
  | .bool b => (if b then "true" else "false").toList
  | .number n => writeInt n
  | .string s => asciiQuoted s.toList
  | .array [] => ['[', ']']
  | .array (item :: items) =>
      '[' :: (l.lead true (depth + 1) ++ dump l (depth + 1) item ++
        dumpItems l (depth + 1) items ++ l.newline depth ++ [']'])
  | .object [] => ['\x7b', '\x7d']
  | .object ((key, value) :: members) =>
      '\x7b' :: (l.lead true (depth + 1) ++ (asciiQuoted key.toList ++ ':' :: ' ' ::
        dump l (depth + 1) value) ++ dumpMembers l (depth + 1) members ++ l.newline depth ++
          ['\x7d'])

/-- The elements behind the first. -/
def dumpItems (l : Layout) (depth : ℕ) : List (JsonValue ℤ) → Text
  | [] => []
  | item :: items => l.lead false depth ++ dump l depth item ++ dumpItems l depth items

def dumpMembers (l : Layout) (depth : ℕ) : List (String × JsonValue ℤ) → Text
  | [] => []
  | (key, value) :: members =>
      l.lead false depth ++ (asciiQuoted key.toList ++ ':' :: ' ' :: dump l depth value) ++
        dumpMembers l depth members

end

theorem blank_newline (l : Layout) (depth : ℕ) : Blank (l.newline depth) := by
  intro c hc
  cases l with
  | line => cases hc
  | indented width =>
      rcases List.mem_cons.mp hc with rfl | hc
      · rfl
      · rw [List.eq_of_mem_replicate hc]
        rfl

theorem lead_lead (l : Layout) (first : Bool) (depth : ℕ) : Lead first (l.lead first depth) := by
  cases first with
  | true => exact ⟨[], l.newline depth, blank_nil, blank_newline l depth, rfl⟩
  | false =>
      cases l with
      | line =>
          refine ⟨[], [' '], blank_nil, fun c hc => ?_, rfl⟩
          rw [List.mem_singleton.mp hc]
          rfl
      | indented width => exact ⟨[], _, blank_nil, blank_newline (.indented width) depth, rfl⟩

theorem writesMember_dump {key : String} {value : JsonValue ℤ} {body : Text}
    (h : Writes readInt value body) : WritesMember key (Writes readInt value)
      (asciiQuoted key.toList ++ ':' :: ' ' :: body) := by
  have hkey : StringLiteral key (asciiQuoted key.toList) := by
    have hliteral := stringLiteral_asciiQuoted key.toList
    rwa [String.ofList_toList] at hliteral
  refine ⟨asciiQuoted key.toList, [], [' '], body, hkey, blank_nil, fun c hc => ?_, h, by simp⟩
  rw [List.mem_singleton.mp hc]
  rfl

mutual

/-- **What is written for a value writes it.** -/
theorem writes_dump (l : Layout) (depth : ℕ) :
    ∀ value : JsonValue ℤ, Writes readInt value (dump l depth value)
  | .null => rfl
  | .bool b => rfl
  | .number n => numberLiteral_writeInt n
  | .string s => by
      have hliteral := stringLiteral_asciiQuoted s.toList
      rwa [String.ofList_toList] at hliteral
  | .array [] => ⟨[], [], rfl, blank_nil, rfl⟩
  | .array (item :: items) =>
      ⟨_, _, ⟨_, _, _, lead_lead l true (depth + 1), writes_dump l (depth + 1) item,
        separated_dumpItems l (depth + 1) items, rfl⟩, blank_newline l depth, rfl⟩
  | .object [] => ⟨[], [], rfl, blank_nil, rfl⟩
  | .object ((key, value) :: members) =>
      ⟨_, _, ⟨_, _, _, lead_lead l true (depth + 1), writesMember_dump
        (writes_dump l (depth + 1) value), separated_dumpMembers l (depth + 1) members, rfl⟩,
        blank_newline l depth, rfl⟩

theorem separated_dumpItems (l : Layout) (depth : ℕ) : ∀ items : List (JsonValue ℤ),
    Separated (writesItems readInt items) false (dumpItems l depth items)
  | [] => rfl
  | item :: items => ⟨_, _, _, lead_lead l false depth, writes_dump l depth item,
      separated_dumpItems l depth items, rfl⟩

theorem separated_dumpMembers (l : Layout) (depth : ℕ) :
    ∀ members : List (String × JsonValue ℤ),
      Separated (writesMembers readInt members) false (dumpMembers l depth members)
  | [] => rfl
  | (_, value) :: members => ⟨_, _, _, lead_lead l false depth,
      writesMember_dump (writes_dump l depth value), separated_dumpMembers l depth members, rfl⟩

end

theorem parse_dump (l : Layout) (value : JsonValue ℤ) {after : Text} (hafter : Blank after) :
    parse readInt (dump l 0 value ++ after) = some value := by
  have hparse := parse_writes (writes_dump l 0 value) blank_nil hafter
  rwa [List.nil_append] at hparse

end JsonText

namespace Json

open JsonText

/-! ## The values of documents -/

mutual

def toValue : Json → JsonValue ℤ
  | .null => .null
  | .bool b => .bool b
  | .num n => .number n
  | .str s => .string (String.ofList s)
  | .arr items => .array (valueItems items)
  | .obj fields => .object (valueFields fields)

def valueItems : List Json → List (JsonValue ℤ)
  | [] => []
  | item :: items => toValue item :: valueItems items

def valueFields : List (String × Json) → List (String × JsonValue ℤ)
  | [] => []
  | (key, field) :: fields => (key, toValue field) :: valueFields fields

end

mutual

/-- A key that repeats keeps its place and takes the last value. -/
def ofValue : JsonValue ℤ → Json
  | .null => .null
  | .bool b => .bool b
  | .number n => .num n
  | .string s => .str s.toList
  | .array items => .arr (ofItems items)
  | .object members => .obj (ofMembers [] members)

def ofItems : List (JsonValue ℤ) → List Json
  | [] => []
  | item :: items => ofValue item :: ofItems items

def ofMembers (fields : List (String × Json)) : List (String × JsonValue ℤ) → List (String × Json)
  | [] => fields
  | (key, member) :: members => ofMembers (Dict.setItems key (ofValue member) fields) members

end

mutual

/-- No key of an object repeats, at any depth. -/
def Apart : Json → Prop
  | .arr items => ApartItems items
  | .obj fields => (fields.map Prod.fst).Nodup ∧ ApartFields fields
  | _ => True

def ApartItems : List Json → Prop
  | [] => True
  | item :: items => Apart item ∧ ApartItems items

def ApartFields : List (String × Json) → Prop
  | [] => True
  | (_, field) :: fields => Apart field ∧ ApartFields fields

end

mutual

theorem ofValue_toValue : ∀ j : Json, j.Apart → ofValue j.toValue = j
  | .null, _ => rfl
  | .bool _, _ => rfl
  | .num _, _ => rfl
  | .str _, _ => congrArg Json.str String.toList_ofList
  | .arr items, h => congrArg Json.arr (ofItems_valueItems items h)
  | .obj fields, h => congrArg Json.obj (ofMembers_valueFields [] fields h.1 h.2)

theorem ofItems_valueItems : ∀ items : List Json, ApartItems items → ofItems (valueItems items) = items
  | [], _ => rfl
  | item :: items, h => congrArg₂ List.cons (ofValue_toValue item h.1) (ofItems_valueItems items h.2)

theorem ofMembers_valueFields : ∀ before fields : List (String × Json),
    ((before ++ fields).map Prod.fst).Nodup → ApartFields fields →
      ofMembers before (valueFields fields) = before ++ fields
  | before, [], _, _ => (List.append_nil before).symm
  | before, (key, field) :: fields, hnodup, hapart => by
      have hsplit : before ++ (key, field) :: fields = before ++ [(key, field)] ++ fields := by simp
      have hnew : key ∉ before.map Prod.fst := by
        rw [List.map_append] at hnodup
        exact fun hmem => (List.nodup_append.mp hnodup).2.2 key hmem key (by simp) rfl
      rw [valueFields, ofMembers, ofValue_toValue field hapart.1, Dict.setItems_of_notMem hnew]
      rw [hsplit] at hnodup ⊢
      exact ofMembers_valueFields (before ++ [(key, field)]) fields hnodup hapart.2

end

/-! ## Documents -/

def dumps (l : Layout) (j : Json) : Text := dump l 0 j.toValue

def loads (t : Text) : Option Json := (parse readInt t).map ofValue

/-- **A value that is written is read back.** -/
theorem loads_dumps (l : Layout) {j : Json} (hj : j.Apart) {after : Text} (hafter : Blank after) :
    loads (j.dumps l ++ after) = some j := by
  rw [loads, dumps, parse_dump l j.toValue hafter, Option.map_some, ofValue_toValue j hj]

/-! ## What is read -/

theorem apart_setItems {key : String} {field : Json} (hfield : field.Apart) :
    ∀ fields : List (String × Json), ApartFields fields →
      ApartFields (Dict.setItems key field fields)
  | [], _ => ⟨hfield, trivial⟩
  | (other, found) :: fields, h => by
      unfold Dict.setItems
      split
      · exact ⟨hfield, h.2⟩
      · exact ⟨h.1, apart_setItems hfield fields h.2⟩

mutual

theorem apart_ofValue : ∀ v : JsonValue ℤ, (ofValue v).Apart
  | .null => trivial
  | .bool _ => trivial
  | .number _ => trivial
  | .string _ => trivial
  | .array items => apart_ofItems items
  | .object members => apart_ofMembers [] members List.nodup_nil trivial

theorem apart_ofItems : ∀ items : List (JsonValue ℤ), ApartItems (ofItems items)
  | [] => trivial
  | item :: items => ⟨apart_ofValue item, apart_ofItems items⟩

theorem apart_ofMembers : ∀ (fields : List (String × Json)) (members : List (String × JsonValue ℤ)),
    (fields.map Prod.fst).Nodup → ApartFields fields →
      ((ofMembers fields members).map Prod.fst).Nodup ∧ ApartFields (ofMembers fields members)
  | _, [], hnodup, hfields => ⟨hnodup, hfields⟩
  | fields, (_, member) :: members, hnodup, hfields =>
      apart_ofMembers _ members (Dict.nodup_setItems hnodup)
        (apart_setItems (apart_ofValue member) fields hfields)

end

/-- The keys of an object that is read do not repeat. -/
theorem apart_of_loads {t : Text} {j : Json} (h : loads t = some j) : j.Apart := by
  obtain ⟨v, -, rfl⟩ := Option.map_eq_some_iff.mp h
  exact apart_ofValue v

theorem apart_arr {items : List Json} : (arr items).Apart ↔ ∀ item ∈ items, item.Apart := by
  induction items with
  | nil => simp [Apart, ApartItems]
  | cons item items ih =>
      rw [List.forall_mem_cons, ← ih]
      rfl

theorem apart_obj {fields : List (String × Json)} : (obj fields).Apart ↔
    (fields.map Prod.fst).Nodup ∧ ∀ field ∈ fields, field.2.Apart := by
  have hfields : ApartFields fields ↔ ∀ field ∈ fields, field.2.Apart := by
    induction fields with
    | nil => simp [ApartFields]
    | cons field fields ih =>
        rw [List.forall_mem_cons, ← ih]
        rfl
  exact and_congr_right fun _ => hfields

theorem lookup_eq_some {fields : List (String × Json)} (hnodup : (fields.map Prod.fst).Nodup)
    {key : String} {field : Json} :
    fields.lookup key = some field ↔ (key, field) ∈ fields := by
  induction fields with
  | nil => simp
  | cons entry fields ih =>
      obtain ⟨other, found⟩ := entry
      obtain ⟨hother, hrest⟩ := List.nodup_cons.mp hnodup
      by_cases heq : key = other
      · subst heq
        have hno : (key, field) ∉ fields := fun hmem =>
          hother (List.mem_map.mpr ⟨(key, field), hmem, rfl⟩)
        simp [hno, eq_comm]
      · have hbeq : (key == other) = false := by simpa using heq
        rw [List.lookup_cons, hbeq]
        simp only
        rw [ih hrest, List.mem_cons, or_iff_right]
        intro hpair
        exact heq (congrArg Prod.fst hpair)

theorem Apart.get {j : Json} (h : j.Apart) (key : String) : (j.get key).Apart := by
  cases j with
  | obj fields =>
      obtain ⟨hnodup, hfields⟩ := apart_obj.mp h
      rw [get_obj]
      cases hlookup : fields.lookup key with
      | none => trivial
      | some field => exact hfields (key, field) ((lookup_eq_some hnodup).mp hlookup)
  | _ => trivial

/-! ## Equal values -/

/-- Equality of Python: the order of the keys does not count. -/
inductive Equal : Json → Json → Prop where
  | refl (j : Json) : Equal j j
  | arr {items items' : List Json} : List.Forall₂ Equal items items' →
      Equal (.arr items) (.arr items')
  | obj {fields between fields' : List (String × Json)} : fields.Perm between →
      between.map Prod.fst = fields'.map Prod.fst →
        List.Forall₂ Equal (between.map Prod.snd) (fields'.map Prod.snd) →
          Equal (.obj fields) (.obj fields')

theorem lookup_perm {fields between : List (String × Json)} (hperm : fields.Perm between)
    (hnodup : (fields.map Prod.fst).Nodup) (key : String) :
    fields.lookup key = between.lookup key := by
  have hnodup' : (between.map Prod.fst).Nodup := (hperm.map Prod.fst).nodup_iff.mp hnodup
  ext field
  rw [lookup_eq_some hnodup, lookup_eq_some hnodup', hperm.mem_iff]

theorem lookup_forall₂ {between fields : List (String × Json)}
    (hkeys : between.map Prod.fst = fields.map Prod.fst)
    (hfields : List.Forall₂ Equal (between.map Prod.snd) (fields.map Prod.snd)) (key : String) :
    Equal ((between.lookup key).getD .null) ((fields.lookup key).getD .null) := by
  induction fields generalizing between with
  | nil =>
      rw [List.map_eq_nil_iff.mp hkeys]
      exact Equal.refl _
  | cons field fields ih =>
      obtain ⟨first, between, rfl⟩ := List.exists_cons_of_ne_nil
        (List.ne_nil_of_length_eq_add_one (by simpa using congrArg List.length hkeys))
      obtain ⟨name, found⟩ := field
      obtain ⟨name', found'⟩ := first
      obtain ⟨hname, hkeys'⟩ := List.cons.inj hkeys
      obtain ⟨hfound, hfields'⟩ := List.forall₂_cons.mp hfields
      cases hname
      by_cases heq : key = name
      · subst heq
        simpa [List.lookup_cons] using hfound
      · have hbeq : (key == name) = false := by simpa using heq
        simp only [List.lookup_cons, hbeq]
        exact ih hkeys' hfields'

namespace Equal

variable {a b : Json}

theorem get (h : Equal a b) (ha : a.Apart) (key : String) : Equal (a.get key) (b.get key) := by
  cases h with
  | refl => exact Equal.refl _
  | arr _ => exact Equal.refl _
  | obj hperm hkeys hfields =>
      rw [get_obj, get_obj, lookup_perm hperm ha.1]
      exact lookup_forall₂ hkeys hfields key

@[simp] theorem null_iff : Equal a .null ↔ a = .null := by
  constructor
  · rintro ⟨⟩
    rfl
  · rintro rfl
    exact Equal.refl _

@[simp] theorem num_iff {n : ℤ} : Equal a (.num n) ↔ a = .num n := by
  constructor
  · rintro ⟨⟩
    rfl
  · rintro rfl
    exact Equal.refl _

@[simp] theorem str_iff {s : Text} : Equal a (.str s) ↔ a = .str s := by
  constructor
  · rintro ⟨⟩
    rfl
  · rintro rfl
    exact Equal.refl _

theorem arr_iff {items : List Json} :
    Equal a (.arr items) ↔ ∃ found, a = .arr found ∧ List.Forall₂ Equal found items := by
  constructor
  · intro h
    cases h with
    | refl => exact ⟨items, rfl, List.forall₂_same.mpr fun item _ => Equal.refl item⟩
    | arr hitems => exact ⟨_, rfl, hitems⟩
  · rintro ⟨found, rfl, hitems⟩
    exact Equal.arr hitems

/-- An object with the keys, in any order, and equal fields. -/
theorem obj_iff (ha : a.Apart) {fields : List (String × Json)}
    (hnodup : (fields.map Prod.fst).Nodup) :
    Equal a (.obj fields) ↔
      (∃ found, a = .obj found ∧ (found.map Prod.fst).Perm (fields.map Prod.fst)) ∧
        ∀ field ∈ fields, Equal (a.get field.1) field.2 := by
  constructor
  · intro h
    refine ⟨?_, fun field hfield => ?_⟩
    · cases h with
      | refl => exact ⟨fields, rfl, List.Perm.refl _⟩
      | obj hperm hkeys _ => exact ⟨_, rfl, hkeys ▸ hperm.map Prod.fst⟩
    · have hget := h.get ha field.1
      rwa [get_obj, (lookup_eq_some hnodup).mpr hfield, Option.getD_some] at hget
  · rintro ⟨⟨found, rfl, hkeys⟩, hfields⟩
    have hbetween : (fields.map fun field => (field.1, (Json.obj found).get field.1)).map Prod.fst =
        fields.map Prod.fst := by
      rw [List.map_map]
      rfl
    refine @Equal.obj found (fields.map fun field => (field.1, (Json.obj found).get field.1)) fields
      ?_ hbetween ?_
    · rw [List.perm_ext_iff_of_nodup (List.Nodup.of_map _ ha.1)
        (List.Nodup.of_map Prod.fst (hbetween ▸ hnodup))]
      rintro ⟨key, value⟩
      rw [← lookup_eq_some ha.1, List.mem_map]
      constructor
      · intro hlookup
        have hkey : key ∈ fields.map Prod.fst :=
          hkeys.subset (List.mem_map_of_mem ((lookup_eq_some ha.1).mp hlookup))
        obtain ⟨field, hfield, rfl⟩ := List.mem_map.mp hkey
        exact ⟨field, hfield, by rw [get_obj, hlookup, Option.getD_some]⟩
      · rintro ⟨field, hfield, heq⟩
        cases heq
        have hmem : field.1 ∈ found.map Prod.fst :=
          hkeys.symm.subset (List.mem_map_of_mem hfield)
        obtain ⟨⟨_, value⟩, hvalue, rfl⟩ := List.mem_map.mp hmem
        rw [get_obj, (lookup_eq_some ha.1).mpr hvalue, Option.getD_some]
    · rw [List.map_map, List.forall₂_map_left_iff, List.forall₂_map_right_iff]
      exact List.forall₂_same.mpr hfields

end Equal

end Json

end GelCli.Foundation
