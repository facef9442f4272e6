import GelCli.Foundation.ByteIndex
import Mathlib.Data.List.Basic
import Mathlib.Data.List.Induction

/-!
# Source maps

`Builder` and `SourceMap` of `src/migrations/source_map.rs`: the texts that are sent to
the server as one, and the way back from a range of that to a range of one of the texts.
-/

namespace GelCli.Migrations.Source

open GelCli.Foundation

universe u

variable {N : Type u}

structure Slice (N : Type u) where
  name : N
  byteOffset : Nat
  size : Nat
deriving DecidableEq, Repr

structure SourceMap (N : Type u) where
  slices : List (Slice N)
deriving DecidableEq, Repr

structure Builder (N : Type u) where
  buffer : Text
  sourceMap : SourceMap N
deriving DecidableEq, Repr

namespace Builder

def new : Builder N := ⟨[], ⟨[]⟩⟩

def addLines (b : Builder N) (name : N) (data : Text) : Builder N where
  buffer := b.buffer ++ data ++ if data.getLast? = some '\n' then [] else ['\n']
  sourceMap := ⟨b.sourceMap.slices ++ [⟨name, Text.byteLen b.buffer, Text.byteLen data⟩]⟩

def done (b : Builder N) : Text × SourceMap N := (b.buffer, b.sourceMap)

end Builder

namespace SourceMap

/-- The last slice that begins before the range decides. -/
def translateIn (start stop : Nat) : List (Slice N) → Option (N × Nat)
  | [] => none
  | slice :: before =>
      if slice.byteOffset ≤ start then
        if slice.size < stop - slice.byteOffset then none else some (slice.name, slice.byteOffset)
      else translateIn start stop before

def translateRange (map : SourceMap N) (start stop : Nat) : Option (N × Nat) :=
  translateIn start stop map.slices.reverse

end SourceMap

/-! ## The texts in the buffer -/

/-- What a sequence of `add_lines` makes. -/
def build (texts : List (N × Text)) : Builder N :=
  texts.foldl (fun b text => b.addLines text.1 text.2) .new

def buffer (texts : List (N × Text)) : Text := (build texts).done.1

def sourceMap (texts : List (N × Text)) : SourceMap N := (build texts).done.2

/-- Where a text begins. -/
def offset (texts : List (N × Text)) (i : Nat) : Nat := Text.byteLen (buffer (texts.take i))

/-- The range lies inside a text. -/
def Inside (texts : List (N × Text)) (start stop i : Nat) : Prop :=
  ∃ text, texts[i]? = some text ∧ offset texts i ≤ start ∧
    stop ≤ offset texts i + Text.byteLen text.2

/-- `&t[start..stop]` as bytes. -/
def bytes (t : Text) (start stop : Nat) : List UInt8 := ((Text.utf8 t).drop start).take (stop - start)

theorem buffer_concat (texts : List (N × Text)) (text : N × Text) :
    buffer (texts ++ [text]) =
      buffer texts ++ text.2 ++ if text.2.getLast? = some '\n' then [] else ['\n'] := by
  rw [buffer, build, List.foldl_append]
  rfl

theorem slices_concat (texts : List (N × Text)) (text : N × Text) :
    (sourceMap (texts ++ [text])).slices = (sourceMap texts).slices ++
      [⟨text.1, Text.byteLen (buffer texts), Text.byteLen text.2⟩] := by
  rw [sourceMap, build, List.foldl_append]
  rfl

theorem translateRange_concat (texts : List (N × Text)) (text : N × Text) (start stop : Nat) :
    (sourceMap (texts ++ [text])).translateRange start stop =
      if Text.byteLen (buffer texts) ≤ start then
        if Text.byteLen text.2 < stop - Text.byteLen (buffer texts) then none
        else some (text.1, Text.byteLen (buffer texts))
      else (sourceMap texts).translateRange start stop := by
  rw [SourceMap.translateRange, slices_concat, List.reverse_append]
  rfl

theorem offset_concat {texts : List (N × Text)} {i : Nat} (h : i ≤ texts.length)
    (text : N × Text) : offset (texts ++ [text]) i = offset texts i := by
  rw [offset, List.take_append_of_le_length h]
  rfl

theorem offset_length (texts : List (N × Text)) :
    offset texts texts.length = Text.byteLen (buffer texts) := by
  rw [offset, List.take_length]

theorem buffer_prefix (texts : List (N × Text)) (i : Nat) : buffer (texts.take i) <+: buffer texts := by
  induction texts using List.reverseRecOn with
  | nil => exact ⟨[], by rw [List.take_nil, List.append_nil]⟩
  | append_singleton texts text ih =>
      rcases Nat.lt_or_ge texts.length i with hi | hi
      · have hall : (texts ++ [text]).take i = texts ++ [text] :=
          List.take_of_length_le (by rw [List.length_append]; exact hi)
        exact ⟨[], by rw [hall, List.append_nil]⟩
      · rw [List.take_append_of_le_length hi, buffer_concat, List.append_assoc]
        exact ih.trans ⟨_, rfl⟩

/-- A text stands in the buffer at its offset. -/
theorem exists_buffer {texts : List (N × Text)} {i : Nat} {text : N × Text}
    (h : texts[i]? = some text) :
    ∃ before after, buffer texts = before ++ text.2 ++ after ∧
      Text.byteLen before = offset texts i := by
  obtain ⟨hi, rfl⟩ := List.getElem?_eq_some_iff.mp h
  obtain ⟨after, hafter⟩ := buffer_prefix texts (i + 1)
  rw [← List.take_append_getElem hi, buffer_concat] at hafter
  rw [List.append_assoc (_ ++ _)] at hafter
  exact ⟨buffer (texts.take i), _, hafter.symm, rfl⟩

/-- A text ends before the next one begins. -/
theorem offset_add_le {texts : List (N × Text)} {i j : Nat} {text : N × Text}
    (h : texts[i]? = some text) (hij : i < j) :
    offset texts i + Text.byteLen text.2 ≤ offset texts j := by
  obtain ⟨hi, rfl⟩ := List.getElem?_eq_some_iff.mp h
  obtain ⟨after, hafter⟩ := buffer_prefix (texts.take j) (i + 1)
  rw [List.take_take, Nat.min_eq_left (Nat.succ_le_of_lt hij), ← List.take_append_getElem hi,
    buffer_concat] at hafter
  rw [offset, offset, ← hafter, Text.byteLen_append, Text.byteLen_append, Text.byteLen_append]
  omega

theorem lt_length_of_inside {texts : List (N × Text)} {start stop i : Nat}
    (h : Inside texts start stop i) : i < texts.length := by
  obtain ⟨text, htext, -⟩ := h
  exact (List.getElem?_eq_some_iff.mp htext).1

theorem inside_concat {texts : List (N × Text)} {text : N × Text} {start stop i : Nat}
    (hi : i < texts.length) :
    Inside (texts ++ [text]) start stop i ↔ Inside texts start stop i := by
  rw [Inside, Inside, List.getElem?_append_left hi, offset_concat (Nat.le_of_lt hi)]

theorem inside_last {texts : List (N × Text)} {text : N × Text} {start stop : Nat} :
    Inside (texts ++ [text]) start stop texts.length ↔ Text.byteLen (buffer texts) ≤ start ∧
      stop ≤ Text.byteLen (buffer texts) + Text.byteLen text.2 := by
  rw [Inside, List.getElem?_concat_length, offset_concat (Nat.le_refl _), offset_length]
  simp

/-! ## Translating -/

variable {texts : List (N × Text)} {start stop : Nat}

/-- **What a range is translated to**: the last of the texts that it lies inside. -/
theorem translateRange_eq_some (hle : start ≤ stop) {name : N} {o : Nat} :
    (sourceMap texts).translateRange start stop = some (name, o) ↔
      ∃ i data, texts[i]? = some (name, data) ∧ o = offset texts i ∧ Inside texts start stop i ∧
        ∀ j, Inside texts start stop j → j ≤ i := by
  induction texts using List.reverseRecOn with
  | nil =>
      refine iff_of_false (fun h => by cases h) ?_
      rintro ⟨i, data, h, -⟩
      cases h
  | append_singleton texts text ih =>
      have hlength : (texts ++ [text]).length = texts.length + 1 := List.length_append
      rw [translateRange_concat]
      by_cases hstart : Text.byteLen (buffer texts) ≤ start
      · rw [if_pos hstart]
        by_cases hsize : Text.byteLen text.2 < stop - Text.byteLen (buffer texts)
        · rw [if_pos hsize]
          refine iff_of_false (fun h => by cases h) ?_
          rintro ⟨i, data, htext, -, hinside, -⟩
          have hi := lt_length_of_inside hinside
          rw [hlength, Nat.lt_succ_iff_lt_or_eq] at hi
          rcases hi with hi | rfl
          · -- the range would end where this text begins
            obtain ⟨text', htext', -, hstop⟩ := (inside_concat hi).mp hinside
            have hbefore := offset_add_le htext' hi
            rw [offset_length] at hbefore
            omega
          · have hstop := (inside_last.mp hinside).2
            omega
        · rw [if_neg hsize]
          have hlast : Inside (texts ++ [text]) start stop texts.length :=
            inside_last.mpr ⟨hstart, by omega⟩
          constructor
          · intro h
            cases h
            refine ⟨texts.length, text.2, List.getElem?_concat_length, ?_, hlast, fun j hj => ?_⟩
            · rw [offset_concat (Nat.le_refl _), offset_length]
            · have hlt := lt_length_of_inside hj
              rw [hlength] at hlt
              exact Nat.lt_succ_iff.mp hlt
          · rintro ⟨i, data, htext, rfl, hinside, hmax⟩
            have hi := lt_length_of_inside hinside
            rw [hlength] at hi
            obtain rfl := Nat.le_antisymm (Nat.lt_succ_iff.mp hi) (hmax _ hlast)
            rw [List.getElem?_concat_length] at htext
            rw [offset_concat (Nat.le_refl _), offset_length, Option.some.inj htext]
      · rw [if_neg hstart, ih]
        have hbefore : ∀ {i}, Inside (texts ++ [text]) start stop i → i < texts.length := by
          intro i hinside
          have hi := lt_length_of_inside hinside
          rw [hlength, Nat.lt_succ_iff_lt_or_eq] at hi
          rcases hi with hi | rfl
          · exact hi
          · exact absurd (inside_last.mp hinside).1 hstart
        constructor
        · rintro ⟨i, data, htext, rfl, hinside, hmax⟩
          have hi := lt_length_of_inside hinside
          refine ⟨i, data, (List.getElem?_append_left hi).trans htext,
            (offset_concat (Nat.le_of_lt hi) text).symm, (inside_concat hi).mpr hinside, ?_⟩
          exact fun j hj => hmax j ((inside_concat (hbefore hj)).mp hj)
        · rintro ⟨i, data, htext, rfl, hinside, hmax⟩
          have hi := hbefore hinside
          refine ⟨i, data, (List.getElem?_append_left hi).symm.trans htext,
            offset_concat (Nat.le_of_lt hi) text, (inside_concat hi).mp hinside, ?_⟩
          exact fun j hj => hmax j ((inside_concat (lt_length_of_inside hj)).mpr hj)

/-- The bytes of a range inside a text are the bytes of that text. -/
theorem bytes_of_inside {i : Nat} {text : N × Text} (htext : texts[i]? = some text)
    (hstart : offset texts i ≤ start) (hstop : stop ≤ offset texts i + Text.byteLen text.2) :
    bytes (buffer texts) start stop = bytes text.2 (start - offset texts i) (stop - offset texts i) := by
  obtain ⟨before, after, hbuffer, hbefore⟩ := exists_buffer htext
  have hlength : (Text.utf8 before).length = offset texts i := by rw [Text.length_utf8, hbefore]
  rw [bytes, bytes, hbuffer, Text.utf8_append, Text.utf8_append, List.append_assoc,
    List.drop_append, List.drop_of_length_le (by omega), List.nil_append, hlength, List.drop_append,
    List.take_append_of_le_length (by rw [List.length_drop, Text.length_utf8]; omega)]
  congr 1
  omega

/-- A range that is not empty lies inside one text at most. -/
theorem inside_unique (hlt : start < stop) {i j : Nat} (hi : Inside texts start stop i)
    (hj : Inside texts start stop j) : i = j := by
  have hnot : ∀ {i j}, Inside texts start stop i → Inside texts start stop j → ¬ i < j := by
    rintro i j ⟨text, htext, -, hstop⟩ ⟨-, -, hstart, -⟩ hij
    have hbefore := offset_add_le htext hij
    omega
  exact Nat.le_antisymm (Nat.le_of_not_lt (hnot hj hi)) (Nat.le_of_not_lt (hnot hi hj))

/-- **The source map points at the text that was sent.** A range is only ever translated to
a text it lies inside, with the same bytes. A range inside a single text is translated to
that one. -/
theorem translateRange_faithful (hle : start ≤ stop) :
    (∀ name o, (sourceMap texts).translateRange start stop = some (name, o) →
      ∃ i data, texts[i]? = some (name, data) ∧ offset texts i = o ∧ o ≤ start ∧
        stop - o ≤ Text.byteLen data ∧
        bytes (buffer texts) start stop = bytes data (start - o) (stop - o)) ∧
    ∀ i text, texts[i]? = some text → Inside texts start stop i →
      (start < stop ∨ ∀ j, Inside texts start stop j → j = i) →
        (sourceMap texts).translateRange start stop = some (text.1, offset texts i) := by
  constructor
  · intro name o h
    obtain ⟨i, data, htext, rfl, ⟨text, htext', hstart, hstop⟩, -⟩ :=
      (translateRange_eq_some hle).mp h
    obtain rfl := Option.some.inj (htext.symm.trans htext')
    exact ⟨i, data, htext, rfl, hstart, Nat.sub_le_iff_le_add'.mpr hstop,
      bytes_of_inside htext hstart hstop⟩
  · intro i text htext hinside hsingle
    refine (translateRange_eq_some hle).mpr ⟨i, text.2, htext, rfl, hinside, fun j hj => ?_⟩
    rcases hsingle with hlt | hsingle
    · exact Nat.le_of_eq (inside_unique hlt hj hinside)
    · exact Nat.le_of_eq (hsingle j hj)

/-- The second text, and not the end of the first one. -/
theorem translateRange_faithful_second :
    (sourceMap [(1, "a\n".toList), (2, "b".toList)]).translateRange 2 3 = some (2, 2) :=
  (translateRange_faithful (by decide : 2 ≤ 3)).2 1 (2, "b".toList) rfl
    ⟨_, rfl, by decide, by decide⟩ (.inl (by decide))

end GelCli.Migrations.Source
