import Mathlib.Algebra.GroupWithZero.Nat
import Mathlib.Algebra.Ring.Int.Defs
import Mathlib.Data.Char
import Mathlib.Data.List.Lex
import Mathlib.Data.List.Sort

/-!
# Texts

Strings that a program cuts, joins and sorts, as lists of characters: cutting at
the first separator, the newline translation of text streams, and sorting by code
points. `List.splitOn` is the split at every separator.
-/

namespace GelCli.Foundation

abbrev Text := List Char

namespace Text

instance lawfulBEq : LawfulBEq Text := inferInstance

/-! ## Cutting -/

/-- The parts before and after the first `c`. -/
def cut (c : Char) : Text → Option (Text × Text)
  | [] => none
  | d :: rest => if d = c then some ([], rest) else (cut c rest).map fun p => (d :: p.1, p.2)

theorem cut_append {c : Char} {a : Text} (h : c ∉ a) (b : Text) :
    cut c (a ++ c :: b) = some (a, b) := by
  induction a with
  | nil => simp [cut]
  | cons d a ih =>
      obtain ⟨hd, ha⟩ := not_or.mp (mt List.mem_cons.mpr h)
      simp [cut, Ne.symm hd, ih ha]

theorem cut_eq_some {c : Char} {t a b : Text} (h : cut c t = some (a, b)) :
    t = a ++ c :: b ∧ c ∉ a := by
  induction t generalizing a b with
  | nil => cases h
  | cons d t ih =>
      unfold cut at h
      split at h
      · next hd =>
        cases h
        exact ⟨by rw [hd]; rfl, List.not_mem_nil⟩
      · next hd =>
        obtain ⟨⟨a', b'⟩, hcut, heq⟩ := Option.map_eq_some_iff.mp h
        cases heq
        obtain ⟨rfl, hmem⟩ := ih hcut
        exact ⟨rfl, by simp [hmem, Ne.symm hd]⟩

/-- `str::strip_prefix` -/
def stripStart (start t : Text) : Option Text :=
  if start.isPrefixOf t then some (t.drop start.length) else none

theorem stripStart_append (start t : Text) : stripStart start (start ++ t) = some t := by
  rw [stripStart, if_pos (List.isPrefixOf_iff_prefix.mpr (List.prefix_append start t)),
    List.drop_left]

theorem stripStart_eq_none {start t : Text} (h : ∀ rest, t ≠ start ++ rest) :
    stripStart start t = none := by
  refine if_neg fun hstart => ?_
  obtain ⟨rest, hrest⟩ := List.isPrefixOf_iff_prefix.mp hstart
  exact h rest hrest.symm

/-- `str::replacen` with the count one, of a pattern that is not empty. -/
def replaceFirst (pattern new : Text) : Text → Text
  | [] => []
  | c :: t =>
      if pattern.isPrefixOf (c :: t) then new ++ (c :: t).drop pattern.length
      else c :: replaceFirst pattern new t

theorem replaceFirst_append {c : Char} {pattern new before : Text} (h : c ∉ before) (t : Text) :
    replaceFirst (c :: pattern) new (before ++ (c :: pattern ++ t)) = before ++ (new ++ t) := by
  induction before with
  | nil =>
      have hstarts : (c :: pattern).isPrefixOf (c :: (pattern ++ t)) = true :=
        List.isPrefixOf_iff_prefix.mpr ⟨t, rfl⟩
      rw [List.nil_append, List.cons_append, replaceFirst, if_pos hstarts]
      simp
  | cons d before ih =>
      obtain ⟨hd, hbefore⟩ := not_or.mp (mt List.mem_cons.mpr h)
      have hstarts : ¬ (c :: pattern).isPrefixOf (d :: (before ++ (c :: pattern ++ t))) = true := by
        rintro hstarts
        exact hd (List.cons_prefix_cons.mp (List.isPrefixOf_iff_prefix.mp hstarts)).1
      rw [List.cons_append, replaceFirst, if_neg hstarts, ih hbefore]
      rfl

theorem notMem_replaceFirst {c : Char} {pattern new t : Text} (ht : c ∉ t) (hnew : c ∉ new) :
    c ∉ replaceFirst pattern new t := by
  induction t with
  | nil => exact ht
  | cons d t ih =>
      obtain ⟨hd, htail⟩ := not_or.mp (mt List.mem_cons.mpr ht)
      rw [replaceFirst]
      split
      · intro hmem
        rcases List.mem_append.mp hmem with hmem | hmem
        · exact hnew hmem
        · exact ht (List.mem_of_mem_drop hmem)
      · intro hmem
        rcases List.mem_cons.mp hmem with rfl | hmem
        · exact hd rfl
        · exact ih htail hmem

/-- Texts around a first separator are determined by the whole. -/
theorem append_cons_inj {c : Char} {a a' b b' : Text} (ha : c ∉ a) (ha' : c ∉ a')
    (h : a ++ c :: b = a' ++ c :: b') : a = a' ∧ b = b' := by
  have hcut := cut_append ha b
  rw [h, cut_append ha' b'] at hcut
  cases hcut
  exact ⟨rfl, rfl⟩

/-- Texts around a last separator are determined by the whole. -/
theorem append_cons_inj_last {c : Char} {a a' b b' : Text} (hb : c ∉ b) (hb' : c ∉ b')
    (h : a ++ c :: b = a' ++ c :: b') : a = a' ∧ b = b' := by
  have hrev := congrArg List.reverse h
  simp only [List.reverse_append, List.reverse_cons, List.append_assoc,
    List.singleton_append] at hrev
  obtain ⟨hb, ha⟩ := append_cons_inj (by simpa using hb) (by simpa using hb') hrev
  exact ⟨List.reverse_injective ha, List.reverse_injective hb⟩

/-- A text that ends with its only `c`. -/
def EndsAt (c : Char) (t : Text) : Prop := ∃ body, t = body ++ [c] ∧ c ∉ body

/-- Such texts are cut out of the text they are joined to. -/
theorem flatten_inj {c : Char} {ts us : List Text} (hts : ∀ t ∈ ts, EndsAt c t)
    (hus : ∀ u ∈ us, EndsAt c u) (h : ts.flatten = us.flatten) : ts = us := by
  induction ts generalizing us with
  | nil =>
      cases us with
      | nil => rfl
      | cons u us =>
          obtain ⟨body, rfl, -⟩ := hus u List.mem_cons_self
          simp at h
  | cons t ts ih =>
      obtain ⟨body, rfl, hbody⟩ := hts t List.mem_cons_self
      cases us with
      | nil => simp at h
      | cons u us =>
          obtain ⟨body', rfl, hbody'⟩ := hus u List.mem_cons_self
          rw [List.flatten_cons, List.flatten_cons, List.append_assoc, List.append_assoc] at h
          obtain ⟨rfl, hrest⟩ := append_cons_inj hbody hbody' h
          rw [ih (fun t ht => hts t (List.mem_cons_of_mem _ ht))
            (fun u hu => hus u (List.mem_cons_of_mem _ hu)) hrest]

/-- The parts before and after the last `c`. -/
def cutLast (c : Char) (t : Text) : Option (Text × Text) :=
  (cut c t.reverse).map fun p => (p.2.reverse, p.1.reverse)

theorem cutLast_append {c : Char} {b : Text} (h : c ∉ b) (a : Text) :
    cutLast c (a ++ c :: b) = some (a, b) := by
  rw [cutLast, List.reverse_append, List.reverse_cons, List.append_assoc, List.singleton_append,
    cut_append (by simpa using h)]
  simp

/-! ## UTF-8 -/

def utf8 (t : Text) : List UInt8 := (String.ofList t).toByteArray.data.toList

def ofUtf8 (bytes : List UInt8) : Option Text :=
  (ByteArray.mk bytes.toArray).utf8Decode?.map Array.toList

theorem ofUtf8_utf8 (t : Text) : ofUtf8 (utf8 t) = some t := by
  have hbytes : ByteArray.mk (utf8 t).toArray = t.utf8Encode := by
    rw [← String.toByteArray_ofList, utf8, Array.toArray_toList]
  rw [ofUtf8, hbytes, List.utf8Decode?_utf8Encode]
  rfl

theorem utf8_injective : Function.Injective utf8 := by
  intro a b h
  have hdecode := ofUtf8_utf8 a
  rw [h, ofUtf8_utf8] at hdecode
  exact (Option.some.inj hdecode).symm

/-! ## Newlines -/

/-- Universal newlines: `\r\n` and `\r` are read as `\n`. -/
def universalNewlines : Text → Text
  | [] => []
  | '\r' :: '\n' :: rest => '\n' :: universalNewlines rest
  | '\r' :: rest => '\n' :: universalNewlines rest
  | c :: rest => c :: universalNewlines rest

theorem universalNewlines_cons {c : Char} (h : c ≠ '\r') (rest : Text) :
    universalNewlines (c :: rest) = c :: universalNewlines rest := by
  rw [universalNewlines]
  · intro _ hc
    exact absurd hc h
  · exact h

theorem universalNewlines_append {a : Text} (h : '\r' ∉ a) (b : Text) :
    universalNewlines (a ++ b) = a ++ universalNewlines b := by
  induction a with
  | nil => rfl
  | cons c a ih =>
      obtain ⟨hc, ha⟩ := not_or.mp (mt List.mem_cons.mpr h)
      rw [List.cons_append, universalNewlines_cons (Ne.symm hc), ih ha]
      rfl

theorem universalNewlines_of_notMem {t : Text} (h : '\r' ∉ t) : universalNewlines t = t := by
  have happend := universalNewlines_append h []
  simpa [universalNewlines] using happend

/-! ## Sorting -/

/-- `list.sort()` of strings: by code points. -/
def sorted (ts : List Text) : List Text := ts.mergeSort fun a b => decide (a ≤ b)

theorem sorted_perm (ts : List Text) : (sorted ts).Perm ts := List.mergeSort_perm _ _

theorem mem_sorted {t : Text} {ts : List Text} : t ∈ sorted ts ↔ t ∈ ts :=
  (sorted_perm ts).mem_iff

theorem pairwise_sorted (ts : List Text) : (sorted ts).Pairwise (· ≤ ·) := by
  have hsorted : (sorted ts).Pairwise fun a b => decide (a ≤ b) = true := by
    apply List.pairwise_mergeSort
    · intro a b c hab hbc
      rw [decide_eq_true_eq] at hab hbc ⊢
      exact hab.trans hbc
    · intro a b
      rw [Bool.or_eq_true, decide_eq_true_eq, decide_eq_true_eq]
      exact le_total a b
  exact hsorted.imp of_decide_eq_true

/-- The order that the texts came in does not count. -/
theorem sorted_eq_of_perm {ts us : List Text} (h : ts.Perm us) : sorted ts = sorted us :=
  List.Perm.eq_of_pairwise (fun _ _ _ _ hab hba => le_antisymm hab hba) (pairwise_sorted ts)
    (pairwise_sorted us) ((sorted_perm ts).trans (h.trans (sorted_perm us).symm))

@[simp] theorem sorted_sorted (ts : List Text) : sorted (sorted ts) = sorted ts :=
  sorted_eq_of_perm (sorted_perm ts)

end Text

end GelCli.Foundation
