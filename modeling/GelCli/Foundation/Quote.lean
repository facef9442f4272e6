import GelCli.Foundation.Text

/-!
# Quoting in C style

A name with a byte that is not printable ASCII, or with a quote or a backslash, is
written in double quotes with escapes; other names stand as they are. The result is
printable and tells the name.
-/

namespace GelCli.Foundation.Quote

/-- The letters that stand for a byte behind a backslash. -/
def letters : List (UInt8 × Char) :=
  [(7, 'a'), (8, 'b'), (9, 't'), (10, 'n'), (11, 'v'), (12, 'f'), (13, 'r'), (34, '"'), (92, '\\')]

def octalDigit (n : ℕ) : Char := Nat.digitChar (n % 8)

def byte (b : UInt8) : Text :=
  match letters.lookup b with
  | some c => ['\\', c]
  | none =>
      if b < 0x20 ∨ 0x7f ≤ b then
        ['\\', octalDigit (b.toNat / 64), octalDigit (b.toNat / 8), octalDigit b.toNat]
      else [Char.ofNat b.toNat]

def special (c : Char) : Bool := c < ' ' || c == '"' || c == '\\' || '\x7f' ≤ c

/-- A name as it is printed. -/
def cStyle (name : Text) : Text :=
  if name.any special then '"' :: ((Text.utf8 name).flatMap byte ++ ['"']) else name

/-! ## Reading a quoted byte back -/

def unletter (c : Char) : Option UInt8 := (letters.find? fun p => p.2 = c).map Prod.fst

def readByte : Text → Option (UInt8 × Text)
  | '\\' :: c :: rest =>
      match unletter c with
      | some b => some (b, rest)
      | none =>
          match rest with
          | d :: e :: rest =>
              some (UInt8.ofNat (64 * (c.toNat - 48) + 8 * (d.toNat - 48) + (e.toNat - 48)), rest)
          | _ => none
  | c :: rest => some (UInt8.ofNat c.toNat, rest)
  | [] => none

/-- What a quoted byte is read as, in each of its shapes. -/
def readsBack (b : UInt8) : Bool :=
  match letters.lookup b with
  | some c => unletter c = some b
  | none =>
      if b < 0x20 ∨ 0x7f ≤ b then
        unletter (octalDigit (b.toNat / 64)) = none ∧
          UInt8.ofNat (64 * ((octalDigit (b.toNat / 64)).toNat - 48) +
            8 * ((octalDigit (b.toNat / 8)).toNat - 48) + ((octalDigit b.toNat).toNat - 48)) = b
      else Char.ofNat b.toNat ≠ '\\' ∧ UInt8.ofNat (Char.ofNat b.toNat).toNat = b

theorem readsBack_all (b : UInt8) : readsBack b := by
  have hall : ∀ n : Fin 256, readsBack (UInt8.ofFin n) := by decide +kernel
  exact hall b.toFin

theorem readByte_append (b : UInt8) (t : Text) : readByte (byte b ++ t) = some (b, t) := by
  have h := readsBack_all b
  unfold readsBack at h
  unfold byte
  cases hletter : letters.lookup b with
  | some c =>
      rw [hletter] at h
      have hread : unletter c = some b := of_decide_eq_true h
      simp only [List.cons_append, List.nil_append]
      cases t with
      | nil => simp [readByte, hread]
      | cons d t => cases t <;> simp [readByte, hread]
  | none =>
      rw [hletter] at h
      by_cases hrange : b < 0x20 ∨ 0x7f ≤ b
      · simp only [hrange, if_true, decide_eq_true_eq] at h ⊢
        simp only [List.cons_append, List.nil_append, readByte, h.1, h.2]
      · simp only [hrange, if_false, decide_eq_true_eq] at h ⊢
        rw [List.singleton_append, readByte, h.2]
        intro _ _ heq
        exact absurd heq h.1

theorem byte_append_inj {b b' : UInt8} {t t' : Text} (h : byte b ++ t = byte b' ++ t') :
    b = b' ∧ t = t' := by
  have hread := readByte_append b t
  rw [h, readByte_append] at hread
  cases hread
  exact ⟨rfl, rfl⟩

theorem flatMap_byte_inj {bytes bytes' : List UInt8}
    (h : bytes.flatMap byte = bytes'.flatMap byte) : bytes = bytes' := by
  induction bytes generalizing bytes' with
  | nil =>
      cases bytes' with
      | nil => rfl
      | cons b' rest =>
          have hread := readByte_append b' (rest.flatMap byte)
          rw [← List.flatMap_cons, ← h] at hread
          cases hread
  | cons b rest ih =>
      cases bytes' with
      | nil =>
          have hread := readByte_append b (rest.flatMap byte)
          rw [← List.flatMap_cons, h] at hread
          cases hread
      | cons b' rest' =>
          obtain ⟨rfl, hrest⟩ := byte_append_inj h
          rw [ih hrest]

/-! ## Quoted names -/

theorem cStyle_plain {name : Text} (h : name.any special = false) : cStyle name = name := by
  rw [cStyle, h]
  rfl

theorem quote_special : special '"' := by decide

/-- **A name is determined by how it is printed.** -/
theorem cStyle_injective : Function.Injective cStyle := by
  -- only a quoted name starts with a quote
  have hstart : ∀ {plain rest : Text}, ¬ plain.any special = true → plain ≠ '"' :: rest := by
    rintro plain rest hplain rfl
    exact hplain (by rw [List.any_cons, quote_special, Bool.true_or])
  intro a b h
  unfold cStyle at h
  split at h
  · split at h
    · obtain ⟨-, h⟩ := List.cons.inj h
      exact Text.utf8_injective (flatMap_byte_inj (List.append_cancel_right h))
    · next hb => exact absurd h.symm (hstart hb)
  · next ha =>
    split at h
    · exact absurd h (hstart ha)
    · exact h

theorem byte_printable {b : UInt8} {c : Char} (h : c ∈ byte b) : ' ' ≤ c ∧ c < '\x7f' := by
  have hall : ∀ n : Fin 256,
      (byte (UInt8.ofFin n)).all fun c => decide (' ' ≤ c ∧ c < '\x7f') := by
    decide +kernel
  exact of_decide_eq_true (List.all_eq_true.mp (hall b.toFin) c h)

/-- **What is printed is printable.** -/
theorem cStyle_printable {name : Text} {c : Char} (h : c ∈ cStyle name) :
    ' ' ≤ c ∧ c < '\x7f' := by
  unfold cStyle at h
  split at h
  · rcases List.mem_cons.mp h with rfl | h
    · decide
    · rcases List.mem_append.mp h with h | h
      · obtain ⟨b, -, hb⟩ := List.mem_flatMap.mp h
        exact byte_printable hb
      · rw [List.mem_singleton.mp h]
        decide
  · next hname =>
    have hplain : special c = false := by
      by_contra hc
      exact hname (List.any_eq_true.mpr ⟨c, h, by simpa using hc⟩)
    simp only [special, Bool.or_eq_false_iff, decide_eq_false_iff_not, not_lt, not_le] at hplain
    exact ⟨hplain.1.1.1, hplain.2⟩

theorem notMem_cStyle {name : Text} {c : Char} (hc : ¬ (' ' ≤ c ∧ c < '\x7f')) :
    c ∉ cStyle name :=
  fun h => hc (cStyle_printable h)

end GelCli.Foundation.Quote
