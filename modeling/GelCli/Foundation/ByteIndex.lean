import GelCli.Foundation.Text

/-!
# Byte positions in texts

Positions in a text that is kept in UTF-8 are counted in bytes. A text can be cut only
between two characters; a position inside a character is no place to cut at.
-/

namespace GelCli.Foundation.Text

def byteLen (t : Text) : Nat := (t.map Char.utf8Size).sum

/-- The parts before and after a byte position. -/
def splitAtByte : Text → Nat → Option (Text × Text)
  | t, 0 => some ([], t)
  | [], _ + 1 => none
  | c :: t, n + 1 =>
      if c.utf8Size ≤ n + 1 then
        (splitAtByte t (n + 1 - c.utf8Size)).map fun p => (c :: p.1, p.2)
      else none

/-- `&t[start..stop]`. -/
def slice (t : Text) (start stop : Nat) : Option Text := do
  let (_, rest) ← splitAtByte t start
  if start ≤ stop then
    let (part, _) ← splitAtByte rest (stop - start)
    return part
  else none

@[simp] theorem byteLen_nil : byteLen [] = 0 := rfl

@[simp] theorem byteLen_cons (c : Char) (t : Text) :
    byteLen (c :: t) = c.utf8Size + byteLen t := by
  rw [byteLen, List.map_cons, List.sum_cons]
  rfl

@[simp] theorem byteLen_append (t u : Text) : byteLen (t ++ u) = byteLen t + byteLen u := by
  rw [byteLen, List.map_append, List.sum_append]
  rfl

theorem utf8Size_eq_one {c : Char} : c.utf8Size = 1 ↔ c.toNat < 0x80 := by
  rw [Char.utf8Size_eq_one_iff, UInt32.le_iff_toNat_le]
  exact Nat.lt_succ_iff.symm

theorem length_le_byteLen (t : Text) : t.length ≤ byteLen t := by
  induction t with
  | nil => exact Nat.le_refl 0
  | cons c t ih =>
      have hc := c.utf8Size_pos
      rw [byteLen_cons, List.length_cons]
      omega

theorem utf8_eq_flatMap (t : Text) : utf8 t = t.flatMap String.utf8EncodeChar := by
  have hencode : (String.ofList t).toByteArray = t.utf8Encode := String.toByteArray_ofList
  rw [utf8, hencode, List.utf8Encode, List.data_toByteArray, List.toList_toArray]

theorem utf8_append (t u : Text) : utf8 (t ++ u) = utf8 t ++ utf8 u := by
  rw [utf8_eq_flatMap, utf8_eq_flatMap, utf8_eq_flatMap, List.flatMap_append]

@[simp] theorem length_utf8 (t : Text) : (utf8 t).length = byteLen t := by
  rw [utf8_eq_flatMap]
  induction t with
  | nil => rfl
  | cons c t ih =>
      rw [List.flatMap_cons, List.length_append, ih, byteLen_cons, String.length_utf8EncodeChar]

/-- **Where a text can be cut.** -/
theorem splitAtByte_eq_some {t a b : Text} {n : Nat} :
    splitAtByte t n = some (a, b) ↔ t = a ++ b ∧ byteLen a = n := by
  induction t generalizing n a with
  | nil =>
      cases n with
      | zero => cases a <;> simp [splitAtByte, eq_comm]
      | succ n =>
          refine iff_of_false (fun h => by cases h) ?_
          rintro ⟨hnil, hlen⟩
          rw [(List.nil_eq_append_iff.mp hnil).1] at hlen
          cases hlen
  | cons c t ih =>
      have hc := c.utf8Size_pos
      cases n with
      | zero =>
          cases a with
          | nil => simp [splitAtByte, eq_comm]
          | cons d a =>
              have hd := d.utf8Size_pos
              refine iff_of_false (by simp [splitAtByte]) ?_
              rintro ⟨-, hlen⟩
              rw [byteLen_cons] at hlen
              omega
      | succ n =>
          unfold splitAtByte
          cases a with
          | nil =>
              refine iff_of_false ?_ (by simp)
              split <;> simp
          | cons d a =>
              rw [List.cons_append, List.cons.injEq, byteLen_cons]
              split
              · next hle =>
                simp only [Option.map_eq_some_iff, Prod.mk.injEq, List.cons.injEq, Prod.exists]
                constructor
                · rintro ⟨a', b', hsplit, ⟨rfl, rfl⟩, rfl⟩
                  obtain ⟨ht, hlen⟩ := ih.mp hsplit
                  exact ⟨⟨rfl, ht⟩, by omega⟩
                · rintro ⟨⟨rfl, ht⟩, hlen⟩
                  exact ⟨a, b, ih.mpr ⟨ht, by omega⟩, ⟨rfl, rfl⟩, rfl⟩
              · next hlt =>
                refine iff_of_false (fun h => by cases h) ?_
                rintro ⟨⟨rfl, -⟩, hlen⟩
                omega

theorem splitAtByte_append (a b : Text) : splitAtByte (a ++ b) (byteLen a) = some (a, b) :=
  splitAtByte_eq_some.mpr ⟨rfl, rfl⟩

theorem slice_eq_some {t u : Text} {start stop : Nat} :
    slice t start stop = some u ↔
      ∃ a b, t = a ++ u ++ b ∧ byteLen a = start ∧ start + byteLen u = stop := by
  unfold slice
  simp only [Option.bind_eq_bind, Option.bind_eq_some_iff, Prod.exists]
  constructor
  · rintro ⟨a, rest, hstart, h⟩
    obtain ⟨rfl, ha⟩ := splitAtByte_eq_some.mp hstart
    split at h
    · next hle =>
      obtain ⟨⟨u', b⟩, hstop, hu⟩ := Option.bind_eq_some_iff.mp h
      obtain rfl : u' = u := Option.some.inj hu
      obtain ⟨rfl, hlen⟩ := splitAtByte_eq_some.mp hstop
      exact ⟨a, b, by rw [List.append_assoc], ha, by omega⟩
    · cases h
  · rintro ⟨a, b, rfl, rfl, rfl⟩
    refine ⟨a, u ++ b, by rw [List.append_assoc, splitAtByte_append], ?_⟩
    rw [if_pos (Nat.le_add_right _ _), Nat.add_sub_cancel_left, splitAtByte_append]
    rfl

end GelCli.Foundation.Text
