import GelCli.Foundation.Text
import Mathlib.Data.List.TakeWhile

/-!
# White space

What the text functions of the standard library trim.
-/

namespace GelCli.Foundation

/-- `char::is_whitespace`: the characters with the property `White_Space`. -/
def isWhitespace (c : Char) : Bool :=
  let n := c.toNat
  (9 ≤ n && n ≤ 13) || n == 0x20 || n == 0x85 || n == 0xA0 || n == 0x1680 ||
    (0x2000 ≤ n && n ≤ 0x200A) || n == 0x2028 || n == 0x2029 || n == 0x202F || n == 0x205F ||
    n == 0x3000

namespace Text

def trimStart (t : Text) : Text := t.dropWhile isWhitespace

def trimEnd (t : Text) : Text := (t.reverse.dropWhile isWhitespace).reverse

/-- `str::trim` -/
def trim (t : Text) : Text := trimEnd (trimStart t)

def leadingBlank (t : Text) : Text := t.takeWhile isWhitespace

theorem leadingBlank_append_trimStart (t : Text) : leadingBlank t ++ trimStart t = t :=
  List.takeWhile_append_dropWhile

theorem isWhitespace_of_mem_leadingBlank {t : Text} {c : Char} (h : c ∈ leadingBlank t) :
    isWhitespace c = true :=
  List.mem_takeWhile_imp h

theorem trimStart_append {blank : Text} (h : ∀ c ∈ blank, isWhitespace c = true) (t : Text) :
    trimStart (blank ++ t) = trimStart t := by
  induction blank with
  | nil => rfl
  | cons c blank ih =>
      rw [List.cons_append, trimStart, List.dropWhile_cons_of_pos (h c List.mem_cons_self)]
      exact ih fun d hd => h d (List.mem_cons_of_mem c hd)

theorem trimStart_of_head {c : Char} (hc : isWhitespace c = false) (t : Text) :
    trimStart (c :: t) = c :: t :=
  List.dropWhile_cons_of_neg (by rw [hc]; exact Bool.false_ne_true)

end Text

end GelCli.Foundation
