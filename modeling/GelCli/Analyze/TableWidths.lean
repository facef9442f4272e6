import GelCli.Foundation.Binary64
import Mathlib.Data.List.Forall2

/-!
# Column widths of the analyze table

How `render` of `src/analyze/table.rs` divides the terminal among the columns of a table.
A column has the minimum and the preferred width of its widest cells; what the minimums
leave is shared out by the sums of the preferred widths, and the rest of that goes to the
columns in rounds.
-/

namespace GelCli.Analyze.Table

open GelCli.Foundation

/-- `Contents::width_bounds` of a cell. -/
structure Bounds where
  min : Nat
  preferred : Nat
  le : min ≤ preferred

/-- A row that ends before the column. -/
def Bounds.absent : Bounds := ⟨0, 0, Nat.le_refl 0⟩

structure Column where
  min : Nat
  max : Nat
  sum : Nat
  deriving DecidableEq

def Column.add (col : Column) (cell : Bounds) : Column :=
  ⟨Nat.max col.min cell.min, Nat.max col.max cell.preferred, col.sum + cell.preferred⟩

def columnOf (table : List (List Bounds)) (c : Nat) : Column :=
  (table.map fun row => row[c]?.getD .absent).foldl Column.add ⟨0, 0, 0⟩

def cols (table : List (List Bounds)) : Nat := ((table.map List.length).max?).getD 1

/-- `width_bounds` of the columns. -/
def columns (table : List (List Bounds)) : List Column :=
  (List.range (cols table)).map (columnOf table)

def terminalWidth (terminal : Option UInt16) : Nat := (terminal.map UInt16.toNat).getD 200

/-- Subtraction of unsigned numbers; `none` is the underflow. -/
def checkedSub (a b : Nat) : Option Nat := if b ≤ a then some (a - b) else none

def product (toDivide csum : Nat) : ℚ :=
  Binary64.mul (Binary64.ofNat toDivide) (Binary64.ofNat csum)

/-- `(to_divide as f64 * csum as f64 / sum as f64) as usize` -/
def share (toDivide csum sum : Nat) : Nat :=
  Binary64.toNat (Binary64.div (product toDivide csum) (Binary64.ofNat sum))

/-- A column's first width; `none` is the division by zero. -/
def sharedWidth (toDivide sum : Nat) (col : Column) : Option Nat :=
  if sum = 0 then none else some (col.min + share toDivide col.sum sum)

/-- `max_by_key` over `enumerate()`: the last of the greatest. -/
def widest (mins : List Nat) : Option (Nat × Nat) :=
  match mins.zipIdx with
  | [] => none
  | (m, i) :: rest =>
      some (rest.foldl (fun best x => if best.2 ≤ x.1 then (x.2, x.1) else best) (i, m))

/-- One round over the columns, which are given with their preferred widths. -/
def round : Nat → List (Nat × Nat) → Nat × List (Nat × Nat)
  | rem, [] => (rem, [])
  | 0, widths => (0, widths)
  | rem + 1, (w, max) :: widths =>
      if w < max then ((round rem widths).1, (w + 1, max) :: (round rem widths).2)
      else ((round (rem + 1) widths).1, (w, max) :: (round (rem + 1) widths).2)

/-- The loop over `(0..cols).cycle()`, in at most `fuel` rounds. -/
def distribute : Nat → Nat → List (Nat × Nat) → Option (List Nat)
  | 0, _, _ => none
  | fuel + 1, rem, widths =>
      if rem = 0 then some (widths.map Prod.fst)
      else distribute fuel (round rem widths).1 (round rem widths).2

/-- The widths where the minimums leave something and the preferred widths do not fit. -/
def dividedWidths (fuel width minWidth borders : Nat) (columns : List Column) :
    Option (List Nat) := do
  let toDivide ← checkedSub width minWidth
  let widths ← columns.mapM (sharedWidth toDivide (columns.map Column.sum).sum)
  let rem ← (checkedSub width widths.sum).bind (checkedSub · borders)
  distribute fuel rem (widths.zip (columns.map Column.max))

/-- The widths where the minimums do not fit: the widest column is cut, if that is enough. -/
def cutWidths (width minWidth : Nat) (columns : List Column) : Option (List Nat) := do
  let (maxI, maxCol) ← widest (columns.map Column.min)
  let others ← checkedSub minWidth maxCol
  if others < width then
    let cut ← checkedSub width others
    return (columns.map Column.min).set maxI cut
  else return columns.map Column.min

def layout (fuel : Nat) (table : List (List Bounds)) (width : Nat) : Option (List Nat) := do
  let borders ← checkedSub (cols table) 1
  let minWidth := ((columns table).map Column.min).sum + borders
  let maxWidth := ((columns table).map Column.max).sum + borders
  if maxWidth ≤ width then return (columns table).map Column.max
  else if width ≤ minWidth then cutWidths width minWidth (columns table)
  else dividedWidths fuel width minWidth borders (columns table)

/-! ## Columns -/

theorem Column.add_le {col : Column} (hle : col.min ≤ col.max) (hsum : col.max ≤ col.sum)
    (cell : Bounds) : (col.add cell).min ≤ (col.add cell).max ∧
      (col.add cell).max ≤ (col.add cell).sum := by
  have hcell := cell.le
  constructor
  · exact max_le_max hle hcell
  · exact max_le (by simp only [Column.add]; omega) (by simp only [Column.add]; omega)

theorem foldl_add_le (cells : List Bounds) {col : Column} (hle : col.min ≤ col.max)
    (hsum : col.max ≤ col.sum) :
    (cells.foldl Column.add col).min ≤ (cells.foldl Column.add col).max ∧
      (cells.foldl Column.add col).max ≤ (cells.foldl Column.add col).sum := by
  induction cells generalizing col with
  | nil => exact ⟨hle, hsum⟩
  | cons cell cells ih =>
      obtain ⟨hle, hsum⟩ := Column.add_le hle hsum cell
      exact ih hle hsum

/-- The minimum of a column is at most its preferred width, and that at most its sum. -/
theorem columns_le (table : List (List Bounds)) :
    ∀ col ∈ columns table, col.min ≤ col.max ∧ col.max ≤ col.sum := by
  intro col hcol
  obtain ⟨c, -, rfl⟩ := List.mem_map.mp hcol
  exact foldl_add_le _ (Nat.le_refl 0) (Nat.le_refl 0)

theorem length_columns (table : List (List Bounds)) : (columns table).length = cols table := by
  rw [columns, List.length_map, List.length_range]

theorem terminalWidth_lt (terminal : Option UInt16) : terminalWidth terminal < 2 ^ 16 := by
  cases terminal with
  | none => decide
  | some w => exact UInt16.toNat_lt w

/-! ## Shares -/

theorem share_le {toDivide csum sum : Nat} (h : 0 < sum) :
    (share toDivide csum sum : ℚ) ≤ toDivide / sum * (1 + 1 / 2 ^ 16) * csum := by
  have hsum : (0 : ℚ) < sum := by exact_mod_cast h
  have hdivide : (0 : ℚ) ≤ toDivide := Nat.cast_nonneg _
  have hcsum : (0 : ℚ) ≤ csum := Nat.cast_nonneg _
  have hfirst : Binary64.ofNat toDivide ≤ toDivide * (1 + 1 / 2 ^ 53) :=
    Binary64.round_le hdivide
  have hsecond : Binary64.ofNat csum ≤ csum * (1 + 1 / 2 ^ 53) := Binary64.round_le hcsum
  have hthird : sum * (1 - 1 / 2 ^ 53) ≤ Binary64.ofNat sum := Binary64.le_round hsum.le
  have hfirst0 : 0 ≤ Binary64.ofNat toDivide := Binary64.round_nonneg hdivide
  have hsecond0 : 0 ≤ Binary64.ofNat csum := Binary64.round_nonneg hcsum
  have hthird0 : (0 : ℚ) < sum * (1 - 1 / 2 ^ 53) := by positivity
  have hproduct0 := mul_nonneg hfirst0 hsecond0
  have hmul0 : 0 ≤ product toDivide csum := Binary64.round_nonneg hproduct0
  have hmul : product toDivide csum ≤
      toDivide * csum * (1 + 1 / 2 ^ 53) ^ 3 :=
    calc product toDivide csum
        ≤ Binary64.ofNat toDivide * Binary64.ofNat csum * (1 + 1 / 2 ^ 53) :=
          Binary64.round_le hproduct0
      _ ≤ toDivide * (1 + 1 / 2 ^ 53) * (csum * (1 + 1 / 2 ^ 53)) * (1 + 1 / 2 ^ 53) := by
          gcongr
      _ = toDivide * csum * (1 + 1 / 2 ^ 53) ^ 3 := by ring
  have hquotient0 := div_nonneg hmul0 (hthird0.le.trans hthird)
  calc (share toDivide csum sum : ℚ)
      ≤ Binary64.div (product toDivide csum) (Binary64.ofNat sum) :=
        Binary64.cast_toNat_le (Binary64.round_nonneg hquotient0)
    _ ≤ product toDivide csum / Binary64.ofNat sum * (1 + 1 / 2 ^ 53) :=
        Binary64.round_le hquotient0
    _ ≤ toDivide * csum * (1 + 1 / 2 ^ 53) ^ 3 / (sum * (1 - 1 / 2 ^ 53)) *
          (1 + 1 / 2 ^ 53) := by gcongr
    _ = toDivide / sum * ((1 + 1 / 2 ^ 53) ^ 4 / (1 - 1 / 2 ^ 53)) * csum := by
        field_simp
    _ ≤ toDivide / sum * (1 + 1 / 2 ^ 16) * csum := by
        gcongr
        norm_num

theorem sum_le_mul {f : Column → ℕ} {t : ℚ} (h : ∀ col, (f col : ℚ) ≤ t * col.sum)
    (columns : List Column) :
    (((columns.map f).sum : ℕ) : ℚ) ≤ t * ((columns.map Column.sum).sum : ℕ) := by
  induction columns with
  | nil => simp
  | cons col columns ih =>
      have hcol := h col
      simp only [List.map_cons, List.sum_cons, Nat.cast_add, mul_add]
      exact add_le_add hcol ih

/-- The shares of all columns together are no more than what is to be divided: rounding
adds less than one to that. -/
theorem sum_share_le {toDivide : Nat} (h : toDivide < 2 ^ 16) {columns : List Column}
    (hsum : 0 < (columns.map Column.sum).sum) :
    (columns.map fun col => share toDivide col.sum (columns.map Column.sum).sum).sum ≤
      toDivide := by
  have htotal : (0 : ℚ) < (columns.map Column.sum).sum := by exact_mod_cast hsum
  have hdivide : (toDivide : ℚ) < 2 ^ 16 := by exact_mod_cast h
  have hshares := sum_le_mul (fun col => @share_le toDivide col.sum _ hsum) columns
  rw [mul_right_comm, div_mul_cancel₀ _ htotal.ne'] at hshares
  apply Nat.lt_succ_iff.mp
  have hlt : (((columns.map fun col =>
      share toDivide col.sum (columns.map Column.sum).sum).sum : ℕ) : ℚ) < toDivide + 1 := by
    linarith
  exact_mod_cast hlt

theorem mapM_sharedWidth {toDivide sum : Nat} (h : 0 < sum) (columns : List Column) :
    columns.mapM (sharedWidth toDivide sum) =
      some (columns.map fun col => col.min + share toDivide col.sum sum) := by
  have hshared : sharedWidth toDivide sum =
      fun col => some (col.min + share toDivide col.sum sum) := by
    funext col
    rw [sharedWidth, if_neg h.ne']
  rw [hshared]
  induction columns with
  | nil => rfl
  | cons col columns ih =>
      rw [List.mapM_cons, ih]
      rfl

/-! ## Rounds -/

/-- What the columns lack to their preferred widths. -/
def room (widths : List (Nat × Nat)) : Nat := (widths.map fun x => x.2 - x.1).sum

/-- What one round makes of the rest and of the columns. -/
structure Spreads (rem : Nat) (widths : List (Nat × Nat)) (rem' : Nat)
    (widths' : List (Nat × Nat)) : Prop where
  grown : List.Forall₂ (fun x y => x.1 ≤ y.1) widths widths'
  total : (widths'.map Prod.fst).sum + rem' = (widths.map Prod.fst).sum + rem
  rooms : room widths' + rem = room widths + rem'
  progress : 0 < rem → 0 < room widths → rem' < rem

theorem round_zero (widths : List (Nat × Nat)) : round 0 widths = (0, widths) := by
  cases widths <;> rfl

theorem round_le (rem : Nat) (widths : List (Nat × Nat)) : (round rem widths).1 ≤ rem := by
  induction widths generalizing rem with
  | nil => cases rem <;> exact Nat.le_refl _
  | cons x widths ih =>
      cases rem with
      | zero => exact Nat.le_refl 0
      | succ rem =>
          rw [round]
          split
          · exact Nat.le_succ_of_le (ih rem)
          · exact ih (rem + 1)

theorem spreads_refl (rem : Nat) (widths : List (Nat × Nat))
    (h : 0 < rem → ¬ 0 < room widths) : Spreads rem widths rem widths :=
  ⟨List.forall₂_refl widths, rfl, rfl, fun hrem hroom => absurd hroom (h hrem)⟩

theorem spreads_round (rem : Nat) (widths : List (Nat × Nat)) :
    Spreads rem widths (round rem widths).1 (round rem widths).2 := by
  induction widths generalizing rem with
  | nil => cases rem <;> exact spreads_refl _ [] fun _ => Nat.lt_irrefl 0
  | cons x widths ih =>
      obtain ⟨w, max⟩ := x
      cases rem with
      | zero => exact spreads_refl 0 _ fun h => absurd h (Nat.lt_irrefl 0)
      | succ rem =>
          rw [round]
          split
          · next hlt =>
            obtain ⟨hgrown, htotal, hroom, -⟩ := ih rem
            have hle := round_le rem widths
            refine ⟨.cons (Nat.le_succ w) hgrown, ?_, ?_, ?_⟩
            · simp only [List.map_cons, List.sum_cons]
              omega
            · simp only [room, List.map_cons, List.sum_cons] at hroom ⊢
              omega
            · rintro - -
              exact Nat.lt_succ_of_le hle
          · next hnot =>
            obtain ⟨hgrown, htotal, hroom, hprogress⟩ := ih (rem + 1)
            refine ⟨.cons (Nat.le_refl w) hgrown, ?_, ?_, ?_⟩
            · simp only [List.map_cons, List.sum_cons]
              omega
            · simp only [room, List.map_cons, List.sum_cons] at hroom ⊢
              omega
            · intro hrem hpos
              apply hprogress hrem
              simp only [room, List.map_cons, List.sum_cons] at hpos ⊢
              omega

theorem forall₂_le_trans {a b c : List Nat} (hab : List.Forall₂ (· ≤ ·) a b)
    (hbc : List.Forall₂ (· ≤ ·) b c) : List.Forall₂ (· ≤ ·) a c := by
  induction hab generalizing c with
  | nil => exact hbc
  | cons hle _ ih =>
      cases hbc with
      | cons hle' hbc => exact .cons (Nat.le_trans hle hle') (ih hbc)

/-- **The rounds end.** By induction on the rest: each round gives some of it to a column
that has room left. -/
theorem distribute_spec {rem : Nat} {widths : List (Nat × Nat)} (hroom : rem ≤ room widths) :
    ∃ result, (∀ fuel, rem < fuel → distribute fuel rem widths = some result) ∧
      result.sum = (widths.map Prod.fst).sum + rem ∧
      List.Forall₂ (· ≤ ·) (widths.map Prod.fst) result := by
  induction rem using Nat.strong_induction_on generalizing widths with
  | _ rem ih =>
      by_cases hrem : rem = 0
      · refine ⟨widths.map Prod.fst, ?_, by omega, List.forall₂_refl _⟩
        intro fuel hfuel
        obtain ⟨fuel, rfl⟩ := Nat.exists_eq_succ_of_ne_zero (Nat.ne_zero_of_lt hfuel)
        rw [distribute, if_pos hrem]
      · obtain ⟨hgrown, htotal, hrooms, hprogress⟩ := spreads_round rem widths
        have hless := hprogress (Nat.pos_of_ne_zero hrem) (by omega)
        obtain ⟨result, hresult, hsum, hle⟩ :=
          @ih (round rem widths).1 hless (round rem widths).2 (by omega)
        refine ⟨result, ?_, by omega, ?_⟩
        · intro fuel hfuel
          obtain ⟨fuel, rfl⟩ := Nat.exists_eq_succ_of_ne_zero (Nat.ne_zero_of_lt hfuel)
          rw [distribute, if_neg hrem]
          exact hresult fuel (by omega)
        · have hfst : List.Forall₂ (· ≤ ·) (widths.map Prod.fst)
              ((round rem widths).2.map Prod.fst) := by
            rw [List.forall₂_map_left_iff, List.forall₂_map_right_iff]
            exact hgrown
          exact forall₂_le_trans hfst hle

/-! ## The widest column -/

theorem foldl_widest (rest : List (Nat × Nat)) (i m : Nat) :
    ∃ i' m', rest.foldl (fun best x => if best.2 ≤ x.1 then (x.2, x.1) else best) (i, m) =
        (i', m') ∧ (m', i') ∈ (m, i) :: rest ∧ ∀ x ∈ (m, i) :: rest, x.1 ≤ m' := by
  induction rest generalizing i m with
  | nil =>
      refine ⟨i, m, rfl, List.mem_singleton_self _, ?_⟩
      intro x hx
      rw [List.mem_singleton.mp hx]
  | cons y rest ih =>
      rw [List.foldl_cons]
      split
      · next hle =>
        obtain ⟨i', m', hfold, hmem, hmax⟩ := ih y.2 y.1
        refine ⟨i', m', hfold, List.mem_cons_of_mem _ hmem, ?_⟩
        intro x hx
        rcases List.mem_cons.mp hx with rfl | hx
        · exact Nat.le_trans hle (hmax y List.mem_cons_self)
        · exact hmax x hx
      · next hlt =>
        obtain ⟨i', m', hfold, hmem, hmax⟩ := ih i m
        refine ⟨i', m', hfold, ?_, ?_⟩
        · rcases List.mem_cons.mp hmem with heq | hmem
          · rw [heq]
            exact List.mem_cons_self
          · exact List.mem_cons_of_mem _ (List.mem_cons_of_mem _ hmem)
        · intro x hx
          have hfirst := hmax (m, i) List.mem_cons_self
          rcases List.mem_cons.mp hx with rfl | hx
          · exact hfirst
          · rcases List.mem_cons.mp hx with rfl | hx
            · exact Nat.le_trans (Nat.le_of_not_le hlt) hfirst
            · exact hmax x (List.mem_cons_of_mem _ hx)

theorem exists_widest {mins : List Nat} (h : mins ≠ []) :
    ∃ i m, widest mins = some (i, m) ∧ mins[i]? = some m ∧ ∀ x ∈ mins, x ≤ m := by
  cases mins with
  | nil => exact absurd rfl h
  | cons m mins =>
      obtain ⟨i', m', hfold, hmem, hmax⟩ := foldl_widest (mins.zipIdx 1) 0 m
      refine ⟨i', m', ?_, ?_, ?_⟩
      · rw [widest, List.zipIdx_cons]
        exact congrArg some hfold
      · have hindexed : (m', i') ∈ (m :: mins).zipIdx := hmem
        exact List.mem_zipIdx_iff_getElem?.mp hindexed
      · intro x hx
        obtain ⟨i, hi⟩ := List.mem_iff_getElem?.mp hx
        have hindexed : (x, i) ∈ (m :: mins).zipIdx := List.mem_zipIdx_iff_getElem?.mpr hi
        exact hmax (x, i) hindexed

theorem sum_set {l : List Nat} {i m : Nat} (h : l[i]? = some m) (x : Nat) :
    (l.set i x).sum + m = l.sum + x := by
  induction l generalizing i with
  | nil => cases h
  | cons a l ih =>
      cases i with
      | zero =>
          obtain rfl := Option.some.inj h
          simp only [List.set_cons_zero, List.sum_cons]
          omega
      | succ i =>
          have hset := ih h
          simp only [List.set_cons_succ, List.sum_cons]
          omega

theorem set_self {l : List Nat} {i m : Nat} (h : l[i]? = some m) : l.set i m = l := by
  induction l generalizing i with
  | nil => cases h
  | cons a l ih =>
      cases i with
      | zero =>
          obtain rfl := Option.some.inj h
          rfl
      | succ i => exact congrArg (a :: ·) (ih h)

/-! ## The layout -/

def borders (table : List (List Bounds)) : Nat := cols table - 1

def minWidth (table : List (List Bounds)) : Nat :=
  ((columns table).map Column.min).sum + borders table

def maxWidth (table : List (List Bounds)) : Nat :=
  ((columns table).map Column.max).sum + borders table

theorem checkedSub_eq {a b : Nat} (h : b ≤ a) : checkedSub a b = some (a - b) := if_pos h

theorem layout_eq {table : List (List Bounds)} (h : 0 < cols table) (fuel width : Nat) :
    layout fuel table width =
      if maxWidth table ≤ width then some ((columns table).map Column.max)
      else if width ≤ minWidth table then cutWidths width (minWidth table) (columns table)
      else dividedWidths fuel width (minWidth table) (borders table) (columns table) := by
  rw [layout, checkedSub_eq h]
  rfl

/-- What is left over for the widest column, if the others get their minimums. -/
theorem cutWidths_eq {width minWidth : Nat} {columns : List Column} {i m : Nat}
    (hwidest : widest (columns.map Column.min) = some (i, m)) (hm : m ≤ minWidth) :
    cutWidths width minWidth columns =
      some (if minWidth - m < width then
        (columns.map Column.min).set i (width - (minWidth - m)) else columns.map Column.min) := by
  rw [cutWidths, hwidest]
  simp only [checkedSub_eq hm, Option.bind_eq_bind, Option.bind_some]
  split
  · next hlt =>
    rw [checkedSub_eq hlt.le]
    rfl
  · rfl

theorem sub_le_room (widths maxs : List Nat) (h : widths.length = maxs.length) :
    maxs.sum ≤ room (widths.zip maxs) + widths.sum := by
  induction widths generalizing maxs with
  | nil =>
      obtain rfl := List.length_eq_zero_iff.mp h.symm
      exact Nat.le_refl 0
  | cons w widths ih =>
      cases maxs with
      | nil => cases h
      | cons m maxs =>
          have hle := ih maxs (Nat.succ.inj h)
          simp only [room, List.zip_cons_cons, List.map_cons, List.sum_cons] at hle ⊢
          omega

theorem sum_max_le_sum {columns : List Column}
    (h : ∀ col ∈ columns, col.min ≤ col.max ∧ col.max ≤ col.sum) :
    (columns.map Column.max).sum ≤ (columns.map Column.sum).sum :=
  List.sum_le_sum fun col hcol => (h col hcol).2

theorem forall₂_min {f : Column → Nat} {columns : List Column}
    (h : ∀ col ∈ columns, col.min ≤ f col) :
    List.Forall₂ (fun col w => col.min ≤ w) columns (columns.map f) := by
  induction columns with
  | nil => exact .nil
  | cons col columns ih =>
      exact .cons (h col List.mem_cons_self) (ih fun c hc => h c (List.mem_cons_of_mem _ hc))

theorem forall₂_min_trans {columns : List Column} {a b : List Nat}
    (hab : List.Forall₂ (fun col w => col.min ≤ w) columns a)
    (hb : List.Forall₂ (· ≤ ·) a b) :
    List.Forall₂ (fun col w => col.min ≤ w) columns b := by
  induction hab generalizing b with
  | nil =>
      cases hb
      exact .nil
  | cons hle _ ih =>
      cases hb with
      | cons hle' hb => exact .cons (Nat.le_trans hle hle') (ih hb)

/-- Between the minimums and the preferred widths the columns fill the terminal. -/
theorem dividedWidths_spec {width minWidth borders : Nat} {columns : List Column}
    (hcolumns : ∀ col ∈ columns, col.min ≤ col.max ∧ col.max ≤ col.sum)
    (hmin : minWidth = (columns.map Column.min).sum + borders) (hlt : minWidth < width)
    (hmax : width < (columns.map Column.max).sum + borders) (hwidth : width < 2 ^ 16) :
    ∃ widths, (∀ fuel, width < fuel →
        dividedWidths fuel width minWidth borders columns = some widths) ∧
      List.Forall₂ (fun col w => col.min ≤ w) columns widths ∧
      widths.sum + borders = width := by
  have hpositive : 0 < (columns.map Column.sum).sum := by
    have hle := sum_max_le_sum hcolumns
    omega
  have hshares := @sum_share_le (width - minWidth) (by omega) columns hpositive
  let total := (columns.map Column.sum).sum
  let first := columns.map fun col => col.min + share (width - minWidth) col.sum total
  have hfirst : first.sum = (columns.map Column.min).sum +
      (columns.map fun col => share (width - minWidth) col.sum total).sum := List.sum_map_add
  have hlength : first.length = (columns.map Column.max).length := by
    rw [List.length_map, List.length_map]
  have hroom := sub_le_room first (columns.map Column.max) hlength
  have hfst : (first.zip (columns.map Column.max)).map Prod.fst = first :=
    List.map_fst_zip (le_of_eq hlength)
  have hfits : (columns.map fun col => share (width - minWidth) col.sum total).sum ≤
      width - minWidth := hshares
  obtain ⟨widths, hwidths, hsum, hgrown⟩ := @distribute_spec (width - first.sum - borders)
    (first.zip (columns.map Column.max)) (by omega)
  rw [hfst] at hsum hgrown
  refine ⟨widths, ?_, ?_, by omega⟩
  · intro fuel hfuel
    rw [dividedWidths, checkedSub_eq hlt.le]
    simp only [Option.bind_eq_bind, Option.bind_some, mapM_sharedWidth hpositive]
    rw [show checkedSub width (columns.map fun col => col.min +
        share (width - minWidth) col.sum (columns.map Column.sum).sum).sum =
        some (width - first.sum) from checkedSub_eq (by change first.sum ≤ width; omega)]
    simp only [Option.bind_some]
    rw [checkedSub_eq (show borders ≤ width - first.sum by omega)]
    exact hwidths fuel (by omega)
  · exact forall₂_min_trans (forall₂_min fun col _ => Nat.le_add_right _ _) hgrown

/-- The widths that a table gets in a terminal, however many rounds are allowed beyond the
ones needed. Where `guard` holds, each column has its minimum. -/
structure LaysOut (guard : Prop) (table : List (List Bounds)) (width : Nat)
    (widths : List Nat) : Prop where
  ends : ∀ fuel, width < fuel → layout fuel table width = some widths
  minimum : guard → List.Forall₂ (fun col w => col.min ≤ w) (columns table) widths
  exact : minWidth table ≤ width → width ≤ maxWidth table → widths.sum + borders table = width

/-- In a terminal that is too narrow for the minimums only the widest of them is cut, by
what is missing, and only if something of it is left. -/
def CutsWidest (table : List (List Bounds)) (width : Nat) (widths : List Nat) : Prop :=
  ∃ i m, ((columns table).map Column.min)[i]? = some m ∧
    (∀ x ∈ (columns table).map Column.min, x ≤ m) ∧
    widths = if minWidth table - m < width then
      ((columns table).map Column.min).set i (m - (minWidth table - width))
    else (columns table).map Column.min

theorem laysOut_preferred {table : List (List Bounds)} {width : Nat} (hcols : 0 < cols table)
    (hfits : maxWidth table ≤ width) :
    LaysOut True table width ((columns table).map Column.max) := by
  constructor
  · intro fuel _
    rw [layout_eq hcols, if_pos hfits]
  · intro _
    exact forall₂_min fun col hcol => (columns_le table col hcol).1
  · intro _ hle
    exact Nat.le_antisymm hfits hle

theorem laysOut_cut {table : List (List Bounds)} {width : Nat} (hcols : 0 < cols table)
    (hmax : ¬ maxWidth table ≤ width) (hmin : width ≤ minWidth table) :
    ∃ widths, LaysOut (minWidth table ≤ width) table width widths ∧
      CutsWidest table width widths := by
  have hne : (columns table).map Column.min ≠ [] := by
    apply List.ne_nil_of_length_pos
    rw [List.length_map, length_columns]
    exact hcols
  obtain ⟨i, m, hwidest, hm, hgreatest⟩ := exists_widest hne
  have hle : m ≤ minWidth table := by
    have hmem := List.le_sum_of_mem (List.mem_of_getElem? hm)
    rw [minWidth]
    omega
  have hset := sum_set hm (m - (minWidth table - width))
  have hcut : (if minWidth table - m < width then
      ((columns table).map Column.min).set i (width - (minWidth table - m))
      else (columns table).map Column.min) =
      if minWidth table - m < width then
        ((columns table).map Column.min).set i (m - (minWidth table - width))
      else (columns table).map Column.min := by
    split
    · next hlt =>
      rw [show width - (minWidth table - m) = m - (minWidth table - width) by omega]
    · rfl
  have hmins : minWidth table ≤ width → (if minWidth table - m < width then
      ((columns table).map Column.min).set i (m - (minWidth table - width))
      else (columns table).map Column.min) = (columns table).map Column.min := by
    intro hguard
    rw [Nat.sub_eq_zero_of_le hguard, Nat.sub_zero, set_self hm, ite_self]
  refine ⟨_, ⟨?_, ?_, ?_⟩, i, m, hm, hgreatest, rfl⟩
  · intro fuel _
    rw [layout_eq hcols, if_neg hmax, if_pos hmin, cutWidths_eq hwidest hle, hcut]
  · intro hguard
    rw [hmins hguard]
    exact forall₂_min fun col _ => Nat.le_refl _
  · intro hguard _
    rw [hmins hguard]
    exact Nat.le_antisymm hguard hmin

/-- **The layout of a table.** The distribution ends without an underflow or a division by
zero, fills the terminal wherever that is possible, and takes no column below its minimum
unless all of them together are wider than the terminal. -/
theorem laysOut_table (table : List (List Bounds)) (terminal : Option UInt16) :
    0 < cols table →
      ∃ widths, LaysOut (minWidth table ≤ terminalWidth terminal) table
          (terminalWidth terminal) widths ∧
        (terminalWidth terminal < minWidth table → terminalWidth terminal < maxWidth table →
          CutsWidest table (terminalWidth terminal) widths) := by
  intro hcols
  have hwidth := terminalWidth_lt terminal
  generalize terminalWidth terminal = width at hwidth ⊢
  by_cases hmax : maxWidth table ≤ width
  · obtain ⟨hends, hminimum, hexact⟩ := laysOut_preferred hcols hmax
    exact ⟨_, ⟨hends, fun _ => hminimum trivial, hexact⟩, fun _ hlt => absurd hmax hlt.not_ge⟩
  · by_cases hmin : width ≤ minWidth table
    · obtain ⟨widths, hlays, hcuts⟩ := laysOut_cut hcols hmax hmin
      exact ⟨widths, hlays, fun _ _ => hcuts⟩
    · have hlt := Nat.lt_of_not_le hmin
      obtain ⟨widths, hdivided, hminimum, hexact⟩ := dividedWidths_spec (columns_le table) rfl hlt
        (Nat.lt_of_not_le hmax) hwidth
      refine ⟨widths, ⟨?_, fun _ => hminimum, fun _ _ => hexact⟩,
        fun hnarrow => absurd hnarrow hlt.asymm⟩
      intro fuel hfuel
      rw [layout_eq hcols, if_neg hmax, if_neg hmin]
      exact hdivided fuel hfuel

def twoColumns : List (List Bounds) :=
  [[⟨2, 5, by decide⟩, ⟨1, 4, by decide⟩], [⟨1, 1, by decide⟩]]

theorem laysOut_twoColumns :
    0 < cols twoColumns ∧
      ∃ widths, LaysOut (minWidth twoColumns ≤ terminalWidth (some 7)) twoColumns
          (terminalWidth (some 7)) widths ∧
        (terminalWidth (some 7) < minWidth twoColumns →
          terminalWidth (some 7) < maxWidth twoColumns →
          CutsWidest twoColumns (terminalWidth (some 7)) widths) :=
  ⟨Nat.two_pos, laysOut_table twoColumns (some 7) Nat.two_pos⟩

/-- One cell of five columns in a terminal of three. -/
theorem not_laysOut_narrow :
    ¬ ∀ (table : List (List Bounds)) (terminal : Option UInt16), 0 < cols table →
      ∃ widths, LaysOut True table (terminalWidth terminal) widths := by
  intro h
  obtain ⟨widths, hends, hminimum, -⟩ := h [[⟨5, 5, Nat.le_refl 5⟩]] (some 3) Nat.one_pos
  have hwidths := hends 4 (Nat.lt_succ_self 3)
  have hlayout : layout 4 [[⟨5, 5, Nat.le_refl 5⟩]] (terminalWidth (some 3)) = some [3] := rfl
  rw [hlayout] at hwidths
  obtain rfl := Option.some.inj hwidths
  have hle : List.Forall₂ (fun (col : Column) w => col.min ≤ w) [⟨5, 5, 5⟩] [3] :=
    hminimum trivial
  cases hle with
  | cons hle _ => exact absurd hle (by decide)

end GelCli.Analyze.Table
