import Mathlib.Algebra.Order.Field.Basic
import Mathlib.Data.Rat.Cast.Order
import Mathlib.Tactic.FieldSimp
import Mathlib.Tactic.Linarith
import Mathlib.Tactic.Ring
import ScopedFn.Numeric.Shortest

/-!
# Rounding intervals

The rational numbers that round to a double-precision number, measured in quarters of the distance
to the next greater number.

* `Binary64.ext_fields` : a number is its sign, its exponent field and its fraction;
* `Binary64.RoundsTo` : a rational number is rounded to the magnitude of a number;
* `Binary64.contains_iff` : the exact test says whether a quotient does so;
* `Binary64.order_eq_of_roundsTo` : nothing rounds to two magnitudes.
-/

set_option autoImplicit false

namespace ScopedFn.Binary64

variable {x y : Binary64} {q : ℚ}

/-! ### The parts of the bits -/

theorem exponentField_eq (x : Binary64) : x.exponentField = x.bits.toNat / 2 ^ 52 % 2 ^ 11 := by
  rw [exponentField, UInt64.toNat_and, UInt64.toNat_shiftRight]
  exact (Nat.and_two_pow_sub_one_eq_mod _ 11).trans (by rw [Nat.shiftRight_eq_div_pow]; rfl)

theorem fraction_eq (x : Binary64) : x.fraction = x.bits.toNat % 2 ^ 52 := by
  rw [fraction, UInt64.toNat_and]
  exact Nat.and_two_pow_sub_one_eq_mod _ 52

theorem negative_iff (x : Binary64) : x.negative = true ↔ 2 ^ 63 ≤ x.bits.toNat := by
  have hlt := x.bits.toNat_lt
  rw [negative, beq_iff_eq, ← UInt64.toNat_inj, UInt64.toNat_shiftRight, Nat.shiftRight_eq_div_pow]
  change x.bits.toNat / 2 ^ 63 = 1 ↔ _
  omega

/-- A number is its sign, its exponent field and its fraction. -/
theorem ext_fields (hsign : x.negative = y.negative) (hexponent : x.exponentField = y.exponentField)
    (hfraction : x.fraction = y.fraction) : x = y := by
  have hx := x.bits.toNat_lt
  have hy := y.bits.toNat_lt
  have hsign' := (negative_iff x).symm.trans ((Bool.eq_iff_iff.1 hsign).trans (negative_iff y))
  rw [exponentField_eq, exponentField_eq] at hexponent
  rw [fraction_eq, fraction_eq] at hfraction
  have hbits : x.bits = y.bits := UInt64.toNat_inj.1 (by omega)
  cases x
  cases y
  exact congrArg mk hbits

theorem fraction_lt (x : Binary64) : x.fraction < 2 ^ 52 := by
  rw [fraction_eq]
  exact Nat.mod_lt _ (by norm_num)

theorem significand_lt (x : Binary64) : x.significand < 2 ^ 53 := by
  have hx := fraction_lt x
  unfold significand
  simp only [Nat.pow_eq]
  split_ifs <;> omega

/-- The bits of the magnitude as one number. -/
def order (x : Binary64) : ℕ := x.exponentField * 2 ^ 52 + x.fraction

theorem eq_of_order (hsign : x.negative = y.negative) (horder : x.order = y.order) : x = y := by
  have hx := fraction_lt x
  have hy := fraction_lt y
  unfold order at horder
  exact ext_fields hsign (by omega) (by omega)

/-! ### What rounds to a number -/

/-- A quarter of the distance to the next greater number. -/
def quarter (x : Binary64) : ℚ := 2 ^ (x.exponent - 2)

theorem quarter_pos (x : Binary64) : 0 < x.quarter := zpow_pos (by norm_num) _

/-- How many quarters below a number still round to it; above a power of two the distance is
twice that below it. -/
def reach (x : Binary64) : ℕ := if x.significand = 2 ^ 52 ∧ 1 < x.exponentField then 1 else 2

/-- The rational number is rounded to the magnitude of the number. The ends are, if the significand
is even. -/
def RoundsTo (q : ℚ) (x : Binary64) : Prop :=
  if x.significand % 2 = 0 then
    (4 * x.significand - x.reach : ℕ) * x.quarter ≤ q ∧ q ≤ (4 * x.significand + 2 : ℕ) * x.quarter
  else
    (4 * x.significand - x.reach : ℕ) * x.quarter < q ∧ q < (4 * x.significand + 2 : ℕ) * x.quarter

theorem roundsTo_of_between (hlow : (4 * x.significand - x.reach : ℕ) * x.quarter < q)
    (hhigh : q < (4 * x.significand + 2 : ℕ) * x.quarter) : RoundsTo q x := by
  unfold RoundsTo
  split_ifs
  · exact ⟨hlow.le, hhigh.le⟩
  · exact ⟨hlow, hhigh⟩

theorem pos_of_roundsTo (hzero : x.significand ≠ 0) (h : RoundsTo q x) : 0 < q := by
  have hreach : x.reach ≤ 2 := by
    unfold reach
    split_ifs <;> omega
  have hpos : (0 : ℚ) < (4 * x.significand - x.reach : ℕ) * x.quarter :=
    mul_pos (by exact_mod_cast (by omega)) (quarter_pos x)
  unfold RoundsTo at h
  split_ifs at h
  · exact hpos.trans_le h.1
  · exact hpos.trans h.1

theorem den_pos (x : Binary64) : 0 < x.interval.den := by
  unfold interval
  dsimp only
  split_ifs <;> simp [Nat.pow_eq]

/-- The ends and the middle of the interval, over its denominator. -/
theorem interval_bounds (x : Binary64) :
    (x.interval.low : ℚ) = (4 * x.significand - x.reach : ℕ) * x.quarter * x.interval.den ∧
      (x.interval.middle : ℚ) = (4 * x.significand : ℕ) * x.quarter * x.interval.den ∧
      (x.interval.high : ℚ) = (4 * x.significand + 2 : ℕ) * x.quarter * x.interval.den := by
  have hscale : ((if 0 ≤ x.exponent - 2 then Nat.pow 2 (x.exponent - 2).toNat else 1 : ℕ) : ℚ) =
      x.quarter * x.interval.den := by
    unfold quarter interval
    dsimp only
    split_ifs with h
    · rw [Nat.pow_eq, Nat.cast_one, mul_one, Nat.cast_pow, ← zpow_natCast, Int.toNat_of_nonneg h]
      rfl
    · rw [Nat.pow_eq, Nat.cast_one, Nat.cast_pow, ← zpow_natCast, Int.toNat_of_nonneg (by omega),
        Nat.cast_ofNat, ← zpow_add₀ (by norm_num)]
      simp
  refine ⟨?_, ?_, ?_⟩
  all_goals
    rw [mul_assoc, ← hscale]
    exact Nat.cast_mul _ _

/-- The exact test says which quotients round to a number. -/
theorem contains_iff {num den : ℕ} (hden : 0 < den) :
    x.interval.contains num den = true ↔ RoundsTo (num / den) x := by
  obtain ⟨hlow, -, hhigh⟩ := interval_bounds x
  have hd : (0 : ℚ) < den := by exact_mod_cast hden
  have hd' : (0 : ℚ) < x.interval.den := by exact_mod_cast den_pos x
  -- both sides are compared over the product of the denominators
  have hcompare (a : ℕ) (p : ℚ) (ha : (a : ℚ) = p * x.interval.den) :
      (a * den ≤ num * x.interval.den ↔ p ≤ num / den) ∧
        (a * den < num * x.interval.den ↔ p < num / den) ∧
        (num * x.interval.den ≤ a * den ↔ num / den ≤ p) ∧
        (num * x.interval.den < a * den ↔ num / den < p) := by
    have hright : ((num * x.interval.den : ℕ) : ℚ) = num / den * (den * x.interval.den) := by
      push_cast
      field_simp
    have hleft : ((a * den : ℕ) : ℚ) = p * (den * x.interval.den) := by
      push_cast
      rw [ha]
      ring
    have hpos : (0 : ℚ) < den * x.interval.den := mul_pos hd hd'
    have hle (m n : ℕ) : m ≤ n ↔ (m : ℚ) ≤ n := Nat.cast_le.symm
    have hlt (m n : ℕ) : m < n ↔ (m : ℚ) < n := Nat.cast_lt.symm
    refine ⟨?_, ?_, ?_, ?_⟩
    · rw [hle, hleft, hright, mul_le_mul_iff_left₀ hpos]
    · rw [hlt, hleft, hright, mul_lt_mul_iff_left₀ hpos]
    · rw [hle, hleft, hright, mul_le_mul_iff_left₀ hpos]
    · rw [hlt, hleft, hright, mul_lt_mul_iff_left₀ hpos]
  have hclosed : x.interval.closed = (x.significand % 2 == 0) := rfl
  obtain ⟨hl, hl', -, -⟩ := hcompare _ _ hlow
  obtain ⟨-, -, hh, hh'⟩ := hcompare _ _ hhigh
  unfold Interval.contains RoundsTo
  rw [hclosed]
  by_cases heven : x.significand % 2 = 0
  · simp [heven, hl, hh]
  · simp [heven, hl', hh']

/-! ### Intervals do not overlap -/

/-- The numbers that round to a number end where those of a greater one begin, or before that; where
they meet, one of the significands is odd. -/
theorem ends_before (h : x.order < y.order) : ∃ k : ℕ, y.exponent = x.exponent + k ∧
    (4 * x.significand + 2 < (4 * y.significand - y.reach) * 2 ^ k ∨
      4 * x.significand + 2 = (4 * y.significand - y.reach) * 2 ^ k ∧
        ¬(x.significand % 2 = 0 ∧ y.significand % 2 = 0)) := by
  have hx := fraction_lt x
  have hy := fraction_lt y
  have hfields : x.exponentField ≤ y.exponentField := by
    unfold order at h
    omega
  refine ⟨max y.exponentField 1 - max x.exponentField 1, ?_, ?_⟩
  · unfold exponent
    omega
  generalize hk : max y.exponentField 1 - max x.exponentField 1 = k
  unfold order at h
  cases k with
  | zero =>
    -- one scale: the greater significand is greater by one at least
    have hlt : x.significand < y.significand := by
      unfold significand
      simp only [Nat.pow_eq]
      split_ifs <;> omega
    have hreach : y.reach = 2 := by
      unfold reach
      rw [if_neg]
      rintro ⟨hm, hf⟩
      unfold significand at hlt hm
      simp only [Nat.pow_eq] at hlt hm
      split_ifs at hlt hm <;> omega
    rw [hreach, pow_zero, mul_one]
    omega
  | succ k =>
    -- the scales differ: the greater number has its hidden bit
    have hm := significand_lt x
    have hm' : 2 ^ 52 ≤ y.significand := by
      unfold significand
      simp only [Nat.pow_eq]
      split_ifs <;> omega
    have hreach : y.reach = 1 ∧ y.significand = 2 ^ 52 ∨ y.reach = 2 ∧ 2 ^ 52 < y.significand := by
      unfold reach
      split_ifs <;> omega
    have hpow : (4 * y.significand - y.reach) * 2 ≤ (4 * y.significand - y.reach) * 2 ^ (k + 1) :=
      Nat.mul_le_mul_left _ (by rw [pow_succ]; have := Nat.one_le_two_pow (n := k); omega)
    omega

theorem not_roundsTo_both (h : x.order < y.order) (hx : RoundsTo q x) : ¬RoundsTo q y := by
  obtain ⟨k, hexponent, hends⟩ := ends_before h
  have hquarter : y.quarter = 2 ^ k * x.quarter := by
    unfold quarter
    rw [hexponent, ← zpow_natCast, ← zpow_add₀ (by norm_num)]
    congr 1
    ring
  have hlow : ((4 * y.significand - y.reach : ℕ) : ℚ) * y.quarter =
      ((4 * y.significand - y.reach) * 2 ^ k : ℕ) * x.quarter := by
    rw [hquarter]
    push_cast
    ring
  intro hy
  unfold RoundsTo at hx hy
  rw [hlow] at hy
  rcases hends with hlt | ⟨heq, hodd⟩
  · have hgap : ((4 * x.significand + 2 : ℕ) : ℚ) * x.quarter <
        ((4 * y.significand - y.reach) * 2 ^ k : ℕ) * x.quarter :=
      mul_lt_mul_of_pos_right (by exact_mod_cast hlt) (quarter_pos x)
    split_ifs at hx hy <;> linarith [hx.2, hy.1]
  · rw [← heq] at hy
    split_ifs at hx hy with hxe hye
    · exact hodd ⟨hxe, hye⟩
    all_goals linarith [hx.2, hy.1]

/-- **Nothing rounds to two magnitudes.** -/
theorem order_eq_of_roundsTo (hx : RoundsTo q x) (hy : RoundsTo q y) : x.order = y.order := by
  rcases Nat.lt_trichotomy x.order y.order with h | h | h
  · exact absurd hy (not_roundsTo_both h hx)
  · exact h
  · exact absurd hx (not_roundsTo_both h hy)

end ScopedFn.Binary64
