import Mathlib.Data.List.Basic
import Mathlib.Tactic.GCongr
import Mathlib.Tactic.Positivity
import ScopedFn.Proofs.Numeric.Interval

/-!
# The shortest digits read back

The digits of a number are looked for on decimal grids that get finer. A step of the grid of
seventeen digits is narrower than what rounds to a number, so one of the two neighbours of the
number on that grid rounds to it.

* `Binary64.Digits.value` : what digits denote; taking factors of ten off keeps it;
* `Binary64.onGrid?_cases` : a neighbour is taken if it rounds to the number;
* `Binary64.exists_onGrid?` : seventeen digits suffice;
* `Binary64.roundsTo_shortest` : the digits that are found round to the number.
-/

set_option autoImplicit false

namespace ScopedFn.Binary64

variable {x : Binary64}

/-! ### Digits -/

/-- The number that digits denote. -/
def Digits.value (d : Digits) : ℚ := d.digits * 10 ^ d.power

theorem value_trim (fuel : ℕ) (d : Digits) : (Digits.trim fuel d).value = d.value := by
  induction fuel generalizing d with
  | zero => rfl
  | succ fuel ih =>
    rw [Digits.trim]
    split_ifs with h
    · rw [ih, Digits.value, Digits.value, zpow_add₀ (by norm_num), zpow_one]
      have hdigits : ((d.digits / 10 : ℕ) : ℚ) * 10 = d.digits := by
        exact_mod_cast Nat.div_mul_cancel (Nat.dvd_of_mod_eq_zero h.2)
      rw [← hdigits]
      ring
    · rfl

theorem lt_pow_digitCount (n : ℕ) : n < 10 ^ digitCount n :=
  (Nat.length_toDigits_le_iff (by norm_num) Nat.length_toDigits_pos).1 le_rfl

theorem pow_digitCount_le {n : ℕ} (hn : 0 < n) : 10 ^ (digitCount n - 1) ≤ n := by
  by_contra! hlt
  rcases Nat.eq_zero_or_pos (digitCount n - 1) with hone | hmore
  · rw [hone] at hlt
    omega
  · have hle := (Nat.length_toDigits_le_iff (by norm_num) hmore).2 hlt
    have hpos : 0 < digitCount n := Nat.length_toDigits_pos
    change digitCount n ≤ _ at hle
    omega

/-- A quotient reaches the power of ten below its decade. -/
theorem pow_decade_le {num den : ℕ} (hnum : 0 < num) (hden : 0 < den) :
    (10 : ℚ) ^ (decade num den - 1) ≤ num / den := by
  have hden' : (0 : ℚ) < den := by exact_mod_cast hden
  rw [le_div_iff₀ hden']
  unfold decade
  split_ifs with hle
  · -- the leading digit stands before the point
    have hquotient : 0 < num / den := Nat.div_pos hle hden
    have hpow := pow_digitCount_le hquotient
    have hcount : (1 : ℕ) ≤ digitCount (num / den) := Nat.length_toDigits_pos
    have hmul : 10 ^ (digitCount (num / den) - 1) * den ≤ num :=
      (Nat.mul_le_mul_right den hpow).trans (Nat.div_mul_le_self num den)
    rw [show ((digitCount (num / den) : ℤ) - 1) = ((digitCount (num / den) - 1 : ℕ) : ℤ) by omega,
      zpow_natCast]
    exact_mod_cast hmul
  · -- the leading digit stands behind the point
    have hquotient : 0 < den / num := Nat.div_pos (by omega) hnum
    have hcount : (1 : ℕ) ≤ digitCount (den / num) := Nat.length_toDigits_pos
    have hlt : den < num * 10 ^ digitCount (den / num) := by
      have := lt_pow_digitCount (den / num)
      exact (Nat.div_lt_iff_lt_mul hnum).1 this |>.trans_eq (Nat.mul_comm _ _)
    have hshift (k : ℕ) (h : den ≤ num * 10 ^ k) : (10 : ℚ) ^ (-(k : ℤ)) * den ≤ num := by
      rw [zpow_neg, zpow_natCast, inv_mul_le_iff₀ (by positivity), mul_comm]
      exact_mod_cast h
    dsimp only
    rw [Nat.pow_eq]
    split_ifs with hle'
    · rw [show 2 - (digitCount (den / num) : ℤ) - 1 = -((digitCount (den / num) - 1 : ℕ) : ℤ) by
        omega]
      exact hshift _ hle'
    · rw [show 1 - (digitCount (den / num) : ℤ) - 1 = -(digitCount (den / num) : ℤ) by omega]
      exact hshift _ hlt.le

/-! ### Grids -/

/-- The numerator of a power of ten. -/
def gridNum (power : ℤ) : ℕ := if 0 ≤ power then 10 ^ power.toNat else 1

/-- The denominator of a power of ten. -/
def gridDen (power : ℤ) : ℕ := if 0 ≤ power then 1 else 10 ^ (-power).toNat

theorem gridNum_div_gridDen (power : ℤ) : (gridNum power : ℚ) / gridDen power = 10 ^ power := by
  unfold gridNum gridDen
  split_ifs with h
  · rw [Nat.cast_one, div_one, Nat.cast_pow, ← zpow_natCast, Int.toNat_of_nonneg h]
    rfl
  · rw [Nat.cast_one, Nat.cast_pow, ← zpow_natCast, Int.toNat_of_nonneg (by omega), zpow_neg,
      one_div, inv_inv]
    rfl

theorem gridDen_pos (power : ℤ) : 0 < gridDen power := by
  unfold gridDen
  split_ifs <;> positivity

/-- The number of steps of the grid below the middle of an interval. -/
def gridFloor (i : Interval) (power : ℤ) : ℕ :=
  i.middle * gridDen power / (i.den * gridNum power)

/-- One of the two neighbours is taken if it reads back. -/
theorem onGrid?_cases (i : Interval) (top : ℤ) (count : ℕ) :
    let n := gridFloor i (top - count)
    let reads (n : ℕ) := i.contains (n * gridNum (top - count)) (gridDen (top - count))
    onGrid? i top count = some ⟨n, top - count⟩ ∧ reads n = true ∨
      onGrid? i top count = some ⟨n + 1, top - count⟩ ∧ reads (n + 1) = true ∨
      onGrid? i top count = none ∧ reads n = false ∧ reads (n + 1) = false := by
  intro n reads
  have heq : onGrid? i top count =
      let rest := i.middle * gridDen (top - count) % (i.den * gridNum (top - count))
      let preferUpper := 2 * rest > i.den * gridNum (top - count) ||
        (2 * rest == i.den * gridNum (top - count) && n % 2 == 1)
      if reads n && (!reads (n + 1) || !preferUpper) then some ⟨n, top - count⟩
      else if reads (n + 1) then some ⟨n + 1, top - count⟩
      else none := rfl
  rw [heq]
  cases reads n <;> cases reads (n + 1) <;> simp
  grind

theorem value_grid (n : ℕ) (power : ℤ) :
    ((n * gridNum power : ℕ) : ℚ) / gridDen power = Digits.value ⟨n, power⟩ := by
  rw [Nat.cast_mul, mul_div_assoc, gridNum_div_gridDen, Digits.value]

/-- What is taken from a grid rounds to the number. -/
theorem roundsTo_of_onGrid? {top : ℤ} {count : ℕ} {d : Digits}
    (h : onGrid? x.interval top count = some d) : RoundsTo d.value x := by
  obtain ⟨heq, hreads⟩ | ⟨heq, hreads⟩ | ⟨heq, -⟩ := onGrid?_cases x.interval top count
  · rw [contains_iff (gridDen_pos _), value_grid] at hreads
    rwa [Option.some.inj (h.symm.trans heq)]
  · rw [contains_iff (gridDen_pos _), value_grid] at hreads
    rwa [Option.some.inj (h.symm.trans heq)]
  · exact absurd (h.symm.trans heq) (Option.some_ne_none d)

theorem gridNum_pos (power : ℤ) : 0 < gridNum power := by
  unfold gridNum
  split_ifs <;> positivity

/-- The middle of an interval lies between its neighbours on a grid. -/
theorem gridFloor_le {i : Interval} (hden : 0 < i.den) (power : ℤ) :
    (gridFloor i power : ℚ) * 10 ^ power ≤ i.middle / i.den ∧
      (i.middle / i.den : ℚ) < (gridFloor i power + 1 : ℕ) * 10 ^ power := by
  have hgridNum := gridNum_pos power
  have hstep : (0 : ℚ) < gridDen power := by exact_mod_cast gridDen_pos power
  have hden' : (0 : ℚ) < i.den := by exact_mod_cast hden
  rw [← gridNum_div_gridDen, ← mul_div_assoc, ← mul_div_assoc, div_le_div_iff₀ hstep hden',
    div_lt_div_iff₀ hden' hstep]
  constructor
  · have hfloor : gridFloor i power * (i.den * gridNum power) ≤ i.middle * gridDen power :=
      Nat.div_mul_le_self _ _
    exact_mod_cast (show gridFloor i power * gridNum power * i.den = _ by ring).trans_le hfloor
  · have hceil : i.middle * gridDen power < i.den * gridNum power * (gridFloor i power + 1) :=
      Nat.lt_mul_div_succ _ (Nat.mul_pos hden hgridNum)
    exact_mod_cast hceil.trans_eq (by ring)

/-- What rounds to a number is a wide part of it. -/
theorem lt_width (x : Binary64) :
    4 * x.significand < 10 ^ 16 * (4 * x.significand + 2 - (4 * x.significand - x.reach)) := by
  have hm := significand_lt x
  unfold reach
  split_ifs <;> omega

/-- The grid of seventeen digits is finer than what rounds to one number. -/
theorem exists_onGrid? (hzero : x.significand ≠ 0) :
    ∃ d, onGrid? x.interval (decade x.interval.middle x.interval.den) 17 = some d := by
  have hquarter := quarter_pos x
  have hden : (0 : ℚ) < x.interval.den := by exact_mod_cast den_pos x
  have hvalue : (x.interval.middle : ℚ) / x.interval.den = (4 * x.significand : ℕ) * x.quarter := by
    rw [(interval_bounds x).2.1, mul_div_assoc, div_self hden.ne', mul_one]
  have hmiddle : 0 < x.interval.middle := by
    have hpos : (0 : ℚ) < (4 * x.significand : ℕ) * x.quarter :=
      mul_pos (by exact_mod_cast (by omega)) hquarter
    rw [← hvalue, div_pos_iff_of_pos_right hden] at hpos
    exact_mod_cast hpos
  have hdecade := pow_decade_le hmiddle (den_pos x)
  generalize decade x.interval.middle x.interval.den = top at hdecade ⊢
  obtain ⟨heq, -⟩ | ⟨heq, -⟩ | ⟨-, hlower, hupper⟩ := onGrid?_cases x.interval top 17
  · exact ⟨_, heq⟩
  · exact ⟨_, heq⟩
  exfalso
  -- neither neighbour rounds to the number, so a step of the grid is as wide as the interval
  obtain ⟨hfloor, hceil⟩ := gridFloor_le (den_pos x) (top - (17 : ℕ))
  rw [hvalue] at hfloor hceil hdecade
  have hmissed (n : ℕ) (h : x.interval.contains (n * gridNum (top - (17 : ℕ)))
      (gridDen (top - (17 : ℕ))) = false) : ¬RoundsTo (Digits.value ⟨n, top - (17 : ℕ)⟩) x := by
    rw [← value_grid, ← contains_iff (gridDen_pos _), h]
    exact Bool.false_ne_true
  set n := gridFloor x.interval (top - (17 : ℕ))
  set step : ℚ := 10 ^ (top - (17 : ℕ)) with hstep
  have hbounds : ((4 * x.significand - x.reach : ℕ) : ℚ) < (4 * x.significand : ℕ) ∧
      ((4 * x.significand : ℕ) : ℚ) < (4 * x.significand + 2 : ℕ) := by
    have hreach : 0 < x.reach := by
      unfold reach
      split_ifs <;> omega
    constructor <;> exact_mod_cast (by omega)
  have hlow : (n : ℚ) * step ≤ (4 * x.significand - x.reach : ℕ) * x.quarter := by
    by_contra! hlt
    exact hmissed n hlower
      (roundsTo_of_between hlt (hfloor.trans_lt (mul_lt_mul_of_pos_right hbounds.2 hquarter)))
  have hhigh : (4 * x.significand + 2 : ℕ) * x.quarter ≤ (n + 1 : ℕ) * step := by
    by_contra! hlt
    exact hmissed (n + 1) hupper
      (roundsTo_of_between ((mul_lt_mul_of_pos_right hbounds.1 hquarter).trans hceil) hlt)
  have hfine : step * 10 ^ 16 ≤ (4 * x.significand : ℕ) * x.quarter := by
    refine le_of_eq_of_le ?_ hdecade
    rw [hstep, ← zpow_natCast, ← zpow_add₀ (by norm_num)]
    congr 1
    push_cast
    ring
  have hwidth : ((4 * x.significand : ℕ) : ℚ) * x.quarter < 10 ^ 16 *
      (((4 * x.significand + 2 : ℕ) - (4 * x.significand - x.reach : ℕ)) * x.quarter) := by
    rw [← mul_assoc]
    refine mul_lt_mul_of_pos_right ?_ hquarter
    rw [← Nat.cast_sub (by omega)]
    exact_mod_cast lt_width x
  rw [Nat.cast_succ n, add_one_mul] at hhigh
  rw [sub_mul] at hwidth
  linarith

/-- **The shortest digits of a number round to it.** -/
theorem roundsTo_shortest (hzero : x.significand ≠ 0) : RoundsTo x.shortest.value x := by
  obtain ⟨d, hd⟩ := exists_onGrid? hzero
  unfold shortest
  dsimp only
  rw [value_trim]
  cases hfound : ((List.range 17).map (· + 1)).findSome?
      (onGrid? x.interval (decade x.interval.middle x.interval.den)) with
  | none =>
    have hnone := List.findSome?_eq_none_iff.1 hfound 17 (by simp)
    exact absurd (hd.symm.trans hnone) (Option.some_ne_none d)
  | some d =>
    obtain ⟨count, -, hcount⟩ := List.exists_of_findSome?_eq_some hfound
    exact roundsTo_of_onGrid? hcount

end ScopedFn.Binary64
