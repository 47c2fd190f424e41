import ScopedFn.Proofs.Numeric.Interval

/-!
# The number that is denoted

Two double-precision numbers are compared as the numbers that they denote, and so is one with an
integer. A finite number has one form only, but for the sign of zero; that is why comparison by bits
is comparison by value.

* `Binary64.number?` : the rational number, or the infinity, that is denoted;
* `Binary64.eq_iff`, `Binary64.eqInt_iff` : comparisons are comparisons of what is denoted.
-/

set_option autoImplicit false

namespace ScopedFn.Binary64

variable {x y : Binary64} {n : ℤ}

/-- The rational number that is denoted, or the sign of the infinity. -/
def number? (x : Binary64) : Option (ℚ ⊕ Bool) :=
  if x.isNaN then none
  else if x.isInfinite then some (.inr x.negative)
  else some (.inl (x.signedSignificand * 2 ^ x.exponent))

theorem number?_of_finite (h : x.exponentField ≠ 2047) :
    x.number? = some (.inl (x.signedSignificand * 2 ^ x.exponent)) := by
  simp [number?, isNaN, isInfinite, h]

/-- What denotes a number is finite, or an infinity. -/
theorem number?_cases {d : ℚ ⊕ Bool} (h : x.number? = some d) :
    x.exponentField ≠ 2047 ∧ d = .inl (x.signedSignificand * 2 ^ x.exponent) ∨
      x.exponentField = 2047 ∧ x.fraction = 0 ∧ d = .inr x.negative := by
  by_cases hfield : x.exponentField = 2047
  · by_cases hfraction : x.fraction = 0
    · simp only [number?, isNaN, isInfinite, hfield, hfraction, beq_self_eq_true, bne_self_eq_false,
        Bool.and_false, Bool.false_eq_true, ↓reduceIte, Bool.and_self, Option.some.injEq] at h
      exact .inr ⟨hfield, hfraction, h.symm⟩
    · simp [number?, isNaN, hfield, hfraction] at h
  · rw [number?_of_finite hfield, Option.some.injEq] at h
    exact .inl ⟨hfield, h.symm⟩

theorem isNaN_of_number? {d : ℚ ⊕ Bool} (h : x.number? = some d) : x.isNaN = false := by
  by_contra hnan
  simp [number?, hnan] at h

theorem isZero_iff : x.isZero = true ↔ x.significand = 0 := by
  rw [isZero, significand, Bool.and_eq_true, beq_iff_eq, beq_iff_eq]
  by_cases hfield : x.exponentField = 0
  · rw [if_pos hfield]
    exact and_iff_right hfield
  · rw [if_neg hfield]
    exact iff_of_false (fun h => hfield h.1)
      (Nat.ne_of_gt (Nat.add_pos_right _ (Nat.two_pow_pos 52)))

theorem exponentField_of_isZero (h : x.isZero = true) : x.exponentField ≠ 2047 := by
  unfold isZero at h
  rw [Bool.and_eq_true, beq_iff_eq] at h
  omega

theorem signedSignificand_eq_zero : x.signedSignificand = 0 ↔ x.significand = 0 := by
  unfold signedSignificand
  split_ifs <;> omega

/-- The magnitude of a number rounds to it. -/
theorem roundsTo_self (x : Binary64) : RoundsTo (x.significand * 2 ^ x.exponent) x := by
  have hreach : (4 * x.significand - x.reach : ℕ) ≤ 4 * x.significand := Nat.sub_le _ _
  have hmagnitude : (x.significand * 2 ^ x.exponent : ℚ) = (4 * x.significand : ℕ) * x.quarter := by
    rw [quarter, zpow_sub₀ (by norm_num)]
    push_cast
    ring
  have hlow : ((4 * x.significand - x.reach : ℕ) : ℚ) * x.quarter ≤ (4 * x.significand : ℕ) * x.quarter :=
    mul_le_mul_of_nonneg_right (by exact_mod_cast hreach) x.quarter_pos.le
  have hhigh : ((4 * x.significand : ℕ) : ℚ) * x.quarter < (4 * x.significand + 2 : ℕ) * x.quarter :=
    mul_lt_mul_of_pos_right (by exact_mod_cast Nat.lt_add_of_pos_right (by decide)) x.quarter_pos
  unfold RoundsTo
  rw [hmagnitude]
  split_ifs with heven
  · exact ⟨hlow, hhigh.le⟩
  · -- an odd significand is not zero, so something lies between
    refine ⟨mul_lt_mul_of_pos_right ?_ x.quarter_pos, hhigh⟩
    have hpos : 0 < x.reach := by
      unfold reach
      split_ifs <;> decide
    exact_mod_cast Nat.sub_lt (by omega) hpos

/-- A finite number other than zero has one form. -/
theorem eq_of_value (hx : x.significand ≠ 0)
    (h : (x.signedSignificand * 2 ^ x.exponent : ℚ) = y.signedSignificand * 2 ^ y.exponent) : x = y := by
  have hx' : (0 : ℚ) < x.significand * 2 ^ x.exponent :=
    mul_pos (by exact_mod_cast Nat.pos_of_ne_zero hx) (zpow_pos (by norm_num) _)
  have hy' : (0 : ℚ) ≤ y.significand * 2 ^ y.exponent :=
    mul_nonneg (Nat.cast_nonneg _) (zpow_pos (by norm_num) _).le
  have hmagnitude : x.negative = y.negative ∧
      (x.significand * 2 ^ x.exponent : ℚ) = y.significand * 2 ^ y.exponent := by
    unfold signedSignificand at h
    cases hsx : x.negative <;> cases hsy : y.negative <;>
      simp only [hsx, hsy, Bool.false_eq_true, ↓reduceIte, Int.cast_neg, Int.cast_natCast, neg_mul,
        neg_inj] at h
    · exact ⟨rfl, h⟩
    · linarith
    · linarith
    · exact ⟨rfl, h⟩
  obtain ⟨hsign, hvalue⟩ := hmagnitude
  exact eq_of_order hsign (order_eq_of_roundsTo (roundsTo_self x) (hvalue ▸ roundsTo_self y))

theorem number?_of_isZero (h : x.isZero = true) : x.number? = some (.inl 0) := by
  rw [number?_of_finite (exponentField_of_isZero h), signedSignificand_eq_zero.2 (isZero_iff.1 h)]
  simp

/-- **Numbers are equal iff they denote the same**, unless they denote nothing. -/
theorem eq_iff : x.eq y = true ↔ ∃ d, x.number? = some d ∧ y.number? = some d := by
  simp only [eq, Bool.and_eq_true, Bool.or_eq_true, Bool.not_eq_true', beq_iff_eq]
  constructor
  · rintro ⟨⟨hx, -⟩, hbits | ⟨hzero, hzero'⟩⟩
    · have heq : x = y := by
        cases x
        exact congrArg mk hbits
      subst heq
      refine ⟨if x.isInfinite then .inr x.negative else .inl (x.signedSignificand * 2 ^ x.exponent), ?_⟩
      rw [and_self, number?, if_neg (by simp [hx])]
      split_ifs <;> rfl
    · exact ⟨.inl 0, number?_of_isZero hzero, number?_of_isZero hzero'⟩
  · rintro ⟨d, hx, hy⟩
    refine ⟨⟨isNaN_of_number? hx, isNaN_of_number? hy⟩, ?_⟩
    rcases number?_cases hx with ⟨hfield, rfl⟩ | ⟨hfield, hfraction, rfl⟩
    · rcases number?_cases hy with ⟨hfield', hd⟩ | ⟨-, -, hd⟩
      · have hvalue := Sum.inl.inj hd
        by_cases hzero : x.significand = 0
        · -- both are zero
          refine .inr ⟨isZero_iff.2 hzero, isZero_iff.2 ?_⟩
          rw [signedSignificand_eq_zero.2 hzero] at hvalue
          have hpow : (2 : ℚ) ^ y.exponent ≠ 0 := zpow_ne_zero _ (by norm_num)
          simpa [hpow, signedSignificand_eq_zero] using hvalue.symm
        · exact .inl (congrArg bits (eq_of_value hzero hvalue))
      · cases hd
    · rcases number?_cases hy with ⟨-, hd⟩ | ⟨hfield', hfraction', hd⟩
      · cases hd
      · exact .inl (congrArg bits (ext_fields (Sum.inr.inj hd) (hfield.trans hfield'.symm)
          (hfraction.trans hfraction'.symm)))

/-- **A number equals an integer iff it denotes the integer.** -/
theorem eqInt_iff : x.eqInt n = true ↔ x.number? = some (.inl n) := by
  by_cases hfield : x.exponentField = 2047
  · refine iff_of_false (by simp [eqInt, hfield]) fun h => ?_
    rcases number?_cases h with ⟨hne, -⟩ | ⟨-, -, hd⟩
    · exact hne hfield
    · cases hd
  rw [number?_of_finite hfield, Option.some.injEq, Sum.inl.injEq]
  simp only [eqInt, bne_iff_ne, ne_eq, hfield, not_false_eq_true, Bool.and_eq_true, true_and,
    Nat.pow_eq]
  split_ifs with hexponent
  · have hscale : (2 : ℚ) ^ x.exponent = 2 ^ x.exponent.toNat := by
      rw [← zpow_natCast, Int.toNat_of_nonneg hexponent]
    rw [beq_iff_eq, hscale]
    exact_mod_cast Iff.rfl
  · have hscale : (2 : ℚ) ^ x.exponent = (2 ^ (-x.exponent).toNat)⁻¹ := by
      rw [← zpow_natCast, Int.toNat_of_nonneg (by omega), zpow_neg, inv_inv]
    rw [beq_iff_eq, hscale, mul_inv_eq_iff_eq_mul₀ (pow_ne_zero _ (by norm_num))]
    exact_mod_cast Iff.rfl

end ScopedFn.Binary64
