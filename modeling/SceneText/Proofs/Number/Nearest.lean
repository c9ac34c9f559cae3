import Mathlib
import SceneText.Number.Decimal

/-!
# Proofs/Number/Nearest — rounding keeps what is a double already

`nearestCode num den` rounds a fraction, counted in steps.  It depends on the value of the fraction
alone (`nearestCode_congr`), gives every magnitude back (`nearestCode_steps`), and is known at
either end of the scale without a division (`nearestCode_eq_zero`, `infinityCode_le_nearestCode`).
-/

namespace SceneText

namespace Binary64

variable {num den : Nat}

/-! ## The value of a fraction -/

theorem roundHalfEven_mul_right {k : Nat} (hk : 0 < k) (num den : Nat) :
    roundHalfEven (num * k) (den * k) = roundHalfEven num den := by
  have hless : 2 * (num % den * k) < den * k ↔ 2 * (num % den) < den := by
    rw [← Nat.mul_assoc]
    exact Nat.mul_lt_mul_right hk
  have hmore : den * k < 2 * (num % den * k) ↔ den < 2 * (num % den) := by
    rw [← Nat.mul_assoc]
    exact Nat.mul_lt_mul_right hk
  simp only [roundHalfEven, Nat.mul_div_mul_right _ _ hk, Nat.mul_mod_mul_right, hless, hmore]

theorem nearestCode_mul_right {k : Nat} (hk : 0 < k) (num den : Nat) :
    nearestCode (num * k) (den * k) = nearestCode num den := by
  have hshift (p : Nat) : den * k * p = den * p * k := by ring
  simp only [nearestCode, Nat.mul_div_mul_right _ _ hk, hshift, roundHalfEven_mul_right hk]

/-- **Equal fractions are rounded alike.** -/
theorem nearestCode_congr {num' den' : Nat} (hden : 0 < den) (hden' : 0 < den')
    (h : num * den' = num' * den) : nearestCode num den = nearestCode num' den' := by
  rw [← nearestCode_mul_right hden' num den, ← nearestCode_mul_right hden num' den', h,
    Nat.mul_comm den den']

/-! ## Magnitudes -/

theorem roundHalfEven_mul_self (hden : 0 < den) (n : Nat) : roundHalfEven (n * den) den = n := by
  simp [roundHalfEven, Nat.mul_div_cancel _ hden, hden]

/-- The code of a whole number of steps: below the first binade the number itself. -/
theorem nearestCode_of_log2 {n r p : Nat} (hden : 0 < den) (hlog : n.log2 - 52 = p)
    (hn : n = r * 2 ^ p) : nearestCode (n * den) den = p * binade + r := by
  have hsplit : n * den = r * (den * 2 ^ p) := by rw [hn]; ring
  have hround : roundHalfEven (n * den) (den * 2 ^ p) = r := by
    rw [hsplit]
    exact roundHalfEven_mul_self (Nat.mul_pos hden (Nat.two_pow_pos p)) r
  change ((n * den / den).log2 - 52) * binade
    + roundHalfEven (n * den) (den * 2 ^ ((n * den / den).log2 - 52)) = _
  rw [Nat.mul_div_cancel _ hden, hlog, hround]

/-- **A magnitude is the one nearest to itself.** -/
theorem nearestCode_steps (hden : 0 < den) (code : Nat) :
    nearestCode (steps code * den) den = code := by
  by_cases h : code < binade
  case pos =>
    have hlog : code.log2 - 52 = 0 := by
      rcases Nat.eq_zero_or_pos code with rfl | hpos
      · rfl
      · have := (Nat.log2_lt hpos.ne').2 (show code < 2 ^ 52 from h)
        omega
    rw [steps, if_pos h, nearestCode_of_log2 hden hlog (Nat.mul_one code).symm]
    omega
  case neg =>
    -- one binade further, the distance doubles and the logarithm grows by one
    set p := code / binade - 1 with hp
    have hdiv : 1 ≤ code / binade := (Nat.one_le_div_iff (by decide)).2 (Nat.le_of_not_lt h)
    have hmod : code % binade < binade := Nat.mod_lt _ (by decide)
    have hcode := Nat.div_add_mod code binade
    have hpow : 2 ^ (52 + p) = binade * 2 ^ p := Nat.pow_add ..
    have hpow' : 2 ^ (52 + p + 1) = 2 * binade * 2 ^ p := by rw [Nat.pow_succ, hpow]; ring
    have hpos := Nat.two_pow_pos p
    have hlog : ((code % binade + binade) * 2 ^ p).log2 = 52 + p := by
      refine (Nat.log2_eq_iff (Nat.mul_ne_zero (by omega) hpos.ne')).2 ⟨?_, ?_⟩
      · rw [hpow]
        exact Nat.mul_le_mul_right _ (by omega)
      · rw [hpow']
        exact Nat.mul_lt_mul_of_pos_right (by omega) hpos
    have hmul : binade * (code / binade) = p * binade + binade := by
      rw [show code / binade = p + 1 by omega]
      ring
    rw [steps, if_neg h]
    refine (nearestCode_of_log2 (p := p) hden ?_ rfl).trans (by omega)
    omega

/-! ## Both ends of the scale -/

/-- What is less than half a step is rounded to zero. -/
theorem nearestCode_eq_zero (h : 2 * num < den) : nearestCode num den = 0 := by
  have hdiv : num / den = 0 := Nat.div_eq_of_lt (by omega)
  have hmod : num % den = num := Nat.mod_eq_of_lt (by omega)
  have hlog : Nat.log2 0 - 52 = 0 := rfl
  simp only [nearestCode, hdiv, hlog, Nat.zero_mul, Nat.zero_add, roundHalfEven, Nat.pow_zero,
    Nat.pow_eq, Nat.mul_one, hmod, if_pos h]

/-- From `2 ^ 2099` steps on nothing is finite. -/
theorem infinityCode_le_nearestCode {p : Nat} (hden : 0 < den) (hp : 2099 ≤ p)
    (h : den * 2 ^ p ≤ num) : infinityCode ≤ nearestCode num den := by
  have hdiv : 2 ^ p ≤ num / den := (Nat.le_div_iff_mul_le hden).2 (by rwa [Nat.mul_comm])
  have hpos : num / den ≠ 0 := (Nat.lt_of_lt_of_le (Nat.two_pow_pos p) hdiv).ne'
  have hlog : p ≤ (num / den).log2 := (Nat.le_log2 hpos).2 hdiv
  calc infinityCode = 2047 * binade := rfl
    _ ≤ ((num / den).log2 - 52) * binade := Nat.mul_le_mul_right _ (by omega)
    _ ≤ nearestCode num den := Nat.le_add_right ..

end Binary64

end SceneText
