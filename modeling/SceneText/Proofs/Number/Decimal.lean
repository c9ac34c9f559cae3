import Mathlib
import SceneText.Proofs.Number.Nearest

/-!
# Proofs/Number/Decimal — the shortest decimal of a double rounds to it

A decimal rounds by its value alone: the limits past which `Decimal.code` writes out no power change
nothing (`code_eq`), and a zero more at the end of the significand does not either (`code_shift`).
So the decimal that `Decimal.shortest` finds rounds back (`code_shortest`).
-/

namespace SceneText

namespace Decimal

open Binary64

/-! ## The value of a decimal -/

/-- The numerator of a decimal, counted in steps. -/
def num (d : Decimal) : Nat := d.significand * 10 ^ d.exponent.toNat * unit

/-- The denominator of a decimal. -/
def den (d : Decimal) : Nat := 10 ^ (-d.exponent).toNat

theorem den_pos (d : Decimal) : 0 < d.den := Nat.pow_pos (by decide)

theorem two_pow_le_ten_pow {a b : Nat} (h : a ≤ 3 * b) : 2 ^ a ≤ 10 ^ b :=
  calc 2 ^ a ≤ 2 ^ (3 * b) := Nat.pow_le_pow_right (by decide) h
    _ = (2 ^ 3) ^ b := Nat.pow_mul ..
    _ ≤ 10 ^ b := Nat.pow_le_pow_left (by decide) b

/-- The powers that count steps, under a name for their exponent, so that they are never written
out. -/
theorem unit_eq : ∃ u : Nat, u = 1074 ∧ unit = 2 ^ u ∧ ∀ c, exact c = ⟨steps c * 5 ^ u, -u⟩ := by
  have hneg : (-1074 : Int) = -((1074 : Nat) : Int) := rfl
  unfold unit exact
  rw [hneg]
  generalize 1074 = u
  exact ⟨u, rfl, Nat.pow_eq, fun _ => rfl⟩

/-- Past `10 ^ 400` a decimal is no finite double. -/
theorem infinityCode_le_of_exponent {d : Decimal} (hs : d.significand ≠ 0)
    (he : 400 < d.exponent) : infinityCode ≤ nearestCode d.num d.den := by
  obtain ⟨u, hu, hunit, -⟩ := unit_eq
  obtain ⟨p, hp⟩ : ∃ p, p = 1025 := ⟨_, rfl⟩
  have hden : d.den = 1 := by
    rw [den, show (-d.exponent).toNat = 0 by omega, Nat.pow_zero]
  refine infinityCode_le_nearestCode (p := p + u) d.den_pos (by omega) ?_
  rw [hden, Nat.one_mul, Nat.pow_add, num, hunit]
  refine Nat.mul_le_mul_right _ ?_
  calc 2 ^ p ≤ 10 ^ d.exponent.toNat := two_pow_le_ten_pow (by omega)
    _ ≤ d.significand * 10 ^ d.exponent.toNat := Nat.le_mul_of_pos_left _ (by omega)

/-- Below `10 ^ -400` a decimal is less than half a step. -/
theorem nearestCode_of_log2_lt {d : Decimal} (h : d.exponent + d.significand.log2 < -400) :
    nearestCode d.num d.den = 0 := by
  obtain ⟨u, hu, hunit, -⟩ := unit_eq
  refine nearestCode_eq_zero ?_
  have hzero : d.exponent.toNat = 0 := by omega
  rw [num, den, hzero, Nat.pow_zero, Nat.mul_one, hunit]
  calc 2 * (d.significand * 2 ^ u)
      < 2 * (2 ^ (d.significand.log2 + 1) * 2 ^ u) := Nat.mul_lt_mul_of_pos_left
        (Nat.mul_lt_mul_of_pos_right Nat.lt_log2_self (Nat.two_pow_pos u)) (by decide)
    _ = 2 ^ (1 + (d.significand.log2 + 1 + u)) := by rw [Nat.pow_add 2 1, Nat.pow_add _ _ u]
    _ ≤ 10 ^ (-d.exponent).toNat := two_pow_le_ten_pow (by omega)

/-- **A decimal is rounded by its value.** -/
theorem code_eq (d : Decimal) : d.code = min infinityCode (nearestCode d.num d.den) := by
  rw [code]
  split
  case isTrue hs =>
    rw [nearestCode_eq_zero, Nat.min_zero]
    rw [num, hs, Nat.zero_mul, Nat.zero_mul]
    exact d.den_pos
  case isFalse hs =>
    split
    case isTrue he => rw [Nat.min_eq_left (infinityCode_le_of_exponent hs he)]
    case isFalse =>
      split
      case isTrue hlow => rw [nearestCode_of_log2_lt hlow, Nat.min_zero]
      case isFalse => rfl

/-- **Zeros moved between significand and exponent change nothing.** -/
theorem code_shift (s k : Nat) (e : Int) : code ⟨s * 10 ^ k, e - k⟩ = code ⟨s, e⟩ := by
  rw [code_eq, code_eq, nearestCode_congr (den_pos _) (den_pos ⟨s, e⟩)]
  have hexp : k + (e - k).toNat + (-e).toNat = e.toNat + (-(e - k)).toNat := by omega
  calc s * 10 ^ k * 10 ^ (e - k).toNat * unit * 10 ^ (-e).toNat
      = s * unit * 10 ^ (k + (e - k).toNat + (-e).toNat) := by rw [Nat.pow_add, Nat.pow_add]; ring
    _ = s * 10 ^ e.toNat * unit * 10 ^ (-(e - k)).toNat := by rw [hexp, Nat.pow_add]; ring

theorem code_normalize (d : Decimal) : d.normalize.code = d.code := by
  fun_induction normalize d with
  | case1 d h ih =>
    rw [ih]
    have hdiv : d.significand / 10 * 10 ^ 1 = d.significand := by omega
    have := code_shift (d.significand / 10) 1 (d.exponent + 1)
    rw [hdiv] at this
    simpa using this.symm
  | case2 => rfl

/-! ## The shortest decimal -/

/-- A step is `5 ^ u` units of the `u`-th decimal place. -/
theorem num_five_pow {u : Nat} (hunit : unit = 2 ^ u) (s : Nat) :
    num ⟨s * 5 ^ u, -u⟩ = s * den ⟨s * 5 ^ u, -u⟩ := by
  have hexp : (-(-(u : Int))).toNat = u := by omega
  have hzero : (-(u : Int)).toNat = 0 := by omega
  rw [num, den, hexp, hzero, hunit, Nat.pow_zero, Nat.mul_one, Nat.mul_assoc, ← Nat.mul_pow]

/-- All digits of a magnitude are that magnitude. -/
theorem code_exact {c : Nat} (h : c < infinityCode) : (exact c).code = c := by
  obtain ⟨u, -, hunit, hexact⟩ := unit_eq
  rw [hexact, code_eq, num_five_pow hunit, nearestCode_steps (den_pos _), Nat.min_eq_right h.le]

theorem code_of_onGrid? {c : Nat} {grid : Int} {d : Decimal} (h : onGrid? c grid = some d) :
    d.code = c := by
  unfold onGrid? at h
  generalize unit = u at h
  dsimp only at h
  split at h <;> grind

/-- **The shortest decimal of a magnitude rounds to it.** -/
theorem code_shortest {c : Nat} (h : c < infinityCode) : (shortest c).code = c := by
  rw [shortest, code_normalize]
  cases hfound : (List.range 17).findSome? fun (k : Nat) => onGrid? c (order c - 1 - k) with
  | none => exact code_exact h
  | some d =>
    obtain ⟨k, -, hk⟩ := List.exists_of_findSome?_eq_some hfound
    exact code_of_onGrid? hk

end Decimal

end SceneText
