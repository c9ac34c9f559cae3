import SceneText.Number.Binary64

/-!
# Number/Decimal — decimals and the doubles nearest to them

`Decimal.code` rounds a decimal to the nearest magnitude, `Decimal.shortest` finds the decimal with
the fewest digits that rounds to a given magnitude.
-/

namespace SceneText

/-- The non-negative number `significand * 10 ^ exponent`. -/
structure Decimal where
  significand : Nat
  exponent : Int
  deriving DecidableEq, Repr

namespace Decimal

open Binary64

/-- The number of steps in one, `2 ^ 1074`. -/
def unit : Nat := Nat.pow 2 1074

/-- The code of the magnitude nearest to a decimal, `infinityCode` from halfway past the largest on.
Past `10 ^ 400` and below `10 ^ -400` the answer is known without writing out the power. -/
def code (d : Decimal) : Nat :=
  if d.significand = 0 then 0
  else if 400 < d.exponent then infinityCode
  else if d.exponent + d.significand.log2 < -400 then 0
  else
    let num := d.significand * Nat.pow 10 d.exponent.toNat * unit
    let den := Nat.pow 10 (-d.exponent).toNat
    min infinityCode (nearestCode num den)

/-- The double nearest to a decimal under a sign. -/
def toFloat (negative : Bool) (d : Decimal) : Float :=
  Binary64.toFloat ⟨negative, d.code⟩

/-- The same number with no zero at the end of its significand. -/
def normalize (d : Decimal) : Decimal :=
  if h : 0 < d.significand ∧ d.significand % 10 = 0 then
    normalize ⟨d.significand / 10, d.exponent + 1⟩
  else d
termination_by d.significand
decreasing_by exact Nat.div_lt_self h.1 (by omega)

/-- All digits of a magnitude: a step is `5 ^ 1074` units of the 1074th decimal place. -/
def exact (code : Nat) : Decimal :=
  ⟨steps code * Nat.pow 5 1074, -1074⟩

/-- How many digits a magnitude has before its point; for one below `0.1`, minus the number of zeros
that follow the point. -/
def order (code : Nat) : Int :=
  ((Nat.toDigits 10 (steps code * Nat.pow 10 330 / unit)).length : Int) - 330

/-- A multiple of `10 ^ grid` next to a magnitude that rounds to it: the nearer of the two
neighbours if that does, else the farther.  Of two equally near the larger counts as nearer. -/
def onGrid? (code : Nat) (grid : Int) : Option Decimal :=
  let num := steps code * Nat.pow 10 (-grid).toNat
  let den := unit * Nat.pow 10 grid.toNat
  let below : Decimal := ⟨num / den, grid⟩
  let above : Decimal := ⟨num / den + 1, grid⟩
  let (near, far) := if 2 * (num % den) < den then (below, above) else (above, below)
  if near.code = code then some near
  else if far.code = code then some far
  else none

/-- **The decimal with the fewest digits that rounds to a magnitude**, and of those the nearest. -/
def shortest (code : Nat) : Decimal :=
  let first := order code - 1
  let candidate := (List.range 17).findSome? fun (k : Nat) => onGrid? code (first - k)
  (candidate.getD (exact code)).normalize

end Decimal

end SceneText
