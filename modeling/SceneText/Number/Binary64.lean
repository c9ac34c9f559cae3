/-!
# Number/Binary64 — doubles as whole steps of `2 ^ -1074`

A finite double is a sign and a magnitude, and the magnitudes in increasing order are numbered by
the *code*, the bits below the sign bit.  Every magnitude is a whole number of steps of `2 ^ -1074`,
so rounding a fraction to a double (`nearestCode`) is arithmetic on natural numbers.
-/

namespace SceneText

/-- A double taken apart into its sign and the number of its magnitude. -/
structure Binary64 where
  negative : Bool
  code : Nat
  deriving DecidableEq, Repr

namespace Binary64

/-- The number of magnitudes between a power of two and its double, `2 ^ 52`. -/
def binade : Nat := 0x10000000000000

/-- The place of the sign bit, `2 ^ 63`. -/
def signBit : Nat := 0x8000000000000000

/-- The first code that is no finite magnitude. -/
def infinityCode : Nat := 2047 * binade

/-- The sign bit and the bits below it. -/
def ofFloat (x : Float) : Binary64 :=
  ⟨signBit ≤ x.toBits.toNat, x.toBits.toNat % signBit⟩

/-- Sign and magnitude put together; a code past the finite ones gives infinity. -/
def toFloat (b : Binary64) : Float :=
  .ofBits (.ofNat (min b.code infinityCode + if b.negative then signBit else 0))

/-- The magnitude of a code, counted in steps of `2 ^ -1074`: below the first binade the code
itself, then `binade` magnitudes at each distance `1, 2, 4, …`. -/
def steps (code : Nat) : Nat :=
  if code < binade then code
  else (code % binade + binade) * Nat.pow 2 (code / binade - 1)

/-- `num / den` as a whole number: the nearest, and of two equally near the even one. -/
def roundHalfEven (num den : Nat) : Nat :=
  let whole := num / den
  let double := 2 * (num % den)
  if double < den then whole
  else if den < double then whole + 1
  else whole + whole % 2

/-- The code of the magnitude nearest to `num / den` steps.  The distance between magnitudes
doubles with every bit past the 53rd, and rounding up out of a binade lands on the first code of the
next. -/
def nearestCode (num den : Nat) : Nat :=
  let shift := (num / den).log2 - 52
  shift * binade + roundHalfEven num (den * Nat.pow 2 shift)

end Binary64

end SceneText
