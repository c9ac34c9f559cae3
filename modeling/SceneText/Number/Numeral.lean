import SceneText.Number.Decimal

/-!
# Number/Numeral — the text of a double

`Numeral.read` takes a decimal numeral to the nearest double, `Numeral.write` gives a double its
shortest text.
-/

namespace SceneText

namespace Numeral

/-! ## Reading -/

/-- A sign in front, if there is one. -/
def takeSign : List Char → Bool × List Char
  | '-' :: s => (true, s)
  | '+' :: s => (false, s)
  | s => (false, s)

/-- Digits up to the end, at least one. -/
def digits? (s : List Char) : Option Nat :=
  if s.isEmpty || !s.all Char.isDigit then none else some (Nat.ofDigitChars 10 s 0)

/-- The power of ten behind the digits: nothing, or `e` and a whole number. -/
def exponent? : List Char → Option Int
  | [] => some 0
  | c :: s =>
    if c = 'e' || c = 'E' then
      let (negative, s) := takeSign s
      (digits? s).map fun n => if negative then -n else n
    else none

/-- An unsigned numeral: digits around an optional point, at least one, then the power of ten. -/
def decimal? (s : List Char) : Option Decimal :=
  let whole := s.takeWhile Char.isDigit
  let rest := s.dropWhile Char.isDigit
  let tail := if rest.head? = some '.' then rest.tail else []
  let part := tail.takeWhile Char.isDigit
  let rest := if rest.head? = some '.' then tail.dropWhile Char.isDigit else rest
  if whole.isEmpty && part.isEmpty then none
  else (exponent? rest).map fun e => ⟨Nat.ofDigitChars 10 (whole ++ part) 0, e - part.length⟩

/-- The words for what is not finite, in any case of letters. -/
def nonFinite? (negative : Bool) (s : List Char) : Option Float :=
  let word := String.ofList (s.map Char.toLower)
  if word = "inf" ∨ word = "infinity" then
    some (Binary64.toFloat ⟨negative, Binary64.infinityCode⟩)
  else if word = "nan" then some (0 / 0)
  else none

/-- **The double that a text stands for**, correctly rounded. -/
def read (s : List Char) : Option Float :=
  let (negative, s) := takeSign s
  ((decimal? s).map (Decimal.toFloat negative)).or (nonFinite? negative s)

/-! ## Writing -/

/-- Which powers of ten a leading digit may have for a number to be written without an exponent. -/
structure Layout where
  least : Int
  most : Int

/-- Numbers are written out from `0.0001` up to sixteen digits before the point. -/
def layout : Layout := ⟨-4, 15⟩

/-- Digits with their point after the first `point` of them; a point outside the digits is reached
by zeros, and a digit stands on both sides of it. -/
def plain (digits : List Char) (point : Int) : List Char :=
  if point ≤ 0 then "0.".toList ++ List.replicate (-point).toNat '0' ++ digits
  else if digits.length ≤ point.toNat then
    digits ++ List.replicate (point.toNat - digits.length) '0' ++ ".0".toList
  else digits.take point.toNat ++ '.' :: digits.drop point.toNat

/-- A whole number in decimal, with a sign if it is negative. -/
def whole (n : Int) : List Char :=
  if n < 0 then '-' :: Nat.toDigits 10 n.natAbs else Nat.toDigits 10 n.natAbs

/-- One digit before the point, none after it if there are no more, and the power of ten. -/
def scientific (digits : List Char) (power : Int) : List Char :=
  digits.take 1 ++ (if digits.length ≤ 1 then [] else '.' :: digits.drop 1) ++ 'e' :: whole power

/-- The text of a decimal. -/
def ofDecimal (d : Decimal) : List Char :=
  let digits := Nat.toDigits 10 d.significand
  let point := digits.length + d.exponent
  if layout.least ≤ point - 1 ∧ point - 1 ≤ layout.most then plain digits point
  else scientific digits (point - 1)

/-- The text of a magnitude. -/
def ofCode (code : Nat) : List Char :=
  if code = 0 then "0.0".toList
  else if code < Binary64.infinityCode then ofDecimal (Decimal.shortest code)
  else "inf".toList

/-- **The shortest text that reads back as the same double.** -/
def write (x : Float) : String :=
  let b := Binary64.ofFloat x
  if Binary64.infinityCode < b.code then "NaN"
  else .ofList ((if b.negative then ['-'] else []) ++ ofCode b.code)

end Numeral

end SceneText
