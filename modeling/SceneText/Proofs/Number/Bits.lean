import Mathlib
import SceneText.Number.Finite

/-!
# Proofs/Number/Bits — a finite double is its sign and its code

`Binary64.ofFloat` takes a double apart into sign and code, and `Binary64.toFloat` puts them
together again.  On the finite doubles the second undoes the first (`toFloat_ofFloat`), the sign of
zero included, and the codes below `infinityCode` are those of the finite doubles
(`code_lt_infinityCode_iff`).
-/

open Float.Model (Format UnpackedFloat)
open Float.Model.UnpackedFloat

namespace SceneText

namespace Binary64

/-! ## The three fields of a word

A word is a sign bit, eleven bits of exponent and fifty-two bits of mantissa.  An exponent of ones
is kept for what is not finite, an exponent of zeros for the doubles below the first binade. -/

variable {b : BitVec Format.binary64.numBits} {s : Sign}
  {e : BitVec Format.binary64.exponentBits} {m : BitVec Format.binary64.mantissaBitsWithoutImplicit}

/-- A word is its three fields, one after the other. -/
theorem packComponents_unpack (b : BitVec Format.binary64.numBits) :
    packComponents Format.binary64 (Sign.ofBitVec (unpackSign b)) (unpackExponent b)
      (unpackMantissa b) = b := by
  have hs : (Sign.ofBitVec (unpackSign b)).toBitVec = unpackSign b := by
    generalize unpackSign b = t
    revert t
    decide
  rw [packComponents, hs]
  simp only [unpackSign, unpackExponent, unpackMantissa, BitVec.extractLsb]
  ext i hi
  grind

/-- Below the first binade the mantissa stands for itself, at the least exponent. -/
theorem pack_subnormal {h : 0 < m.toNat} {k : Int} (hk : k = -1074) :
    pack Format.binary64 (.finite s m.toNat k h) = packComponents Format.binary64 s 0#_ m := by
  have hlog : ¬ m.toNat.log2 + 1 = 53 := by
    have := (Nat.log2_lt h.ne').2 m.isLt
    change _ < 52 at this
    omega
  have hbias : (k + (1023 : Nat) + (52 : Nat)).toNat = 1 := by omega
  change (if 2 ^ 11 ≤ (k + (1023 : Nat) + (52 : Nat)).toNat + 1 then _
    else if m.toNat.log2 + 1 = 53 then _ else packComponents _ s 0#_ (BitVec.ofNat _ m.toNat)) = _
  rw [hbias, if_neg (by decide), if_neg hlog, BitVec.ofNat_toNat, BitVec.setWidth_eq]

/-- From the first binade on a bit in front of the mantissa is understood. -/
theorem pack_normal {n : Nat} {h : 0 < n} {k : Int} (hn : n = 2 ^ 52 + m.toNat)
    (hk : k = e.toNat - 1075) (ones : e ≠ -1#_) :
    pack Format.binary64 (.finite s n k h) = packComponents Format.binary64 s e m := by
  have hm : m.toNat < 2 ^ 52 := m.isLt
  have he : e.toNat < 2 ^ 11 - 1 := by
    have hlt : e.toNat < 2 ^ 11 := e.isLt
    have hne : e.toNat ≠ 2 ^ 11 - 1 := fun h => ones (BitVec.eq_of_toNat_eq (by simpa using h))
    omega
  have hlog : n.log2 + 1 = 53 := by
    have := (Nat.log2_eq_iff h.ne').2 (⟨by omega, by omega⟩ : 2 ^ 52 ≤ n ∧ n < 2 ^ (52 + 1))
    omega
  have hbias : (k + (1023 : Nat) + (52 : Nat)).toNat = e.toNat := by omega
  have hmant : BitVec.ofNat Format.binary64.mantissaBitsWithoutImplicit n = m := by
    refine BitVec.eq_of_toNat_eq ?_
    rw [BitVec.toNat_ofNat]
    change n % 2 ^ 52 = _
    omega
  change (if 2 ^ 11 ≤ (k + (1023 : Nat) + (52 : Nat)).toNat + 1 then _
    else if n.log2 + 1 = 53 then packComponents _ s
      (BitVec.ofNat _ (k + (1023 : Nat) + (52 : Nat)).toNat) (BitVec.ofNat _ n)
    else _) = _
  rw [hbias, if_neg (by omega), if_pos hlog, hmant, BitVec.ofNat_toNat, BitVec.setWidth_eq]

/-- **Unpacking a word and packing it again changes nothing**: of the words for NaN only one is in
use. -/
theorem pack_unpack (valid : Format.binary64.Valid b) :
    pack Format.binary64 (unpack Format.binary64 b) = b := by
  have hb := packComponents_unpack b
  rw [unpack]
  split
  case isTrue ones =>
    split
    case isTrue zeros => rwa [ones, zeros] at hb
    case isFalse nonzero => exact (valid.eq_packedNaN ones nonzero).symm
  case isFalse ones =>
    split
    case isTrue zeros =>
      rw [zeros] at hb
      split
      case isTrue nought => rwa [nought] at hb
      case isFalse => rwa [pack_subnormal (by rw [zeros]; decide)]
    case isFalse =>
      refine (pack_normal (m := unpackMantissa b) ?_ rfl ones).trans hb
      rw [BitVec.toNat_append, Nat.shiftLeft_eq, Nat.mul_comm,
        ← Nat.two_pow_add_eq_or_of_lt (unpackMantissa b).isLt]
      rfl

/-- **A double is its bits.** -/
theorem ofBits_toBits (x : Float) : Float.ofBits x.toBits = x := by
  obtain ⟨bits, valid⟩ := x
  change Float.ofModel (Float.Model.ofBits bits) = _
  congr 1
  change (⟨UInt64.ofBitVec (pack Format.binary64 (unpack Format.binary64 bits.toBitVec)), _⟩ :
    Float.Model) = _
  congr 1
  rw [pack_unpack valid]

/-! ## Finite doubles -/

/-- The exponent of a word, read off its code. -/
theorem toNat_unpackExponent (b : BitVec Format.binary64.numBits) :
    (unpackExponent b).toNat = b.toNat / 2 ^ 52 % 2 ^ 11 := by
  simp [unpackExponent, BitVec.extractLsb, Nat.shiftRight_eq_div_pow]

theorem isFinite_unpack_iff :
    (unpack Format.binary64 b).isFinite ↔ unpackExponent b ≠ -1#_ := by
  rw [unpack]
  split_ifs <;> simp_all [UnpackedFloat.isFinite]

/-- **The codes below `infinityCode` are those of the finite doubles.** -/
theorem code_lt_infinityCode_iff (x : Float) : (ofFloat x).code < infinityCode ↔ x.isFinite := by
  have hlt : x.toBits.toNat < 2 ^ 64 := x.toBits.toBitVec.isLt
  have hexp := toNat_unpackExponent x.toBits.toBitVec
  have hones : @unpackExponent Format.binary64 x.toBits.toBitVec = -1#_ ↔
      x.toBits.toNat / 2 ^ 52 % 2 ^ 11 = 2047 := by
    rw [← BitVec.toNat_inj, hexp]
    rfl
  change x.toBits.toNat % signBit < infinityCode ↔
    (unpack Format.binary64 x.toBits.toBitVec).isFinite = true
  rw [isFinite_unpack_iff, ne_eq, hones]
  simp only [signBit, infinityCode, binade]
  omega

/-- A finite double is passed through. -/
theorem finite?_eq_ok_iff {x y : Float} : finite? x = .ok y ↔ x.isFinite ∧ x = y := by
  rw [← code_lt_infinityCode_iff, finite?]
  split_ifs <;> simp_all

/-- **Sign and code of a finite double put together give the double back.** -/
theorem toFloat_ofFloat {x : Float} (h : x.isFinite) : toFloat (ofFloat x) = x := by
  have hcode := (code_lt_infinityCode_iff x).2 h
  have hlt : x.toBits.toNat < 2 ^ 64 := x.toBits.toBitVec.isLt
  have hbits : min (ofFloat x).code infinityCode + (if (ofFloat x).negative then signBit else 0)
      = x.toBits.toNat := by
    rw [Nat.min_eq_left hcode.le]
    have hdiv := Nat.div_add_mod x.toBits.toNat signBit
    by_cases hsign : signBit ≤ x.toBits.toNat <;>
      simp only [ofFloat, hsign, decide_true, decide_false, if_true, Bool.false_eq_true,
        if_false] <;>
      simp only [signBit] at hdiv hsign ⊢ <;> omega
  rw [toFloat, hbits, UInt64.ofNat_toNat, ofBits_toBits]

end Binary64

end SceneText
