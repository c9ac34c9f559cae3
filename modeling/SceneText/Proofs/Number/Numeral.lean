import Mathlib
import SceneText.Number.Numeral
import SceneText.Proofs.Number.Bits
import SceneText.Proofs.Number.Decimal
import SceneText.Proofs.Text.Runs

/-!
# Proofs/Number/Numeral — a finite double is read back from its text

The text of a decimal is laid out in one of five ways, and each is read as a decimal of the same
value (`exists_decimal?_ofDecimal`).  With the shortest decimal of a double rounding to it, the
text of a finite double reads back bit for bit (`read_write`).  Whatever reads as a double holds
characters of numbers only (`numberChars_of_read`), so a run of such characters is never cut short.
-/

namespace SceneText

/-- The characters of numbers: signs, points, letters and digits. -/
def isNumberChar (c : Char) : Bool := c = '+' || c = '-' || c = '.' || c.isAlphanum

theorem isNumberChar_of_isDigit {c : Char} (h : c.isDigit) : isNumberChar c := by
  simp [isNumberChar, Char.isAlphanum, h]

namespace Numeral

variable {s t : List Char}

/-! ## Reading, part by part -/

/-- Digits, as they are read. -/
abbrev Digits (s : List Char) : Prop := ∀ c ∈ s, c.isDigit

theorem digits_toDigits (n : Nat) : Digits (Nat.toDigits 10 n) :=
  fun _ hc => Nat.isDigit_of_mem_toDigits (by decide) (by decide) hc

theorem digits_append : Digits (s ++ t) ↔ Digits s ∧ Digits t := List.forall_mem_append

theorem digits_zeros (k : Nat) : Digits (List.replicate k '0') := by
  intro c hc
  rw [List.eq_of_mem_replicate hc]
  decide

/-- A text that starts with a digit has no sign. -/
theorem takeSign_of_digit {c : Char} (h : c.isDigit) : takeSign (c :: s) = (false, c :: s) := by
  have hminus : c ≠ '-' := by rintro rfl; exact absurd h (by decide)
  have hplus : c ≠ '+' := by rintro rfl; exact absurd h (by decide)
  rw [takeSign]
  · rintro _ ⟨⟩; exact hminus rfl
  · rintro _ ⟨⟩; exact hplus rfl

theorem digits?_toDigits (n : Nat) : digits? (Nat.toDigits 10 n) = some n := by
  have hall : (Nat.toDigits 10 n).all Char.isDigit := List.all_eq_true.2 (digits_toDigits n)
  simp [digits?, hall]

theorem exponent?_whole (n : Int) : exponent? ('e' :: whole n) = some n := by
  by_cases hn : n < 0
  case pos =>
    rw [whole, if_pos hn]
    have hsign : takeSign ('-' :: Nat.toDigits 10 n.natAbs) =
        (true, Nat.toDigits 10 n.natAbs) := rfl
    simp [exponent?, hsign, digits?_toDigits, abs_of_neg hn]
  case neg =>
    obtain ⟨c, cs, hdigits⟩ := List.exists_cons_of_ne_nil
      (Nat.toDigits_ne_nil (n := n.natAbs) (b := 10))
    have hc : c.isDigit := digits_toDigits n.natAbs c (by simp [hdigits])
    have hsign := takeSign_of_digit (s := cs) hc
    rw [← hdigits] at hsign
    rw [whole, if_neg hn]
    simp [exponent?, hsign, digits?_toDigits, abs_of_nonneg (Int.not_lt.1 hn)]

/-- Digits without a point. -/
theorem decimal?_of_digits (hs : Digits s) (hne : s ≠ []) (ht : Stops Char.isDigit t)
    (hpoint : t.head? ≠ some '.') :
    decimal? (s ++ t) = (exponent? t).map fun e => ⟨Nat.ofDigitChars 10 s 0, e⟩ := by
  simp [decimal?, takeWhile_append_of_stops hs ht, dropWhile_append_of_stops hs ht, hpoint, hne]

/-- Digits around a point. -/
theorem decimal?_of_point {part : List Char} (hs : Digits s) (hpart : Digits part)
    (hne : s ≠ []) (ht : Stops Char.isDigit t) :
    decimal? (s ++ '.' :: part ++ t) = (exponent? t).map fun e =>
      ⟨Nat.ofDigitChars 10 (s ++ part) 0, e - part.length⟩ := by
  have hstop : Stops Char.isDigit ('.' :: (part ++ t)) := stops_cons.2 (by decide)
  rw [List.append_assoc, List.cons_append]
  simp [decimal?, takeWhile_append_of_stops hs hstop, dropWhile_append_of_stops hs hstop,
    takeWhile_append_of_stops hpart ht, dropWhile_append_of_stops hpart ht, hne]

/-! ## What can be read -/

/-- Characters of numbers only. -/
abbrev NumberChars (s : List Char) : Prop := ∀ c ∈ s, isNumberChar c

theorem numberChars_append : NumberChars (s ++ t) ↔ NumberChars s ∧ NumberChars t :=
  List.forall_mem_append

theorem numberChars_of_digits (h : Digits s) : NumberChars s :=
  fun c hc => isNumberChar_of_isDigit (h c hc)

theorem numberChars_of_takeSign (h : NumberChars (takeSign s).2) : NumberChars s := by
  unfold takeSign at h
  split at h
  · exact List.forall_mem_cons.2 ⟨by decide, h⟩
  · exact List.forall_mem_cons.2 ⟨by decide, h⟩
  · exact h

theorem numberChars_of_digits? {n : Nat} (h : digits? s = some n) : NumberChars s := by
  unfold digits? at h
  split at h
  case isTrue => cases h
  case isFalse hs =>
    have hall : s.all Char.isDigit := by simp_all
    exact numberChars_of_digits (List.all_eq_true.1 hall)

theorem numberChars_of_exponent? {e : Int} (h : exponent? s = some e) : NumberChars s := by
  cases s with
  | nil => exact List.forall_mem_nil _
  | cons c s =>
    simp only [exponent?, Option.ite_none_right_eq_some, Option.map_eq_some_iff,
      Option.bind_eq_bind, Option.bind_eq_some_iff] at h
    obtain ⟨hc, -, ⟨n, hn, -⟩, -⟩ := h
    refine List.forall_mem_cons.2 ⟨?_, numberChars_of_takeSign (numberChars_of_digits? hn)⟩
    rcases (by simpa using hc : c = 'e' ∨ c = 'E') with rfl | rfl <;> decide

theorem numberChars_of_decimal? {d : Decimal} (h : decimal? s = some d) : NumberChars s := by
  have hdigits (s : List Char) : NumberChars (s.takeWhile Char.isDigit) :=
    numberChars_of_digits fun c hc => of_mem_takeWhile hc
  have hsplit : s.takeWhile Char.isDigit ++ s.dropWhile Char.isDigit = s :=
    List.takeWhile_append_dropWhile
  simp only [decimal?, Option.ite_none_left_eq_some, Option.map_eq_some_iff] at h
  obtain ⟨-, e, he, -⟩ := h
  rw [← hsplit, numberChars_append]
  refine ⟨hdigits s, ?_⟩
  split at he
  case isTrue hpoint =>
    obtain ⟨tail, htail⟩ : ∃ tail, s.dropWhile Char.isDigit = '.' :: tail :=
      List.head?_eq_some_iff.1 hpoint
    rw [htail] at he ⊢
    have htail : NumberChars (tail.takeWhile Char.isDigit ++ tail.dropWhile Char.isDigit) :=
      numberChars_append.2 ⟨hdigits tail, numberChars_of_exponent? he⟩
    rw [List.takeWhile_append_dropWhile] at htail
    exact List.forall_mem_cons.2 ⟨by decide, htail⟩
  case isFalse => exact numberChars_of_exponent? he

theorem isAlphanum_of_toLower {c : Char} (h : c.toLower.isAlphanum) : c.isAlphanum := by
  unfold Char.toLower at h
  split at h
  case isTrue hupper =>
    have : c.isUpper := by simpa [Char.isUpper] using hupper
    simp [Char.isAlphanum, Char.isAlpha, this]
  case isFalse => exact h

theorem numberChars_of_nonFinite? {negative : Bool} {x : Float}
    (h : nonFinite? negative s = some x) : NumberChars s := by
  have hword {word : String} (hw : word.toList.all Char.isAlphanum)
      (h : String.ofList (s.map Char.toLower) = word) : NumberChars s := by
    intro c hc
    have hmem : c.toLower ∈ word.toList := by
      rw [← h, String.toList_ofList]
      exact List.mem_map_of_mem hc
    have := isAlphanum_of_toLower (List.all_eq_true.1 hw _ hmem)
    simp [isNumberChar, this]
  simp only [nonFinite?] at h
  split at h
  case isTrue hinf => exact hinf.elim (hword (by decide)) (hword (by decide))
  case isFalse =>
    split at h
    case isTrue hnan => exact hword (by decide) hnan
    case isFalse => cases h

/-- **What reads as a double holds characters of numbers only.** -/
theorem numberChars_of_read {x : Float} (h : read s = some x) : NumberChars s := by
  simp only [read, Option.or_eq_some_iff, Option.map_eq_some_iff] at h
  refine numberChars_of_takeSign ?_
  rcases h with ⟨d, hd, -⟩ | ⟨-, h⟩
  · exact numberChars_of_decimal? hd
  · exact numberChars_of_nonFinite? h

/-! ## Writing, layout by layout -/

section Layouts

variable {digits : List Char} (hdigits : Digits digits)
include hdigits

/-- The point in front of the digits, zeros between them. -/
theorem decimal?_zeros_append (k : Nat) :
    decimal? ("0.".toList ++ List.replicate k '0' ++ digits)
      = some ⟨Nat.ofDigitChars 10 digits 0, -(k + digits.length : Nat)⟩ := by
  have hall : Digits (List.replicate k '0' ++ digits) :=
    digits_append.2 ⟨digits_zeros k, hdigits⟩
  have hzero : Digits ['0'] := by simp [Digits]
  have hread := decimal?_of_point hzero hall (by simp) stops_nil
  simpa [exponent?, Nat.ofDigitChars_append, Nat.ofDigitChars_cons] using hread

/-- The point behind the digits, zeros between them. -/
theorem decimal?_append_zeros (hne : digits ≠ []) (k : Nat) :
    decimal? (digits ++ List.replicate k '0' ++ ".0".toList)
      = some ⟨Nat.ofDigitChars 10 digits 0 * 10 ^ (k + 1), -1⟩ := by
  have hall : Digits (digits ++ List.replicate k '0') :=
    digits_append.2 ⟨hdigits, digits_zeros k⟩
  have hzero : Digits ['0'] := by simp [Digits]
  have hread := decimal?_of_point hall hzero (by simp [hne]) stops_nil
  have hvalue : 10 * (10 ^ k * Nat.ofDigitChars 10 digits 0)
      = Nat.ofDigitChars 10 digits 0 * 10 ^ (k + 1) := by ring
  simpa [exponent?, Nat.ofDigitChars_append, Nat.ofDigitChars_cons, hvalue] using hread

/-- The point among the digits. -/
theorem decimal?_take_drop {k : Nat} (hk : 0 < k) (hlt : k < digits.length)
    (ht : Stops Char.isDigit t) :
    decimal? (digits.take k ++ '.' :: digits.drop k ++ t) = (exponent? t).map fun e =>
      ⟨Nat.ofDigitChars 10 digits 0, e - (digits.length - k : Nat)⟩ := by
  have htake : Digits (digits.take k) := fun c hc => hdigits c (List.mem_of_mem_take hc)
  have hdrop : Digits (digits.drop k) := fun c hc => hdigits c (List.mem_of_mem_drop hc)
  have hne : digits.take k ≠ [] := by
    rw [ne_eq, List.take_eq_nil_iff]
    rintro (rfl | rfl)
    · exact absurd hk (by decide)
    · exact absurd hlt (by simp)
  rw [decimal?_of_point htake hdrop hne ht, List.take_append_drop, List.length_drop]

/-- Digits without an exponent are read as a decimal that rounds as they do. -/
theorem exists_decimal?_plain (hne : digits ≠ []) (e : Int) :
    ∃ d, decimal? (plain digits (digits.length + e)) = some d ∧
      d.code = (⟨Nat.ofDigitChars 10 digits 0, e⟩ : Decimal).code := by
  have hlength := List.length_pos_iff.2 hne
  rw [plain]
  split
  case isTrue hleft =>
    refine ⟨_, decimal?_zeros_append hdigits _, ?_⟩
    congr
    omega
  case isFalse hleft =>
    split
    case isTrue hright =>
      refine ⟨_, decimal?_append_zeros hdigits hne _, ?_⟩
      rw [← Decimal.code_shift _ _ e]
      congr
      omega
    case isFalse hright =>
      have hread := decimal?_take_drop (t := []) hdigits
        (show 0 < (digits.length + e).toNat by omega) (by omega) stops_nil
      rw [List.append_nil, exponent?, Option.map_some] at hread
      refine ⟨_, hread, ?_⟩
      congr
      omega

/-- Digits with an exponent are read as they are. -/
theorem decimal?_scientific (hne : digits ≠ []) (e : Int) :
    decimal? (scientific digits (digits.length + e - 1)) =
      some ⟨Nat.ofDigitChars 10 digits 0, e⟩ := by
  have hlength := List.length_pos_iff.2 hne
  have hstop (n : Int) : Stops Char.isDigit ('e' :: whole n) := stops_cons.2 (by decide)
  rw [scientific]
  split
  case isTrue hone =>
    rw [List.take_of_length_le hone, List.append_nil, decimal?_of_digits hdigits hne (hstop _)
      (by simp), exponent?_whole, Option.map_some]
    congr
    omega
  case isFalse hone =>
    rw [decimal?_take_drop hdigits (by decide) (by omega) (hstop _), exponent?_whole,
      Option.map_some]
    congr
    omega

end Layouts

/-- **The text of a decimal is read as a decimal that rounds alike.** -/
theorem exists_decimal?_ofDecimal (d : Decimal) :
    ∃ d', decimal? (ofDecimal d) = some d' ∧ d'.code = d.code := by
  have hdigits := digits_toDigits d.significand
  have hne : Nat.toDigits 10 d.significand ≠ [] := Nat.toDigits_ne_nil
  have hvalue : Nat.ofDigitChars 10 (Nat.toDigits 10 d.significand) 0 = d.significand :=
    Nat.ofDigitChars_ten_toDigits
  rw [ofDecimal]
  split
  case isTrue =>
    obtain ⟨d', hread, hcode⟩ := exists_decimal?_plain hdigits hne d.exponent
    rw [hvalue] at hcode
    exact ⟨d', hread, hcode⟩
  case isFalse =>
    have hread := decimal?_scientific hdigits hne d.exponent
    rw [hvalue] at hread
    exact ⟨d, hread, rfl⟩

/-! ## Doubles -/

theorem exists_decimal?_ofCode {c : Nat} (h : c < Binary64.infinityCode) :
    ∃ d, decimal? (ofCode c) = some d ∧ d.code = c := by
  by_cases hzero : c = 0
  case pos =>
    refine ⟨⟨0, -1⟩, ?_, ?_⟩
    · rw [hzero]
      rfl
    · rw [hzero]
      rfl
  case neg =>
    obtain ⟨d, hread, hcode⟩ := exists_decimal?_ofDecimal (Decimal.shortest c)
    rw [ofCode, if_neg hzero, if_pos h]
    exact ⟨d, hread, hcode.trans (Decimal.code_shortest h)⟩

/-- A decimal that can be read has no sign. -/
theorem takeSign_of_decimal? {d : Decimal} (h : decimal? s = some d) :
    takeSign s = (false, s) := by
  rw [takeSign]
  · rintro _ rfl
    simp [decimal?] at h
  · rintro _ rfl
    simp [decimal?] at h

theorem toList_write {x : Float} (h : x.isFinite) :
    (write x).toList = (if (Binary64.ofFloat x).negative then ['-'] else [])
      ++ ofCode (Binary64.ofFloat x).code := by
  have hcode := (Binary64.code_lt_infinityCode_iff x).2 h
  rw [write, if_neg (by omega), String.toList_ofList]

/-- **The text of a finite double reads back as that double.** -/
theorem read_write {x : Float} (h : x.isFinite) : read (write x).toList = some x := by
  have hcode := (Binary64.code_lt_infinityCode_iff x).2 h
  obtain ⟨d, hread, hd⟩ := exists_decimal?_ofCode hcode
  have hsign : takeSign (write x).toList
      = ((Binary64.ofFloat x).negative, ofCode (Binary64.ofFloat x).code) := by
    rw [toList_write h]
    cases (Binary64.ofFloat x).negative with
    | false => exact takeSign_of_decimal? hread
    | true => rfl
  rw [read, hsign]
  dsimp only
  rw [hread, Option.map_some, Option.some_or, Decimal.toFloat, hd]
  exact congrArg some (Binary64.toFloat_ofFloat h)

end Numeral

end SceneText
