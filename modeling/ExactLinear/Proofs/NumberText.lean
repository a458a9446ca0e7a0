import ExactLinear.Number
import ExactLinear.Proofs.Reading
import Mathlib.Algebra.Order.Field.Basic
import Mathlib.Data.Nat.Prime.Basic
import Mathlib.Tactic.FieldSimp
import Mathlib.Tactic.NormNum.Prime

/-! Rationals as text and back. What is written for a number that is not negative is a number of the
grammar, written without blanks, and has the same value; a minus sign in front makes the rest. A
terminating decimal can be written only up to a number of places. -/
namespace ExactLinear.Rational

open Grammar
open Text (pad)

section Factors

theorem ne_zero_of_indivisible {factor rest : Int} (indivisible : ¬ factor ∣ rest) : rest ≠ 0 := by
  rintro rfl
  exact indivisible (dvd_zero factor)

theorem stripFactor_spec {factor n : Int} (hf : 2 ≤ factor) (hn : n ≠ 0) :
    n = factor ^ (stripFactor factor n).1 * (stripFactor factor n).2 ∧
      ¬ factor ∣ (stripFactor factor n).2 := by
  fun_induction stripFactor factor n with
  | case1 n divisible smaller count rest stripped ih =>
    have whole := Int.tdiv_mul_cancel (Int.dvd_of_tmod_eq_zero divisible.2.2)
    have quotient : n.tdiv factor ≠ 0 := by
      intro zero
      rw [zero, zero_mul] at whole
      exact hn whole.symm
    rw [stripped] at ih
    obtain ⟨equal, indivisible⟩ := ih quotient
    refine ⟨?_, indivisible⟩
    calc n = n.tdiv factor * factor := whole.symm
      _ = factor ^ (count + 1) * rest := by rw [equal, pow_succ]; ring
  | case2 n stuck =>
    refine ⟨by simp, fun divides => stuck ⟨hf, hn, ?_⟩⟩
    exact Int.tmod_eq_zero_of_dvd divides

theorem stripFactor_pow_mul {factor rest : Int} (hf : 2 ≤ factor) (indivisible : ¬ factor ∣ rest)
    (count : Nat) : stripFactor factor (factor ^ count * rest) = (count, rest) := by
  have nonzero := ne_zero_of_indivisible indivisible
  induction count with
  | zero =>
    rw [pow_zero, one_mul, stripFactor, dif_neg]
    rintro ⟨-, -, divided⟩
    exact indivisible (Int.dvd_of_tmod_eq_zero divided)
  | succ count ih =>
    have shape : factor ^ (count + 1) * rest = factor * (factor ^ count * rest) := by
      rw [pow_succ', mul_assoc]
    have divisible : 2 ≤ factor ∧ factor * (factor ^ count * rest) ≠ 0 ∧
        (factor * (factor ^ count * rest)).tmod factor = 0 :=
      ⟨hf, mul_ne_zero (by omega) (mul_ne_zero (pow_ne_zero count (by omega)) nonzero),
        Int.mul_tmod_right factor _⟩
    have once : (factor * (factor ^ count * rest)).tdiv factor = factor ^ count * rest :=
      Int.mul_tdiv_cancel_left _ (by omega)
    rw [shape, stripFactor, dif_pos divisible]
    simp only [once, ih]

/-- The exponents of two and five are found exactly if there are no other prime factors. -/
theorem decimalExponents?_eq_some_iff {den twos fives : Nat} :
    decimalExponents? den = some (twos, fives) ↔ den = 2 ^ twos * 5 ^ fives := by
  constructor
  · intro found
    have positive : (den : Int) ≠ 0 := by
      intro zero
      simp [decimalExponents?, zero, stripFactor] at found
    obtain ⟨whole, odd⟩ := stripFactor_spec (Int.le_refl 2) positive
    obtain ⟨oddPart, -⟩ :=
      stripFactor_spec (show (2 : Int) ≤ 5 by decide) (ne_zero_of_indivisible odd)
    simp only [decimalExponents?, Option.ite_none_right_eq_some, Option.some.injEq,
      Prod.mk.injEq] at found
    obtain ⟨rest, rfl, rfl⟩ := found
    rw [rest, mul_one] at oddPart
    rw [oddPart] at whole
    exact_mod_cast whole
  · rintro rfl
    have odd : ¬ (2 : Int) ∣ 5 ^ fives := by
      intro even
      have divides : 2 ∣ 5 ^ fives := by exact_mod_cast even
      have := Nat.prime_two.dvd_of_dvd_pow divides
      omega
    have two : stripFactor 2 ((2 ^ twos * 5 ^ fives : Nat) : Int) = (twos, 5 ^ fives) := by
      push_cast
      exact stripFactor_pow_mul (Int.le_refl 2) odd twos
    have five : stripFactor 5 ((5 : Int) ^ fives) = (fives, 1) := by
      have indivisible : ¬ (5 : Int) ∣ 1 := by decide
      simpa using stripFactor_pow_mul (by decide) indivisible fives
    simp only [decimalExponents?, two, five, if_true]

theorem dvd_ten_pow_iff {twos fives places : Nat} :
    2 ^ twos * 5 ^ fives ∣ 10 ^ places ↔ max twos fives ≤ places := by
  have ten : 10 ^ places = 2 ^ places * 5 ^ places := by rw [← Nat.mul_pow]
  have apart (a b : Nat) : Nat.Coprime (2 ^ a) (5 ^ b) := Nat.Coprime.pow a b (by decide)
  rw [ten, Nat.max_le]
  constructor
  · intro divides
    constructor
    · have two := (apart twos places).dvd_of_dvd_mul_right ((Nat.dvd_mul_right _ _).trans divides)
      exact (Nat.pow_dvd_pow_iff_le_right (by decide)).mp two
    · have five := (apart places fives).symm.dvd_of_dvd_mul_left
        ((Nat.dvd_mul_left _ _).trans divides)
      exact (Nat.pow_dvd_pow_iff_le_right (by decide)).mp five
  · rintro ⟨two, five⟩
    exact Nat.mul_dvd_mul (Nat.pow_dvd_pow 2 two) (Nat.pow_dvd_pow 5 five)

theorem exists_eq_of_dvd_ten_pow {den places : Nat} (divides : den ∣ 10 ^ places) :
    ∃ twos fives, den = 2 ^ twos * 5 ^ fives := by
  have ten : 10 ^ places = 2 ^ places * 5 ^ places := by rw [← Nat.mul_pow]
  rw [ten] at divides
  obtain ⟨left, right, two, five, rfl⟩ := Nat.dvd_mul.mp divides
  obtain ⟨twos, -, rfl⟩ := (Nat.dvd_prime_pow Nat.prime_two).mp two
  obtain ⟨fives, -, rfl⟩ := (Nat.dvd_prime_pow Nat.prime_five).mp five
  exact ⟨twos, fives, rfl⟩

theorem exists_decimalExponents?_iff {den : Nat} :
    (∃ exponents, decimalExponents? den = some exponents) ↔ ∃ places, den ∣ 10 ^ places := by
  constructor
  · rintro ⟨⟨twos, fives⟩, found⟩
    rw [decimalExponents?_eq_some_iff.mp found]
    exact ⟨max twos fives, dvd_ten_pow_iff.mpr (Nat.le_refl _)⟩
  · rintro ⟨places, divides⟩
    obtain ⟨twos, fives, equal⟩ := exists_eq_of_dvd_ten_pow divides
    exact ⟨(twos, fives), decimalExponents?_eq_some_iff.mpr equal⟩

end Factors

/-- If the value has a terminating decimal at all, then one with no more than 65534 places. -/
def Writable (r : Rat) : Prop := (∃ places, r.den ∣ 10 ^ places) → r.den ∣ 10 ^ 65534

theorem fitsField_iff (r : Rat) : fitsField r ↔ Writable r := by
  unfold fitsField decimalWidth Writable
  rw [← exists_decimalExponents?_iff]
  cases found : decimalExponents? r.den with
  | some exponents =>
    rw [imp_iff_right ⟨exponents, rfl⟩, decimalExponents?_eq_some_iff.mp found, dvd_ten_pow_iff,
      decide_eq_true_iff]
    exact Nat.succ_le_succ_iff
  | none =>
    refine iff_of_true rfl ?_
    rintro ⟨exponents, impossible⟩
    contradiction

/-- The decimal of `1 / 2 ^ places` has just that many places. -/
theorem writable_inv_two_pow_iff (places : Nat) :
    Writable ((2 ^ places : Nat) : Rat)⁻¹ ↔ places ≤ 65534 := by
  have den : (((2 ^ places : Nat) : Rat)⁻¹).den = 2 ^ places * 5 ^ 0 := by
    rw [Rat.inv_natCast_den, if_neg (Nat.two_pow_pos places).ne', pow_zero, mul_one]
  have terminates : ∃ k, (((2 ^ places : Nat) : Rat)⁻¹).den ∣ 10 ^ k :=
    ⟨places, den ▸ dvd_ten_pow_iff.mpr (by simp)⟩
  rw [Writable, imp_iff_right terminates, den, dvd_ten_pow_iff, Nat.max_zero]

section Digits

theorem ofDigits_append (ds es : List Char) : Integer.ofDigits (ds ++ es) =
    Integer.ofDigits ds * 10 ^ es.length + Integer.ofDigits es := by
  unfold Integer.ofDigits
  rw [Nat.ofDigitChars_append, Nat.ofDigitChars_eq_ofDigitChars_zero, Nat.mul_comm]

theorem isDigit_of_mem_digits {n : Nat} {c : Char} (member : c ∈ Integer.digits n) : c.isDigit :=
  Nat.isDigit_of_mem_toDigits (by decide) (by decide) member

theorem pad_right (width : Nat) (ds : List Char) :
    pad .right '0' width ds = List.replicate (width - ds.length) '0' ++ ds := by
  simp [pad, Text.Alignment.before]

theorem ofDigits_pad (width : Nat) (ds : List Char) :
    Integer.ofDigits (pad .right '0' width ds) = Integer.ofDigits ds := by
  have zeros : Integer.ofDigits (List.replicate (width - ds.length) '0') = 0 := by
    rw [Integer.ofDigits, Nat.ofDigitChars_replicate_zero, Nat.mul_zero]
  rw [pad_right, ofDigits_append, zeros, Nat.zero_mul, Nat.zero_add]

theorem isDigit_of_mem_pad {width : Nat} {ds : List Char} (digit : ∀ c ∈ ds, c.isDigit)
    {c : Char} (member : c ∈ pad .right '0' width ds) : c.isDigit := by
  rw [pad_right, List.mem_append] at member
  rcases member with zero | inner
  · rw [List.eq_of_mem_replicate zero]
    rfl
  · exact digit c inner

end Digits

def natural (n : Nat) : Natural where
  digits := Integer.digits n
  nonempty := Nat.toDigits_ne_nil
  isDigit := fun _ => isDigit_of_mem_digits

@[simp] theorem value_natural (n : Nat) : (natural n).value = n := by
  rw [← Natural.ofDigits_eq_value]
  exact Integer.ofDigits_digits n

/-- Digits in front of a point and, where there are any, behind it. -/
structure Decimal where
  whole : Natural
  places : List Char
  isDigit : ∀ c ∈ places, c.isDigit

namespace Decimal

/-- Without digits behind it no point is written. -/
def chars (d : Decimal) : List Char :=
  if d.places = [] then d.whole.digits else d.whole.digits ++ '.' :: d.places

def value (d : Decimal) : Rat :=
  d.whole.value + Integer.ofDigits d.places / 10 ^ d.places.length

/-- In the grammar a decimal is one token. -/
theorem exists_number (d : Decimal) : ∃ v : Number, v.value = d.value ∧ v.tokens = [d.chars] := by
  by_cases none : d.places = []
  · refine ⟨.natural d.whole, ?_, by simp [Number.tokens, chars, none]⟩
    simp [Number.value, value, none, Integer.ofDigits]
  · refine ⟨.decimal d.whole ⟨d.places, none, d.isDigit⟩, ?_, by simp [Number.tokens, chars, none]⟩
    simp [Number.value, value, ← Natural.ofDigits_eq_value]

end Decimal

/-- The point divides the padded digits, with at least one in front, and shifts their value. -/
theorem exists_decimal_placePoint {ds : List Char} (digit : ∀ c ∈ ds, c.isDigit) (places : Nat) :
    ∃ d : Decimal, d.chars = placePoint places ds ∧
      d.value = (Integer.ofDigits ds : Rat) / 10 ^ places ∧ d.places.length = places ∧
      d.whole.digits ++ d.places = pad .right '0' (places + 1) ds := by
  have digits : ∀ c ∈ pad .right '0' (places + 1) ds, c.isDigit := fun c => isDigit_of_mem_pad digit
  have length := Text.length_pad .right '0' (places + 1) ds
  have same := ofDigits_pad (places + 1) ds
  unfold placePoint
  generalize pad .right '0' (places + 1) ds = padded at digits length same
  let d : Decimal :=
    { whole :=
        { digits := padded.take (padded.length - places)
          nonempty := List.ne_nil_of_length_pos (by rw [List.length_take]; omega)
          isDigit := fun c member => digits c (List.mem_of_mem_take member) }
      places := padded.drop (padded.length - places)
      isDigit := fun c member => digits c (List.mem_of_mem_drop member) }
  have joined : d.whole.digits ++ d.places = padded := List.take_append_drop _ _
  have behind : d.places.length = places := by
    simp only [d, List.length_drop]
    omega
  refine ⟨d, ?_, ?_, behind, joined⟩
  · cases places with
    | zero => simp [Decimal.chars, d]
    | succ places =>
      have some : d.places ≠ [] := List.ne_nil_of_length_pos (by omega)
      simp [Decimal.chars, some, d]
  · have parts := ofDigits_append d.whole.digits d.places
    rw [joined, same, behind] at parts
    rw [Decimal.value, parts, behind, ← Natural.ofDigits_eq_value]
    push_cast
    field_simp

theorem mul_decimalScale (twos fives : Nat) :
    2 ^ twos * 5 ^ fives * decimalScale twos fives = 10 ^ max twos fives := by
  unfold decimalScale
  split
  · rename_i fewer
    have two : 2 ^ fives = 2 ^ twos * 2 ^ (fives - twos) := by
      rw [← Nat.pow_add, Nat.add_sub_of_le fewer.le]
    rw [Nat.max_eq_right fewer.le, show (10 : Nat) = 2 * 5 from rfl, Nat.mul_pow, two, Nat.pow_eq]
    ring
  · rename_i notFewer
    have five : 5 ^ twos = 5 ^ fives * 5 ^ (twos - fives) := by
      rw [← Nat.pow_add, Nat.add_sub_of_le (Nat.le_of_not_lt notFewer)]
    rw [Nat.max_eq_left (Nat.le_of_not_lt notFewer), show (10 : Nat) = 2 * 5 from rfl, Nat.mul_pow,
      five, Nat.pow_eq]
    ring

section Written

variable {r : Rat}

theorem natAbs_num_div_den (r : Rat) : (r.num.natAbs : Rat) / r.den = |r| := by
  rw [Nat.cast_natAbs, Int.cast_abs, ← Nat.abs_cast r.den, ← abs_div, Rat.num_div_den]

/-- The digits that are written are those of the number without its point and sign. -/
theorem abs_eq_scaled {twos fives : Nat} (den : r.den = 2 ^ twos * 5 ^ fives) :
    |r| = ((r.num.natAbs * decimalScale twos fives : Nat) : Rat) / 10 ^ max twos fives := by
  have scaled : (r.den : Rat) * decimalScale twos fives = 10 ^ max twos fives := by
    rw [den]
    exact_mod_cast mul_decimalScale twos fives
  have nonzero : (decimalScale twos fives : Rat) ≠ 0 := by
    intro zero
    rw [zero, mul_zero] at scaled
    exact pow_ne_zero _ (by decide) scaled.symm
  rw [← scaled, Nat.cast_mul, mul_div_mul_right _ _ nonzero, natAbs_num_div_den]

theorem exists_number_partsChars (notNegative : 0 ≤ r) :
    ∃ v : Number, v.value = r ∧ v.tokens.flatten = partsChars r := by
  have sign : ¬ r.num < 0 := not_lt.mpr (Rat.num_nonneg.mpr notNegative)
  refine ⟨.fraction (natural r.num.natAbs) (natural r.den) (by simp), ?_, ?_⟩
  · simp only [Number.value, value_natural]
    rw [natAbs_num_div_den, abs_of_nonneg notNegative]
  · simp [Number.tokens, partsChars, Integer.chars, natural, sign]

theorem exists_number_decimalChars (notNegative : 0 ≤ r) :
    ∃ v : Number, v.value = r ∧ v.tokens.flatten = decimalChars r := by
  unfold decimalChars decimalChars?
  cases found : decimalExponents? r.den with
  | none => exact exists_number_partsChars notNegative
  | some exponents =>
    obtain ⟨twos, fives⟩ := exponents
    have den := decimalExponents?_eq_some_iff.mp found
    have sign : ¬ r.num < 0 := not_lt.mpr (Rat.num_nonneg.mpr notNegative)
    obtain ⟨d, text, shifted, -⟩ := exists_decimal_placePoint
      (fun _ => isDigit_of_mem_digits (n := r.num.natAbs * decimalScale twos fives))
      (max twos fives)
    obtain ⟨v, value, tokens⟩ := d.exists_number
    refine ⟨v, ?_, by simp [tokens, text, sign]⟩
    rw [value, shifted, Integer.ofDigits_digits, ← abs_eq_scaled den, abs_of_nonneg notNegative]

theorem exists_number_fractionChars (notNegative : 0 ≤ r) :
    ∃ v : Number, v.value = r ∧ v.tokens.flatten = fractionChars r := by
  unfold fractionChars
  split
  · rename_i whole
    have sign : ¬ r.num < 0 := not_lt.mpr (Rat.num_nonneg.mpr notNegative)
    refine ⟨.natural (natural r.num.natAbs), ?_, ?_⟩
    · have value := natAbs_num_div_den r
      rw [whole, Nat.cast_one, div_one, abs_of_nonneg notNegative] at value
      simpa [Number.value] using value
    · simp [Number.tokens, Integer.chars, natural, sign]
  · exact exists_number_partsChars notNegative

theorem chars_num_of_neg (negative : r < 0) :
    Integer.chars r.num = '-' :: Integer.chars (-r).num := by
  have below : r.num < 0 := Rat.num_neg.mpr negative
  rw [Integer.chars, if_pos below, Rat.neg_num, Integer.chars, if_neg (by omega),
    Int.natAbs_neg]

theorem partsChars_of_neg (negative : r < 0) : partsChars r = '-' :: partsChars (-r) := by
  rw [partsChars, partsChars, chars_num_of_neg negative, Rat.neg_den, List.cons_append]

theorem fractionChars_of_neg (negative : r < 0) :
    fractionChars r = '-' :: fractionChars (-r) := by
  unfold fractionChars
  rw [Rat.neg_den, chars_num_of_neg negative, partsChars_of_neg negative]
  split <;> rfl

theorem decimalChars_of_neg (negative : r < 0) : decimalChars r = '-' :: decimalChars (-r) := by
  unfold decimalChars decimalChars?
  rw [Rat.neg_den, partsChars_of_neg negative]
  cases decimalExponents? r.den with
  | none => rfl
  | some exponents =>
    have below : r.num < 0 := Rat.num_neg.mpr negative
    simp only [Option.map_some, Option.getD_some, Rat.neg_num, Int.natAbs_neg]
    rw [if_pos below, if_neg (by omega)]

theorem longRun_decimalChars_magnitude (r : Rat) :
    LongRun (decimalChars (magnitude r)) ↔ LongRun (decimalChars r) := by
  unfold magnitude
  split
  · rename_i negative
    rw [decimalChars_of_neg negative, longRun_cons_iff rfl]
  · rfl

theorem not_longRun_decimalChars_one : ¬ LongRun (decimalChars 1) := by
  have text : decimalChars 1 = ['1'] := by decide +kernel
  rw [text]
  exact not_longRun_of_length_le (by decide)

/-- As a fraction, one over a power of two has hardly more digits than the exponent says. -/
theorem not_longRun_fractionChars_inv_two_pow {places : Nat} (few : places < Reader.mostDigits) :
    ¬ LongRun (fractionChars ((2 ^ places : Nat) : Rat)⁻¹) := by
  have num : (((2 ^ places : Nat) : Rat)⁻¹).num = 1 := by
    rw [Rat.inv_natCast_num, Int.sign_eq_one_of_pos]
    exact_mod_cast Nat.two_pow_pos places
  have den : (((2 ^ places : Nat) : Rat)⁻¹).den = 2 ^ places := by
    rw [Rat.inv_natCast_den, if_neg (Nat.two_pow_pos places).ne']
  have one : ¬ LongRun (Integer.chars 1) := not_longRun_of_length_le (by decide)
  have length : (Integer.digits (2 ^ places)).length ≤ places + 1 := by
    apply (Nat.length_toDigits_le_iff (by decide) (Nat.succ_pos places)).mpr
    calc 2 ^ places ≤ 10 ^ places := Nat.pow_le_pow_left (by decide) places
      _ < 10 ^ (places + 1) := Nat.pow_lt_pow_right (by decide) (Nat.lt_succ_self places)
  unfold fractionChars
  split
  · rwa [num]
  · rw [partsChars, num, den, longRun_append_cons_iff rfl, not_or]
    exact ⟨one, not_longRun_of_length_le (length.trans few)⟩

/-- The number can be written, and the digits of its text can be counted. -/
def Legible (r : Rat) : Prop := Writable r ∧ ¬ LongRun (decimalChars r)

end Written

end ExactLinear.Rational
