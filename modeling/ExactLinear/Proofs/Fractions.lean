import ExactLinear.Number
import ExactLinear.Proofs.PivotChoice
import Mathlib.Algebra.Order.Field.Basic
import Mathlib.Algebra.Order.Field.Rat
import Mathlib.Tactic.FieldSimp

/-! Arithmetic on fractions, told by the integers that they were built from. Many pairs of integers
stand for one number; whatever the pair, building it gives the same parts, in lowest terms, and an
operation gives what its school rule gives on any of the pairs. -/
namespace ExactLinear.Rational

/-- The number is what `num` over `den` is built to: of the same value, with a positive denominator
that has no factor in common with the numerator. -/
structure Reduces (num den : Int) (r : Rat) : Prop where
  built : ofParts num den = .ok r
  value : r.num * den = num * r.den
  positive : 0 < r.den
  coprime : r.num.natAbs.Coprime r.den
  zero : num = 0 → r.num = 0 ∧ r.den = 1

/-- The sign of the denominator moves to the numerator and changes nothing. -/
theorem mkRat_signed (num den : Int) :
    mkRat (if den < 0 then -num else num) den.natAbs = (num : Rat) / den := by
  rw [Rat.mkRat_eq_div, Nat.cast_natAbs]
  split
  · rename_i negative
    rw [abs_of_neg negative, Int.cast_neg, Int.cast_neg, neg_div_neg_eq]
  · rename_i notNegative
    rw [abs_of_nonneg (not_lt.mp notNegative)]

theorem ofParts_eq_ok_iff {num den : Int} {r : Rat} :
    ofParts num den = .ok r ↔ den ≠ 0 ∧ r = num / den := by
  by_cases zero : den = 0
  · simp [ofParts, zero]
  · simp [ofParts, zero, mkRat_signed, eq_comm]

theorem reduces_iff {num den : Int} {r : Rat} :
    Reduces num den r ↔ den ≠ 0 ∧ r = (num : Rat) / den := by
  constructor
  · intro reduces
    exact ofParts_eq_ok_iff.1 reduces.built
  · rintro ⟨nonzero, equal⟩
    refine ⟨ofParts_eq_ok_iff.2 ⟨nonzero, equal⟩, ?_, r.den_pos, r.reduced, ?_⟩
    · have bottom : (den : Rat) ≠ 0 := by exact_mod_cast nonzero
      have parts := r.num_div_den.trans equal
      rw [div_eq_div_iff (by exact_mod_cast r.den_ne_zero) bottom] at parts
      exact_mod_cast parts
    · rintro rfl
      simp [equal]

/-- Every number is built from its own parts, so what holds for built numbers holds for all. -/
theorem reduces_self (r : Rat) : Reduces r.num r.den r :=
  reduces_iff.2 ⟨by exact_mod_cast r.den_ne_zero, by simp [Rat.num_div_den]⟩

theorem exists_reduces (num : Int) {den : Int} (nonzero : den ≠ 0) : ∃ r, Reduces num den r :=
  ⟨num / den, reduces_iff.2 ⟨nonzero, rfl⟩⟩

theorem reduces_ofInt (n : Int) : Reduces n 1 (ofInt n) :=
  reduces_iff.2 ⟨one_ne_zero, by simp [ofInt]⟩

/-- Machine words are fractions like any others, also where one of them has no negative. -/
theorem exists_ofWords (num den : Int64) (nonzero : den ≠ 0) :
    ∃ r, ofWords num den = .ok r ∧ Reduces num.toInt den.toInt r := by
  have bottom : den.toInt ≠ 0 := by
    intro zero
    exact nonzero (Int64.toInt_inj.mp zero)
  exact ⟨_, if_neg nonzero, reduces_iff.2 ⟨bottom, rfl⟩⟩

namespace Reduces

variable {p q r s : Int} {a b : Rat}

theorem den_ne_zero (left : Reduces p q a) : (q : Rat) ≠ 0 := by
  exact_mod_cast (reduces_iff.1 left).1

theorem eq_div (left : Reduces p q a) : a = (p : Rat) / q := (reduces_iff.1 left).2

theorem eq_iff (left : Reduces p q a) (right : Reduces r s b) : a = b ↔ p * s = r * q := by
  rw [left.eq_div, right.eq_div, div_eq_div_iff left.den_ne_zero right.den_ne_zero]
  exact_mod_cast Iff.rfl

theorem add (left : Reduces p q a) (right : Reduces r s b) :
    Reduces (p * s + r * q) (q * s) (a + b) := by
  refine reduces_iff.2 ⟨by exact_mod_cast mul_ne_zero left.den_ne_zero right.den_ne_zero, ?_⟩
  rw [left.eq_div, right.eq_div, div_add_div _ _ left.den_ne_zero right.den_ne_zero]
  push_cast
  rw [mul_comm (q : Rat) r]

theorem neg (left : Reduces p q a) : Reduces (-p) q (-a) := by
  refine reduces_iff.2 ⟨(reduces_iff.1 left).1, ?_⟩
  rw [left.eq_div, Int.cast_neg, neg_div]

theorem sub (left : Reduces p q a) (right : Reduces r s b) :
    Reduces (p * s - r * q) (q * s) (a - b) := by
  have sum := left.add right.neg
  rwa [neg_mul, ← sub_eq_add_neg, ← sub_eq_add_neg] at sum

theorem mul (left : Reduces p q a) (right : Reduces r s b) : Reduces (p * r) (q * s) (a * b) := by
  refine reduces_iff.2 ⟨by exact_mod_cast mul_ne_zero left.den_ne_zero right.den_ne_zero, ?_⟩
  rw [left.eq_div, right.eq_div, div_mul_div_comm]
  push_cast
  rfl

theorem magnitude (left : Reduces p q a) : Reduces |p| |q| (magnitude a) := by
  refine reduces_iff.2 ⟨abs_ne_zero.mpr (reduces_iff.1 left).1, ?_⟩
  rw [magnitude_eq_abs, left.eq_div, abs_div, Int.cast_abs, Int.cast_abs]

theorem eq_zero_iff (left : Reduces p q a) : a = 0 ↔ p = 0 := by
  rw [left.eq_div, div_eq_zero_iff, or_iff_left left.den_ne_zero]
  exact_mod_cast Iff.rfl

theorem inv (right : Reduces r s b) (nonzero : r ≠ 0) : Reduces s r b⁻¹ :=
  reduces_iff.2 ⟨nonzero, by rw [right.eq_div, inv_div]⟩

theorem div (left : Reduces p q a) (right : Reduces r s b) (nonzero : r ≠ 0) :
    Reduces (p * s) (q * r) (a / b) := by
  rw [div_eq_mul_inv]
  exact left.mul (right.inv nonzero)

/-- Both forms of division agree, unless there is nothing to divide by. -/
theorem exists_divide (left : Reduces p q a) (right : Reduces r s b) (nonzero : r ≠ 0) :
    ∃ c, divide a b = .ok c ∧ divideChecked a b = .ok c ∧ Reduces (p * s) (q * r) c := by
  have divisor : b ≠ 0 := mt right.eq_zero_iff.mp nonzero
  exact ⟨a / b, if_neg divisor, if_neg divisor, left.div right nonzero⟩

theorem exists_reciprocal (right : Reduces r s b) (nonzero : r ≠ 0) :
    ∃ c, reciprocal b = .ok c ∧ reciprocalChecked b = .ok c ∧ Reduces s r c := by
  have divisor : b ≠ 0 := mt right.eq_zero_iff.mp nonzero
  exact ⟨b⁻¹, if_neg divisor, if_neg divisor, right.inv nonzero⟩

/-- The difference and the integer that tells the order differ by a positive factor only. -/
theorem order_eq (left : Reduces p q a) (right : Reduces r s b) :
    order a b = compare ((p * s - r * q) * q * s) 0 := by
  have scaled : (((p * s - r * q) * q * s : Int) : Rat) = (a - b) * ((q : Rat) * s) ^ 2 := by
    have first := left.den_ne_zero
    have second := right.den_ne_zero
    rw [left.eq_div, right.eq_div]
    push_cast
    field_simp
  have factor : 0 < ((q : Rat) * s) ^ 2 :=
    sq_pos_of_ne_zero (mul_ne_zero left.den_ne_zero right.den_ne_zero)
  unfold order
  rcases lt_trichotomy a b with less | equal | greater
  · have below : (p * s - r * q) * q * s < 0 := by
      have product := mul_neg_of_neg_of_pos (sub_neg.mpr less) factor
      rw [← scaled] at product
      exact_mod_cast product
    rw [if_pos less, compare_lt_iff_lt.mpr below]
  · have vanishes : (p * s - r * q) * q * s = 0 := by
      rw [sub_eq_zero.mpr equal, zero_mul] at scaled
      exact_mod_cast scaled
    rw [if_neg equal.not_lt, if_pos equal, compare_eq_iff_eq.mpr vanishes]
  · have above : (p * s - r * q) * q * s > 0 := by
      have product := mul_pos (sub_pos.mpr greater) factor
      rw [← scaled] at product
      exact_mod_cast product
    rw [if_neg greater.not_gt, if_neg greater.ne', compare_gt_iff_gt.mpr above]

end Reduces

/-- Arithmetic on numbers that are built from integers follows the rules for fractions, whatever
signs and common factors the integers have: each result is what the rule's own integers are built
to. Cross products tell whether two numbers are the same, and with the sign of the denominators
which one is less. -/
theorem arithmetic_of_parts (p q r s : Int) (hq : q ≠ 0) (hs : s ≠ 0) :
    (∀ x : Rat, Reduces x.num x.den x) ∧ (∀ n, Reduces n 1 (ofInt n)) ∧
    (∀ num den : Int64, den ≠ 0 →
      ∃ c, ofWords num den = .ok c ∧ Reduces num.toInt den.toInt c) ∧
    ∃ a b, Reduces p q a ∧ Reduces r s b ∧ (a = b ↔ p * s = r * q) ∧
      Reduces (p * s + r * q) (q * s) (a + b) ∧
      Reduces (p * s - r * q) (q * s) (a - b) ∧
      Reduces (p * r) (q * s) (a * b) ∧
      Reduces (-p) q (-a) ∧
      Reduces |p| |q| (magnitude a) ∧
      (r ≠ 0 →
        (∃ c, divide a b = .ok c ∧ divideChecked a b = .ok c ∧ Reduces (p * s) (q * r) c) ∧
        ∃ c, reciprocal b = .ok c ∧ reciprocalChecked b = .ok c ∧ Reduces s r c) ∧
      order a b = compare ((p * s - r * q) * q * s) 0 := by
  obtain ⟨a, left⟩ := exists_reduces p hq
  obtain ⟨b, right⟩ := exists_reduces r hs
  exact ⟨reduces_self, reduces_ofInt, exists_ofWords, a, b, left, right, left.eq_iff right,
    left.add right, left.sub right, left.mul right, left.neg, left.magnitude,
    fun nonzero => ⟨left.exists_divide right nonzero, right.exists_reciprocal nonzero⟩,
    left.order_eq right⟩

/-- Signs in either place, common factors, and the word without a negative. -/
theorem arithmetic_of_parts_signs :
    (∃ a b, ofParts 6 (-4) = .ok a ∧ ofParts (-9) (-12) = .ok b ∧ a ≠ b ∧
      ofParts (-36) 48 = .ok (a + b) ∧ order a b = .lt ∧
      ∃ c, divide a b = .ok c ∧ ofParts (-72) 36 = .ok c) ∧
    ∃ c, ofWords Int64.minValue (-1) = .ok c ∧ ofParts (-2 ^ 63) (-1) = .ok c := by
  obtain ⟨-, -, words, a, b, left, right, same, sum, -, -, -, -, inverses, ordered⟩ :=
    arithmetic_of_parts 6 (-4) (-9) (-12) (by decide) (by decide)
  obtain ⟨⟨c, divided, -, quotient⟩, -⟩ := inverses (by decide)
  obtain ⟨d, word, built⟩ := words Int64.minValue (-1) (by decide)
  have different : a ≠ b := mt same.mp (by decide)
  exact ⟨⟨a, b, left.built, right.built, different, sum.built, ordered, c, divided,
    quotient.built⟩, d, word, built.built⟩

end ExactLinear.Rational
