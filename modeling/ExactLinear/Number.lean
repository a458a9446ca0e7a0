import ExactLinear.Fault
import ExactLinear.Text

/-!
# Numbers

Integers are `Int` and rationals `Rat`, which keeps every fraction in lowest terms over a positive
denominator. Here are the operations on them that can fail, and their texts.
-/

/-!
## Integers

The numbers are `Int`; here are the operations on them that can fail and their text. Division
rounds toward zero, so a remainder has the sign of the dividend.
-/

namespace ExactLinear

namespace Integer

open Text (pad widestField)

def quotient (a b : Int) : Except Fault Int :=
  if b = 0 then .error .zeroIntegerDivisor else .ok (a.tdiv b)

def remainder (a b : Int) : Except Fault Int :=
  if b = 0 then .error .zeroIntegerDivisor else .ok (a.tmod b)

def isMultiple (a b : Int) : Except Fault Bool :=
  (remainder a b).map (· == 0)

def gcd (a b : Int) : Int := Int.gcd a b

def toWord? (n : Int) : Option Int64 :=
  if Int64.minValue.toInt ≤ n ∧ n ≤ Int64.maxValue.toInt then some (Int64.ofInt n) else none

def order (a b : Int) : Ordering :=
  if a < b then .lt else if a = b then .eq else .gt

/-- Decimal digits, most significant first. -/
def digits (n : Nat) : List Char := Nat.toDigits 10 n

def ofDigits (ds : List Char) : Nat := Nat.ofDigitChars 10 ds 0

theorem ofDigits_digits (n : Nat) : ofDigits (digits n) = n :=
  Nat.ofDigitChars_toDigits (by decide) (by decide)

def chars (n : Int) : List Char :=
  if n < 0 then '-' :: digits n.natAbs else digits n.natAbs

def text (n : Int) : String := String.ofList (chars n)

def describe (n : Int) : String := "Integer(" ++ text n ++ ")"

inductive Layout where
  /-- The sign is written for zero and positive numbers too. -/
  | signed
  /-- Filled up to a width. -/
  | aligned (alignment : Text.Alignment) (fill : Char) (width : Nat)
  /-- Zeros up to a width, behind the sign. -/
  | zeros (width : Nat)
  deriving DecidableEq, Repr

def Layout.width : Layout → Nat
  | .signed => 0
  | .aligned _ _ width => width
  | .zeros width => width

def Layout.chars (n : Int) : Layout → List Char
  | .signed => if n < 0 then Integer.chars n else '+' :: digits n.natAbs
  | .aligned alignment fill width => pad alignment fill width (Integer.chars n)
  | .zeros width =>
    if n < 0 then '-' :: pad .right '0' (width - 1) (digits n.natAbs)
    else pad .right '0' width (digits n.natAbs)

def Layout.text (layout : Layout) (n : Int) : Except Fault String :=
  if layout.width ≤ widestField then .ok (String.ofList (layout.chars n))
  else .error .fieldTooWide

end Integer

/-!
## Rationals

The numbers are `Rat`, which keeps every fraction in lowest terms over a positive denominator.
Addition, subtraction and multiplication are those of `Rat`; here are the ways to build one
and the operations that zero can stop. Each of these comes in two forms: the checked one
answers with a `DivisionError`, the other takes a zero for a fault of the caller.
-/

inductive DivisionError where
  | divideByZero
  deriving DecidableEq, Repr

def DivisionError.message : DivisionError → String
  | .divideByZero => "division by zero"

namespace Rational

def ofParts (num den : Int) : Except DivisionError Rat :=
  if den = 0 then .error .divideByZero
  else .ok (mkRat (if den < 0 then -num else num) den.natAbs)

def ofWords (num den : Int64) : Except Fault Rat :=
  if den = 0 then .error .zeroDenominator else .ok ((num.toInt : Rat) / (den.toInt : Rat))

def ofInt (n : Int) : Rat := (n : Rat)

def reciprocal (r : Rat) : Except Fault Rat :=
  if r = 0 then .error .zeroReciprocal else .ok r⁻¹

def reciprocalChecked (r : Rat) : Except DivisionError Rat :=
  if r = 0 then .error .divideByZero else .ok r⁻¹

def divide (a b : Rat) : Except Fault Rat :=
  if b = 0 then .error .zeroDivisor else .ok (a / b)

def divideChecked (a b : Rat) : Except DivisionError Rat :=
  if b = 0 then .error .divideByZero else .ok (a / b)

def magnitude (r : Rat) : Rat := if r < 0 then -r else r

def sign (r : Rat) : Int := r.num.sign

def isInteger (r : Rat) : Bool := r.den == 1

def order (a b : Rat) : Ordering :=
  if a < b then .lt else if a = b then .eq else .gt

def greater (a b : Rat) : Rat := if a ≤ b then b else a

def lesser (a b : Rat) : Rat := if a ≤ b then a else b

def sort (values : List Rat) : List Rat := values.mergeSort fun a b => decide (a ≤ b)

end Rational

/-!
## Rationals as text

A rational has a terminating decimal exactly when its denominator has no prime factors but 2
and 5. Then the numerator, scaled so that the denominator becomes a power of ten, gives the
digits, and the point stands as many digits from the right as that power says. Every other
value is written as a fraction.

The digits of a decimal are set in a field, so one with too many places cannot be written.
-/

namespace Rational

open Text (pad widestField)

theorem natAbs_tdiv_lt {factor n : Int} (hf : 2 ≤ factor) (hn : n ≠ 0) :
    (n.tdiv factor).natAbs < n.natAbs := by
  rw [Int.natAbs_tdiv]
  exact Nat.div_lt_self (Int.natAbs_pos.2 hn) (by omega)

/-- Divides `factor` out of `n` as often as it goes: how often, and what is left. A factor below
two or `n = 0` could be divided out for ever and is left alone. -/
def stripFactor (factor n : Int) : Nat × Int :=
  if h : 2 ≤ factor ∧ n ≠ 0 ∧ n.tmod factor = 0 then
    have := natAbs_tdiv_lt h.1 h.2.1
    let (count, rest) := stripFactor factor (n.tdiv factor)
    (count + 1, rest)
  else (0, n)
termination_by n.natAbs
decreasing_by assumption

/-- The exponents of two and five in `den` when it has no other prime factors. -/
def decimalExponents? (den : Nat) : Option (Nat × Nat) :=
  let (twos, odd) := stripFactor 2 den
  let (fives, rest) := stripFactor 5 odd
  if rest = 1 then some (twos, fives) else none

/-- What turns a denominator of `twos` twos and `fives` fives into a power of ten. -/
def decimalScale (twos fives : Nat) : Nat :=
  if twos < fives then Nat.pow 2 (fives - twos) else Nat.pow 5 (twos - fives)

/-- Puts the point `places` digits from the right, with a digit at least in front of it. -/
def placePoint (places : Nat) (ds : List Char) : List Char :=
  let ds := pad .right '0' (places + 1) ds
  if places = 0 then ds
  else ds.take (ds.length - places) ++ '.' :: ds.drop (ds.length - places)

def decimalChars? (r : Rat) : Option (List Char) :=
  (decimalExponents? r.den).map fun (twos, fives) =>
    let scaled := r.num.natAbs * decimalScale twos fives
    let shown := placePoint (max twos fives) (Integer.digits scaled)
    if r.num < 0 then '-' :: shown else shown

def partsChars (r : Rat) : List Char := Integer.chars r.num ++ '/' :: Integer.digits r.den

def decimalChars (r : Rat) : List Char := (decimalChars? r).getD (partsChars r)

def fractionChars (r : Rat) : List Char :=
  if r.den = 1 then Integer.chars r.num else partsChars r

/-- The width of the field that the digits of a terminating decimal need: one for each place, and
one in front of the point. A fraction is set in no field. -/
def decimalWidth (r : Rat) : Nat :=
  match decimalExponents? r.den with
  | some (twos, fives) => max twos fives + 1
  | none => 0

def fitsField (r : Rat) : Bool := decimalWidth r ≤ widestField

def decimal (r : Rat) : Except Fault String :=
  if fitsField r then .ok (String.ofList (decimalChars r)) else .error .fieldTooWide

def fraction (r : Rat) : String := String.ofList (fractionChars r)

def describe (r : Rat) : String := "Rational(" ++ String.ofList (partsChars r) ++ ")"

end Rational

end ExactLinear
