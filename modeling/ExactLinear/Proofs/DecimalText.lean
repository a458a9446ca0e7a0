import ExactLinear.Proofs.Lookahead
import ExactLinear.Proofs.NumberText

/-! The text of a rational is exact and as short as it can be. A terminating decimal has just the
places that the number needs and no zero that could be left out at either end; any other number is
a fraction. Behind its sign either is a number of the grammar, so the text tells the number. -/
namespace ExactLinear

open Grammar
open Text (pad)

namespace Grammar.Number

def leading : Number → Natural
  | .natural n | .decimal n _ | .fraction n _ _ => n

def behind : Number → List Char
  | .natural _ => []
  | .decimal _ places => '.' :: places.digits
  | .fraction _ den _ => '/' :: den.digits

theorem flatten_tokens (v : Number) : v.tokens.flatten = v.leading.digits ++ v.behind := by
  cases v <;> simp [tokens, leading, behind]

theorem stops_behind (v : Number) : Stops Char.isDigit v.behind := by
  cases v <;> simp [Stops, behind]

/-- A number is known by its text, whether or not that can be read. -/
theorem value_eq_of_flatten_eq {v w : Number} (same : v.tokens.flatten = w.tokens.flatten) :
    v.value = w.value := by
  rw [flatten_tokens, flatten_tokens] at same
  have leading : v.leading.digits = w.leading.digits := by
    rw [← takeWhile_append_of_stops v.leading.isDigit v.stops_behind, same,
      takeWhile_append_of_stops w.leading.isDigit w.stops_behind]
  have behind : v.behind = w.behind := by
    rw [← dropWhile_append_of_stops v.leading.isDigit v.stops_behind, same,
      dropWhile_append_of_stops w.leading.isDigit w.stops_behind]
  cases v <;> cases w <;> simp_all [Number.leading, Number.behind, value, Natural.value]

end Grammar.Number

namespace Rational

section Places

/-- Only a multiple of the denominator clears it, as the numerator shares no factor with it. -/
theorem exists_int_eq_mul_iff (r : Rat) (m : Nat) : (∃ n : Int, r * m = n) ↔ r.den ∣ m := by
  constructor
  · rintro ⟨n, equal⟩
    have crossed : r.num * m = n * r.den := by
      have product : (r.num : Rat) * m = n * r.den := by
        rw [← equal, mul_right_comm, Rat.mul_den_eq_num]
      exact_mod_cast product
    have divides : r.den ∣ r.num.natAbs * m :=
      ⟨n.natAbs, by simpa [Int.natAbs_mul, Nat.mul_comm] using congrArg Int.natAbs crossed⟩
    exact r.reduced.symm.dvd_of_dvd_mul_left divides
  · rintro ⟨k, rfl⟩
    refine ⟨r.num * k, ?_⟩
    push_cast
    rw [← mul_assoc, Rat.mul_den_eq_num]

/-- No fewer places than the larger of the two exponents make the number whole. -/
theorem isLeast_places {r : Rat} {twos fives : Nat} (den : r.den = 2 ^ twos * 5 ^ fives) :
    IsLeast {places : Nat | ∃ n : Int, r * 10 ^ places = n} (max twos fives) := by
  have whole (places : Nat) : (∃ n : Int, r * 10 ^ places = n) ↔ max twos fives ≤ places := by
    have divides := exists_int_eq_mul_iff r (10 ^ places)
    rw [den, dvd_ten_pow_iff] at divides
    exact_mod_cast divides
  constructor
  · exact (whole _).mpr (Nat.le_refl _)
  · intro places enough
    exact (whole places).mp enough

end Places

section Digits

theorem ofDigits_lt {ds : List Char} (digit : ∀ c ∈ ds, c.isDigit) :
    Integer.ofDigits ds < 10 ^ ds.length := by
  induction ds with
  | nil => decide
  | cons c ds ih =>
    obtain ⟨first, others⟩ := List.forall_mem_cons.mp digit
    have low : Integer.ofDigits [c] ≤ 9 := by
      have := toNat_of_isDigit first
      simp [Integer.ofDigits, Nat.ofDigitChars_cons]
      omega
    have split := ofDigits_append [c] ds
    have := Nat.mul_le_mul_right (10 ^ ds.length) low
    have := ih others
    rw [List.singleton_append] at split
    rw [split, List.length_cons, pow_succ]
    omega

/-- The digits of a number begin with a zero only if that is all of them. -/
theorem digits_eq_of_head? {n : Nat} (zero : (Integer.digits n).head? = some '0') :
    Integer.digits n = ['0'] := by
  obtain ⟨others, shape⟩ := List.head?_eq_some_iff.mp zero
  by_cases none : others = []
  · rw [shape, none]
  · have small : n < 10 ^ others.length := by
      have value := ofDigits_append ['0'] others
      rw [List.singleton_append, ← shape, Integer.ofDigits_digits] at value
      have bound : Integer.ofDigits others < 10 ^ others.length := ofDigits_lt fun c member =>
        isDigit_of_mem_digits (n := n) (shape ▸ List.mem_cons_of_mem _ member)
      rw [value]
      simpa [Integer.ofDigits, Nat.ofDigitChars_cons] using bound
    have short := (Nat.length_toDigits_le_iff (by decide) (List.length_pos_iff.mpr none)).mpr small
    have length : (Nat.toDigits 10 n).length = others.length + 1 := congrArg List.length shape
    omega

/-- Padding brings a zero to the front only where it is the one digit there. -/
theorem front_eq_of_head? {n places : Nat} {front back : List Char}
    (joined : front ++ back = pad .right '0' (places + 1) (Integer.digits n))
    (behind : back.length = places) (zero : front.head? = some '0') : front = ['0'] := by
  obtain ⟨others, rfl⟩ := List.head?_eq_some_iff.mp zero
  by_cases none : others = []
  · rw [none]
  · have more := List.length_pos_iff.mpr none
    have length := congrArg List.length joined
    rw [Text.length_pad, List.length_append, List.length_cons, behind] at length
    rw [Text.pad_of_width_le (by omega)] at joined
    have single := digits_eq_of_head? (n := n) (by rw [← joined]; rfl)
    rw [single] at length
    simp only [List.length_singleton] at length
    omega

end Digits

namespace Decimal

/-- Neither end has a zero that could be left out. -/
structure Tight (d : Decimal) : Prop where
  front : d.whole.digits.head? = some '0' → d.whole.digits = ['0']
  back : d.places.getLast? ≠ some '0'

/-- Without a zero that could be left out, a number below one has a single zero in front. -/
theorem Tight.whole_eq {d : Decimal} (tight : d.Tight) (below : d.value < 1) :
    d.whole.digits = ['0'] := by
  have behind : 0 ≤ (Integer.ofDigits d.places : Rat) / 10 ^ d.places.length := by positivity
  have zero : d.whole.value = 0 := by
    have less : (d.whole.value : Rat) < 1 := lt_of_le_of_lt (le_add_of_nonneg_right behind) below
    have : d.whole.value < 1 := by exact_mod_cast less
    omega
  obtain ⟨c, tail, shape, -⟩ := d.whole.exists_cons
  have first : c = '0' := d.whole.eq_zero_of_value zero c (by simp [shape])
  exact tight.front (by simp [shape, first])

end Decimal

section Written

variable {r : Rat} {twos fives : Nat}

/-- A last place of zero would mean that one place less is enough. -/
theorem getLast?_ne_zero (den : r.den = 2 ^ twos * 5 ^ fives) {d : Decimal} (value : d.value = |r|)
    (count : d.places.length = max twos fives) : d.places.getLast? ≠ some '0' := by
  intro last
  obtain ⟨before, shape⟩ := List.getLast?_eq_some_iff.mp last
  have shifted : |r| * 10 ^ before.length =
      (d.whole.value * 10 ^ before.length + Integer.ofDigits before : Nat) := by
    have places : Integer.ofDigits d.places = Integer.ofDigits before * 10 := by
      rw [shape, ofDigits_append]
      rfl
    rw [← value, Decimal.value, places, shape, List.length_append, List.length_singleton]
    push_cast
    field_simp
    ring
  have whole : ∃ n : Int, r * 10 ^ before.length = n := by
    rcases abs_choice r with same | opposite
    · exact ⟨_, by rw [← same, shifted, Int.cast_natCast]⟩
    · exact ⟨-_, by rw [← neg_neg r, ← opposite, neg_mul, shifted, Int.cast_neg, Int.cast_natCast]⟩
  have enough := (isLeast_places den).2 whole
  rw [← count, shape, List.length_append, List.length_singleton] at enough
  omega

theorem exists_decimal (den : r.den = 2 ^ twos * 5 ^ fives) :
    ∃ d : Decimal, decimalChars r = (if r < 0 then ['-'] else []) ++ d.chars ∧ d.value = |r| ∧
      d.Tight ∧ d.places.length = max twos fives := by
  have found := decimalExponents?_eq_some_iff.mpr den
  obtain ⟨d, text, shifted, count, joined⟩ := exists_decimal_placePoint
    (fun _ => isDigit_of_mem_digits (n := r.num.natAbs * decimalScale twos fives)) (max twos fives)
  have value : d.value = |r| := by rw [shifted, Integer.ofDigits_digits, abs_eq_scaled den]
  refine ⟨d, ?_, value, ⟨front_eq_of_head? joined count, getLast?_ne_zero den value count⟩, count⟩
  have sign : r.num < 0 ↔ r < 0 := Rat.num_neg
  simp only [decimalChars, decimalChars?, found, Option.map_some, Option.getD_some, sign, text]
  split <;> rfl

end Written

section Reading

/-- The tokens of a number, written without blanks, are read as that number to the end. -/
theorem number_flatten (v : Number) :
    Reader.number v.tokens.flatten = counted v.naturals (v.value, []) := by
  have ends : Stops Char.isDigit [] := by simp [Stops]
  cases v with
  | natural n =>
    have tail : Reader.numberTail n.digits [] = .ok ((n.value : Rat), Text.skipBlanks []) := by
      rw [← n.ofDigits_eq_value]
      exact numberTail_whole n.digits (by simp [Stops]) (by simp [Stops, Text.skipBlanks])
    have read := (number_append n ends).trans (counted_bind_ok tail)
    simpa [Number.tokens, Number.naturals, Number.value, Text.skipBlanks] using read
  | decimal whole places =>
    have read := (number_append whole (by simp [Stops])).trans
      (counted_bind (decimalPlaces_complete whole places ends))
    simpa [Number.tokens, Number.naturals] using read
  | fraction num den nonzero =>
    have bar : Text.skipBlanks ('/' :: den.digits) = ['/'] ++ den.digits := rfl
    have tail := numberTail_bar num bar
    rw [skipBlanks_eq_of_stops den.solid.2, ← List.append_nil den.digits,
      denominator_complete num den nonzero ends] at tail
    have read := (number_append num (by simp [Stops])).trans (counted_bind tail)
    simpa [Number.tokens, Number.naturals] using read

theorem number_decimalChars {r : Rat} (notNegative : 0 ≤ r) :
    (∃ v : Number, v.tokens.flatten = decimalChars r ∧ v.value = r) ∧
      (¬ LongRun (decimalChars r) → Reader.number (decimalChars r) = .ok (r, [])) ∧
      (LongRun (decimalChars r) →
        Reader.number (decimalChars r) = .error (.fault .tooManyDigits)) := by
  obtain ⟨v, rfl, text⟩ := exists_number_decimalChars notNegative
  rw [← text, number_flatten, v.longRun_iff, not_not]
  exact ⟨⟨v, rfl, rfl⟩, fun all => counted_of_countable all _,
    fun some => counted_of_not_countable some _⟩

theorem decimalChars_injective : Function.Injective decimalChars := by
  -- no number begins with a minus sign
  have unsigned {r : Rat} (notNegative : 0 ≤ r) (cs : List Char) : decimalChars r ≠ '-' :: cs := by
    intro signed
    obtain ⟨v, -, text⟩ := exists_number_decimalChars notNegative
    obtain ⟨c, tail, first, digit⟩ := v.leading.exists_cons
    rw [v.flatten_tokens, first, signed] at text
    simp_all
  have same {a b : Rat} (first : 0 ≤ a) (second : 0 ≤ b)
      (equal : decimalChars a = decimalChars b) : a = b := by
    obtain ⟨v, rfl, text⟩ := exists_number_decimalChars first
    obtain ⟨w, rfl, other⟩ := exists_number_decimalChars second
    exact Number.value_eq_of_flatten_eq (text.trans (equal.trans other.symm))
  intro a b equal
  rcases lt_or_ge a 0 with first | first
  · rcases lt_or_ge b 0 with second | second
    · rw [decimalChars_of_neg first, decimalChars_of_neg second, List.cons.injEq] at equal
      exact neg_injective (same (neg_nonneg.mpr first.le) (neg_nonneg.mpr second.le) equal.2)
    · rw [decimalChars_of_neg first] at equal
      exact absurd equal.symm (unsigned second _)
  · rcases lt_or_ge b 0 with second | second
    · rw [decimalChars_of_neg second] at equal
      exact absurd equal (unsigned first _)
    · exact same first second equal

end Reading

theorem decimalChars_of_not_terminating {r : Rat}
    (endless : ¬ ∃ twos fives, r.den = 2 ^ twos * 5 ^ fives) : decimalChars r = partsChars r := by
  cases found : decimalExponents? r.den with
  | none => simp [decimalChars, decimalChars?, found]
  | some exponents =>
    exact absurd ⟨exponents.1, exponents.2, decimalExponents?_eq_some_iff.mp found⟩ endless

theorem decimal_eq_ok_iff (r : Rat) (text : String) :
    decimal r = .ok text ↔ Writable r ∧ text = String.ofList (decimalChars r) := by
  rw [← fitsField_iff]
  by_cases fits : fitsField r
  · simp [decimal, fits, eq_comm]
  · simp [decimal, fits]

/-- A number is written as its shortest decimal, which has the fewest places that make it whole, or
as a fraction if it has none. The text tells the number, and that of a number that is not negative
is the number in the grammar, read back to the end if its digits can be counted. It is what the
program writes, as far as its fields are wide enough. -/
theorem decimalChars_shortest (r : Rat) :
    (∀ twos fives, r.den = 2 ^ twos * 5 ^ fives →
      (∃ d : Decimal, decimalChars r = (if r < 0 then ['-'] else []) ++ d.chars ∧
        (if r < 0 then -d.value else d.value) = r ∧ d.Tight ∧
        (|r| < 1 → d.whole.digits = ['0']) ∧ d.places.length = max twos fives) ∧
      IsLeast {places : Nat | ∃ n : Int, r * 10 ^ places = n} (max twos fives)) ∧
    ((¬ ∃ twos fives, r.den = 2 ^ twos * 5 ^ fives) →
      decimalChars r = Integer.chars r.num ++ '/' :: Integer.digits r.den) ∧
    (∀ other, decimalChars other = decimalChars r → other = r) ∧
    (0 ≤ r → (∃ v : Number, v.tokens.flatten = decimalChars r ∧ v.value = r) ∧
      (¬ LongRun (decimalChars r) → Reader.number (decimalChars r) = .ok (r, [])) ∧
      (LongRun (decimalChars r) →
        Reader.number (decimalChars r) = .error (.fault .tooManyDigits))) ∧
    ∀ text, decimal r = .ok text ↔ Writable r ∧ text = String.ofList (decimalChars r) := by
  refine ⟨fun twos fives den => ⟨?_, isLeast_places den⟩, decimalChars_of_not_terminating,
    fun other equal => decimalChars_injective equal, number_decimalChars, decimal_eq_ok_iff r⟩
  obtain ⟨d, text, value, tight, count⟩ := exists_decimal den
  refine ⟨d, text, ?_, tight, fun below => tight.whole_eq (value ▸ below), count⟩
  split
  · rename_i negative
    rw [value, abs_of_neg negative, neg_neg]
  · rename_i notNegative
    rw [value, abs_of_nonneg (not_lt.mp notNegative)]

/-- More places than digits. -/
theorem decimalChars_shortest_small :
    ∃ d : Decimal, decimalChars (-13 / 10000) = '-' :: d.chars ∧ -d.value = -13 / 10000 ∧ d.Tight ∧
      d.whole.digits = ['0'] ∧ d.places.length = 4 := by
  have den : (-13 / 10000 : Rat).den = 2 ^ 4 * 5 ^ 4 := by decide +kernel
  obtain ⟨⟨d, text, value, tight, below, count⟩, -⟩ :=
    (decimalChars_shortest (-13 / 10000)).1 4 4 den
  have negative : (-13 / 10000 : Rat) < 0 := by decide +kernel
  rw [if_pos negative] at text value
  exact ⟨d, text, value, tight, below (by decide +kernel), count⟩

end Rational

end ExactLinear
