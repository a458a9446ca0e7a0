import ExactLinear.Proofs.NumberText
import Mathlib.Data.Nat.Factorization.Basic
import Mathlib.RingTheory.Coprime.Lemmas

/-! Taking a factor out of a number, one division after the other. Nothing in a round bounds how
many there will be, and for zero they never end; for any other number each brings what is left
closer to zero. Where they end is what `stripFactor` computes, and coprime factors do not get in
each other's way. So the exponents of two and five in a denominator are found exactly, and with them
whether the number has a terminating decimal, though not every such decimal can be written. -/
namespace ExactLinear.Rational

section Rounds

/-- One round on the count so far and what is left: the next such pair, unless the factor does not
divide any more. -/
def divideOnce (factor : Int) (state : Nat × Int) : Except Fault (Option (Nat × Int)) := do
  if ← Integer.isMultiple state.2 factor then
    return some (state.1 + 1, ← Integer.quotient state.2 factor)
  else return none

/-- The rounds that begin at a state come to an end, and `last` is where. -/
inductive Ends (factor : Int) : Nat × Int → Nat × Int → Prop
  | done {state : Nat × Int} (stopped : divideOnce factor state = .ok none) :
      Ends factor state state
  | round {state next last : Nat × Int} (divided : divideOnce factor state = .ok (some next))
      (others : Ends factor next last) : Ends factor state last

variable {factor : Int} {state next last : Nat × Int}

theorem divideOnce_zero (state : Nat × Int) :
    divideOnce 0 state = .error .zeroIntegerDivisor := rfl

theorem divideOnce_eq (nonzero : factor ≠ 0) (state : Nat × Int) : divideOnce factor state =
    .ok (if factor ∣ state.2 then some (state.1 + 1, state.2.tdiv factor) else none) := by
  by_cases divides : factor ∣ state.2
  · simp [divideOnce, Integer.isMultiple, Integer.remainder, Integer.quotient, nonzero, divides,
      Int.tmod_eq_zero_of_dvd divides, Except.map, bind, Except.bind, pure, Except.pure]
  · have remains : state.2.tmod factor ≠ 0 := mt Int.dvd_of_tmod_eq_zero divides
    simp [divideOnce, Integer.isMultiple, Integer.remainder, nonzero, divides, remains, Except.map,
      bind, Except.bind, pure, Except.pure]

theorem divideOnce_eq_none_iff :
    divideOnce factor state = .ok none ↔ factor ≠ 0 ∧ ¬ factor ∣ state.2 := by
  by_cases zero : factor = 0
  · simp [zero, divideOnce_zero]
  · simp [zero, divideOnce_eq zero state]

theorem divideOnce_eq_some_iff : divideOnce factor state = .ok (some next) ↔
    factor ≠ 0 ∧ state.2 = next.2 * factor ∧ next.1 = state.1 + 1 := by
  by_cases zero : factor = 0
  · simp [zero, divideOnce_zero]
  · rw [divideOnce_eq zero state, and_iff_right zero, Except.ok.injEq,
      Option.ite_none_right_eq_some, Option.some.injEq]
    constructor
    · rintro ⟨divides, rfl⟩
      exact ⟨(Int.tdiv_mul_cancel divides).symm, rfl⟩
    · rintro ⟨product, count⟩
      have divides : factor ∣ state.2 := Dvd.intro_left next.2 product.symm
      have quotient : state.2.tdiv factor = next.2 := by
        rw [product, Int.mul_tdiv_cancel next.2 zero]
      exact ⟨divides, Prod.ext count.symm quotient⟩

/-- What was counted and what is left make the same number after a round. -/
theorem product_of_divideOnce (divided : divideOnce factor state = .ok (some next)) :
    state.2 * factor ^ state.1 = next.2 * factor ^ next.1 := by
  obtain ⟨-, product, count⟩ := divideOnce_eq_some_iff.mp divided
  rw [product, count, pow_succ', mul_assoc]

/-- A round brings what is left closer to zero, and not to zero itself. -/
theorem natAbs_lt_of_divideOnce (hf : 2 ≤ factor) (nonzero : state.2 ≠ 0)
    (divided : divideOnce factor state = .ok (some next)) :
    next.2 ≠ 0 ∧ next.2.natAbs < state.2.natAbs := by
  obtain ⟨divisor, product, -⟩ := divideOnce_eq_some_iff.mp divided
  have remains : next.2 ≠ 0 := by
    intro zero
    rw [zero, zero_mul] at product
    exact nonzero product
  have smaller := natAbs_tdiv_lt hf nonzero
  rw [product, Int.mul_tdiv_cancel next.2 divisor] at smaller
  exact ⟨remains, product ▸ smaller⟩

theorem exists_ends (hf : 2 ≤ factor) (state : Nat × Int) (nonzero : state.2 ≠ 0) :
    ∃ last, Ends factor state last := by
  induction size : state.2.natAbs using Nat.strong_induction_on generalizing state with
  | _ bound ih =>
    subst size
    have divisor : factor ≠ 0 := by omega
    by_cases divides : factor ∣ state.2
    · have divided := divideOnce_eq divisor state
      rw [if_pos divides] at divided
      obtain ⟨remains, smaller⟩ := natAbs_lt_of_divideOnce hf nonzero divided
      obtain ⟨last, others⟩ := ih _ smaller _ remains rfl
      exact ⟨last, .round divided others⟩
    · exact ⟨state, .done (divideOnce_eq_none_iff.mpr ⟨divisor, divides⟩)⟩

namespace Ends

theorem product (ends : Ends factor state last) :
    state.2 * factor ^ state.1 = last.2 * factor ^ last.1 := by
  induction ends with
  | done stopped => rfl
  | round divided others ih => exact (product_of_divideOnce divided).trans ih

theorem indivisible (ends : Ends factor state last) : ¬ factor ∣ last.2 := by
  induction ends with
  | done stopped => exact (divideOnce_eq_none_iff.mp stopped).2
  | round divided others ih => exact ih

/-- From zero every round leads to another, so there is no end to them. -/
theorem rest_ne_zero (ends : Ends factor state last) : state.2 ≠ 0 := by
  induction ends with
  | done stopped => exact ne_zero_of_indivisible (divideOnce_eq_none_iff.mp stopped).2
  | round divided others ih =>
    obtain ⟨divisor, product, -⟩ := divideOnce_eq_some_iff.mp divided
    rw [product]
    exact mul_ne_zero ih divisor

theorem unique (ends : Ends factor state last) {other : Nat × Int}
    (again : Ends factor state other) : other = last := by
  induction ends with
  | done stopped =>
    cases again with
    | done => rfl
    | round divided => simp [stopped] at divided
  | round divided others ih =>
    cases again with
    | done stopped => simp [stopped] at divided
    | round following rest =>
      obtain rfl := Option.some.inj (Except.ok.inj (divided.symm.trans following))
      exact ih rest

end Ends

/-- The rounds for any number but zero end at what `stripFactor` computes. -/
theorem ends_stripFactor {n : Int} (hf : 2 ≤ factor) (nonzero : n ≠ 0) :
    Ends factor (0, n) (stripFactor factor n) := by
  obtain ⟨last, ends⟩ := exists_ends hf (0, n) nonzero
  have whole : n = factor ^ last.1 * last.2 := by
    simpa [mul_comm] using ends.product
  have computed := stripFactor_pow_mul hf ends.indivisible last.1
  rw [← whole] at computed
  rwa [computed]

end Rounds

/-- Taking `factor` out of `n` ends after `count` rounds, which is as often as it is there, and
leaves `rest`. -/
structure Exhausts (factor n : Int) (count : Nat) (rest : Int) : Prop where
  ends : ∀ last, Ends factor (0, n) last ↔ last = (count, rest)
  product : n = rest * factor ^ count
  indivisible : ¬ factor ∣ rest
  exponent : ∀ k, factor ^ k ∣ n ↔ k ≤ count

section Factors

variable {factor other n rest : Int} {count : Nat}

theorem pow_dvd_mul_pow_iff (nonzero : factor ≠ 0) (indivisible : ¬ factor ∣ rest) (k : Nat) :
    factor ^ k ∣ rest * factor ^ count ↔ k ≤ count := by
  constructor
  · intro divides
    by_contra more
    have beyond : factor * factor ^ count ∣ rest * factor ^ count := by
      rw [← pow_succ']
      exact (pow_dvd_pow factor (Nat.lt_of_not_le more)).trans divides
    exact indivisible ((mul_dvd_mul_iff_right (pow_ne_zero count nonzero)).mp beyond)
  · intro enough
    exact Dvd.dvd.mul_left (pow_dvd_pow factor enough) rest

/-- The number and a rest without the factor fix where the rounds end. -/
theorem exhausts_iff (hf : 2 ≤ factor) :
    Exhausts factor n count rest ↔ n = rest * factor ^ count ∧ ¬ factor ∣ rest := by
  constructor
  · intro exhausts
    exact ⟨exhausts.product, exhausts.indivisible⟩
  · rintro ⟨rfl, indivisible⟩
    have divisor : factor ≠ 0 := by omega
    have remains := ne_zero_of_indivisible indivisible
    have ends := ends_stripFactor hf (mul_ne_zero remains (pow_ne_zero count divisor))
    rw [mul_comm, stripFactor_pow_mul hf indivisible count, mul_comm] at ends
    refine ⟨fun last => ⟨ends.unique, ?_⟩, rfl, indivisible,
      pow_dvd_mul_pow_iff divisor indivisible⟩
    rintro rfl
    exact ends

theorem exhausts_stripFactor (hf : 2 ≤ factor) (nonzero : n ≠ 0) :
    Exhausts factor n (stripFactor factor n).1 (stripFactor factor n).2 := by
  obtain ⟨product, indivisible⟩ := stripFactor_spec hf nonzero
  exact (exhausts_iff hf).mpr ⟨by rwa [mul_comm] at product, indivisible⟩

namespace Exhausts

theorem unique {a b : Nat} {x y : Int} (one : Exhausts factor n a x)
    (two : Exhausts factor n b y) : a = b ∧ x = y := by
  have same := (two.ends (a, x)).mp ((one.ends (a, x)).mpr rfl)
  exact Prod.mk.inj same

/-- Coprime factors can be taken out in either order, each as often and with the same rest. -/
theorem comm {a b : Nat} {first second : Int} (hf : 2 ≤ factor) (ho : 2 ≤ other)
    (coprime : IsCoprime factor other) (one : Exhausts factor n a first)
    (two : Exhausts other first b second) :
    Exhausts other n b (second * factor ^ a) ∧ Exhausts factor (second * factor ^ a) a second := by
  constructor
  · refine (exhausts_iff ho).mpr ⟨by rw [one.product, two.product, mul_right_comm], ?_⟩
    intro divides
    exact two.indivisible (coprime.pow_left.symm.dvd_of_dvd_mul_right divides)
  · refine (exhausts_iff hf).mpr ⟨rfl, fun divides => one.indivisible ?_⟩
    rw [two.product]
    exact divides.mul_right (other ^ b)

theorem factorization_eq {p d : Nat} (prime : p.Prime) (nonzero : d ≠ 0)
    (exhausts : Exhausts p d count rest) : d.factorization p = count := by
  refine eq_of_forall_le_iff fun k => ?_
  rw [← prime.pow_dvd_iff_le_factorization nonzero, ← exhausts.exponent]
  exact_mod_cast Iff.rfl

end Exhausts

end Factors

section Written

def setDecimal? (r : Rat) : Except Fault (Option String) :=
  if fitsField r then .ok ((decimalChars? r).map String.ofList) else .error .fieldTooWide

theorem decimal_eq_map_setDecimal? (r : Rat) :
    decimal r = (setDecimal? r).map fun text => text.getD (String.ofList (partsChars r)) := by
  unfold decimal setDecimal? decimalChars
  split
  · cases decimalChars? r <;> rfl
  · rfl

theorem setDecimal?_eq_error_iff {r : Rat} :
    setDecimal? r = .error .fieldTooWide ↔ ¬ Writable r := by
  rw [← fitsField_iff]
  by_cases fits : fitsField r <;> simp [setDecimal?, fits]

/-- A terminating decimal is reported exactly if there is one. -/
def Reported (r : Rat) : Prop :=
  (∃ text, setDecimal? r = .ok (some text)) ↔ ∃ places, r.den ∣ 10 ^ places

theorem reported_iff (r : Rat) : Reported r ↔ Writable r := by
  by_cases writable : Writable r
  · have fits := (fitsField_iff r).mpr writable
    have reported : Reported r := by
      rw [Reported, ← exists_decimalExponents?_iff]
      simp [setDecimal?, decimalChars?, fits]
    exact iff_of_true reported writable
  · have failed := setDecimal?_eq_error_iff.mpr writable
    refine iff_of_false (fun reported => ?_) writable
    obtain ⟨text, found⟩ := reported.mpr (Classical.not_imp.mp writable).1
    rw [failed] at found
    contradiction

/-- The exponents of two and five, found in either order, and a rest that is one exactly for the
denominator of a terminating decimal. -/
theorem exists_exhausts_den {d : Nat} (nonzero : d ≠ 0) : ∃ twos fives odd other rest,
    Exhausts 2 d twos odd ∧ Exhausts 5 odd fives rest ∧
    Exhausts 5 d fives other ∧ Exhausts 2 other twos rest ∧
    decimalExponents? d = (if rest = 1 then some (twos, fives) else none) ∧
    (rest = 1 ↔ ∃ places, d ∣ 10 ^ places) := by
  have two := exhausts_stripFactor (Int.le_refl 2) (Int.natCast_ne_zero.mpr nonzero)
  have five := exhausts_stripFactor (show (2 : Int) ≤ 5 by decide)
    (ne_zero_of_indivisible two.indivisible)
  have coprime : IsCoprime (2 : Int) 5 := ⟨-2, 1, by decide⟩
  obtain ⟨fiveFirst, twoLast⟩ := two.comm (Int.le_refl 2) (by decide) coprime five
  have found : decimalExponents? d = (if (stripFactor 5 (stripFactor 2 d).2).2 = 1 then
    some ((stripFactor 2 d).1, (stripFactor 5 (stripFactor 2 d).2).1) else none) := rfl
  refine ⟨_, _, _, _, _, two, five, fiveFirst, twoLast, found, ?_⟩
  rw [← exists_decimalExponents?_iff, found]
  simp

end Written

/-- Any factor from two on is taken out of any number but zero as often as it is there, and then the
rounds end; for zero they do not. The exponents of two and five in a denominator are found in either
order. The rest is one exactly if the number has a terminating decimal, and that is reported exactly
if it does not need too many places. -/
theorem stripFactor_exact_reported_iff (factor n : Int) (hf : 2 ≤ factor) (hn : n ≠ 0) (r : Rat) :
    Exhausts factor n (stripFactor factor n).1 (stripFactor factor n).2 ∧
    (∀ count last, ¬ Ends factor (count, 0) last) ∧
    (∃ twos fives odd other rest,
      Exhausts 2 r.den twos odd ∧ Exhausts 5 odd fives rest ∧
      Exhausts 5 r.den fives other ∧ Exhausts 2 other twos rest ∧
      r.den.factorization 2 = twos ∧ r.den.factorization 5 = fives ∧
      decimalExponents? r.den = (if rest = 1 then some (twos, fives) else none) ∧
      (rest = 1 ↔ ∃ places, r.den ∣ 10 ^ places)) ∧
    decimal r = (setDecimal? r).map (fun text => text.getD (String.ofList (partsChars r))) ∧
    (Reported r ↔ Writable r) := by
  refine ⟨exhausts_stripFactor hf hn, fun count last ends => ends.rest_ne_zero rfl, ?_,
    decimal_eq_map_setDecimal? r, reported_iff r⟩
  obtain ⟨twos, fives, odd, other, rest, two, five, fiveFirst, twoLast, found, terminates⟩ :=
    exists_exhausts_den r.den_ne_zero
  exact ⟨twos, fives, odd, other, rest, two, five, fiveFirst, twoLast,
    two.factorization_eq Nat.prime_two r.den_ne_zero,
    fiveFirst.factorization_eq Nat.prime_five r.den_ne_zero, found, terminates⟩

/-- A factor that is not prime, a negative number, and a denominator with a third prime factor. -/
theorem stripFactor_exact_reported_iff_mixed :
    Exhausts 6 (-2592) 4 (-2) ∧ stripFactor 6 (-2592) = (4, -2) ∧
      (7 / 120 : Rat).den.factorization 2 = 3 ∧ (7 / 120 : Rat).den.factorization 5 = 1 ∧
      ¬ ∃ places, (7 / 120 : Rat).den ∣ 10 ^ places := by
  obtain ⟨removed, -, ⟨twos, fives, odd, other, rest, two, five, fiveFirst, -, inTwo, inFive, -,
    terminates⟩, -⟩ := stripFactor_exact_reported_iff 6 (-2592) (by decide) (by decide) (7 / 120)
  have den : (7 / 120 : Rat).den = 120 := by decide +kernel
  have six : Exhausts 6 (-2592) 4 (-2) := (exhausts_iff (by decide)).mpr (by decide)
  obtain ⟨count, left⟩ := removed.unique six
  rw [den] at two fiveFirst
  have twoOut : Exhausts 2 (120 : Nat) 3 15 := (exhausts_iff (by decide)).mpr (by decide)
  obtain ⟨rfl, rfl⟩ := two.unique twoOut
  have fiveOut : Exhausts 5 15 1 3 := (exhausts_iff (by decide)).mpr (by decide)
  obtain ⟨rfl, rfl⟩ := five.unique fiveOut
  exact ⟨six, Prod.ext count left, inTwo, inFive, mt terminates.mpr (by decide)⟩

/-- A decimal of one place too many is there but not reported. -/
theorem not_reported_inv_two_pow :
    (∃ places, (((2 ^ 65535 : Nat) : Rat)⁻¹).den ∣ 10 ^ places) ∧
      setDecimal? ((2 ^ 65535 : Nat) : Rat)⁻¹ = .error .fieldTooWide ∧
      ¬ Reported ((2 ^ 65535 : Nat) : Rat)⁻¹ := by
  have unwritable : ¬ Writable ((2 ^ 65535 : Nat) : Rat)⁻¹ := by
    rw [writable_inv_two_pow_iff]
    decide
  exact ⟨(Classical.not_imp.mp unwritable).1, setDecimal?_eq_error_iff.mpr unwritable,
    mt (reported_iff _).mp unwritable⟩

end ExactLinear.Rational
