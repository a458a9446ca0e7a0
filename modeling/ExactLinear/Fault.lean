/-!
# Calls outside an operation's domain

Division by zero, a position past the end of a matrix, a table of the wrong size: such a call
has no result, and the operation answers with a `Fault` in its place. Faults are kept apart
from the errors that input text can cause, which have their own types beside the readers.
-/

namespace ExactLinear

inductive Fault where
  | zeroDenominator
  | zeroReciprocal
  | zeroDivisor
  | zeroIntegerDivisor
  /-- A position lies past the end of the data. -/
  | outOfRange
  /-- The number of entries or an inner dimension does not fit. -/
  | wrongShape
  /-- A matrix would have more entries than can be stored, or a width that is no machine word. -/
  | tooLarge
  | fieldTooWide
  /-- A number in a text has more digits than can be counted. -/
  | tooManyDigits
  deriving DecidableEq, Repr

/-- The text that goes with a fault; faults of position, shape and size have none of their own. -/
def Fault.message? : Fault → Option String
  | .zeroDenominator => some "denominator cannot be zero"
  | .zeroReciprocal => some "cannot take reciprocal of zero"
  | .zeroDivisor => some "division by zero"
  | .zeroIntegerDivisor | .outOfRange | .wrongShape | .tooLarge | .fieldTooWide
  | .tooManyDigits => none

/-- What a build does with a number that a machine word does not hold. -/
inductive Overflow where
  | checked
  | wrapping
  deriving DecidableEq, Repr

/-- A machine word has 64 bits. -/
def wordSize : Nat := 18446744073709551616

namespace Overflow

def word : Overflow → Nat → Except Fault Nat
  | .checked, n => if n < wordSize then .ok n else .error .tooLarge
  | .wrapping, n => .ok (n % wordSize)

theorem word_of_lt (overflow : Overflow) {n : Nat} (fits : n < wordSize) :
    overflow.word n = .ok n := by
  cases overflow <;> simp [word, fits, Nat.mod_eq_of_lt]

end Overflow

section Sequences

/-! A sequence of operations succeeds if each of them does. -/

variable {α β ε : Type}

theorem bind_eq_ok_iff {first : Except ε α} {next : α → Except ε β} {b : β} :
    first >>= next = .ok b ↔ ∃ a, first = .ok a ∧ next a = .ok b := by
  cases first with
  | error e => simp [bind, Except.bind]
  | ok a => simp [bind, Except.bind]

variable {look : α → Except ε β} {items : List α}

theorem mapM_eq_ok_map {seen : α → β} (succeeds : ∀ a ∈ items, look a = .ok (seen a)) :
    items.mapM look = .ok (items.map seen) := by
  induction items with
  | nil => rfl
  | cons a items ih =>
    have others := ih fun b member => succeeds b (List.mem_cons_of_mem a member)
    rw [List.mapM_cons, bind_eq_ok_iff]
    refine ⟨seen a, succeeds a List.mem_cons_self, ?_⟩
    rw [others]
    rfl

theorem exists_ok_of_mapM {seen : List β} (succeeds : items.mapM look = .ok seen) :
    ∀ a ∈ items, ∃ b, look a = .ok b := by
  induction items generalizing seen with
  | nil => simp
  | cons a items ih =>
    rw [List.mapM_cons] at succeeds
    obtain ⟨b, first, rest⟩ := bind_eq_ok_iff.mp succeeds
    obtain ⟨bs, others, -⟩ := bind_eq_ok_iff.mp rest
    exact List.forall_mem_cons.mpr ⟨⟨b, first⟩, ih others⟩

end Sequences

end ExactLinear
