import ExactLinear.Number
import ExactLinear.Text

/-!
# Linear equations

An `Equation` stands for `a₁x₁ + … + aₙxₙ + c = 0` over the rationals. Only names with a
non-zero coefficient are stored, each once. They stand in the order in which they happened to
be set, which no other operation makes visible; two equations are the same when they agree on
every name and on the constant.
-/

namespace ExactLinear

structure Equation where
  terms : List (String × Rat)
  constant : Rat
  distinct : (terms.map (·.1)).Nodup
  nonzero : ∀ term ∈ terms, term.2 ≠ 0
  deriving Repr

namespace Equation

def empty : Equation where
  terms := []
  constant := 0
  distinct := List.nodup_nil
  nonzero := by simp

def coefficient (e : Equation) (name : String) : Rat := (e.terms.lookup name).getD 0

def names (e : Equation) : List String := e.terms.map (·.1)

def size (e : Equation) : Nat := e.terms.length

def isEmpty (e : Equation) : Bool := e.terms.isEmpty

def erase (e : Equation) (name : String) : Equation where
  terms := e.terms.filter (·.1 ≠ name)
  constant := e.constant
  distinct := e.distinct.sublist (List.filter_sublist.map _)
  nonzero := fun term h => e.nonzero term (List.mem_filter.1 h).1

theorem not_mem_names_erase (e : Equation) (name : String) : name ∉ (e.erase name).names := by
  simp [names, erase]

def set (e : Equation) (name : String) (value : Rat) : Equation :=
  if h : value = 0 then e.erase name
  else
    { e.erase name with
      terms := (name, value) :: (e.erase name).terms
      distinct := List.nodup_cons.2 ⟨e.not_mem_names_erase name, (e.erase name).distinct⟩
      nonzero := List.forall_mem_cons.2 ⟨h, (e.erase name).nonzero⟩ }

theorem lookup_filter_ne (terms : List (String × Rat)) (name other : String) :
    (terms.filter (·.1 ≠ name)).lookup other =
      if other = name then none else terms.lookup other := by
  induction terms with
  | nil => simp
  | cons term terms ih =>
    simp only [List.filter_cons]
    split
    · rename_i kept
      rw [List.lookup_cons, ih, List.lookup_cons]
      grind
    · rename_i dropped
      rw [ih, List.lookup_cons]
      grind

theorem coefficient_erase (e : Equation) (name other : String) :
    (e.erase name).coefficient other = if other = name then 0 else e.coefficient other := by
  unfold coefficient erase
  rw [lookup_filter_ne]
  split <;> rfl

theorem coefficient_set (e : Equation) (name other : String) (value : Rat) :
    (e.set name value).coefficient other = if other = name then value else e.coefficient other := by
  unfold set
  split
  · rename_i zero
    rw [coefficient_erase, zero]
  · simp only [coefficient, List.lookup_cons]
    by_cases same : other = name
    · simp [same]
    · have different : (other == name) = false := by simpa using same
      have erased := e.coefficient_erase name other
      simp only [coefficient, same, if_false] at erased
      simp [different, same, erased]

@[simp] theorem constant_set (e : Equation) (name : String) (value : Rat) :
    (e.set name value).constant = e.constant := by
  unfold set
  split <;> rfl

def add (e : Equation) (name : String) (delta : Rat) : Equation :=
  e.set name (e.coefficient name + delta)

theorem coefficient_add (e : Equation) (name other : String) (delta : Rat) :
    (e.add name delta).coefficient other =
      if other = name then e.coefficient name + delta else e.coefficient other :=
  e.coefficient_set name other _

@[simp] theorem constant_add (e : Equation) (name : String) (delta : Rat) :
    (e.add name delta).constant = e.constant := e.constant_set name _

def setConstant (e : Equation) (value : Rat) : Equation := { e with constant := value }

def subtract (e other : Equation) : Equation :=
  let difference := other.terms.foldl (fun sum (name, value) => sum.add name (-value)) e
  difference.setConstant (difference.constant - other.constant)

def same (a b : Equation) : Bool :=
  a.constant == b.constant && a.size == b.size &&
    a.terms.all fun (name, value) => b.terms.lookup name == some value

instance : BEq Equation := ⟨same⟩

def sortedTerms (e : Equation) : List (String × Rat) :=
  Text.sortAscending (·.1) e.terms

end Equation

/-!
## Sums of terms

A side of an equation as it is written: signed terms in which a name may come more than once.
Two such sides make an equation by collecting what belongs together.
-/

inductive Term where
  | constant (value : Rat)
  | multiple (coefficient : Rat) (name : String)
  deriving DecidableEq, Repr

namespace Equation

def addTerm (e : Equation) : Term → Equation
  | .constant value => e.setConstant (e.constant + value)
  | .multiple coefficient name => e.add name coefficient

def ofTerms (terms : List Term) : Equation := terms.foldl addTerm empty

def ofSides (lhs rhs : List Term) : Equation := (ofTerms lhs).subtract (ofTerms rhs)

end Equation

/-!
## Equations as text

Terms are written in the order of their names, then the constant, which is never left out: `x
- 2y + 3z - 4 = 0`. A coefficient of magnitude one is left out, and a leading sign only if it
is a plus.
-/

namespace Equation

def signChars (value : Rat) (first : Bool) : List Char :=
  if value < 0 then ['-', ' '] else if first then [] else ['+', ' ']

def coefficientChars (value : Rat) : List Char :=
  let magnitude := Rational.magnitude value
  if magnitude = 1 then [] else Rational.decimalChars magnitude

def termChars (first : Bool) (term : String × Rat) : List Char :=
  signChars term.2 first ++ coefficientChars term.2 ++ term.1.toList ++ [' ']

def termsChars : List (String × Rat) → List Char
  | [] => []
  | term :: terms => termChars true term ++ terms.flatMap (termChars false)

def chars (e : Equation) : List Char :=
  termsChars e.sortedTerms ++ signChars e.constant e.isEmpty ++
    Rational.decimalChars (Rational.magnitude e.constant) ++ [' ', '=', ' ', '0']

def fitsField (e : Equation) : Bool :=
  e.sortedTerms.all (fun term => Rational.fitsField term.2) && Rational.fitsField e.constant

def render (e : Equation) : Except Fault String :=
  if e.fitsField then .ok (String.ofList e.chars) else .error .fieldTooWide

end Equation

end ExactLinear
