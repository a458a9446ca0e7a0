import ExactLinear.Elimination
import ExactLinear.Equation
import ExactLinear.Equation.Parser
import ExactLinear.Number
import ExactLinear.Text

/-!
# Systems of linear equations

The order of the equations matters for positions and for text, not for the solution.
-/

namespace ExactLinear

structure LinearSystem where
  equations : List Equation
  deriving Repr

namespace LinearSystem

def empty : LinearSystem := ⟨[]⟩

def size (s : LinearSystem) : Nat := s.equations.length

def isEmpty (s : LinearSystem) : Bool := s.equations.isEmpty

def get? (s : LinearSystem) (i : Nat) : Option Equation := s.equations[i]?

def push (s : LinearSystem) (e : Equation) : LinearSystem := ⟨s.equations ++ [e]⟩

/-- Puts an equation in front of the one at position `i`, or at the end. -/
def insert (s : LinearSystem) (i : Nat) (e : Equation) : Except Fault LinearSystem :=
  if i ≤ s.size then .ok ⟨s.equations.insertIdx i e⟩ else .error .outOfRange

def remove (s : LinearSystem) (i : Nat) : Except Fault (Equation × LinearSystem) :=
  match s.get? i with
  | some e => .ok (e, ⟨s.equations.eraseIdx i⟩)
  | none => .error .outOfRange

def append (s other : LinearSystem) : LinearSystem := ⟨s.equations ++ other.equations⟩

instance : Append LinearSystem := ⟨append⟩

def reverse (s : LinearSystem) : LinearSystem := ⟨s.equations.reverse⟩

def same (s other : LinearSystem) : Bool := s.equations == other.equations

instance : BEq LinearSystem := ⟨same⟩

/-- The names that some equation depends on, each once, in ascending order. -/
def unknowns (s : LinearSystem) : List String :=
  Text.sortAscending id (s.equations.flatMap Equation.names)

def render (s : LinearSystem) : Except Fault String := do
  let lines ← s.equations.mapM fun e => return (← e.render) ++ "\n"
  return String.join lines

def ofTexts (texts : List String) : Except ParseError LinearSystem :=
  return ⟨← texts.mapM Equation.parse⟩

end LinearSystem

/-!
## Systems from lines of text

Each line holds an equation. Blank lines are skipped, and so are comments: lines whose first
character that is not blank is `#`. Skipped lines count when a line is named in an error.
-/

/-- An error in a line, counted from one. -/
structure LineError where
  line : Nat
  source : ParseError
  deriving DecidableEq, Repr

def LineError.message (e : LineError) : String := s!"line {e.line}: " ++ e.source.message

namespace LinearSystem

def isSkipped (line : String) : Bool :=
  match Text.skipBlanks line.toList with
  | [] => true
  | c :: _ => c == '#'

/-- The equations of the lines, the first of which has the given number. -/
def readLines (number : Nat) : List String → Except LineError (List Equation)
  | [] => .ok []
  | line :: lines =>
    if isSkipped line then readLines (number + 1) lines
    else
      match Equation.parse line with
      | .error source => .error { line := number, source }
      | .ok e => (readLines (number + 1) lines).map (e :: ·)

def parseLines (lines : List String) : Except LineError LinearSystem :=
  (readLines 1 lines).map LinearSystem.mk

def parseText (text : String) : Except LineError LinearSystem := parseLines (Text.lines text)

end LinearSystem

/-!
## Values of unknowns

A `Valuation` gives a value to each of finitely many names, kept in ascending order of the
names.
-/

structure Valuation where
  entries : List (String × Rat)
  sorted : Text.Ascending (·.1) entries
  deriving DecidableEq, Repr

namespace Valuation

def empty : Valuation := ⟨[], .nil⟩

/-- The valuation of the given pairs; of several for one name the last counts. -/
def ofList (pairs : List (String × Rat)) : Valuation :=
  ⟨Text.sortAscending (·.1) pairs, Text.ascending_sortAscending pairs⟩

def get? (v : Valuation) (name : String) : Option Rat := v.entries.lookup name

def names (v : Valuation) : List String := v.entries.map (·.1)

end Valuation

/-!
## Solving a system of equations

The variables in ascending order are the columns of the coefficient matrix. An equation is
stored as `… + c = 0`, so its right-hand side is `-c`.
-/

namespace LinearSystem

def coefficients (s : LinearSystem) (names : List String) : RatMatrix :=
  .ofFn s.size names.length fun i j =>
    ((s.equations[i]?).getD .empty).coefficient (names[j]?.getD "")

def rightHandSide (s : LinearSystem) : RatMatrix :=
  .ofFn s.size 1 fun i _ => -((s.equations[i]?).getD .empty).constant

def valuation (names : List String) (values : RatMatrix) : Except Fault Valuation :=
  return .ofList (names.zip (← values.column 0))

def nameValues (names : List String) (solved : Solved RatMatrix) :
    Except SolveError (Solved Valuation) :=
  match solved.solution with
  | .none => .ok { solved with solution := .none }
  | .infinite => .ok { solved with solution := .infinite }
  | .unique values =>
    match valuation names values with
    | .ok named => .ok { solved with solution := .unique named }
    | .error cause => .error (.fault cause)

def solve (s : LinearSystem) (pivoting : Pivoting) : Except SolveError (Solved Valuation) := do
  let names := s.unknowns
  nameValues names (← (s.coefficients names).solve s.rightHandSide pivoting)

end LinearSystem

end ExactLinear
