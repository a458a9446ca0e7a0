import ExactLinear.Matrix

/-!
# Elimination

Gauss-Jordan elimination of matrices, their rank, and the solution of matrix equations.
-/

/-!
## Choice of the pivot row

Arithmetic is exact, so the choice has no influence on the rank or on a solution, only on the
values in between.
-/

namespace ExactLinear

inductive Pivoting where
  /-- The row with the largest magnitude; of several, the first. -/
  | largest
  /-- The first row with a non-zero entry. -/
  | firstNonZero
  deriving DecidableEq, Repr, Inhabited

structure Candidate where
  row : Nat
  value : Rat
  deriving DecidableEq, Repr

namespace Candidate

/-- The later candidate only if its magnitude is strictly larger. -/
def larger (best next : Candidate) : Candidate :=
  if Rational.magnitude best.value < Rational.magnitude next.value then next else best

end Candidate

/-- The pivot row among the candidates, or `none` if all entries are zero. -/
def Pivoting.choose : Pivoting → List Candidate → Option Nat
  | .largest, [] => none
  | .largest, first :: others =>
    let best := others.foldl Candidate.larger first
    if best.value = 0 then none else some best.row
  | .firstNonZero, candidates => (candidates.find? (·.value ≠ 0)).map (·.row)

def RatMatrix.candidates (m : RatMatrix) (col start : Nat) : Except Fault (List Candidate) :=
  (List.range' start (m.rows - start)).mapM fun row => return ⟨row, ← m.cell row col⟩

def RatMatrix.selectPivot (m : RatMatrix) (pivoting : Pivoting) (col start : Nat) :
    Except Fault (Option Nat) :=
  return pivoting.choose (← m.candidates col start)

/-!
## Gauss-Jordan elimination

Columns are treated from left to right. A column with a usable entry below the pivots found so
far gives the next pivot and is cleared in every other row, above and below; pivots are not
scaled. A column without one is free. Once every row holds a pivot the remaining columns are
not looked at.
-/

/-- What elimination found in a column, with the number of pivots before it. -/
inductive ColumnEvent where
  /-- The pivot was taken from `row`, before it was moved up. -/
  | pivot (col row rank : Nat)
  | free (col rank : Nat)
  deriving DecidableEq, Repr

namespace ColumnEvent

def rankAfter : ColumnEvent → Nat
  | .pivot _ _ rank => rank + 1
  | .free _ rank => rank

def col : ColumnEvent → Nat
  | .pivot col _ _ => col
  | .free col _ => col

def isPivot : ColumnEvent → Bool
  | .pivot .. => true
  | .free .. => false

end ColumnEvent

/-- The account of an elimination: what each column gave, and the number of pivots. -/
structure Reduction where
  columns : List ColumnEvent
  rank : Nat
  deriving DecidableEq, Repr

namespace Edit

def clearCell (col pivotRow : Nat) (pivot : Rat) (i : Nat) : Edit Unit := do
  if i = pivotRow then return
  let value ← read i col
  if value = 0 then return
  addScaledRow i pivotRow (-(← inspect fun _ => Rational.divide value pivot))

def clearColumn (col pivotRow : Nat) : Edit Unit := do
  let pivot ← read pivotRow col
  forEach (← rows) (clearCell col pivotRow pivot)

def eliminateColumn (pivoting : Pivoting) (col rank : Nat) : Edit ColumnEvent := do
  match ← inspect (·.selectPivot pivoting col rank) with
  | none => return .free col rank
  | some row =>
    swapRows row rank
    clearColumn col rank
    return .pivot col row rank

def eliminateColumns (pivoting : Pivoting) : (count col rank : Nat) → Edit Reduction
  | 0, _, rank => return { columns := [], rank }
  | count + 1, col, rank => do
    if (← rows) ≤ rank then return { columns := [], rank }
    let event ← eliminateColumn pivoting col rank
    let later ← eliminateColumns pivoting count (col + 1) event.rankAfter
    return { later with columns := event :: later.columns }

/-- Eliminates over the first `width` columns. The pivots end up in the first rows, in ascending
order of their columns. -/
def reduce (pivoting : Pivoting) (width : Nat) : Edit Reduction :=
  eliminateColumns pivoting width 0 0

end Edit

namespace RatMatrix

def reduction (m : RatMatrix) (pivoting : Pivoting) : Except Fault Reduction :=
  return (← (Edit.reduce pivoting m.cols).result m).1

def rank (m : RatMatrix) (pivoting : Pivoting) : Except Fault Nat :=
  return (← m.reduction pivoting).rank

end RatMatrix

/-!
## Outcome of solving a linear system

That a system has no solution, or infinitely many, is a regular answer and not an error.
-/

inductive Solution (α : Type) where
  | none
  | infinite
  | unique (value : α)
  deriving DecidableEq, Repr

namespace Solution

variable {α : Type}

def isNone : Solution α → Bool
  | .none => true
  | _ => false

def isInfinite : Solution α → Bool
  | .infinite => true
  | _ => false

def isUnique : Solution α → Bool
  | .unique _ => true
  | _ => false

def unique? : Solution α → Option α
  | .unique value => some value
  | _ => Option.none

def describe : Solution α → String
  | .none => "no solution"
  | .infinite => "infinitely many solutions"
  | .unique _ => "unique solution"

end Solution

/-!
## Solving matrix equations

`A · X = y` is solved for all columns of `y` at once, by eliminating over the columns of `A`
in the matrix `[A | y]`. A row without a pivot then reads `0 = c`.
-/

inductive SolveError where
  /-- The right-hand side has not one row for each equation. -/
  | heightMismatch (expected found : Nat)
  | fault (cause : Fault)
  deriving DecidableEq, Repr

namespace SolveError

def message : SolveError → String
  | .heightMismatch expected found =>
    "matrix heights don't match: " ++
      s!"coefficient matrix has {expected} rows, right-hand side has {found}"
  | .fault cause => cause.message?.getD ""

end SolveError

inductive Outcome where
  | inconsistent (rows cols rank : Nat)
  | underdetermined (rows cols rank free : Nat)
  | determined (rows cols rank : Nat)
  deriving DecidableEq, Repr

structure Solved (α : Type) where
  columns : List ColumnEvent
  outcome : Outcome
  solution : Solution α
  deriving DecidableEq, Repr

namespace Edit

def contradicts (start width : Nat) : Edit Bool := do
  let tails ← (List.range' start ((← rows) - start)).mapM fun i =>
    return (← inspect (·.row i)).drop width
  return tails.any fun tail => tail.any (· ≠ 0)

def normalizeRow (k : Nat) : Edit Unit := do
  let pivot ← read k k
  scaleRow k (← inspect fun _ => Rational.reciprocal pivot)

/-- Solves the system held as `[A | y]`, where `A` has `width` columns and `y` has `count`. -/
def solve (pivoting : Pivoting) (width count : Nat) : Edit (Solved RatMatrix) := do
  let { columns, rank } ← reduce pivoting width
  let rows ← rows
  if ← contradicts rank width then
    return { columns, outcome := .inconsistent rows width rank, solution := .none }
  if rank < width then
    let outcome := .underdetermined rows width rank (width - rank)
    return { columns, outcome, solution := .infinite }
  -- every column holds a pivot, that of column `k` in row `k`
  forEach width normalizeRow
  let values ← inspect fun m => RatMatrix.tabulate width count fun i j => m.cell i (width + j)
  return { columns, outcome := .determined rows width rank, solution := .unique values }

end Edit

namespace RatMatrix

/-- The number of columns of `[a | y]`. A matrix with rows has at least as many entries as columns,
so the sum of two widths can leave a machine word only if there are no rows. -/
def joinedWidth (overflow : Overflow) (a y : RatMatrix) : Except Fault Nat :=
  if a.rows = 0 then overflow.word (a.cols + y.cols) else .ok (a.cols + y.cols)

def augmentIn (overflow : Overflow) (a y : RatMatrix) : Except Fault RatMatrix := do
  let width ← joinedWidth overflow a y
  tabulate a.rows width fun i j => if j < a.cols then a.cell i j else y.cell i (j - a.cols)

def solveIn (overflow : Overflow) (a y : RatMatrix) (pivoting : Pivoting) :
    Except SolveError (Solved RatMatrix) :=
  if a.rows = y.rows then
    match do (Edit.solve pivoting a.cols y.cols).result (← augmentIn overflow a y) with
    | .ok (solved, _) => .ok solved
    | .error cause => .error (.fault cause)
  else .error (.heightMismatch a.rows y.rows)

def augment (a y : RatMatrix) : Except Fault RatMatrix := augmentIn .wrapping a y

def solve (a y : RatMatrix) (pivoting : Pivoting) : Except SolveError (Solved RatMatrix) :=
  solveIn .wrapping a y pivoting

end RatMatrix

end ExactLinear
