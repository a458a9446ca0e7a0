import ExactLinear.Number

/-!
# Dense matrices of rationals

Entries are stored row after row. A cell `(i, j)` means position `i * cols + j` of that data,
and only the position is checked: a column past the last one reaches into a later row. `get?`
checks both coordinates instead.
-/

namespace ExactLinear

structure RatMatrix where
  rows : Nat
  cols : Nat
  data : Vector Rat (rows * cols)
  deriving DecidableEq, Repr

namespace RatMatrix

/-- How many entries can be stored: an entry takes 48 bytes, and there are fewer than `2 ^ 63`. -/
def mostEntries : Nat := 192153584101141162

/-- Fills a matrix row after row with what the seed gives for each pair of row and column. That
there is room for it is not looked at. -/
def tabulate {μ : Type → Type} [Monad μ] (rows cols : Nat) (seed : Nat → Nat → μ Rat) :
    μ RatMatrix := do
  let data ← Vector.ofFnM fun position => seed (position.val / cols) (position.val % cols)
  return { rows, cols, data }

/-- Fills a matrix as `tabulate` does, if it can be stored. -/
def generate {μ : Type → Type} [Monad μ] [MonadExceptOf Fault μ] (rows cols : Nat)
    (seed : Nat → Nat → μ Rat) : μ RatMatrix :=
  if rows * cols ≤ mostEntries then tabulate rows cols seed else throw Fault.tooLarge

def ofFn (rows cols : Nat) (seed : Nat → Nat → Rat) : RatMatrix where
  rows := rows
  cols := cols
  data := Vector.ofFn fun position => seed (position.val / cols) (position.val % cols)

def zeros (rows cols : Nat) : Except Fault RatMatrix :=
  if rows * cols ≤ mostEntries then
    .ok { rows, cols, data := Vector.replicate (rows * cols) 0 }
  else .error .tooLarge

def ofEntries (rows cols : Nat) (entries : Array Rat) : Except Fault RatMatrix :=
  if h : entries.size = rows * cols then .ok { rows, cols, data := ⟨entries, h⟩ }
  else .error .wrongShape

/-- A matrix from its rows. The first one gives the width, and all entries are laid out one after
the other: only their total is checked. -/
def ofRows : List (List Rat) → Except Fault RatMatrix
  | [] => zeros 0 0
  | first :: others =>
    ofEntries (others.length + 1) first.length (first :: others).flatten.toArray

def entry (m : RatMatrix) (i j : Nat) : Rat := m.data.toArray.getD (i * m.cols + j) 0

def get? (m : RatMatrix) (i j : Nat) : Option Rat :=
  if i < m.rows ∧ j < m.cols then some (m.entry i j) else none

def cell (m : RatMatrix) (i j : Nat) : Except Fault Rat :=
  if h : i * m.cols + j < m.rows * m.cols then .ok m.data[i * m.cols + j] else .error .outOfRange

theorem position_lt {rows cols i j : Nat} (hi : i < rows) (hj : j < cols) :
    i * cols + j < rows * cols := by
  have : (i + 1) * cols ≤ rows * cols := Nat.mul_le_mul_right cols hi
  rw [Nat.succ_mul] at this
  omega

/-- Inside the matrix, all ways to look at an entry agree. -/
theorem cell_eq_entry (m : RatMatrix) {i j : Nat} (h : i * m.cols + j < m.rows * m.cols) :
    m.cell i j = .ok (m.entry i j) := by
  simp [cell, entry, h]

theorem get?_eq_entry (m : RatMatrix) {i j : Nat} (hi : i < m.rows) (hj : j < m.cols) :
    m.get? i j = some (m.entry i j) := by
  simp [get?, hi, hj]

theorem entry_ofFn {rows cols i j : Nat} (seed : Nat → Nat → Rat) (hi : i < rows) (hj : j < cols) :
    (ofFn rows cols seed).entry i j = seed i j := by
  have row : (i * cols + j) / cols = i := by
    rw [Nat.mul_comm, Nat.mul_add_div (by omega), Nat.div_eq_of_lt hj, Nat.add_zero]
  have col : (i * cols + j) % cols = j := by
    rw [Nat.mul_comm, Nat.mul_add_mod, Nat.mod_eq_of_lt hj]
  simp [entry, ofFn, position_lt hi hj, row, col]

def row (m : RatMatrix) (i : Nat) : Except Fault (List Rat) :=
  if i * m.cols + m.cols ≤ m.rows * m.cols then
    .ok ((m.data.toList.drop (i * m.cols)).take m.cols)
  else .error .outOfRange

def column (m : RatMatrix) (j : Nat) : Except Fault (List Rat) :=
  (List.range m.rows).mapM fun i => m.cell i j

def dot (a b : RatMatrix) (n i j : Nat) : Except Fault Rat :=
  (List.range n).foldlM (fun sum k => return sum + (← a.cell i k) * (← b.cell k j)) 0

def product (a b : RatMatrix) : Except Fault RatMatrix :=
  if a.cols = b.rows then generate a.rows b.cols (dot a b a.cols) else .error .wrongShape

def identity (n : Nat) : RatMatrix := ofFn n n fun i j => if i = j then 1 else 0

/-- One line for each row, its values divided by tabs. -/
def render (m : RatMatrix) : Except Fault String := do
  let lines ← (List.range m.rows).mapM fun i => do
    let shown ← (List.range m.cols).mapM fun j => Rational.decimal (m.entry i j)
    return String.intercalate "\t" shown ++ "\n"
  return String.join lines

end RatMatrix

/-!
## Row operations

An `Edit` works on a matrix in place, cell after cell. A fault stops it, and the matrix is
then left with the cells that had been written before.
-/

abbrev Edit := EStateM Fault RatMatrix

namespace Edit

def inspect {α : Type} (look : RatMatrix → Except Fault α) : Edit α := fun m =>
  match look m with
  | .ok a => .ok a m
  | .error fault => .error fault m

def rows : Edit Nat := fun m => .ok m.rows m

def cols : Edit Nat := fun m => .ok m.cols m

def read (i j : Nat) : Edit Rat := inspect (·.cell i j)

def write (i j : Nat) (value : Rat) : Edit Unit := fun m =>
  if h : i * m.cols + j < m.rows * m.cols then
    .ok () { m with data := m.data.set (i * m.cols + j) value h }
  else .error .outOfRange m

theorem read_apply {m : RatMatrix} {i j : Nat} (h : i * m.cols + j < m.rows * m.cols) :
    read i j m = .ok (m.entry i j) m := by
  simp [read, inspect, m.cell_eq_entry h]

theorem read_apply_outside {m : RatMatrix} {i j : Nat} (h : ¬ i * m.cols + j < m.rows * m.cols) :
    read i j m = .error .outOfRange m := by
  simp [read, inspect, RatMatrix.cell, h]

theorem write_apply_outside {m : RatMatrix} {i j : Nat} (value : Rat)
    (h : ¬ i * m.cols + j < m.rows * m.cols) : write i j value m = .error .outOfRange m := by
  simp [write, h]

def swapCells (i j k : Nat) : Edit Unit := fun m =>
  if h : i * m.cols + k < m.rows * m.cols ∧ j * m.cols + k < m.rows * m.cols then
    .ok () { m with data := m.data.swap (i * m.cols + k) (j * m.cols + k) h.1 h.2 }
  else .error .outOfRange m

/-- Takes the step at `count` positions from `start` on, in ascending order. -/
def forEachFrom (step : Nat → Edit Unit) : (count start : Nat) → Edit Unit
  | 0, _ => return
  | count + 1, start => do
    step start
    forEachFrom step count (start + 1)

def forEach (count : Nat) (step : Nat → Edit Unit) : Edit Unit := forEachFrom step count 0

def swapRows (i j : Nat) : Edit Unit := do
  if i = j then return
  forEach (← cols) (swapCells i j)

def addScaledRow (target source : Nat) (scale : Rat) : Edit Unit := do
  forEach (← cols) fun k => do
    let added := (← read source k) * scale
    write target k ((← read target k) + added)

def scaleRow (i : Nat) (scale : Rat) : Edit Unit := do
  forEach (← cols) fun k => do write i k ((← read i k) * scale)

def result {α : Type} (edit : Edit α) (m : RatMatrix) : Except Fault (α × RatMatrix) :=
  match edit m with
  | .ok a edited => .ok (a, edited)
  | .error fault _ => .error fault

end Edit

end ExactLinear
