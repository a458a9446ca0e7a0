import ExactLinear.Proofs.RowOperation

/-! Which cell a row and a column name. A look at a cell and a write to it check its position in the
data and nothing else, so a column past the end of its row stands for a cell of a later one; `get?`
finds nothing there. Every access is one to the place that the position belongs to, and that is the
place asked for except where the column alone is too large. -/
namespace ExactLinear

open RatMatrix

namespace RatMatrix

/-- The row and the column that position `i * cols + j` of the data belongs to. -/
def place (m : RatMatrix) (i j : Nat) : Nat × Nat := (i + j / m.cols, j % m.cols)

/-- A look at the cell `(i, j)` and a write to it go by the entry at `place`: where the matrix has
none both fault and leave it as it is, else the look finds that entry and the write changes it
alone. -/
def Reaches (m : RatMatrix) (i j : Nat) (value : Rat) (place : Nat × Nat) : Prop :=
  match m.get? place.1 place.2 with
  | none => m.cell i j = .error .outOfRange ∧ Edit.write i j value m = .error .outOfRange m
  | some held => m.cell i j = .ok held ∧ ∃ edited, Edit.write i j value m = .ok () edited ∧
      ∀ r c, edited.get? r c = if r = place.1 ∧ c = place.2 then some value else m.get? r c

variable (m : RatMatrix) {i j : Nat}

theorem get?_eq_none_iff : m.get? i j = none ↔ m.rows ≤ i ∨ m.cols ≤ j := by
  simp only [get?, ite_eq_right_iff, reduceCtorEq, imp_false]
  omega

theorem get?_ofFn {rows cols : Nat} (f : Nat → Nat → Rat) (hi : i < rows) (hj : j < cols) :
    (ofFn rows cols f).get? i j = some (f i j) := by
  rw [get?_eq_entry (ofFn rows cols f) hi hj, entry_ofFn f hi hj]

/-- What can be found after a write: the value where it was written, and all else as before. -/
theorem exists_write (value : Rat) (hi : i < m.rows) (hj : j < m.cols) :
    ∃ edited, Edit.write i j value m = .ok () edited ∧
      ∀ r c, edited.get? r c = if r = i ∧ c = j then some value else m.get? r c := by
  refine ⟨_, Edit.write_apply m value hi hj, fun r c => ?_⟩
  by_cases inside : r < m.rows ∧ c < m.cols
  · rw [get?_ofFn _ inside.1 inside.2, m.get?_eq_entry inside.1 inside.2, apply_ite some]
  · have elsewhere : ¬ (r = i ∧ c = j) := by
      rintro ⟨rfl, rfl⟩
      exact inside ⟨hi, hj⟩
    rw [if_neg elsewhere, get?, get?, if_neg inside]
    exact if_neg inside

theorem place_of_lt (within : j < m.cols) : m.place i j = (i, j) := by
  rw [place, Nat.div_eq_of_lt within, Nat.mod_eq_of_lt within, Nat.add_zero]

/-- A place has the position it was found by. -/
theorem position_place (i j : Nat) :
    (m.place i j).1 * m.cols + (m.place i j).2 = i * m.cols + j := by
  have parts := Nat.div_add_mod' j m.cols
  rw [place, Nat.add_mul, Nat.add_assoc, parts]

theorem position_lt_iff : i * m.cols + j < m.rows * m.cols ↔
    (m.place i j).1 < m.rows ∧ (m.place i j).2 < m.cols := by
  constructor
  · intro inside
    have wide : 0 < m.cols := Nat.pos_of_mul_pos_left (Nat.zero_lt_of_lt inside)
    refine ⟨?_, Nat.mod_lt j wide⟩
    rw [← m.position_place] at inside
    by_contra past
    exact position_outside (Nat.le_of_not_lt past) _ inside
  · rintro ⟨hr, hc⟩
    rw [← m.position_place]
    exact position_lt hr hc

theorem cell_place (inside : i * m.cols + j < m.rows * m.cols) :
    m.cell i j = .ok (m.entry (m.place i j).1 (m.place i j).2) := by
  rw [m.cell_eq_entry inside, entry, entry, m.position_place]

theorem write_place (i j : Nat) (value : Rat) :
    Edit.write (m.place i j).1 (m.place i j).2 value m = Edit.write i j value m := by
  simp only [Edit.write, m.position_place]

theorem reaches_of_outside (value : Rat) {place : Nat × Nat}
    (outside : ¬ i * m.cols + j < m.rows * m.cols) (nothing : m.get? place.1 place.2 = none) :
    m.Reaches i j value place := by
  rw [Reaches, nothing]
  exact ⟨dif_neg outside, Edit.write_apply_outside value outside⟩

/-- Every access is one to the place that its position belongs to. -/
theorem reaches_place (i j : Nat) (value : Rat) : m.Reaches i j value (m.place i j) := by
  by_cases inside : i * m.cols + j < m.rows * m.cols
  · obtain ⟨hr, hc⟩ := m.position_lt_iff.mp inside
    have written := m.exists_write value hr hc
    rw [write_place] at written
    rw [Reaches, m.get?_eq_entry hr hc]
    exact ⟨m.cell_place inside, written⟩
  · exact m.reaches_of_outside value inside (if_neg (mt m.position_lt_iff.mpr inside))

end RatMatrix

/-- A look at a cell and a write to it agree with `get?` at the place that their position belongs
to. With `get?` at the row and the column they are given they agree, faulting exactly where it finds
nothing, unless the column is past the end of its row and the position still inside the data. All this
is said of the position itself; where positions wrap around at a machine word, what is done is the same
as long as the position fits in one. -/
theorem access_agrees_iff (m : RatMatrix) (i j : Nat) (value : Rat) :
    (m.get? i j = none ↔ m.rows ≤ i ∨ m.cols ≤ j) ∧
    m.Reaches i j value (m.place i j) ∧
    (m.Reaches i j value (i, j) ↔ ¬ (m.cols ≤ j ∧ i * m.cols + j < m.rows * m.cols)) ∧
    (i * m.cols + j < wordSize →
      m.cell 0 ((i * m.cols + j) % wordSize) = m.cell i j ∧
      Edit.write 0 ((i * m.cols + j) % wordSize) value m = Edit.write i j value m) := by
  have agrees : m.Reaches i j value (i, j) ↔
      ¬ (m.cols ≤ j ∧ i * m.cols + j < m.rows * m.cols) := by
    constructor
    · rintro agrees ⟨past, inside⟩
      have nothing : m.get? i j = none := m.get?_eq_none_iff.mpr (.inr past)
      rw [Reaches, nothing, m.cell_eq_entry inside] at agrees
      exact nomatch agrees.1
    · intro agreeable
      by_cases within : j < m.cols
      · rw [← m.place_of_lt within]
        exact m.reaches_place i j value
      · have past : m.cols ≤ j := Nat.le_of_not_lt within
        exact m.reaches_of_outside value (fun inside => agreeable ⟨past, inside⟩)
          (m.get?_eq_none_iff.mpr (.inr past))
  refine ⟨m.get?_eq_none_iff, m.reaches_place i j value, agrees, fun fits => ?_⟩
  rw [Nat.mod_eq_of_lt fits]
  simp only [cell, Edit.write, Nat.zero_mul, Nat.zero_add, and_self]

/-- A column past the end of the first row: `get?` finds nothing, while the look finds the first
entry of the second row and the write replaces it. -/
theorem access_past_row :
    (ofFn 2 2 fun i j => (2 * i + j + 1 : Nat)).get? 0 2 = none ∧
      (ofFn 2 2 fun i j => (2 * i + j + 1 : Nat)).cell 0 2 = .ok 3 ∧
      (Edit.write 0 2 9).result (ofFn 2 2 fun i j => (2 * i + j + 1 : Nat)) =
        .ok ((), ofFn 2 2 fun i j => if i = 1 ∧ j = 0 then 9 else (2 * i + j + 1 : Nat)) ∧
      ¬ (ofFn 2 2 fun i j => (2 * i + j + 1 : Nat)).Reaches 0 2 9 (0, 2) := by
  have nothing : (ofFn 2 2 fun i j => (2 * i + j + 1 : Nat)).get? 0 2 = none := by decide +kernel
  have found : (ofFn 2 2 fun i j => (2 * i + j + 1 : Nat)).cell 0 2 = .ok 3 := by decide +kernel
  refine ⟨nothing, found, by decide +kernel, fun agrees => ?_⟩
  rw [Reaches, nothing, found] at agrees
  exact nomatch agrees.1

end ExactLinear
