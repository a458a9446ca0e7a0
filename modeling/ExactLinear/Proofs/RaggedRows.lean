import ExactLinear.Proofs.MatrixEntries
import Mathlib.Algebra.BigOperators.Group.List.Basic

/-! Matrices from rows. All entries are laid out one after the other and only their total is checked
against the width of the first row, so what a matrix from rows holds is cut from that list: the rows
that were given if they are of one length, and others if they are not and the total happens to fit. -/
namespace ExactLinear

open RatMatrix

def Ragged (rows : List (List Rat)) : Prop := ∃ a ∈ rows, ∃ b ∈ rows, a.length ≠ b.length

def firstWidth (rows : List (List Rat)) : Nat := (rows.headD []).length

/-- Rows make a matrix that has them as its rows, unless they are ragged; then they make none. -/
def Faithful (rows : List (List Rat)) : Prop :=
  ((∃ fault, ofRows rows = .error fault) ↔ Ragged rows) ∧
    ∀ m, ofRows rows = .ok m → m.rows = rows.length ∧
      ∀ i (hi : i < rows.length), m.row i = .ok rows[i]

/-- The matrix has one row for each of those given, of the width of the first, cut from all entries in
their order. -/
def CutsRows (rows : List (List Rat)) (m : RatMatrix) : Prop :=
  m.rows = rows.length ∧ m.cols = firstWidth rows ∧ ∀ i < rows.length,
    m.row i = .ok ((rows.flatten.drop (i * firstWidth rows)).take (firstWidth rows))

variable {rows : List (List Rat)}

theorem not_ragged_iff : ¬ Ragged rows ↔ ∀ row ∈ rows, row.length = firstWidth rows := by
  constructor
  · intro even row member
    by_contra different
    cases rows with
    | nil => simp at member
    | cons first others => exact even ⟨row, member, first, List.mem_cons_self, different⟩
  · rintro even ⟨a, memberA, b, memberB, different⟩
    exact different ((even a memberA).trans (even b memberB).symm)

theorem map_length_of_not_ragged (even : ¬ Ragged rows) :
    rows.map List.length = List.replicate rows.length (firstWidth rows) :=
  List.map_eq_replicate_iff.mpr (not_ragged_iff.mp even)

theorem length_flatten_of_not_ragged (even : ¬ Ragged rows) :
    rows.flatten.length = rows.length * firstWidth rows := by
  rw [List.length_flatten, map_length_of_not_ragged even, List.sum_replicate_nat]

/-- Rows of one length are found again where they are cut. -/
theorem take_drop_flatten (even : ¬ Ragged rows) {i : Nat} (hi : i < rows.length) :
    (rows.flatten.drop (i * firstWidth rows)).take (firstWidth rows) = rows[i] := by
  have behind := List.drop_sum_flatten rows i
  rw [map_length_of_not_ragged even, List.take_replicate, List.sum_replicate_nat,
    Nat.min_eq_left hi.le] at behind
  rw [behind, List.drop_eq_getElem_cons hi, List.flatten_cons]
  exact List.take_left' (not_ragged_iff.mp even _ (List.getElem_mem hi))

namespace RatMatrix

theorem row_eq (m : RatMatrix) {i : Nat} (hi : i < m.rows) :
    m.row i = .ok ((m.data.toList.drop (i * m.cols)).take m.cols) := by
  apply if_pos
  rw [← Nat.succ_mul]
  exact Nat.mul_le_mul_right m.cols hi

theorem length_of_row {m : RatMatrix} {i : Nat} {entries : List Rat}
    (found : m.row i = .ok entries) : entries.length = m.cols := by
  by_cases inside : i * m.cols + m.cols ≤ m.rows * m.cols
  · rw [row, if_pos inside, Except.ok.injEq] at found
    rw [← found, List.length_take, List.length_drop, Vector.length_toList]
    omega
  · simp [row, inside] at found

theorem ofRows_of_fits (fits : rows.flatten.length = rows.length * firstWidth rows) :
    ∃ m, ofRows rows = .ok m ∧ CutsRows rows m := by
  cases rows with
  | nil => exact ⟨_, rfl, rfl, rfl, by simp⟩
  | cons first others =>
    have made : ofRows (first :: others) = .ok ⟨(first :: others).length,
        firstWidth (first :: others), ⟨(first :: others).flatten.toArray, fits⟩⟩ := dif_pos fits
    exact ⟨_, made, rfl, rfl, fun i hi => row_eq _ hi⟩

theorem ofRows_of_not_fits (excess : rows.flatten.length ≠ rows.length * firstWidth rows) :
    ofRows rows = .error .wrongShape := by
  cases rows with
  | nil => simp at excess
  | cons first others => exact dif_neg excess

theorem ofRows_eq_error_iff : (∃ fault, ofRows rows = .error fault) ↔
    rows.flatten.length ≠ rows.length * firstWidth rows := by
  constructor
  · rintro ⟨fault, stopped⟩ fits
    obtain ⟨m, made, -⟩ := ofRows_of_fits fits
    exact nomatch made.symm.trans stopped
  · intro excess
    exact ⟨_, ofRows_of_not_fits excess⟩

theorem cutsRows_of_ofRows {m : RatMatrix} (made : ofRows rows = .ok m) : CutsRows rows m := by
  have fits : rows.flatten.length = rows.length * firstWidth rows := by
    by_contra excess
    exact nomatch made.symm.trans (ofRows_of_not_fits excess)
  obtain ⟨m', made', cuts⟩ := ofRows_of_fits fits
  rwa [Except.ok.inj (made.symm.trans made')]

end RatMatrix

theorem CutsRows.row_eq_getElem {m : RatMatrix} (cuts : CutsRows rows m) (even : ¬ Ragged rows)
    {i : Nat} (hi : i < rows.length) : m.row i = .ok rows[i] := by
  rw [cuts.2.2 i hi, take_drop_flatten even hi]

/-- All rows of a matrix are of one length, so it cannot have ragged ones. -/
theorem CutsRows.exists_row_ne {m : RatMatrix} (cuts : CutsRows rows m) (ragged : Ragged rows) :
    ∃ i, ∃ hi : i < rows.length, m.row i ≠ .ok rows[i] := by
  by_contra none
  push Not at none
  refine not_ragged_iff.mpr (fun row member => ?_) ragged
  obtain ⟨i, hi, rfl⟩ := List.mem_iff_getElem.mp member
  exact (length_of_row (none i hi)).trans cuts.2.1

/-- Whether rows make a matrix is decided by their total alone, and its rows are cut from all entries
in their order. These are the rows that were given, and ragged ones make none, unless they are ragged
and the total fits; then some row is another one. -/
theorem ofRows_faithful_iff (rows : List (List Rat)) :
    ((∃ fault, ofRows rows = .error fault) ↔
      rows.flatten.length ≠ rows.length * firstWidth rows) ∧
    (∀ m, ofRows rows = .ok m → CutsRows rows m ∧
      (Ragged rows → ∃ i, ∃ hi : i < rows.length, m.row i ≠ .ok rows[i])) ∧
    (Faithful rows ↔
      ¬ (Ragged rows ∧ rows.flatten.length = rows.length * firstWidth rows)) := by
  refine ⟨ofRows_eq_error_iff, fun m made =>
    ⟨cutsRows_of_ofRows made, (cutsRows_of_ofRows made).exists_row_ne⟩, ?_⟩
  constructor
  · rintro ⟨faults, -⟩ ⟨ragged, fits⟩
    exact ofRows_eq_error_iff.mp (faults.mpr ragged) fits
  · intro unfit
    by_cases ragged : Ragged rows
    · have excess := fun fits => unfit ⟨ragged, fits⟩
      refine ⟨iff_of_true ⟨_, ofRows_of_not_fits excess⟩ ragged, fun m made => ?_⟩
      exact nomatch made.symm.trans (ofRows_of_not_fits excess)
    · have fits := length_flatten_of_not_ragged ragged
      refine ⟨iff_of_false (fun faults => ofRows_eq_error_iff.mp faults fits) ragged,
        fun m made => ?_⟩
      have cuts := cutsRows_of_ofRows made
      exact ⟨cuts.1, fun i hi => cuts.row_eq_getElem ragged hi⟩

/-- A short row and a long one: the total is that of three rows of two entries, and the second row of
the matrix is filled up from the third. -/
theorem ofRows_ragged_fits :
    Ragged [[1, 2], [3], [4, 5, 6]] ∧
      (∃ m, ofRows [[1, 2], [3], [4, 5, 6]] = .ok m ∧ m.row 1 = .ok [3, 4]) ∧
      ¬ Faithful [[1, 2], [3], [4, 5, 6]] := by
  have ragged : Ragged [[1, 2], [3], [4, 5, 6]] :=
    ⟨[1, 2], by simp, [3], by simp, by decide⟩
  have made : ∃ m, ofRows [[1, 2], [3], [4, 5, 6]] = .ok m ∧ m.row 1 = .ok [3, 4] :=
    ⟨_, rfl, rfl⟩
  refine ⟨ragged, made, fun faithful => ?_⟩
  obtain ⟨m, result, -⟩ := made
  obtain ⟨fault, stopped⟩ := faithful.1.mpr ragged
  exact nomatch result.symm.trans stopped

end ExactLinear
