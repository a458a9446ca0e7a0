import ExactLinear.Proofs.RowOperation
import Mathlib.Tactic.Ring

/-! Row operations on any matrix, with any row numbers. A loop that writes cell after cell could fault
with half a row written; that it does not is seen at its first cell, which is inside the data
exactly if the whole row is. So each operation is one equation: a fault with the matrix as it was, or
a matrix of the same shape. Frames and inverses are read off these equations. -/
namespace ExactLinear

open RatMatrix

/-- What a row operation does to `m`: it faults exactly if `blocked`, and then nothing has been
written; else the matrix keeps its shape and holds the entries `after`. -/
structure EditsRows (edit : Edit Unit) (m : RatMatrix) (blocked : Prop)
    (after : Nat → Nat → Rat) : Prop where
  faults_iff : (∃ fault left, edit m = .error fault left) ↔ blocked
  untouched : ∀ fault left, edit m = .error fault left → left = m
  shape : ∀ edited, edit m = .ok () edited → edited.rows = m.rows ∧ edited.cols = m.cols ∧
    edited.data.toArray.size = m.data.toArray.size
  entries : ∀ edited, edit m = .ok () edited →
    ∀ r < m.rows, ∀ c < m.cols, edited.entry r c = after r c

/-- Wherever `edit` has a result, `back` takes it to the matrix that was there before. -/
def Restores (back edit : Edit Unit) (m : RatMatrix) : Prop :=
  ∀ edited, edit m = .ok () edited → back edited = .ok () m

section Equation

variable {edit back : Edit Unit} {m : RatMatrix} {blocked : Prop} [Decidable blocked]
  {after : Nat → Nat → Rat}

theorem EditsRows.of_eq (equation : edit m =
      if blocked then .error .outOfRange m else .ok () (ofFn m.rows m.cols after)) :
    EditsRows edit m blocked after := by
  by_cases stop : blocked
  · rw [if_pos stop] at equation
    exact ⟨by simp [equation, stop], by simp [equation, eq_comm], by simp [equation],
      by simp [equation]⟩
  · rw [if_neg stop] at equation
    refine ⟨by simp [equation, stop], by simp [equation], fun edited ran => ?_,
      fun edited ran r hr c hc => ?_⟩
    · obtain ⟨-, rfl⟩ := EStateM.Result.ok.inj (equation.symm.trans ran)
      exact ⟨rfl, rfl, by rw [Vector.size_toArray, Vector.size_toArray]; rfl⟩
    · obtain ⟨-, rfl⟩ := EStateM.Result.ok.inj (equation.symm.trans ran)
      exact entry_ofFn after hr hc

theorem Restores.of_eq {restored : Nat → Nat → Rat} (equation : edit m =
      if blocked then .error .outOfRange m else .ok () (ofFn m.rows m.cols after))
    (undone : ¬ blocked →
      back (ofFn m.rows m.cols after) = .ok () (ofFn m.rows m.cols restored))
    (same : ¬ blocked → ∀ r < m.rows, ∀ c < m.cols, m.entry r c = restored r c) :
    Restores back edit m := by
  intro edited ran
  by_cases stop : blocked
  · simp [equation, stop] at ran
  · rw [equation, if_neg stop] at ran
    obtain ⟨-, rfl⟩ := EStateM.Result.ok.inj ran
    rw [undone stop, ← eq_ofFn rfl rfl (same stop)]

end Equation

namespace Edit

variable {m : RatMatrix}

/-- A loop over the columns whose first step tells whether any of its steps faults. -/
theorem eq_of_forEach {edit : Edit Unit} {step : Nat → Edit Unit} {blocked : Prop}
    [Decidable blocked] {after : Nat → Nat → Rat} (loop : edit m = forEach m.cols step m)
    (stops : blocked → step 0 m = .error .outOfRange m)
    (runs : ¬ blocked → edit m = .ok () (ofFn m.rows m.cols after)) :
    edit m = if 0 < m.cols ∧ blocked then .error .outOfRange m
      else .ok () (ofFn m.rows m.cols after) := by
  by_cases stop : blocked
  · rw [loop]
    cases width : m.cols with
    | zero =>
      -- no step is taken, and any table without columns is the matrix itself
      have same : m = ofFn m.rows 0 after := eq_ofFn rfl width (by simp)
      rw [if_neg (by simp), ← same]
      rfl
    | succ width =>
      rw [if_pos ⟨by omega, stop⟩, forEach, forEachFrom, bind_error (stops stop)]
  · rw [runs stop, if_neg fun both => stop both.2]

theorem swapRows_eq (m : RatMatrix) (i j : Nat) :
    swapRows i j m = if i ≠ j ∧ 0 < m.cols ∧ m.rows ≤ max i j then .error .outOfRange m
      else .ok () (ofFn m.rows m.cols fun r => m.entry (Equiv.swap i j r)) := by
  by_cases same : i = j
  · subst same
    simp [swapRows, pure, EStateM.pure]
  · have loop : swapRows i j m = forEach m.cols (swapCells i j) m := by
      rw [swapRows, if_neg same]
      rfl
    simp only [ne_eq, same, not_false_eq_true, true_and]
    apply eq_of_forEach loop
    · intro past
      apply dif_neg
      rintro ⟨first, second⟩
      rcases le_max_iff.mp past with past | past
      · exact position_outside past 0 first
      · exact position_outside past 0 second
    · intro inside
      have run : swapRows i j (ofFn m.rows m.cols m.entry) = _ :=
        swapRows_ofFn (by omega) (by omega)
      rwa [ofFn_entry] at run

theorem addScaledRow_eq (m : RatMatrix) (target source : Nat) (scale : Rat) :
    addScaledRow target source scale m =
      if 0 < m.cols ∧ m.rows ≤ max target source then .error .outOfRange m
      else .ok () (ofFn m.rows m.cols fun r c =>
        if r = target then m.entry target c + scale * m.entry source c else m.entry r c) := by
  have loop : addScaledRow target source scale m = forEach m.cols _ m := rfl
  apply eq_of_forEach loop
  · intro past
    -- the source is read first; where that succeeds it is the target that is not there
    by_cases inside : source * m.cols + 0 < m.rows * m.cols
    · have target_past : m.rows ≤ target := by
        rcases le_max_iff.mp past with past | past
        · exact past
        · exact absurd inside (position_outside past 0)
      rw [bind_apply (read_apply inside),
        bind_error (read_apply_outside (position_outside target_past 0))]
    · rw [bind_error (read_apply_outside inside)]
  · intro inside
    have run : addScaledRow target source scale (ofFn m.rows m.cols m.entry) = _ :=
      addScaledRow_ofFn scale (by omega) (by omega)
    simpa only [ofFn_entry, mul_comm scale] using run

theorem scaleRow_eq (m : RatMatrix) (i : Nat) (scale : Rat) :
    scaleRow i scale m = if 0 < m.cols ∧ m.rows ≤ i then .error .outOfRange m
      else .ok () (ofFn m.rows m.cols fun r c =>
        if r = i then scale * m.entry i c else m.entry r c) := by
  have loop : scaleRow i scale m = forEach m.cols _ m := rfl
  apply eq_of_forEach loop
  · intro past
    rw [bind_error (read_apply_outside (position_outside past 0))]
  · intro inside
    have run : scaleRow i scale (ofFn m.rows m.cols m.entry) = _ :=
      scaleRow_ofFn scale (by omega)
    simpa only [ofFn_entry, mul_comm scale] using run

/-- Two rows that were exchanged are exchanged back. -/
theorem restores_swapRows (m : RatMatrix) (i j : Nat) :
    Restores (swapRows i j) (swapRows i j) m := by
  apply Restores.of_eq (swapRows_eq m i j)
  · intro inside
    rw [swapRows_eq, rows_ofFn, cols_ofFn, if_neg inside]
  · intro inside r hr c hc
    by_cases same : i = j
    · subst same
      simp
    · have rows : max i j < m.rows := by omega
      rw [entry_ofFn _ (swap_lt (by omega) (by omega) hr) hc, Equiv.swap_apply_self]

/-- The other row is as it was, so the same multiple of it can be taken away again. -/
theorem restores_addScaledRow (m : RatMatrix) {target source : Nat} (apart : target ≠ source)
    (scale : Rat) :
    Restores (addScaledRow target source (-scale)) (addScaledRow target source scale) m := by
  apply Restores.of_eq (addScaledRow_eq m target source scale)
  · intro inside
    rw [addScaledRow_eq, rows_ofFn, cols_ofFn, if_neg inside]
  · intro inside r hr c hc
    have rows : max target source < m.rows := by omega
    rw [entry_ofFn _ hr hc, entry_ofFn _ (show target < m.rows by omega) hc,
      entry_ofFn _ (show source < m.rows by omega) hc]
    by_cases row : r = target
    · simp only [row, if_true, apart.symm, if_false]
      ring
    · simp only [row, if_false]

theorem restores_scaleRow (m : RatMatrix) (i : Nat) {scale : Rat} (nonzero : scale ≠ 0) :
    Restores (scaleRow i scale⁻¹) (scaleRow i scale) m := by
  apply Restores.of_eq (scaleRow_eq m i scale)
  · intro inside
    rw [scaleRow_eq, rows_ofFn, cols_ofFn, if_neg inside]
  · intro inside r hr c hc
    rw [entry_ofFn _ hr hc]
    by_cases row : r = i
    · subst row
      rw [if_pos rfl, entry_ofFn _ hr hc, if_pos rfl, inv_mul_cancel_left₀ nonzero]
    · simp only [row, if_false]

end Edit

/-- Row operations are exact, change no row but the ones they name, and do all or nothing. What
touches no cell never faults, whatever the row numbers: an exchange of a row with itself, and
anything done to a matrix without columns. -/
theorem rowOperations_framed (m : RatMatrix) (i j : Nat) (scale : Rat) :
    (EditsRows (Edit.swapRows i j) m (i ≠ j ∧ 0 < m.cols ∧ m.rows ≤ max i j)
        (fun r => m.entry (if r = i then j else if r = j then i else r)) ∧
      Restores (Edit.swapRows i j) (Edit.swapRows i j) m) ∧
    (EditsRows (Edit.addScaledRow i j scale) m (0 < m.cols ∧ m.rows ≤ max i j)
        (fun r c => if r = i then m.entry i c + scale * m.entry j c else m.entry r c) ∧
      EditsRows (Edit.addScaledRow i i scale) m (0 < m.cols ∧ m.rows ≤ i)
        (fun r c => if r = i then (1 + scale) * m.entry i c else m.entry r c) ∧
      (i ≠ j → Restores (Edit.addScaledRow i j (-scale)) (Edit.addScaledRow i j scale) m)) ∧
    EditsRows (Edit.scaleRow i scale) m (0 < m.cols ∧ m.rows ≤ i)
        (fun r c => if r = i then scale * m.entry i c else m.entry r c) ∧
      (scale ≠ 0 → ∃ inverse, Rational.reciprocal scale = .ok inverse ∧
        Restores (Edit.scaleRow i inverse) (Edit.scaleRow i scale) m) := by
  refine ⟨⟨?_, Edit.restores_swapRows m i j⟩,
    ⟨.of_eq (Edit.addScaledRow_eq m i j scale), ?_, fun apart =>
      Edit.restores_addScaledRow m apart scale⟩,
    .of_eq (Edit.scaleRow_eq m i scale), fun nonzero => ?_⟩
  · simp only [← Equiv.swap_apply_def]
    exact .of_eq (Edit.swapRows_eq m i j)
  · have own := Edit.addScaledRow_eq m i i scale
    rw [max_self] at own
    simp only [add_mul, one_mul]
    exact .of_eq own
  · have inverse : Rational.reciprocal scale = .ok scale⁻¹ := by simp [Rational.reciprocal, nonzero]
    exact ⟨_, inverse, Edit.restores_scaleRow m i nonzero⟩

end ExactLinear
