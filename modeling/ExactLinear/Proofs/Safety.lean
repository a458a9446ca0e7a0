import ExactLinear.Proofs.RankCriterion
import ExactLinear.Proofs.RowFrames

/-! Solving stays inside the domain of every operation it uses. Elimination is followed from column to
column: whatever state it gets to, the entries it looks at are there and the one it divides by is
not zero. That the entries on the diagonal can be inverted in the end is no matter of one column; it
follows from the shape that all of them together leave. What is left are the products and sums of
dimensions, which a machine word can be too small for; how large matrices can be says when it is not. -/
namespace ExactLinear

open RatMatrix

/-- The states in which elimination of `m` comes to a column, with the number of pivots before it. -/
inductive Round (pivoting : Pivoting) (m : RatMatrix) : (col rank : Nat) → RatMatrix → Prop
  | first : Round pivoting m 0 0 m
  | next {col rank : Nat} {before after : RatMatrix} {event : ColumnEvent}
      (round : Round pivoting m col rank before) (room : rank < before.rows)
      (treated : Edit.eliminateColumn pivoting col rank before = .ok event after) :
      Round pivoting m (col + 1) event.rankAfter after

/-- Everything done to treat a column has a result: the search for a pivot and, if it finds a row,
the exchange of rows, the look at the divisor, which is not zero, and the clearing of the column. -/
def SafeRound (pivoting : Pivoting) (col rank : Nat) (m : RatMatrix) : Prop :=
  ∃ found, m.selectPivot pivoting col rank = .ok found ∧
    ∀ row, found = some row → ∃ swapped divisor cleared,
      Edit.swapRows row rank m = .ok () swapped ∧
      Edit.read rank col swapped = .ok divisor swapped ∧ divisor ≠ 0 ∧
      Edit.clearColumn col rank swapped = .ok () cleared

/-- An elimination over `width` columns of `m` is safe in every round and comes to its end, in the
state before the first column that it does not treat. -/
structure SafeElimination (pivoting : Pivoting) (width : Nat) (m : RatMatrix) (r : Reduction)
    (reduced : RatMatrix) : Prop where
  safe : ∀ col rank before, Round pivoting m col rank before → col < width →
    rank < before.rows → SafeRound pivoting col rank before
  run : Edit.reduce pivoting width m = .ok r reduced
  last : ∃ col ≤ width, Round pivoting m col r.rank reduced ∧ (col = width ∨ reduced.rows ≤ r.rank)

/-- When it is the turn of row `k` to be scaled, the entry `(k, k)` is there and has a reciprocal. -/
def SafeNormalization (width : Nat) (m : RatMatrix) : Prop :=
  ∀ k < width, ∃ scaled pivot, Edit.forEach k Edit.normalizeRow m = .ok () scaled ∧
    Edit.read k k scaled = .ok pivot scaled ∧ pivot ≠ 0

section Rounds

variable {pivoting : Pivoting} {m before : RatMatrix} {col rank count : Nat}

theorem safeRound (pivoting : Pivoting) (m : RatMatrix) (inside : col < m.cols)
    (room : rank < m.rows) : SafeRound pivoting col rank m := by
  obtain ⟨rows, cols, f, rfl⟩ := m.exists_eq_ofFn
  refine ⟨_, selectPivot_ofFn pivoting rank inside, fun row search => ?_⟩
  obtain ⟨-, upper, usable⟩ := Pivoting.search_eq_some search
  have moved : f (Equiv.swap row rank rank) col ≠ 0 := by simpa using usable
  exact ⟨_, _, _, Edit.swapRows_ofFn upper room, Edit.read_ofFn room inside, moved,
    Edit.clearColumn_ofFn inside room moved⟩

/-- A column is treated without a fault, and the matrix keeps its shape. -/
theorem exists_eliminateColumn (pivoting : Pivoting) (m : RatMatrix) (inside : col < m.cols)
    (room : rank < m.rows) :
    ∃ event after, Edit.eliminateColumn pivoting col rank m = .ok event after ∧
      after.rows = m.rows ∧ after.cols = m.cols := by
  obtain ⟨rows, cols, f, rfl⟩ := m.exists_eq_ofFn
  cases search : pivoting.search rows f col rank with
  | none => exact ⟨_, _, Edit.eliminateColumn_free inside search, rfl, rfl⟩
  | some row => exact ⟨_, _, Edit.eliminateColumn_pivot inside room search, rfl, rfl⟩

theorem Round.shape (round : Round pivoting m col rank before)
    (bound : 0 < m.rows → col ≤ m.cols) : before.rows = m.rows ∧ before.cols = m.cols := by
  induction round with
  | first => exact ⟨rfl, rfl⟩
  | @next col rank before after event round room treated ih =>
    obtain ⟨rows, cols⟩ := ih (by omega)
    obtain ⟨event', after', treated', rows', cols'⟩ :=
      exists_eliminateColumn pivoting before (show col < before.cols by omega) room
    obtain ⟨rfl, rfl⟩ := EStateM.Result.ok.inj (treated.symm.trans treated')
    exact ⟨rows'.trans rows, cols'.trans cols⟩

/-- From any state that is reached the loop runs on to its end, from round to round. -/
theorem Round.run (round : Round pivoting m col rank before)
    (bound : 0 < m.rows → col + count ≤ m.cols) :
    ∃ r after, Edit.eliminateColumns pivoting count col rank before = .ok r after ∧
      ∃ last ≤ col + count, Round pivoting m last r.rank after ∧
        (last = col + count ∨ after.rows ≤ r.rank) := by
  induction count generalizing col rank before with
  | zero => exact ⟨⟨[], rank⟩, before, rfl, col, Nat.le_refl _, round, .inl rfl⟩
  | succ count ih =>
    have look : Edit.rows before = .ok before.rows before := rfl
    by_cases full : before.rows ≤ rank
    · refine ⟨⟨[], rank⟩, before, ?_, col, by omega, round, .inr full⟩
      rw [Edit.eliminateColumns, Edit.bind_apply look, if_pos full]
      rfl
    · obtain ⟨rows, cols⟩ := round.shape (by omega)
      obtain ⟨event, after, treated, -⟩ := exists_eliminateColumn pivoting before
        (show col < before.cols by omega) (show rank < before.rows by omega)
      obtain ⟨r, ended, ran, last, within, reached, stops⟩ :=
        ih (round.next (by omega) treated) (by omega)
      refine ⟨{ r with columns := event :: r.columns }, ended, ?_, last, by omega, reached, ?_⟩
      · rw [Edit.eliminateColumns, Edit.bind_apply look, if_neg full, Edit.bind_apply treated,
          Edit.bind_apply ran]
        rfl
      · exact stops.imp_left fun equal => by omega

theorem exists_safeElimination (pivoting : Pivoting) (m : RatMatrix) {width : Nat}
    (bound : 0 < m.rows → width ≤ m.cols) :
    ∃ r reduced, SafeElimination pivoting width m r reduced := by
  have start : Round pivoting m 0 0 m := .first
  have whole := start.run fun some => (Nat.zero_add width).trans_le (bound some)
  rw [Nat.zero_add] at whole
  obtain ⟨r, reduced, run, last⟩ := whole
  refine ⟨r, reduced, ?_, run, last⟩
  intro col rank before round inside room
  obtain ⟨rows, cols⟩ := round.shape (by omega)
  exact safeRound pivoting before (by omega) room

end Rounds

theorem safeNormalization {rows cols width : Nat} {f g : Nat → Nat → Rat} {r : Reduction}
    (reduced : Reduced rows cols width [] f r g) (bound : 0 < rows → width ≤ cols)
    (full : width ≤ r.rank) : SafeNormalization width (ofFn rows cols g) := by
  obtain ⟨-, inRows, usable⟩ := reduced.diagonal full
  intro k hk
  have scaled := Edit.normalizeRows_ofFn (hk.le.trans inRows) (show k ≤ cols by omega)
    fun i hi => usable i (hi.trans hk)
  refine ⟨_, _, scaled, Edit.read_ofFn (by omega) (by omega), ?_⟩
  simpa using usable k hk

namespace RatMatrix

/-- The matrices that can be made: filled, read from lists, multiplied, edited, or found by solving. A
list has no more entries than can be stored. -/
inductive Built : RatMatrix → Prop
  | zeros {rows cols : Nat} {m : RatMatrix} (made : zeros rows cols = .ok m) : Built m
  | generate {rows cols : Nat} {seed : Nat → Nat → Except Fault Rat} {m : RatMatrix}
      (made : generate rows cols seed = .ok m) : Built m
  | ofEntries {rows cols : Nat} {entries : Array Rat} {m : RatMatrix}
      (stored : entries.size ≤ mostEntries) (made : ofEntries rows cols entries = .ok m) : Built m
  | ofRows {lists : List (List Rat)} {m : RatMatrix} (stored : lists.flatten.length ≤ mostEntries)
      (made : ofRows lists = .ok m) : Built m
  | product {a b m : RatMatrix} (left : Built a) (right : Built b)
      (made : a.product b = .ok m) : Built m
  | write {m edited : RatMatrix} {i j : Nat} {value : Rat} (built : Built m)
      (ran : Edit.write i j value m = .ok () edited) : Built edited
  | swapRows {m edited : RatMatrix} {i j : Nat} (built : Built m)
      (ran : Edit.swapRows i j m = .ok () edited) : Built edited
  | addScaledRow {m edited : RatMatrix} {target source : Nat} {scale : Rat} (built : Built m)
      (ran : Edit.addScaledRow target source scale m = .ok () edited) : Built edited
  | scaleRow {m edited : RatMatrix} {i : Nat} {scale : Rat} (built : Built m)
      (ran : Edit.scaleRow i scale m = .ok () edited) : Built edited
  | solution {a y x : RatMatrix} {pivoting : Pivoting} {solved : Solved RatMatrix}
      (left : Built a) (right : Built y) (ran : a.solve y pivoting = .ok solved)
      (unique : solved.solution = .unique x) : Built x

def Storable (m : RatMatrix) : Prop := m.rows * m.cols ≤ mostEntries

variable {a y m edited : RatMatrix} {rows cols : Nat}

theorem Storable.of_shape (storable : m.Storable) (sameRows : edited.rows = m.rows)
    (sameCols : edited.cols = m.cols) : edited.Storable := by
  rwa [Storable, sameRows, sameCols]

theorem storable_of_generate {seed : Nat → Nat → Except Fault Rat}
    (made : generate rows cols seed = .ok m) : m.Storable := by
  by_cases fits : rows * cols ≤ mostEntries
  · rw [generate, if_pos fits, tabulate] at made
    obtain ⟨data, -, filled⟩ := bind_eq_ok_iff.mp made
    obtain rfl := Except.ok.inj filled
    exact fits
  · rw [generate, if_neg fits] at made
    contradiction

theorem storable_of_zeros (made : zeros rows cols = .ok m) : m.Storable := by
  by_cases fits : rows * cols ≤ mostEntries
  · rw [zeros, if_pos fits] at made
    obtain rfl := Except.ok.inj made
    exact fits
  · rw [zeros, if_neg fits] at made
    contradiction

theorem storable_of_ofEntries {entries : Array Rat} (stored : entries.size ≤ mostEntries)
    (made : ofEntries rows cols entries = .ok m) : m.Storable := by
  by_cases shape : entries.size = rows * cols
  · rw [ofEntries, dif_pos shape] at made
    obtain rfl := Except.ok.inj made
    exact shape.ge.trans stored
  · rw [ofEntries, dif_neg shape] at made
    contradiction

theorem storable_of_write {i j : Nat} {value : Rat} (storable : m.Storable)
    (ran : Edit.write i j value m = .ok () edited) : edited.Storable := by
  by_cases inside : i * m.cols + j < m.rows * m.cols
  · rw [Edit.write, dif_pos inside] at ran
    obtain ⟨-, rfl⟩ := EStateM.Result.ok.inj ran
    exact storable
  · rw [Edit.write_apply_outside value inside] at ran
    contradiction

theorem storable_of_edits {edit : Edit Unit} {blocked : Prop} {after : Nat → Nat → Rat}
    (edits : EditsRows edit m blocked after) (storable : m.Storable)
    (ran : edit m = .ok () edited) : edited.Storable :=
  storable.of_shape (edits.shape edited ran).1 (edits.shape edited ran).2.1

/-- A unique solution has no more rows than there are equations. -/
theorem storable_of_solve {x : RatMatrix} {pivoting : Pivoting} {solved : Solved RatMatrix}
    (storable : y.Storable) (ran : a.solve y pivoting = .ok solved)
    (unique : solved.solution = .unique x) : x.Storable := by
  obtain ⟨⟨rows, cols, isProduct⟩, independent⟩ := (answers_of_solve ran).eq_unique_iff.mp unique
  rw [hasCancelling_iff_rank, Nat.not_lt] at independent
  have height : x.rows ≤ y.rows := by
    have := (table a.rows a.cols a.entry).rank_le_height
    have := isProduct.height
    omega
  calc x.rows * x.cols ≤ y.rows * x.cols := Nat.mul_le_mul_right x.cols height
    _ = y.rows * y.cols := by rw [cols]
    _ ≤ mostEntries := storable

theorem Built.storable (built : Built m) : m.Storable := by
  induction built with
  | zeros made => exact storable_of_zeros made
  | generate made => exact storable_of_generate made
  | ofEntries stored made => exact storable_of_ofEntries stored made
  | @ofRows lists m stored made =>
    cases lists with
    | nil => exact storable_of_zeros made
    | cons first others => exact storable_of_ofEntries (by simpa using stored) made
  | @product a b m left right made =>
    obtain ⟨isProduct, fits⟩ := (product_eq_ok_iff a b m).mp made
    rwa [Storable, ← isProduct.height, ← isProduct.width]
  | write built ran ih => exact storable_of_write ih ran
  | @swapRows m edited i j built ran ih =>
    exact storable_of_edits (.of_eq (Edit.swapRows_eq m i j)) ih ran
  | @addScaledRow m edited target source scale built ran ih =>
    exact storable_of_edits (.of_eq (Edit.addScaledRow_eq m target source scale)) ih ran
  | @scaleRow m edited i scale built ran ih =>
    exact storable_of_edits (.of_eq (Edit.scaleRow_eq m i scale)) ih ran
  | solution left right ran unique ihLeft ihRight => exact storable_of_solve ihRight ran unique

/-- The widths of two matrices with rows add up within a machine word. -/
theorem Storable.width_lt (left : a.Storable) (right : y.Storable) (someLeft : 0 < a.rows)
    (someRight : 0 < y.rows) : a.cols + y.cols < wordSize := by
  have wide {m : RatMatrix} (storable : m.Storable) (some : 0 < m.rows) : m.cols ≤ mostEntries :=
    (Nat.le_mul_of_pos_left m.cols some).trans storable
  have twice : mostEntries + mostEntries < wordSize := by decide
  have := wide left someLeft
  have := wide right someRight
  omega

/-- A build takes so many entries for a matrix of the given shape. It asks for as many as a product of
machine words says. -/
def Accepts (overflow : Overflow) (rows cols count : Nat) : Prop :=
  overflow.word (rows * cols) = .ok count

/-- Entries that do not fill a matrix are taken for one only where the product wraps. -/
theorem accepts_iff {entries : Array Rat} (stored : entries.size < wordSize)
    (overflow : Overflow) :
    Accepts overflow rows cols entries.size ↔
      (∃ m, ofEntries rows cols entries = .ok m) ∨
        overflow = .wrapping ∧ wordSize ≤ rows * cols ∧ rows * cols % wordSize = entries.size := by
  have filled : (∃ m, ofEntries rows cols entries = .ok m) ↔ entries.size = rows * cols := by
    by_cases shape : entries.size = rows * cols <;> simp [ofEntries, shape]
  rw [filled, Accepts]
  by_cases fits : rows * cols < wordSize
  · rw [overflow.word_of_lt fits]
    simp [Nat.not_le.mpr fits, eq_comm]
  · have unfilled : entries.size ≠ rows * cols := by omega
    cases overflow with
    | checked => simp [Overflow.word, fits, unfilled]
    | wrapping => simp [Overflow.word, Nat.not_lt.mp fits, unfilled]

/-- A shape with more cells than a machine word can count, taken for one without cells. -/
example : Accepts .wrapping (2 ^ 32) (2 ^ 32) 0 := by
  rw [Accepts]
  decide

/-- Checking sums stops the solver only where a sum of widths leaves a machine word. -/
theorem solveIn_checked (same : a.rows = y.rows) (pivoting : Pivoting) :
    solveIn .checked a y pivoting =
      if a.rows = 0 ∧ wordSize ≤ a.cols + y.cols then .error (.fault .tooLarge)
      else a.solve y pivoting := by
  by_cases stop : a.rows = 0 ∧ wordSize ≤ a.cols + y.cols
  · have width : joinedWidth .checked a y = .error .tooLarge := by
      rw [joinedWidth, if_pos stop.1, Overflow.word, if_neg (Nat.not_lt.mpr stop.2)]
    rw [if_pos stop, solveIn, if_pos same, augmentIn, width]
    rfl
  · have width (overflow : Overflow) : joinedWidth overflow a y = .ok (a.cols + y.cols) := by
      by_cases some : 0 < a.rows
      · exact joinedWidth_of_rows overflow some
      · exact joinedWidth_of_lt overflow (by omega)
    rw [if_neg stop, solve, solveIn, solveIn, augmentIn, augmentIn, width, width]

end RatMatrix

/-- Two matrices without rows that together are wider than a machine word can say. -/
example : solveIn .checked (ofFn 0 (2 ^ 64 - 1) fun _ _ => 0) (ofFn 0 1 fun _ _ => 0) .largest =
    .error (.fault .tooLarge) := by
  decide +kernel

end ExactLinear
