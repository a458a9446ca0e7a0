import ExactLinear.Proofs.Reduction

/-! What elimination leaves behind. The table is in echelon form, its rows and those of the matrix that
was given are made up of each other, and to eliminate again changes nothing: a second run comes to
each pivot where the first one left it, with no row to exchange and no entry to clear. -/
namespace ExactLinear

open RatMatrix

/-- Of the pivots in the columns `pivots`, those before column `col` are the first `rank`. -/
structure Counts (pivots : List Nat) (col rank : Nat) : Prop where
  le_length : rank ≤ pivots.length
  before_iff : ∀ t (ht : t < pivots.length), pivots[t] < col ↔ t < rank

namespace Counts

variable {pivots : List Nat} {col rank : Nat}

theorem start (pivots : List Nat) : Counts pivots 0 0 :=
  ⟨Nat.zero_le _, by simp⟩

/-- Behind the last column all pivots have been counted. -/
theorem eq_length (counts : Counts pivots col rank) (within : ∀ c ∈ pivots, c < col) :
    rank = pivots.length := by
  refine Nat.le_antisymm counts.le_length (Nat.le_of_not_lt fun left => ?_)
  have inside := within _ (List.getElem_mem left)
  exact Nat.lt_irrefl rank ((counts.before_iff rank left).mp inside)

theorem pivot (ascending : pivots.Pairwise (· < ·)) (left : rank < pivots.length) :
    Counts pivots (pivots[rank] + 1) (rank + 1) := by
  refine ⟨left, fun t ht => ?_⟩
  have order := List.pairwise_iff_getElem.mp ascending
  rcases Nat.lt_trichotomy t rank with before | rfl | behind
  · have := order t rank ht left before
    omega
  · omega
  · have := order rank t left ht behind
    omega

/-- If the next pivot is not in this column, it and all others are in later ones. -/
theorem lt_of_le (counts : Counts pivots col rank) (ascending : pivots.Pairwise (· < ·))
    (free : ∀ left : rank < pivots.length, pivots[rank] ≠ col) {t : Nat} (ht : t < pivots.length)
    (later : rank ≤ t) : col < pivots[t] := by
  have left : rank < pivots.length := by omega
  have reached := mt (counts.before_iff rank left).mp (Nat.lt_irrefl rank)
  have apart := free left
  rcases Nat.eq_or_lt_of_le later with rfl | behind
  · omega
  · have := List.pairwise_iff_getElem.mp ascending rank t left ht behind
    omega

theorem free (counts : Counts pivots col rank) (ascending : pivots.Pairwise (· < ·))
    (free : ∀ left : rank < pivots.length, pivots[rank] ≠ col) :
    Counts pivots (col + 1) rank := by
  refine ⟨counts.le_length, fun t ht => ?_⟩
  have before := counts.before_iff t ht
  have later := counts.lt_of_le ascending free ht
  omega

end Counts

section Again

variable {pivoting : Pivoting} {rows cols width : Nat} {pivots : List Nat} {f : Nat → Nat → Rat}

/-- Where a column is clear but for the pivot, to eliminate it changes nothing. -/
theorem eliminated_of_cleared {col p : Nat} (clear : ∀ r < rows, r ≠ p → f r col = 0) :
    ∀ r < rows, ∀ c < cols, eliminated f col p p r c = f r c := by
  intro r hr c _
  by_cases own : r = p
  · simp [eliminated, cleared, clearWeight, own]
  · simp [eliminated, cleared, clearWeight, clear r hr own]

namespace Echelon

/-- The search for a pivot finds the row that holds it. -/
theorem search_pivot (shape : Echelon rows width pivots f) {t : Nat} (ht : t < pivots.length) :
    pivoting.search rows f pivots[t] t = some t := by
  have upper : t < rows := ht.trans_le shape.rank_le
  cases search : pivoting.search rows f pivots[t] t with
  | none =>
    have zero := Pivoting.search_eq_none_iff.mp search t (Nat.le_refl t) upper
    exact absurd zero (shape.pivot t ht)
  | some row =>
    obtain ⟨-, inside, usable⟩ := Pivoting.search_eq_some search
    by_contra other
    exact usable (shape.cleared t ht row inside fun same => other (congrArg some same))

/-- In a column before the pivots of all rows from `rank` on, the search finds nothing. -/
theorem search_between (shape : Echelon rows width pivots f) (pivoting : Pivoting)
    {col rank : Nat} (hcol : col < width)
    (behind : ∀ t (ht : t < pivots.length), rank ≤ t → col < pivots[t]) :
    pivoting.search rows f col rank = none := by
  apply Pivoting.search_eq_none_iff.mpr
  intro s lower upper
  by_cases holds : s < pivots.length
  · exact shape.leading s holds col (behind s holds lower)
  · exact shape.rest s (Nat.le_of_not_lt holds) upper col hcol

theorem eliminateColumn_pivot_again (shape : Echelon rows width pivots f) (bound : width ≤ cols)
    {t : Nat} (ht : t < pivots.length) :
    Edit.eliminateColumn pivoting pivots[t] t (ofFn rows cols f) =
      .ok (.pivot pivots[t] t t) (ofFn rows cols f) := by
  have inside : pivots[t] < cols := (shape.within _ (List.getElem_mem ht)).trans_le bound
  rw [Edit.eliminateColumn_pivot inside (ht.trans_le shape.rank_le) (shape.search_pivot ht),
    ofFn_congr (eliminated_of_cleared (shape.cleared t ht))]

/-- From a column on, with the pivots before it counted, a run over a reduced table counts those that
are left and changes nothing. -/
theorem eliminateColumns_again (shape : Echelon rows width pivots f) (bound : width ≤ cols)
    {count col rank : Nat} (upTo : col + count = width) (counts : Counts pivots col rank) :
    ∃ s, Edit.eliminateColumns pivoting count col rank (ofFn rows cols f) =
      .ok s (ofFn rows cols f) ∧ s.rank = pivots.length := by
  induction count generalizing col rank with
  | zero =>
    obtain rfl : col = width := upTo
    exact ⟨⟨[], rank⟩, rfl, counts.eq_length shape.within⟩
  | succ count ih =>
    rw [Edit.eliminateColumns, Edit.rows_bind_ofFn]
    by_cases full : rows ≤ rank
    · rw [if_pos full]
      exact ⟨⟨[], rank⟩, rfl, Nat.le_antisymm counts.le_length (shape.rank_le.trans full)⟩
    rw [if_neg full]
    by_cases next : ∃ left : rank < pivots.length, pivots[rank] = col
    · obtain ⟨left, rfl⟩ := next
      obtain ⟨s, ran, counted⟩ := ih (by omega) (.pivot shape.ascending left)
      refine ⟨{ s with columns := .pivot pivots[rank] rank rank :: s.columns }, ?_, counted⟩
      rw [Edit.bind_apply (shape.eliminateColumn_pivot_again bound left), ColumnEvent.rankAfter,
        Edit.bind_apply ran]
      rfl
    · have free (left : rank < pivots.length) (here : pivots[rank] = col) : False :=
        next ⟨left, here⟩
      obtain ⟨s, ran, counted⟩ := ih (by omega) (counts.free shape.ascending free)
      have search := shape.search_between pivoting (show col < width by omega)
        fun t ht => counts.lt_of_le shape.ascending free ht
      refine ⟨{ s with columns := .free col rank :: s.columns }, ?_, counted⟩
      rw [Edit.bind_apply (Edit.eliminateColumn_free (by omega) search), ColumnEvent.rankAfter,
        Edit.bind_apply ran]
      rfl

/-- To reduce a reduced table again changes nothing, by whatever strategy. -/
theorem reduce_again (shape : Echelon rows width pivots f) (bound : width ≤ cols)
    (pivoting : Pivoting) : ∃ s, Edit.reduce pivoting width (ofFn rows cols f) =
      .ok s (ofFn rows cols f) ∧ s.rank = pivots.length :=
  shape.eliminateColumns_again bound (Nat.zero_add width) (.start pivots)

end Echelon

end Again

/-- Elimination over the first columns of a matrix always comes to its end, and leaves a table in
echelon form over these columns, with as many pivots as it counts. Over all columns the rows of the
table and of the matrix are made up of each other, and a second elimination, by any strategy, counts
the same and leaves the table as it is. -/
theorem reduce_echelon (m : RatMatrix) (pivoting : Pivoting) {width : Nat}
    (bound : width ≤ m.cols) :
    ∃ r g, Edit.reduce pivoting width m = .ok r (ofFn m.rows m.cols g) ∧
      (∃ pivots, pivots.length = r.rank ∧ Echelon m.rows width pivots g) ∧
      RowsFrom m.rows m.cols m.entry g ∧ RowsFrom m.rows m.cols g m.entry ∧
      ∀ again, ∃ s, Edit.reduce again width (ofFn m.rows m.cols g) =
        .ok s (ofFn m.rows m.cols g) ∧ s.rank = r.rank := by
  obtain ⟨r, g, ran, reduced⟩ := Edit.reduce_ofFn m.rows pivoting bound m.entry
  rw [ofFn_entry] at ran
  have counted := reduced.length_pivotColumns
  refine ⟨r, g, ran, ⟨_, counted, reduced.echelon⟩, reduced.equivalent.rowsFrom,
    reduced.equivalent.symm.rowsFrom, fun again => ?_⟩
  rw [← counted]
  exact reduced.echelon.reduce_again bound again

/-- The first pivot has to be brought up from below, the second column gives none, and the last row
is the sum of the others. -/
def gappedTable : Nat → Nat → Rat := fun i j =>
  ([[0, 0, 2, 1], [1, 2, 0, 3], [1, 2, 2, 4]].getD i []).getD j 0

theorem reduce_echelon_gapped :
    3 ≤ (ofFn 3 4 gappedTable).cols ∧ ∃ r g s,
      Edit.reduce .largest 3 (ofFn 3 4 gappedTable) = .ok r (ofFn 3 4 g) ∧ r.rank = 2 ∧
      Edit.reduce .firstNonZero 3 (ofFn 3 4 g) = .ok s (ofFn 3 4 g) ∧ s.rank = 2 := by
  have bound : 3 ≤ (ofFn 3 4 gappedTable).cols := by decide
  have counted : ((Edit.reduce .largest 3).result (ofFn 3 4 gappedTable)).map (·.1.rank) =
      .ok 2 := by decide +kernel
  obtain ⟨r, g, ran, -, -, -, again⟩ := reduce_echelon (ofFn 3 4 gappedTable) .largest bound
  obtain ⟨s, ran', same⟩ := again .firstNonZero
  rw [Edit.result, ran, Except.map, Except.ok.injEq] at counted
  exact ⟨bound, r, g, s, ran, counted, ran', same.trans counted⟩

end ExactLinear
