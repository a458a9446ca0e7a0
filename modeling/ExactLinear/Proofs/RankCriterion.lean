import ExactLinear.Proofs.Rank

/-! Ranks tell how a system will be answered. Joining the right-hand sides to the coefficients can only
enlarge the space that the columns span; it leaves that space as it is exactly if every right-hand
side is made up of columns that were there before. -/
namespace ExactLinear

open RatMatrix Module

/-- `joined` holds the columns of `a` and behind them those of `y`. -/
structure Joins (a y joined : RatMatrix) : Prop where
  left_rows : a.rows = joined.rows
  right_rows : y.rows = joined.rows
  cols : joined.cols = a.cols + y.cols
  left : ∀ i < a.rows, ∀ j < a.cols, joined.entry i j = a.entry i j
  right : ∀ i < y.rows, ∀ j < y.cols, joined.entry i (a.cols + j) = y.entry i j

def columnSpan (rows width : Nat) (f : Nat → Nat → Rat) : Submodule Rat (Fin rows → Rat) :=
  Submodule.span Rat (Set.range (table rows width f).col)

section Span

variable {rows width more : Nat} {f : Nat → Nat → Rat}

theorem rank_table_eq_finrank (rows width : Nat) (f : Nat → Nat → Rat) :
    (table rows width f).rank = finrank Rat (columnSpan rows width f) :=
  (table rows width f).rank_eq_finrank_span_cols

theorem column_mem_columnSpan {j : Nat} (inside : j < width) :
    column rows f j ∈ columnSpan rows width f :=
  Submodule.subset_span ⟨⟨j, inside⟩, rfl⟩

theorem columnSpan_le_iff {space : Submodule Rat (Fin rows → Rat)} :
    columnSpan rows width f ≤ space ↔ ∀ j < width, column rows f j ∈ space := by
  constructor
  · intro le j inside
    exact le (column_mem_columnSpan inside)
  · intro members
    refine Submodule.span_le.mpr ?_
    rintro _ ⟨j, rfl⟩
    exact members j j.isLt

theorem mem_columnSpan_iff {v : Fin rows → Rat} :
    v ∈ columnSpan rows width f ↔ ∃ weight : Nat → Rat, combination rows width f weight = v := by
  have sums (c : Fin width → Rat) (weight : Nat → Rat) (same : ∀ k : Fin width, weight k = c k) :
      ∑ k, c k • (table rows width f).col k = combination rows width f weight := by
    funext i
    simp [combination, table, Finset.sum_range, same, mul_comm]
  rw [columnSpan, Submodule.mem_span_range_iff_exists_fun]
  constructor
  · rintro ⟨c, made⟩
    refine ⟨fun k => if inside : k < width then c ⟨k, inside⟩ else 0, ?_⟩
    rw [← sums c _ (by simp), made]
  · rintro ⟨weight, made⟩
    exact ⟨fun k => weight k, (sums _ weight fun _ => rfl).trans made⟩

theorem columnSpan_mono (rows : Nat) (f : Nat → Nat → Rat) (bound : width ≤ more) :
    columnSpan rows width f ≤ columnSpan rows more f :=
  columnSpan_le_iff.mpr fun _ inside => column_mem_columnSpan (inside.trans_le bound)

/-- More columns leave the rank as it is exactly if the first ones make up all of them. -/
theorem rank_table_eq_iff (rows : Nat) (f : Nat → Nat → Rat) (bound : width ≤ more) :
    (table rows width f).rank = (table rows more f).rank ↔
      ∀ j < more, column rows f j ∈ columnSpan rows width f := by
  rw [rank_table_eq_finrank, rank_table_eq_finrank, ← columnSpan_le_iff]
  have le := columnSpan_mono rows f bound
  constructor
  · intro equal
    exact (Submodule.eq_of_le_of_finrank_eq le equal).ge
  · intro ge
    rw [le_antisymm le ge]

end Span

section Criterion

variable {a y : RatMatrix}

theorem joins_augmented (same : a.rows = y.rows) :
    Joins a y (ofFn a.rows (a.cols + y.cols) (augmented a y)) where
  left_rows := rfl
  right_rows := same.symm
  cols := rfl
  left := by
    intro i hi j hj
    rw [entry_ofFn _ hi (by omega), augmented, if_pos hj]
  right := by
    intro i hi j hj
    rw [entry_ofFn _ (by omega) (by omega), augmented, if_neg (by omega), Nat.add_sub_cancel_left]

/-- There is one way to join two matrices. -/
theorem Joins.eq_ofFn {joined : RatMatrix} (joins : Joins a y joined) :
    joined = ofFn a.rows (a.cols + y.cols) (augmented a y) := by
  apply RatMatrix.eq_ofFn joins.left_rows.symm joins.cols
  intro i hi j hj
  have hi' : i < y.rows := hi.trans_eq (joins.left_rows.trans joins.right_rows.symm)
  rw [augmented]
  split
  · exact joins.left i hi j ‹_›
  · obtain ⟨k, rfl⟩ := Nat.exists_eq_add_of_le (Nat.le_of_not_lt ‹_›)
    rw [joins.right i hi' k (by omega), Nat.add_sub_cancel_left]

theorem table_augmented (a y : RatMatrix) :
    table a.rows a.cols (augmented a y) = table a.rows a.cols a.entry := by
  ext i j
  exact if_pos j.isLt

/-- There is a solution exactly if the columns of `a` make up every right-hand side. -/
theorem exists_isSolution_iff (same : a.rows = y.rows) :
    (∃ x, IsSolution a y x) ↔ ∀ j < y.cols,
      column a.rows (augmented a y) (a.cols + j) ∈ columnSpan a.rows a.cols (augmented a y) := by
  simp only [mem_columnSpan_iff, isSolution_iff same]
  constructor
  · rintro ⟨x, -, -, columns⟩ j hj
    exact ⟨_, columns j hj⟩
  · intro made
    choose weight columns using made
    let x := ofFn a.cols y.cols fun k j => if hj : j < y.cols then weight j hj k else 0
    refine ⟨x, rfl, rfl, fun j hj => ?_⟩
    rw [← columns j hj]
    funext i
    apply Finset.sum_congr rfl
    intro k member
    simp only [x, entry_ofFn _ (Finset.mem_range.mp member) hj, dif_pos hj]

theorem exists_isSolution_iff_rank (same : a.rows = y.rows) :
    (∃ x, IsSolution a y x) ↔ (table a.rows a.cols a.entry).rank =
      (table a.rows (a.cols + y.cols) (augmented a y)).rank := by
  rw [exists_isSolution_iff same, ← table_augmented a y,
    rank_table_eq_iff a.rows _ (Nat.le_add_right a.cols y.cols)]
  constructor
  · intro made j inside
    by_cases left : j < a.cols
    · exact column_mem_columnSpan left
    · obtain ⟨k, rfl⟩ := Nat.exists_eq_add_of_le (Nat.le_of_not_lt left)
      exact made k (by omega)
  · intro made j inside
    exact made (a.cols + j) (by omega)

/-- Columns can cancel exactly if their number exceeds the rank. -/
theorem hasCancelling_iff_rank (a : RatMatrix) :
    HasCancelling a ↔ (table a.rows a.cols a.entry).rank < a.cols := by
  -- a right-hand side without columns adds nothing to the table
  let y := ofFn a.rows 0 fun _ _ => 0
  obtain ⟨r, g, elimination⟩ := Elimination.total a.rows .largest a.cols 0 0 (augmented a y)
  have reduced : Reduced a.rows (a.cols + y.cols) a.cols [] (augmented a y) r g :=
    elimination.reduced_start
  rw [reduced.hasCancelling_iff, ← reduced.length_pivotColumns, ← reduced.echelon.rank_table]
  have equivalent : RowEquivalent a.rows a.cols (augmented a y) g := reduced.equivalent
  rw [equivalent.rank_table_eq, table_augmented]

theorem rank_le_rank_augmented (a y : RatMatrix) :
    (table a.rows a.cols a.entry).rank ≤
      (table a.rows (a.cols + y.cols) (augmented a y)).rank := by
  rw [← table_augmented a y, rank_table_eq_finrank, rank_table_eq_finrank]
  exact Submodule.finrank_mono (columnSpan_mono a.rows _ (Nat.le_add_right a.cols y.cols))

/-- What a right answer says about the two ranks. -/
theorem Answers.kind_iff_ranks {answer : Solution RatMatrix} (same : a.rows = y.rows)
    (answers : Answers a y answer) {r s : Nat} (rank : (table a.rows a.cols a.entry).rank = r)
    (rankJoined : (table a.rows (a.cols + y.cols) (augmented a y)).rank = s) :
    (answer = .none ↔ r < s) ∧ (answer = .infinite ↔ r = s ∧ s < a.cols) ∧
      ((∃ x, answer = .unique x) ↔ r = s ∧ s = a.cols) := by
  have solvable := exists_isSolution_iff_rank same
  have cancelling := hasCancelling_iff_rank a
  have grows := rank_le_rank_augmented a y
  have width := (table a.rows a.cols a.entry).rank_le_width
  rw [rank] at solvable cancelling grows width
  rw [rankJoined] at solvable grows
  refine ⟨?_, ?_, ?_⟩
  · rw [answers.eq_none_iff, solvable]
    omega
  · rw [answers.eq_infinite_iff, solvable, cancelling]
    omega
  · simp only [answers.eq_unique_iff, exists_and_right]
    rw [solvable, cancelling]
    omega

end Criterion

/-- Two ranks decide how a system is answered, however pivots are chosen: that of the coefficients and
that of the coefficients with the right-hand sides joined to them. -/
theorem solve_kind_iff_ranks (a y : RatMatrix) (same : a.rows = y.rows) :
    (∃ joined, Joins a y joined) ∧ ∀ joined, Joins a y joined → ∀ p q t : Pivoting,
      ∃ r s solved, a.rank p = .ok r ∧ joined.rank q = .ok s ∧ a.solve y t = .ok solved ∧ r ≤ s ∧
        (solved.solution = .none ↔ r < s) ∧
        (solved.solution = .infinite ↔ r = s ∧ s < a.cols) ∧
        ((∃ x, solved.solution = .unique x) ↔ r = s ∧ s = a.cols) := by
  refine ⟨⟨_, joins_augmented same⟩, fun joined joins p q t => ?_⟩
  obtain rfl := joins.eq_ofFn
  obtain ⟨solved, ran, answers⟩ := solve_answers a y same t
  exact ⟨_, _, solved, a.rank_eq_rank_table p, rank_ofFn _ _ _ q, ran, rank_le_rank_augmented a y,
    answers.kind_iff_ranks same rfl rfl⟩

/-- Proportional equations whose right-hand sides are not: there is no solution, and joining raises
the rank. -/
theorem solve_kind_iff_ranks_parallel :
    (ofFn 2 2 fun i j => ((i + 1) * (j + 1) : Nat)).rank .largest = .ok 1 ∧
      ∃ joined s, Joins (ofFn 2 2 fun i j => ((i + 1) * (j + 1) : Nat)) (ofFn 2 1 fun _ _ => 1)
        joined ∧ joined.rank .firstNonZero = .ok s ∧ 1 < s := by
  have rank : (ofFn 2 2 fun i j => ((i + 1) * (j + 1) : Nat)).rank .largest = .ok 1 := by
    decide +kernel
  have none : (ofFn 2 2 fun i j => ((i + 1) * (j + 1) : Nat)).solve (ofFn 2 1 fun _ _ => 1)
      .largest = .ok ⟨[.pivot 0 1 0, .free 1 1], .inconsistent 2 2 1, .none⟩ := by
    decide +kernel
  obtain ⟨⟨joined, joins⟩, ranks⟩ := solve_kind_iff_ranks
    (ofFn 2 2 fun i j => ((i + 1) * (j + 1) : Nat)) (ofFn 2 1 fun _ _ => 1) rfl
  obtain ⟨r, s, solved, counted, countedJoined, ran, -, rises, -⟩ :=
    ranks joined joins .largest .firstNonZero .largest
  obtain rfl := Except.ok.inj (counted.symm.trans rank)
  obtain rfl := Except.ok.inj (ran.symm.trans none)
  exact ⟨rank, joined, s, joins, countedJoined, rises.mp rfl⟩

end ExactLinear
