import ExactLinear.Proofs.RankCriterion

/-! Several right-hand sides at once. The run over `[A | y]` and the runs for the single columns of `y`
are compared by what they answer, not step by step: a matrix solves the whole system exactly if each
of its columns solves that of its right-hand side, and whether the columns of `A` can cancel is no
matter of the right-hand side at all. -/
namespace ExactLinear

open RatMatrix

def RatMatrix.oneColumn (m : RatMatrix) (j : Nat) : RatMatrix :=
  ofFn m.rows 1 fun i _ => m.entry i j

section Columns

variable {a y x : RatMatrix}

theorem column_oneColumn {rows j : Nat} (same : rows = y.rows) :
    column rows (y.oneColumn j).entry 0 = column rows y.entry j := by
  subst same
  funext i
  exact entry_ofFn _ i.isLt Nat.zero_lt_one

theorem column_augmented (a y : RatMatrix) (j : Nat) :
    column a.rows (augmented a y) (a.cols + j) = column a.rows y.entry j := by
  funext i
  simp [column, augmented]

/-- Whether there is a solution is asked of one right-hand side at a time. -/
theorem exists_isSolution_iff_columns (same : a.rows = y.rows) :
    (∃ x, IsSolution a y x) ↔ ∀ j < y.cols, ∃ x, IsSolution a (y.oneColumn j) x := by
  have alone (j : Nat) : a.rows = (y.oneColumn j).rows := same
  have narrow (j : Nat) : (y.oneColumn j).cols = 1 := rfl
  simp only [exists_isSolution_iff same, exists_isSolution_iff (alone _), columnSpan,
    table_augmented, column_augmented, narrow, Nat.lt_one_iff, forall_eq, column_oneColumn same]

theorem isSolution_oneColumn_iff (same : a.rows = y.rows) (height : x.rows = a.cols) (j : Nat) :
    IsSolution a (y.oneColumn j) (x.oneColumn j) ↔
      combination a.rows a.cols (augmented a y) (fun k => x.entry k j) =
        column a.rows (augmented a y) (a.cols + j) := by
  have alone : a.rows = (y.oneColumn j).rows := same
  have weights : combination a.rows a.cols (augmented a (y.oneColumn j))
      (fun k => (x.oneColumn j).entry k 0) =
      combination a.rows a.cols (augmented a y) fun k => x.entry k j := by
    funext i
    rw [combination_augmented, combination_augmented]
    apply Finset.sum_congr rfl
    intro k member
    have inside : k < x.rows := (Finset.mem_range.mp member).trans_eq height.symm
    rw [oneColumn, entry_ofFn _ inside Nat.zero_lt_one]
  have shapeRows : (x.oneColumn j).rows = a.cols := height
  have shapeCols : (x.oneColumn j).cols = (y.oneColumn j).cols := rfl
  have narrow : (y.oneColumn j).cols = 1 := rfl
  simp only [isSolution_iff alone, shapeRows, shapeCols, narrow, Nat.lt_one_iff, forall_eq, true_and,
    weights, column_augmented, column_oneColumn same]

/-- A matrix is a solution exactly if its columns are, each for its own right-hand side. -/
theorem isSolution_iff_columns (same : a.rows = y.rows) :
    IsSolution a y x ↔ x.rows = a.cols ∧ x.cols = y.cols ∧
      ∀ j < y.cols, IsSolution a (y.oneColumn j) (x.oneColumn j) := by
  rw [isSolution_iff same]
  refine and_congr_right fun height => and_congr_right' (forall₂_congr fun j _ => ?_)
  exact (isSolution_oneColumn_iff same height j).symm

/-- Right answers to the whole system and to those of its right-hand sides fit together. -/
theorem Answers.columns {answer : Solution RatMatrix} {each : Nat → Solution RatMatrix}
    (same : a.rows = y.rows) (wide : 1 ≤ y.cols) (whole : Answers a y answer)
    (parts : ∀ j < y.cols, Answers a (y.oneColumn j) (each j)) :
    (answer = .none ↔ ∃ j < y.cols, each j = .none) ∧
      (answer = .infinite ↔ ∀ j < y.cols, each j = .infinite) ∧
      ∀ x, answer = .unique x ↔
        x.cols = y.cols ∧ ∀ j < y.cols, each j = .unique (x.oneColumn j) := by
  refine ⟨?_, ?_, fun x => ?_⟩
  · rw [whole.eq_none_iff, exists_isSolution_iff_columns same]
    push Not
    exact exists_congr fun j => and_congr_right fun hj => by
      rw [(parts j hj).eq_none_iff, not_exists]
  · rw [whole.eq_infinite_iff, exists_isSolution_iff_columns same]
    constructor
    · rintro ⟨solvable, several⟩ j hj
      exact (parts j hj).eq_infinite_iff.mpr ⟨solvable j hj, several⟩
    · intro infinite
      refine ⟨fun j hj => ((parts j hj).eq_infinite_iff.mp (infinite j hj)).1, ?_⟩
      -- that columns can cancel is said by each of them, so the first will do
      exact ((parts 0 wide).eq_infinite_iff.mp (infinite 0 wide)).2
  · rw [whole.eq_unique_iff, isSolution_iff_columns same]
    constructor
    · rintro ⟨⟨-, width, solves⟩, independent⟩
      exact ⟨width, fun j hj => (parts j hj).eq_unique_iff.mpr ⟨solves j hj, independent⟩⟩
    · rintro ⟨width, unique⟩
      have solves (j : Nat) (hj : j < y.cols) := (parts j hj).eq_unique_iff.mp (unique j hj)
      exact ⟨⟨(solves 0 wide).1.1, width, fun j hj => (solves j hj).1⟩, (solves 0 wide).2⟩

end Columns

/-- A system with several right-hand sides is answered as if each of them stood alone. Whether
solutions are unique is decided by the coefficients: no two right-hand sides, of any width, are
answered with infinitely many solutions and with a unique one. -/
theorem solve_columnwise (a y : RatMatrix) (same : a.rows = y.rows) (wide : 1 ≤ y.cols)
    (p q : Pivoting) :
    (∃ solved, ∃ each : Nat → Solved RatMatrix, a.solve y p = .ok solved ∧
      (∀ j < y.cols, a.solve (y.oneColumn j) q = .ok (each j)) ∧
      (solved.solution = .none ↔ ∃ j < y.cols, (each j).solution = .none) ∧
      (solved.solution = .infinite ↔ ∀ j < y.cols, (each j).solution = .infinite) ∧
      ∀ x, solved.solution = .unique x ↔
        x.cols = y.cols ∧ ∀ j < y.cols, (each j).solution = .unique (x.oneColumn j)) ∧
    ∀ z w s t x, a.solve z p = .ok s → a.solve w q = .ok t →
      ¬ (s.solution = .infinite ∧ t.solution = .unique x) := by
  constructor
  · obtain ⟨solved, ran, whole⟩ := solve_answers a y same p
    choose each runs parts using fun j => solve_answers a (y.oneColumn j) same q
    exact ⟨solved, each, ran, fun j _ => runs j, whole.columns same wide fun j _ => parts j⟩
  · rintro z w s t x ran ran' ⟨infinite, unique⟩
    have several := ((answers_of_solve ran).eq_infinite_iff.mp infinite).2
    exact ((answers_of_solve ran').eq_unique_iff.mp unique).2 several

/-- The right-hand sides `1, 2` and `1, 3`. -/
def twoSides : RatMatrix := ofFn 2 2 fun i j => (i + 1 + i * j : Nat)

/-- The columns of the only answer to two right-hand sides are the answers to one of them each. Of the
same right-hand sides of proportional equations the first is met in infinitely many ways and the second
in none, and so there is no solution for both. -/
theorem solve_columnwise_mixed :
    1 ≤ twoSides.cols ∧
      ((ofFn 2 2 fun i j => (i + j : Nat)).rows = twoSides.rows ∧
        ∃ solved, ∃ each : Nat → Solved RatMatrix,
          (ofFn 2 2 fun i j => (i + j : Nat)).solve twoSides .largest = .ok solved ∧
          (∀ j < twoSides.cols, (ofFn 2 2 fun i j => (i + j : Nat)).solve (twoSides.oneColumn j)
            .firstNonZero = .ok (each j)) ∧
          solved.solution = .unique (ofFn 2 2 fun i j => if i = 0 then j else 1) ∧
          (each 0).solution = .unique (ofFn 2 1 fun i _ => if i = 0 then 0 else 1) ∧
          (each 1).solution = .unique (ofFn 2 1 fun _ _ => 1)) ∧
      ((ofFn 2 2 fun i j => ((i + 1) * (j + 1) : Nat)).rows = twoSides.rows ∧
        ∃ solved, ∃ each : Nat → Solved RatMatrix,
          (ofFn 2 2 fun i j => ((i + 1) * (j + 1) : Nat)).solve twoSides .largest = .ok solved ∧
          (∀ j < twoSides.cols, (ofFn 2 2 fun i j => ((i + 1) * (j + 1) : Nat)).solve
            (twoSides.oneColumn j) .firstNonZero = .ok (each j)) ∧
          (each 0).solution = .infinite ∧ (each 1).solution = .none ∧ solved.solution = .none) := by
  refine ⟨by decide, ⟨rfl, ?_⟩, rfl, ?_⟩
  · have found : (ofFn 2 2 fun i j => (i + j : Nat)).solve twoSides .largest =
        .ok ⟨[.pivot 0 1 0, .pivot 1 1 1], .determined 2 2 2,
          .unique (ofFn 2 2 fun i j => if i = 0 then j else 1)⟩ := by
      decide +kernel
    obtain ⟨⟨solved, each, ran, runs, -, -, unique⟩, -⟩ := solve_columnwise
      (ofFn 2 2 fun i j => (i + j : Nat)) twoSides rfl (by decide) .largest .firstNonZero
    obtain rfl := Except.ok.inj (found.symm.trans ran)
    obtain ⟨-, columns⟩ := (unique _).mp rfl
    refine ⟨_, each, ran, runs, rfl, (columns 0 (by decide)).trans ?_,
      (columns 1 (by decide)).trans ?_⟩
    · decide +kernel
    · decide +kernel
  · have first : (ofFn 2 2 fun i j => ((i + 1) * (j + 1) : Nat)).solve (twoSides.oneColumn 0)
        .firstNonZero = .ok ⟨[.pivot 0 0 0, .free 1 1], .underdetermined 2 2 1 1, .infinite⟩ := by
      decide +kernel
    have second : (ofFn 2 2 fun i j => ((i + 1) * (j + 1) : Nat)).solve (twoSides.oneColumn 1)
        .firstNonZero = .ok ⟨[.pivot 0 0 0, .free 1 1], .inconsistent 2 2 1, .none⟩ := by
      decide +kernel
    obtain ⟨⟨solved, each, ran, runs, none, -⟩, -⟩ := solve_columnwise
      (ofFn 2 2 fun i j => ((i + 1) * (j + 1) : Nat)) twoSides rfl (by decide) .largest .firstNonZero
    have infinite := Except.ok.inj ((runs 0 (by decide)).symm.trans first)
    have contradictory := Except.ok.inj ((runs 1 (by decide)).symm.trans second)
    exact ⟨solved, each, ran, runs, by rw [infinite], by rw [contradictory],
      none.mpr ⟨1, by decide, by rw [contradictory]⟩⟩

end ExactLinear
