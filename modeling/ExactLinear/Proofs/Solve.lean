import ExactLinear.Elimination
import ExactLinear.Proofs.EchelonSolutions
import Mathlib.Data.Set.Finite.Basic

/-! Solving `A · X = y`. The solver is followed once, through its three outcomes; what each of
them means for the solutions is then a matter of the echelon form alone. -/
namespace ExactLinear

open RatMatrix

/-- How the solver answers for `[A | y]`, by what elimination left of it. -/
inductive Classified (rows width count : Nat) (r : Reduction) (g : Nat → Nat → Rat) :
    Solved RatMatrix → Prop
  | inconsistent (i j : Nat) (below : r.rank ≤ i) (hi : i < rows) (hj : j < count)
      (contradiction : g i (width + j) ≠ 0) :
      Classified rows width count r g ⟨r.columns, .inconsistent rows width r.rank, .none⟩
  | underdetermined
      (consistent : ∀ i, r.rank ≤ i → i < rows → ∀ j < count, g i (width + j) = 0)
      (deficient : r.rank < width) :
      Classified rows width count r g
        ⟨r.columns, .underdetermined rows width r.rank (width - r.rank), .infinite⟩
  | determined
      (consistent : ∀ i, r.rank ≤ i → i < rows → ∀ j < count, g i (width + j) = 0)
      (full : r.rank = width) :
      Classified rows width count r g ⟨r.columns, .determined rows width r.rank,
        .unique (ofFn width count fun i j => g i (width + j) * (g i i)⁻¹)⟩

namespace Edit

variable {α β : Type} {rows cols : Nat} {f : Nat → Nat → Rat}

theorem mapM_apply {look : α → Edit β} {seen : α → β} {m : RatMatrix} {items : List α}
    (succeeds : ∀ a ∈ items, look a m = .ok (seen a) m) :
    items.mapM look m = .ok (items.map seen) m := by
  induction items with
  | nil => rfl
  | cons a items ih =>
    have others := ih fun b member => succeeds b (List.mem_cons_of_mem a member)
    rw [List.mapM_cons, bind_apply (succeeds a List.mem_cons_self), bind_apply others]
    rfl

theorem contradicts_ofFn {count : Nat} (rows start width : Nat)
    (wide : 0 < rows → cols = width + count) (f : Nat → Nat → Rat) :
    ∃ found, contradicts start width (ofFn rows cols f) = .ok found (ofFn rows cols f) ∧
      (found = true ↔ ∃ i j, start ≤ i ∧ i < rows ∧ j < count ∧ f i (width + j) ≠ 0) := by
  let tail (i : Nat) : List Rat := (List.range count).map fun j => f i (width + j)
  have look : ∀ i ∈ List.range' start (rows - start),
      (do return (← inspect (·.row i)).drop width : Edit (List Rat))
        (ofFn rows cols f) = .ok (tail i) (ofFn rows cols f) := by
    intro i member
    have inside : i < rows := by
      have := List.mem_range'_1.mp member
      omega
    have behind : ((List.range cols).map (f i)).drop width = tail i := by
      rw [wide (Nat.zero_lt_of_lt inside), List.range_add, List.map_append, List.drop_left' (by simp), List.map_map]
      rfl
    rw [bind_apply (inspect_apply (row_ofFn inside)), behind]
    rfl
  unfold contradicts
  rw [rows_bind_ofFn, bind_apply (mapM_apply look)]
  refine ⟨_, rfl, ?_⟩
  simp only [List.any_map, List.any_eq_true, List.mem_range'_1, Function.comp_apply, tail,
    List.mem_range, decide_eq_true_eq]
  constructor
  · rintro ⟨i, bounds, j, hj, nonzero⟩
    exact ⟨i, j, bounds.1, by omega, hj, nonzero⟩
  · rintro ⟨i, j, lower, upper, hj, nonzero⟩
    exact ⟨i, ⟨lower, by omega⟩, j, hj, nonzero⟩

theorem normalizeRow_ofFn {k : Nat} (inRows : k < rows) (inCols : k < cols) (usable : f k k ≠ 0) :
    normalizeRow k (ofFn rows cols f) =
      .ok () (ofFn rows cols fun r c => if r = k then f k c * (f k k)⁻¹ else f r c) := by
  have inverse : Rational.reciprocal (f k k) = .ok (f k k)⁻¹ := by
    simp [Rational.reciprocal, usable]
  unfold normalizeRow
  rw [bind_apply (read_ofFn inRows inCols), bind_apply (inspect_apply inverse),
    scaleRow_ofFn _ inRows]

theorem normalizeRows_ofFn {width : Nat} (inRows : width ≤ rows) (inCols : width ≤ cols)
    (usable : ∀ k < width, f k k ≠ 0) :
    forEach width normalizeRow (ofFn rows cols f) =
      .ok () (ofFn rows cols fun r c => if r < width then f r c * (f r r)⁻¹ else f r c) := by
  have run := forEach_apply normalizeRow
    (fun k => ofFn rows cols fun r c => if r < k then f r c * (f r r)⁻¹ else f r c) width (by
      intro k hk
      rw [normalizeRow_ofFn (by omega) (by omega) (by simpa using usable k hk)]
      congr 2
      funext r c
      by_cases row : r = k
      · subst r
        simp
      · have : r < k + 1 ↔ r < k := by omega
        simp [row, this])
  rwa [ofFn_congr (g := f) (by intro r _ c _; simp)] at run

/-- The solver ends without a fault, in the outcome that the reduced table calls for. How many
columns are joined matters only if there are rows. -/
theorem solve_ofFn (pivoting : Pivoting) {width count : Nat}
    (wide : 0 < rows → cols = width + count) (f : Nat → Nat → Rat) :
    ∃ solved m r g, Edit.solve pivoting width count (ofFn rows cols f) = .ok solved m ∧
      Elimination rows pivoting width 0 0 f r g ∧ Classified rows width count r g solved := by
  obtain ⟨r, g, elimination⟩ := Elimination.total rows pivoting width 0 0 f
  have reduced : Reduced rows cols width [] f r g := elimination.reduced_start
  obtain ⟨found, searched, meaning⟩ := contradicts_ofFn rows r.rank width wide g
  unfold Edit.solve
  rw [bind_apply (elimination.reduce (by omega))]
  simp only
  rw [rows_bind_ofFn, bind_apply searched]
  cases found with
  | true =>
    obtain ⟨i, j, below, hi, hj, nonzero⟩ := meaning.mp rfl
    exact ⟨_, _, r, g, rfl, elimination, .inconsistent i j below hi hj nonzero⟩
  | false =>
    have consistent : ∀ i, r.rank ≤ i → i < rows → ∀ j < count, g i (width + j) = 0 := by
      intro i below hi j hj
      by_contra nonzero
      exact absurd (meaning.mpr ⟨i, j, below, hi, hj, nonzero⟩) Bool.false_ne_true
    by_cases deficient : r.rank < width
    · rw [if_neg Bool.false_ne_true, if_pos deficient]
      exact ⟨_, _, r, g, rfl, elimination, .underdetermined consistent deficient⟩
    · obtain ⟨full, inRows, usable⟩ := reduced.diagonal (Nat.le_of_not_lt deficient)
      have values : tabulate width count (fun i j =>
          (ofFn rows cols fun r c =>
            if r < width then g r c * (g r r)⁻¹ else g r c).cell i (width + j)) =
          .ok (ofFn width count fun i j => g i (width + j) * (g i i)⁻¹) := by
        apply tabulate_eq_ofFn
        intro i hi j hj
        rw [cell_ofFn (by omega) (by omega), if_pos hi]
      rw [if_neg Bool.false_ne_true, if_neg deficient,
        bind_apply (normalizeRows_ofFn inRows (by omega) usable),
        bind_apply (inspect_apply values)]
      exact ⟨_, _, r, g, rfl, elimination, .determined consistent full⟩

end Edit

def augmented (a y : RatMatrix) (i j : Nat) : Rat :=
  if j < a.cols then a.entry i j else y.entry i (j - a.cols)

/-- `x` has the shape of a solution of `a · X = y`, and is one. -/
def IsSolution (a y x : RatMatrix) : Prop :=
  x.rows = a.cols ∧ x.cols = y.cols ∧ IsProduct a x y

/-- Some weights, not all zero, make the columns of `a` cancel. -/
def HasCancelling (a : RatMatrix) : Prop :=
  ∃ v : Fin a.cols → Rat, v ≠ 0 ∧ ∀ i < a.rows, ∑ k : Fin a.cols, a.entry i k * v k = 0

namespace RatMatrix

variable {a y : RatMatrix}

theorem joinedWidth_of_rows (overflow : Overflow) (some : 0 < a.rows) :
    joinedWidth overflow a y = .ok (a.cols + y.cols) :=
  if_neg some.ne'

theorem joinedWidth_of_lt (overflow : Overflow) (fits : a.cols + y.cols < wordSize) :
    joinedWidth overflow a y = .ok (a.cols + y.cols) := by
  rw [joinedWidth, overflow.word_of_lt fits, ite_self]

/-- Wherever a width is found it is the sum, or there are no rows for it to matter to. -/
theorem augmentIn_eq_ofFn {overflow : Overflow} {width : Nat} (same : a.rows = y.rows)
    (found : joinedWidth overflow a y = .ok width) :
    augmentIn overflow a y = .ok (ofFn a.rows width (augmented a y)) ∧
      (0 < a.rows → width = a.cols + y.cols) := by
  have wide (some : 0 < a.rows) : width = a.cols + y.cols := by
    rw [joinedWidth_of_rows overflow some, Except.ok.injEq] at found
    exact found.symm
  refine ⟨?_, wide⟩
  simp only [augmentIn, found, bind, Except.bind]
  apply tabulate_eq_ofFn
  intro i hi j hj
  unfold augmented
  split
  · rename_i left
    exact a.cell_eq_entry (position_lt hi left)
  · exact y.cell_eq_entry (position_lt (by omega) (by omega))

theorem exists_augment (same : a.rows = y.rows) :
    ∃ width, a.augment y = .ok (ofFn a.rows width (augmented a y)) ∧
      (0 < a.rows → width = a.cols + y.cols) := by
  have found : ∃ width, joinedWidth .wrapping a y = .ok width := by
    by_cases none : a.rows = 0
    · exact ⟨_, if_pos none⟩
    · exact ⟨_, if_neg none⟩
  obtain ⟨width, found⟩ := found
  exact ⟨width, augmentIn_eq_ofFn same found⟩

theorem solve_eq_heightMismatch (different : a.rows ≠ y.rows) (pivoting : Pivoting) :
    a.solve y pivoting = .error (.heightMismatch a.rows y.rows) :=
  if_neg different

theorem solve_of_augment {joined left : RatMatrix} {pivoting : Pivoting} {solved : Solved RatMatrix}
    (same : a.rows = y.rows) (made : a.augment y = .ok joined)
    (ran : Edit.solve pivoting a.cols y.cols joined = .ok solved left) :
    a.solve y pivoting = .ok solved := by
  rw [augment] at made
  rw [solve, solveIn, if_pos same, made]
  simp [Edit.result, bind, Except.bind, ran]

theorem solve_classified (a y : RatMatrix) (same : a.rows = y.rows) (pivoting : Pivoting) :
    ∃ solved r g, a.solve y pivoting = .ok solved ∧
      Elimination a.rows pivoting a.cols 0 0 (augmented a y) r g ∧
      Classified a.rows a.cols y.cols r g solved := by
  obtain ⟨width, joined, wide⟩ := exists_augment same
  obtain ⟨solved, m, r, g, ran, elimination, classified⟩ :=
    Edit.solve_ofFn pivoting wide (augmented a y)
  exact ⟨solved, r, g, solve_of_augment same joined ran, elimination, classified⟩

end RatMatrix

section Meaning

variable {a y : RatMatrix}

theorem combination_augmented (weight : Nat → Rat) (i : Fin a.rows) :
    combination a.rows a.cols (augmented a y) weight i =
      ∑ k ∈ Finset.range a.cols, a.entry i k * weight k := by
  apply Finset.sum_congr rfl
  intro k member
  rw [augmented, if_pos (Finset.mem_range.mp member)]

theorem isSolution_iff (same : a.rows = y.rows) (x : RatMatrix) :
    IsSolution a y x ↔ x.rows = a.cols ∧ x.cols = y.cols ∧
      ∀ j < y.cols, combination a.rows a.cols (augmented a y) (fun k => x.entry k j) =
        column a.rows (augmented a y) (a.cols + j) := by
  constructor
  · rintro ⟨shapeRows, shapeCols, -, -, -, sums⟩
    refine ⟨shapeRows, shapeCols, fun j hj => ?_⟩
    funext i
    rw [combination_augmented, sums i i.isLt j (by omega)]
    simp [column, augmented]
  · rintro ⟨shapeRows, shapeCols, combinations⟩
    refine ⟨shapeRows, shapeCols, shapeRows.symm, same, shapeCols, fun i hi j hj => ?_⟩
    have entry := congrFun (combinations j (by omega)) ⟨i, hi⟩
    rw [combination_augmented] at entry
    simpa [column, augmented] using entry

theorem hasCancelling_iff :
    HasCancelling a ↔ ∃ weight : Nat → Rat, (∃ k < a.cols, weight k ≠ 0) ∧
      combination a.rows a.cols (augmented a y) weight = 0 := by
  constructor
  · rintro ⟨v, nonzero, zero⟩
    obtain ⟨k, hk⟩ := Function.ne_iff.mp nonzero
    refine ⟨fun k => if h : k < a.cols then v ⟨k, h⟩ else 0, ⟨k, k.isLt, by simpa using hk⟩, ?_⟩
    funext i
    rw [combination_augmented, Finset.sum_range]
    simpa using zero i i.isLt
  · rintro ⟨weight, ⟨k, hk, nonzero⟩, zero⟩
    refine ⟨fun k => weight k, Function.ne_iff.mpr ⟨⟨k, hk⟩, nonzero⟩, fun i hi => ?_⟩
    have entry := congrFun zero ⟨i, hi⟩
    rw [combination_augmented, Finset.sum_range] at entry
    exact entry

end Meaning

namespace Reduced

variable {a y : RatMatrix} {r : Reduction} {g : Nat → Nat → Rat}
  (reduced : Reduced a.rows (a.cols + y.cols) a.cols [] (augmented a y) r g)

include reduced

theorem isSolution_iff (same : a.rows = y.rows) (x : RatMatrix) :
    IsSolution a y x ↔ x.rows = a.cols ∧ x.cols = y.cols ∧
      ∀ j < y.cols, combination a.rows a.cols g (fun k => x.entry k j) =
        column a.rows g (a.cols + j) := by
  rw [ExactLinear.isSolution_iff same]
  refine and_congr_right' (and_congr_right' (forall₂_congr fun j hj => ?_))
  exact (reduced.equivalent.combination_eq_column_iff (Nat.le_add_right _ _) (by omega) _).symm

theorem not_isSolution (same : a.rows = y.rows) {i j : Nat} (below : r.rank ≤ i) (hi : i < a.rows)
    (hj : j < y.cols) (contradiction : g i (a.cols + j) ≠ 0) (x : RatMatrix) :
    ¬ IsSolution a y x := by
  intro solves
  obtain ⟨-, -, combinations⟩ := (reduced.isSolution_iff same x).mp solves
  have entry := congrFun (combinations j hj) ⟨i, hi⟩
  rw [reduced.echelon.combination_rest _ _ (by rw [reduced.length_pivotColumns]; exact below)]
    at entry
  exact contradiction entry.symm

theorem exists_isSolution (same : a.rows = y.rows)
    (consistent : ∀ i, r.rank ≤ i → i < a.rows → ∀ j < y.cols, g i (a.cols + j) = 0) :
    ∃ x, IsSolution a y x := by
  let x := ofFn a.cols y.cols fun k j => particular (pivotColumns r.columns) g (a.cols + j) k
  refine ⟨x, (reduced.isSolution_iff same x).mpr ⟨rfl, rfl, fun j hj => ?_⟩⟩
  have entries : combination a.rows a.cols g (fun k => x.entry k j) =
      combination a.rows a.cols g (particular (pivotColumns r.columns) g (a.cols + j)) := by
    funext i
    apply Finset.sum_congr rfl
    intro k member
    simp only [x, entry_ofFn _ (Finset.mem_range.mp member) hj]
  rw [entries]
  apply reduced.echelon.combination_particular
  intro s below hs
  rw [reduced.length_pivotColumns] at below
  exact consistent s below hs j hj

/-- Columns can cancel exactly if one of them holds no pivot. -/
theorem hasCancelling_iff : HasCancelling a ↔ r.rank < a.cols := by
  have kernel (weight : Nat → Rat) :=
    reduced.equivalent.combination_eq_zero_iff (Nat.le_add_right a.cols y.cols) weight
  have rank := reduced.length_pivotColumns
  rw [ExactLinear.hasCancelling_iff (y := y)]
  constructor
  · rintro ⟨weight, ⟨k, hk, nonzero⟩, zero⟩
    by_contra notLess
    have full : (pivotColumns r.columns).length = a.cols := by
      have := reduced.echelon.rank_le_width
      omega
    have inRows : k < a.rows := by
      have := reduced.echelon.rank_le
      omega
    have entry := congrFun ((kernel weight).mpr zero) ⟨k, inRows⟩
    rw [reduced.echelon.combination_full full weight _ hk] at entry
    exact (mul_ne_zero (reduced.echelon.pivot_full full hk) nonzero) entry
  · intro deficient
    obtain ⟨weight, nonzero, zero⟩ := reduced.echelon.exists_cancelling (by omega)
    exact ⟨weight, nonzero, (kernel weight).mp zero⟩

/-- With a pivot in every column and no contradiction, dividing by the pivots gives the one
solution. -/
theorem isSolution_iff_eq (same : a.rows = y.rows) (full : r.rank = a.cols)
    (consistent : ∀ i, r.rank ≤ i → i < a.rows → ∀ j < y.cols, g i (a.cols + j) = 0)
    (x : RatMatrix) :
    IsSolution a y x ↔ x = ofFn a.cols y.cols fun i j => g i (a.cols + j) * (g i i)⁻¹ := by
  have allPivots : (pivotColumns r.columns).length = a.cols :=
    reduced.length_pivotColumns.trans full
  have forced (x : RatMatrix) (solves : IsSolution a y x) :
      x = ofFn a.cols y.cols fun i j => g i (a.cols + j) * (g i i)⁻¹ := by
    obtain ⟨shapeRows, shapeCols, combinations⟩ := (reduced.isSolution_iff same x).mp solves
    apply eq_ofFn shapeRows shapeCols
    intro i hi j hj
    have inRows : i < a.rows := by
      have := reduced.echelon.rank_le
      omega
    have entry := congrFun (combinations j hj) ⟨i, inRows⟩
    rw [reduced.echelon.combination_full allPivots _ _ hi] at entry
    rw [eq_mul_inv_iff_mul_eq₀ (reduced.echelon.pivot_full allPivots hi), mul_comm]
    exact entry
  constructor
  · exact forced x
  · rintro rfl
    obtain ⟨solution, solves⟩ := reduced.exists_isSolution same consistent
    rwa [← forced solution solves]

end Reduced

theorem IsSolution.shift {a y x : RatMatrix} (solves : IsSolution a y x) (v : Fin a.cols → Rat)
    (zero : ∀ i < a.rows, ∑ k : Fin a.cols, a.entry i k * v k = 0) (t : Rat) :
    IsSolution a y (ofFn a.cols y.cols fun k j =>
      x.entry k j + t * if h : k < a.cols then v ⟨k, h⟩ else 0) := by
  obtain ⟨shapeRows, shapeCols, -, height, -, sums⟩ := solves
  refine ⟨rfl, rfl, rfl, height, rfl, fun i hi j hj => ?_⟩
  rw [cols_ofFn] at hj
  have before := sums i hi j (by omega)
  have cancel := zero i hi
  rw [Finset.sum_range] at before ⊢
  calc ∑ k : Fin a.cols, a.entry i k * (ofFn a.cols y.cols fun k j =>
        x.entry k j + t * if h : k < a.cols then v ⟨k, h⟩ else 0).entry k j
      = ∑ k : Fin a.cols, (a.entry i k * x.entry k j + t * (a.entry i k * v k)) := by
        apply Finset.sum_congr rfl
        intro k _
        rw [entry_ofFn _ k.isLt hj, dif_pos k.isLt]
        ring
    _ = y.entry i j := by
        rw [Finset.sum_add_distrib, ← Finset.mul_sum, cancel, before, mul_zero, add_zero]

/-- Where columns can cancel, a system with a right-hand side has no last solution. -/
theorem infinite_isSolution {a y x : RatMatrix} (solves : IsSolution a y x)
    (cancelling : HasCancelling a) (wide : 1 ≤ y.cols) : {x | IsSolution a y x}.Infinite := by
  obtain ⟨v, nonzero, zero⟩ := cancelling
  obtain ⟨k, hk⟩ := Function.ne_iff.mp nonzero
  apply Set.infinite_of_injective_forall_mem _ (fun t => solves.shift v zero t)
  intro t u equal
  have entries := (ofFn_eq_ofFn_iff.mp equal).2.2 k k.isLt 0 wide
  simp only [Fin.is_lt, dif_pos, Fin.eta, add_right_inj] at entries
  exact mul_right_cancel₀ hk entries

/-- What an answer says about the solutions of `a · X = y`. -/
def Answers (a y : RatMatrix) : Solution RatMatrix → Prop
  | .none => ∀ x, ¬ IsSolution a y x
  | .infinite => (∃ x, IsSolution a y x) ∧ HasCancelling a
  | .unique x => (∀ other, IsSolution a y other ↔ other = x) ∧ ¬ HasCancelling a

namespace Answers

variable {a y x : RatMatrix} {answer : Solution RatMatrix}

theorem eq_none_iff (answers : Answers a y answer) :
    answer = .none ↔ ¬ ∃ x, IsSolution a y x := by
  cases answer with
  | none =>
    have unsolvable : ∀ x, ¬ IsSolution a y x := answers
    simp [unsolvable]
  | infinite => simp [answers.1]
  | unique x => simp [answers.1]

theorem eq_infinite_iff (answers : Answers a y answer) :
    answer = .infinite ↔ (∃ x, IsSolution a y x) ∧ HasCancelling a := by
  cases answer with
  | none =>
    have unsolvable : ∀ x, ¬ IsSolution a y x := answers
    simp [unsolvable]
  | infinite => simp [answers.1, answers.2]
  | unique x => simp [answers.2]

theorem eq_unique_iff (answers : Answers a y answer) :
    answer = .unique x ↔ IsSolution a y x ∧ ¬ HasCancelling a := by
  cases answer with
  | none =>
    have unsolvable : ∀ x, ¬ IsSolution a y x := answers
    simp [unsolvable]
  | infinite => simp [answers.2]
  | unique z => simp [answers.1, answers.2, eq_comm]

end Answers

/-- The solver's answer is always the right one. -/
theorem solve_answers (a y : RatMatrix) (same : a.rows = y.rows) (pivoting : Pivoting) :
    ∃ solved, a.solve y pivoting = .ok solved ∧ Answers a y solved.solution := by
  obtain ⟨solved, r, g, ran, elimination, classified⟩ := a.solve_classified y same pivoting
  have reduced : Reduced a.rows (a.cols + y.cols) a.cols [] (augmented a y) r g :=
    elimination.reduced_start
  refine ⟨solved, ran, ?_⟩
  cases classified with
  | inconsistent i j below hi hj contradiction =>
    exact reduced.not_isSolution same below hi hj contradiction
  | underdetermined consistent deficient =>
    exact ⟨reduced.exists_isSolution same consistent, reduced.hasCancelling_iff.mpr deficient⟩
  | determined consistent full =>
    refine ⟨reduced.isSolution_iff_eq same full consistent, ?_⟩
    rw [reduced.hasCancelling_iff, full]
    exact Nat.lt_irrefl _

/-- Any answer that the solver gives is right. -/
theorem answers_of_solve {a y : RatMatrix} {pivoting : Pivoting} {solved : Solved RatMatrix}
    (ran : a.solve y pivoting = .ok solved) : Answers a y solved.solution := by
  have same : a.rows = y.rows := by
    by_contra different
    rw [solve_eq_heightMismatch different] at ran
    contradiction
  obtain ⟨solved', ran', answers⟩ := solve_answers a y same pivoting
  obtain rfl := Except.ok.inj (ran.symm.trans ran')
  exact answers

/-- Solving always gives an answer, and its kind tells what the solutions are like. A right-hand
side without columns admits one matrix only, so there the kind is decided by the columns of `a`. -/
theorem solve_outcome_iff (a y : RatMatrix) (same : a.rows = y.rows) (pivoting : Pivoting) :
    ∃ solved, a.solve y pivoting = .ok solved ∧
      (solved.solution = .none ↔ ¬ ∃ x, IsSolution a y x) ∧
      (solved.solution = .infinite ↔ (∃ x, IsSolution a y x) ∧ HasCancelling a) ∧
      (∀ x, solved.solution = .unique x ↔ IsSolution a y x ∧
        (∀ other, IsSolution a y other → other = x) ∧ (y.cols = 0 → ¬ HasCancelling a)) ∧
      (solved.solution = .infinite → 1 ≤ y.cols → {x | IsSolution a y x}.Infinite) := by
  obtain ⟨solved, ran, answers⟩ := solve_answers a y same pivoting
  refine ⟨solved, ran, ?_⟩
  cases kind : solved.solution with
  | none =>
    have unsolvable : ∀ x, ¬ IsSolution a y x := by simpa [kind, Answers] using answers
    simp [unsolvable]
  | infinite =>
    rw [kind] at answers
    obtain ⟨⟨x, solves⟩, several⟩ := answers
    refine ⟨by simpa using ⟨x, solves⟩, by simpa using ⟨⟨x, solves⟩, several⟩, ?_, fun _ =>
      infinite_isSolution solves several⟩
    intro x
    simp only [reduceCtorEq, false_iff]
    rintro ⟨solves, only, narrow⟩
    rcases Nat.eq_zero_or_pos y.cols with none | wide
    · exact narrow none several
    · apply infinite_isSolution solves several wide
      exact (Set.finite_singleton x).subset fun other member => only other member
  | unique value =>
    rw [kind] at answers
    obtain ⟨meaning, independent⟩ := answers
    refine ⟨by simp [meaning], by simp [independent], fun x => ?_, by simp⟩
    rw [Solution.unique.injEq, meaning]
    constructor
    · rintro rfl
      exact ⟨rfl, fun other solves => (meaning other).mp solves, fun _ => independent⟩
    · rintro ⟨equal, -⟩
      exact equal.symm

/-- A free first column and more equations than pivots: there are infinitely many solutions. -/
theorem solve_outcome_iff_tall :
    (ofFn 3 2 fun i j => (i * j : Nat)).rows = (ofFn 3 1 fun i _ => (i : Nat)).rows ∧
      (ofFn 3 2 fun i j => (i * j : Nat)).solve (ofFn 3 1 fun i _ => (i : Nat)) .largest =
        .ok ⟨[.free 0 0, .pivot 1 2 0], .underdetermined 3 2 1 1, .infinite⟩ ∧
      {x | IsSolution (ofFn 3 2 fun i j => (i * j : Nat))
        (ofFn 3 1 fun i _ => (i : Nat)) x}.Infinite := by
  have found : (ofFn 3 2 fun i j => (i * j : Nat)).solve (ofFn 3 1 fun i _ => (i : Nat)) .largest =
      .ok ⟨[.free 0 0, .pivot 1 2 0], .underdetermined 3 2 1 1, .infinite⟩ := by
    decide +kernel
  obtain ⟨solved, ran, -, -, -, infinite⟩ := solve_outcome_iff
    (ofFn 3 2 fun i j => (i * j : Nat)) (ofFn 3 1 fun i _ => (i : Nat)) rfl .largest
  obtain rfl := Except.ok.inj (found.symm.trans ran)
  exact ⟨rfl, found, infinite rfl (by decide)⟩

/-- Without a right-hand side the only matrix of the right shape solves the system, and still the
answer is that there are infinitely many when a column is free. -/
theorem solve_narrow_infinite :
    ((ofFn 1 1 fun _ _ => 0).solve (ofFn 1 0 fun _ _ => 0) .largest =
        .ok ⟨[.free 0 0], .underdetermined 1 1 0 1, .infinite⟩) ∧
      IsSolution (ofFn 1 1 fun _ _ => 0) (ofFn 1 0 fun _ _ => 0) (ofFn 1 0 fun _ _ => 0) ∧
      ∀ x, IsSolution (ofFn 1 1 fun _ _ => 0) (ofFn 1 0 fun _ _ => 0) x →
        x = ofFn 1 0 fun _ _ => 0 := by
  refine ⟨by decide +kernel, ⟨rfl, rfl, rfl, rfl, rfl, ?_⟩, ?_⟩
  · intro i _ j hj
    exact absurd hj (Nat.not_lt_zero j)
  rintro x ⟨rows, cols, -⟩
  apply eq_ofFn rows cols
  intro i _ j hj
  exact absurd hj (Nat.not_lt_zero j)

end ExactLinear
