import ExactLinear.Matrix
import Mathlib.Algebra.BigOperators.Group.Finset.Basic
import Mathlib.Algebra.BigOperators.Intervals
import Mathlib.Algebra.Order.Ring.Rat

/-! Matrices through their entries. A matrix is `ofFn` of what it holds, so an operation is
described by the entries it leaves; positions in the row-major data do not occur after this
module. -/
namespace ExactLinear.RatMatrix

variable {rows cols : Nat} {f g : Nat → Nat → Rat}

theorem position_div (p : Nat) (inside : p < rows * cols) : p / cols < rows :=
  Nat.div_lt_of_lt_mul (by rwa [Nat.mul_comm])

theorem position_mod (p : Nat) (inside : p < rows * cols) : p % cols < cols := by
  apply Nat.mod_lt
  rcases Nat.eq_zero_or_pos cols with rfl | positive
  · simp at inside
  · exact positive

theorem position_outside {i : Nat} (past : rows ≤ i) (j : Nat) : ¬ i * cols + j < rows * cols := by
  have := Nat.mul_le_mul_right cols past
  omega

theorem position_eq_iff {i j r c : Nat} (hj : j < cols) (hc : c < cols) :
    r * cols + c = i * cols + j ↔ r = i ∧ c = j := by
  constructor
  · intro equal
    have row := congrArg (· / cols) equal
    have col := congrArg (· % cols) equal
    have positive : 0 < cols := by omega
    simp only [Nat.mul_comm _ cols, Nat.mul_add_div positive, Nat.div_eq_of_lt hj,
      Nat.div_eq_of_lt hc, Nat.add_zero] at row
    simp only [Nat.mul_comm _ cols, Nat.mul_add_mod, Nat.mod_eq_of_lt hj,
      Nat.mod_eq_of_lt hc] at col
    exact ⟨row, col⟩
  · rintro ⟨rfl, rfl⟩
    rfl

theorem ofFn_congr (same : ∀ i < rows, ∀ j < cols, f i j = g i j) :
    ofFn rows cols f = ofFn rows cols g := by
  have data : (fun p : Fin (rows * cols) => f (p.val / cols) (p.val % cols)) =
      fun p => g (p.val / cols) (p.val % cols) := by
    funext p
    exact same _ (position_div p.val p.isLt) _ (position_mod p.val p.isLt)
  simp only [ofFn, data]

theorem entry_mk (data : Vector Rat (rows * cols)) {i j : Nat}
    (inside : i * cols + j < rows * cols) :
    entry ⟨rows, cols, data⟩ i j = data[i * cols + j] := by
  simp [entry, inside]

@[simp] theorem rows_ofFn : (ofFn rows cols f).rows = rows := rfl
@[simp] theorem cols_ofFn : (ofFn rows cols f).cols = cols := rfl

/-- A matrix holds its entries and nothing else. -/
@[simp] theorem ofFn_entry (m : RatMatrix) : ofFn m.rows m.cols m.entry = m := by
  obtain ⟨rows, cols, data⟩ := m
  have same : (Vector.ofFn fun p : Fin (rows * cols) =>
      entry ⟨rows, cols, data⟩ (p.val / cols) (p.val % cols)) = data := by
    apply Vector.ext
    intro p inside
    simp [entry, Nat.div_add_mod']
  simp only [ofFn, same]

theorem exists_eq_ofFn (m : RatMatrix) : ∃ rows cols f, m = ofFn rows cols f :=
  ⟨m.rows, m.cols, m.entry, m.ofFn_entry.symm⟩

theorem eq_ofFn {m : RatMatrix} (sameRows : m.rows = rows) (sameCols : m.cols = cols)
    (same : ∀ i < rows, ∀ j < cols, m.entry i j = f i j) : m = ofFn rows cols f := by
  subst sameRows sameCols
  rw [← ofFn_congr same, ofFn_entry]

theorem ofFn_eq_ofFn_iff {rows' cols' : Nat} :
    ofFn rows cols f = ofFn rows' cols' g ↔
      rows = rows' ∧ cols = cols' ∧ ∀ i < rows, ∀ j < cols, f i j = g i j := by
  constructor
  · intro equal
    have sameRows : rows = rows' := congrArg RatMatrix.rows equal
    have sameCols : cols = cols' := congrArg RatMatrix.cols equal
    subst rows' cols'
    refine ⟨rfl, rfl, fun i hi j hj => ?_⟩
    rw [← entry_ofFn f hi hj, equal, entry_ofFn g hi hj]
  · rintro ⟨rfl, rfl, same⟩
    exact ofFn_congr same

theorem cell_ofFn {i j : Nat} (hi : i < rows) (hj : j < cols) :
    (ofFn rows cols f).cell i j = .ok (f i j) := by
  rw [cell_eq_entry _ (position_lt hi hj), entry_ofFn f hi hj]

/-- A seed that succeeds inside the matrix fills it. -/
theorem tabulate_eq_ofFn {seed : Nat → Nat → Except Fault Rat}
    (succeeds : ∀ i < rows, ∀ j < cols, seed i j = .ok (f i j)) :
    tabulate rows cols seed = .ok (ofFn rows cols f) := by
  have seeds : (fun p : Fin (rows * cols) => seed (p.val / cols) (p.val % cols)) =
      fun p => pure (f (p.val / cols) (p.val % cols)) := by
    funext p
    exact succeeds _ (position_div p.val p.isLt) _ (position_mod p.val p.isLt)
  simp only [tabulate, seeds, Vector.ofFnM_pure, ofFn]
  rfl

theorem row_ofFn {i : Nat} (hi : i < rows) :
    (ofFn rows cols f).row i = .ok ((List.range cols).map (f i)) := by
  have last : i * cols + cols ≤ rows * cols := by
    rw [← Nat.succ_mul]
    exact Nat.mul_le_mul_right cols hi
  have held (j : Nat) (hj : j < cols) := entry_ofFn f hi hj
  simp only [entry, ofFn] at held
  simp only [row, ofFn, last, if_true, Except.ok.injEq]
  apply List.ext_getElem
  · simp
    omega
  · intro j within _
    have hj : j < cols := by
      simp at within
      omega
    simpa [position_lt hi hj] using held j hj

theorem dot_eq_sum (a b : RatMatrix) (inner : a.cols = b.rows) {i j : Nat} (hi : i < a.rows)
    (hj : j < b.cols) :
    dot a b a.cols i j = .ok (∑ k ∈ Finset.range a.cols, a.entry i k * b.entry k j) := by
  have upTo (n : Nat) (bound : n ≤ a.cols) :
      dot a b n i j = .ok (∑ k ∈ Finset.range n, a.entry i k * b.entry k j) := by
    induction n with
    | zero => rfl
    | succ n ih =>
      have left := a.cell_eq_entry (position_lt hi (show n < a.cols by omega))
      have right := b.cell_eq_entry (position_lt (show n < b.rows by omega) hj)
      have before := ih (by omega)
      unfold dot at before ⊢
      rw [List.range_succ, List.foldlM_append, before, Finset.sum_range_succ]
      simp [left, right, bind, Except.bind, pure, Except.pure]
  exact upTo a.cols (Nat.le_refl _)

/-- `c` is the product of `a` and `b`: the shapes fit together, and every entry of `c` is the sum that
it should be. -/
structure IsProduct (a b c : RatMatrix) : Prop where
  inner : a.cols = b.rows
  height : a.rows = c.rows
  width : b.cols = c.cols
  sums : ∀ i < a.rows, ∀ j < b.cols,
    ∑ k ∈ Finset.range a.cols, a.entry i k * b.entry k j = c.entry i j

theorem IsProduct.eq_ofFn {a b c : RatMatrix} (isProduct : IsProduct a b c) :
    c = ofFn a.rows b.cols fun i j => ∑ k ∈ Finset.range a.cols, a.entry i k * b.entry k j :=
  RatMatrix.eq_ofFn isProduct.height.symm isProduct.width.symm fun i hi j hj =>
    (isProduct.sums i hi j hj).symm

theorem isProduct_ofFn {a b : RatMatrix} (inner : a.cols = b.rows) :
    IsProduct a b (ofFn a.rows b.cols fun i j =>
      ∑ k ∈ Finset.range a.cols, a.entry i k * b.entry k j) where
  inner := inner
  height := rfl
  width := rfl
  sums i hi j hj := by rw [entry_ofFn _ hi hj]

theorem product_eq_ofFn {a b : RatMatrix} (inner : a.cols = b.rows)
    (fits : a.rows * b.cols ≤ mostEntries) :
    a.product b = .ok (ofFn a.rows b.cols fun i j =>
      ∑ k ∈ Finset.range a.cols, a.entry i k * b.entry k j) := by
  rw [product, if_pos inner, generate, if_pos fits]
  apply tabulate_eq_ofFn
  intro i hi j hj
  exact dot_eq_sum a b inner hi hj

theorem product_eq_tooLarge {a b : RatMatrix} (inner : a.cols = b.rows)
    (large : mostEntries < a.rows * b.cols) : a.product b = .error .tooLarge := by
  rw [product, if_pos inner, generate, if_neg (Nat.not_le_of_lt large)]
  rfl

/-- Products that can be stored are found, and nothing else is. -/
theorem product_eq_ok_iff (a b c : RatMatrix) :
    a.product b = .ok c ↔ IsProduct a b c ∧ a.rows * b.cols ≤ mostEntries := by
  constructor
  · intro equal
    have inner : a.cols = b.rows := by
      by_contra different
      simp [product, different] at equal
    have fits : a.rows * b.cols ≤ mostEntries := by
      by_contra large
      rw [product_eq_tooLarge inner (Nat.lt_of_not_le large)] at equal
      contradiction
    rw [product_eq_ofFn inner fits, Except.ok.injEq] at equal
    exact ⟨equal ▸ isProduct_ofFn inner, fits⟩
  · rintro ⟨isProduct, fits⟩
    rw [product_eq_ofFn isProduct.inner fits, ← isProduct.eq_ofFn]

end ExactLinear.RatMatrix
