import ExactLinear.Proofs.RankCriterion
import ExactLinear.Proofs.RowOperation

/-! Products of matrices. The sums that a product is made of are those of the tables of entries, so its
laws are laws of tables. Row operations do the same to every column, and do it linearly; a column of
a product is a combination of columns of the first factor, which is why they may be done before
multiplying or after it. -/
namespace ExactLinear

open RatMatrix

theorem table_ofFn (rows cols : Nat) (f : Nat → Nat → Rat) :
    table rows cols (ofFn rows cols f).entry = table rows cols f := by
  ext i j
  exact entry_ofFn f i.isLt j.isLt

theorem table_one (n : Nat) : table n n (fun i j => if i = j then 1 else 0) = 1 := by
  ext i j
  simp [table, Matrix.one_apply, Fin.ext_iff]

theorem table_identity (n : Nat) : table n n (identity n).entry = 1 := by
  rw [identity, table_ofFn, table_one]

theorem ofFn_eq_iff_table {rows cols : Nat} {f g : Nat → Nat → Rat} :
    ofFn rows cols f = ofFn rows cols g ↔ table rows cols f = table rows cols g := by
  constructor
  · intro equal
    rw [← table_ofFn rows cols f, equal, table_ofFn]
  · intro equal
    exact ofFn_congr fun i hi j hj => congrFun (congrFun equal ⟨i, hi⟩) ⟨j, hj⟩

theorem isProduct_sums (rows inner cols : Nat) (f g : Nat → Nat → Rat) :
    IsProduct (ofFn rows inner f) (ofFn inner cols g)
      (ofFn rows cols fun i j => ∑ k ∈ Finset.range inner, f i k * g k j) := by
  refine ⟨rfl, rfl, rfl, fun i (hi : i < rows) j (hj : j < cols) => ?_⟩
  rw [entry_ofFn _ hi hj]
  apply Finset.sum_congr rfl
  intro k member
  have hk : k < inner := Finset.mem_range.mp member
  rw [entry_ofFn f hi hk, entry_ofFn g hk hj]

/-- A product is the matrix whose table is the product of the tables. -/
theorem isProduct_ofFn_iff {rows inner cols : Nat} {f g h : Nat → Nat → Rat} :
    IsProduct (ofFn rows inner f) (ofFn inner cols g) (ofFn rows cols h) ↔
      table rows inner f * table inner cols g = table rows cols h := by
  have sums := isProduct_sums rows inner cols f g
  rw [table_mul, ← ofFn_eq_iff_table]
  constructor
  · intro isProduct
    exact sums.eq_ofFn.trans isProduct.eq_ofFn.symm
  · intro equal
    exact equal ▸ sums

namespace RatMatrix

variable {a b c : RatMatrix}

theorem exists_isProduct (inner : a.cols = b.rows) : ∃ ab, IsProduct a b ab :=
  ⟨_, isProduct_ofFn inner⟩

theorem IsProduct.unique {x y : RatMatrix} (left : IsProduct a b x) (right : IsProduct a b y) :
    x = y :=
  left.eq_ofFn.trans right.eq_ofFn.symm

theorem isProduct_identity_left (a : RatMatrix) : IsProduct (identity a.rows) a a := by
  obtain ⟨rows, cols, f, rfl⟩ := a.exists_eq_ofFn
  rw [rows_ofFn, identity, isProduct_ofFn_iff, table_one, Matrix.one_mul]

theorem isProduct_identity_right (a : RatMatrix) : IsProduct a (identity a.cols) a := by
  obtain ⟨rows, cols, f, rfl⟩ := a.exists_eq_ofFn
  rw [cols_ofFn, identity, isProduct_ofFn_iff, table_one, Matrix.mul_one]

theorem IsProduct.assoc {ab bc x : RatMatrix} (first : IsProduct a b ab) (second : IsProduct b c bc)
    (whole : IsProduct ab c x) : IsProduct a bc x := by
  obtain ⟨rows, n, f, rfl⟩ := a.exists_eq_ofFn
  obtain ⟨_, p, g, rfl⟩ := b.exists_eq_ofFn
  obtain ⟨_, cols, h, rfl⟩ := c.exists_eq_ofFn
  obtain rfl : n = _ := first.inner
  obtain rfl : p = _ := second.inner
  obtain rfl := first.unique (isProduct_sums ..)
  obtain rfl := second.unique (isProduct_sums ..)
  obtain rfl := whole.unique (isProduct_sums ..)
  simp only [isProduct_ofFn_iff, ← ExactLinear.table_mul, Matrix.mul_assoc]

/-- Of two factors and of any other two with the same product, on paper, both are found or none. -/
theorem product_congr {x y : RatMatrix} (left : IsProduct a b c) (right : IsProduct x y c) :
    a.product b = x.product y := by
  have size : a.rows * b.cols = x.rows * y.cols := by
    rw [left.height, left.width, right.height, right.width]
  by_cases fits : a.rows * b.cols ≤ mostEntries
  · rw [(product_eq_ok_iff a b c).mpr ⟨left, fits⟩,
      (product_eq_ok_iff x y c).mpr ⟨right, size ▸ fits⟩]
  · have large := Nat.lt_of_not_le fits
    rw [product_eq_tooLarge left.inner large, product_eq_tooLarge right.inner (size ▸ large)]

theorem product_assoc {ab bc : RatMatrix} (first : a.product b = .ok ab)
    (second : b.product c = .ok bc) : ab.product c = a.product bc := by
  obtain ⟨first, -⟩ := (product_eq_ok_iff a b ab).mp first
  obtain ⟨second, -⟩ := (product_eq_ok_iff b c bc).mp second
  obtain ⟨x, whole⟩ := exists_isProduct (first.width.symm.trans second.inner)
  exact product_congr whole (first.assoc second whole)

end RatMatrix

/-- An edit may be done before multiplying by `b` from the right or after it. -/
def CommutesWithProduct (edit : Edit Unit) (a b : RatMatrix) : Prop :=
  ∃ edited, edit a = .ok () edited ∧ ∀ ab, a.product b = .ok ab →
    ∃ after, edit ab = .ok () after ∧ edited.product b = .ok after

/-- What an edit does to every column of a matrix with `rows` rows. -/
def ActsBy (edit : Edit Unit) (rows : Nat) (act : (Nat → Rat) →ₗ[Rat] Nat → Rat) : Prop :=
  ∀ cols f, edit (ofFn rows cols f) = .ok () (ofFn rows cols fun r c => act (fun i => f i c) r)

/-- A combination of columns is taken to the combination of what the columns are taken to. -/
theorem act_sum (act : (Nat → Rat) →ₗ[Rat] Nat → Rat) (n : Nat) (f : Nat → Nat → Rat)
    (weight : Nat → Rat) (r : Nat) :
    act (fun i => ∑ k ∈ Finset.range n, f i k * weight k) r =
      ∑ k ∈ Finset.range n, act (fun i => f i k) r * weight k := by
  have columns : (fun i => ∑ k ∈ Finset.range n, f i k * weight k) =
      ∑ k ∈ Finset.range n, weight k • fun i => f i k := by
    funext i
    simp [mul_comm]
  rw [columns, map_sum, Finset.sum_apply]
  apply Finset.sum_congr rfl
  intro k _
  rw [map_smul, Pi.smul_apply, smul_eq_mul, mul_comm]

theorem ActsBy.commutes {edit : Edit Unit} {act : (Nat → Rat) →ₗ[Rat] Nat → Rat} {a b : RatMatrix}
    (acts : ActsBy edit a.rows act) : CommutesWithProduct edit a b := by
  obtain ⟨rows, n, f, rfl⟩ := a.exists_eq_ofFn
  obtain ⟨_, cols, g, rfl⟩ := b.exists_eq_ofFn
  refine ⟨_, acts n f, fun ab multiplied => ?_⟩
  obtain ⟨isProduct, fits⟩ := (product_eq_ok_iff _ _ _).mp multiplied
  obtain rfl : n = _ := isProduct.inner
  obtain rfl := isProduct.unique (isProduct_sums ..)
  refine ⟨_, acts cols _, (product_eq_ok_iff _ _ _).mpr ⟨?_, fits⟩⟩
  simp only [act_sum]
  exact isProduct_sums ..

namespace Edit

def addEntry (target source : Nat) (scale : Rat) : (Nat → Rat) →ₗ[Rat] Nat → Rat where
  toFun v r := if r = target then v target + v source * scale else v r
  map_add' v w := by
    funext r
    by_cases own : r = target
    · simp only [own, if_true, Pi.add_apply]
      ring
    · simp [own]
  map_smul' x v := by
    funext r
    by_cases own : r = target
    · simp only [own, if_true, Pi.smul_apply, smul_eq_mul, RingHom.id_apply]
      ring
    · simp [own]

def scaleEntry (i : Nat) (scale : Rat) : (Nat → Rat) →ₗ[Rat] Nat → Rat where
  toFun v r := if r = i then v i * scale else v r
  map_add' v w := by
    funext r
    by_cases own : r = i
    · simp [own, add_mul]
    · simp [own]
  map_smul' x v := by
    funext r
    by_cases own : r = i
    · simp [own, mul_assoc]
    · simp [own]

variable {rows i j : Nat}

theorem actsBy_swapRows (hi : i < rows) (hj : j < rows) :
    ActsBy (swapRows i j) rows (LinearMap.funLeft Rat Rat (Equiv.swap i j)) :=
  fun _ _ => swapRows_ofFn hi hj

theorem actsBy_addScaledRow (scale : Rat) (hi : i < rows) (hj : j < rows) :
    ActsBy (addScaledRow i j scale) rows (addEntry i j scale) :=
  fun _ _ => addScaledRow_ofFn scale hi hj

theorem actsBy_scaleRow (scale : Rat) (hi : i < rows) :
    ActsBy (scaleRow i scale) rows (scaleEntry i scale) :=
  fun _ _ => scaleRow_ofFn scale hi

end Edit

/-- The product is found exactly if it can be stored, and has the sums that define it for entries. It
is associative wherever the inner products are found, has the identity matrices as neutral elements on
both sides, and lets row operations on the first factor through. -/
theorem product_laws (a b c : RatMatrix) (inner : a.cols = b.rows) (outer : b.cols = c.rows) :
    (a.rows * b.cols ≤ mostEntries → ∃ ab, a.product b = .ok ab ∧ ab.rows = a.rows ∧
      ab.cols = b.cols ∧ ∀ i < a.rows, ∀ j < b.cols,
        ab.entry i j = ∑ k ∈ Finset.range a.cols, a.entry i k * b.entry k j) ∧
    (mostEntries < a.rows * b.cols → a.product b = .error .tooLarge) ∧
    (∀ ab bc, a.product b = .ok ab → b.product c = .ok bc → ab.product c = a.product bc ∧
      (a.rows * c.cols ≤ mostEntries → ∃ abc, ab.product c = .ok abc)) ∧
    (a.rows * a.cols ≤ mostEntries →
      (identity a.rows).product a = .ok a ∧ a.product (identity a.cols) = .ok a) ∧
    ∀ i < a.rows, ∀ j < a.rows, ∀ scale,
      CommutesWithProduct (Edit.swapRows i j) a b ∧
      CommutesWithProduct (Edit.addScaledRow i j scale) a b ∧
      CommutesWithProduct (Edit.scaleRow i scale) a b := by
  refine ⟨fun fits => ?_, product_eq_tooLarge inner, fun ab bc first second => ?_, fun fits => ?_,
    fun i hi j hj scale => ?_⟩
  · exact ⟨_, product_eq_ofFn inner fits, rfl, rfl, fun i hi j hj => entry_ofFn _ hi hj⟩
  · refine ⟨product_assoc first second, fun fits => ?_⟩
    obtain ⟨isProduct, -⟩ := (product_eq_ok_iff a b ab).mp first
    rw [isProduct.height] at fits
    exact ⟨_, product_eq_ofFn (isProduct.width.symm.trans outer) fits⟩
  · exact ⟨(product_eq_ok_iff _ _ _).mpr ⟨a.isProduct_identity_left, fits⟩,
      (product_eq_ok_iff _ _ _).mpr ⟨a.isProduct_identity_right, fits⟩⟩
  · exact ⟨(Edit.actsBy_swapRows hi hj).commutes, (Edit.actsBy_addScaledRow scale hi hj).commutes,
      (Edit.actsBy_scaleRow scale hi).commutes⟩

/-- Three factors of different shapes, with a single column in the middle. -/
theorem product_laws_narrow :
    (ofFn 2 3 fun i j => (i + 2 * j : Nat)).cols = (ofFn 3 1 fun i _ => (i + 1 : Nat)).rows ∧
      (ofFn 3 1 fun i _ => (i + 1 : Nat)).cols = (ofFn 1 2 fun _ j => (3 * j + 1 : Nat)).rows ∧
      (∃ ab bc, (ofFn 2 3 fun i j => (i + 2 * j : Nat)).product
          (ofFn 3 1 fun i _ => (i + 1 : Nat)) = .ok ab ∧
        (ofFn 3 1 fun i _ => (i + 1 : Nat)).product (ofFn 1 2 fun _ j => (3 * j + 1 : Nat)) =
          .ok bc ∧
        ab.product (ofFn 1 2 fun _ j => (3 * j + 1 : Nat)) =
          (ofFn 2 3 fun i j => (i + 2 * j : Nat)).product bc) ∧
      CommutesWithProduct (Edit.addScaledRow 0 1 (-2)) (ofFn 2 3 fun i j => (i + 2 * j : Nat))
        (ofFn 3 1 fun i _ => (i + 1 : Nat)) := by
  obtain ⟨multiplies, -, associative, -, commute⟩ := product_laws
    (ofFn 2 3 fun i j => (i + 2 * j : Nat)) (ofFn 3 1 fun i _ => (i + 1 : Nat))
    (ofFn 1 2 fun _ j => (3 * j + 1 : Nat)) rfl rfl
  obtain ⟨ab, first, -⟩ := multiplies (by decide)
  have second : (ofFn 3 1 fun i _ => (i + 1 : Nat)).product (ofFn 1 2 fun _ j => (3 * j + 1 : Nat)) =
      .ok (ofFn 3 2 fun i j => ((i + 1) * (3 * j + 1) : Nat)) := by
    decide +kernel
  exact ⟨rfl, rfl, ⟨ab, _, first, second, (associative ab _ first second).1⟩,
    (commute 0 (by decide) 1 (by decide) (-2)).2.1⟩

/-- A product of two matrices without entries that is too large to be stored. -/
example : (ofFn (2 ^ 31) 0 fun _ _ => 0).product (ofFn 0 (2 ^ 31) fun _ _ => 0) =
    .error .tooLarge :=
  product_eq_tooLarge rfl (by decide)

/-! Solving against the identity. Joined to the columns of a square matrix, those of the identity make
up every vector, so the joined rank is the height whatever the matrix: then the rank of the matrix
alone decides, and a free column always comes with a right-hand side that cannot be met. That the
solution multiplies to the identity from the other side too is no matter of solving; for square
matrices one side gives the other. -/

/-- What multiplies a square matrix to the identity from the right does so from the left. -/
theorem RatMatrix.IsProduct.identity_comm {n : Nat} {a b : RatMatrix} (rows : a.rows = n)
    (cols : a.cols = n) (right : IsProduct a b (identity n)) : IsProduct b a (identity n) := by
  have first : a = ofFn n n a.entry := RatMatrix.eq_ofFn rows cols fun _ _ _ _ => rfl
  have second : b = ofFn n n b.entry :=
    RatMatrix.eq_ofFn (right.inner.symm.trans cols) right.width fun _ _ _ _ => rfl
  rw [first, second, identity, isProduct_ofFn_iff, table_one] at right ⊢
  exact mul_eq_one_comm.mp right

/-- With the identity behind it any matrix has as many independent columns as it has rows. -/
theorem rank_augmented_identity (a : RatMatrix) :
    (table a.rows (a.cols + a.rows) (augmented a (identity a.rows))).rank = a.rows := by
  let joined := table a.rows (a.cols + a.rows) (augmented a (identity a.rows))
  have behind : joined.submatrix id (Fin.natAdd a.cols) = 1 := by
    rw [← table_identity]
    ext i j
    simp [joined, table, augmented]
  have minor := joined.rank_submatrix_le id (Fin.natAdd a.cols)
  rw [behind, Matrix.rank_one, Fintype.card_fin] at minor
  exact le_antisymm joined.rank_le_height minor

/-- Solving a square matrix against the identity gives its inverse if the rank is full and finds no
solution if it is not; there are never infinitely many. Of a matrix that can be stored the products
with its inverse are found. -/
theorem solve_identity_iff {n : Nat} (a : RatMatrix) (rows : a.rows = n) (cols : a.cols = n)
    (p q : Pivoting) :
    ∃ solved r, a.solve (identity n) p = .ok solved ∧ a.rank q = .ok r ∧
      ((∃ b, solved.solution = .unique b ∧ IsProduct a b (identity n) ∧
        IsProduct b a (identity n)) ↔ r = n) ∧
      (solved.solution = .none ↔ r ≠ n) ∧ solved.solution ≠ .infinite ∧
      (n * n ≤ mostEntries → ∀ b, solved.solution = .unique b →
        a.product b = .ok (identity n) ∧ b.product a = .ok (identity n)) := by
  subst rows
  have same : a.rows = (identity a.rows).rows := rfl
  obtain ⟨solved, ran, answers⟩ := solve_answers a (identity a.rows) same p
  obtain ⟨none, infinite, unique⟩ :=
    answers.kind_iff_ranks same rfl (rank_augmented_identity a)
  have height := (table a.rows a.cols a.entry).rank_le_height
  have inverse (b : RatMatrix) (kind : solved.solution = .unique b) :
      IsProduct a b (identity a.rows) ∧ IsProduct b a (identity a.rows) := by
    rw [kind] at answers
    obtain ⟨-, -, right⟩ := (answers.1 b).mpr rfl
    exact ⟨right, right.identity_comm rfl cols⟩
  refine ⟨solved, _, ran, a.rank_eq_rank_table q, ⟨?_, fun full => ?_⟩, ?_, ?_,
    fun fits b kind => ?_⟩
  · rintro ⟨b, kind, -⟩
    exact (unique.mp ⟨b, kind⟩).1
  · obtain ⟨b, kind⟩ := unique.mpr ⟨full, cols.symm⟩
    exact ⟨b, kind, inverse b kind⟩
  · rw [none]
    omega
  · rw [ne_eq, infinite]
    omega
  · obtain ⟨right, left⟩ := inverse b kind
    have size : b.rows * a.cols = a.rows * a.rows := by rw [← right.inner, cols]
    have size' : a.rows * b.cols = a.rows * a.rows := by rw [right.width, identity, cols_ofFn]
    exact ⟨(product_eq_ok_iff a b _).mpr ⟨right, size' ▸ fits⟩,
      (product_eq_ok_iff b a _).mpr ⟨left, size ▸ fits⟩⟩

/-- A matrix whose first pivot has to be brought up from below. -/
theorem solve_identity_iff_three :
    (ofFn 3 3 fun i j => (i + j) ^ 2).rank .firstNonZero = .ok 3 ∧
      ∃ solved b, (ofFn 3 3 fun i j => (i + j) ^ 2).solve (identity 3) .largest = .ok solved ∧
        solved.solution = .unique b ∧
        b.product (ofFn 3 3 fun i j => (i + j) ^ 2) = .ok (identity 3) := by
  have rank : (ofFn 3 3 fun i j => (i + j) ^ 2).rank .firstNonZero = .ok 3 := by decide +kernel
  obtain ⟨solved, r, ran, counted, regular, -, -, inverse⟩ := solve_identity_iff
    (ofFn 3 3 fun i j => (i + j) ^ 2) rfl rfl .largest .firstNonZero
  obtain rfl := Except.ok.inj (counted.symm.trans rank)
  obtain ⟨b, unique, -⟩ := regular.mpr rfl
  exact ⟨rank, solved, b, ran, unique, (inverse (by decide) b unique).2⟩

end ExactLinear
