import ExactLinear.Proofs.PivotIndependence
import Mathlib.LinearAlgebra.Matrix.Rank

/-! The rank that elimination counts. Row operations keep the rank of a table, and in echelon form it
is there to be seen: as many rows are left as there are pivots, and the pivots stand in a diagonal
minor of that size. -/
namespace ExactLinear

open RatMatrix Module

/-- The first `rows` rows and `cols` columns of the entries. -/
def table (rows cols : Nat) (f : Nat → Nat → Rat) : Matrix (Fin rows) (Fin cols) Rat :=
  .of fun i j => f i j

theorem table_mul (rows inner cols : Nat) (f g : Nat → Nat → Rat) :
    table rows inner f * table inner cols g =
      table rows cols fun i j => ∑ k ∈ Finset.range inner, f i k * g k j := by
  ext i j
  exact (Finset.sum_range fun k => f i k * g k j).symm

theorem RowEquivalent.rank_table_eq {rows cols : Nat} {f g : Nat → Nat → Rat}
    (equivalent : RowEquivalent rows cols f g) :
    (table rows cols g).rank = (table rows cols f).rank := by
  obtain ⟨u, columns⟩ := equivalent
  have invertible : IsUnit u.val.det := u.val.isUnit_iff_isUnit_det.mp u.isUnit
  have product : table rows cols g = u.val * table rows cols f := by
    ext i j
    exact congrFun (columns j j.isLt) i
  rw [product, Matrix.rank_mul_eq_right_of_isUnit_det _ _ invertible]

namespace Echelon

variable {rows width : Nat} {pivots : List Nat} {f : Nat → Nat → Rat}

theorem rank_table_le (shape : Echelon rows width pivots f) :
    (table rows width f).rank ≤ pivots.length := by
  let upper : Finset (Fin rows) := Finset.univ.map (Fin.castLEEmb shape.rank_le)
  have nonzeroRows : Function.support (table rows width f).row ⊆ upper := by
    intro i nonzero
    by_contra outside
    apply nonzero
    funext j
    apply shape.rest i _ i.isLt j j.isLt
    by_contra above
    exact outside (Finset.mem_map.mpr ⟨⟨i, by omega⟩, Finset.mem_univ _, rfl⟩)
  simpa [upper] using (table rows width f).rank_le_card_of_support_subset upper nonzeroRows

theorem le_rank_table (shape : Echelon rows width pivots f) :
    pivots.length ≤ (table rows width f).rank := by
  let row (t : Fin pivots.length) : Fin rows := t.castLE shape.rank_le
  let col (t : Fin pivots.length) : Fin width :=
    ⟨pivots[t], shape.within _ (List.getElem_mem t.isLt)⟩
  have diagonal : (table rows width f).submatrix row col =
      Matrix.diagonal fun t : Fin pivots.length => f t pivots[t] := by
    ext s t
    by_cases same : s = t
    · subst same
      simp [table, row, col]
    · rw [Matrix.diagonal_apply_ne _ same]
      exact shape.cleared t t.isLt s (row s).isLt fun equal => same (Fin.ext equal)
  have regular : (Matrix.diagonal fun t : Fin pivots.length => f t pivots[t]).det ≠ 0 := by
    rw [Matrix.det_diagonal]
    exact Finset.prod_ne_zero_iff.mpr fun t _ => shape.pivot t t.isLt
  have minor := (table rows width f).rank_submatrix_le row col
  rwa [diagonal, Matrix.rank_of_det_ne_zero regular, Fintype.card_fin] at minor

theorem rank_table (shape : Echelon rows width pivots f) :
    (table rows width f).rank = pivots.length :=
  le_antisymm shape.rank_table_le shape.le_rank_table

end Echelon

/-- How many of the vectors can be chosen with no linear relation between them. -/
def independentSizes {n : Nat} {ι : Type} (v : Fin n → ι → Rat) : Set Nat :=
  {size | ∃ chosen : Finset (Fin n), chosen.card = size ∧ LinearIndepOn Rat v chosen}

theorem isGreatest_independentSizes {n : Nat} {ι : Type} (v : Fin n → ι → Rat) :
    IsGreatest (independentSizes v) (finrank Rat (Submodule.span Rat (Set.range v))) := by
  have dimension (chosen : Finset (Fin n)) (independent : LinearIndepOn Rat v chosen) :
      finrank Rat (Submodule.span Rat (v '' chosen)) = chosen.card := by
    rw [Set.image_eq_range, ← Fintype.card_coe]
    exact finrank_span_eq_card independent
  have smaller (chosen : Finset (Fin n)) :
      Submodule.span Rat (v '' chosen) ≤ Submodule.span Rat (Set.range v) :=
    Submodule.span_mono (Set.image_subset_range v chosen)
  constructor
  · obtain ⟨chosen, -, -, spans, independent⟩ := exists_linearIndepOn_extension
      (linearIndepOn_empty Rat v) (Set.empty_subset Set.univ)
    obtain ⟨chosen, rfl⟩ := chosen.toFinite.exists_finset_coe
    rw [Set.image_univ] at spans
    have same := le_antisymm (smaller chosen) (Submodule.span_le.mpr spans)
    exact ⟨chosen, by rw [← same, dimension chosen independent], independent⟩
  · rintro size ⟨chosen, rfl, independent⟩
    have := Module.Finite.span_of_finite Rat (Set.finite_range v)
    rw [← dimension chosen independent]
    exact Submodule.finrank_mono (smaller chosen)

namespace RatMatrix

theorem rank_ofFn (rows cols : Nat) (f : Nat → Nat → Rat) (pivoting : Pivoting) :
    (ofFn rows cols f).rank pivoting = .ok (table rows cols f).rank := by
  obtain ⟨r, g, ran, reduced⟩ := Edit.reduce_ofFn rows pivoting (Nat.le_refl cols) f
  rw [rank_of_reduce ran, ← reduced.length_pivotColumns, ← reduced.echelon.rank_table,
    reduced.equivalent.rank_table_eq]

theorem rank_eq_rank_table (m : RatMatrix) (pivoting : Pivoting) :
    m.rank pivoting = .ok (table m.rows m.cols m.entry).rank := by
  rw [← rank_ofFn, ofFn_entry]

def transpose (m : RatMatrix) : RatMatrix := ofFn m.cols m.rows fun i j => m.entry j i

theorem rank_transpose (m : RatMatrix) (pivoting : Pivoting) :
    m.transpose.rank pivoting = .ok (table m.rows m.cols m.entry).rank := by
  have flipped : table m.cols m.rows (fun i j => m.entry j i) =
      (table m.rows m.cols m.entry).transpose := rfl
  rw [transpose, rank_ofFn, flipped, Matrix.rank_transpose]

theorem IsProduct.table_mul {a b c : RatMatrix} (isProduct : IsProduct a b c) :
    table a.rows a.cols a.entry * table a.cols b.cols b.entry =
      table a.rows b.cols c.entry := by
  rw [ExactLinear.table_mul]
  ext i j
  exact isProduct.sums i i.isLt j j.isLt

theorem IsProduct.rank_le {a b c : RatMatrix} (isProduct : IsProduct a b c) :
    (table c.rows c.cols c.entry).rank ≤
      min (table a.rows a.cols a.entry).rank (table b.rows b.cols b.entry).rank := by
  rw [← isProduct.height, ← isProduct.width, ← isProduct.inner, ← isProduct.table_mul]
  exact Matrix.rank_mul_le _ _

end RatMatrix

/-- The rank is the largest number of independent rows, and of independent columns; exchanging rows
and columns leaves it as it is, and any product that is found has no larger rank than either factor. -/
theorem rank_isGreatest (a : RatMatrix) (pivoting : Pivoting) :
    ∃ r, a.rank pivoting = .ok r ∧
      IsGreatest (independentSizes (table a.rows a.cols a.entry).row) r ∧
      IsGreatest (independentSizes (table a.rows a.cols a.entry).col) r ∧
      r ≤ min a.rows a.cols ∧ (∀ other, a.transpose.rank other = .ok r) ∧
      ∀ b c, a.product b = .ok c → ∀ p q, ∃ s t,
        b.rank p = .ok s ∧ c.rank q = .ok t ∧ t ≤ min r s := by
  let entries := table a.rows a.cols a.entry
  refine ⟨entries.rank, a.rank_eq_rank_table pivoting, ?_, ?_,
    le_min entries.rank_le_height entries.rank_le_width, a.rank_transpose,
    fun b c multiplied p q => ?_⟩
  · rw [entries.rank_eq_finrank_span_row]
    exact isGreatest_independentSizes entries.row
  · rw [entries.rank_eq_finrank_span_cols]
    exact isGreatest_independentSizes entries.col
  · obtain ⟨isProduct, -⟩ := (product_eq_ok_iff a b c).mp multiplied
    exact ⟨_, _, b.rank_eq_rank_table p, c.rank_eq_rank_table q, isProduct.rank_le⟩

end ExactLinear
