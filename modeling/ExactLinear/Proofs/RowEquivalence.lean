import ExactLinear.Proofs.MatrixEntries
import Mathlib.LinearAlgebra.Matrix.Permutation

/-! Row equivalence of tables of rationals. Row operations multiply every column by one and the
same invertible matrix, so the linear relations between columns stay as they are; solvability,
solutions and rank are all statements about such relations. -/
namespace ExactLinear

open Matrix

def column (rows : Nat) (f : Nat → Nat → Rat) (j : Nat) : Fin rows → Rat := fun i => f i j

/-- The sum of the first `width` columns, each with its weight. -/
def combination (rows width : Nat) (f : Nat → Nat → Rat) (weight : Nat → Rat) : Fin rows → Rat :=
  fun i => ∑ k ∈ Finset.range width, f i k * weight k

/-- One invertible matrix takes the first `cols` columns of `f` to those of `g`. -/
def RowEquivalent (rows cols : Nat) (f g : Nat → Nat → Rat) : Prop :=
  ∃ u : (Matrix (Fin rows) (Fin rows) Rat)ˣ,
    ∀ j < cols, column rows g j = u.val *ᵥ column rows f j

/-- An invertible matrix keeps columns apart. -/
theorem mulVec_unit_injective {rows : Nat} (u : (Matrix (Fin rows) (Fin rows) Rat)ˣ) :
    Function.Injective (u.val *ᵥ ·) := by
  intro v w equal
  have back := congrArg (u.inv *ᵥ ·) equal
  simpa [Matrix.mulVec_mulVec, u.inv_val] using back

/-- Over the first `cols` columns, each row of `g` is a sum of the rows of `f`, each with a weight. -/
def RowsFrom (rows cols : Nat) (f g : Nat → Nat → Rat) : Prop :=
  ∀ i < rows, ∃ weight : Nat → Rat, ∀ c < cols,
    g i c = ∑ k ∈ Finset.range rows, weight k * f k c

namespace RowEquivalent

variable {rows cols width : Nat} {f g h : Nat → Nat → Rat}

theorem refl (f : Nat → Nat → Rat) : RowEquivalent rows cols f f :=
  ⟨1, by simp⟩

theorem trans (first : RowEquivalent rows cols f g) (second : RowEquivalent rows cols g h) :
    RowEquivalent rows cols f h := by
  obtain ⟨u, hu⟩ := first
  obtain ⟨v, hv⟩ := second
  refine ⟨v * u, fun j hj => ?_⟩
  rw [hv j hj, hu j hj, Matrix.mulVec_mulVec, Units.val_mul]

/-- Every combination of columns is taken along. -/
theorem exists_combination (equivalent : RowEquivalent rows cols f g) :
    ∃ u : (Matrix (Fin rows) (Fin rows) Rat)ˣ,
      (∀ j < cols, column rows g j = u.val *ᵥ column rows f j) ∧
      ∀ width ≤ cols, ∀ weight : Nat → Rat,
        combination rows width g weight = u.val *ᵥ combination rows width f weight := by
  obtain ⟨u, hu⟩ := equivalent
  refine ⟨u, hu, fun width bound weight => ?_⟩
  have asSum (t : Nat → Nat → Rat) :
      combination rows width t weight = ∑ k ∈ Finset.range width, weight k • column rows t k := by
    funext i
    simp [combination, column, mul_comm]
  rw [asSum g, asSum f, Matrix.mulVec_sum]
  apply Finset.sum_congr rfl
  intro k member
  rw [hu k (by have := Finset.mem_range.mp member; omega), Matrix.mulVec_smul]

/-- Weights give a column of `g` exactly if they give that column of `f`. -/
theorem combination_eq_column_iff (equivalent : RowEquivalent rows cols f g) (bound : width ≤ cols)
    {j : Nat} (hj : j < cols) (weight : Nat → Rat) :
    combination rows width g weight = column rows g j ↔
      combination rows width f weight = column rows f j := by
  obtain ⟨u, columns, combinations⟩ := equivalent.exists_combination
  rw [columns j hj, combinations width bound weight]
  exact (mulVec_unit_injective u).eq_iff

theorem combination_eq_zero_iff (equivalent : RowEquivalent rows cols f g) (bound : width ≤ cols)
    (weight : Nat → Rat) :
    combination rows width g weight = 0 ↔ combination rows width f weight = 0 := by
  obtain ⟨u, -, combinations⟩ := equivalent.exists_combination
  have zero := (mulVec_unit_injective u).eq_iff (a := combination rows width f weight) (b := 0)
  rw [combinations width bound weight]
  simpa using zero

theorem swap {i j : Nat} (hi : i < rows) (hj : j < rows) :
    RowEquivalent rows cols f (fun r => f (Equiv.swap i j r)) := by
  let σ : Equiv.Perm (Fin rows) := Equiv.swap ⟨i, hi⟩ ⟨j, hj⟩
  have involution : σ.permMatrix Rat * σ.permMatrix Rat = 1 := by
    rw [← Matrix.permMatrix_mul, Equiv.swap_mul_self, Matrix.permMatrix_one]
  refine ⟨⟨σ.permMatrix Rat, σ.permMatrix Rat, involution, involution⟩, fun c _ => ?_⟩
  rw [Matrix.permMatrix_mulVec]
  funext r
  have same : (σ r).val = Equiv.swap i j r.val := by
    simp only [σ, Equiv.swap_apply_def, Fin.ext_iff]
    split
    · rfl
    · split <;> rfl
  simp [column, same]

theorem addMultiples {p : Nat} (hp : p < rows) (weight : Nat → Rat) (still : weight p = 0) :
    RowEquivalent rows cols f (fun r c => f r c + weight r * f p c) := by
  let w : Fin rows → Rat := fun r => weight r
  let e : Fin rows → Rat := Pi.single ⟨p, hp⟩ 1
  have nilpotent : vecMulVec w e * vecMulVec w e = 0 := by
    rw [Matrix.vecMulVec_mul_vecMulVec, single_one_dotProduct]
    simp [w, still]
  have inverse : (1 + vecMulVec w e) * (1 - vecMulVec w e) = 1 := by
    simp [add_mul, mul_sub, nilpotent]
  have inverse' : (1 - vecMulVec w e) * (1 + vecMulVec w e) = 1 := by
    simp [sub_mul, mul_add, nilpotent]
  refine ⟨⟨_, _, inverse, inverse'⟩, fun c _ => ?_⟩
  rw [Matrix.add_mulVec, Matrix.one_mulVec, Matrix.vecMulVec_mulVec, single_one_dotProduct]
  funext r
  simp [column, w, mul_comm]

theorem symm (equivalent : RowEquivalent rows cols f g) : RowEquivalent rows cols g f := by
  obtain ⟨u, columns⟩ := equivalent
  refine ⟨u⁻¹, fun j hj => ?_⟩
  rw [columns j hj, Matrix.mulVec_mulVec, Units.inv_mul, Matrix.one_mulVec]

/-- The weights of a row are a row of the invertible matrix. -/
theorem rowsFrom (equivalent : RowEquivalent rows cols f g) : RowsFrom rows cols f g := by
  obtain ⟨u, columns⟩ := equivalent
  intro i hi
  refine ⟨fun k => if hk : k < rows then u.val ⟨i, hi⟩ ⟨k, hk⟩ else 0, fun c hc => ?_⟩
  have entry : g i c = ∑ k : Fin rows, u.val ⟨i, hi⟩ k * f k c :=
    congrFun (columns c hc) ⟨i, hi⟩
  rw [entry, Finset.sum_range]
  simp

end RowEquivalent

end ExactLinear
