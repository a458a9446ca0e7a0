import ExactLinear.Proofs.Reduction

/-! What can be read off a table in echelon form: a solution when the rows without a pivot ask for
nothing, the weights that cancel when a column has no pivot, and the only candidate when every
column has one. -/
namespace ExactLinear

/-- Weights for the pivot columns that make up column `rhs`; the other columns get none. -/
def particular (pivots : List Nat) (f : Nat → Nat → Rat) (rhs k : Nat) : Rat :=
  if k ∈ pivots then f (pivots.idxOf k) rhs / f (pivots.idxOf k) k else 0

theorem exists_lt_not_mem {pivots : List Nat} {width : Nat} (short : pivots.length < width) :
    ∃ c < width, c ∉ pivots := by
  by_contra all
  push Not at all
  have covered : List.range width ⊆ pivots := fun c member => all c (List.mem_range.mp member)
  have := (List.subperm_of_subset List.nodup_range covered).length_le
  rw [List.length_range] at this
  omega

namespace Echelon

variable {rows width : Nat} {pivots : List Nat} {f : Nat → Nat → Rat}

theorem nodup (shape : Echelon rows width pivots f) : pivots.Nodup :=
  shape.ascending.imp Nat.ne_of_lt

theorem subperm_range (shape : Echelon rows width pivots f) : pivots.Subperm (List.range width) :=
  List.subperm_of_subset shape.nodup fun c member => List.mem_range.mpr (shape.within c member)

theorem rank_le_width (shape : Echelon rows width pivots f) : pivots.length ≤ width := by
  simpa using shape.subperm_range.length_le

theorem pivots_eq_range (shape : Echelon rows width pivots f) (full : pivots.length = width) :
    pivots = List.range width := by
  have same : pivots.Perm (List.range width) :=
    shape.subperm_range.perm_of_length_le (by simp [full])
  exact same.eq_of_pairwise (fun a b _ _ less greater => absurd less (Nat.lt_asymm greater))
    shape.ascending List.pairwise_lt_range

theorem combination_rest (shape : Echelon rows width pivots f) (weight : Nat → Rat)
    (i : Fin rows) (below : pivots.length ≤ i) : combination rows width f weight i = 0 := by
  apply Finset.sum_eq_zero
  intro k member
  rw [shape.rest i below i.isLt k (Finset.mem_range.mp member), zero_mul]

/-- In the row of a pivot, weights on the pivot columns are seen one at a time. -/
theorem combination_pivotRow (shape : Echelon rows width pivots f) {weight : Nat → Rat}
    (onPivots : ∀ k < width, k ∉ pivots → weight k = 0) (t : Nat) (ht : t < pivots.length) :
    combination rows width f weight ⟨t, ht.trans_le shape.rank_le⟩ =
      f t pivots[t] * weight pivots[t] := by
  refine Finset.sum_eq_single_of_mem _
    (Finset.mem_range.mpr (shape.within _ (List.getElem_mem ht))) fun k inside other => ?_
  by_cases member : k ∈ pivots
  · obtain ⟨u, hu, rfl⟩ := List.mem_iff_getElem.mp member
    have apart : t ≠ u := by
      rintro rfl
      exact other rfl
    rw [shape.cleared u hu t (ht.trans_le shape.rank_le) apart, zero_mul]
  · rw [onPivots k (Finset.mem_range.mp inside) member, mul_zero]

/-- The pivot columns make up any column that is zero in the rows without a pivot. -/
theorem combination_particular (shape : Echelon rows width pivots f) (rhs : Nat)
    (consistent : ∀ s, pivots.length ≤ s → s < rows → f s rhs = 0) :
    combination rows width f (particular pivots f rhs) = column rows f rhs := by
  funext i
  by_cases below : pivots.length ≤ i
  · rw [shape.combination_rest _ i below]
    exact (consistent i below i.isLt).symm
  · have ht : i.val < pivots.length := by omega
    have position : pivots.idxOf pivots[i.val] = i.val := shape.nodup.idxOf_getElem i.val ht
    rw [shape.combination_pivotRow (fun k _ free => by simp [particular, free]) i.val ht,
      particular, if_pos (List.getElem_mem ht), position]
    exact mul_div_cancel₀ _ (shape.pivot i.val ht)

/-- With fewer pivots than columns some weights, not all zero, make the columns cancel. -/
theorem exists_cancelling (shape : Echelon rows width pivots f)
    (deficient : pivots.length < width) :
    ∃ weight : Nat → Rat, (∃ k < width, weight k ≠ 0) ∧ combination rows width f weight = 0 := by
  obtain ⟨c, hc, free⟩ := exists_lt_not_mem deficient
  refine ⟨fun k => particular pivots f c k - if k = c then 1 else 0, ⟨c, hc, ?_⟩, ?_⟩
  · simp [particular, free]
  · have made := shape.combination_particular c
      (fun s below inside => shape.rest s below inside c hc)
    funext i
    have entry := congrFun made i
    simp only [combination, column] at entry
    simp [combination, mul_sub, entry, hc]

/-- With a pivot in every column, each weight is seen in its own row. -/
theorem combination_full (shape : Echelon rows width pivots f) (full : pivots.length = width)
    (weight : Nat → Rat) (i : Fin rows) (inside : i.val < width) :
    combination rows width f weight i = f i i * weight i := by
  have range := shape.pivots_eq_range full
  have all : ∀ k < width, k ∉ pivots → weight k = 0 :=
    fun k inside free => absurd (range ▸ List.mem_range.mpr inside) free
  have row := shape.combination_pivotRow all i (by rwa [full])
  simpa only [range, List.getElem_range] using row

theorem pivot_full (shape : Echelon rows width pivots f) (full : pivots.length = width)
    {k : Nat} (inside : k < width) : f k k ≠ 0 := by
  have usable := shape.pivot k (by rw [full]; exact inside)
  simpa only [shape.pivots_eq_range full, List.getElem_range] using usable

end Echelon

/-- A run that found a pivot for every column left them on the diagonal. -/
theorem Reduced.diagonal {rows cols width : Nat} {f g : Nat → Nat → Rat} {r : Reduction}
    (reduced : Reduced rows cols width [] f r g) (full : width ≤ r.rank) :
    r.rank = width ∧ width ≤ rows ∧ ∀ k < width, g k k ≠ 0 := by
  have rank := reduced.length_pivotColumns
  have inRows := reduced.echelon.rank_le
  have inWidth := reduced.echelon.rank_le_width
  exact ⟨by omega, by omega, fun k inside => reduced.echelon.pivot_full (by omega) inside⟩

end ExactLinear
