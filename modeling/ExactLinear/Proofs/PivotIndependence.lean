import ExactLinear.Proofs.Solve

/-! The echelon form does not depend on how pivots are chosen. Two runs swap different rows, so
their tables have nothing in common step by step; what they share are the linear relations between
columns, and these determine the pivots and, up to a factor, every row that holds one. -/
namespace ExactLinear

open RatMatrix

/-- Both tables have these pivots, and a row of one differs from that of the other by a factor. -/
structure SameEchelon (rows width : Nat) (pivots : List Nat) (f g : Nat → Nat → Rat) : Prop where
  left : Echelon rows width pivots f
  right : Echelon rows width pivots g
  normalized : ∀ t (ht : t < pivots.length), ∀ k < width,
    f t k / f t pivots[t] = g t k / g t pivots[t]

def SameRelations (rows width : Nat) (f g : Nat → Nat → Rat) : Prop :=
  ∀ before ≤ width, ∀ weight : Nat → Rat, ∀ c < width,
    combination rows before f weight = column rows f c ↔
      combination rows before g weight = column rows g c

theorem RowEquivalent.sameRelations {rows cols width : Nat} {f g h : Nat → Nat → Rat}
    (left : RowEquivalent rows cols f g) (right : RowEquivalent rows cols f h)
    (bound : width ≤ cols) : SameRelations rows width g h := by
  intro before within weight c hc
  rw [left.combination_eq_column_iff (within.trans bound) (hc.trans_le bound),
    right.combination_eq_column_iff (within.trans bound) (hc.trans_le bound)]

namespace Echelon

variable {rows width : Nat} {pivots : List Nat} {f : Nat → Nat → Rat}

/-- Only pivots up to a column are needed to make it up. -/
theorem particular_eq_zero (shape : Echelon rows width pivots f) {c k : Nat} (later : c < k) :
    particular pivots f c k = 0 := by
  unfold particular
  split
  · rename_i member
    have leading := shape.leading _ (List.idxOf_lt_length_of_mem member) c
    rw [List.getElem_idxOf] at leading
    rw [leading later, zero_div]
  · rfl

theorem combination_particular_before (shape : Echelon rows width pivots f) {c : Nat}
    (hc : c < width) (free : c ∉ pivots) :
    combination rows c f (particular pivots f c) = column rows f c := by
  rw [← shape.combination_particular c fun s below inside => shape.rest s below inside c hc]
  funext i
  refine Finset.sum_subset (Finset.range_subset_range.mpr hc.le) fun k _ outside => ?_
  rcases Nat.lt_or_eq_of_le (Nat.le_of_not_lt (mt Finset.mem_range.mpr outside)) with later | rfl
  · rw [shape.particular_eq_zero later, mul_zero]
  · simp [particular, free]

/-- A column holds a pivot exactly if the columns before it do not make it up. -/
theorem mem_pivots_iff (shape : Echelon rows width pivots f) {c : Nat} (hc : c < width) :
    c ∈ pivots ↔ ∀ weight, combination rows c f weight ≠ column rows f c := by
  constructor
  · rintro member weight equal
    obtain ⟨t, ht, rfl⟩ := List.mem_iff_getElem.mp member
    have entry := congrFun equal ⟨t, ht.trans_le shape.rank_le⟩
    have zero : combination rows pivots[t] f weight ⟨t, ht.trans_le shape.rank_le⟩ = 0 := by
      apply Finset.sum_eq_zero
      intro k before
      rw [shape.leading t ht k (Finset.mem_range.mp before), zero_mul]
    rw [zero] at entry
    exact shape.pivot t ht entry.symm
  · intro independent
    by_contra free
    exact independent _ (shape.combination_particular_before hc free)

variable {others : List Nat} {g : Nat → Nat → Rat}

/-- The relations between columns tell where the pivots are. -/
theorem pivots_eq (left : Echelon rows width pivots f) (right : Echelon rows width others g)
    (relations : SameRelations rows width f g) : pivots = others := by
  have member (c : Nat) : c ∈ pivots ↔ c ∈ others := by
    by_cases hc : c < width
    · rw [left.mem_pivots_iff hc, right.mem_pivots_iff hc]
      exact forall_congr' fun weight => not_congr (relations c hc.le weight c hc)
    · exact iff_of_false (mt (left.within c) hc) (mt (right.within c) hc)
  have same : pivots.Perm others := (List.perm_ext_iff_of_nodup left.nodup right.nodup).mpr member
  exact same.eq_of_pairwise (fun a b _ _ less greater => absurd less (Nat.lt_asymm greater))
    left.ascending right.ascending

/-- They also tell every entry, as a multiple of the pivot in its row. -/
theorem normalized_eq (left : Echelon rows width pivots f) (right : Echelon rows width pivots g)
    (relations : SameRelations rows width f g) {t k : Nat} (ht : t < pivots.length)
    (hk : k < width) : f t k / f t pivots[t] = g t k / g t pivots[t] := by
  have madeUp := left.combination_particular k fun s below inside => left.rest s below inside k hk
  have again := congrFun ((relations width (Nat.le_refl width) _ k hk).mp madeUp)
    ⟨t, ht.trans_le left.rank_le⟩
  rw [right.combination_pivotRow (fun c _ free => by simp [particular, free]) t ht] at again
  have weight : particular pivots f k pivots[t] = f t k / f t pivots[t] := by
    rw [particular, if_pos (List.getElem_mem ht), left.nodup.idxOf_getElem t ht]
  rw [weight] at again
  rw [eq_div_iff (right.pivot t ht), mul_comm]
  exact again

theorem sameEchelon (left : Echelon rows width pivots f) (right : Echelon rows width others g)
    (relations : SameRelations rows width f g) :
    pivots = others ∧ SameEchelon rows width pivots f g := by
  obtain rfl := left.pivots_eq right relations
  exact ⟨rfl, left, right, fun t ht k hk => left.normalized_eq right relations ht hk⟩

end Echelon

theorem Reduced.same {rows cols width : Nat} {f g h : Nat → Nat → Rat} {r s : Reduction}
    (left : Reduced rows cols width [] f r g) (right : Reduced rows cols width [] f s h)
    (bound : width ≤ cols) :
    r.rank = s.rank ∧ pivotColumns r.columns = pivotColumns s.columns ∧
      SameEchelon rows width (pivotColumns r.columns) g h := by
  have relations := left.equivalent.sameRelations right.equivalent bound
  obtain ⟨columns, same⟩ := left.echelon.sameEchelon right.echelon relations
  refine ⟨?_, columns, same⟩
  rw [← left.length_pivotColumns, ← right.length_pivotColumns, columns]

/-- A system has one right answer only. -/
theorem Answers.eq {a y : RatMatrix} {s t : Solution RatMatrix} (left : Answers a y s)
    (right : Answers a y t) : s = t := by
  cases s with
  | none => exact (right.eq_none_iff.mpr (left.eq_none_iff.mp rfl)).symm
  | infinite => exact (right.eq_infinite_iff.mpr (left.eq_infinite_iff.mp rfl)).symm
  | unique x => exact (right.eq_unique_iff.mpr (left.eq_unique_iff.mp rfl)).symm

theorem RatMatrix.rank_of_reduce {m reduced : RatMatrix} {pivoting : Pivoting} {r : Reduction}
    (ran : Edit.reduce pivoting m.cols m = .ok r reduced) : m.rank pivoting = .ok r.rank := by
  simp [rank, reduction, Edit.result, ran, bind, Except.bind, pure, Except.pure]

/-- The way pivots are chosen has no influence on rank, pivot columns and echelon form of any
matrix, and none on the answer to any system. Both echelon forms are those of the matrix: over all
columns, their rows and its rows are made up of each other. -/
theorem pivoting_irrelevant (p q : Pivoting) (m : RatMatrix) :
    (∀ width ≤ m.cols, ∃ r s g h,
      Edit.reduce p width m = .ok r (ofFn m.rows m.cols g) ∧
      Edit.reduce q width m = .ok s (ofFn m.rows m.cols h) ∧
      r.rank = s.rank ∧ (pivotColumns r.columns).length = r.rank ∧
      pivotColumns r.columns = pivotColumns s.columns ∧
      SameEchelon m.rows width (pivotColumns r.columns) g h ∧
      ∀ f ∈ [g, h], RowsFrom m.rows m.cols m.entry f ∧ RowsFrom m.rows m.cols f m.entry) ∧
    (∃ n, m.rank p = .ok n ∧ m.rank q = .ok n) ∧
    ∀ y, (m.solve y p).map Solved.solution = (m.solve y q).map Solved.solution := by
  have runs (width : Nat) (bound : width ≤ m.cols) (pivoting : Pivoting) := by
    simpa only [ofFn_entry] using Edit.reduce_ofFn m.rows pivoting bound m.entry
  refine ⟨fun width bound => ?_, ?_, fun y => ?_⟩
  · obtain ⟨r, g, ran, reduced⟩ := runs width bound p
    obtain ⟨s, h, ran', reduced'⟩ := runs width bound q
    obtain ⟨rank, columns, same⟩ := reduced.same reduced' bound
    refine ⟨r, s, g, h, ran, ran', rank, reduced.length_pivotColumns, columns, same, ?_⟩
    simp [reduced.equivalent.rowsFrom, reduced.equivalent.symm.rowsFrom,
      reduced'.equivalent.rowsFrom, reduced'.equivalent.symm.rowsFrom]
  · obtain ⟨r, g, ran, reduced⟩ := runs m.cols (Nat.le_refl _) p
    obtain ⟨s, h, ran', reduced'⟩ := runs m.cols (Nat.le_refl _) q
    refine ⟨r.rank, rank_of_reduce ran, ?_⟩
    rw [rank_of_reduce ran', (reduced.same reduced' (Nat.le_refl _)).1]
  · by_cases same : m.rows = y.rows
    · obtain ⟨solved, ran, answers⟩ := solve_answers m y same p
      obtain ⟨solved', ran', answers'⟩ := solve_answers m y same q
      rw [ran, ran', Except.map, Except.map, answers.eq answers']
    · rw [solve_eq_heightMismatch same, solve_eq_heightMismatch same]

end ExactLinear
