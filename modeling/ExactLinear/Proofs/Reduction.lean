import ExactLinear.Elimination
import ExactLinear.Proofs.PivotChoice
import ExactLinear.Proofs.RowEquivalence
import ExactLinear.Proofs.RowOperation

/-! Elimination as a run over columns. `Echelon` is the invariant: what the treated columns look
like after some of them. One column keeps it, whether it gives a pivot or not, and every step is
a row equivalence over the whole width of the matrix, the columns behind the pivots included. -/
namespace ExactLinear

open RatMatrix

/-- The shape of a table whose first `width` columns have been treated, with the pivots of rows
`0, 1, …` in the columns `pivots`. -/
structure Echelon (rows width : Nat) (pivots : List Nat) (f : Nat → Nat → Rat) : Prop where
  rank_le : pivots.length ≤ rows
  ascending : pivots.Pairwise (· < ·)
  within : ∀ c ∈ pivots, c < width
  pivot : ∀ t (ht : t < pivots.length), f t pivots[t] ≠ 0
  cleared : ∀ t (ht : t < pivots.length), ∀ s < rows, s ≠ t → f s pivots[t] = 0
  leading : ∀ t (ht : t < pivots.length), ∀ k < pivots[t], f t k = 0
  rest : ∀ s, pivots.length ≤ s → s < rows → ∀ k < width, f s k = 0

def pivotColumns (events : List ColumnEvent) : List Nat :=
  (events.filter ColumnEvent.isPivot).map ColumnEvent.col

/-- What is added to row `r` for each unit of row `p` to make column `col` zero. -/
def clearWeight (f : Nat → Nat → Rat) (col p r : Nat) : Rat :=
  if r = p then 0 else -(f r col / f p col)

def cleared (f : Nat → Nat → Rat) (col p : Nat) : Nat → Nat → Rat :=
  fun r c => f r c + clearWeight f col p r * f p c

/-- The entries after row `row` was brought to position `rank` and used to clear column `col`. -/
def eliminated (f : Nat → Nat → Rat) (col row rank : Nat) : Nat → Nat → Rat :=
  cleared (fun r => f (Equiv.swap row rank r)) col rank

namespace Edit

variable {rows cols : Nat} {f : Nat → Nat → Rat}

theorem clearCell_ofFn {col p i : Nat} (hcol : col < cols) (hp : p < rows) (hi : i < rows)
    (usable : f p col ≠ 0) : clearCell col p (f p col) i (ofFn rows cols f) =
      .ok () (ofFn rows cols fun r c =>
        if r = i then f i c + clearWeight f col p i * f p c else f r c) := by
  unfold clearCell
  by_cases own : i = p
  · subst i
    have unchanged : (fun r c => if r = p then f p c + clearWeight f col p p * f p c else f r c) =
        f := by
      funext r c
      by_cases row : r = p <;> simp [row, clearWeight]
    rw [if_pos rfl, unchanged]
    rfl
  · rw [if_neg own, bind_apply (read_ofFn hi hcol)]
    by_cases zero : f i col = 0
    · have unchanged : (fun r c => if r = i then f i c + clearWeight f col p i * f p c else f r c) =
          f := by
        funext r c
        by_cases row : r = i <;> simp [row, clearWeight, zero]
      rw [if_pos zero, unchanged]
      rfl
    · have divided : Rational.divide (f i col) (f p col) = .ok (f i col / f p col) := by
        simp [Rational.divide, usable]
      rw [if_neg zero, bind_apply (inspect_apply divided), addScaledRow_ofFn _ hi hp]
      simp only [clearWeight, own, if_false, mul_comm]

theorem clearColumn_ofFn {col p : Nat} (hcol : col < cols) (hp : p < rows)
    (usable : f p col ≠ 0) :
    clearColumn col p (ofFn rows cols f) = .ok () (ofFn rows cols (cleared f col p)) := by
  unfold clearColumn
  rw [bind_apply (read_ofFn hp hcol), rows_bind_ofFn]
  -- before row `k` is treated, the rows above it are cleared and row `p` is as it was
  let stage (k : Nat) : Nat → Nat → Rat := fun r c => if r < k then cleared f col p r c else f r c
  have still (c : Nat) : cleared f col p p c = f p c := by simp [cleared, clearWeight]
  have pivotRow (k c : Nat) : stage k p c = f p c := by
    simp only [stage, still, ite_self]
  have run := forEach_apply (clearCell col p (f p col)) (fun k => ofFn rows cols (stage k)) rows (by
      intro k hk
      have step := clearCell_ofFn (f := stage k) hcol hp hk (by rwa [pivotRow])
      rw [pivotRow] at step
      rw [step]
      congr 2
      funext r c
      by_cases row : r = k
      · subst r
        simp [stage, cleared, clearWeight]
      · have : r < k + 1 ↔ r < k := by omega
        simp [stage, row, this])
  rw [ofFn_congr (g := f) (by intro r _ c _; simp [stage])] at run
  rw [run, ofFn_congr (g := cleared f col p) (by intro r hr c _; simp [stage, hr])]

end Edit

section Step

variable {rows cols width rank : Nat} {pivots : List Nat} {f : Nat → Nat → Rat}

theorem RowEquivalent.eliminated {col row : Nat} (hrow : row < rows) (hrank : rank < rows) :
    RowEquivalent rows cols f (eliminated f col row rank) :=
  (RowEquivalent.swap hrow hrank).trans
    (RowEquivalent.addMultiples hrank _ (by simp [clearWeight]))

theorem eliminated_col {col row r : Nat} (usable : f row col ≠ 0) :
    eliminated f col row rank r col = if r = rank then f row col else 0 := by
  by_cases own : r = rank
  · simp [eliminated, cleared, clearWeight, own]
  · simp [eliminated, cleared, clearWeight, own, usable]

theorem eliminated_of_zero {col row r c : Nat} (atRow : f row c = 0) (atRank : f rank c = 0) :
    eliminated f col row rank r c = f r c := by
  have swapped : f (Equiv.swap row rank r) c = f r c := by
    rw [Equiv.swap_apply_def]
    split
    · rename_i equal
      rw [equal, atRow, atRank]
    · split
      · rename_i equal
        rw [equal, atRow, atRank]
      · rfl
  simp [eliminated, cleared, swapped, atRow]

theorem Echelon.start (f : Nat → Nat → Rat) : Echelon rows 0 [] f where
  rank_le := Nat.zero_le rows
  ascending := List.Pairwise.nil
  within := by simp
  pivot := by simp
  cleared := by simp
  leading := by simp
  rest := by simp

theorem Echelon.free {col : Nat} (shape : Echelon rows col pivots f)
    (zero : ∀ r, pivots.length ≤ r → r < rows → f r col = 0) : Echelon rows (col + 1) pivots f where
  rank_le := shape.rank_le
  ascending := shape.ascending
  within := fun c member => Nat.lt_succ_of_lt (shape.within c member)
  pivot := shape.pivot
  cleared := shape.cleared
  leading := shape.leading
  rest := by
    intro s lower upper k hk
    rcases Nat.lt_succ_iff_lt_or_eq.mp hk with before | rfl
    · exact shape.rest s lower upper k before
    · exact zero s lower upper

/-- A usable entry below the pivots gives the next pivot. -/
theorem Echelon.extend {col row : Nat} (shape : Echelon rows col pivots f)
    (lower : pivots.length ≤ row) (upper : row < rows) (usable : f row col ≠ 0) :
    Echelon rows (col + 1) (pivots ++ [col]) (eliminated f col row pivots.length) := by
  have hrank : pivots.length < rows := by omega
  have before {r c : Nat} (hc : c < col) : eliminated f col row pivots.length r c = f r c :=
    eliminated_of_zero (shape.rest row lower upper c hc)
      (shape.rest _ (Nat.le_refl _) hrank c hc)
  have old {t : Nat} (ht : t < pivots.length) : pivots[t] < col :=
    shape.within _ (List.getElem_mem ht)
  have newest {t : Nat} (ht : t < (pivots ++ [col]).length) (last : ¬ t < pivots.length) :
      t = pivots.length := by
    rw [List.length_append, List.length_singleton] at ht
    omega
  refine ⟨?_, ?_, ?_, ?_, ?_, ?_, ?_⟩
  · rw [List.length_append, List.length_singleton]
    omega
  · rw [List.pairwise_append]
    refine ⟨shape.ascending, List.pairwise_singleton _ _, fun a member b last => ?_⟩
    rw [List.mem_singleton.mp last]
    exact shape.within a member
  · intro c member
    rcases List.mem_append.mp member with earlier | last
    · exact Nat.lt_succ_of_lt (shape.within c earlier)
    · rw [List.mem_singleton.mp last]
      exact Nat.lt_succ_self col
  · intro t ht
    by_cases earlier : t < pivots.length
    · rw [List.getElem_append_left earlier, before (old earlier)]
      exact shape.pivot t earlier
    · obtain rfl := newest ht earlier
      rw [List.getElem_concat_length rfl, eliminated_col usable, if_pos rfl]
      exact usable
  · intro t ht s hs other
    by_cases earlier : t < pivots.length
    · rw [List.getElem_append_left earlier, before (old earlier)]
      exact shape.cleared t earlier s hs other
    · obtain rfl := newest ht earlier
      rw [List.getElem_concat_length rfl, eliminated_col usable, if_neg other]
  · intro t ht k hk
    by_cases earlier : t < pivots.length
    · rw [List.getElem_append_left earlier] at hk
      rw [before (hk.trans (old earlier))]
      exact shape.leading t earlier k hk
    · obtain rfl := newest ht earlier
      rw [List.getElem_concat_length rfl] at hk
      rw [before hk]
      exact shape.rest _ (Nat.le_refl _) hrank k hk
  · intro s below hs k hk
    rw [List.length_append, List.length_singleton] at below
    rcases Nat.lt_succ_iff_lt_or_eq.mp hk with earlier | rfl
    · rw [before earlier]
      exact shape.rest s (by omega) hs k earlier
    · rw [eliminated_col usable, if_neg (by omega)]

/-- Once every row holds a pivot, further columns need no treatment. -/
theorem Echelon.widen (shape : Echelon rows width pivots f) (full : rows ≤ pivots.length)
    (more : Nat) : Echelon rows (width + more) pivots f where
  rank_le := shape.rank_le
  ascending := shape.ascending
  within := fun c member => Nat.lt_add_right more (shape.within c member)
  pivot := shape.pivot
  cleared := shape.cleared
  leading := shape.leading
  rest := by
    intro s lower upper
    omega

end Step

/-- What a run over the columns up to `width` makes of a table, with the pivots in `found` before
it. -/
structure Reduced (rows cols width : Nat) (found : List Nat) (f : Nat → Nat → Rat)
    (r : Reduction) (g : Nat → Nat → Rat) : Prop where
  equivalent : RowEquivalent rows cols f g
  shape : Echelon rows width (found ++ pivotColumns r.columns) g
  rank : r.rank = found.length + (pivotColumns r.columns).length

namespace Reduced

variable {rows cols width : Nat} {f g : Nat → Nat → Rat} {r : Reduction}

theorem echelon (reduced : Reduced rows cols width [] f r g) :
    Echelon rows width (pivotColumns r.columns) g := reduced.shape

theorem length_pivotColumns (reduced : Reduced rows cols width [] f r g) :
    (pivotColumns r.columns).length = r.rank := by
  simpa using reduced.rank.symm

end Reduced

namespace Edit

variable {pivoting : Pivoting} {rows cols col rank : Nat} {f : Nat → Nat → Rat}

theorem eliminateColumn_free (hcol : col < cols) (search : pivoting.search rows f col rank = none) :
    eliminateColumn pivoting col rank (ofFn rows cols f) =
      .ok (.free col rank) (ofFn rows cols f) := by
  have looked := (selectPivot_ofFn pivoting rank hcol).trans (congrArg Except.ok search)
  rw [eliminateColumn, bind_apply (inspect_apply looked)]
  rfl

theorem eliminateColumn_pivot {row : Nat} (hcol : col < cols) (hrank : rank < rows)
    (search : pivoting.search rows f col rank = some row) :
    eliminateColumn pivoting col rank (ofFn rows cols f) =
      .ok (.pivot col row rank) (ofFn rows cols (eliminated f col row rank)) := by
  obtain ⟨-, upper, usable⟩ := Pivoting.search_eq_some search
  have moved : f (Equiv.swap row rank rank) col ≠ 0 := by simpa using usable
  have looked := (selectPivot_ofFn pivoting rank hcol).trans (congrArg Except.ok search)
  rw [eliminateColumn, bind_apply (inspect_apply looked)]
  simp only
  rw [bind_apply (swapRows_ofFn upper hrank), bind_apply (clearColumn_ofFn hcol hrank moved)]
  rfl

end Edit

/-- What an elimination over `count` columns from `col` on makes of a table, with `rank` pivots
before it: the account it gives, and the table in the end. -/
inductive Elimination (rows : Nat) (pivoting : Pivoting) :
    (count col rank : Nat) → (Nat → Nat → Rat) → Reduction → (Nat → Nat → Rat) → Prop
  | done {col rank : Nat} {f : Nat → Nat → Rat} :
      Elimination rows pivoting 0 col rank f ⟨[], rank⟩ f
  | full {count col rank : Nat} {f : Nat → Nat → Rat} (full : rows ≤ rank) :
      Elimination rows pivoting (count + 1) col rank f ⟨[], rank⟩ f
  | free {count col rank : Nat} {f g : Nat → Nat → Rat} {r : Reduction} (room : rank < rows)
      (search : pivoting.search rows f col rank = none)
      (later : Elimination rows pivoting count (col + 1) rank f r g) :
      Elimination rows pivoting (count + 1) col rank f ⟨.free col rank :: r.columns, r.rank⟩ g
  | pivot {count col rank row : Nat} {f g : Nat → Nat → Rat} {r : Reduction} (room : rank < rows)
      (search : pivoting.search rows f col rank = some row)
      (later : Elimination rows pivoting count (col + 1) (rank + 1)
        (eliminated f col row rank) r g) :
      Elimination rows pivoting (count + 1) col rank f
        ⟨.pivot col row rank :: r.columns, r.rank⟩ g

namespace Elimination

variable {pivoting : Pivoting} {rows cols count col rank : Nat} {f g : Nat → Nat → Rat}
  {r : Reduction}

theorem total (rows : Nat) (pivoting : Pivoting) (count col rank : Nat) (f : Nat → Nat → Rat) :
    ∃ r g, Elimination rows pivoting count col rank f r g := by
  induction count generalizing col rank f with
  | zero => exact ⟨_, f, .done⟩
  | succ count ih =>
    by_cases full : rows ≤ rank
    · exact ⟨_, f, .full full⟩
    cases search : pivoting.search rows f col rank with
    | none =>
      obtain ⟨r, g, later⟩ := ih (col + 1) rank f
      exact ⟨_, g, .free (by omega) search later⟩
    | some row =>
      obtain ⟨r, g, later⟩ := ih (col + 1) (rank + 1) (eliminated f col row rank)
      exact ⟨_, g, .pivot (by omega) search later⟩

/-- This is what the program does, on any matrix that has the columns; without rows it looks at
none. -/
theorem run (elimination : Elimination rows pivoting count col rank f r g)
    (bound : 0 < rows → col + count ≤ cols) :
    Edit.eliminateColumns pivoting count col rank (ofFn rows cols f) =
      .ok r (ofFn rows cols g) := by
  induction elimination with
  | done => rfl
  | full full =>
    rw [Edit.eliminateColumns, Edit.rows_bind_ofFn, if_pos full]
    rfl
  | free room search later ih =>
    rw [Edit.eliminateColumns, Edit.rows_bind_ofFn, if_neg (by omega),
      Edit.bind_apply (Edit.eliminateColumn_free (by omega) search), ColumnEvent.rankAfter,
      Edit.bind_apply (ih (by omega))]
    rfl
  | pivot room search later ih =>
    rw [Edit.eliminateColumns, Edit.rows_bind_ofFn, if_neg (by omega),
      Edit.bind_apply (Edit.eliminateColumn_pivot (by omega) room search), ColumnEvent.rankAfter,
      Edit.bind_apply (ih (by omega))]
    rfl

/-- Every column keeps the shape, so in the end it is the one that the pivots told of describe. -/
theorem reduced {found : List Nat}
    (elimination : Elimination rows pivoting count col found.length f r g)
    (shape : Echelon rows col found f) : Reduced rows cols (col + count) found f r g := by
  generalize known : found.length = rank at elimination
  induction elimination generalizing found with
  | done =>
    subst known
    exact ⟨.refl _, by simpa [pivotColumns] using shape, rfl⟩
  | @full count _ _ _ full =>
    subst known
    exact ⟨.refl _, by simpa [pivotColumns] using shape.widen full (count + 1), rfl⟩
  | @free count col _ _ _ _ room search later ih =>
    subst known
    have next : col + 1 + count = col + (count + 1) := by omega
    have rest := ih (shape.free (Pivoting.search_eq_none_iff.mp search)) rfl
    rw [next] at rest
    exact ⟨rest.equivalent, rest.shape, rest.rank⟩
  | @pivot count col _ row _ _ r room search later ih =>
    subst known
    obtain ⟨lower, upper, usable⟩ := Pivoting.search_eq_some search
    have next : col + 1 + count = col + (count + 1) := by omega
    have rest := ih (shape.extend lower upper usable) (by simp)
    rw [next] at rest
    have columns : pivotColumns (.pivot col row found.length :: r.columns) =
        col :: pivotColumns r.columns := rfl
    refine ⟨(RowEquivalent.eliminated upper room).trans rest.equivalent, ?_, ?_⟩
    · rw [columns]
      simpa using rest.shape
    · rw [columns, rest.rank]
      simp
      omega

/-- From the first column on no pivots are there yet. -/
theorem reduced_start {width : Nat} (elimination : Elimination rows pivoting width 0 0 f r g) :
    Reduced rows cols width [] f r g := by
  have whole : Reduced rows cols (0 + width) [] f r g := reduced elimination (Echelon.start f)
  rwa [Nat.zero_add] at whole

theorem reduce {width : Nat} (elimination : Elimination rows pivoting width 0 0 f r g)
    (bound : 0 < rows → width ≤ cols) :
    Edit.reduce pivoting width (ofFn rows cols f) = .ok r (ofFn rows cols g) :=
  elimination.run fun some => (Nat.zero_add width).trans_le (bound some)

end Elimination

theorem Edit.reduce_ofFn {cols : Nat} (rows : Nat) (pivoting : Pivoting) {width : Nat}
    (bound : width ≤ cols) (f : Nat → Nat → Rat) :
    ∃ r g, reduce pivoting width (ofFn rows cols f) = .ok r (ofFn rows cols g) ∧
      Reduced rows cols width [] f r g := by
  obtain ⟨r, g, elimination⟩ := Elimination.total rows pivoting width 0 0 f
  exact ⟨r, g, elimination.reduce fun _ => bound, elimination.reduced_start⟩

end ExactLinear
