import ExactLinear.Elimination
import ExactLinear.Proofs.MatrixEntries

/-! What a pivot search finds. Both strategies give up on the same columns, and a row they do
find has a usable entry. -/
namespace ExactLinear

theorem Rational.magnitude_eq_abs (r : Rat) : Rational.magnitude r = |r| := by
  unfold Rational.magnitude
  split
  · rename_i negative
    exact (abs_of_neg negative).symm
  · rename_i notNegative
    exact (abs_of_nonneg (not_lt.mp notNegative)).symm

namespace Candidate

theorem larger_eq (best next : Candidate) :
    best.larger next = best ∨ best.larger next = next := by
  unfold larger
  split
  · exact .inr rfl
  · exact .inl rfl

theorem abs_le_larger (best next : Candidate) :
    |best.value| ≤ |(best.larger next).value| ∧ |next.value| ≤ |(best.larger next).value| := by
  simp only [larger, Rational.magnitude_eq_abs]
  split
  · rename_i greater
    exact ⟨greater.le, le_refl _⟩
  · rename_i notGreater
    exact ⟨le_refl _, not_lt.mp notGreater⟩

/-- The running maximum is one of the candidates, and none has a larger magnitude. -/
theorem foldl_larger (first : Candidate) (others : List Candidate) :
    others.foldl larger first ∈ first :: others ∧
      ∀ c ∈ first :: others, |c.value| ≤ |(others.foldl larger first).value| := by
  induction others generalizing first with
  | nil => simp
  | cons next others ih =>
    obtain ⟨member, maximal⟩ := ih (first.larger next)
    rw [List.foldl_cons]
    constructor
    · rcases List.mem_cons.mp member with equal | later
      · rw [equal]
        rcases first.larger_eq next with same | same <;> simp [same]
      · exact List.mem_cons_of_mem _ (List.mem_cons_of_mem _ later)
    · have top := maximal _ List.mem_cons_self
      obtain ⟨fromFirst, fromNext⟩ := first.abs_le_larger next
      intro c mem
      rcases List.mem_cons.mp mem with rfl | mem
      · exact fromFirst.trans top
      · rcases List.mem_cons.mp mem with rfl | mem
        · exact fromNext.trans top
        · exact maximal c (List.mem_cons_of_mem _ mem)

end Candidate

namespace Pivoting

theorem choose_eq_none_iff (pivoting : Pivoting) (candidates : List Candidate) :
    pivoting.choose candidates = none ↔ ∀ c ∈ candidates, c.value = 0 := by
  cases pivoting with
  | firstNonZero => simp [choose]
  | largest =>
    cases candidates with
    | nil => simp [choose]
    | cons first others =>
      obtain ⟨member, maximal⟩ := Candidate.foldl_larger first others
      simp only [choose, ite_eq_left_iff, reduceCtorEq, imp_false, not_not]
      constructor
      · intro zero c mem
        have bound := maximal c mem
        rw [zero, abs_zero] at bound
        exact abs_eq_zero.mp (le_antisymm bound (abs_nonneg _))
      · intro zeros
        exact zeros _ member

theorem choose_eq_some {pivoting : Pivoting} {candidates : List Candidate} {row : Nat}
    (chosen : pivoting.choose candidates = some row) :
    ∃ c ∈ candidates, c.row = row ∧ c.value ≠ 0 := by
  cases pivoting with
  | firstNonZero =>
    obtain ⟨c, found, rfl⟩ := Option.map_eq_some_iff.mp chosen
    exact ⟨c, List.mem_of_find?_eq_some found, rfl, by simpa using List.find?_some found⟩
  | largest =>
    cases candidates with
    | nil => simp [choose] at chosen
    | cons first others =>
      simp only [choose, Option.ite_none_left_eq_some, Option.some.injEq] at chosen
      exact ⟨_, (Candidate.foldl_larger first others).1, chosen.2, chosen.1⟩

variable {pivoting : Pivoting} {rows col start : Nat} {f g : Nat → Nat → Rat}

def search (pivoting : Pivoting) (rows : Nat) (f : Nat → Nat → Rat) (col start : Nat) :
    Option Nat :=
  pivoting.choose ((List.range' start (rows - start)).map fun r => ⟨r, f r col⟩)

theorem search_eq_none_iff :
    pivoting.search rows f col start = none ↔ ∀ r, start ≤ r → r < rows → f r col = 0 := by
  rw [search, choose_eq_none_iff, List.forall_mem_map]
  simp only [List.mem_range'_1]
  constructor
  · intro zeros r lower upper
    exact zeros r (by omega)
  · rintro zeros r ⟨lower, upper⟩
    exact zeros r lower (by omega)

theorem search_eq_some {row : Nat} (found : pivoting.search rows f col start = some row) :
    start ≤ row ∧ row < rows ∧ f row col ≠ 0 := by
  obtain ⟨c, member, rfl, nonzero⟩ := choose_eq_some found
  obtain ⟨r, range, rfl⟩ := List.mem_map.mp member
  obtain ⟨lower, upper⟩ := List.mem_range'_1.mp range
  exact ⟨lower, by simp only; omega, nonzero⟩

theorem search_congr (same : ∀ r < rows, f r col = g r col) :
    pivoting.search rows f col start = pivoting.search rows g col start := by
  unfold search
  congr 1
  apply List.map_congr_left
  intro r member
  have := List.mem_range'_1.mp member
  rw [same r (by omega)]

end Pivoting

namespace RatMatrix

variable {rows cols : Nat} {f : Nat → Nat → Rat}

theorem candidates_ofFn {col : Nat} (start : Nat) (hcol : col < cols) :
    (ofFn rows cols f).candidates col start =
      .ok ((List.range' start (rows - start)).map fun r => ⟨r, f r col⟩) := by
  apply mapM_eq_ok_map
  intro r member
  have inside : r < rows := by
    have := List.mem_range'_1.mp member
    rw [rows_ofFn] at this
    omega
  simp [cell_ofFn inside hcol, bind, Except.bind, pure, Except.pure]

/-- A search never faults, and looks at one column only. -/
theorem selectPivot_ofFn (pivoting : Pivoting) {col : Nat} (start : Nat) (hcol : col < cols) :
    (ofFn rows cols f).selectPivot pivoting col start =
      .ok (pivoting.search rows f col start) := by
  simp [selectPivot, Pivoting.search, candidates_ofFn start hcol, bind, Except.bind, pure,
    Except.pure]

end RatMatrix

end ExactLinear
