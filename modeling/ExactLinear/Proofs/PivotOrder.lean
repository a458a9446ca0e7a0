import ExactLinear.Proofs.PivotChoice

/-! Which row a pivot search finds when several would do. Both strategies walk down the candidates
and pass over earlier ones for the sake of a later one, each by its own comparison; the row they end
with is the only one that this comparison prefers to all before it, and to which it prefers none
behind it. -/
namespace ExactLinear

namespace Candidate

/-- The running maximum is the first of the largest: all candidates before it are smaller. -/
theorem foldl_larger_split (first : Candidate) (others : List Candidate) :
    ∃ before after, first :: others = before ++ others.foldl larger first :: after ∧
      ∀ c ∈ before, |c.value| < |(others.foldl larger first).value| := by
  induction others generalizing first with
  | nil => exact ⟨[], [], rfl, by simp⟩
  | cons next others ih =>
    rw [List.foldl_cons]
    obtain ⟨before, after, split, smaller⟩ := ih (first.larger next)
    have top := (foldl_larger (first.larger next) others).2 _ List.mem_cons_self
    generalize others.foldl larger (first.larger next) = best at split smaller top
    by_cases greater : |first.value| < |next.value|
    · have taken : first.larger next = next := by
        simp only [larger, Rational.magnitude_eq_abs, if_pos greater]
      rw [taken] at split top
      refine ⟨first :: before, after, congrArg (first :: ·) split, ?_⟩
      exact List.forall_mem_cons.mpr ⟨greater.trans_le top, smaller⟩
    · have kept : first.larger next = first := by
        simp only [larger, Rational.magnitude_eq_abs, if_neg greater]
      rw [kept] at split
      cases before with
      | nil =>
        obtain ⟨rfl, rfl⟩ := List.cons.inj split
        exact ⟨[], next :: others, rfl, by simp⟩
      | cons head before =>
        obtain ⟨rfl, rest⟩ := List.cons.inj split
        obtain ⟨fromFirst, fromOthers⟩ := List.forall_mem_cons.mp smaller
        -- `next` is no larger than `first`, which was passed over itself
        refine ⟨first :: next :: before, after, by rw [rest]; rfl, ?_⟩
        exact List.forall_mem_cons.mpr ⟨fromFirst,
          List.forall_mem_cons.mpr ⟨(not_lt.mp greater).trans_lt fromFirst, fromOthers⟩⟩

end Candidate

namespace Pivoting

/-- An earlier entry of the column is passed over for the sake of a later one. -/
def PassesOver : Pivoting → (earlier later : Rat) → Prop
  | .largest, earlier, later => |earlier| < |later|
  | .firstNonZero, earlier, later => earlier = 0 ∧ later ≠ 0

/-- The candidate that is chosen, with those before it and those behind it. -/
theorem choose_split {pivoting : Pivoting} {candidates : List Candidate} {row : Nat}
    (chosen : pivoting.choose candidates = some row) :
    ∃ before c after, candidates = before ++ c :: after ∧ c.row = row ∧ c.value ≠ 0 ∧
      (∀ e ∈ before, pivoting.PassesOver e.value c.value) ∧
      ∀ l ∈ after, ¬ pivoting.PassesOver c.value l.value := by
  cases pivoting with
  | firstNonZero =>
    obtain ⟨c, found, rfl⟩ := Option.map_eq_some_iff.mp chosen
    obtain ⟨usable, before, after, split, zeros⟩ := List.find?_eq_some_iff_append.mp found
    have nonzero : c.value ≠ 0 := by simpa using usable
    refine ⟨before, c, after, split, rfl, nonzero, fun e member => ⟨?_, nonzero⟩,
      fun l _ passed => nonzero passed.1⟩
    simpa using zeros e member
  | largest =>
    cases candidates with
    | nil => simp [choose] at chosen
    | cons first others =>
      simp only [choose, Option.ite_none_left_eq_some, Option.some.injEq] at chosen
      obtain ⟨before, after, split, smaller⟩ := Candidate.foldl_larger_split first others
      obtain ⟨-, maximal⟩ := Candidate.foldl_larger first others
      refine ⟨before, _, after, split, chosen.2, chosen.1, smaller, fun l member => ?_⟩
      apply not_lt_of_ge
      apply maximal l
      rw [split]
      exact List.mem_append_right before (List.mem_cons_of_mem _ member)

/-- The row to take for column `col` of a table, of those from `start` on: its entry is usable, all
earlier ones are passed over for it, and it is passed over for none of the later ones. -/
structure Takes (pivoting : Pivoting) (rows : Nat) (f : Nat → Nat → Rat) (col start row : Nat) :
    Prop where
  lower : start ≤ row
  upper : row < rows
  usable : f row col ≠ 0
  earlier : ∀ s, start ≤ s → s < row → pivoting.PassesOver (f s col) (f row col)
  later : ∀ s, row < s → s < rows → ¬ pivoting.PassesOver (f row col) (f s col)

variable {pivoting : Pivoting} {rows col start : Nat} {f : Nat → Nat → Rat}

theorem Takes.unique {r s : Nat} (first : pivoting.Takes rows f col start r)
    (second : pivoting.Takes rows f col start s) : r = s := by
  rcases Nat.lt_trichotomy r s with before | same | behind
  · exact absurd (second.earlier r first.lower before) (first.later s before second.upper)
  · exact same
  · exact absurd (first.earlier s second.lower behind) (second.later r behind first.upper)

theorem takes_of_search {row : Nat} (found : pivoting.search rows f col start = some row) :
    pivoting.Takes rows f col start row := by
  obtain ⟨before, c, after, split, atRow, usable, earlier, later⟩ := choose_split found
  obtain ⟨above, others, range, rfl, tail⟩ := List.map_eq_append_iff.mp split
  obtain ⟨r, below, rfl, rfl, rfl⟩ := List.map_eq_cons_iff.mp tail
  obtain rfl : r = row := atRow
  -- candidates were listed row by row, so those before the chosen one are the rows above it
  obtain ⟨count, bound, rfl, rest⟩ := List.range'_eq_append_iff.mp range
  obtain ⟨position, room, rfl⟩ := List.range'_eq_cons_iff.mp rest.symm
  refine ⟨by omega, by omega, usable, fun s lower upper => ?_, fun s lower upper => ?_⟩
  · exact earlier _ (List.mem_map_of_mem (List.mem_range'_1.mpr ⟨lower, by omega⟩))
  · exact later _ (List.mem_map_of_mem (List.mem_range'_1.mpr ⟨by omega, by omega⟩))

theorem search_eq_some_iff {row : Nat} :
    pivoting.search rows f col start = some row ↔ pivoting.Takes rows f col start row := by
  refine ⟨takes_of_search, fun takes => ?_⟩
  cases found : pivoting.search rows f col start with
  | none => exact absurd (search_eq_none_iff.mp found row takes.lower takes.upper) takes.usable
  | some other => rw [(takes_of_search found).unique takes]

theorem takes_largest_iff {row : Nat} : largest.Takes rows f col start row ↔
    start ≤ row ∧ row < rows ∧ f row col ≠ 0 ∧
      (∀ s, start ≤ s → s < rows → |f s col| ≤ |f row col|) ∧
      ∀ s, start ≤ s → s < row → |f s col| < |f row col| := by
  constructor
  · intro takes
    refine ⟨takes.lower, takes.upper, takes.usable, fun s lower upper => ?_, takes.earlier⟩
    rcases Nat.lt_trichotomy s row with before | rfl | behind
    · exact (takes.earlier s lower before).le
    · exact le_rfl
    · exact not_lt.mp (takes.later s behind upper)
  · rintro ⟨lower, upper, usable, maximal, smaller⟩
    exact ⟨lower, upper, usable, smaller, fun s behind inside =>
      not_lt_of_ge (maximal s (by omega) inside)⟩

theorem takes_firstNonZero_iff {row : Nat} : firstNonZero.Takes rows f col start row ↔
    start ≤ row ∧ row < rows ∧ f row col ≠ 0 ∧ ∀ s, start ≤ s → s < row → f s col = 0 := by
  constructor
  · intro takes
    exact ⟨takes.lower, takes.upper, takes.usable, fun s lower before =>
      (takes.earlier s lower before).1⟩
  · rintro ⟨lower, upper, usable, zeros⟩
    exact ⟨lower, upper, usable, fun s inside before => ⟨zeros s inside before, usable⟩,
      fun s _ _ passed => usable passed.1⟩

end Pivoting

theorem RatMatrix.selectPivot_eq (m : RatMatrix) (pivoting : Pivoting) {col : Nat} (start : Nat)
    (hcol : col < m.cols) :
    m.selectPivot pivoting col start = .ok (pivoting.search m.rows m.entry col start) := by
  have searched : (ofFn m.rows m.cols m.entry).selectPivot pivoting col start = _ :=
    selectPivot_ofFn pivoting start hcol
  rwa [ofFn_entry] at searched

/-- A pivot search always has an answer. By either strategy it is that there is no row exactly if all
entries from `start` on are zero; else it is the first row of those with the largest magnitude, or
the first row with a non-zero entry. -/
theorem selectPivot_finds (m : RatMatrix) (col : Fin m.cols) (start : Fin m.rows) :
    (∀ pivoting : Pivoting, ∃ found, m.selectPivot pivoting col start = .ok found ∧
      (found = none ↔ ∀ s : Nat, start ≤ s → s < m.rows → m.entry s col = 0)) ∧
    (∀ row : Nat, m.selectPivot .largest col start = .ok (some row) ↔
      start ≤ row ∧ row < m.rows ∧ m.entry row col ≠ 0 ∧
        (∀ s : Nat, start ≤ s → s < m.rows → |m.entry s col| ≤ |m.entry row col|) ∧
        ∀ s : Nat, start ≤ s → s < row → |m.entry s col| < |m.entry row col|) ∧
    ∀ row : Nat, m.selectPivot .firstNonZero col start = .ok (some row) ↔
      start ≤ row ∧ row < m.rows ∧ m.entry row col ≠ 0 ∧
        ∀ s : Nat, start ≤ s → s < row → m.entry s col = 0 := by
  refine ⟨fun pivoting => ⟨_, m.selectPivot_eq pivoting start col.isLt, Pivoting.search_eq_none_iff⟩,
    fun row => ?_, fun row => ?_⟩
  · rw [m.selectPivot_eq _ start col.isLt, Except.ok.injEq, Pivoting.search_eq_some_iff,
      Pivoting.takes_largest_iff]
  · rw [m.selectPivot_eq _ start col.isLt, Except.ok.injEq, Pivoting.search_eq_some_iff,
      Pivoting.takes_firstNonZero_iff]

/-- Of two entries with the largest magnitude the upper one is taken, whatever the signs. -/
example : (RatMatrix.ofFn 4 1 fun i _ => [1, -3, 3, 2].getD i 0).selectPivot .largest 0 0 =
    .ok (some 1) := by decide

end ExactLinear
