import ExactLinear.Proofs.PivotIndependence
import ExactLinear.Report

/-! What the events of an elimination say about the matrix. Rows are moved while it runs, so an event
is not about the matrix as it was given; still every column is told of as it is in that matrix, and
columns behind the pivots, those of a right-hand side among them, leave no trace. -/
namespace ExactLinear

open RatMatrix

def ColumnEvent.rankBefore : ColumnEvent → Nat
  | .pivot _ _ rank => rank
  | .free _ rank => rank

/-- The events of an elimination over the first `width` columns, as statements about the table that
it was given. -/
structure Truthful (rows width : Nat) (f : Nat → Nat → Rat) (events : List ColumnEvent) :
    Prop where
  inOrder : events.map ColumnEvent.col = List.range events.length
  stops : IsLeast {m | m = width ∨ (pivotColumns (events.take m)).length = rows} events.length
  kind : ∀ event ∈ events, event.isPivot ↔
    ¬ ∃ weight, combination rows event.col f weight = column rows f event.col
  rankBefore : ∀ k (hk : k < events.length),
    events[k].rankBefore = (pivotColumns (events.take k)).length
  fromBelow : ∀ col row rank, .pivot col row rank ∈ events → rank ≤ row ∧ row < rows

/-- What can be said of the events without a look at the entries, for `count` columns from `col` on
with `rank` pivots before them. -/
structure Account (rows count col rank : Nat) (events : List ColumnEvent) : Prop where
  inOrder : events.map ColumnEvent.col = List.range' col events.length
  within : events.length ≤ count
  stops : events.length = count ∨ rows ≤ rank + (pivotColumns events).length
  room : ∀ event ∈ events, event.rankBefore < rows
  rankBefore : ∀ k (hk : k < events.length),
    events[k].rankBefore = rank + (pivotColumns (events.take k)).length
  fromBelow : ∀ col row rank, .pivot col row rank ∈ events → rank ≤ row ∧ row < rows

theorem rankAfter_add_pivots (event : ColumnEvent) (events : List ColumnEvent) :
    event.rankAfter + (pivotColumns events).length =
      event.rankBefore + (pivotColumns (event :: events)).length := by
  cases event with
  | pivot col row rank =>
    have columns : pivotColumns (.pivot col row rank :: events) = col :: pivotColumns events := rfl
    rw [columns, ColumnEvent.rankAfter, ColumnEvent.rankBefore, List.length_cons]
    omega
  | free col rank => rfl

namespace Account

variable {rows count col rank : Nat} {events : List ColumnEvent}

theorem nil (stops : count = 0 ∨ rows ≤ rank) : Account rows count col rank [] where
  inOrder := rfl
  within := Nat.zero_le count
  stops := stops.imp Eq.symm id
  room := by simp
  rankBefore := by simp
  fromBelow := by simp

theorem cons {event : ColumnEvent} (atCol : event.col = col) (before : event.rankBefore = rank)
    (room : rank < rows)
    (fromBelow : ∀ col row rank, event = .pivot col row rank → rank ≤ row ∧ row < rows)
    (later : Account rows count (col + 1) event.rankAfter events) :
    Account rows (count + 1) col rank (event :: events) := by
  subst before
  refine ⟨?_, Nat.succ_le_succ later.within, ?_, ?_, ?_, ?_⟩
  · rw [List.map_cons, later.inOrder, atCol, List.length_cons, List.range'_succ]
  · rw [← rankAfter_add_pivots, List.length_cons]
    exact later.stops.imp_left (congrArg (· + 1))
  · exact List.forall_mem_cons.mpr ⟨room, later.room⟩
  · intro k hk
    cases k with
    | zero => rfl
    | succ k =>
      rw [List.getElem_cons_succ, List.take_succ_cons, ← rankAfter_add_pivots]
      exact later.rankBefore k (Nat.lt_of_succ_lt_succ hk)
  · intro c row n member
    rcases List.mem_cons.mp member with equal | other
    · exact fromBelow c row n equal.symm
    · exact later.fromBelow c row n other

end Account

/-- Treating a column does to another what the two of them hold determines. -/
theorem eliminated_congr {rows width col row rank : Nat} {f h : Nat → Nat → Rat}
    (same : ∀ i < rows, ∀ c < width, f i c = h i c) (hcol : col < width) (hrow : row < rows)
    (hrank : rank < rows) :
    ∀ i < rows, ∀ c < width, eliminated f col row rank i c = eliminated h col row rank i c := by
  intro i hi c hc
  have swapped (i : Nat) (hi : i < rows) (c : Nat) (hc : c < width) :
      f (Equiv.swap row rank i) c = h (Equiv.swap row rank i) c :=
    same _ (Edit.swap_lt hrow hrank hi) c hc
  simp only [eliminated, cleared, clearWeight, swapped i hi c hc, swapped i hi col hcol,
    swapped rank hrank c hc, swapped rank hrank col hcol]

namespace Elimination

variable {pivoting : Pivoting} {rows count col rank width : Nat} {f g : Nat → Nat → Rat}
  {r : Reduction}

theorem account (elimination : Elimination rows pivoting count col rank f r g) :
    Account rows count col rank r.columns := by
  induction elimination with
  | done => exact .nil (.inl rfl)
  | full full => exact .nil (.inr full)
  | free room search later ih => exact .cons rfl rfl room nofun ih
  | pivot room search later ih =>
    refine .cons rfl rfl room ?_ ih
    rintro _ _ _ ⟨rfl, rfl, rfl⟩
    obtain ⟨lower, upper, -⟩ := Pivoting.search_eq_some search
    exact ⟨lower, upper⟩

/-- The account does not depend on columns that are not treated. -/
theorem congr {h : Nat → Nat → Rat} (elimination : Elimination rows pivoting count col rank f r g)
    (bound : col + count ≤ width) (same : ∀ i < rows, ∀ c < width, f i c = h i c) :
    ∃ g', Elimination rows pivoting count col rank h r g' := by
  induction elimination generalizing h with
  | done => exact ⟨h, .done⟩
  | full full => exact ⟨h, .full full⟩
  | @free _ col _ _ _ _ room search later ih =>
    obtain ⟨g', rest⟩ := ih (by omega) same
    rw [Pivoting.search_congr fun i hi => same i hi col (by omega)] at search
    exact ⟨g', .free room search rest⟩
  | @pivot _ col _ _ _ _ _ room search later ih =>
    obtain ⟨-, upper, -⟩ := Pivoting.search_eq_some search
    obtain ⟨g', rest⟩ := ih (by omega) (eliminated_congr same (by omega) upper room)
    rw [Pivoting.search_congr fun i hi => same i hi col (by omega)] at search
    exact ⟨g', .pivot room search rest⟩

theorem truthful (elimination : Elimination rows pivoting width 0 0 f r g) :
    Truthful rows width f r.columns := by
  have account := elimination.account
  have reduced : Reduced rows width width [] f r g := elimination.reduced_start
  have inOrder : r.columns.map ColumnEvent.col = List.range r.columns.length := by
    rw [account.inOrder, List.range_eq_range']
  have rankBefore (k : Nat) (hk : k < r.columns.length) :
      r.columns[k].rankBefore = (pivotColumns (r.columns.take k)).length := by
    rw [account.rankBefore k hk, Nat.zero_add]
  refine ⟨inOrder, ⟨?_, ?_⟩, ?_, rankBefore, account.fromBelow⟩
  · refine account.stops.imp_right fun full => ?_
    rw [List.take_length]
    have := reduced.echelon.rank_le
    omega
  · rintro m (rfl | full)
    · exact account.within
    · by_contra early
      have event := account.room _ (List.getElem_mem (show m < r.columns.length by omega))
      rw [rankBefore m (by omega)] at event
      omega
  · intro event member
    have inside : event.col < width := by
      have listed : event.col ∈ List.range r.columns.length :=
        inOrder ▸ List.mem_map_of_mem member
      exact (List.mem_range.mp listed).trans_le account.within
    have distinct : (r.columns.map ColumnEvent.col).Nodup := inOrder ▸ List.nodup_range
    have isPivot : event.isPivot ↔ event.col ∈ pivotColumns r.columns := by
      constructor
      · intro pivot
        exact List.mem_map_of_mem (List.mem_filter.mpr ⟨member, pivot⟩)
      · intro listed
        obtain ⟨other, pivots, equal⟩ := List.mem_map.mp listed
        obtain ⟨inEvents, pivot⟩ := List.mem_filter.mp pivots
        rwa [← List.inj_on_of_nodup_map distinct inEvents member equal]
    rw [isPivot, reduced.echelon.mem_pivots_iff inside, not_exists]
    refine forall_congr' fun weight => not_congr ?_
    exact reduced.equivalent.combination_eq_column_iff inside.le inside weight

end Elimination

def Solution.outcome {α : Type} (rows cols rank : Nat) : Solution α → Outcome
  | .none => .inconsistent rows cols rank
  | .infinite => .underdetermined rows cols rank (cols - rank)
  | .unique _ => .determined rows cols rank

theorem Classified.events_eq {rows width count : Nat} {r : Reduction} {g : Nat → Nat → Rat}
    {solved : Solved RatMatrix} (classified : Classified rows width count r g solved) :
    solved.events = r.events ++ [.outcome (solved.solution.outcome rows width r.rank)] := by
  cases classified <;> rfl

theorem RatMatrix.reduction_of_elimination {a : RatMatrix} {pivoting : Pivoting} {r : Reduction}
    {g : Nat → Nat → Rat} (elimination : Elimination a.rows pivoting a.cols 0 0 a.entry r g) :
    a.reduction pivoting = .ok r ∧ a.rank pivoting = .ok r.rank := by
  have ran := elimination.reduce fun _ => Nat.le_refl a.cols
  rw [ofFn_entry] at ran
  refine ⟨?_, rank_of_reduce ran⟩
  simp [reduction, Edit.result, ran, bind, Except.bind, pure, Except.pure]

/-- The events of an elimination tell the truth about the matrix. Solving tells the same about its
columns whatever the right-hand side, and then of one outcome, the one that was found. -/
theorem elimination_events (a : RatMatrix) (pivoting : Pivoting) :
    ∃ r, a.reduction pivoting = .ok r ∧ a.rank pivoting = .ok r.rank ∧
      Truthful a.rows a.cols a.entry r.columns ∧
      ∀ y, a.rows = y.rows → ∃ solved, a.solve y pivoting = .ok solved ∧
        solved.events = r.events ++
          [.outcome (solved.solution.outcome a.rows a.cols r.rank)] := by
  obtain ⟨r, g, elimination⟩ := Elimination.total a.rows pivoting a.cols 0 0 a.entry
  obtain ⟨account, rank⟩ := reduction_of_elimination elimination
  refine ⟨r, account, rank, elimination.truthful, fun y same => ?_⟩
  obtain ⟨solved, r', g', ran, wider, classified⟩ := a.solve_classified y same pivoting
  obtain ⟨g'', projected⟩ := wider.congr (Nat.zero_add a.cols).le
    fun i _ c hc => if_pos hc
  obtain rfl : r = r' := Except.ok.inj (account.symm.trans (reduction_of_elimination projected).1)
  exact ⟨solved, ran, classified.events_eq⟩

end ExactLinear
