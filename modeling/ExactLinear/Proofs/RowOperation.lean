import ExactLinear.Matrix
import ExactLinear.Proofs.MatrixEntries
import Mathlib.Logic.Equiv.Basic

/-! Row operations by the entries they leave. The loops write cell after cell; each is taken
through its stages, one for every column, and the stage behind the last column is the result. -/
namespace ExactLinear.Edit

open RatMatrix

variable {α β : Type} {rows cols : Nat} {f : Nat → Nat → Rat}

theorem bind_apply {first : Edit α} {next : α → Edit β} {m edited : RatMatrix} {a : α}
    (ran : first m = .ok a edited) : (first >>= next) m = next a edited := by
  simp [bind, EStateM.bind, ran]

theorem bind_error {first : Edit α} {next : α → Edit β} {m left : RatMatrix} {fault : Fault}
    (stopped : first m = .error fault left) : (first >>= next) m = .error fault left := by
  simp [bind, EStateM.bind, stopped]

theorem inspect_apply {look : RatMatrix → Except Fault α} {m : RatMatrix} {a : α}
    (seen : look m = .ok a) : inspect look m = .ok a m := by
  simp [inspect, seen]

theorem read_ofFn {i j : Nat} (hi : i < rows) (hj : j < cols) :
    read i j (ofFn rows cols f) = .ok (f i j) (ofFn rows cols f) :=
  inspect_apply (cell_ofFn hi hj)

theorem write_apply (m : RatMatrix) {i j : Nat} (value : Rat) (hi : i < m.rows)
    (hj : j < m.cols) : write i j value m =
      .ok () (ofFn m.rows m.cols fun r c => if r = i ∧ c = j then value else m.entry r c) := by
  obtain ⟨rows, cols, data⟩ := m
  rw [write, dif_pos (position_lt hi hj)]
  congr 1
  apply eq_ofFn rfl rfl
  intro r hr c hc
  simp only at hi hj hr hc
  have inside := position_lt hr hc
  rw [entry_mk _ inside, entry_mk _ inside]
  simp only [Vector.getElem_set, eq_comm (a := i * cols + j), position_eq_iff hj hc]

theorem write_ofFn {i j : Nat} (value : Rat) (hi : i < rows) (hj : j < cols) :
    write i j value (ofFn rows cols f) =
      .ok () (ofFn rows cols fun r c => if r = i ∧ c = j then value else f r c) := by
  rw [write_apply _ value hi hj]
  congr 1
  apply ofFn_congr
  intro r hr c hc
  rw [rows_ofFn] at hr
  rw [cols_ofFn] at hc
  rw [entry_ofFn f hr hc]

/-- In column `k` the two rows change places. -/
theorem swapCells_apply (m : RatMatrix) {i j k : Nat} (hi : i < m.rows) (hj : j < m.rows)
    (hk : k < m.cols) : swapCells i j k m =
      .ok () (ofFn m.rows m.cols fun r c =>
        if c = k then m.entry (Equiv.swap i j r) c else m.entry r c) := by
  obtain ⟨rows, cols, data⟩ := m
  rw [swapCells, dif_pos ⟨position_lt hi hk, position_lt hj hk⟩]
  congr 1
  apply eq_ofFn rfl rfl
  intro r hr c hc
  simp only at hi hj hk hr hc
  have inside := position_lt hr hc
  rw [entry_mk _ inside]
  simp only [Vector.getElem_swap, position_eq_iff hk hc]
  by_cases column : c = k
  · subst c
    by_cases first : r = i
    · subst r
      simp [entry_mk data (position_lt hj hk)]
    · by_cases second : r = j
      · subst r
        simp [first, entry_mk data (position_lt hi hk)]
      · simp [first, second, Equiv.swap_apply_of_ne_of_ne, entry_mk data inside]
  · simp [column, entry_mk data inside]

theorem swap_lt {i j r : Nat} (hi : i < rows) (hj : j < rows) (hr : r < rows) :
    Equiv.swap i j r < rows := by
  rw [Equiv.swap_apply_def]
  split
  · exact hj
  · split
    · exact hi
    · exact hr

theorem swapCells_ofFn {i j k : Nat} (hi : i < rows) (hj : j < rows) (hk : k < cols) :
    swapCells i j k (ofFn rows cols f) =
      .ok () (ofFn rows cols fun r c => if c = k then f (Equiv.swap i j r) c else f r c) := by
  rw [swapCells_apply _ hi hj hk]
  congr 1
  apply ofFn_congr
  intro r hr c hc
  rw [rows_ofFn] at hr
  rw [cols_ofFn] at hc
  rw [entry_ofFn f hr hc, entry_ofFn f (swap_lt hi hj hr) hc]

/-- A loop runs through its stages. -/
theorem forEachFrom_apply (step : Nat → Edit Unit) (stage : Nat → RatMatrix) (count start : Nat)
    (each : ∀ k, start ≤ k → k < start + count → step k (stage k) = .ok () (stage (k + 1))) :
    forEachFrom step count start (stage start) = .ok () (stage (start + count)) := by
  induction count generalizing start with
  | zero => rfl
  | succ count ih =>
    rw [forEachFrom, bind_apply (each start (by omega) (by omega)),
      ih (start + 1) (fun k lower upper => each k (by omega) (by omega))]
    congr 2
    omega

theorem forEach_apply (step : Nat → Edit Unit) (stage : Nat → RatMatrix) (count : Nat)
    (each : ∀ k < count, step k (stage k) = .ok () (stage (k + 1))) :
    forEach count step (stage 0) = .ok () (stage count) := by
  have whole := forEachFrom_apply step stage count 0 (fun k _ upper => each k (by omega))
  rwa [Nat.zero_add] at whole

/-- A loop over the columns whose step at `k` does to column `k` what turns `f` into `g`. -/
theorem forEach_cols {step : Nat → Edit Unit} (g : Nat → Nat → Rat)
    (each : ∀ k < cols, ∀ h : Nat → Nat → Rat, (∀ r < rows, ∀ c < cols, k ≤ c → h r c = f r c) →
      step k (ofFn rows cols h) =
        .ok () (ofFn rows cols fun r c => if c = k then g r c else h r c)) :
    forEach cols step (ofFn rows cols f) = .ok () (ofFn rows cols g) := by
  have run := forEach_apply step
    (fun k => ofFn rows cols fun r c => if c < k then g r c else f r c) cols (by
      intro k hk
      rw [each k hk _ (by intro r _ c _ later; rw [if_neg (by omega)])]
      congr 2
      funext r c
      grind)
  rw [ofFn_congr (g := f) (by intro r _ c _; simp)] at run
  rw [run, ofFn_congr (g := g) (by intro r _ c hc; simp [hc])]

@[simp] theorem cols_bind_ofFn (next : Nat → Edit β) :
    (Edit.cols >>= next) (ofFn rows cols f) = next cols (ofFn rows cols f) := rfl

@[simp] theorem rows_bind_ofFn (next : Nat → Edit β) :
    (Edit.rows >>= next) (ofFn rows cols f) = next rows (ofFn rows cols f) := rfl

theorem swapRows_ofFn {i j : Nat} (hi : i < rows) (hj : j < rows) :
    swapRows i j (ofFn rows cols f) = .ok () (ofFn rows cols fun r => f (Equiv.swap i j r)) := by
  unfold swapRows
  split
  · rename_i same
    subst j
    simp [pure, EStateM.pure]
  · rw [cols_bind_ofFn]
    apply forEach_cols
    intro k hk h same
    rw [swapCells_ofFn hi hj hk]
    congr 1
    apply ofFn_congr
    intro r hr c hc
    split
    · rw [same _ (swap_lt hi hj hr) c hc (by omega)]
    · rfl

/-- A loop over the columns that writes one cell of row `i` in each, and looks only at the column
it writes to. -/
theorem forEach_write {step : Nat → Edit Unit} {i : Nat} (value : Nat → Rat) (hi : i < rows)
    (each : ∀ k < cols, ∀ h : Nat → Nat → Rat, (∀ r < rows, h r k = f r k) →
      step k (ofFn rows cols h) = write i k (value k) (ofFn rows cols h)) :
    forEach cols step (ofFn rows cols f) =
      .ok () (ofFn rows cols fun r c => if r = i then value c else f r c) := by
  apply forEach_cols
  intro k hk h same
  rw [each k hk h (fun r hr => same r hr k hk (Nat.le_refl k)), write_ofFn _ hi hk]
  congr 1
  apply ofFn_congr
  intro r hr c hc
  by_cases column : c = k
  · subst c
    by_cases row : r = i
    · simp [row]
    · simp [row, same r hr k hk (Nat.le_refl k)]
  · simp [column]

theorem addScaledRow_ofFn {target source : Nat} (scale : Rat) (ht : target < rows)
    (hs : source < rows) : addScaledRow target source scale (ofFn rows cols f) =
      .ok () (ofFn rows cols fun r c =>
        if r = target then f target c + f source c * scale else f r c) := by
  unfold addScaledRow
  rw [cols_bind_ofFn]
  apply forEach_write (fun c => f target c + f source c * scale) ht
  intro k hk h same
  rw [bind_apply (read_ofFn hs hk), bind_apply (read_ofFn ht hk), same source hs, same target ht]

theorem scaleRow_ofFn {i : Nat} (scale : Rat) (hi : i < rows) :
    scaleRow i scale (ofFn rows cols f) =
      .ok () (ofFn rows cols fun r c => if r = i then f i c * scale else f r c) := by
  unfold scaleRow
  rw [cols_bind_ofFn]
  apply forEach_write (fun c => f i c * scale) hi
  intro k hk h same
  rw [bind_apply (read_ofFn hi hk), same i hi]

end ExactLinear.Edit
