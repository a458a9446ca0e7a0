import ExactLinear.LinearSystem
import ExactLinear.Proofs.AscendingOrder
import ExactLinear.Proofs.EquationValue
import ExactLinear.Proofs.Solve

/-! Solving a system by name. Assignments of values to the names of a system correspond one to one
to the columns its matrix equation has for solutions, in the order of the names. -/
namespace ExactLinear

open RatMatrix

namespace Valuation

theorem get?_of_mem {v : Valuation} {name : String} {r : Rat} (member : (name, r) ∈ v.entries) :
    v.get? name = some r :=
  (lookup_eq_some_iff_mem v.sorted.nodup_keys name r).mpr member

theorem entries_eq_map (v : Valuation) :
    v.entries = v.names.map fun name => (name, (v.get? name).getD 0) := by
  have identity :
      v.entries.map id = v.entries.map fun entry => (entry.1, (v.get? entry.1).getD 0) :=
    List.map_congr_left fun entry member => by rw [get?_of_mem member]; rfl
  rw [names, List.map_map]
  exact (List.map_id _).symm.trans identity

/-- Names and their values are all there is to a valuation. -/
theorem eq_of_get? {v w : Valuation} (names : v.names = w.names)
    (values : ∀ name ∈ w.names, v.get? name = w.get? name) : v = w := by
  have same : v.entries = w.entries := by
    rw [v.entries_eq_map, w.entries_eq_map, names]
    exact List.map_congr_left fun name member => by rw [values name member]
  obtain ⟨entries, sorted⟩ := v
  obtain rfl : entries = w.entries := same
  rfl

theorem eq_empty_of_names {v : Valuation} (nameless : v.names = []) : v = .empty :=
  eq_of_get? nameless (by simp [names, empty])

end Valuation

namespace LinearSystem

def Occurs (s : LinearSystem) (name : String) : Prop :=
  ∃ e ∈ s.equations, e.coefficient name ≠ 0

instance (s : LinearSystem) : DecidablePred s.Occurs := fun name =>
  inferInstanceAs (Decidable (∃ e ∈ s.equations, e.coefficient name ≠ 0))

/-- A value for each name that occurs, and for no other. -/
abbrev Assignment (s : LinearSystem) : Type := {name : String // s.Occurs name} → Rat

variable {s : LinearSystem}

/-- Names that do not occur have no influence and count as zero. -/
def Assignment.extend (a : s.Assignment) (name : String) : Rat :=
  if occurs : s.Occurs name then a ⟨name, occurs⟩ else 0

def Satisfied (s : LinearSystem) (a : s.Assignment) : Prop :=
  ∀ e ∈ s.equations, e.value a.extend = 0

theorem mem_unknowns_iff (s : LinearSystem) (name : String) :
    name ∈ s.unknowns ↔ s.Occurs name := by
  rw [unknowns, Text.mem_sortAscending_id, List.mem_flatMap]
  simp only [Equation.mem_names_iff, Occurs]

theorem ascending_unknowns (s : LinearSystem) : Text.Ascending id s.unknowns :=
  Text.ascending_sortAscending _

theorem nodup_unknowns (s : LinearSystem) : s.unknowns.Nodup := by
  simpa using s.ascending_unknowns.nodup_keys

def Assignment.toMatrix (a : s.Assignment) : RatMatrix :=
  ofFn s.unknowns.length 1 fun k _ => a.extend (s.unknowns[k]?.getD "")

def ofMatrix (s : LinearSystem) (x : RatMatrix) : s.Assignment :=
  fun name => x.entry (s.unknowns.idxOf name.val) 0

theorem toMatrix_ofMatrix {x : RatMatrix} (rows : x.rows = s.unknowns.length) (cols : x.cols = 1) :
    (s.ofMatrix x).toMatrix = x := by
  symm
  apply eq_ofFn rows cols
  intro k hk j hj
  have occurs : s.Occurs s.unknowns[k] := (s.mem_unknowns_iff _).mp (List.getElem_mem hk)
  have position : s.unknowns.idxOf s.unknowns[k] = k := s.nodup_unknowns.idxOf_getElem k hk
  obtain rfl : j = 0 := by omega
  rw [List.getElem?_eq_getElem hk, Option.getD_some, Assignment.extend, dif_pos occurs, ofMatrix,
    position]

theorem ofMatrix_toMatrix (a : s.Assignment) : s.ofMatrix a.toMatrix = a := by
  funext ⟨name, occurs⟩
  have hk := List.idxOf_lt_length_of_mem ((s.mem_unknowns_iff name).mpr occurs)
  rw [ofMatrix, Assignment.toMatrix, entry_ofFn _ hk Nat.zero_lt_one, List.getElem?_eq_getElem hk,
    Option.getD_some, List.getElem_idxOf, Assignment.extend, dif_pos occurs]

theorem value_eq_sum_unknowns {e : Equation} (member : e ∈ s.equations) (values : String → Rat) :
    e.value values = ∑ k ∈ Finset.range s.unknowns.length,
      e.coefficient (s.unknowns[k]?.getD "") * values (s.unknowns[k]?.getD "") + e.constant := by
  rw [e.value_eq_sum values s.unknowns.toFinset fun name nonzero =>
    List.mem_toFinset.mpr ((s.mem_unknowns_iff name).mpr ⟨e, member, nonzero⟩),
    List.sum_toFinset _ s.nodup_unknowns, ← Fin.sum_univ_fun_getElem, Finset.sum_range]
  simp

theorem entry_coefficients (names : List String) {i k : Nat} (hi : i < s.equations.length)
    (hk : k < names.length) : (s.coefficients names).entry i k =
      s.equations[i].coefficient (names[k]?.getD "") := by
  rw [coefficients, size, entry_ofFn _ hi hk, List.getElem?_eq_getElem hi, Option.getD_some]

theorem entry_rightHandSide {i : Nat} (hi : i < s.equations.length) :
    s.rightHandSide.entry i 0 = -s.equations[i].constant := by
  rw [rightHandSide, size, entry_ofFn _ hi Nat.zero_lt_one, List.getElem?_eq_getElem hi,
    Option.getD_some]

theorem entry_toMatrix (a : s.Assignment) {k : Nat} (hk : k < s.unknowns.length) :
    a.toMatrix.entry k 0 = a.extend (s.unknowns[k]?.getD "") := by
  rw [Assignment.toMatrix, entry_ofFn _ hk Nat.zero_lt_one]

/-- Assignments that satisfy the system are the solutions of its matrix equation. -/
theorem isSolution_toMatrix_iff (a : s.Assignment) :
    IsSolution (s.coefficients s.unknowns) s.rightHandSide a.toMatrix ↔ s.Satisfied a := by
  have row (i : Nat) (hi : i < s.equations.length) :
      ∑ k ∈ Finset.range s.unknowns.length,
          (s.coefficients s.unknowns).entry i k * a.toMatrix.entry k 0 =
        s.rightHandSide.entry i 0 ↔ s.equations[i].value a.extend = 0 := by
    have terms : ∑ k ∈ Finset.range s.unknowns.length,
        (s.coefficients s.unknowns).entry i k * a.toMatrix.entry k 0 =
        ∑ k ∈ Finset.range s.unknowns.length, s.equations[i].coefficient
          (s.unknowns[k]?.getD "") * a.extend (s.unknowns[k]?.getD "") := by
      apply Finset.sum_congr rfl
      intro k member
      have hk := Finset.mem_range.mp member
      rw [entry_coefficients _ hi hk, entry_toMatrix a hk]
    rw [terms, entry_rightHandSide hi, value_eq_sum_unknowns (List.getElem_mem hi)]
    exact eq_neg_iff_add_eq_zero
  constructor
  · rintro ⟨-, -, -, -, -, sums⟩ e member
    obtain ⟨i, hi, rfl⟩ := List.mem_iff_getElem.mp member
    exact (row i hi).mp (sums i hi 0 Nat.zero_lt_one)
  · intro satisfied
    refine ⟨rfl, rfl, rfl, rfl, rfl, fun i hi j hj => ?_⟩
    obtain rfl : j = 0 := Nat.lt_one_iff.mp hj
    exact (row i hi).mpr (satisfied _ (List.getElem_mem hi))

theorem exists_toMatrix_eq {x : RatMatrix}
    (solves : IsSolution (s.coefficients s.unknowns) s.rightHandSide x) :
    s.Satisfied (s.ofMatrix x) ∧ (s.ofMatrix x).toMatrix = x := by
  have same := toMatrix_ofMatrix (s := s) solves.1 solves.2.1
  rw [← isSolution_toMatrix_iff, same]
  exact ⟨solves, rfl⟩

/-- Naming a column of values loses none of them and adds no name. -/
theorem valuation_eq {x : RatMatrix} (rows : x.rows = s.unknowns.length) (cols : x.cols = 1) :
    ∃ named, valuation s.unknowns x = .ok named ∧ named.names = s.unknowns ∧
      ∀ name : {name : String // s.Occurs name}, named.get? name = some (s.ofMatrix x name) := by
  let values := (List.range x.rows).map fun i => x.entry i 0
  have read : x.column 0 = .ok values := by
    apply mapM_eq_ok_map
    intro i member
    exact x.cell_eq_entry (position_lt (List.mem_range.mp member) (by omega))
  have keys : (s.unknowns.zip values).map (·.1) = s.unknowns :=
    List.map_fst_zip (by simp [values, rows])
  have sorted : Text.Ascending (·.1) (s.unknowns.zip values) := by
    have := s.ascending_unknowns
    rw [← keys] at this
    exact List.pairwise_map.mp this
  have entries : (Valuation.ofList (s.unknowns.zip values)).entries = s.unknowns.zip values :=
    Text.sortAscending_of_ascending sorted
  refine ⟨.ofList (s.unknowns.zip values), ?_, ?_, ?_⟩
  · rw [valuation, read]
    rfl
  · rw [Valuation.names, entries, keys]
  · rintro ⟨name, occurs⟩
    have hk := List.idxOf_lt_length_of_mem ((s.mem_unknowns_iff name).mpr occurs)
    rw [Valuation.get?, entries, lookup_eq_some_iff_mem sorted.nodup_keys]
    apply List.mem_iff_getElem.mpr
    refine ⟨s.unknowns.idxOf name, by simpa [values, rows] using hk, ?_⟩
    simp [values, ofMatrix]

/-- What an answer says about the assignments that satisfy the system. -/
def Answers (s : LinearSystem) : Solution Valuation → Prop
  | .none => ∀ a, ¬ s.Satisfied a
  | .infinite => ∃ a b, a ≠ b ∧ s.Satisfied a ∧ s.Satisfied b
  | .unique named => named.names = s.unknowns ∧
    ∃ a, (∀ b, s.Satisfied b ↔ b = a) ∧ ∀ name, named.get? name.val = some (a name)

theorem solve_answers (s : LinearSystem) (pivoting : Pivoting) :
    ∃ solved, s.solve pivoting = .ok solved ∧ s.Answers solved.solution := by
  obtain ⟨solved, ran, answers⟩ :=
    ExactLinear.solve_answers (s.coefficients s.unknowns) s.rightHandSide rfl pivoting
  have run : s.solve pivoting = nameValues s.unknowns solved := by
    simp [solve, ran, bind, Except.bind]
  cases kind : solved.solution with
  | none =>
    rw [kind] at answers
    refine ⟨⟨solved.columns, solved.outcome, .none⟩, by rw [run, nameValues, kind], fun a sat => ?_⟩
    exact answers a.toMatrix ((isSolution_toMatrix_iff a).mpr sat)
  | infinite =>
    rw [kind] at answers
    obtain ⟨⟨x, solves⟩, cancelling⟩ := answers
    refine ⟨⟨solved.columns, solved.outcome, .infinite⟩, by rw [run, nameValues, kind], ?_⟩
    obtain ⟨x, hx, y, hy, different⟩ :=
      (infinite_isSolution solves cancelling (Nat.le_refl 1)).nontrivial
    obtain ⟨satX, backX⟩ := exists_toMatrix_eq hx
    obtain ⟨satY, backY⟩ := exists_toMatrix_eq hy
    refine ⟨s.ofMatrix x, s.ofMatrix y, fun equal => different ?_, satX, satY⟩
    rw [← backX, ← backY, equal]
  | unique x =>
    rw [kind] at answers
    obtain ⟨only, -⟩ := answers
    have solves := (only x).mpr rfl
    obtain ⟨named, made, names, values⟩ := valuation_eq solves.1 solves.2.1
    refine ⟨⟨solved.columns, solved.outcome, .unique named⟩, ?_, names, s.ofMatrix x, ?_, values⟩
    · rw [run, nameValues, kind]
      simp only [made]
    · intro b
      rw [← isSolution_toMatrix_iff, only]
      constructor
      · intro equal
        rw [← equal, ofMatrix_toMatrix]
      · rintro rfl
        exact toMatrix_ofMatrix solves.1 solves.2.1

/-- A system has one right answer only. -/
theorem Answers.eq {answer other : Solution Valuation} (left : s.Answers answer)
    (right : s.Answers other) : answer = other := by
  cases answer with
  | none =>
    cases other with
    | none => rfl
    | infinite =>
      obtain ⟨a, -, -, satisfied, -⟩ := right
      exact absurd satisfied (left a)
    | unique named =>
      obtain ⟨-, a, only, -⟩ := right
      exact absurd ((only a).mpr rfl) (left a)
  | infinite =>
    obtain ⟨a, b, different, satA, satB⟩ := left
    cases other with
    | none => exact absurd satA (right a)
    | infinite => rfl
    | unique named =>
      obtain ⟨-, c, only, -⟩ := right
      exact absurd (((only a).mp satA).trans ((only b).mp satB).symm) different
  | unique named =>
    obtain ⟨names, a, only, values⟩ := left
    cases other with
    | none => exact absurd ((only a).mpr rfl) (right a)
    | infinite =>
      obtain ⟨b, c, different, satB, satC⟩ := right
      exact absurd (((only b).mp satB).trans ((only c).mp satC).symm) different
    | unique named' =>
      obtain ⟨names', b, only', values'⟩ := right
      obtain rfl : a = b := (only' a).mp ((only a).mpr rfl)
      rw [Solution.unique.injEq]
      refine Valuation.eq_of_get? (names.trans names'.symm) fun name member => ?_
      have occurs := (s.mem_unknowns_iff name).mp (names' ▸ member)
      rw [values ⟨name, occurs⟩, values' ⟨name, occurs⟩]

theorem solve_of_answers {answer : Solution Valuation} (answers : s.Answers answer)
    (pivoting : Pivoting) :
    ∃ solved, s.solve pivoting = .ok solved ∧ solved.solution = answer := by
  obtain ⟨solved, ran, found⟩ := s.solve_answers pivoting
  exact ⟨solved, ran, found.eq answers⟩

theorem not_occurs_of_constant (constant : ∀ e ∈ s.equations, e.isEmpty) (name : String) :
    ¬ s.Occurs name := by
  rintro ⟨e, member, nonzero⟩
  have stored := (e.mem_names_iff name).mpr nonzero
  simp [Equation.names, List.isEmpty_iff.mp (constant e member)] at stored

/-- A system always gets an answer, and its kind counts the assignments that satisfy it: none, one,
which is then spelled out with its names, or more. Without names there is at most one. -/
theorem solve_kind_iff (s : LinearSystem) (pivoting : Pivoting) :
    ∃ solved, s.solve pivoting = .ok solved ∧
      (solved.solution = .none ↔ ¬ ∃ a, s.Satisfied a) ∧
      ((∃ named, solved.solution = .unique named) ↔ ∃! a, s.Satisfied a) ∧
      (∀ named, solved.solution = .unique named → (∀ name, name ∈ named.names ↔ s.Occurs name) ∧
        ∃ a, s.Satisfied a ∧ ∀ name, named.get? name.val = some (a name)) ∧
      (solved.solution = .infinite ↔ ∃ a b, a ≠ b ∧ s.Satisfied a ∧ s.Satisfied b) ∧
      ((∀ e ∈ s.equations, e.isEmpty) →
        solved.solution = .unique .empty ∨ solved.solution = .none) := by
  obtain ⟨solved, ran, answers⟩ := s.solve_answers pivoting
  refine ⟨solved, ran, ?_⟩
  cases kind : solved.solution with
  | none =>
    rw [kind] at answers
    have none : ∀ a, ¬ s.Satisfied a := answers
    simp [none, ExistsUnique]
  | infinite =>
    rw [kind] at answers
    obtain ⟨a, b, different, satA, satB⟩ := answers
    refine ⟨by simpa using ⟨a, satA⟩, ?_, by simp, by simpa using ⟨a, b, different, satA, satB⟩, ?_⟩
    · simp only [reduceCtorEq, exists_false, false_iff]
      rintro ⟨c, -, only⟩
      exact different ((only a satA).trans (only b satB).symm)
    · intro constant
      -- without names there is nothing in which two assignments could differ
      refine absurd (funext ?_) different
      rintro ⟨name, occurs⟩
      exact absurd occurs (not_occurs_of_constant constant name)
  | unique named =>
    rw [kind] at answers
    obtain ⟨names, a, only, values⟩ := answers
    have satisfied := (only a).mpr rfl
    refine ⟨by simpa using ⟨a, satisfied⟩, ?_, ?_, ?_, ?_⟩
    · simp only [Solution.unique.injEq, exists_eq', true_iff]
      exact ⟨a, satisfied, fun b sat => (only b).mp sat⟩
    · rintro other equal
      obtain rfl := Solution.unique.inj equal
      exact ⟨fun name => by rw [names, mem_unknowns_iff], a, satisfied, values⟩
    · simp only [reduceCtorEq, false_iff]
      rintro ⟨b, c, different, satB, satC⟩
      exact different (((only b).mp satB).trans ((only c).mp satC).symm)
    · intro constant
      have nameless : named.names = [] := by
        rw [names, List.eq_nil_iff_forall_not_mem]
        intro name member
        exact not_occurs_of_constant constant name ((s.mem_unknowns_iff name).mp member)
      rw [Valuation.eq_empty_of_names nameless]
      exact .inl rfl

end LinearSystem

end ExactLinear
