import ExactLinear.Proofs.SystemSolve
import Mathlib.LinearAlgebra.Finsupp.LinearCombination
import Mathlib.Logic.Relation

/-! Changes to a system that leave its solutions alone. Coefficients and constant of an equation make
up a vector; what a system implies are the combinations of its vectors, and names, assignments and
so the answer can be told from these alone. -/
namespace ExactLinear

namespace Equation

structure IsMultiple (factor : Rat) (e scaled : Equation) : Prop where
  constant : scaled.constant = factor * e.constant
  coefficient : ∀ name, scaled.coefficient name = factor * e.coefficient name

/-- With some weights for `es` the numbers of `e` are sums of theirs. -/
def IsCombination (es : List Equation) (e : Equation) : Prop :=
  ∃ weight : Fin es.length → Rat,
    e.constant = ∑ i : Fin es.length, weight i * es[i].constant ∧
    ∀ name, e.coefficient name = ∑ i : Fin es.length, weight i * es[i].coefficient name

noncomputable def vector (e : Equation) : (String →₀ Rat) × Rat :=
  (.onFinset e.names.toFinset e.coefficient fun name nonzero =>
    List.mem_toFinset.mpr ((e.mem_names_iff name).mpr nonzero), e.constant)

@[simp] theorem vector_fst (e : Equation) (name : String) : e.vector.1 name = e.coefficient name :=
  rfl

@[simp] theorem vector_snd (e : Equation) : e.vector.2 = e.constant := rfl

theorem IsMultiple.vector_eq {factor : Rat} {e scaled : Equation}
    (multiple : IsMultiple factor e scaled) : scaled.vector = factor • e.vector := by
  ext1
  · ext name
    simpa using multiple.coefficient name
  · simpa using multiple.constant

theorem IsCombination.vector_eq {es : List Equation} {e : Equation}
    (combination : IsCombination es e) :
    ∃ weight : Fin es.length → Rat, e.vector = ∑ i : Fin es.length, weight i • es[i].vector := by
  obtain ⟨weight, constant, coefficients⟩ := combination
  refine ⟨weight, ?_⟩
  ext1
  · ext name
    simpa [Prod.fst_sum, Finsupp.finsetSum_apply] using coefficients name
  · simpa [Prod.snd_sum] using constant

/-- The value of the equation as a function of its vector. -/
noncomputable def evaluation (values : String → Rat) : (String →₀ Rat) × Rat →ₗ[Rat] Rat :=
  (Finsupp.linearCombination Rat values).coprod LinearMap.id

theorem evaluation_vector (e : Equation) (values : String → Rat) :
    evaluation values e.vector = e.value values := by
  have covers (name : String) (nonzero : e.coefficient name ≠ 0) : name ∈ e.names.toFinset :=
    List.mem_toFinset.mpr ((e.mem_names_iff name).mpr nonzero)
  rw [e.value_eq_sum values _ covers]
  simp only [evaluation, LinearMap.coprod_apply, LinearMap.id_apply, vector_snd,
    Finsupp.linearCombination_apply, smul_eq_mul]
  congr 1
  exact Finsupp.onFinset_sum covers (by simp)

end Equation

namespace LinearSystem

open Equation

variable {s t : LinearSystem}

noncomputable def implied (s : LinearSystem) : Submodule Rat ((String →₀ Rat) × Rat) :=
  Submodule.span Rat {v | ∃ e ∈ s.equations, e.vector = v}

theorem vector_mem_implied {e : Equation} (member : e ∈ s.equations) : e.vector ∈ s.implied :=
  Submodule.subset_span ⟨e, member, rfl⟩

theorem vector_mem_implied_of_isCombination {e : Equation}
    (combination : IsCombination s.equations e) : e.vector ∈ s.implied := by
  obtain ⟨weight, equal⟩ := combination.vector_eq
  rw [equal]
  exact Submodule.sum_mem _ fun i _ =>
    Submodule.smul_mem _ _ (vector_mem_implied (List.getElem_mem i.isLt))

theorem implied_le_iff {vectors : Submodule Rat ((String →₀ Rat) × Rat)} :
    s.implied ≤ vectors ↔ ∀ e ∈ s.equations, e.vector ∈ vectors := by
  rw [implied, Submodule.span_le]
  constructor
  · intro subset e member
    exact subset ⟨e, member, rfl⟩
  · rintro all _ ⟨e, member, rfl⟩
    exact all e member

/-- One change to a system that leaves all combinations of its equations as they are. -/
inductive Rework : LinearSystem → LinearSystem → Prop
  | reorder {s t : LinearSystem} (perm : s.equations.Perm t.equations) : Rework s t
  | scale {before after : List Equation} {e scaled : Equation} {factor : Rat}
      (nonzero : factor ≠ 0) (multiple : IsMultiple factor e scaled) :
      Rework ⟨before ++ e :: after⟩ ⟨before ++ scaled :: after⟩
  | insert {s t : LinearSystem} {i : Nat} {e : Equation}
      (combination : IsCombination s.equations e) (inserted : s.insert i e = .ok t) : Rework s t
  | remove {s t : LinearSystem} {i : Nat} {e : Equation}
      (combination : IsCombination t.equations e) (removed : s.remove i = .ok (e, t)) : Rework s t

theorem mem_of_insert {i : Nat} {e : Equation} (inserted : s.insert i e = .ok t) (x : Equation) :
    x ∈ t.equations ↔ x = e ∨ x ∈ s.equations := by
  unfold LinearSystem.insert at inserted
  split at inserted
  · rename_i bound
    obtain rfl := Except.ok.inj inserted
    exact List.mem_insertIdx bound
  · contradiction

theorem mem_of_remove {i : Nat} {e : Equation} (removed : s.remove i = .ok (e, t)) (x : Equation) :
    x ∈ s.equations ↔ x = e ∨ x ∈ t.equations := by
  unfold LinearSystem.remove at removed
  split at removed
  · rename_i taken found
    obtain ⟨rfl, rfl⟩ := Prod.mk.inj (Except.ok.inj removed)
    obtain ⟨bound, rfl⟩ := List.getElem?_eq_some_iff.mp found
    rw [← (List.getElem_cons_eraseIdx_perm bound).mem_iff, List.mem_cons]
  · contradiction

theorem implied_eq_of_mem {e : Equation} (combination : IsCombination s.equations e)
    (members : ∀ x, x ∈ t.equations ↔ x = e ∨ x ∈ s.equations) : t.implied = s.implied := by
  apply le_antisymm
  · rw [implied_le_iff]
    intro x member
    rcases (members x).mp member with rfl | old
    · exact vector_mem_implied_of_isCombination combination
    · exact vector_mem_implied old
  · rw [implied_le_iff]
    exact fun x member => vector_mem_implied ((members x).mpr (.inr member))

theorem implied_scale_le {before after : List Equation} {e scaled : Equation} {factor : Rat}
    (multiple : scaled.vector = factor • e.vector) :
    implied ⟨before ++ scaled :: after⟩ ≤ implied ⟨before ++ e :: after⟩ := by
  rw [implied_le_iff]
  intro x member
  rcases List.mem_append.mp member with first | second
  · exact vector_mem_implied (List.mem_append_left _ first)
  · rcases List.mem_cons.mp second with rfl | last
    · rw [multiple]
      exact Submodule.smul_mem _ _ (vector_mem_implied (by simp))
    · exact vector_mem_implied (List.mem_append_right _ (List.mem_cons_of_mem _ last))

theorem Rework.implied_eq (step : Rework s t) : t.implied = s.implied := by
  cases step with
  | reorder perm => simp only [implied, perm.mem_iff]
  | scale nonzero multiple =>
    have forth := multiple.vector_eq
    exact le_antisymm (implied_scale_le forth)
      (implied_scale_le ((inv_smul_eq_iff₀ nonzero).mpr forth).symm)
  | insert combination inserted => exact implied_eq_of_mem combination (mem_of_insert inserted)
  | remove combination removed => exact (implied_eq_of_mem combination (mem_of_remove removed)).symm

theorem implied_eq_of_reworked (steps : Relation.ReflTransGen Rework s t) :
    t.implied = s.implied := by
  induction steps with
  | refl => rfl
  | tail steps step ih => rw [step.implied_eq, ih]

section Implied

theorem occurs_iff_implied (s : LinearSystem) (name : String) :
    s.Occurs name ↔
      ¬ s.implied ≤ (Finsupp.lapply name ∘ₗ LinearMap.fst Rat (String →₀ Rat) Rat).ker := by
  rw [implied_le_iff]
  simp [Occurs]

theorem satisfied_iff_implied (s : LinearSystem) (values : String → Rat) :
    (∀ e ∈ s.equations, e.value values = 0) ↔ s.implied ≤ (evaluation values).ker := by
  rw [implied_le_iff]
  simp only [LinearMap.mem_ker, evaluation_vector]

variable (same : t.implied = s.implied)

include same

theorem occurs_iff_of_implied (name : String) : t.Occurs name ↔ s.Occurs name := by
  rw [occurs_iff_implied, occurs_iff_implied, same]

theorem unknowns_eq_of_implied : t.unknowns = s.unknowns := by
  apply t.ascending_unknowns.eq_of_mem_iff s.ascending_unknowns
  intro name
  rw [mem_unknowns_iff, mem_unknowns_iff, occurs_iff_of_implied same]

/-- Both systems ask for values of the same names. -/
def Assignment.carry (a : s.Assignment) : t.Assignment :=
  fun name => a ⟨name, (occurs_iff_of_implied same name).mp name.2⟩

theorem Assignment.extend_carry (a : s.Assignment) : (a.carry same).extend = a.extend := by
  funext name
  simp only [extend, carry, occurs_iff_of_implied same name]

theorem satisfied_carry_iff (a : s.Assignment) : t.Satisfied (a.carry same) ↔ s.Satisfied a := by
  unfold Satisfied
  rw [a.extend_carry same, satisfied_iff_implied, satisfied_iff_implied, same]

theorem Answers.carry {answer : Solution Valuation} (answers : s.Answers answer) :
    t.Answers answer := by
  have back (b : t.Assignment) : t.Satisfied b ↔ s.Satisfied (b.carry same.symm) :=
    (satisfied_carry_iff same.symm b).symm
  cases answer with
  | none => exact fun b satisfied => answers _ ((back b).mp satisfied)
  | infinite =>
    obtain ⟨a, b, different, satA, satB⟩ := answers
    refine ⟨a.carry same, b.carry same, fun equal => different ?_,
      (satisfied_carry_iff same a).mpr satA, (satisfied_carry_iff same b).mpr satB⟩
    exact congrArg (Assignment.carry same.symm) equal
  | unique named =>
    obtain ⟨names, a, only, values⟩ := answers
    refine ⟨names.trans (unknowns_eq_of_implied same).symm, a.carry same, fun b => ?_,
      fun name => values ⟨name, (occurs_iff_of_implied same name).mp name.2⟩⟩
    rw [back, only]
    constructor
    · rintro rfl
      rfl
    · rintro rfl
      rfl

end Implied

/-- The answer depends on what the equations imply and on nothing else: reworking a system leaves its
names and its answer as they are, however pivots are chosen before and after. -/
theorem solve_of_reworked (steps : Relation.ReflTransGen Rework s t) (p q : Pivoting) :
    t.unknowns = s.unknowns ∧ ∃ before after, s.solve p = .ok before ∧ t.solve q = .ok after ∧
      after.solution = before.solution := by
  have same := implied_eq_of_reworked steps
  obtain ⟨before, ran, answers⟩ := s.solve_answers p
  obtain ⟨after, ran', equal⟩ := solve_of_answers (answers.carry same) q
  exact ⟨unknowns_eq_of_implied same, before, after, ran, ran', equal⟩

/-- Three times the equation is added, moved to the front, left alone and shortened. Before and after,
`x` is one. -/
theorem solve_of_reworked_doubled :
    Relation.ReflTransGen Rework ⟨[(Equation.empty.set "x" 1).setConstant (-1)]⟩
        ⟨[(Equation.empty.set "x" 2).setConstant (-2)]⟩ ∧
      unknowns ⟨[(Equation.empty.set "x" 2).setConstant (-2)]⟩ =
        unknowns ⟨[(Equation.empty.set "x" 1).setConstant (-1)]⟩ ∧
      ∃ before after,
        solve ⟨[(Equation.empty.set "x" 1).setConstant (-1)]⟩ .largest = .ok before ∧
        solve ⟨[(Equation.empty.set "x" 2).setConstant (-2)]⟩ .firstNonZero = .ok after ∧
        after.solution = before.solution ∧ before.solution = .unique (.ofList [("x", 1)]) := by
  let times (c : Rat) : Equation := (Equation.empty.set "x" c).setConstant (-c)
  have coefficient (c : Rat) (name : String) :
      (times c).coefficient name = if name = "x" then c else 0 :=
    coefficient_set _ _ _ _
  have constant (c : Rat) : (times c).constant = -c := rfl
  have triple : IsCombination [times 1] (times 3) :=
    ⟨fun _ => 3, by norm_num [constant], fun name => by simp [coefficient]⟩
  have third : IsCombination [times 3] (times 1) :=
    ⟨fun _ => 1 / 3, by norm_num [constant], fun name => by simp [coefficient]⟩
  have shorter : IsMultiple (2 / 3) (times 3) (times 2) :=
    ⟨by norm_num [constant], fun name => by norm_num [coefficient]⟩
  have steps : Relation.ReflTransGen Rework ⟨[times 1]⟩ ⟨[times 2]⟩ :=
    (((Relation.ReflTransGen.single (.insert (i := 1) triple rfl)).tail
      (.reorder (.swap (times 3) (times 1) []))).tail (.remove (i := 1) third rfl)).tail
      (@Rework.scale [] [] _ _ _ (by norm_num) shorter)
  have first : solve ⟨[(Equation.empty.set "x" 1).setConstant (-1)]⟩ .largest =
      .ok ⟨[.pivot 0 0 0], .determined 1 1 1, .unique (.ofList [("x", 1)])⟩ := by
    decide +kernel
  obtain ⟨names, before, after, ran, ran', equal⟩ := solve_of_reworked steps .largest .firstNonZero
  refine ⟨steps, names, before, after, ran, ran', equal, ?_⟩
  rw [← Except.ok.inj (first.symm.trans ran)]

end LinearSystem

end ExactLinear
