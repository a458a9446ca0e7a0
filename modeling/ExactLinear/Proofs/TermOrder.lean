import ExactLinear.Proofs.SystemText

/-! The order in which an equation keeps its terms is nowhere to be seen. Equations that differ in
nothing else are the same, are written alike and subtract to the same result; systems of them have
the same unknowns and matrices, and so the same solution, down to every step of finding it. -/
namespace ExactLinear

namespace Equation

/-- The same constant, and the same terms in any order. -/
structure Reordered (a b : Equation) : Prop where
  constant : a.constant = b.constant
  terms : a.terms.Perm b.terms

/-- Any order of the terms can be that of an equation. -/
theorem exists_reordered (e : Equation) {order : List (String × Rat)} (perm : e.terms.Perm order) :
    ∃ f : Equation, f.terms = order ∧ Reordered e f := by
  have distinct : (order.map (·.1)).Nodup := (perm.map _).nodup_iff.mp e.distinct
  have nonzero : ∀ term ∈ order, term.2 ≠ 0 :=
    fun term member => e.nonzero term (perm.mem_iff.mpr member)
  exact ⟨⟨order, e.constant, distinct, nonzero⟩, rfl, rfl, perm⟩

theorem reordered_iff (a b : Equation) :
    Reordered a b ↔ a.constant = b.constant ∧ ∀ name, a.coefficient name = b.coefficient name := by
  rw [← perm_terms_iff]
  exact ⟨fun h => ⟨h.constant, h.terms⟩, fun h => ⟨h.1, h.2⟩⟩

theorem reordered_iff_same (a b : Equation) : Reordered a b ↔ (a == b) = true := by
  rw [reordered_iff, same_iff]

namespace Reordered

variable {a b c d : Equation}

theorem refl (a : Equation) : Reordered a a := ⟨rfl, .refl _⟩

theorem symm (reordered : Reordered a b) : Reordered b a :=
  ⟨reordered.constant.symm, reordered.terms.symm⟩

theorem coefficient_eq (reordered : Reordered a b) (name : String) :
    a.coefficient name = b.coefficient name :=
  ((reordered_iff a b).mp reordered).2 name

/-- Sorting by name forgets the order that was there. -/
theorem sortedTerms_eq (reordered : Reordered a b) : a.sortedTerms = b.sortedTerms := by
  have perm : a.sortedTerms.Perm b.sortedTerms :=
    (a.sortedTerms_perm.trans reordered.terms).trans b.sortedTerms_perm.symm
  exact (Text.ascending_sortAscending a.terms).eq_of_perm (Text.ascending_sortAscending b.terms)
    perm

theorem render_eq (reordered : Reordered a b) : a.render = b.render := by
  have isEmpty : a.isEmpty = b.isEmpty := reordered.terms.isEmpty_eq
  have fits : a.fitsField = b.fitsField := by
    rw [fitsField, fitsField, reordered.sortedTerms_eq, reordered.constant]
  have written : a.chars = b.chars := by
    rw [chars, chars, reordered.sortedTerms_eq, reordered.constant, isEmpty]
  rw [render, render, fits, written]

/-- Neither the order in which terms are taken away nor the one they are taken from matters. -/
theorem subtract (left : Reordered a b) (right : Reordered c d) :
    Reordered (a.subtract c) (b.subtract d) := by
  rw [reordered_iff]
  constructor
  · rw [constant_subtract, constant_subtract, left.constant, right.constant]
  · intro name
    rw [coefficient_subtract, coefficient_subtract, left.coefficient_eq, right.coefficient_eq]

end Reordered

end Equation

namespace LinearSystem

variable {s t : LinearSystem}

/-- The equations of both systems are the same one by one, up to the order of terms. -/
def Reordered (s t : LinearSystem) : Prop :=
  List.Forall₂ Equation.Reordered s.equations t.equations

theorem reordered_iff_same (s t : LinearSystem) : Reordered s t ↔ (s == t) = true := by
  rw [same_iff_forall₂]
  exact ⟨fun h => h.imp fun e f => (Equation.reordered_iff_same e f).mp,
    fun h => h.imp fun e f => (Equation.reordered_iff_same e f).mpr⟩

namespace Reordered

theorem size_eq (reordered : Reordered s t) : s.size = t.size := reordered.length_eq

theorem getD_equations (reordered : Reordered s t) (i : Nat) :
    Equation.Reordered (s.equations[i]?.getD .empty) (t.equations[i]?.getD .empty) := by
  obtain ⟨lengths, equations⟩ := List.forall₂_iff_get.mp reordered
  by_cases inside : i < s.equations.length
  · have inside' : i < t.equations.length := lengths ▸ inside
    simpa [inside, inside'] using equations i inside inside'
  · have outside : ¬ i < t.equations.length := lengths ▸ inside
    simpa [inside, outside] using Equation.Reordered.refl .empty

theorem unknowns_eq (reordered : Reordered s t) : s.unknowns = t.unknowns := by
  have back : Reordered t s := reordered.flip.imp fun _ _ h => h.symm
  apply s.ascending_unknowns.eq_of_mem_iff t.ascending_unknowns
  intro name
  rw [mem_unknowns_iff, mem_unknowns_iff]
  exact ⟨occurs_of_same ((reordered_iff_same t s).mp back),
    occurs_of_same ((reordered_iff_same s t).mp reordered)⟩

theorem coefficients_eq (reordered : Reordered s t) (names : List String) :
    s.coefficients names = t.coefficients names := by
  simp only [coefficients, reordered.size_eq, (reordered.getD_equations _).coefficient_eq]

theorem rightHandSide_eq (reordered : Reordered s t) : s.rightHandSide = t.rightHandSide := by
  simp only [rightHandSide, reordered.size_eq, (reordered.getD_equations _).constant]

theorem solve_eq (reordered : Reordered s t) (pivoting : Pivoting) :
    s.solve pivoting = t.solve pivoting := by
  simp only [solve, reordered.unknowns_eq, reordered.coefficients_eq, reordered.rightHandSide_eq]

theorem render_eq (reordered : Reordered s t) : s.render = t.render := by
  have lines {es fs : List Equation} (each : List.Forall₂ Equation.Reordered es fs) :
      (es.mapM fun e => return (← e.render) ++ "\n") =
        fs.mapM fun f => return (← f.render) ++ "\n" := by
    induction each with
    | nil => rfl
    | cons head _ ih => simp only [List.mapM_cons, head.render_eq, ih]
  simp only [render, lines reordered]

end Reordered

end LinearSystem

/-- Whatever the order in which equations keep their terms, it makes no difference to their text, to
what is left when one is subtracted from another, and so to an equation that is read; nor to the
unknowns of a system, its matrices and the way it is solved. -/
theorem termOrder_unobservable :
    (∀ (e : Equation) (order : List (String × Rat)), e.terms.Perm order →
      ∃ f : Equation, f.terms = order ∧ e.Reordered f) ∧
    (∀ a b : Equation, a.Reordered b ↔ (a == b) = true) ∧
    (∀ a b : Equation, a.Reordered b → a.render = b.render) ∧
    (∀ a b c d : Equation, a.Reordered b → c.Reordered d →
      (a.subtract c).Reordered (b.subtract d)) ∧
    (∀ text lhs rhs, Reader.sides text.toList = .ok (lhs, rhs) →
      ∀ l r, (Equation.ofTerms lhs).Reordered l → (Equation.ofTerms rhs).Reordered r →
        ∃ e, Equation.parse text = .ok e ∧ e.Reordered (l.subtract r)) ∧
    ∀ s t : LinearSystem, (s == t) = true →
      s.render = t.render ∧ s.unknowns = t.unknowns ∧
      (∀ names, s.coefficients names = t.coefficients names) ∧
      s.rightHandSide = t.rightHandSide ∧ ∀ pivoting, s.solve pivoting = t.solve pivoting := by
  refine ⟨fun e _ => e.exists_reordered, Equation.reordered_iff_same,
    fun _ _ => Equation.Reordered.render_eq, fun _ _ _ _ => .subtract, ?_, fun s t same => ?_⟩
  · intro text lhs rhs read l r left right
    have parsed : Equation.parse text = .ok (.ofSides lhs rhs) := by rw [Equation.parse, read]
    exact ⟨_, parsed, left.subtract right⟩
  · have reordered := (LinearSystem.reordered_iff_same s t).mpr same
    exact ⟨reordered.render_eq, reordered.unknowns_eq, reordered.coefficients_eq,
      reordered.rightHandSide_eq, reordered.solve_eq⟩

/-- Terms that were set in another order are kept in another order. -/
example :
    ((Equation.empty.set "x" 1).set "y" 2).terms ≠ ((Equation.empty.set "y" 2).set "x" 1).terms ∧
      ((Equation.empty.set "x" 1).set "y" 2).render =
        ((Equation.empty.set "y" 2).set "x" 1).render := by
  decide +kernel

end ExactLinear
