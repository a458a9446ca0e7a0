import ExactLinear.Equation
import Mathlib.Algebra.BigOperators.Group.Finset.Piecewise
import Mathlib.Algebra.Order.Ring.Rat
import Mathlib.Tactic.Ring

/-! The meaning of an equation. An equation is a linear function of values for the names; stored
terms are one way to write it, and its coefficients determine it. -/
namespace ExactLinear

theorem lookup_eq_some_iff_mem {β : Type} {pairs : List (String × β)}
    (distinct : (pairs.map (·.1)).Nodup) (name : String) (b : β) :
    pairs.lookup name = some b ↔ (name, b) ∈ pairs := by
  induction pairs with
  | nil => simp
  | cons pair pairs ih =>
    obtain ⟨key, value⟩ := pair
    rw [List.map_cons, List.nodup_cons] at distinct
    rw [List.lookup_cons, List.mem_cons]
    by_cases same : name = key
    · subst name
      have absent : (key, b) ∉ pairs := fun member =>
        distinct.1 (List.mem_map.mpr ⟨_, member, rfl⟩)
      simp [absent, eq_comm]
    · have different : (name == key) = false := by simpa using same
      simp [different, same, ih distinct.2]

namespace Equation

/-- The left-hand side of the equation under values for the names. -/
def value (e : Equation) (values : String → Rat) : Rat :=
  (e.terms.map fun (name, coefficient) => coefficient * values name).sum + e.constant

theorem nodup_names (e : Equation) : e.names.Nodup := e.distinct

theorem coefficient_of_mem (e : Equation) {name : String} {c : Rat} (member : (name, c) ∈ e.terms) :
    e.coefficient name = c := by
  rw [coefficient, (lookup_eq_some_iff_mem e.distinct name c).mpr member, Option.getD_some]

theorem mem_names_iff (e : Equation) (name : String) :
    name ∈ e.names ↔ e.coefficient name ≠ 0 := by
  constructor
  · intro member
    obtain ⟨⟨stored, c⟩, inTerms, rfl⟩ := List.mem_map.mp member
    rw [e.coefficient_of_mem inTerms]
    exact e.nonzero _ inTerms
  · intro nonzero
    cases found : e.terms.lookup name with
    | none => simp [coefficient, found] at nonzero
    | some c =>
      exact List.mem_map.mpr ⟨_, (lookup_eq_some_iff_mem e.distinct name c).mp found, rfl⟩

theorem mem_terms_iff (e : Equation) (name : String) (c : Rat) :
    (name, c) ∈ e.terms ↔ e.coefficient name = c ∧ c ≠ 0 := by
  constructor
  · intro member
    exact ⟨e.coefficient_of_mem member, e.nonzero _ member⟩
  · rintro ⟨rfl, nonzero⟩
    obtain ⟨⟨stored, c⟩, member, rfl⟩ := List.mem_map.mp ((e.mem_names_iff name).mpr nonzero)
    rwa [e.coefficient_of_mem member]

theorem nodup_terms (e : Equation) : e.terms.Nodup := List.Nodup.of_map _ e.distinct

/-- Equal coefficients are equal terms, up to their order. -/
theorem perm_terms_iff (a b : Equation) :
    a.terms.Perm b.terms ↔ ∀ name, a.coefficient name = b.coefficient name := by
  rw [List.perm_ext_iff_of_nodup a.nodup_terms b.nodup_terms]
  constructor
  · intro same name
    have transfer {e f : Equation} (subset : ∀ term, term ∈ e.terms → term ∈ f.terms)
        (nonzero : e.coefficient name ≠ 0) : f.coefficient name = e.coefficient name :=
      f.coefficient_of_mem (subset _ ((e.mem_terms_iff name _).mpr ⟨rfl, nonzero⟩))
    by_cases left : a.coefficient name = 0
    · by_cases right : b.coefficient name = 0
      · rw [left, right]
      · exact transfer (fun term => (same term).mpr) right
    · exact (transfer (fun term => (same term).mp) left).symm
  · rintro same ⟨name, c⟩
    rw [mem_terms_iff, mem_terms_iff, same]

/-- Equations count as the same if they agree on every name and on the constant. -/
theorem same_iff (a b : Equation) :
    (a == b) = true ↔ a.constant = b.constant ∧ ∀ name, a.coefficient name = b.coefficient name := by
  have unfolded : (a == b) = true ↔ a.constant = b.constant ∧ a.terms.length = b.terms.length ∧
      a.terms ⊆ b.terms := by
    change a.same b = true ↔ _
    simp only [same, size, Bool.and_eq_true, beq_iff_eq, List.all_eq_true, and_assoc]
    refine and_congr_right' (and_congr_right' (forall₂_congr fun term _ => ?_))
    exact lookup_eq_some_iff_mem b.distinct term.1 term.2
  rw [unfolded, ← perm_terms_iff]
  refine and_congr_right' ⟨?_, fun perm => ⟨perm.length_eq, perm.subset⟩⟩
  rintro ⟨length, subset⟩
  exact (List.subperm_of_subset a.nodup_terms subset).perm_of_length_le length.ge

/-- The value through the coefficients of any names that cover those stored. -/
theorem value_eq_sum (e : Equation) (values : String → Rat) (covering : Finset String)
    (covers : ∀ name, e.coefficient name ≠ 0 → name ∈ covering) :
    e.value values = ∑ name ∈ covering, e.coefficient name * values name + e.constant := by
  have stored : e.terms.map (fun (name, c) => c * values name) =
      e.names.map fun name => e.coefficient name * values name := by
    rw [names, List.map_map]
    apply List.map_congr_left
    rintro ⟨name, c⟩ member
    simp [e.coefficient_of_mem member]
  have subset : e.names.toFinset ⊆ covering := by
    intro name member
    exact covers name ((e.mem_names_iff name).mp (List.mem_toFinset.mp member))
  rw [value, stored, ← List.sum_toFinset _ e.nodup_names, Finset.sum_subset subset]
  intro name _ absent
  rw [List.mem_toFinset, mem_names_iff, not_not] at absent
  rw [absent, zero_mul]

/-- Equations with the same coefficients and constant have the same value; so do sums and
differences of them. -/
theorem value_sub {e f g : Equation}
    (coefficients : ∀ name, e.coefficient name = f.coefficient name - g.coefficient name)
    (constants : e.constant = f.constant - g.constant) (values : String → Rat) :
    e.value values = f.value values - g.value values := by
  have covers (name : String) (nonzero : e.coefficient name ≠ 0 ∨ f.coefficient name ≠ 0 ∨
      g.coefficient name ≠ 0) : name ∈ (f.names ++ g.names).toFinset := by
    rw [List.mem_toFinset, List.mem_append, mem_names_iff, mem_names_iff]
    by_contra neither
    push Not at neither
    rw [coefficients, neither.1, neither.2] at nonzero
    simp at nonzero
  rw [e.value_eq_sum values _ fun name h => covers name (.inl h),
    f.value_eq_sum values _ fun name h => covers name (.inr (.inl h)),
    g.value_eq_sum values _ fun name h => covers name (.inr (.inr h)), constants]
  simp only [coefficients, sub_mul, Finset.sum_sub_distrib]
  ring

/-- Taking terms away one by one, also where a name comes more than once. -/
theorem coefficient_foldl_subtract (terms : List (String × Rat)) (e : Equation) (name : String) :
    (terms.foldl (fun sum (stored, c) => sum.add stored (-c)) e).coefficient name =
      e.coefficient name - (terms.map fun term => if name = term.1 then term.2 else 0).sum := by
  induction terms generalizing e with
  | nil => simp
  | cons term terms ih =>
    rw [List.foldl_cons, ih, coefficient_add, List.map_cons, List.sum_cons]
    split
    · rename_i same
      rw [same]
      ring
    · ring

theorem constant_foldl_subtract (terms : List (String × Rat)) (e : Equation) :
    (terms.foldl (fun sum (stored, c) => sum.add stored (-c)) e).constant = e.constant := by
  induction terms generalizing e with
  | nil => rfl
  | cons term terms ih => rw [List.foldl_cons, ih, constant_add]

theorem sum_terms_eq_coefficient (e : Equation) (name : String) :
    (e.terms.map fun term => if name = term.1 then term.2 else 0).sum = e.coefficient name := by
  have whole := e.value_eq_sum (fun other => if name = other then 1 else 0)
    (insert name e.names.toFinset) (by
      intro other nonzero
      rw [Finset.mem_insert, List.mem_toFinset]
      exact .inr ((e.mem_names_iff other).mpr nonzero))
  simpa [value] using whole

theorem coefficient_subtract (e other : Equation) (name : String) :
    (e.subtract other).coefficient name = e.coefficient name - other.coefficient name := by
  rw [← sum_terms_eq_coefficient other, ← coefficient_foldl_subtract]
  rfl

theorem constant_subtract (e other : Equation) :
    (e.subtract other).constant = e.constant - other.constant := by
  simp only [subtract, setConstant, constant_foldl_subtract]

theorem value_subtract (e other : Equation) (values : String → Rat) :
    (e.subtract other).value values = e.value values - other.value values :=
  value_sub (coefficient_subtract e other) (constant_subtract e other) values

end Equation

namespace Term

def coefficient (name : String) : Term → Rat
  | .constant _ => 0
  | .multiple c stored => if name = stored then c else 0

def constantPart : Term → Rat
  | .constant c => c
  | .multiple _ _ => 0

def value (values : String → Rat) : Term → Rat
  | .constant c => c
  | .multiple c stored => c * values stored

end Term

namespace Equation

theorem coefficient_addTerm (e : Equation) (t : Term) (name : String) :
    (e.addTerm t).coefficient name = e.coefficient name + t.coefficient name := by
  cases t with
  | constant c => simp [addTerm, setConstant, Term.coefficient, coefficient]
  | multiple c stored =>
    rw [addTerm, coefficient_add, Term.coefficient]
    split
    · rename_i same
      rw [same]
    · rw [add_zero]

theorem constant_addTerm (e : Equation) (t : Term) :
    (e.addTerm t).constant = e.constant + t.constantPart := by
  cases t with
  | constant c => rfl
  | multiple c stored => simp [addTerm, Term.constantPart]

theorem value_addTerm (e : Equation) (t : Term) (values : String → Rat) :
    (e.addTerm t).value values = e.value values + t.value values := by
  cases t with
  | constant c => simp [addTerm, setConstant, value, Term.value, add_assoc]
  | multiple c stored =>
    -- The sum runs over one more name, in case the term brings in a new one.
    have covers (name : String) (nonzero : e.coefficient name ≠ 0 ∨
        (e.addTerm (.multiple c stored)).coefficient name ≠ 0) :
        name ∈ insert stored e.names.toFinset := by
      rw [coefficient_addTerm, Term.coefficient] at nonzero
      rw [Finset.mem_insert, List.mem_toFinset, mem_names_iff]
      by_cases same : name = stored
      · exact .inl same
      · right
        simpa [same] using nonzero
    rw [value_eq_sum _ values _ fun name h => covers name (.inr h),
      e.value_eq_sum values _ fun name h => covers name (.inl h), constant_addTerm]
    simp only [coefficient_addTerm, Term.coefficient, Term.constantPart, Term.value, add_mul,
      ite_mul, zero_mul, Finset.sum_add_distrib]
    rw [Finset.sum_ite_eq', if_pos (Finset.mem_insert_self _ _)]
    ring

/-- Collecting terms adds up whatever each of them adds. -/
theorem sum_ofTerms {part : Equation → Rat} {share : Term → Rat} (start : part empty = 0)
    (step : ∀ e t, part (e.addTerm t) = part e + share t) (terms : List Term) :
    part (ofTerms terms) = (terms.map share).sum := by
  have collected (e : Equation) : part (terms.foldl addTerm e) =
      part e + (terms.map share).sum := by
    induction terms generalizing e with
    | nil => simp
    | cons t terms ih =>
      rw [List.foldl_cons, ih, step, List.map_cons, List.sum_cons, add_assoc]
  rw [ofTerms, collected, start, zero_add]

theorem coefficient_ofTerms_eq_sum (terms : List Term) (name : String) :
    (ofTerms terms).coefficient name = (terms.map (Term.coefficient name)).sum :=
  @sum_ofTerms (fun e => e.coefficient name) _ rfl (fun e t => e.coefficient_addTerm t name) terms

theorem constant_ofTerms_eq_sum (terms : List Term) :
    (ofTerms terms).constant = (terms.map Term.constantPart).sum :=
  @sum_ofTerms (fun e => e.constant) _ rfl constant_addTerm terms

end Equation

end ExactLinear
