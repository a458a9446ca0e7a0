import ExactLinear.Proofs.Parsing
import Mathlib.Data.Set.Card

/-! How an equation comes about, and what is left of it. Operations come in any order and cancel each
other out; what remains visible is the numbers they add up to, and only those that are not zero are
stored. -/
namespace ExactLinear

open Grammar

/-- The ways to come by an equation. Texts come with a tree whose digits can be counted, as exactly
those with one can be read. -/
inductive History where
  | new
  | parse (text : String) (tree : Statement) (derives : tree.Derives text)
      (all : Countable tree.naturals)
  | set (before : History) (name : String) (value : Rat)
  | add (before : History) (name : String) (delta : Rat)
  | setConstant (before : History) (value : Rat)
  | subtract (before other : History)

namespace History

def run : History → Except ParseError Equation
  | .new => .ok .empty
  | .parse text .. => Equation.parse text
  | .set before name value => return (← before.run).set name value
  | .add before name delta => return (← before.run).add name delta
  | .setConstant before value => return (← before.run).setConstant value
  | .subtract before other => return (← before.run).subtract (← other.run)

/-- The value that the coefficient of `name` was last set to, zero if it never was. -/
def lastSet (name : String) : History → Rat
  | .new | .parse .. => 0
  | .set before changed value => if name = changed then value else before.lastSet name
  | .add before .. | .setConstant before _ | .subtract before _ => before.lastSet name

/-- What was added to the coefficient of `name` since it was last set. What a text says counts as
added to nothing. -/
def changes (name : String) : History → List Rat
  | .new => []
  | .parse _ tree .. => [tree.lhs.coefficient name, -tree.rhs.coefficient name]
  | .set before changed _ => if name = changed then [] else before.changes name
  | .add before changed delta =>
    if name = changed then before.changes name ++ [delta] else before.changes name
  | .setConstant before _ => before.changes name
  | .subtract before other =>
    before.changes name ++ [-(other.lastSet name + (other.changes name).sum)]

def coefficient (h : History) (name : String) : Rat := h.lastSet name + (h.changes name).sum

def constant : History → Rat
  | .new => 0
  | .parse _ tree .. => tree.lhs.constant - tree.rhs.constant
  | .set before .. | .add before .. => before.constant
  | .setConstant _ value => value
  | .subtract before other => before.constant - other.constant

theorem coefficient_parse (text : String) (tree : Statement) (derives : tree.Derives text)
    (all : Countable tree.naturals) (name : String) :
    (parse text tree derives all).coefficient name =
      tree.lhs.coefficient name - tree.rhs.coefficient name := by
  simp [coefficient, lastSet, changes, sub_eq_add_neg]

theorem coefficient_set (before : History) (changed name : String) (value : Rat) :
    (set before changed value).coefficient name =
      if name = changed then value else before.coefficient name := by
  by_cases same : name = changed <;> simp [coefficient, lastSet, changes, same]

theorem coefficient_add (before : History) (changed name : String) (delta : Rat) :
    (add before changed delta).coefficient name =
      if name = changed then before.coefficient changed + delta else before.coefficient name := by
  by_cases same : name = changed
  · simp [coefficient, lastSet, changes, same, add_assoc]
  · simp [coefficient, lastSet, changes, same]

theorem coefficient_subtract (before other : History) (name : String) :
    (subtract before other).coefficient name =
      before.coefficient name - other.coefficient name := by
  simp only [coefficient, lastSet, changes, List.sum_append, List.sum_singleton]
  ring

/-- Whatever the history, there is an equation in the end, with the numbers that are implied. -/
theorem exists_run (h : History) :
    ∃ e, h.run = .ok e ∧ (∀ name, e.coefficient name = h.coefficient name) ∧
      e.constant = h.constant := by
  induction h with
  | new => exact ⟨.empty, rfl, fun name => by simp [Equation.coefficient, Equation.empty,
      coefficient, lastSet, changes], rfl⟩
  | parse text tree derives all =>
    refine ⟨_, parse_of_countable tree derives all, fun name => ?_, ?_⟩
    · rw [coefficient_parse, Equation.ofSides, Equation.coefficient_subtract, coefficient_ofTerms,
        coefficient_ofTerms]
    · rw [constant, Equation.ofSides, Equation.constant_subtract, constant_ofTerms,
        constant_ofTerms]
  | set before changed value ih =>
    obtain ⟨e, ran, coefficients, const⟩ := ih
    refine ⟨e.set changed value, by rw [run, ran]; rfl, fun name => ?_, ?_⟩
    · rw [Equation.coefficient_set, coefficient_set, coefficients]
    · rw [Equation.constant_set, const, constant]
  | add before changed delta ih =>
    obtain ⟨e, ran, coefficients, const⟩ := ih
    refine ⟨e.add changed delta, by rw [run, ran]; rfl, fun name => ?_, ?_⟩
    · rw [Equation.coefficient_add, coefficient_add, coefficients, coefficients]
    · rw [Equation.constant_add, const, constant]
  | setConstant before value ih =>
    obtain ⟨e, ran, coefficients, -⟩ := ih
    exact ⟨e.setConstant value, by rw [run, ran]; rfl, coefficients, rfl⟩
  | subtract before other ih ihOther =>
    obtain ⟨e, ran, coefficients, const⟩ := ih
    obtain ⟨f, ranOther, coefficientsOther, constOther⟩ := ihOther
    refine ⟨e.subtract f, by rw [run, ran, ranOther]; rfl, fun name => ?_, ?_⟩
    · rw [Equation.coefficient_subtract, coefficient_subtract, coefficients, coefficientsOther]
    · rw [Equation.constant_subtract, constant, const, constOther]

end History

/-- The size counts the names that the equation depends on. -/
theorem Equation.encard_coefficient_ne_zero (e : Equation) :
    {name | e.coefficient name ≠ 0}.encard = e.size := by
  have stored : {name | e.coefficient name ≠ 0} = (e.names.toFinset : Set String) := by
    ext name
    simp [e.mem_names_iff]
  rw [stored, Set.encard_coe_eq_coe_finsetCard, List.toFinset_card_of_nodup e.nodup_names]
  simp [names, size]

/-- Every history leads to an equation that stores exactly the coefficients implied by it that are not
zero, each under its name once. So its size counts those names, and equations with different
histories are the same exactly if they agree on the constant and on every name. -/
theorem History.run_stores_implied (h : History) :
    ∃ e, h.run = .ok e ∧ e.names.Nodup ∧
      (∀ name c, (name, c) ∈ e.terms ↔ c = h.lastSet name + (h.changes name).sum ∧ c ≠ 0) ∧
      (∀ name, e.coefficient name = h.lastSet name + (h.changes name).sum) ∧
      e.constant = h.constant ∧ {name | e.coefficient name ≠ 0}.encard = e.size ∧
      ∀ (other : History) (f : Equation), other.run = .ok f → ((e == f) = true ↔
        e.constant = f.constant ∧ ∀ name, e.coefficient name = f.coefficient name) := by
  obtain ⟨e, ran, coefficients, const⟩ := h.exists_run
  refine ⟨e, ran, e.nodup_names, fun name c => ?_, coefficients, const,
    e.encard_coefficient_ne_zero, fun _ f _ => e.same_iff f⟩
  rw [e.mem_terms_iff, coefficients, coefficient, eq_comm]

/-- A name that cancels out is not stored, and comes back with the next change. -/
example : ((History.new.add "x" 2).subtract ((History.new.set "x" 3).add "x" (-1))).run.map
      Equation.terms = .ok [] ∧
    (((History.new.add "x" 2).add "x" (-2)).add "x" 5).run.map Equation.terms =
      .ok [("x", 5)] := by
  cbv

end ExactLinear
