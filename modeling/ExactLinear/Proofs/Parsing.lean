import ExactLinear.Proofs.EquationValue
import ExactLinear.Proofs.Recognition

/-! Reading whole equations. A text is read exactly if the grammar derives it, and the equation read
has the meaning of every tree that derives the text. -/
namespace ExactLinear

open Grammar

variable {text : String}

section Long

theorem Grammar.Layout.infix_of_mem {tokens : List (List Char)} {cs token : List Char}
    (laid : Layout tokens cs) (member : token ∈ tokens) : token <:+: cs := by
  induction laid with
  | last => contradiction
  | @next gap first rest tokens blank later ih =>
    rcases List.mem_cons.mp member with rfl | other
    · exact ⟨gap, rest, List.append_assoc ..⟩
    · exact (ih other).trans ⟨gap ++ first, [], by simp⟩

theorem Grammar.Number.exists_token (v : Number) {n : Natural} (member : n ∈ v.naturals) :
    ∃ token ∈ v.tokens, n.digits <:+: token := by
  cases v with
  | natural whole =>
    obtain rfl := List.mem_singleton.mp member
    exact ⟨n.digits, List.mem_singleton.mpr rfl, List.infix_rfl⟩
  | decimal whole places =>
    refine ⟨_, List.mem_singleton.mpr rfl, ?_⟩
    rcases List.mem_pair.mp member with rfl | rfl
    · exact ⟨[], '.' :: places.digits, rfl⟩
    · exact ⟨whole.digits ++ ['.'], [], by simp⟩
  | fraction num den nonzero =>
    rcases List.mem_pair.mp member with rfl | rfl
    · exact ⟨n.digits, by simp [tokens], List.infix_rfl⟩
    · exact ⟨n.digits, by simp [tokens], List.infix_rfl⟩

theorem Grammar.Summand.exists_token (summand : Summand) {n : Natural}
    (member : n ∈ summand.naturals) : ∃ token ∈ summand.tokens, n.digits <:+: token := by
  cases summand with
  | name => contradiction
  | number v => exact v.exists_token member
  | multiple v star name =>
    obtain ⟨token, inside, within⟩ := v.exists_token member
    exact ⟨token, List.mem_append_left _ inside, within⟩

theorem Grammar.Side.exists_token (side : Side) {n : Natural} (member : n ∈ side.naturals) :
    ∃ token ∈ side.tokens, n.digits <:+: token := by
  rcases List.mem_append.mp member with first | other
  · obtain ⟨token, inside, within⟩ := side.first.exists_token first
    exact ⟨token, List.mem_append_right _ (List.mem_append_left _ inside), within⟩
  · obtain ⟨⟨sign, summand⟩, listed, inSummand⟩ := List.mem_flatMap.mp other
    obtain ⟨token, inside, within⟩ := summand.exists_token inSummand
    refine ⟨token, List.mem_append_right _ (List.mem_append_right _ ?_), within⟩
    exact List.mem_flatMap.mpr ⟨(sign, summand), listed, List.mem_cons_of_mem _ inside⟩

/-- Digits that cannot be counted stand in a row in the text. -/
theorem longRun_of_derives (tree : Statement) (derives : tree.Derives text)
    (some : ¬ Countable tree.naturals) : LongRun text.toList := by
  simp only [Countable, not_forall, not_le] at some
  obtain ⟨n, member, length⟩ := some
  have inTree : ∃ token ∈ tree.tokens, n.digits <:+: token := by
    rcases List.mem_append.mp member with left | right
    · obtain ⟨token, inside, within⟩ := tree.lhs.exists_token left
      exact ⟨token, List.mem_append_left _ inside, within⟩
    · obtain ⟨token, inside, within⟩ := tree.rhs.exists_token right
      exact ⟨token, List.mem_append_right _ (List.mem_cons_of_mem _ inside), within⟩
  obtain ⟨token, inside, within⟩ := inTree
  exact ⟨n.digits, within.trans (derives.infix_of_mem inside), n.isDigit, length⟩

end Long

theorem parse_of_countable (tree : Statement) (derives : tree.Derives text)
    (all : Countable tree.naturals) :
    Equation.parse text = .ok (.ofSides tree.lhs.terms tree.rhs.terms) := by
  rw [Equation.parse, sides_complete tree derives, counted_of_countable all]

theorem parse_of_not_countable (tree : Statement) (derives : tree.Derives text)
    (some : ¬ Countable tree.naturals) :
    Equation.parse text = .error (.fault .tooManyDigits) := by
  rw [Equation.parse, sides_complete tree derives, counted_of_not_countable some]
  rfl

theorem countable_of_parse {e : Equation} (parsed : Equation.parse text = .ok e) (tree : Statement)
    (derives : tree.Derives text) : Countable tree.naturals := by
  by_contra some
  rw [parse_of_not_countable tree derives some] at parsed
  contradiction

theorem exists_derives {e : Equation} (parsed : Equation.parse text = .ok e) :
    ∃ tree : Statement, tree.Derives text ∧ Countable tree.naturals ∧
      e = .ofSides tree.lhs.terms tree.rhs.terms := by
  unfold Equation.parse at parsed
  split at parsed
  · rename_i lhs rhs read
    obtain ⟨tree, rfl, rfl, laid⟩ := sides_sound read
    have all : Countable tree.naturals := by
      by_contra some
      rw [sides_complete tree laid, counted_of_not_countable some] at read
      contradiction
    exact ⟨tree, laid, all, (Except.ok.inj parsed).symm⟩
  · contradiction

/-- Exactly the texts of the grammar are read as equations, as far as their digits can be counted; a
text of the grammar with a number that has more digits is a fault. Where no run of digits is so long,
the grammar alone decides. -/
theorem parse_ok_iff_derives (text : String) :
    ((∃ e, Equation.parse text = .ok e) ↔
      ∃ tree : Statement, tree.Derives text ∧ Countable tree.naturals) ∧
    (∀ tree : Statement, tree.Derives text → ¬ Countable tree.naturals →
      Equation.parse text = .error (.fault .tooManyDigits)) ∧
    (¬ LongRun text.toList →
      ((∃ e, Equation.parse text = .ok e) ↔ ∃ tree : Statement, tree.Derives text)) := by
  have exact_iff : (∃ e, Equation.parse text = .ok e) ↔
      ∃ tree : Statement, tree.Derives text ∧ Countable tree.naturals := by
    constructor
    · rintro ⟨e, parsed⟩
      obtain ⟨tree, derives, all, -⟩ := exists_derives parsed
      exact ⟨tree, derives, all⟩
    · rintro ⟨tree, derives, all⟩
      exact ⟨_, parse_of_countable tree derives all⟩
  refine ⟨exact_iff, parse_of_not_countable, fun short => ?_⟩
  rw [exact_iff]
  refine exists_congr fun tree => and_iff_left_of_imp fun derives => ?_
  by_contra some
  exact short (longRun_of_derives tree derives some)

section Meaning

theorem Grammar.Summand.coefficient_term (sign : Sign) (summand : Summand) (name : String) :
    (summand.term sign).coefficient name = sign.apply (summand.coefficient name) := by
  cases summand with
  | number v =>
    cases sign <;> simp [Summand.term, Summand.coefficient, Term.coefficient, Sign.apply]
  | name n | multiple v star n =>
    simp only [Summand.term, Summand.coefficient, Term.coefficient]
    split
    · rfl
    · cases sign <;> simp [Sign.apply]

theorem Grammar.Summand.constantPart_term (sign : Sign) (summand : Summand) :
    (summand.term sign).constantPart = sign.apply summand.constant := by
  cases summand <;> cases sign <;>
    simp [Summand.term, Summand.constant, Term.constantPart, Sign.apply]

theorem Grammar.Summand.value_term (sign : Sign) (summand : Summand) (values : String → Rat) :
    (summand.term sign).value values = sign.apply (summand.value values) := by
  cases summand <;> cases sign <;>
    simp [Summand.term, Summand.value, Term.value, Sign.apply]

/-- Whatever adds up over terms is, for the terms of a side, the total over its summands. -/
theorem ofTerms_terms (part : Equation → Rat) {share : Term → Rat} {written : Summand → Rat}
    (start : part .empty = 0) (step : ∀ e t, part (e.addTerm t) = part e + share t)
    (reads : ∀ (sign : Sign) (summand : Summand),
      share (summand.term sign) = sign.apply (written summand)) (side : Side) :
    part (.ofTerms side.terms) = side.total written := by
  rw [Equation.sum_ofTerms start step, Side.terms, Side.signedTerms, Side.total, List.map_map]
  simp only [Function.comp_def, reads]

theorem coefficient_ofTerms (side : Side) (name : String) :
    (Equation.ofTerms side.terms).coefficient name = side.coefficient name :=
  ofTerms_terms (fun e => e.coefficient name) rfl (fun e t => e.coefficient_addTerm t name)
    (fun sign summand => summand.coefficient_term sign name) side

theorem constant_ofTerms (side : Side) :
    (Equation.ofTerms side.terms).constant = side.constant :=
  ofTerms_terms (fun e => e.constant) rfl Equation.constant_addTerm Summand.constantPart_term side

theorem value_ofTerms (side : Side) (values : String → Rat) :
    (Equation.ofTerms side.terms).value values = side.value values :=
  ofTerms_terms (fun e => e.value values) (by simp [Equation.value, Equation.empty])
    (fun e t => e.value_addTerm t values)
    (fun sign summand => summand.value_term sign values) side

/-- The equation read from a text means, by any derivation of the text, left side minus right side;
a name is stored if it does not cancel out. No digits were lost in counting. -/
theorem parse_meaning {e : Equation} (parsed : Equation.parse text = .ok e) (tree : Statement)
    (derives : tree.Derives text) :
    Countable tree.naturals ∧
      (∀ name, e.coefficient name = tree.lhs.coefficient name - tree.rhs.coefficient name) ∧
      e.constant = tree.lhs.constant - tree.rhs.constant ∧
      (∀ values, e.value values = tree.lhs.value values - tree.rhs.value values) ∧
      e.names.Nodup ∧
      ∀ name, name ∈ e.names ↔ tree.lhs.coefficient name - tree.rhs.coefficient name ≠ 0 := by
  have all := countable_of_parse parsed tree derives
  obtain rfl := Except.ok.inj (parsed.symm.trans (parse_of_countable tree derives all))
  have coefficients (name : String) :
      (Equation.ofSides tree.lhs.terms tree.rhs.terms).coefficient name =
        tree.lhs.coefficient name - tree.rhs.coefficient name := by
    rw [Equation.ofSides, Equation.coefficient_subtract, coefficient_ofTerms, coefficient_ofTerms]
  refine ⟨all, coefficients, ?_, ?_, Equation.nodup_names _, ?_⟩
  · rw [Equation.ofSides, Equation.constant_subtract, constant_ofTerms, constant_ofTerms]
  · intro values
    rw [Equation.ofSides, Equation.value_subtract, value_ofTerms, value_ofTerms]
  · intro name
    rw [Equation.mem_names_iff, coefficients]

/-- The tree of `y + 2x - 1/2 = x + 0.5 + y`, where `y` cancels out. -/
def cancellingStatement : Statement :=
  let x : Name := ⟨'x', [], by decide, by simp⟩
  let y : Name := ⟨'y', [], by decide, by simp⟩
  let natural (c : Char) (digit : c.isDigit) : Natural := ⟨[c], by simp, by simpa using digit⟩
  { lhs :=
      { sign := none
        first := .name y
        others :=
          [(.plus, .multiple (.natural (natural '2' rfl)) false x),
            (.minus, .number (.fraction (natural '1' rfl) (natural '2' rfl) (by decide)))] }
    rhs :=
      { sign := none
        first := .name x
        others :=
          [(.plus, .number (.decimal (natural '0' rfl) (natural '5' rfl))), (.plus, .name y)] } }

theorem cancellingStatement_derives :
    cancellingStatement.Derives "y + 2x - 1/2 = x + 0.5 + y" :=
  layout_flatMap
    [([], ['y']), ([' '], ['+']), ([' '], ['2']), ([], ['x']), ([' '], ['-']), ([' '], ['1']),
      ([], ['/']), ([], ['2']), ([' '], ['=']), ([' '], ['x']), ([' '], ['+']),
      ([' '], ['0', '.', '5']), ([' '], ['+']), ([' '], ['y'])] (by simp [Text.isBlank])

theorem parse_meaning_cancelling :
    ∃ e, Equation.parse "y + 2x - 1/2 = x + 0.5 + y" = .ok e ∧ e.coefficient "x" = 1 ∧
      e.constant = -1 ∧ "y" ∉ e.names := by
  have derives := cancellingStatement_derives
  have parsed := parse_of_countable cancellingStatement derives (by decide)
  obtain ⟨-, coefficients, constant, -, -, stored⟩ := parse_meaning parsed cancellingStatement derives
  refine ⟨_, parsed, ?_, ?_, ?_⟩
  · rw [coefficients]
    decide +kernel
  · rw [constant]
    decide +kernel
  · rw [stored]
    decide +kernel

end Meaning

end ExactLinear
