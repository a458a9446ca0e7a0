import ExactLinear.Equation
import ExactLinear.Proofs.AscendingOrder
import ExactLinear.Proofs.NumberText
import ExactLinear.Proofs.Parsing
import ExactLinear.Proofs.PivotChoice

/-! Equations as text and back. The text of an equation whose names are names of the grammar is
derived by a tree with one summand for each stored term and one for the constant, so it is read as
an equation with the same coefficients. -/
namespace ExactLinear

open Grammar

namespace Grammar

def IsName (text : String) : Prop := ∃ n : Name, n.text = text

/-- The text puts the tokens in front of whatever follows it. -/
def Spells (text : List Char) (tokens : List (List Char)) : Prop :=
  ∀ rest, Covers (text ++ rest) tokens rest

namespace Spells

variable {text more : List Char} {tokens others : List (List Char)}

theorem append (first : Spells text tokens) (second : Spells more others) :
    Spells (text ++ more) (tokens ++ others) := by
  intro rest
  rw [List.append_assoc]
  exact (first _).trans (second rest)

theorem blanks (blank : ∀ c ∈ text, Text.isBlank c) : Spells text [] :=
  fun _ _ laid => laid.blanks_append blank

theorem blank : Spells [' '] [] := blanks (List.forall_mem_singleton.mpr rfl)

theorem token (text : List Char) : Spells text [text] := fun rest => Covers.token text rest

theorem flatten (tokens : List (List Char)) : Spells tokens.flatten tokens := by
  induction tokens with
  | nil => exact blanks (by simp)
  | cons first tokens ih => exact (token first).append ih

theorem layout (spells : Spells text tokens) : Layout tokens text := by
  have laid := spells [] [] (.last (by simp))
  rwa [List.append_nil, List.append_nil] at laid

end Spells

def Sign.of (r : Rat) : Sign := if r < 0 then .minus else .plus

/-- A sign at the beginning of a side is left out if it is a plus. -/
def Sign.leading (r : Rat) : Option Sign := if r < 0 then some .minus else none

theorem Sign.leading_getD (r : Rat) : (Sign.leading r).getD .plus = Sign.of r := by
  unfold Sign.leading Sign.of
  split <;> rfl

theorem Sign.of_apply_magnitude (r : Rat) : (Sign.of r).apply (Rational.magnitude r) = r := by
  unfold Sign.of Rational.magnitude
  split
  · exact neg_neg r
  · rfl

/-- A name that has a coefficient in the equation read is one of the text. -/
theorem isName_of_coefficient_ne_zero {side : Side} {name : String}
    (nonzero : side.coefficient name ≠ 0) : IsName name := by
  by_contra unnamed
  apply nonzero
  apply List.sum_eq_zero
  intro share member
  obtain ⟨⟨sign, summand⟩, -, rfl⟩ := List.mem_map.mp member
  have absent (n : Name) : name ≠ n.text := fun equal => unnamed ⟨n, equal.symm⟩
  have zero : summand.coefficient name = 0 := by
    cases summand <;> simp [Summand.coefficient, absent]
  simp only [zero]
  cases sign <;> simp [Sign.apply]

end Grammar

theorem isName_of_parse {text : String} {e : Equation} (parsed : Equation.parse text = .ok e)
    {name : String} (member : name ∈ e.names) : IsName name := by
  obtain ⟨tree, -, -, rfl⟩ := exists_derives parsed
  rw [Equation.mem_names_iff, Equation.ofSides, Equation.coefficient_subtract, coefficient_ofTerms,
    coefficient_ofTerms] at member
  by_contra unnamed
  have zero (side : Side) : side.coefficient name = 0 := by
    by_contra nonzero
    exact unnamed (isName_of_coefficient_ne_zero nonzero)
  simp [zero] at member

namespace Equation

section Spelling

theorem spells_signChars (value : Rat) :
    Spells (signChars value false) [(Sign.of value).token] := by
  have spaced (sign : Sign) : Spells (sign.token ++ [' ']) [sign.token] := by
    have spells := (Spells.token sign.token).append Spells.blank
    rwa [List.append_nil] at spells
  unfold signChars Sign.of
  split
  · exact spaced .minus
  · exact spaced .plus

theorem spells_signChars_leading (value : Rat) :
    Spells (signChars value true) ((Sign.leading value).map Sign.token).toList := by
  unfold signChars Sign.leading
  split
  · have spells := (Spells.token ['-']).append Spells.blank
    rwa [List.append_nil] at spells
  · exact Spells.blanks (by simp)

/-- A number is written as a summand with its value. -/
theorem exists_number_magnitude (value : Rat) :
    ∃ v : Number, (Sign.of value).apply v.value = value ∧
      (Countable v.naturals ↔ ¬ LongRun (Rational.decimalChars value)) ∧
      Spells (Rational.decimalChars (Rational.magnitude value)) v.tokens := by
  have notNegative : 0 ≤ Rational.magnitude value := by
    rw [Rational.magnitude_eq_abs]
    exact abs_nonneg value
  obtain ⟨v, equal, text⟩ := Rational.exists_number_decimalChars notNegative
  refine ⟨v, by rw [equal, Sign.of_apply_magnitude], ?_, ?_⟩
  · rw [← Rational.longRun_decimalChars_magnitude, ← text, v.longRun_iff, not_not]
  · rw [← text]
    exact Spells.flatten v.tokens

theorem exists_summand (n : Name) (value : Rat) :
    ∃ summand : Summand, summand.term (Sign.of value) = .multiple value n.text ∧
      (Countable summand.naturals ↔ ¬ LongRun (Rational.decimalChars value)) ∧
      Spells (coefficientChars value ++ n.text.toList) summand.tokens := by
  have name : Spells n.text.toList [n.token] := by
    rw [Name.text, String.toList_ofList]
    exact Spells.token n.token
  unfold coefficientChars
  by_cases unit : Rational.magnitude value = 1
  · refine ⟨.name n, ?_, ?_, by simpa [unit, Summand.tokens] using name⟩
    · rw [Summand.term, ← unit, Sign.of_apply_magnitude]
    · rw [← Rational.longRun_decimalChars_magnitude, unit]
      exact iff_of_true (List.forall_mem_nil _) Rational.not_longRun_decimalChars_one
  · obtain ⟨v, equal, digits, spells⟩ := exists_number_magnitude value
    refine ⟨.multiple v false n, by rw [Summand.term, equal], digits, ?_⟩
    simpa [unit, Summand.tokens] using spells.append name

def storedTerm (term : String × Rat) : Term := .multiple term.2 term.1

theorem exists_summand_termChars {term : String × Rat} (named : IsName term.1) (first : Bool) :
    ∃ summand : Summand, summand.term (Sign.of term.2) = storedTerm term ∧
      (Countable summand.naturals ↔ ¬ LongRun (Rational.decimalChars term.2)) ∧
      ∀ tokens, Spells (signChars term.2 first) tokens →
        Spells (termChars first term) (tokens ++ summand.tokens) := by
  obtain ⟨n, text⟩ := named
  obtain ⟨summand, read, digits, spells⟩ := exists_summand n term.2
  rw [text] at read spells
  refine ⟨summand, read, digits, fun tokens sign => ?_⟩
  have spaced := (sign.append spells).append Spells.blank
  rw [List.append_nil] at spaced
  simpa [termChars] using spaced

theorem exists_others {terms : List (String × Rat)} (named : ∀ term ∈ terms, IsName term.1) :
    ∃ others : List (Sign × Summand), Side.signedTerms others = terms.map storedTerm ∧
      (Countable (Side.otherNaturals others) ↔
        ∀ term ∈ terms, ¬ LongRun (Rational.decimalChars term.2)) ∧
      Spells (terms.flatMap (termChars false)) (Side.otherTokens others) := by
  induction terms with
  | nil => exact ⟨[], rfl, by simp [Side.otherNaturals, Countable], Spells.blanks (by simp)⟩
  | cons term terms ih =>
    obtain ⟨firstNamed, othersNamed⟩ := List.forall_mem_cons.mp named
    obtain ⟨summand, read, digits, spells⟩ := exists_summand_termChars firstNamed false
    obtain ⟨others, readOthers, digitsOthers, spellsOthers⟩ := ih othersNamed
    refine ⟨(Sign.of term.2, summand) :: others, ?_, ?_, ?_⟩
    · rw [Side.signedTerms_cons, List.map_cons, read, readOthers]
    · rw [List.forall_mem_cons, ← digits, ← digitsOthers]
      exact countable_append
    · exact (spells _ (spells_signChars term.2)).append spellsOthers

/-- The left-hand side as written is read as the stored terms in the order of their names, and the
constant. -/
theorem exists_side {terms : List (String × Rat)} (named : ∀ term ∈ terms, IsName term.1)
    (constant : Rat) :
    ∃ side : Side, side.terms = terms.map storedTerm ++ [.constant constant] ∧
      (Countable side.naturals ↔ ¬ LongRun (Rational.decimalChars constant) ∧
        ∀ term ∈ terms, ¬ LongRun (Rational.decimalChars term.2)) ∧
      Spells (termsChars terms ++ signChars constant terms.isEmpty ++
        Rational.decimalChars (Rational.magnitude constant)) side.tokens := by
  obtain ⟨v, value, digitsConstant, spellsConstant⟩ := exists_number_magnitude constant
  have readConstant : (Summand.number v).term (Sign.of constant) = .constant constant := by
    rw [Summand.term, value]
  cases terms with
  | nil =>
    refine ⟨⟨Sign.leading constant, .number v, []⟩, ?_, ?_, ?_⟩
    · simp [Side.terms, Side.signed, Side.signedTerms, Sign.leading_getD, readConstant]
    · simpa [Side.naturals, Side.otherNaturals, Summand.naturals] using digitsConstant
    · have spells := (spells_signChars_leading constant).append spellsConstant
      simpa [Side.tokens, Side.otherTokens, termsChars, Summand.tokens] using spells
  | cons term terms =>
    obtain ⟨firstNamed, othersNamed⟩ := List.forall_mem_cons.mp named
    obtain ⟨summand, read, digits, spells⟩ := exists_summand_termChars firstNamed true
    obtain ⟨others, readOthers, digitsOthers, spellsOthers⟩ := exists_others othersNamed
    refine ⟨⟨Sign.leading term.2, summand, others ++ [(Sign.of constant, .number v)]⟩, ?_, ?_, ?_⟩
    · rw [Side.terms, Side.signed, Sign.leading_getD, Side.signedTerms_cons, read,
        Side.signedTerms_append, readOthers, Side.signedTerms_cons, readConstant]
      rfl
    · have last : Side.otherNaturals [(Sign.of constant, Summand.number v)] = v.naturals :=
        List.append_nil _
      rw [Side.naturals, Side.otherNaturals, List.flatMap_append, ← Side.otherNaturals,
        ← Side.otherNaturals, last, countable_append, countable_append, digits, digitsOthers,
        digitsConstant, List.forall_mem_cons]
      tauto
    · have whole := ((spells _ (spells_signChars_leading term.2)).append spellsOthers).append
        ((spells_signChars constant).append spellsConstant)
      simpa [Side.tokens, Side.otherTokens, termsChars, Summand.tokens] using whole

end Spelling

theorem sortedTerms_perm (e : Equation) : e.sortedTerms.Perm e.terms :=
  Text.sortAscending_perm e.distinct

/-- The numbers that are written for an equation, apart from their signs. -/
def numbers (e : Equation) : List Rat := e.constant :: e.terms.map (·.2)

theorem exists_derives_chars (e : Equation) (named : ∀ name ∈ e.names, IsName name) :
    ∃ tree : Statement, tree.Derives (String.ofList e.chars) ∧
      tree.lhs.terms = e.sortedTerms.map storedTerm ++ [.constant e.constant] ∧
      tree.rhs.terms = [.constant 0] ∧
      (Countable tree.naturals ↔ ∀ r ∈ e.numbers, ¬ LongRun (Rational.decimalChars r)) := by
  have sorted : ∀ term ∈ e.sortedTerms, IsName term.1 := fun term member =>
    named term.1 (List.mem_map_of_mem (e.sortedTerms_perm.mem_iff.mp member))
  obtain ⟨side, read, digits, spells⟩ := exists_side sorted e.constant
  let zero : Side := ⟨none, .number (.natural (Rational.natural 0)), []⟩
  refine ⟨⟨side, zero⟩, ?_, read, ?_, ?_⟩
  · have whole := ((spells.append (Spells.blank.append (Spells.token ['=']))).append
      (Spells.blank.append (Spells.token ['0']))).layout
    have isEmpty : e.sortedTerms.isEmpty = e.isEmpty := e.sortedTerms_perm.isEmpty_eq
    rw [Statement.Derives, String.toList_ofList, chars, ← isEmpty]
    simpa [Statement.tokens, zero, Side.tokens, Side.otherTokens, Summand.tokens, Number.tokens,
      Rational.natural, Integer.digits, Nat.toDigits_zero] using whole
  · simp [zero, Side.terms, Side.signed, Side.signedTerms, Summand.term, Sign.apply, Number.value]
  · have right : Countable zero.naturals := by decide
    rw [Statement.naturals, countable_append, and_iff_left right, digits, numbers,
      List.forall_mem_cons, List.forall_mem_map]
    simp only [e.sortedTerms_perm.mem_iff]

theorem coefficient_ofTerms_stored (e : Equation) {terms : List (String × Rat)}
    (perm : terms.Perm e.terms) (constant : Rat) (name : String) :
    (ofTerms (terms.map storedTerm ++ [.constant constant])).coefficient name =
      e.coefficient name := by
  have shares : (terms.map storedTerm).map (Term.coefficient name) =
      terms.map fun term => if name = term.1 then term.2 else 0 := by
    rw [List.map_map]
    rfl
  rw [coefficient_ofTerms_eq_sum, List.map_append, shares, List.sum_append, (perm.map _).sum_eq,
    sum_terms_eq_coefficient]
  simp [Term.coefficient]

theorem constant_ofTerms_stored (terms : List (String × Rat)) (constant : Rat) :
    (ofTerms (terms.map storedTerm ++ [.constant constant])).constant = constant := by
  have zero : (terms.map (Term.constantPart ∘ storedTerm)).sum = 0 :=
    List.sum_eq_zero (by simp +contextual [storedTerm, Term.constantPart])
  rw [constant_ofTerms_eq_sum, List.map_append, List.sum_append, List.map_map, zero]
  simp [Term.constantPart]

/-- With names of the grammar, what is written is read as the same equation, or not at all. -/
theorem parse_chars (e : Equation) (named : ∀ name ∈ e.names, IsName name)
    (short : ∀ r ∈ e.numbers, ¬ LongRun (Rational.decimalChars r)) :
    ∃ read, parse (String.ofList e.chars) = .ok read ∧ (read == e) = true := by
  obtain ⟨tree, derives, lhs, rhs, digits⟩ := e.exists_derives_chars named
  refine ⟨_, parse_of_countable tree derives (digits.mpr short),
    (same_iff _ _).mpr ⟨?_, fun name => ?_⟩⟩
  · rw [ofSides, lhs, rhs, constant_subtract, constant_ofTerms_stored, constant_ofTerms_eq_sum]
    simp [Term.constantPart]
  · rw [ofSides, lhs, rhs, coefficient_subtract, coefficient_ofTerms_stored e e.sortedTerms_perm,
      coefficient_ofTerms_eq_sum]
    simp [Term.coefficient]

theorem short_of_parse_chars {e read : Equation} (named : ∀ name ∈ e.names, IsName name)
    (parsed : parse (String.ofList e.chars) = .ok read) :
    ∀ r ∈ e.numbers, ¬ LongRun (Rational.decimalChars r) := by
  obtain ⟨tree, derives, -, -, digits⟩ := e.exists_derives_chars named
  exact digits.mp (countable_of_parse parsed tree derives)

theorem fitsField_iff (e : Equation) : e.fitsField ↔ ∀ r ∈ e.numbers, Rational.Writable r := by
  unfold fitsField numbers
  rw [List.forall_mem_cons, List.forall_mem_map, Bool.and_eq_true, List.all_eq_true, and_comm]
  simp only [Rational.fitsField_iff, e.sortedTerms_perm.mem_iff]

/-- The equation can be written, and what is written is read as the same equation. -/
def RoundTrips (e : Equation) : Prop :=
  ∃ text read, e.render = .ok text ∧ parse text = .ok read ∧ (read == e) = true

theorem names_eq_of_same {a b : Equation} (same : (a == b) = true) (name : String) :
    name ∈ a.names ↔ name ∈ b.names := by
  rw [mem_names_iff, mem_names_iff, ((same_iff a b).mp same).2]

/-- Text and equation correspond exactly if all names are names of the grammar and no number needs
more places than can be written or more digits than can be counted. An equation that was read has
such names. -/
theorem roundTrips_iff (e : Equation) :
    (e.RoundTrips ↔ (∀ name ∈ e.names, IsName name) ∧ ∀ r ∈ e.numbers, Rational.Legible r) ∧
      ∀ text, parse text = .ok e → (e.RoundTrips ↔ ∀ r ∈ e.numbers, Rational.Legible r) := by
  have both : e.RoundTrips ↔
      (∀ name ∈ e.names, IsName name) ∧ ∀ r ∈ e.numbers, Rational.Legible r := by
    simp only [Rational.Legible, imp_and, forall_and, ← fitsField_iff]
    constructor
    · rintro ⟨text, read, rendered, parsed, same⟩
      have named : ∀ name ∈ e.names, IsName name := fun name member =>
        isName_of_parse parsed ((names_eq_of_same same name).mpr member)
      by_cases fits : e.fitsField
      · rw [render, if_pos fits] at rendered
        obtain rfl := Except.ok.inj rendered
        exact ⟨named, fits, short_of_parse_chars named parsed⟩
      · simp [render, fits] at rendered
    · rintro ⟨named, fits, short⟩
      obtain ⟨read, parsed, same⟩ := e.parse_chars named short
      exact ⟨_, read, by rw [render, if_pos fits], parsed, same⟩
  refine ⟨both, fun text parsed => ?_⟩
  rw [both]
  exact and_iff_right fun name member => isName_of_parse parsed member

/-- An equation without names that has no text: its constant has one place too many. -/
theorem not_roundTrips_inv_two_pow :
    (∀ name ∈ (empty.setConstant ((2 ^ 65535 : Nat) : Rat)⁻¹).names, IsName name) ∧
      (empty.setConstant ((2 ^ 65535 : Nat) : Rat)⁻¹).render = .error .fieldTooWide ∧
      ¬ (empty.setConstant ((2 ^ 65535 : Nat) : Rat)⁻¹).RoundTrips := by
  have unwritable : ¬ (empty.setConstant ((2 ^ 65535 : Nat) : Rat)⁻¹).fitsField := by
    rw [fitsField_iff]
    intro all
    have written := (Rational.writable_inv_two_pow_iff 65535).mp (all _ List.mem_cons_self)
    omega
  have failed : (empty.setConstant ((2 ^ 65535 : Nat) : Rat)⁻¹).render = .error .fieldTooWide :=
    if_neg unwritable
  refine ⟨fun name member => absurd member List.not_mem_nil, failed, ?_⟩
  rintro ⟨text, read, rendered, -⟩
  rw [failed] at rendered
  contradiction

end Equation

end ExactLinear
