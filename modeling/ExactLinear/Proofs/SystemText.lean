import ExactLinear.Proofs.LineReading

/-! Systems as text and back. An equation takes one line, which is neither blank nor a comment, so
the lines of a system are read as its equations in their order, each as it was. -/
namespace ExactLinear

open Grammar

namespace Equation

theorem le_toNat_of_mem_signChars {value : Rat} {first : Bool} :
    ∀ c ∈ signChars value first, 0x20 ≤ c.toNat := by
  unfold signChars
  split
  · simp
  · split <;> simp

theorem le_toNat_of_mem_magnitude {value : Rat} :
    ∀ c ∈ Rational.decimalChars (Rational.magnitude value), 0x20 ≤ c.toNat := by
  intro c member
  have notNegative : 0 ≤ Rational.magnitude value := by
    rw [Rational.magnitude_eq_abs]
    exact abs_nonneg value
  obtain ⟨v, -, text⟩ := Rational.exists_number_decimalChars notNegative
  exact le_toNat_of_mem_number (text ▸ member)

theorem le_toNat_of_mem_termChars {first : Bool} {term : String × Rat} (named : IsName term.1) :
    ∀ c ∈ termChars first term, 0x20 ≤ c.toNat := by
  have coefficient : ∀ c ∈ coefficientChars term.2, 0x20 ≤ c.toNat := by
    simp only [coefficientChars]
    split
    · simp
    · exact le_toNat_of_mem_magnitude
  simp only [termChars, List.forall_mem_append]
  exact ⟨⟨⟨le_toNat_of_mem_signChars, coefficient⟩, le_toNat_of_isName named⟩, by simp⟩

theorem le_toNat_of_mem_termsChars {terms : List (String × Rat)}
    (named : ∀ term ∈ terms, IsName term.1) : ∀ c ∈ termsChars terms, 0x20 ≤ c.toNat := by
  cases terms with
  | nil => simp [termsChars]
  | cons term terms =>
    obtain ⟨firstNamed, othersNamed⟩ := List.forall_mem_cons.mp named
    rw [termsChars, List.forall_mem_append]
    refine ⟨le_toNat_of_mem_termChars firstNamed, fun c member => ?_⟩
    obtain ⟨other, inTerms, inside⟩ := List.mem_flatMap.mp member
    exact le_toNat_of_mem_termChars (othersNamed other inTerms) c inside

/-- An equation is written on one line. -/
theorem unbroken_chars (e : Equation) (named : ∀ name ∈ e.names, IsName name) :
    Text.Unbroken e.chars := by
  have sorted : ∀ term ∈ e.sortedTerms, IsName term.1 := fun term member =>
    named term.1 (List.mem_map_of_mem (e.sortedTerms_perm.mem_iff.mp member))
  apply unbroken_of_le
  simp only [chars, List.forall_mem_append]
  exact ⟨⟨⟨le_toNat_of_mem_termsChars sorted, le_toNat_of_mem_signChars⟩,
    le_toNat_of_mem_magnitude⟩, by simp⟩

end Equation

namespace LinearSystem

variable {s t : LinearSystem}

/-- The same equations in the same order, up to the order of terms. -/
theorem same_iff_forall₂ (s t : LinearSystem) :
    (s == t) = true ↔ List.Forall₂ (fun e f => (e == f) = true) s.equations t.equations := by
  obtain ⟨es⟩ := s
  obtain ⟨fs⟩ := t
  change (es == fs) = true ↔ _
  induction es generalizing fs with
  | nil => cases fs <;> simp
  | cons e es ih => cases fs <;> simp [List.cons_beq_cons, ih]

theorem occurs_of_same (same : (s == t) = true) {name : String} (occurs : t.Occurs name) :
    s.Occurs name := by
  obtain ⟨f, member, nonzero⟩ := occurs
  obtain ⟨i, hi, rfl⟩ := List.mem_iff_getElem.mp member
  obtain ⟨lengths, equations⟩ := List.forall₂_iff_get.mp ((same_iff_forall₂ s t).mp same)
  have hi' : i < s.equations.length := lengths ▸ hi
  have agree := ((Equation.same_iff _ _).mp (equations i hi' hi)).2 name
  exact ⟨s.equations[i], List.getElem_mem hi', fun zero => nonzero (agree.symm.trans zero)⟩

theorem isName_of_mem_equations (named : ∀ name ∈ s.unknowns, IsName name) {e : Equation}
    (member : e ∈ s.equations) : ∀ name ∈ e.names, IsName name := by
  intro name stored
  apply named
  rw [mem_unknowns_iff]
  exact ⟨e, member, (e.mem_names_iff name).mp stored⟩

theorem fitsField_of_render {text : String} (rendered : s.render = .ok text) :
    ∀ e ∈ s.equations, e.fitsField := by
  obtain ⟨lines, written, -⟩ := bind_eq_ok_iff.mp rendered
  intro e member
  obtain ⟨line, shown⟩ := exists_ok_of_mapM written e member
  obtain ⟨chars, written, -⟩ := bind_eq_ok_iff.mp shown
  by_contra wide
  simp [Equation.render, wide] at written

/-- What is written for a system is cut into the texts of its equations. -/
theorem exists_lines_render (named : ∀ name ∈ s.unknowns, IsName name)
    (fits : ∀ e ∈ s.equations, e.fitsField) :
    ∃ text, s.render = .ok text ∧
      Text.lines text = s.equations.map fun e => String.ofList e.chars := by
  have written : (s.equations.mapM fun e => return (← e.render) ++ "\n") =
      .ok (s.equations.map fun e => String.ofList (e.chars ++ ['\n'])) := by
    apply mapM_eq_ok_map
    intro e member
    rw [Equation.render, if_pos (fits e member)]
    apply congrArg Except.ok
    apply String.toList_inj.mp
    simp
  refine ⟨String.ofList ((s.equations.map Equation.chars).flatMap (· ++ ['\n'])), ?_, ?_⟩
  · rw [render, written]
    apply congrArg Except.ok
    apply String.toList_inj.mp
    simp [List.flatMap_map, String.toList_join]
  · have unbroken : ∀ line ∈ s.equations.map Equation.chars, Text.Unbroken line := by
      rw [List.forall_mem_map]
      exact fun e member => e.unbroken_chars (isName_of_mem_equations named member)
    rw [Text.lines, String.toList_ofList, Text.linesFrom_flatMap unbroken, List.map_map]
    rfl

/-- The system can be written, and its lines are read as the same system. -/
def RoundTrips (s : LinearSystem) : Prop :=
  ∃ text read, s.render = .ok text ∧ parseLines (Text.lines text) = .ok read ∧
    (read == s) = true

theorem isName_of_roundTrips (trips : s.RoundTrips) : ∀ name ∈ s.unknowns, IsName name := by
  obtain ⟨text, read, -, parsed, same⟩ := trips
  intro name member
  apply isName_of_parseLines parsed
  rw [mem_unknowns_iff]
  exact occurs_of_same same ((s.mem_unknowns_iff name).mp member)

theorem not_isSkipped_chars {e : Equation} (named : ∀ name ∈ e.names, IsName name) :
    isSkipped (String.ofList e.chars) = false := by
  obtain ⟨tree, derives, -⟩ := e.exists_derives_chars named
  exact not_isSkipped_of_derives tree derives

/-- Each line of a system that was read again was read for itself. -/
theorem short_of_roundTrips (trips : s.RoundTrips) {e : Equation} (member : e ∈ s.equations) :
    ∀ r ∈ e.numbers, ¬ LongRun (Rational.decimalChars r) := by
  have named := isName_of_roundTrips trips
  obtain ⟨text, read, rendered, parsed, -⟩ := trips
  obtain ⟨text, again, lines⟩ := exists_lines_render named (fitsField_of_render rendered)
  obtain rfl := Except.ok.inj (again.symm.trans rendered)
  have eNamed := isName_of_mem_equations named member
  have inLines : String.ofList e.chars ∈ Text.lines text := by
    rw [lines]
    exact List.mem_map_of_mem member
  rcases (parseLines_eq_ok_iff.mp parsed).1 _ inLines with skipped | ⟨f, parsedLine⟩
  · rw [not_isSkipped_chars eNamed] at skipped
    contradiction
  · exact Equation.short_of_parse_chars eNamed parsedLine

theorem roundTrips_of_legible (named : ∀ name ∈ s.unknowns, IsName name)
    (fits : ∀ e ∈ s.equations, e.fitsField)
    (short : ∀ e ∈ s.equations, ∀ r ∈ e.numbers, ¬ LongRun (Rational.decimalChars r)) :
    s.RoundTrips := by
  obtain ⟨text, rendered, lines⟩ := exists_lines_render named fits
  have each : ∀ e ∈ s.equations, ∃ again, Equation.parse (String.ofList e.chars) = .ok again ∧
      (again == e) = true :=
    fun e member => e.parse_chars (isName_of_mem_equations named member) (short e member)
  obtain ⟨es, read, same⟩ := exists_readLines each 1
  refine ⟨text, ⟨es⟩, rendered, ?_, (same_iff_forall₂ _ _).mpr same.flip⟩
  rw [lines, parseLines, read]
  rfl

/-- The lines of a system are read as the same system exactly if all names are names of the grammar
and no number needs more places than can be written or more digits than can be counted. There is one
line for each equation, and none of them is skipped. -/
theorem lines_roundTrip_iff (s : LinearSystem) :
    (s.RoundTrips ↔ (∀ name ∈ s.unknowns, IsName name) ∧
      ∀ e ∈ s.equations, ∀ r ∈ e.numbers, Rational.Legible r) ∧
    ((∀ name ∈ s.unknowns, IsName name) → ∀ text, s.render = .ok text →
      List.Forall₂ (fun e line => e.render = .ok line ∧ isSkipped line = false)
        s.equations (Text.lines text)) := by
  simp only [Rational.Legible, imp_and, forall_and, ← Equation.fitsField_iff]
  refine ⟨⟨fun trips => ?_, ?_⟩, ?_⟩
  · obtain ⟨text, read, rendered, -⟩ := id trips
    exact ⟨isName_of_roundTrips trips, fitsField_of_render rendered,
      fun e member => short_of_roundTrips trips member⟩
  · rintro ⟨named, fits, short⟩
    exact roundTrips_of_legible named fits short
  · intro named text rendered
    have fits := fitsField_of_render rendered
    obtain ⟨text, again, lines⟩ := exists_lines_render named fits
    obtain rfl := Except.ok.inj (again.symm.trans rendered)
    rw [lines, List.forall₂_map_right_iff, List.forall₂_same]
    intro e member
    exact ⟨by rw [Equation.render, if_pos (fits e member)],
      not_isSkipped_chars (isName_of_mem_equations named member)⟩

theorem render_of_not_fitsField {e : Equation} (wide : ¬ e.fitsField) :
    render ⟨[e]⟩ = .error .fieldTooWide := by
  simp [render, Equation.render, wide, bind, Except.bind]

/-- A system of one equation, without names, whose constant has one place too many. -/
theorem not_roundTrips_constant_inv_two_pow :
    (∀ name ∈ unknowns ⟨[Equation.empty.setConstant ((2 ^ 65535 : Nat) : Rat)⁻¹]⟩, IsName name) ∧
      render ⟨[Equation.empty.setConstant ((2 ^ 65535 : Nat) : Rat)⁻¹]⟩ = .error .fieldTooWide ∧
      ¬ RoundTrips ⟨[Equation.empty.setConstant ((2 ^ 65535 : Nat) : Rat)⁻¹]⟩ := by
  have nameless (r : Rat) : unknowns ⟨[Equation.empty.setConstant r]⟩ = [] := rfl
  have wide : ¬ (Equation.empty.setConstant ((2 ^ 65535 : Nat) : Rat)⁻¹).fitsField := by
    rw [Equation.fitsField_iff]
    intro all
    have written := (Rational.writable_inv_two_pow_iff 65535).mp (all _ List.mem_cons_self)
    omega
  refine ⟨?_, render_of_not_fitsField wide, ?_⟩
  · intro name member
    rw [nameless] at member
    exact absurd member List.not_mem_nil
  · rintro ⟨text, read, rendered, -⟩
    exact wide (fitsField_of_render rendered _ List.mem_cons_self)

end LinearSystem

end ExactLinear
