import ExactLinear.Proofs.LineReading
import ExactLinear.Proofs.SystemSolve
import ExactLinear.Report

/-! A report as a system of equations. Each line of values, `name = value`, is an equation that says
what the line says, so the lines of a report form a system with the reported values as its only
solution. -/
namespace ExactLinear

open Grammar

namespace Style

/-- What the style writes for a value, however many places that takes. -/
def chars : Style → Rat → List Char
  | .decimal => Rational.decimalChars
  | .fraction => Rational.fractionChars

/-- Only decimals are set in a field, so only they can be too long. -/
def Writes (style : Style) (r : Rat) : Prop := style = .decimal → Rational.Writable r

theorem format_of_writes {style : Style} {r : Rat} (writes : style.Writes r) :
    style.format r = .ok (String.ofList (style.chars r)) := by
  cases style with
  | fraction => rfl
  | decimal =>
    have fits := (Rational.fitsField_iff r).mpr (writes rfl)
    rw [format, Rational.decimal, if_pos fits]
    rfl

theorem writes_of_format {style : Style} {r : Rat} {text : String}
    (formatted : style.format r = .ok text) : style.Writes r := by
  rintro rfl
  rw [← Rational.fitsField_iff]
  by_contra wide
  simp [format, Rational.decimal, wide] at formatted

/-- A value with its sign is a side of its own. -/
theorem exists_side (style : Style) (r : Rat) :
    ∃ side : Side, side.terms = [.constant r] ∧ side.tokens.flatten = style.chars r ∧
      (Countable side.naturals ↔ ¬ LongRun (style.chars r)) ∧
      ∀ c ∈ style.chars r, 0x20 ≤ c.toNat := by
  have written {r : Rat} (notNegative : 0 ≤ r) :
      ∃ v : Number, v.value = r ∧ v.tokens.flatten = style.chars r := by
    cases style with
    | decimal => exact Rational.exists_number_decimalChars notNegative
    | fraction => exact Rational.exists_number_fractionChars notNegative
  by_cases negative : r < 0
  · obtain ⟨v, value, text⟩ := written (neg_nonneg.mpr negative.le)
    have sign : style.chars r = '-' :: style.chars (-r) := by
      cases style with
      | decimal => exact Rational.decimalChars_of_neg negative
      | fraction => exact Rational.fractionChars_of_neg negative
    refine ⟨⟨some .minus, .number v, []⟩, ?_, ?_, ?_, ?_⟩
    · simp [Side.terms, Side.signed, Side.signedTerms, Summand.term, Sign.apply, value]
    · rw [sign, ← text]
      simp [Side.tokens, Side.otherTokens, Sign.token, Summand.tokens]
    · rw [sign, ← text, longRun_cons_iff rfl, v.longRun_iff, not_not, Side.naturals]
      exact iff_of_eq (congrArg Countable (List.append_nil _))
    · rw [sign, ← text]
      exact List.forall_mem_cons.mpr ⟨by decide, fun c => le_toNat_of_mem_number⟩
  · obtain ⟨v, value, text⟩ := written (not_lt.mp negative)
    refine ⟨⟨none, .number v, []⟩, ?_, ?_, ?_, ?_⟩
    · simp [Side.terms, Side.signed, Side.signedTerms, Summand.term, Sign.apply, value]
    · simpa [Side.tokens, Side.otherTokens, Summand.tokens] using text
    · rw [← text, v.longRun_iff, not_not, Side.naturals]
      exact iff_of_eq (congrArg Countable (List.append_nil _))
    · rw [← text]
      exact fun c => le_toNat_of_mem_number

end Style

/-- The equation says that the name has the value. -/
structure Defines (entry : String × Rat) (e : Equation) : Prop where
  constant : e.constant = -entry.2
  coefficient : ∀ name, e.coefficient name = if name = entry.1 then 1 else 0

theorem Defines.value_eq {entry : String × Rat} {e : Equation} (defines : Defines entry e)
    (values : String → Rat) : e.value values = values entry.1 - entry.2 := by
  have covers (name : String) (nonzero : e.coefficient name ≠ 0) :
      name ∈ ({entry.1} : Finset String) := by
    rw [defines.coefficient] at nonzero
    simpa using nonzero
  rw [e.value_eq_sum values _ covers, Finset.sum_singleton, defines.coefficient, defines.constant]
  simp [sub_eq_add_neg]

namespace Report

def lineChars (style : Style) (entry : String × Rat) : List Char :=
  entry.1.toList ++ [' ', '=', ' '] ++ style.chars entry.2

theorem valueLine_eq {style : Style} {entry : String × Rat} (writes : style.Writes entry.2) :
    valueLine style entry = .ok (String.ofList (lineChars style entry ++ ['\n'])) := by
  rw [valueLine, Style.format_of_writes writes]
  apply congrArg Except.ok
  apply String.toList_inj.mp
  simp [lineChars]

theorem writes_of_valueLine {style : Style} {entry : String × Rat} {line : String}
    (written : valueLine style entry = .ok line) : style.Writes entry.2 := by
  obtain ⟨text, formatted, -⟩ := bind_eq_ok_iff.mp written
  exact Style.writes_of_format formatted

theorem writes_of_render {style : Style} {values : Valuation} {text : String}
    (rendered : render style (.unique values) = .ok text) :
    ∀ entry ∈ values.entries, style.Writes entry.2 := by
  obtain ⟨lines, written, -⟩ := bind_eq_ok_iff.mp rendered
  intro entry member
  obtain ⟨line, shown⟩ := exists_ok_of_mapM written entry member
  exact writes_of_valueLine shown

theorem unbroken_lineChars {style : Style} {entry : String × Rat} (named : IsName entry.1) :
    Text.Unbroken (lineChars style entry) := by
  obtain ⟨-, -, -, -, value⟩ := style.exists_side entry.2
  apply unbroken_of_le
  simp only [lineChars, List.forall_mem_append]
  exact ⟨⟨le_toNat_of_isName named, by simp⟩, value⟩

theorem exists_tree (style : Style) {entry : String × Rat} (named : IsName entry.1) :
    ∃ tree : Statement, tree.Derives (String.ofList (lineChars style entry)) ∧
      tree.lhs.terms = [.multiple 1 entry.1] ∧ tree.rhs.terms = [.constant entry.2] ∧
      (Countable tree.naturals ↔ ¬ LongRun (style.chars entry.2)) := by
  obtain ⟨n, text⟩ := named
  obtain ⟨side, read, written, digits, -⟩ := style.exists_side entry.2
  refine ⟨⟨⟨none, .name n, []⟩, side⟩, ?_, ?_, read, digits⟩
  · have spells := ((Spells.token n.token).append
      (Spells.blank.append (Spells.token ['=']))).append
      (Spells.blank.append (Spells.flatten side.tokens))
    rw [Statement.Derives, String.toList_ofList, lineChars, ← text, Name.text, String.toList_ofList,
      ← written]
    simpa [Statement.tokens, Side.tokens, Side.otherTokens, Summand.tokens] using spells.layout
  · simp [Side.terms, Side.signed, Side.signedTerms, Summand.term, Sign.apply, text]

/-- A line of values is read as the equation that it is. -/
theorem exists_parse_line {style : Style} {entry : String × Rat} (named : IsName entry.1)
    (short : ¬ LongRun (style.chars entry.2)) :
    ∃ e, Equation.parse (String.ofList (lineChars style entry)) = .ok e ∧ Defines entry e := by
  obtain ⟨tree, derives, lhs, rhs, digits⟩ := exists_tree style named
  refine ⟨_, parse_of_countable tree derives (digits.mpr short), ?_, fun name => ?_⟩
  · rw [Equation.ofSides, Equation.constant_subtract, lhs, rhs, Equation.constant_ofTerms_eq_sum,
      Equation.constant_ofTerms_eq_sum]
    simp [Term.constantPart]
  · rw [Equation.ofSides, Equation.coefficient_subtract, lhs, rhs,
      Equation.coefficient_ofTerms_eq_sum, Equation.coefficient_ofTerms_eq_sum]
    simp [Term.coefficient]

/-- The lines of values are read one by one, each as the equation for its entry. -/
theorem exists_readLines {style : Style} {entries : List (String × Rat)}
    (named : ∀ entry ∈ entries, IsName entry.1)
    (short : ∀ entry ∈ entries, ¬ LongRun (style.chars entry.2)) (number : Nat) :
    ∃ es, LinearSystem.readLines number
        (entries.map fun entry => String.ofList (lineChars style entry)) = .ok es ∧
      List.Forall₂ Defines entries es :=
  LinearSystem.exists_readLines
    (fun entry member => exists_parse_line (named entry member) (short entry member)) number

theorem short_of_parseLines {style : Style} {entries : List (String × Rat)} {s : LinearSystem}
    (named : ∀ entry ∈ entries, IsName entry.1)
    (parsed : LinearSystem.parseLines
      (entries.map fun entry => String.ofList (lineChars style entry)) = .ok s) :
    ∀ entry ∈ entries, ¬ LongRun (style.chars entry.2) := by
  intro entry member
  obtain ⟨tree, derives, -, -, digits⟩ := exists_tree style (named entry member)
  rcases (LinearSystem.parseLines_eq_ok_iff.mp parsed).1 _ (List.mem_map_of_mem member) with
    skipped | ⟨e, parsedLine⟩
  · rw [LinearSystem.not_isSkipped_of_derives tree derives] at skipped
    contradiction
  · exact digits.mp (countable_of_parse parsedLine tree derives)

/-- The lines of a report, the one for the kind of solution included. -/
theorem lines_render {style : Style} {values : Valuation}
    (named : ∀ name ∈ values.names, IsName name)
    (writes : ∀ entry ∈ values.entries, style.Writes entry.2) :
    ∃ text, render style (.unique values) = .ok text ∧ (Text.lines text).tail =
      values.entries.map fun entry => String.ofList (lineChars style entry) := by
  have written : values.entries.mapM (valueLine style) =
      .ok (values.entries.map fun entry => String.ofList (lineChars style entry ++ ['\n'])) :=
    mapM_eq_ok_map fun entry member => valueLine_eq (writes entry member)
  let heading : List Char := "Unique solution:".toList
  let text : String := String.ofList
    ((heading :: values.entries.map (lineChars style)).flatMap (· ++ ['\n']))
  refine ⟨text, ?_, ?_⟩
  · rw [render, written]
    apply congrArg Except.ok
    apply String.toList_inj.mp
    simp [text, heading, List.flatMap_map, String.toList_join]
  · have unbroken : ∀ line ∈ heading :: values.entries.map (lineChars style),
        Text.Unbroken line := by
      refine List.forall_mem_cons.mpr ⟨unbroken_of_le (by simp [heading]), ?_⟩
      rw [List.forall_mem_map]
      intro entry member
      exact unbroken_lineChars (named entry.1 (List.mem_map_of_mem member))
    rw [Text.lines, String.toList_ofList, Text.linesFrom_flatMap unbroken]
    simp

end Report

namespace LinearSystem

section Defined

variable {v : Valuation} {s : LinearSystem} (defines : List.Forall₂ Defines v.entries s.equations)

include defines

theorem exists_entry_of_mem {e : Equation} (member : e ∈ s.equations) :
    ∃ entry ∈ v.entries, Defines entry e := by
  obtain ⟨i, hi, rfl⟩ := List.mem_iff_getElem.mp member
  have bound : i < v.entries.length := defines.length_eq ▸ hi
  exact ⟨v.entries[i], List.getElem_mem bound, (List.forall₂_iff_get.mp defines).2 i bound hi⟩

theorem exists_equation_of_mem {entry : String × Rat} (member : entry ∈ v.entries) :
    ∃ e ∈ s.equations, Defines entry e := by
  obtain ⟨i, hi, rfl⟩ := List.mem_iff_getElem.mp member
  have bound : i < s.equations.length := defines.length_eq ▸ hi
  exact ⟨s.equations[i], List.getElem_mem bound, (List.forall₂_iff_get.mp defines).2 i hi bound⟩

theorem occurs_iff_of_defines (name : String) : s.Occurs name ↔ name ∈ v.names := by
  constructor
  · rintro ⟨e, member, nonzero⟩
    obtain ⟨entry, inEntries, defined⟩ := exists_entry_of_mem defines member
    rw [defined.coefficient] at nonzero
    obtain rfl : name = entry.1 := by simpa using nonzero
    exact List.mem_map_of_mem inEntries
  · intro member
    obtain ⟨entry, inEntries, rfl⟩ := List.mem_map.mp member
    obtain ⟨e, inEquations, defined⟩ := exists_equation_of_mem defines inEntries
    exact ⟨e, inEquations, by simp [defined.coefficient]⟩

theorem unknowns_of_defines : s.unknowns = v.names := by
  have sorted : Text.Ascending id v.names := List.pairwise_map.mpr v.sorted
  apply s.ascending_unknowns.eq_of_mem_iff sorted
  intro name
  rw [mem_unknowns_iff, occurs_iff_of_defines defines]

/-- The reported values satisfy the system, and no others do. -/
theorem satisfied_iff_of_defines (a : s.Assignment) :
    s.Satisfied a ↔ ∀ name, v.get? name.val = some (a name) := by
  constructor
  · rintro satisfied ⟨name, occurs⟩
    obtain ⟨⟨name, r⟩, member, rfl⟩ :=
      List.mem_map.mp ((occurs_iff_of_defines defines name).mp occurs)
    obtain ⟨e, inEquations, defined⟩ := exists_equation_of_mem defines member
    have zero := satisfied e inEquations
    rw [defined.value_eq, sub_eq_zero, Assignment.extend, dif_pos occurs] at zero
    rw [Valuation.get?_of_mem member, zero]
  · intro values e member
    obtain ⟨⟨name, r⟩, inEntries, defined⟩ := exists_entry_of_mem defines member
    have occurs : s.Occurs name := (occurs_iff_of_defines defines name).mpr
      (List.mem_map_of_mem inEntries)
    have value := (Valuation.get?_of_mem inEntries).symm.trans (values ⟨name, occurs⟩)
    rw [defined.value_eq, Assignment.extend, dif_pos occurs, Option.some.inj value, sub_self]

theorem answers_of_defines : s.Answers (.unique v) := by
  have stored (name : {name : String // s.Occurs name}) : ∃ r, v.get? name.val = some r := by
    obtain ⟨entry, member, equal⟩ :=
      List.mem_map.mp ((occurs_iff_of_defines defines name.val).mp name.2)
    exact ⟨entry.2, by rw [← equal]; exact Valuation.get?_of_mem member⟩
  choose a values using stored
  have only (b : s.Assignment) : s.Satisfied b ↔ b = a := by
    rw [satisfied_iff_of_defines defines]
    constructor
    · intro same
      exact funext fun name => Option.some.inj ((same name).symm.trans (values name))
    · rintro rfl
      exact values
  exact ⟨(unknowns_of_defines defines).symm, a, only, values⟩

theorem solve_of_defines (pivoting : Pivoting) :
    ∃ solved, s.solve pivoting = .ok solved ∧ solved.solution = .unique v :=
  solve_of_answers (answers_of_defines defines) pivoting

end Defined

end LinearSystem

/-- The values can be reported, and the lines of the report below the first form a system in the
same names, with these values for its only solution. -/
def Valuation.Reproduced (v : Valuation) (style : Style) : Prop :=
  ∃ text s, Report.render style (.unique v) = .ok text ∧
    LinearSystem.parseLines (Text.lines text).tail = .ok s ∧ s.unknowns = v.names ∧
    ∀ pivoting, ∃ solved, s.solve pivoting = .ok solved ∧ solved.solution = .unique v

/-- Solving a report gives the reported values again, exactly if all names are names of the grammar
and no value needs more places than can be written or more digits than can be counted. The names of a
system that was read are such. -/
theorem reproduced_iff (v : Valuation) (style : Style) :
    (v.Reproduced style ↔ (∀ name ∈ v.names, IsName name) ∧
      ∀ entry ∈ v.entries, style.Writes entry.2 ∧ ¬ LongRun (style.chars entry.2)) ∧
    ∀ lines s pivoting solved, LinearSystem.parseLines lines = .ok s →
      s.solve pivoting = .ok solved → solved.solution = .unique v →
      (v.Reproduced style ↔
        ∀ entry ∈ v.entries, style.Writes entry.2 ∧ ¬ LongRun (style.chars entry.2)) := by
  have both : v.Reproduced style ↔ (∀ name ∈ v.names, IsName name) ∧
      ∀ entry ∈ v.entries, style.Writes entry.2 ∧ ¬ LongRun (style.chars entry.2) := by
    simp only [imp_and, forall_and]
    have inNames (named : ∀ name ∈ v.names, IsName name) : ∀ entry ∈ v.entries, IsName entry.1 :=
      fun entry member => named entry.1 (List.mem_map_of_mem member)
    constructor
    · rintro ⟨text, s, rendered, parsed, unknowns, -⟩
      have named : ∀ name ∈ v.names, IsName name := fun name member =>
        LinearSystem.isName_of_parseLines parsed (unknowns ▸ member)
      have writes := Report.writes_of_render rendered
      obtain ⟨text, again, lines⟩ := Report.lines_render named writes
      obtain rfl := Except.ok.inj (again.symm.trans rendered)
      rw [lines] at parsed
      exact ⟨named, writes, Report.short_of_parseLines (inNames named) parsed⟩
    · rintro ⟨named, writes, short⟩
      obtain ⟨text, rendered, lines⟩ := Report.lines_render named writes
      obtain ⟨es, read, defines⟩ := Report.exists_readLines (inNames named) short 1
      refine ⟨text, ⟨es⟩, rendered, ?_, LinearSystem.unknowns_of_defines defines, fun pivoting =>
        LinearSystem.solve_of_defines defines pivoting⟩
      rw [lines, LinearSystem.parseLines, read]
      rfl
  refine ⟨both, fun lines s pivoting solved parsed ran unique => ?_⟩
  rw [both]
  refine and_iff_right fun name member => LinearSystem.isName_of_parseLines parsed ?_
  obtain ⟨other, again, answers⟩ := s.solve_answers pivoting
  obtain rfl := Except.ok.inj (again.symm.trans ran)
  rw [unique] at answers
  exact answers.1 ▸ member

/-- A value with one place too many, which as a fraction could be reported. -/
theorem not_reproduced_inv_two_pow :
    (∀ name ∈ (Valuation.ofList [("x", ((2 ^ 65535 : Nat) : Rat)⁻¹)]).names, IsName name) ∧
      ¬ (Valuation.ofList [("x", ((2 ^ 65535 : Nat) : Rat)⁻¹)]).Reproduced .decimal := by
  constructor
  · intro name member
    have only (r : Rat) : (Valuation.ofList [("x", r)]).names = ["x"] := rfl
    rw [only] at member
    obtain rfl := List.mem_singleton.mp member
    exact ⟨⟨'x', [], by decide, by simp⟩, by decide⟩
  · rintro ⟨text, s, rendered, -⟩
    have writes := Report.writes_of_render rendered _ List.mem_cons_self rfl
    have := (Rational.writable_inv_two_pow_iff 65535).mp writes
    omega

end ExactLinear
