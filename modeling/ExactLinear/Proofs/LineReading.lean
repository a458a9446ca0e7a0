import ExactLinear.LinearSystem
import ExactLinear.Proofs.EquationText
import ExactLinear.Proofs.Lookahead
import ExactLinear.Proofs.SystemSolve

/-! Equations in lines of text. Names and numbers hold no line break, so what was written line by
line is cut into the same lines again; and no line that can be read as an equation is taken for a
blank one or a comment. -/
namespace ExactLinear

open Grammar

namespace Text

def Unbroken (cs : List Char) : Prop := ∀ c ∈ cs, c ≠ '\n' ∧ c ≠ '\r'

theorem Unbroken.not_mem {cs : List Char} (unbroken : Unbroken cs) : '\n' ∉ cs :=
  fun member => (unbroken '\n' member).1 rfl

/-- Characters that are no line feed are collected for the line. -/
theorem linesFrom_collect {line : List Char} (whole : '\n' ∉ line) (done rest : List Char) :
    linesFrom done (line ++ rest) = linesFrom (line.reverse ++ done) rest := by
  induction line generalizing done with
  | nil => rfl
  | cons c line ih =>
    rw [List.mem_cons, not_or] at whole
    rw [List.cons_append, linesFrom, if_neg (Ne.symm whole.1), ih whole.2]
    simp

theorem linesFrom_append {line : List Char} (whole : '\n' ∉ line) (done rest : List Char) :
    linesFrom done (line ++ '\n' :: rest) =
      (dropReturn (line.reverse ++ done)).reverse :: linesFrom [] rest := by
  rw [linesFrom_collect whole, linesFrom, if_pos rfl]

theorem dropReturn_reverse {line : List Char} (unbroken : Unbroken line) :
    dropReturn line.reverse = line.reverse := by
  unfold dropReturn
  split
  · rename_i tail shape
    have member : '\r' ∈ line := by
      rw [← List.mem_reverse, shape]
      exact List.mem_cons_self
    exact absurd rfl (unbroken _ member).2
  · rfl

theorem linesFrom_flatMap {lines : List (List Char)} (unbroken : ∀ line ∈ lines, Unbroken line) :
    linesFrom [] (lines.flatMap (· ++ ['\n'])) = lines := by
  induction lines with
  | nil => rfl
  | cons line lines ih =>
    obtain ⟨first, others⟩ := List.forall_mem_cons.mp unbroken
    rw [List.flatMap_cons, List.append_assoc, List.singleton_append, linesFrom_append first.not_mem,
      List.append_nil, dropReturn_reverse first, List.reverse_reverse, ih others]

end Text

section Characters

/-- Line breaks come before all characters that names and numbers are written with. -/
theorem unbroken_of_le {cs : List Char} (printed : ∀ c ∈ cs, 0x20 ≤ c.toNat) :
    Text.Unbroken cs := by
  intro c member
  have bound := printed c member
  constructor
  · rintro rfl
    exact absurd bound (by decide)
  · rintro rfl
    exact absurd bound (by decide)

theorem le_toNat_of_mem_name {n : Name} {c : Char} (member : c ∈ n.token) : 0x20 ≤ c.toNat := by
  have ofLetter {c : Char} (letter : Text.isLetter c) : 0x20 ≤ c.toNat := by
    by_contra low
    rw [not_isLetter_of_lt (by omega)] at letter
    contradiction
  rcases List.mem_cons.mp member with rfl | other
  · exact ofLetter n.letter
  · rcases n.nameChar c other with letter | digit | rfl
    · exact ofLetter letter
    · have := toNat_of_isDigit digit
      omega
    · decide

theorem le_toNat_of_isName {name : String} (named : IsName name) :
    ∀ c ∈ name.toList, 0x20 ≤ c.toNat := by
  obtain ⟨n, rfl⟩ := named
  intro c member
  rw [Name.text, String.toList_ofList] at member
  exact le_toNat_of_mem_name member

theorem le_toNat_of_mem_number {v : Number} {c : Char} (member : c ∈ v.tokens.flatten) :
    0x20 ≤ c.toNat := by
  have ofNatural {n : Natural} {c : Char} (inside : c ∈ n.digits) : 0x20 ≤ c.toNat := by
    have := toNat_of_isDigit (n.isDigit c inside)
    omega
  cases v with
  | natural n => exact ofNatural (by simpa [Number.tokens] using member)
  | decimal whole places =>
    have parts : c ∈ whole.digits ∨ c = '.' ∨ c ∈ places.digits := by
      simpa [Number.tokens] using member
    rcases parts with inside | rfl | inside
    · exact ofNatural inside
    · decide
    · exact ofNatural inside
  | fraction num den nonzero =>
    have parts : c ∈ num.digits ∨ c = '/' ∨ c ∈ den.digits := by
      simpa [Number.tokens] using member
    rcases parts with inside | rfl | inside
    · exact ofNatural inside
    · decide
    · exact ofNatural inside

end Characters

namespace LinearSystem

/-- A skipped line could not be read as an equation: nothing that begins one is ahead. -/
theorem parse_of_isSkipped {line : String} (skipped : isSkipped line) :
    Equation.parse line =
      .error ((Stop.unexpected (Text.skipBlanks line.toList) .natural .digit).locate
        line.toList) := by
  -- neither a sign nor a letter or digit is ahead
  have stops {kind : Char → Bool} (mark : kind '#' = false) :
      Stops kind (Text.skipBlanks line.toList) := by
    intro c ahead
    unfold isSkipped at skipped
    split at skipped
    · rename_i nothing
      simp [nothing] at ahead
    · rename_i first rest shape
      obtain rfl : first = '#' := by simpa using skipped
      obtain rfl : '#' = c := by simpa [shape] using ahead
      exact mark
  have blanks := skipBlanks_skipBlanks line.toList
  have failed : Reader.sum line.toList =
      .error (.unexpected (Text.skipBlanks line.toList) .natural .digit) := by
    rw [sum_unsigned (stops rfl), terms_eq]
    simp only [blanks, Reader.term, startsName_of_stops (stops (by decide)), Reader.number,
      natural_of_stops (stops rfl)]
    rfl
  simp [Equation.parse, Reader.sides, failed, bind, Except.bind]

theorem not_isSkipped_of_parse {line : String} {e : Equation}
    (parsed : Equation.parse line = .ok e) : isSkipped line = false := by
  by_contra notFalse
  rw [parse_of_isSkipped (Bool.eq_true_of_not_eq_false notFalse)] at parsed
  contradiction

theorem not_isSkipped_of_derives {line : String} (tree : Statement) (derives : tree.Derives line) :
    isSkipped line = false := by
  by_cases all : Countable tree.naturals
  · exact not_isSkipped_of_parse (parse_of_countable tree derives all)
  · by_contra notFalse
    have failed := parse_of_not_countable tree derives all
    simp [parse_of_isSkipped (Bool.eq_true_of_not_eq_false notFalse), Stop.locate] at failed

def Passes (line : String) : Prop := isSkipped line ∨ ∃ e, Equation.parse line = .ok e

def equation? (line : String) : Option Equation := (Equation.parse line).toOption

theorem equation?_eq_some_iff {line : String} {e : Equation} :
    equation? line = some e ↔ Equation.parse line = .ok e := by
  cases parsed : Equation.parse line <;> simp [equation?, parsed, Except.toOption]

theorem equation?_of_isSkipped {line : String} (skipped : isSkipped line) :
    equation? line = none := by
  cases found : equation? line with
  | none => rfl
  | some e =>
    rw [not_isSkipped_of_parse (equation?_eq_some_iff.mp found)] at skipped
    contradiction

/-- Lines that pass give their equations, and the numbers go on behind them. -/
theorem readLines_append {before : List String} (passes : ∀ line ∈ before, Passes line)
    (rest : List String) (number : Nat) :
    readLines number (before ++ rest) =
      (readLines (number + before.length) rest).map (before.filterMap equation? ++ ·) := by
  induction before generalizing number with
  | nil => cases read : readLines number rest <;> simp [read, Except.map]
  | cons line before ih =>
    obtain ⟨first, others⟩ := List.forall_mem_cons.mp passes
    have next := ih others (number + 1)
    rw [Nat.add_assoc, Nat.add_comm 1] at next
    rw [List.cons_append, readLines, next, List.length_cons]
    rcases first with skipped | ⟨e, parsed⟩
    · simp [skipped, equation?_of_isSkipped skipped]
    · simp only [not_isSkipped_of_parse parsed, parsed,
        List.filterMap_cons_some (equation?_eq_some_iff.mpr parsed)]
      cases readLines (number + (before.length + 1)) rest <;> rfl

theorem passes_or_split (lines : List String) :
    (∀ line ∈ lines, Passes line) ∨ ∃ before line after, lines = before ++ line :: after ∧
      (∀ earlier ∈ before, Passes earlier) ∧ ¬ Passes line := by
  induction lines with
  | nil => exact .inl (List.forall_mem_nil _)
  | cons line lines ih =>
    by_cases passes : Passes line
    · rcases ih with all | ⟨before, blocked, after, rfl, earlier, blocks⟩
      · exact .inl (List.forall_mem_cons.mpr ⟨passes, all⟩)
      · exact .inr ⟨line :: before, blocked, after, rfl,
          List.forall_mem_cons.mpr ⟨passes, earlier⟩, blocks⟩
    · exact .inr ⟨[], line, lines, rfl, List.forall_mem_nil _, passes⟩

/-- A line that does not pass is neither skipped nor read. -/
theorem exists_error_of_not_passes {line : String} (blocks : ¬ Passes line) :
    isSkipped line = false ∧ ∃ source, Equation.parse line = .error source := by
  refine ⟨Bool.eq_false_of_not_eq_true fun skipped => blocks (.inl skipped), ?_⟩
  cases parsed : Equation.parse line with
  | error source => exact ⟨source, rfl⟩
  | ok e => exact absurd (.inr ⟨e, parsed⟩) blocks

/-- Reading stops at the first line that does not pass. -/
theorem readLines_split {before after : List String} {line : String} {source : ParseError}
    (earlier : ∀ passed ∈ before, Passes passed) (kept : isSkipped line = false)
    (failed : Equation.parse line = .error source) (number : Nat) :
    readLines number (before ++ line :: after) =
      .error { line := number + before.length, source } := by
  rw [readLines_append earlier, readLines, kept, failed]
  rfl

theorem readLines_eq_ok_iff {number : Nat} {lines : List String} {es : List Equation} :
    readLines number lines = .ok es ↔
      (∀ line ∈ lines, Passes line) ∧ es = lines.filterMap equation? := by
  have whole (passes : ∀ line ∈ lines, Passes line) :
      readLines number lines = .ok (lines.filterMap equation?) := by
    have read := readLines_append passes [] number
    simpa [readLines, Except.map] using read
  constructor
  · intro read
    rcases passes_or_split lines with passes | ⟨before, line, after, rfl, earlier, blocks⟩
    · exact ⟨passes, Except.ok.inj (read.symm.trans (whole passes))⟩
    · obtain ⟨kept, source, failed⟩ := exists_error_of_not_passes blocks
      rw [readLines_split earlier kept failed] at read
      contradiction
  · rintro ⟨passes, rfl⟩
    exact whole passes

theorem parseLines_eq_ok_iff {lines : List String} {s : LinearSystem} :
    parseLines lines = .ok s ↔
      (∀ line ∈ lines, Passes line) ∧ s.equations = lines.filterMap equation? := by
  have read : readLines 1 lines = .ok s.equations ↔ _ := readLines_eq_ok_iff
  rw [← read]
  obtain ⟨es⟩ := s
  cases stopped : readLines 1 lines <;> simp [parseLines, stopped, Except.map]

/-- Lines that can all be read are read one by one. -/
theorem exists_readLines {α : Type} {items : List α} {line : α → String}
    {means : α → Equation → Prop}
    (each : ∀ a ∈ items, ∃ e, Equation.parse (line a) = .ok e ∧ means a e) (number : Nat) :
    ∃ es, readLines number (items.map line) = .ok es ∧ List.Forall₂ means items es := by
  induction items generalizing number with
  | nil => exact ⟨[], rfl, .nil⟩
  | cons a items ih =>
    obtain ⟨⟨e, parsed, first⟩, later⟩ := List.forall_mem_cons.mp each
    obtain ⟨es, readOthers, others⟩ := ih later (number + 1)
    refine ⟨e :: es, ?_, .cons first others⟩
    rw [List.map_cons, readLines, not_isSkipped_of_parse parsed, parsed, readOthers]
    rfl

theorem isName_of_readLines {number : Nat} {lines : List String} {es : List Equation}
    (read : readLines number lines = .ok es) {e : Equation} (member : e ∈ es) {name : String}
    (stored : name ∈ e.names) : IsName name := by
  obtain ⟨-, rfl⟩ := readLines_eq_ok_iff.mp read
  obtain ⟨line, -, found⟩ := List.mem_filterMap.mp member
  exact isName_of_parse (equation?_eq_some_iff.mp found) stored

theorem isName_of_parseLines {lines : List String} {s : LinearSystem}
    (parsed : parseLines lines = .ok s) {name : String} (member : name ∈ s.unknowns) :
    IsName name := by
  obtain ⟨e, inEquations, nonzero⟩ := (s.mem_unknowns_iff name).mp member
  cases read : readLines 1 lines with
  | error stop => simp [parseLines, read, Except.map] at parsed
  | ok es =>
    obtain rfl : (⟨es⟩ : LinearSystem) = s := by simpa [parseLines, read, Except.map] using parsed
    exact isName_of_readLines read inEquations ((e.mem_names_iff name).mpr nonzero)

end LinearSystem

end ExactLinear
