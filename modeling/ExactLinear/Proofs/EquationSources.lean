import ExactLinear.CommandLine.Run
import ExactLinear.Proofs.LineErrors
import ExactLinear.Proofs.ReportText
import ExactLinear.Proofs.TrailingBlanks

/-! Equations from arguments and from a file. The lines of a file are the texts it was made of, but
for carriage returns at their ends, and to the reader those are blanks. So the report depends on the
texts alone, whichever way each of them was handed over and whichever pivots were chosen. -/
namespace ExactLinear

namespace Text

/-- The line that is cut out of a file for a text: a carriage return at its end may be lost. -/
inductive Ended : String → String → Prop
  | whole (text : String) : Ended text text
  | returned (line : List Char) : Ended (String.ofList (line ++ ['\r'])) (String.ofList line)

theorem ended_dropReturn (text : String) :
    Ended text (String.ofList (dropReturn text.toList.reverse).reverse) := by
  unfold dropReturn
  split
  next line shape =>
    have cut : text = String.ofList (line.reverse ++ ['\r']) := by
      rw [← List.reverse_cons, ← shape, List.reverse_reverse, String.ofList_toList]
    rw [cut]
    exact .returned line.reverse
  next =>
    rw [List.reverse_reverse, String.ofList_toList]
    exact .whole text

theorem lines_append {text : String} (whole : '\n' ∉ text.toList) (rest : String) :
    lines (text ++ "\n" ++ rest) =
      String.ofList (dropReturn text.toList.reverse).reverse :: lines rest := by
  simp [lines, linesFrom_append whole]

theorem lines_single {text : String} (whole : '\n' ∉ text.toList) (nonempty : text ≠ "") :
    lines text = [text] := by
  have collected := linesFrom_collect whole [] []
  simp_all [lines, linesFrom]

/-- Joined texts come apart at the same places. -/
theorem forall₂_ended_lines {texts : List String}
    (whole : ∀ text ∈ texts, '\n' ∉ text.toList ∧ text ≠ "") :
    List.Forall₂ Ended texts (lines ("\n".intercalate texts)) := by
  induction texts with
  | nil => exact .nil
  | cons text texts ih =>
    obtain ⟨⟨first, nonempty⟩, others⟩ := List.forall_mem_cons.mp whole
    cases texts with
    | nil =>
      -- no line feed follows the last text, so it keeps what it ends in
      rw [String.intercalate_singleton, lines_single first nonempty]
      exact .cons (.whole text) .nil
    | cons next texts =>
      rw [String.intercalate_cons_cons, lines_append first]
      exact .cons (ended_dropReturn text) (ih others)

end Text

namespace LinearSystem

open Text (Ended)

theorem equation?_of_ended {text line : String} (ended : Ended text line) :
    equation? line = equation? text := by
  cases ended with
  | whole => rfl
  | returned line =>
    apply Option.ext
    intro e
    rw [equation?_eq_some_iff, equation?_eq_some_iff, parse_append_blank line rfl]

theorem isSkipped_of_ended {text line : String} (ended : Ended text line) :
    isSkipped line = isSkipped text := by
  cases ended with
  | whole => rfl
  | returned line => rw [isSkipped_append_blank line rfl]

/-- Lines are read as the texts they were cut out for. -/
theorem parseLines_of_ended {texts lines : List String} (ended : List.Forall₂ Ended texts lines)
    (s : LinearSystem) : parseLines lines = .ok s ↔ parseLines texts = .ok s := by
  have passes {text line : String} (pair : Ended text line) : Passes line ↔ Passes text := by
    simp only [Passes, ← equation?_eq_some_iff, equation?_of_ended pair, isSkipped_of_ended pair]
  have alike : ((∀ line ∈ lines, Passes line) ↔ ∀ text ∈ texts, Passes text) ∧
      lines.filterMap equation? = texts.filterMap equation? := by
    induction ended with
    | nil => exact ⟨Iff.rfl, rfl⟩
    | cons first _ ih =>
      simp only [List.forall_mem_cons, List.filterMap_cons, passes first,
        equation?_of_ended first, ih, and_self]
  rw [parseLines_eq_ok_iff, parseLines_eq_ok_iff, alike.1, alike.2]

/-- Texts that could stand in a file as lines of equations. -/
def Plain (texts : List String) : Prop :=
  ∀ text ∈ texts, '\n' ∉ text.toList ∧ isSkipped text = false

def Accepted (texts : List String) : Prop := ∀ text ∈ texts, ∃ e, Equation.parse text = .ok e

def system (texts : List String) : LinearSystem := ⟨texts.filterMap equation?⟩

theorem system_append (texts others : List String) :
    system texts ++ system others = system (texts ++ others) := by
  rw [system, system, system, List.filterMap_append]
  rfl

theorem mapM_parse {texts : List String} (accepted : Accepted texts) :
    texts.mapM Equation.parse = .ok (texts.filterMap equation?) := by
  induction texts with
  | nil => rfl
  | cons text texts ih =>
    obtain ⟨⟨e, parsed⟩, others⟩ := List.forall_mem_cons.mp accepted
    rw [List.mapM_cons, parsed, ih others,
      List.filterMap_cons_some (equation?_eq_some_iff.mpr parsed)]
    rfl

theorem ofTexts_eq_ok_iff {texts : List String} {s : LinearSystem} :
    ofTexts texts = .ok s ↔ Accepted texts ∧ s = system texts := by
  have whole (accepted : Accepted texts) : ofTexts texts = .ok (system texts) := by
    rw [ofTexts, mapM_parse accepted]
    rfl
  constructor
  · intro read
    obtain ⟨es, parsed, -⟩ := bind_eq_ok_iff.mp read
    have accepted : Accepted texts := exists_ok_of_mapM parsed
    exact ⟨accepted, Except.ok.inj (read.symm.trans (whole accepted))⟩
  · rintro ⟨accepted, rfl⟩
    exact whole accepted

theorem parseText_eq_ok_iff {texts : List String} (plain : Plain texts) {s : LinearSystem} :
    parseText ("\n".intercalate texts) = .ok s ↔ Accepted texts ∧ s = system texts := by
  have ended := Text.forall₂_ended_lines fun text member => by
    refine ⟨(plain text member).1, ?_⟩
    rintro rfl
    exact absurd (plain "" member).2 (by decide)
  have accepted : (∀ text ∈ texts, Passes text) ↔ Accepted texts := by
    refine forall₂_congr fun text member => ?_
    simp [Passes, (plain text member).2]
  rw [parseText, parseLines_of_ended ended, parseLines_eq_ok_iff, accepted]
  obtain ⟨es⟩ := s
  simp [system]

end LinearSystem

namespace CommandLine

open LinearSystem (Plain Accepted system)

/-- The call gets the texts: all as arguments, or the last of them, joined as lines, from a file. -/
inductive Supplies (read : String → Id (Except ReadFailure ByteArray)) (texts : List String)
    (o : Options) : Prop
  | arguments (fileless : o.file = none) (given : o.equations = texts)
  | file (path : String) (rest : List String) (named : o.file = some path)
      (given : o.equations ++ rest = texts)
      (stored : (read path).run = .ok ("\n".intercalate rest).toUTF8)

theorem decode_toUTF8 (text : String) : decode (.ok text.toUTF8) = .ok text := by
  have valid : String.fromUTF8? text.toUTF8 = some text := dif_pos text.isValidUTF8
  simp only [decode, valid]

section Answer

variable (s : LinearSystem) (style : Style)

/-- The right answer to the system, written in the style. -/
def Reports (report : String) : Prop :=
  ∃ solution, s.Answers solution ∧ Report.render style solution = .ok report

def Presentable : Prop :=
  ∀ values, s.Answers (.unique values) → ∀ entry ∈ values.entries, style.Writes entry.2

theorem answer_eq_ok_iff (pivoting : Pivoting) (before : List Event) (report : String) :
    (answer s pivoting style before).report = .ok report ↔ Reports s style report := by
  obtain ⟨solved, ran, answers⟩ := s.solve_answers pivoting
  have shown : (answer s pivoting style before).report =
      (Report.render style solved.solution).mapError .unwritable := by
    simp only [answer, ran]
  rw [shown]
  constructor
  · intro written
    refine ⟨solved.solution, answers, ?_⟩
    cases rendered : Report.render style solved.solution with
    | error cause => simp [rendered, Except.mapError] at written
    | ok text => simpa [rendered, Except.mapError] using written
  · rintro ⟨solution, right, rendered⟩
    rw [answers.eq right, rendered]
    rfl

theorem exists_reports_iff : (∃ report, Reports s style report) ↔ Presentable s style := by
  constructor
  · rintro ⟨report, solution, answers, rendered⟩ values unique
    obtain rfl := answers.eq unique
    exact Report.writes_of_render rendered
  · intro presentable
    obtain ⟨solved, -, answers⟩ := s.solve_answers .largest
    cases kind : solved.solution with
    | none => exact ⟨_, .none, kind ▸ answers, rfl⟩
    | infinite => exact ⟨_, .infinite, kind ▸ answers, rfl⟩
    | unique values =>
      rw [kind] at answers
      have written := mapM_eq_ok_map fun entry member =>
        Report.valueLine_eq (presentable values answers entry member)
      exact ⟨_, .unique values, answers, by rw [Report.render, written]; rfl⟩

end Answer

section Run

variable {read : String → Id (Except ReadFailure ByteArray)} {texts : List String} {o : Options}

theorem run_of_accepted (supplies : Supplies read texts o) (plain : Plain texts)
    (accepted : Accepted texts) :
    ∃ before, Id.run (run read o) =
      answer (system texts) (o.pivoting.getD .largest) (o.style.getD .decimal) before := by
  cases supplies with
  | arguments fileless given =>
    have parsed := LinearSystem.ofTexts_eq_ok_iff.mpr ⟨accepted, rfl⟩
    exact ⟨[], by simp [run, given, parsed, fileless]⟩
  | file path rest named given stored =>
    subst given
    obtain ⟨first, second⟩ := List.forall_mem_append.mp accepted
    have parsed := LinearSystem.ofTexts_eq_ok_iff.mpr ⟨first, rfl⟩
    have plainRest : Plain rest := (List.forall_mem_append.mp plain).2
    have parsedRest := (LinearSystem.parseText_eq_ok_iff plainRest).mpr ⟨second, rfl⟩
    have decoded := stored ▸ decode_toUTF8 ("\n".intercalate rest)
    refine ⟨[.fileRead path (system rest).size], ?_⟩
    simp [run, parsed, named, decoded, parsedRest, LinearSystem.system_append]

theorem run_of_not_accepted (supplies : Supplies read texts o) (plain : Plain texts)
    (rejected : ¬ Accepted texts) : ∃ failure, Id.run (run read o) = .failed failure := by
  cases parsed : LinearSystem.ofTexts o.equations with
  | error error => exact ⟨.parse error, by simp [run, parsed]⟩
  | ok given =>
    obtain ⟨first, -⟩ := LinearSystem.ofTexts_eq_ok_iff.mp parsed
    cases supplies with
    | arguments fileless given => exact absurd (given ▸ first) rejected
    | file path rest named given stored =>
      subst given
      have plainRest : Plain rest := (List.forall_mem_append.mp plain).2
      cases parsedRest : LinearSystem.parseText ("\n".intercalate rest) with
      | error error =>
        have decoded := stored ▸ decode_toUTF8 ("\n".intercalate rest)
        exact ⟨.line error, by simp [run, parsed, named, decoded, parsedRest]⟩
      | ok more =>
        obtain ⟨second, -⟩ := (LinearSystem.parseText_eq_ok_iff plainRest).mp parsedRest
        exact absurd (List.forall_mem_append.mpr ⟨first, second⟩) rejected

theorem run_eq_ok_iff (supplies : Supplies read texts o) (plain : Plain texts) (report : String) :
    (Id.run (run read o)).report = .ok report ↔
      Accepted texts ∧ Reports (system texts) (o.style.getD .decimal) report := by
  by_cases accepted : Accepted texts
  · obtain ⟨before, ran⟩ := run_of_accepted supplies plain accepted
    rw [ran, answer_eq_ok_iff, and_iff_right accepted]
  · obtain ⟨failure, ran⟩ := run_of_not_accepted supplies plain accepted
    simp [ran, Transcript.failed, accepted]

end Run

/-- A call reports exactly if it could read each of the texts for itself and the values of the
solution, if it is unique, can be written. What it reports is the answer to the texts in the style,
and nothing else of the call is seen in it: neither the pivots nor which of the texts were arguments
and which stood in the file. -/
theorem run_depends_on_texts {texts : List String} (plain : Plain texts) :
    (∀ read o, Supplies read texts o →
      (∀ report, (Id.run (run read o)).report = .ok report ↔
        (∀ text ∈ texts, ∃ e, Equation.parse text = .ok e) ∧
          Reports (system texts) (o.style.getD .decimal) report) ∧
      ((∃ report, (Id.run (run read o)).report = .ok report) ↔
        (∀ text ∈ texts, ∃ e, Equation.parse text = .ok e) ∧
          Presentable (system texts) (o.style.getD .decimal))) ∧
    ∀ read o read' o', Supplies read texts o → Supplies read' texts o' →
      o.style.getD .decimal = o'.style.getD .decimal →
      (Id.run (run read o)).report.toOption = (Id.run (run read' o')).report.toOption := by
  refine ⟨fun read o supplies => ⟨run_eq_ok_iff supplies plain, ?_⟩, ?_⟩
  · rw [← exists_reports_iff, ← exists_and_left]
    exact exists_congr (run_eq_ok_iff supplies plain)
  · intro read o read' o' supplies supplies' style
    have toOption {ran : Except Failure String} (report : String) :
        ran.toOption = some report ↔ ran = .ok report := by
      cases ran <;> simp [Except.toOption]
    apply Option.ext
    intro report
    rw [toOption, toOption, run_eq_ok_iff supplies plain, run_eq_ok_iff supplies' plain, style]

/-- Two texts with a carriage return between them, from a file and as arguments. -/
theorem run_depends_on_texts_file :
    Plain ["x + y = 3\r", "x - y = 1"] ∧
      (Id.run (run (fun _ => pure (.ok "x + y = 3\r\nx - y = 1".toUTF8))
        { file := some "plane", pivoting := some .firstNonZero })).report.toOption =
          some "Unique solution:\nx = 2\ny = 1\n" := by
  have plain : Plain ["x + y = 3\r", "x - y = 1"] := by
    unfold Plain
    decide
  refine ⟨plain, ?_⟩
  have same := (run_depends_on_texts plain).2
    (fun _ => pure (.ok "x + y = 3\r\nx - y = 1".toUTF8))
    { file := some "plane", pivoting := some .firstNonZero }
    (fun _ => pure (.error .missing)) { equations := ["x + y = 3\r", "x - y = 1"] }
    (.file "plane" ["x + y = 3\r", "x - y = 1"] rfl rfl rfl) (.arguments rfl rfl) rfl
  rw [same]
  decide +kernel

def powerText (places : Nat) : String :=
  String.ofList (Report.lineChars .fraction ("x", ((2 ^ places : Nat) : Rat)⁻¹))

theorem powerText_reads (places : Nat) (few : places < Reader.mostDigits) :
    Plain [powerText places] ∧ Accepted [powerText places] ∧
      (system [powerText places]).Answers
        (.unique (.ofList [("x", ((2 ^ places : Nat) : Rat)⁻¹)])) := by
  have short : ¬ LongRun (Style.fraction.chars ((2 ^ places : Nat) : Rat)⁻¹) :=
    Rational.not_longRun_fractionChars_inv_two_pow few
  generalize value : ((2 ^ places : Nat) : Rat)⁻¹ = r at short
  have named : Grammar.IsName "x" := ⟨⟨'x', [], by decide, by simp⟩, by decide⟩
  have text : powerText places = String.ofList (Report.lineChars .fraction ("x", r)) := by
    rw [powerText, value]
  obtain ⟨e, parsed, defines⟩ :
      ∃ e, Equation.parse (powerText places) = .ok e ∧ Defines ("x", r) e := by
    rw [text]
    exact Report.exists_parse_line named short
  have read : system [powerText places] = ⟨[e]⟩ := by
    simp [system, LinearSystem.equation?_eq_some_iff.mpr parsed]
  have unbroken : '\n' ∉ (powerText places).toList := by
    rw [text, String.toList_ofList]
    exact (Report.unbroken_lineChars named).not_mem
  refine ⟨List.forall_mem_singleton.mpr ⟨unbroken, LinearSystem.not_isSkipped_of_parse parsed⟩,
    List.forall_mem_singleton.mpr ⟨e, parsed⟩, ?_⟩
  rw [read]
  exact LinearSystem.answers_of_defines (.cons defines .nil)

/-- The equation can be read, but its value has one place too many for the default style. -/
theorem run_value_too_long :
    Plain [powerText 65535] ∧ (∀ text ∈ [powerText 65535], ∃ e, Equation.parse text = .ok e) ∧
      ¬ ∃ report, (Id.run (run (fun _ => pure (.error .missing))
        { equations := [powerText 65535] })).report = .ok report := by
  obtain ⟨plain, accepted, answers⟩ := powerText_reads 65535 (by decide)
  refine ⟨plain, accepted, ?_⟩
  rintro ⟨report, ran⟩
  obtain ⟨-, shown⟩ := (run_eq_ok_iff (.arguments rfl rfl) plain report).mp ran
  have presentable := (exists_reports_iff _ _).mp ⟨report, shown⟩
  have writes := presentable _ answers _ List.mem_cons_self rfl
  have := (Rational.writable_inv_two_pow_iff 65535).mp writes
  omega

end CommandLine

end ExactLinear
