import ExactLinear.Proofs.LineReading
import Mathlib.Order.Bounds.Basic

/-! What is read from lines, and which line is to blame. Skipped lines hold no equation, so none is
lost with them; they count when a line is named, and apart from that it makes no difference where
they stand. -/
namespace ExactLinear.LinearSystem

/-- A line is skipped if it has nothing but blanks, or a `#` behind them. -/
theorem isSkipped_iff (line : String) :
    isSkipped line ↔ (∀ c ∈ line.toList, Text.isBlank c) ∨
      ∃ blanks rest, line.toList = blanks ++ '#' :: rest ∧ ∀ c ∈ blanks, Text.isBlank c := by
  have parts := List.takeWhile_append_dropWhile (p := Text.isBlank) (l := line.toList)
  constructor
  · intro skipped
    unfold isSkipped Text.skipBlanks at skipped
    split at skipped
    next nothing => exact .inl (List.dropWhile_eq_nil_iff.mp nothing)
    next c rest shape =>
      obtain rfl : c = '#' := by simpa using skipped
      rw [shape] at parts
      exact .inr ⟨_, rest, parts.symm, fun d => List.mem_takeWhile_imp⟩
  · rintro (blank | ⟨blanks, rest, shape, blank⟩)
    · simp [isSkipped, Text.skipBlanks, List.dropWhile_eq_nil_iff.mpr blank]
    · have stops : Stops Text.isBlank ('#' :: rest) := by simp [Stops, Text.isBlank]
      simp [isSkipped, Text.skipBlanks, shape, dropWhile_append_of_stops blank stops]

section Blame

variable {lines before after : List String} {line : String} {error : LineError}

/-- The line of this number, counted from one, is neither skipped nor an equation. -/
def BlockedAt (lines : List String) (number : Nat) : Prop :=
  ∃ i line, number = i + 1 ∧ lines[i]? = some line ∧ ¬ Passes line

theorem parseLines_split {source : ParseError} (earlier : ∀ passed ∈ before, Passes passed)
    (kept : isSkipped line = false) (failed : Equation.parse line = .error source) :
    parseLines (before ++ line :: after) = .error { line := before.length + 1, source } := by
  rw [parseLines, readLines_split earlier kept failed, Nat.add_comm]
  rfl

/-- Reading that fails has met a first line that does not pass. -/
theorem exists_split (stopped : parseLines lines = .error error) :
    ∃ before line after, lines = before ++ line :: after ∧
      (∀ earlier ∈ before, Passes earlier) ∧ ¬ Passes line ∧
      Equation.parse line = .error error.source ∧ error.line = before.length + 1 := by
  rcases passes_or_split lines with passes | ⟨before, line, after, rfl, earlier, blocks⟩
  · have read : parseLines lines = .ok ⟨_⟩ := parseLines_eq_ok_iff.mpr ⟨passes, rfl⟩
    rw [read] at stopped
    contradiction
  · obtain ⟨kept, source, failed⟩ := exists_error_of_not_passes blocks
    rw [parseLines_split earlier kept failed] at stopped
    obtain rfl := Except.error.inj stopped
    exact ⟨before, line, after, rfl, earlier, blocks, failed, rfl⟩

theorem isLeast_blockedAt (earlier : ∀ passed ∈ before, Passes passed) (blocks : ¬ Passes line) :
    IsLeast {number | BlockedAt (before ++ line :: after) number} (before.length + 1) := by
  constructor
  · exact ⟨before.length, line, rfl, by simp, blocks⟩
  · rintro number ⟨i, other, rfl, found, otherBlocks⟩
    by_contra less
    have inside : i < before.length := by omega
    rw [List.getElem?_append_left inside] at found
    exact otherBlocks (earlier other (List.mem_of_getElem? found))

theorem parseLines_eq_error_iff :
    parseLines lines = .error error ↔ IsLeast {number | BlockedAt lines number} error.line ∧
      ∃ line, lines[error.line - 1]? = some line ∧ Equation.parse line = .error error.source := by
  constructor
  · intro stopped
    obtain ⟨before, line, after, rfl, earlier, blocks, failed, number⟩ := exists_split stopped
    rw [number]
    exact ⟨isLeast_blockedAt earlier blocks, line, by simp, failed⟩
  · rintro ⟨least, line, found, failed⟩
    rcases passes_or_split lines with passes | ⟨before, first, after, rfl, earlier, blocks⟩
    · obtain ⟨i, other, -, member, otherBlocks⟩ := least.1
      exact absurd (passes other (List.mem_of_getElem? member)) otherBlocks
    · have number := least.unique (isLeast_blockedAt earlier blocks)
      obtain rfl : first = line := by simpa [number] using found
      rw [parseLines_split earlier (exists_error_of_not_passes blocks).1 failed, ← number]

end Blame

section Insertion

/-- Lines with marks, some of them inserted among the others. -/
abbrev MarkedLines := List (String × Bool)

namespace MarkedLines

def all (marked : MarkedLines) : List String := marked.map (·.1)

def kept (marked : MarkedLines) : List String := (marked.filter fun entry => !entry.2).map (·.1)

/-- How many of the lines before the one of the given number are marked. -/
def insertedBefore (marked : MarkedLines) (number : Nat) : Nat :=
  (marked.take (number - 1)).countP (·.2)

end MarkedLines

/-- The same equations, or the same error in a line that as many lines were inserted before as its
number has grown. -/
inductive Shifted (marked : MarkedLines) :
    Except LineError LinearSystem → Except LineError LinearSystem → Prop
  | read (s : LinearSystem) : Shifted marked (.ok s) (.ok s)
  | stopped {number : Nat} {shifted : Nat} (source : ParseError)
      (grown : shifted = number + marked.insertedBefore shifted) :
      Shifted marked (.error ⟨number, source⟩) (.error ⟨shifted, source⟩)

variable {marked : MarkedLines}

/-- Marked lines hold no equation if all of them are skipped. -/
theorem filterMap_kept (skipped : ∀ entry ∈ marked, entry.2 → isSkipped entry.1) :
    marked.kept.filterMap equation? = marked.all.filterMap equation? := by
  induction marked with
  | nil => rfl
  | cons entry marked ih =>
    obtain ⟨first, others⟩ := List.forall_mem_cons.mp skipped
    have rest := ih others
    obtain ⟨line, mark⟩ := entry
    cases mark with
    | true =>
      simpa [MarkedLines.kept, MarkedLines.all, equation?_of_isSkipped (first rfl)] using rest
    | false => simp_all [MarkedLines.kept, MarkedLines.all, List.filterMap_cons]

theorem length_kept (marked : MarkedLines) :
    marked.length = marked.kept.length + marked.countP (·.2) := by
  have counts := List.length_eq_countP_add_countP (l := marked) fun entry => entry.2
  simp [MarkedLines.kept, ← List.countP_eq_length_filter, counts, Nat.add_comm]

theorem mem_all_of_mem_kept {line : String} (member : line ∈ marked.kept) : line ∈ marked.all := by
  obtain ⟨entry, inside, rfl⟩ := List.mem_map.mp member
  exact List.mem_map_of_mem (List.mem_of_mem_filter inside)

theorem parseLines_shifted (skipped : ∀ entry ∈ marked, entry.2 → isSkipped entry.1) :
    Shifted marked (parseLines marked.kept) (parseLines marked.all) := by
  rcases passes_or_split marked.all with passes | ⟨before, line, after, shape, earlier, blocks⟩
  · have read : parseLines marked.all = .ok ⟨_⟩ := parseLines_eq_ok_iff.mpr ⟨passes, rfl⟩
    have readKept : parseLines marked.kept = .ok ⟨_⟩ :=
      parseLines_eq_ok_iff.mpr ⟨fun line member => passes line (mem_all_of_mem_kept member), rfl⟩
    rw [read, readKept, filterMap_kept skipped]
    exact .read _
  · obtain ⟨front, rest, rfl, rfl, tail⟩ := List.map_eq_append_iff.mp shape
    obtain ⟨⟨line, mark⟩, back, rfl, rfl, rfl⟩ := List.map_eq_cons_iff.mp tail
    obtain ⟨notSkipped, source, failed⟩ := exists_error_of_not_passes blocks
    -- the line to blame is not skipped, so it was there before
    have unmarked : mark = false := by
      by_contra marked
      have := skipped (line, mark) (by simp) (by simpa using marked)
      rw [notSkipped] at this
      contradiction
    subst unmarked
    have split : MarkedLines.kept (front ++ (line, false) :: back) =
        MarkedLines.kept front ++ line :: MarkedLines.kept back := by
      simp [MarkedLines.kept]
    have earlierKept : ∀ passed ∈ MarkedLines.kept front, Passes passed :=
      fun passed member => earlier passed (mem_all_of_mem_kept member)
    rw [split, shape, parseLines_split earlierKept notSkipped failed,
      parseLines_split earlier notSkipped failed]
    have inserted : MarkedLines.insertedBefore (front ++ (line, false) :: back)
        ((front.map (·.1)).length + 1) = front.countP (·.2) := by
      simp [MarkedLines.insertedBefore]
    refine .stopped source ?_
    rw [inserted, List.length_map, length_kept front]
    omega

end Insertion

/-- Skipped lines could not be read as equations, so a system is read exactly if every line is
skipped or an equation, and then it has the equations of all lines that are. Otherwise the first
line that is neither is to blame, with the error that it has for itself. Skipped lines that are
inserted anywhere, or taken out, change nothing but its number. -/
theorem parseLines_blames_first :
    (∀ line, isSkipped line ↔ (∀ c ∈ line.toList, Text.isBlank c) ∨
      ∃ blanks rest, line.toList = blanks ++ '#' :: rest ∧ ∀ c ∈ blanks, Text.isBlank c) ∧
    (∀ line, isSkipped line → ∃ source, Equation.parse line = .error source) ∧
    (∀ lines s, parseLines lines = .ok s ↔
      (∀ line ∈ lines, isSkipped line ∨ ∃ e, Equation.parse line = .ok e) ∧
        s.equations = lines.filterMap fun line => (Equation.parse line).toOption) ∧
    (∀ lines error, parseLines lines = .error error ↔
      IsLeast {number | BlockedAt lines number} error.line ∧
        ∃ line, lines[error.line - 1]? = some line ∧
          Equation.parse line = .error error.source) ∧
    ∀ marked : MarkedLines, (∀ entry ∈ marked, entry.2 → isSkipped entry.1) →
      Shifted marked (parseLines marked.kept) (parseLines marked.all) := by
  refine ⟨isSkipped_iff, fun line skipped => ?_, fun _ _ => parseLines_eq_ok_iff,
    fun _ _ => parseLines_eq_error_iff, fun _ => parseLines_shifted⟩
  cases parsed : Equation.parse line with
  | error source => exact ⟨source, rfl⟩
  | ok e =>
    rw [not_isSkipped_of_parse parsed] at skipped
    contradiction

/-- A comment and a blank line move the line to blame from the second place to the fourth. -/
theorem parseLines_blames_first_shifted :
    Shifted [("# axes", true), ("x = 1", false), (" \t", true), ("x +", false)]
      (.error ⟨2, .unexpected none 3 .natural .digit⟩)
      (.error ⟨4, .unexpected none 3 .natural .digit⟩) := by
  have shifted := parseLines_blames_first.2.2.2.2
    [("# axes", true), ("x = 1", false), (" \t", true), ("x +", false)] (by decide)
  have stops {lines : List String} {error : LineError} (shown :
      (match parseLines lines with | .error e => some e | .ok _ => none) = some error) :
      parseLines lines = .error error := by
    cases stopped : parseLines lines <;> simp_all
  have short : parseLines ["x = 1", "x +"] = .error ⟨2, .unexpected none 3 .natural .digit⟩ :=
    stops (by decide +kernel)
  have long : parseLines ["# axes", "x = 1", " \t", "x +"] =
      .error ⟨4, .unexpected none 3 .natural .digit⟩ := stops (by decide +kernel)
  exact short ▸ long ▸ shifted

end ExactLinear.LinearSystem
