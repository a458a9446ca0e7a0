import ExactLinear.Elimination
import ExactLinear.LinearSystem
import ExactLinear.Number
import ExactLinear.Text

/-!
# Report of a solution

The answer as it is printed: what kind of solution there is and, if it is unique, the values.
-/

namespace ExactLinear

inductive Style where
  /-- Terminating decimals where possible, numerator and denominator otherwise. -/
  | decimal
  /-- Numerator and denominator; integers without a denominator. -/
  | fraction
  deriving DecidableEq, Repr, Inhabited

def Style.format : Style → Rat → Except Fault String
  | .decimal, value => Rational.decimal value
  | .fraction, value => .ok (Rational.fraction value)

namespace Report

def valueLine (style : Style) (entry : String × Rat) : Except Fault String :=
  return entry.1 ++ " = " ++ (← style.format entry.2) ++ "\n"

/-- A line for the kind of solution; below it, for a unique one, a line for each variable in
ascending order. -/
def render (style : Style) : Solution Valuation → Except Fault String
  | .none => .ok "No solutions exist\n"
  | .infinite => .ok "Infinitely many solutions\n"
  | .unique values =>
    return "Unique solution:\n" ++ String.join (← values.entries.mapM (valueLine style))

end Report

/-!
## Log

What a run has to tell about itself: events with a level and named details. An entry takes one
line, or several if there are line breaks in the path it names; the first one has the level.
-/

/-- Each level shows more than the one before it. -/
inductive Level where
  | info
  | debug
  | trace
  deriving DecidableEq, Repr

namespace Level

def label : Level → String
  | .info => "INFO"
  | .debug => "DEBUG"
  | .trace => "TRACE"

/-- The least verbosity at which events of the level are shown. -/
def verbosity : Level → Nat
  | .info => 1
  | .debug => 2
  | .trace => 3

end Level

inductive Detail where
  | count (n : Nat)
  | text (s : String)
  deriving DecidableEq, Repr

def Detail.render : Detail → String
  | .count n => Integer.text n
  | .text s => s

def Pivoting.describe : Pivoting → String
  | .largest => "Partial"
  | .firstNonZero => "FirstNonZero"

inductive Event where
  /-- Equations were read from a file. -/
  | fileRead (path : String) (equations : Nat)
  | solving (equations : Nat) (pivoting : Pivoting)
  | building (equations unknowns : Nat)
  | column (event : ColumnEvent)
  | outcome (outcome : Outcome)
  deriving DecidableEq, Repr

namespace Event

def level : Event → Level
  | .solving .. => .info
  | .fileRead .. | .building .. | .outcome _ => .debug
  | .column _ => .trace

def message : Event → String
  | .fileRead .. => "read equation file"
  | .solving .. => "solving system"
  | .building .. => "building coefficient matrix"
  | .column (.pivot ..) => "pivot selected"
  | .column (.free ..) => "no pivot, free column"
  | .outcome (.inconsistent ..) => "system is inconsistent"
  | .outcome (.underdetermined ..) => "system is underdetermined"
  | .outcome (.determined ..) => "system has a unique solution"

def details : Event → List (String × Detail)
  | .fileRead path equations => [("path", .text path), ("equations", .count equations)]
  | .solving equations pivoting =>
    [("equations", .count equations), ("pivoting", .text pivoting.describe)]
  | .building equations unknowns =>
    [("equations", .count equations), ("variables", .count unknowns)]
  | .column (.pivot col row rank) =>
    [("col", .count col), ("row", .count row), ("rank", .count rank)]
  | .column (.free col rank) => [("col", .count col), ("rank", .count rank)]
  | .outcome (.inconsistent rows cols rank) | .outcome (.determined rows cols rank) =>
    [("rows", .count rows), ("cols", .count cols), ("rank", .count rank)]
  | .outcome (.underdetermined rows cols rank free) =>
    [("rows", .count rows), ("cols", .count cols), ("rank", .count rank), ("free", .count free)]

def text (event : Event) : String :=
  event.level.label ++ " " ++ event.message ++
    String.join (event.details.map fun (name, value) => " " ++ name ++ "=" ++ value.render)

def firstLine (event : Event) : String :=
  Text.trimEnd (String.ofList (event.text.toList.takeWhile (· ≠ '\n')))

/-- The lines that follow the first one, each with its line break. -/
def furtherLines (event : Event) : String :=
  match event.text.toList.dropWhile (· ≠ '\n') with
  | [] => ""
  | _ :: further => String.ofList (further ++ ['\n'])

end Event

def Reduction.events (r : Reduction) : List Event := r.columns.map .column

def Solved.events {α : Type} (solved : Solved α) : List Event :=
  solved.columns.map .column ++ [.outcome solved.outcome]

def LinearSystem.buildEvent (s : LinearSystem) : Event := .building s.size s.unknowns.length

end ExactLinear
