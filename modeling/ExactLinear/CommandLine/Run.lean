import ExactLinear.CommandLine.Arguments
import ExactLinear.LinearSystem
import ExactLinear.Report

/-!
# A run of the command line

The equations of the arguments are read first, then those of the file. Either error ends the
run with a message in place of the report.
-/

namespace ExactLinear.CommandLine

def versionText : String := "gauss 0.1.0\n"

def helpText : String :=
  "Solve a system of linear equations exactly over the rationals\n\n" ++
  "Usage: gauss [OPTIONS] [EQUATIONS]...\n\n" ++
  "Options, which come before the equations:\n" ++
  "  -f, --file <FILE>          read further equations, one a line (- for standard input)\n" ++
  "      --style <STYLE>        decimal (default) or fraction\n" ++
  "      --pivoting <PIVOTING>  partial (default) or first-non-zero\n" ++
  "  -v, --verbose              log more (-v, -vv, -vvv)\n" ++
  "  -h, --help                 print this help\n" ++
  "  -V, --version              print the version\n"

inductive ReadFailure where
  /-- The system's own reason and its number. -/
  | system (reason : String) (code : Nat)
  | notUtf8
  deriving DecidableEq, Repr

namespace ReadFailure

def message : ReadFailure → String
  | .system reason code => reason ++ s!" (os error {code})"
  | .notUtf8 => "stream did not contain valid UTF-8"

def missing : ReadFailure := .system "No such file or directory" 2

end ReadFailure

inductive Failure where
  /-- An equation of the arguments could not be read. -/
  | parse (error : ParseError)
  /-- A line of the file could not be read. -/
  | line (error : LineError)
  | solve (error : SolveError)
  | unreadable (path : String) (reason : ReadFailure)
  /-- A value of the solution could not be written. -/
  | unwritable (cause : Fault)
  deriving DecidableEq, Repr

def Failure.message : Failure → String
  | .parse error => error.message
  | .line error => error.message
  | .solve error => error.message
  | .unreadable path reason => "cannot read " ++ path ++ ": " ++ reason.message
  | .unwritable cause => cause.message?.getD "a value has too many decimal places"

/-- Whether the failure lies in the run itself and not in what it was given. -/
def Failure.isFault : Failure → Bool
  | .parse (.fault _) | .line ⟨_, .fault _⟩ | .solve (.fault _) | .unwritable _ => true
  | _ => false

structure Transcript where
  report : Except Failure String
  events : List Event

namespace Transcript

def failed (failure : Failure) : Transcript := { report := .error failure, events := [] }

def stdout (t : Transcript) : String :=
  match t.report with
  | .ok report => report
  | .error _ => ""

def message (t : Transcript) : String :=
  match t.report with
  | .ok _ => ""
  | .error failure => failure.message ++ "\n"

/-- Errors in equations and files leave the exit code at zero, faults do not. -/
def exitCode (t : Transcript) : Nat :=
  match t.report with
  | .ok _ => 0
  | .error failure => if failure.isFault then 101 else 0

def shown (t : Transcript) (verbosity : Nat) : List Event :=
  t.events.filter (·.level.verbosity ≤ verbosity)

def log (t : Transcript) (verbosity : Nat) : List String :=
  (t.shown verbosity).map Event.firstLine

/-- What stands on standard error and not in the log: the rest of entries that take several lines,
then the message. -/
def stderr (t : Transcript) (verbosity : Nat) : String :=
  String.join ((t.shown verbosity).map Event.furtherLines) ++ t.message

end Transcript

def answer (s : LinearSystem) (pivoting : Pivoting) (style : Style) (before : List Event) :
    Transcript :=
  let begun := before ++ [.solving s.size pivoting, s.buildEvent]
  match s.solve pivoting with
  | .ok solved =>
    let report := (Report.render style solved.solution).mapError .unwritable
    { report, events := begun ++ solved.events }
  | .error error => { report := .error (.solve error), events := begun }

def decode (bytes : Except ReadFailure ByteArray) : Except ReadFailure String :=
  match bytes with
  | .error reason => .error reason
  | .ok bytes =>
    match String.fromUTF8? bytes with
    | some text => .ok text
    | none => .error .notUtf8

def components (path : String) : List String := path.splitOn "/"

def isIdle (component : String) : Bool := component == "" || component == "."

/-- Standard input is named by a single dash, with idle components at most behind it. -/
def isStandardInput (path : String) : Bool :=
  match components path with
  | first :: others => first == "-" && others.all isIdle
  | [] => false

/-- Solves the equations of the arguments and the file, which `read` fetches when it comes to it.
-/
def run {μ : Type → Type} [Monad μ] (read : String → μ (Except ReadFailure ByteArray))
    (o : Options) : μ Transcript := do
  let pivoting := o.pivoting.getD .largest
  let style := o.style.getD .decimal
  match LinearSystem.ofTexts o.equations with
  | .error error => return .failed (.parse error)
  | .ok given =>
    match o.file with
    | none => return answer given pivoting style []
    | some path =>
      match decode (← read path) with
      | .error reason => return .failed (.unreadable path reason)
      | .ok text =>
        match LinearSystem.parseText text with
        | .error error => return .failed (.line error)
        | .ok more => return answer (given ++ more) pivoting style [.fileRead path more.size]

end ExactLinear.CommandLine
