import ExactLinear.Elimination
import ExactLinear.Report

/-!
# Arguments of the command line

Options come first, and from the first equation on every argument is one, whatever it looks
like. Since an equation may well start with a minus sign, an argument with one dash is read as
a cluster of short options only if all its letters are options, and an unknown word behind two
dashes is an equation.
-/

namespace ExactLinear.CommandLine

inductive ValueOption where
  | file
  | style
  | pivoting
  deriving DecidableEq, Repr

inductive UsageError where
  | missingValue (option : ValueOption)
  | invalidValue (option : ValueOption) (value : String)
  | repeated (option : ValueOption)
  /-- A value was given to an option that takes none. -/
  | needlessValue (word : String)
  deriving DecidableEq, Repr

def ValueOption.word : ValueOption → String
  | .file => "--file"
  | .style => "--style"
  | .pivoting => "--pivoting"

def UsageError.message : UsageError → String
  | .missingValue option => "a value is required for " ++ option.word
  | .invalidValue option value => "invalid value '" ++ value ++ "' for " ++ option.word
  | .repeated option => option.word ++ " cannot be used more than once"
  | .needlessValue word => "--" ++ word ++ " takes no value"

structure Options where
  file : Option String := none
  style : Option Style := none
  pivoting : Option Pivoting := none
  verbosity : Nat := 0
  equations : List String := []
  deriving DecidableEq, Repr

inductive Request where
  | solve (options : Options)
  | version
  | help
  deriving DecidableEq, Repr

/-- What an argument in front of the first equation asks for, once its flags `v` are counted. -/
inductive Action where
  /-- Nothing beyond those flags. -/
  | proceed
  | version
  | help
  /-- An option, with a value if that is part of the argument. -/
  | option (option : ValueOption) (attached : Option String)
  deriving DecidableEq, Repr

inductive Argument where
  /-- `--`: every further argument is an equation. -/
  | separator
  | equation
  | flags (verbosity : Nat) (action : Action)
  | needless (word : String)
  deriving DecidableEq, Repr

def isShortOption (c : Char) : Bool := c == 'v' || c == 'f' || c == 'h' || c == 'V'

/-- Reads a cluster of short options, with `count` flags `v` read before. What follows an `f` is
its value. -/
def cluster (count : Nat) : List Char → Argument
  | [] => .flags count .proceed
  | c :: cs =>
    if c = 'f' then .flags count (.option .file (if cs = [] then none else some (String.ofList cs)))
    else if c = 'h' then .flags count .help
    else if c = 'V' then .flags count .version
    else cluster (count + 1) cs

def longOption (word : String) (value : Option String) : Argument :=
  match word, value with
  | "file", _ => .flags 0 (.option .file value)
  | "style", _ => .flags 0 (.option .style value)
  | "pivoting", _ => .flags 0 (.option .pivoting value)
  | "verbose", none => .flags 1 .proceed
  | "version", none => .flags 0 .version
  | "help", none => .flags 0 .help
  | "verbose", some _ | "version", some _ | "help", some _ => .needless word
  | _, _ => .equation

def afterEquals : List Char → Option String
  | '=' :: value => some (String.ofList value)
  | _ => none

def classify (arg : String) : Argument :=
  match arg.toList with
  | ['-', '-'] => .separator
  | '-' :: '-' :: cs =>
    longOption (String.ofList (cs.takeWhile (· ≠ '='))) (afterEquals (cs.dropWhile (· ≠ '=')))
  | '-' :: c :: cs => if (c :: cs).all isShortOption then cluster 0 (c :: cs) else .equation
  | _ => .equation

def styleOfText? : String → Option Style
  | "decimal" => some .decimal
  | "fraction" => some .fraction
  | _ => none

def pivotingOfText? : String → Option Pivoting
  | "partial" => some .largest
  | "first-non-zero" => some .firstNonZero
  | _ => none

def pathOfText? (value : String) : Option String := if value = "" then none else some value

def assign {α : Type} (option : ValueOption) (given : Option α) (read : String → Option α)
    (value : String) : Except UsageError (Option α) :=
  match read value with
  | none => .error (.invalidValue option value)
  | some a => if given.isSome then .error (.repeated option) else .ok (some a)

namespace Options

def set (o : Options) (option : ValueOption) (value : String) : Except UsageError Options :=
  match option with
  | .file => do return { o with file := ← assign option o.file pathOfText? value }
  | .style => do return { o with style := ← assign option o.style styleOfText? value }
  | .pivoting => do return { o with pivoting := ← assign option o.pivoting pivotingOfText? value }

/-- Reads the arguments that follow those already in `o`. The argument behind an option that
wants a value is that value exactly when, standing alone, it would be an equation. -/
def read (o : Options) : List String → Except UsageError Request
  | [] => .ok (.solve o)
  | arg :: args =>
    match classify arg with
    | .separator => .ok (.solve { o with equations := args })
    | .equation => .ok (.solve { o with equations := arg :: args })
    | .needless word => .error (.needlessValue word)
    | .flags verbosity action =>
      let o := { o with verbosity := o.verbosity + verbosity }
      match action with
      | .proceed => o.read args
      | .version => .ok .version
      | .help => .ok .help
      | .option option (some value) => do (← o.set option value).read args
      | .option option none =>
        match args with
        | [] => .error (.missingValue option)
        | value :: args =>
          if classify value = .equation then do (← o.set option value).read args
          else .error (.missingValue option)

end Options

def parseArguments (args : List String) : Except UsageError Request := ({} : Options).read args

end ExactLinear.CommandLine
