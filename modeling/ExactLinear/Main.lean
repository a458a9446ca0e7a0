import ExactLinear.CommandLine.Run

/-!
# The command line

Hands the arguments and the files they name to the library, and prints what it answers. Errors
in equations or files are messages like any other and leave the exit code at zero; arguments that
make no request at all give two.
-/

namespace ExactLinear.CommandLine

/-- The reason with a capital letter, and its number, which may come negated. -/
def systemFailure (code : UInt32) (details : String) : ReadFailure :=
  .system details.capitalize (min code (0 - code)).toNat

def readFailure : IO.Error → ReadFailure
  | .noFileOrDirectory _ code details | .inappropriateType _ code details
  | .permissionDenied _ code details | .invalidArgument _ code details
  | .resourceExhausted _ code details | .otherError code details
  | .resourceVanished code details => systemFailure code details
  | error => .system (toString error) 0

def fetch (path : String) : IO (Except ReadFailure ByteArray) := do
  try
    if isStandardInput path then return .ok (← (← IO.getStdin).readBinToEnd)
    return .ok (← IO.FS.readBinFile path)
  catch error => return .error (readFailure error)

end ExactLinear.CommandLine

open ExactLinear.CommandLine in
def main (args : List String) : IO UInt32 := do
  match parseArguments args with
  | .error error =>
    IO.eprintln ("error: " ++ error.message)
    return 2
  | .ok .version => IO.print versionText
  | .ok .help => IO.print helpText
  | .ok (.solve options) =>
    let transcript ← run fetch options
    (transcript.shown options.verbosity).forM fun event => IO.eprintln event.text
    IO.print transcript.stdout
    IO.eprint transcript.message
    return transcript.exitCode.toUInt32
  return 0
