import LSystem.CommandLine.Outcome

/-!
The program: reads the file that the command line names and writes the outcome.
-/

namespace LSystem.CommandLine

/-- The fault with the number of a failed reading, which may be given with a minus sign; what has
another number counts as missing. -/
def faultOf (e : IO.Error) : FileFault :=
  let code : UInt32 :=
    match e with
    | .inappropriateType _ code _ | .noFileOrDirectory _ code _ | .noSuchThing _ code _
    | .invalidArgument _ code _ => code
    | _ => 0
  let faults := [FileFault.notDirectory, .isDirectory, .nameTooLong]
  match faults.find? (fun fault => [code.toNat, (-code).toNat].contains fault.number) with
  | some fault => fault
  | none => .missing

/-- A reader that knows one file. -/
def fileReader (path : String) : IO FileReader := do
  match ← (IO.FS.readBinFile path).toBaseIO with
  | .ok bytes => return fun _ => .ok bytes.toList
  | .error e => return fun _ => .error (faultOf e)

def freshProcess : IO Twister := do
  let bytes ← IO.getRandomBytes 32
  return .ofSeed (bytes.toList.foldl (fun n b => 256 * n + b.toNat) 0)

def Outcome.write (outcome : Outcome) : IO UInt32 := do
  (← IO.getStdout).putStr outcome.stdout
  (← IO.getStderr).putStr outcome.stderr
  match outcome.ending with
  | .exit code => return code.toUInt32
  | .escaped failure =>
      (← IO.getStderr).putStrLn failure.message
      return 1

end LSystem.CommandLine

open LSystem.CommandLine in
def main (arguments : List String) : IO UInt32 := do
  let outcome ← match parse arguments with
    | .error stop => pure stop.outcome
    | .ok invocation => do
        pure (invocation.run (← fileReader invocation.command.path) (← freshProcess))
  outcome.write
