import LSystem.CommandLine.Help
import LSystem.CommandLine.Report

/-!
What a command line writes to both streams, and how it ends.
-/

namespace LSystem.CommandLine

/-- A program ends with a code, or with a failure that it does not report. -/
inductive Ending where
  | exit (code : Nat)
  | escaped (failure : Failure)

structure Outcome where
  stdout : String
  stderr : String
  ending : Ending

/-- The code of a program that refuses its arguments or reports a failure. -/
def failureCode : Nat := 2

def Stop.outcome : Stop → Outcome
  | help parser => ⟨parser.help, "", .exit 0⟩
  | usage parser fault =>
      ⟨"", parser.usage ++ parser.name ++ ": error: " ++ fault.message ++ "\n", .exit failureCode⟩

def logLine (record : LogRecord) : String :=
  "DEBUG lsystem_expander: " ++ record.message ++ "\n"

/-- The records are written only if they are asked for. -/
def Report.outcome (verbose : Bool) (report : Report) : Outcome :=
  let log := if verbose then String.join (report.log.map logLine) else ""
  match report.result with
  | .ok output => ⟨output, log, .exit 0⟩
  | .error failure =>
      match failure.title? with
      | some title => ⟨"", log ++ title ++ failure.message ++ "\n", .exit failureCode⟩
      | none => ⟨"", log, .escaped failure⟩

def Invocation.run (files : FileReader) (process : Twister) (invocation : Invocation) : Outcome :=
  (invocation.command.report files process).outcome invocation.verbose

/-- Runs a command line on some files. A seed that is not given is taken from the generator. -/
def run (files : FileReader) (process : Twister) (arguments : List String) : Outcome :=
  match parse arguments with
  | .error stop => stop.outcome
  | .ok invocation => invocation.run files process

end LSystem.CommandLine
