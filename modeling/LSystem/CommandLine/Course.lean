import LSystem.CommandLine.Outcome

/-!
The course of a run. Each command loads, expands, records and prints step by step, and a step may fail
when something is printed already: a number may have too many digits to be written. What was printed
before a failure stays printed.
-/

namespace LSystem.CommandLine

inductive Event where
  | recorded (record : LogRecord)
  | printed (line : String)
deriving DecidableEq

/-- What is recorded and printed in some steps, in order, and what they result in unless one of them
fails. -/
structure Course (α : Type) where
  events : List Event
  result : Except Failure α

namespace Course

instance : Monad Course where
  pure value := ⟨[], .ok value⟩
  bind course next :=
    match course.result with
    | .error fault => ⟨course.events, .error fault⟩
    | .ok value => ⟨course.events ++ (next value).events, (next value).result⟩

def fail (fault : Failure) : Course α := ⟨[], .error fault⟩

def ofExcept : Except Failure α → Course α
  | .ok value => pure value
  | .error fault => fail fault

def record (records : List LogRecord) : Course Unit := ⟨records.map .recorded, .ok ()⟩

def print (line : String) : Course Unit := ⟨[.printed line], .ok ()⟩

/-- The text of a number that was read or drawn. Numbers that count what is held have few digits. -/
def write (n : Int) : Course String :=
  if Text.Readable n then pure (Text.decimal n) else fail .unwritable

/-! ## Steps of the commands -/

/-- Loads a configuration and makes its expander. -/
def load (files : FileReader) (process : Twister) (path : String) (seed : Setting Int) :
    Course (Config × SeededExpander) := do
  let config ← ofExcept ((Config.load files path).mapError .load)
  record config.grammar.indexLog
  let made ← ofExcept
    ((SeededExpander.create config.grammar (seed.seed config) process).1.mapError .overlong)
  if seed = .blank then fail .blankSeed else return (config, made)

/-- Computes further levels one by one, and records each of them. -/
def grow : Nat → Expander Twister → Course (Expander Twister)
  | 0, expander => return expander
  | n + 1, expander => do
      let expander := expander.grow
      record [.grown ⟨expander.older.size, expander.newest.length, expander.draws⟩]
      grow n expander

/-- Asks for a level. The levels below it that are missing are computed before. -/
def request (expander : Expander Twister) (level : Json) :
    Course (Nat × Word × Expander Twister) :=
  match checkLevel level with
  | .error fault => fail (.ofLevelFault fault)
  | .ok n => do
      let expander ← grow (n + 1 - expander.cached) expander
      return (n, expander.wordAt n, expander)

/-! ## Commands -/

def expand (level : Setting Int) (separator : Setting String) (config : Config)
    (made : SeededExpander) : Course Unit := do
  let (_, word, _) ← request made.expander (level.level config)
  let separator ← ofExcept separator.separator
  print (separator.intercalate word ++ "\n")

def printLevel (expander : Expander Twister) (n : Nat) : Course (Expander Twister) := do
  let number ← write n
  let (_, word, expander) ← request expander (.int n)
  print (number ++ ": " ++ Text.decimal word.length ++ "\n")
  return expander

def levels (upto : Setting Int) (config : Config) (made : SeededExpander) : Course Unit := do
  let (top, _, expander) ← request made.expander (upto.level config)
  let expander ← (List.range (top + 1)).foldlM printLevel expander
  let seed ← write made.seed
  print ("seed: " ++ seed ++ " draws: " ++ Text.decimal expander.draws ++ "\n")

/-- Asks for up to `n` further levels, and stops at the first word that is too long. -/
def advance : Nat → Probe → Course Probe
  | 0, probe => return probe
  | n + 1, ⟨level, length, expander⟩ =>
      if length ≤ symbolLimit then do
        let (_, word, expander) ← request expander (.int (level + 1 : Nat))
        advance n ⟨level + 1, word.length, expander⟩
      else return ⟨level, length, expander⟩

/-- Prints what is known before anything is expanded. -/
def printSummary (g : Grammar) (system : System) : Course Unit := do
  print ("name: " ++ g.name ++ "\n")
  print ("axiom length: " ++ Text.decimal g.start.length ++ "\n")
  print ("rules: " ++ Text.decimal g.rules.size ++ "\n")
  print ("context rules: " ++ Text.decimal system.index.rules.length ++ "\n")
  print ("mode: " ++ system.mode.text ++ "\n")

/-- Prints how far validation came, and whether this is too early. -/
def printProbe (top : Nat) (probe : Probe) : Course Unit := do
  let number ← write probe.level
  print ("symbols at level " ++ number ++ ": " ++ Text.decimal probe.length ++ "\n")
  if probe.level < top then
    let number ← write probe.level
    let missing ← write top
    print ("warning: level " ++ number ++ " already exceeds " ++ Text.decimal symbolLimit ++
      " symbols; level " ++ missing ++ " was not expanded\n")

def validate (config : Config) (made : SeededExpander) : Course Unit := do
  printSummary config.grammar made.expander.system
  let probe ← advance config.level ⟨0, config.grammar.start.length, made.expander⟩
  printProbe config.level probe

end Course

/-- The course of a command on its configuration. -/
def Command.course (files : FileReader) (process : Twister) (command : Command) : Course Unit :=
  match command with
  | expand path level seed separator => do
      let (config, made) ← Course.load files process path seed
      Course.expand level separator config made
  | levels path upto seed => do
      let (config, made) ← Course.load files process path seed
      Course.levels upto config made
  | validate path => do
      let (config, made) ← Course.load files process path .absent
      Course.validate config made

/-! ## Streams -/

inductive Write where
  | stdout (text : String)
  | stderr (text : String)
deriving DecidableEq

/-- All writes of a run in order, and its code unless something escapes from it. -/
structure Execution where
  writes : List Write
  code : Except Failure Nat

def Event.writes (verbose : Bool) : Event → List Write
  | recorded record => if verbose then [.stderr (logLine record)] else []
  | printed line => [.stdout line]

/-- How a failure is reported, unless it escapes. -/
def Failure.report? (fault : Failure) : Option String :=
  fault.title?.map (fun title => title ++ fault.message ++ "\n")

def Course.execution (verbose : Bool) (course : Course Unit) : Execution :=
  let writes := course.events.flatMap (Event.writes verbose)
  match course.result with
  | .ok () => ⟨writes, .ok 0⟩
  | .error fault =>
      match fault.report? with
      | some text => ⟨writes ++ [.stderr text], .ok failureCode⟩
      | none => ⟨writes, .error fault⟩

def Stop.execution : Stop → Execution
  | help parser => ⟨[.stdout parser.help], .ok 0⟩
  | usage parser fault =>
      ⟨[.stderr parser.usage, .stderr (parser.name ++ ": error: " ++ fault.message ++ "\n")],
        .ok failureCode⟩

/-- Runs a command line step by step. -/
def execute (files : FileReader) (process : Twister) (arguments : List String) : Execution :=
  match parse arguments with
  | .error stop => stop.execution
  | .ok ⟨verbose, command⟩ => (command.course files process).execution verbose

end LSystem.CommandLine
