import LSystem.CommandLine.Invocation
import LSystem.Config.File
import LSystem.Log
import LSystem.Session

/-!
What a command prints. A command that fails prints nothing.
-/

namespace LSystem.CommandLine

inductive Failure where
  | load (fault : Config.LoadFault)
  | overlong (offset : Text.Overlong)
  | refused (refusal : LevelRefusal)
  /-- An integer has too many digits to be written. -/
  | unwritable
  | blankSeed
  | blankSeparator

def Failure.message : Failure → String
  | load fault => fault.message
  | overlong offset => offset.message
  | refused refusal => refusal.message
  | unwritable => Text.limitMessage ""
  | blankSeed =>
      "The only supported seed types are: None,\nint, float, str, bytes, and bytearray."
  | blankSeparator => "'list' object has no attribute 'join'"

/-- What a failure is called when it is reported. Other failures are not reported but end the
program. -/
def Failure.title? : Failure → Option String
  | load (.file _ _) => some "File error: "
  | load (.malformed _ _ _) | load (.config _) => some "Grammar error: "
  | load .nullPath | load (.encoding _) | load (.overlong _) | overlong _ => none
  | unwritable | blankSeed | blankSeparator => none
  | refused _ => some "Invalid argument: "

def Failure.ofLevelFault : LevelFault → Failure
  | .refused refusal => refused refusal
  | .unwritable => unwritable

/-- The records of a run, and what it prints or why it fails. -/
structure Report where
  log : List LogRecord
  result : Except Failure String

/-- The seed that is given, or else the one of the configuration. -/
def Setting.seed (config : Config) : Setting Int → Option Int
  | .value n => some n
  | .absent | .blank => config.seed

/-- The level that is asked for: the one that is given, or else the one of the configuration. A
blank flag stands for an empty list, which is no level. -/
def Setting.level (config : Config) : Setting Int → Json
  | .absent => .int config.level
  | .blank => .array []
  | .value n => .int n

/-- What is printed between tokens. -/
def Setting.separator : Setting String → Except Failure String
  | .absent => .ok " "
  | .blank => .error .blankSeparator
  | .value s => .ok s

/-- Loads a configuration and makes its expander. A blank seed is found out once the index is
built. -/
def Report.ofExpander (files : FileReader) (process : Twister) (path : String) (seed : Setting Int)
    (report : Config → SeededExpander → Report) : Report :=
  match Config.load files path with
  | .error fault => ⟨[], .error (.load fault)⟩
  | .ok config =>
      let indexLog := config.grammar.indexLog
      match (SeededExpander.create config.grammar (seed.seed config) process).1 with
      | .error offset => ⟨indexLog, .error (.overlong offset)⟩
      | .ok made =>
          if seed = .blank then ⟨indexLog, .error .blankSeed⟩
          else
            let rest := report config made
            ⟨indexLog ++ rest.log, rest.result⟩

/-- What comes of an expander that has grown, with the records of its levels. -/
def Report.ofResult (result : Except Failure String) (expander : Expander Twister) : Report :=
  ⟨expander.growthLog.map .grown, result⟩

/-- Asks for a level and goes on if it is given. -/
def Report.ofLevel (made : SeededExpander) (level : Json)
    (report : Nat → Word → Expander Twister → Report) : Report :=
  match checkLevel level with
  | .error fault => ⟨[], .error (.ofLevelFault fault)⟩
  | .ok n =>
      let (word, expander) := made.expander.level n
      report n word expander

/-- The tokens of one level on one line. -/
def expandReport (level : Setting Int) (separator : Setting String) (config : Config)
    (made : SeededExpander) : Report :=
  .ofLevel made (level.level config) (fun _ word expander =>
    .ofResult (separator.separator.map (fun s => s.intercalate word ++ "\n")) expander)

/-- Adds the line of one level to the lines before it. -/
def levelLine : String × Expander Twister → Nat → String × Expander Twister
  | (lines, expander), n =>
      let (word, expander) := expander.level n
      (lines ++ Text.decimal n ++ ": " ++ Text.decimal word.length ++ "\n", expander)

/-- The length of every level up to one, then the seed and the number of draws. The highest level is
asked for first. -/
def levelsReport (upto : Setting Int) (config : Config) (made : SeededExpander) : Report :=
  .ofLevel made (upto.level config) (fun top _ expander =>
    let (lines, expander) := (List.range (top + 1)).foldl levelLine ("", expander)
    .ofResult
      (.ok (lines ++ "seed: " ++ Text.decimal made.seed ++ " draws: " ++
        Text.decimal expander.draws ++ "\n"))
      expander)

/-- Validation computes no level from a longer word. -/
def symbolLimit : Nat := 10000

/-- How far validation came: a level, the length of its word, and the expander. -/
structure Probe where
  level : Nat
  length : Nat
  expander : Expander Twister

/-- Asks for up to `n` further levels, and stops at the first word that is too long. -/
def Probe.advance : (n : Nat) → Probe → Probe
  | 0, probe => probe
  | n + 1, ⟨level, length, expander⟩ =>
      if length ≤ symbolLimit then
        let (word, expander) := expander.level (level + 1)
        advance n ⟨level + 1, word.length, expander⟩
      else ⟨level, length, expander⟩

/-- A summary of the grammar and the length of its default level, or of the level before it that is
too long. -/
def validateReport (config : Config) (made : SeededExpander) : Report :=
  let g := config.grammar
  let system := made.expander.system
  let probe := Probe.advance config.level ⟨0, g.start.length, made.expander⟩
  let summary :=
    "name: " ++ g.name ++ "\n" ++
    "axiom length: " ++ Text.decimal g.start.length ++ "\n" ++
    "rules: " ++ Text.decimal g.rules.size ++ "\n" ++
    "context rules: " ++ Text.decimal system.index.rules.length ++ "\n" ++
    "mode: " ++ system.mode.text ++ "\n" ++
    "symbols at level " ++ Text.decimal probe.level ++ ": " ++ Text.decimal probe.length ++ "\n"
  let warning :=
    if probe.level < config.level then
      "warning: level " ++ Text.decimal probe.level ++ " already exceeds " ++
        Text.decimal symbolLimit ++ " symbols; level " ++ Text.decimal config.level ++
        " was not expanded\n"
    else ""
  .ofResult (.ok (summary ++ warning)) probe.expander

def Command.path : Command → String
  | expand path _ _ _ | levels path _ _ | validate path => path

def Command.report (files : FileReader) (process : Twister) : Command → Report
  | expand path level seed separator =>
      .ofExpander files process path seed (expandReport level separator)
  | levels path upto seed => .ofExpander files process path seed (levelsReport upto)
  | validate path => .ofExpander files process path .absent validateReport

end LSystem.CommandLine
