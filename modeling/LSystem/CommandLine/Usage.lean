import LSystem.CommandLine.Argument
import LSystem.Text.Quoted

/-!
The parsers of the command line, how each of them is used, and what can be wrong with the arguments
given to it.
-/

namespace LSystem.CommandLine

inductive CommandName where
  | expand
  | levels
  | validate
deriving DecidableEq, Repr

def CommandName.text : CommandName → String
  | expand => "expand"
  | levels => "levels"
  | validate => "validate"

def CommandName.all : List CommandName := [expand, levels, validate]

def CommandName.ofText? (s : String) : Option CommandName :=
  CommandName.all.find? (fun command => command.text == s)

/-- The main parser reads up to the name of a command; the parser of that command reads the rest. -/
inductive Parser where
  | main
  | command (name : CommandName)
deriving DecidableEq, Repr

def programName : String := "lsystem_expander.py"

def Parser.name : Parser → String
  | main => programName
  | command c => programName ++ " " ++ c.text

def Parser.flags : Parser → List Flag
  | main => [.help, .verbose]
  | command .expand => [.help, .level, .seed, .separator]
  | command .levels => [.help, .upto, .seed]
  | command .validate => [.help]

/-- The usage of a parser, laid out for 80 columns. -/
def Parser.usage : Parser → String
  | main => "usage: lsystem_expander.py [-h] [-v] \x7bexpand,levels,validate\x7d ...\n"
  | command .expand =>
      "usage: lsystem_expander.py expand [-h] [--level LEVEL] [--seed SEED]\n" ++
      "                                  [--separator SEPARATOR]\n" ++
      "                                  config\n"
  | command .levels =>
      "usage: lsystem_expander.py levels [-h] [--upto UPTO] [--seed SEED] config\n"
  | command .validate => "usage: lsystem_expander.py validate [-h] config\n"

inductive UsageFault where
  | ambiguous (argument : Ambiguity)
  | valueMissing (flag : Flag)
  | valueIgnored (flag : Flag) (value : String)
  | invalidInt (flag : Flag) (value : String)
  | invalidCommand (value : String)
  | commandMissing
  | pathMissing
  | unrecognized (arguments : List String)
deriving DecidableEq, Repr

def Flag.label (flag : Flag) : String := "argument " ++ "/".intercalate flag.names ++ ": "

def UsageFault.message : UsageFault → String
  | ambiguous argument =>
      "ambiguous option: " ++ argument.text ++ " could match " ++ ", ".intercalate argument.names
  | valueMissing flag => flag.label ++ "expected one argument"
  | valueIgnored flag value => flag.label ++ "ignored explicit argument " ++ Text.quoted value
  | invalidInt flag value => flag.label ++ "invalid int value: " ++ Text.quoted value
  | invalidCommand value =>
      "argument cmd: invalid choice: " ++ Text.quoted value ++ " (choose from " ++
        ", ".intercalate (CommandName.all.map (fun command => Text.quoted command.text)) ++ ")"
  | commandMissing => "the following arguments are required: cmd"
  | pathMissing => "the following arguments are required: config"
  | unrecognized arguments => "unrecognized arguments: " ++ " ".intercalate arguments

end LSystem.CommandLine
