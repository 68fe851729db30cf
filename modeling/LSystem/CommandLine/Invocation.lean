import LSystem.CommandLine.Usage

/-!
What a command line asks for. Arguments are read from left to right; flags and operands may mix, and
of a flag that is given twice the last value counts.
-/

namespace LSystem.CommandLine

/-- What a flag with a value was given. The divider as its value leaves a flag blank: it is set, but
there is no value. -/
inductive Setting (α : Type) where
  | absent
  | blank
  | value (value : α)
deriving DecidableEq, Repr

inductive Command where
  | expand (path : String) (level seed : Setting Int) (separator : Setting String)
  | levels (path : String) (upto seed : Setting Int)
  | validate (path : String)
deriving DecidableEq, Repr

structure Invocation where
  verbose : Bool
  command : Command
deriving DecidableEq, Repr

/-- Why no command is run: help was asked for, or a parser refuses the arguments. -/
inductive Stop where
  | help (parser : Parser)
  | usage (parser : Parser) (fault : UsageFault)
deriving DecidableEq, Repr

/-- The flags of one argument: flags without a value, then a last one, which may have its value in
the same argument. -/
structure Cluster where
  before : List Flag
  last : Flag
  value : Option String

namespace Cluster

def flags (cluster : Cluster) : List Flag := cluster.before ++ [cluster.last]

/-- Reads the text that is attached to a flag. It is the value of a flag that takes one. After the
short name of any other flag each letter names a further flag, whether the text was attached by an
equals sign or at once: `-h=v` is `-hv`. A text that does not fit is refused by the flag before
it. -/
def ofAttached (flags : List Flag) (flag : Flag) (short : Bool) (attached : List Char) :
    Except UsageFault Cluster :=
  if flag.takesValue then .ok ⟨[], flag, some (String.ofList attached)⟩
  else
    match attached with
    | [] => .error (.valueIgnored flag "")
    | c :: rest =>
        match if short then (namesOf flags).lookup (String.ofList ['-', c]) else none with
        | none => .error (.valueIgnored flag (String.ofList attached))
        | some next =>
            if rest.isEmpty then .ok ⟨[flag], next, none⟩
            else
              (ofAttached flags next true rest).map (fun cluster =>
                { cluster with before := flag :: cluster.before })

end Cluster

/-- A short name has one dash. -/
def isShortName (name : String) : Bool := name.toList.take 2 != ['-', '-']

def FlagUse.cluster (flags : List Flag) (use : FlagUse) : Except UsageFault Cluster :=
  match use.attached with
  | none => .ok ⟨[], use.flag, none⟩
  | some text => Cluster.ofAttached flags use.flag (isShortName use.name) text.toList

/-- What the arguments of a command have set so far. -/
structure Settings where
  path : Option String
  level : Setting Int
  upto : Setting Int
  seed : Setting Int
  separator : Setting String
  extra : List String

def Settings.initial : Settings := ⟨none, .absent, .absent, .absent, .absent, []⟩

def textSetting (text : String) : Setting String :=
  if text = dividerText then .blank else .value text

section Command

variable (name : CommandName)

def refuse (fault : UsageFault) : Except Stop α := .error (.usage (.command name) fault)

def intSetting (flag : Flag) (text : String) : Except Stop (Setting Int) :=
  if text = dividerText then .ok .blank
  else
    match Text.integer? text with
    | some n => .ok (.value n)
    | none => refuse name (.invalidInt flag text)

/-- Sets what a flag with a value stands for. -/
def Settings.assign (s : Settings) (flag : Flag) (text : String) : Except Stop Settings :=
  match flag with
  | .level => (intSetting name flag text).map (fun level => { s with level })
  | .upto => (intSetting name flag text).map (fun upto => { s with upto })
  | .seed => (intSetting name flag text).map (fun seed => { s with seed })
  | .separator => .ok { s with separator := textSetting text }
  | .help | .verbose => .ok s

/-- Reads the arguments of a command. The first operand is the path; a divider next to it belongs to
it. All other operands are left over, and so are unknown flags. -/
def readCommand (s : Settings) (arguments : List Argument) : Except Stop Settings :=
  match arguments with
  | [] => .ok s
  | .unknown text :: rest => readCommand { s with extra := s.extra ++ [text] } rest
  | .operand text :: rest =>
      if s.path.isSome then readCommand { s with extra := s.extra ++ [text] } rest
      else
        let dividers := if rest.head? = some .divider then 1 else 0
        readCommand { s with path := some text } (rest.drop dividers)
  | .divider :: rest =>
      match s.path, rest.head? with
      | none, some next => readCommand { s with path := some next.text } (rest.drop 1)
      | _, _ => readCommand { s with extra := s.extra ++ [dividerText] } rest
  | .flag _ use :: rest =>
      match use.cluster (Parser.command name).flags with
      | .error fault => refuse name fault
      | .ok cluster =>
          if cluster.flags.contains .help then .error (.help (.command name))
          else
            match cluster.value, rest.head? with
            | some value, _ =>
                match s.assign name cluster.last value with
                | .error stop => .error stop
                | .ok s => readCommand s rest
            | none, some (.operand value) =>
                match s.assign name cluster.last value with
                | .error stop => .error stop
                | .ok s => readCommand s (rest.drop 1)
            | none, _ => refuse name (.valueMissing cluster.last)
termination_by arguments.length
decreasing_by all_goals simp only [List.length_cons, List.length_drop]; omega

/-- The command and the arguments it has no use for. -/
def parseCommand (texts : List String) : Except Stop (Command × List String) :=
  match classifyAll (Parser.command name).flags texts with
  | .error ambiguity => refuse name (.ambiguous ambiguity)
  | .ok arguments =>
      match readCommand name .initial arguments with
      | .error stop => .error stop
      | .ok s =>
          match s.path with
          | none => refuse name .pathMissing
          | some path =>
              let command : Command :=
                match name with
                | .expand => .expand path s.level s.seed s.separator
                | .levels => .levels path s.upto s.seed
                | .validate => .validate path
              .ok (command, s.extra)

end Command

def refuseMain (fault : UsageFault) : Except Stop α := .error (.usage .main fault)

/-- Hands the arguments after the name of a command to its parser. -/
def dispatch (verbose : Bool) (extra : List String) (word : String) (texts : List String) :
    Except Stop Invocation :=
  match CommandName.ofText? word with
  | none => refuseMain (.invalidCommand word)
  | some name =>
      match parseCommand name texts with
      | .error stop => .error stop
      | .ok (command, more) =>
          if (extra ++ more).isEmpty then .ok ⟨verbose, command⟩
          else refuseMain (.unrecognized (extra ++ more))

/-- Reads the arguments up to the name of a command. A divider stands for a name, which no command
has, if anything follows it. -/
def readMain (verbose : Bool) (extra : List String) : List Argument → Except Stop Invocation
  | [] => refuseMain .commandMissing
  | .unknown text :: rest => readMain verbose (extra ++ [text]) rest
  | .operand text :: rest => dispatch verbose extra text (rest.map Argument.text)
  | .divider :: rest =>
      if rest.isEmpty then refuseMain .commandMissing
      else dispatch verbose extra dividerText (rest.map Argument.text)
  | .flag _ use :: rest =>
      match use.cluster Parser.main.flags with
      | .error fault => refuseMain fault
      | .ok cluster =>
          if cluster.flags.contains .help then .error (.help .main)
          else readMain (verbose || cluster.flags.contains .verbose) extra rest

def parse (texts : List String) : Except Stop Invocation :=
  match classifyAll Parser.main.flags texts with
  | .error ambiguity => refuseMain (.ambiguous ambiguity)
  | .ok arguments => readMain false [] arguments

end LSystem.CommandLine
