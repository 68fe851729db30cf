import LSystem.Text.Decimal

/-!
Arguments of a command line. Each one is an operand, a flag of the parser that reads it, a flag that
the parser does not know, or the divider after which there are operands only.
-/

namespace LSystem.CommandLine

/-- What can be set by a flag. -/
inductive Flag where
  | help
  | verbose
  | level
  | upto
  | seed
  | separator
deriving DecidableEq, Repr

def Flag.names : Flag → List String
  | help => ["-h", "--help"]
  | verbose => ["-v", "--verbose"]
  | level => ["--level"]
  | upto => ["--upto"]
  | seed => ["--seed"]
  | separator => ["--separator"]

def Flag.takesValue : Flag → Bool
  | help | verbose => false
  | level | upto | seed | separator => true

/-- A flag in an argument: the name it is meant by, and the text in the same argument that follows
the name, after an equals sign or at once. -/
structure FlagUse where
  flag : Flag
  name : String
  attached : Option String
deriving DecidableEq, Repr

inductive Argument where
  | operand (text : String)
  | divider
  | flag (text : String) (use : FlagUse)
  | unknown (text : String)
deriving DecidableEq, Repr

def dividerText : String := "--"

/-- The argument as it was given. -/
def Argument.text : Argument → String
  | operand s => s
  | divider => dividerText
  | flag s _ => s
  | unknown s => s

/-- An argument that begins like several flags. -/
structure Ambiguity where
  text : String
  names : List String
deriving DecidableEq, Repr

/-- The names of some flags, in order. -/
def namesOf (flags : List Flag) : List (String × Flag) :=
  flags.flatMap (fun flag => flag.names.map (fun name => (name, flag)))

/-- The text before the first equals sign, and the text after it if there is one. -/
def splitAtEquals (cs : List Char) : String × Option String :=
  let name := cs.takeWhile (· != '=')
  match cs.drop name.length with
  | [] => (String.ofList name, none)
  | _ :: rest => (String.ofList name, some (String.ofList rest))

def isDigit (c : Char) : Bool := (Text.digitValue? c).isSome

/-- Whether a text looks like a negative number: a minus sign, then digits, which may have a point
before the last of them. A line end may follow. -/
def looksNegative (cs : List Char) : Bool :=
  match cs with
  | '-' :: body =>
      let body := if body.getLast? = some '\n' then body.dropLast else body
      match body.dropWhile isDigit with
      | [] => !body.isEmpty
      | '.' :: fraction => !fraction.isEmpty && fraction.all isDigit
      | _ => false
  | _ => false

/-- The flags that an argument may be short for. After two dashes it may be the beginning of a name;
after one dash it may be a name of one letter with its text at once. -/
def candidates (flags : List Flag) (text : String) : List FlagUse :=
  let cs := text.toList
  if ['-', '-'].isPrefixOf cs then
    let (start, attached) := splitAtEquals cs
    (namesOf flags).filterMap (fun (name, flag) =>
      if start.toList.isPrefixOf name.toList then some ⟨flag, name, attached⟩ else none)
  else
    (namesOf flags).filterMap (fun (name, flag) =>
      if name.toList = cs.take 2 then some ⟨flag, name, some (String.ofList (cs.drop 2))⟩
      else if cs.isPrefixOf name.toList then some ⟨flag, name, none⟩
      else none)

/-- Reads an argument that may be a flag. -/
def classify (flags : List Flag) (text : String) : Except Ambiguity Argument :=
  let cs := text.toList
  if cs.head? ≠ some '-' then .ok (.operand text)
  else
    match (namesOf flags).lookup text with
    | some flag => .ok (.flag text ⟨flag, text, none⟩)
    | none =>
        if cs.length = 1 then .ok (.operand text)
        else
          let (name, attached) := splitAtEquals cs
          match attached, (namesOf flags).lookup name with
          | some value, some flag => .ok (.flag text ⟨flag, name, some value⟩)
          | _, _ =>
              match candidates flags text with
              | [use] => .ok (.flag text use)
              | [] =>
                  if looksNegative cs || cs.contains ' ' then .ok (.operand text)
                  else .ok (.unknown text)
              | uses => .error ⟨text, uses.map FlagUse.name⟩

/-- Reads all arguments. The first divider makes operands of all that follow it. -/
def classifyAll (flags : List Flag) (texts : List String) : Except Ambiguity (List Argument) :=
  let before := texts.takeWhile (· != dividerText)
  let rest := texts.drop before.length
  (before.mapM (classify flags)).map (fun arguments =>
    arguments ++ (if rest.isEmpty then [] else .divider :: (rest.drop 1).map .operand))

end LSystem.CommandLine
