import LSystem.CommandLine.Usage

/-!
The help of each parser: its usage, what it is for, its arguments in two columns, and the form of
grammar configurations.
-/

namespace LSystem.CommandLine

/-- A line of help: what is explained, how far it is moved in, and the explanation. -/
structure HelpEntry where
  indent : Nat
  head : String
  explanation : String

/-- Explanations start two places after the longest head, and never later than this. -/
def maxColumn : Nat := 24

def columnOf (entries : List HelpEntry) : Nat :=
  min maxColumn (entries.foldl (fun longest entry => max longest entry.head.length) 0 + 4)

def spaces (n : Nat) : String := String.ofList (List.replicate n ' ')

/-- A head that reaches the column has a line of its own. -/
def HelpEntry.render (column : Nat) (entry : HelpEntry) : String :=
  let head := spaces entry.indent ++ entry.head
  if entry.explanation.isEmpty then head ++ "\n"
  else if head.length + 2 ≤ column then
    head ++ spaces (column - head.length) ++ entry.explanation ++ "\n"
  else head ++ "\n" ++ spaces column ++ entry.explanation ++ "\n"

def CommandName.explanation : CommandName → String
  | expand => "Print the symbols at one expansion level."
  | levels => "Print the length of every level up to N."
  | validate => "Validate a grammar config and print a brief summary."

def Flag.explanation : Flag → String
  | help => "show this help message and exit"
  | verbose => "Enable debug logging."
  | level => "Expansion level."
  | upto => "Highest level."
  | seed => "Random seed."
  | separator => "Printed between tokens (default: space)."

/-- The value of a flag is shown by its name in capitals. -/
def Flag.head (flag : Flag) : String :=
  ", ".intercalate (flag.names.map (fun name =>
    if flag.takesValue then
      name ++ " " ++ String.ofList ((name.toList.dropWhile (· == '-')).map Char.toUpper)
    else name))

def Parser.operands : Parser → List HelpEntry
  | main =>
      ⟨2, "\x7b" ++ ",".intercalate (CommandName.all.map CommandName.text) ++ "\x7d", ""⟩ ::
        CommandName.all.map (fun command => ⟨4, command.text, command.explanation⟩)
  | command _ => [⟨2, "config", "Path to the grammar JSON config."⟩]

def Parser.options (parser : Parser) : List HelpEntry :=
  parser.flags.map (fun flag => ⟨2, flag.head, flag.explanation⟩)

def description : String := "Caching stochastic L-system expander."

/-- The form of grammar configurations. -/
def configHelp : String :=
  "\n".intercalate [
    "GRAMMAR JSON SYNTAX",
    "",
    "Top-level keys",
    "",
    "  name: string (optional)",
    "      A human-readable title.",
    "",
    "  axiom: string or array of strings (required)",
    "      The initial symbols. A string is split on whitespace, so \"F X\" is two",
    "      tokens and \"FX\" is one.",
    "",
    "  rules: object mapping key -> alternatives (optional)",
    "      Each alternative is a whitespace-separated string or an array of tokens.",
    "      A bare string value is a single alternative. With more than one",
    "      alternative, one is chosen at random on every rewrite.",
    "",
    "      A key may embed a context window: \"<offset> <tok> <tok> ...\". The offset",
    "      is the 0-based position of the rewritten token inside the window, e.g.",
    "      \"1 a B c\" rewrites B only when preceded by a and followed by c.",
    "      Keys whose offset is not an integer or is out of range are ignored.",
    "",
    "  context_rules: array (optional)",
    "      Structured context rules:",
    "        \x7b\"pattern\": \"a B c\", \"center\": 1, \"alternatives\": [\"B B\"]\x7d",
    "",
    "  seed: integer (optional)",
    "      Default random seed; --seed overrides it.",
    "",
    "  level: integer >= 0 (default 0)",
    "      Default level for \"expand\"; --level overrides it.",
    "",
    "Example (stochastic algae):",
    "",
    "    \x7b",
    "      \"axiom\": \"A\",",
    "      \"rules\": \x7b\"A\": [\"A B\", \"B\"], \"B\": \"A\"\x7d,",
    "      \"seed\": 1,",
    "      \"level\": 5",
    "    \x7d"]

def Parser.help (parser : Parser) : String :=
  let column := columnOf (parser.operands ++ parser.options)
  let entries := fun (es : List HelpEntry) => String.join (es.map (HelpEntry.render column))
  let middle :=
    "positional arguments:\n" ++ entries parser.operands ++ "\noptions:\n" ++ entries parser.options
  match parser with
  | .main =>
      parser.usage ++ "\n" ++ description ++ "\n\n" ++ middle ++ "\n" ++ configHelp ++ "\n"
  | .command _ => parser.usage ++ "\n" ++ middle

end LSystem.CommandLine
