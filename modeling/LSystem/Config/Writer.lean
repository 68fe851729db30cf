import LSystem.Config
import LSystem.Json

/-!
Configurations written as JSON values, with every word as an array of its tokens.
-/

namespace LSystem

def Word.toJson (word : Word) : Json := .array (word.map .string)

def Alternatives.toJson (alternatives : Alternatives) : Json :=
  .array (alternatives.map Word.toJson)

def ContextRule.toJson (rule : ContextRule) : Json :=
  .object [("pattern", Word.toJson rule.pattern), ("center", .int rule.center),
    ("alternatives", rule.alternatives.toJson)]

def Config.toJson (config : Config) : Json :=
  let g := config.grammar
  .object [
    ("name", .string g.name),
    ("axiom", Word.toJson g.start),
    ("rules", .object (g.rules.entries.map (fun entry => (entry.1, Alternatives.toJson entry.2)))),
    ("context_rules", .array (g.contextRules.map ContextRule.toJson)),
    ("seed", (config.seed.map Json.int).getD .null),
    ("level", .int config.level)]

end LSystem
