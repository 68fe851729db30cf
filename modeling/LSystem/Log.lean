import LSystem.Expander

/-!
Records of what an expander does: the keys its index drops, the index itself, and each level when it
is computed.
-/

namespace LSystem

inductive LogRecord where
  | dropped (key : DroppedKey)
  | indexed (name : String) (rules : Nat) (contexts : Bool)
  | grown (growth : Growth)
deriving DecidableEq

def DroppedKey.message (d : DroppedKey) : String :=
  "dropping context key " ++ Text.quoted d.key ++ ": offset " ++
    match d.reason with
    | .noOffset => "is not an integer"
    | .outside center => Text.decimal center ++ " out of range"

def LogRecord.message : LogRecord → String
  | dropped key => key.message
  | indexed name rules contexts =>
      "context index for " ++ Text.quoted name ++ ": " ++ Text.decimal rules ++
        " rules, contexts=" ++ (if contexts then "True" else "False")
  | grown growth =>
      "level " ++ Text.decimal growth.level ++ ": " ++ Text.decimal growth.length ++ " symbols, " ++
        Text.decimal growth.draws ++ " draws so far"

/-- The records of building an index. There is no summary of an index that cannot be built. -/
def Grammar.indexLog (g : Grammar) : List LogRecord :=
  g.survey.dropped.map .dropped ++
    match ContextIndex.ofGrammar g with
    | .error _ => []
    | .ok index => [.indexed g.name index.rules.length index.hasContexts]

end LSystem
