import LSystem.Grammar
import LSystem.Text.Decimal

/-!
The context rules of a grammar. Keys with alternatives come first, in the order of the table, and
the explicit rules follow them. A key is a single token, which stands for the window of that token
alone, or an offset and a window.
-/

namespace LSystem

/-- What the text of a key says. -/
inductive KeyReading where
  /-- The key has no token. -/
  | blank
  | token (token : Token)
  | window (center : Int) (first : Token) (others : List Token)
  /-- The first of several tokens is no offset. -/
  | noOffset
  /-- The offset is neither in the window nor just before it. -/
  | outside (center : Int)
  | overlong (offset : Text.Overlong)
deriving DecidableEq

/-- An offset may point at each token of the window and at the place just before it. -/
def readKey (key : String) : KeyReading :=
  match Text.words key with
  | [] => .blank
  | [token] => .token token
  | offset :: first :: others =>
      match Text.offset? offset with
      | none => .noOffset
      | some (.error e) => .overlong e
      | some (.ok center) =>
          if -1 ≤ center ∧ center < (first :: others).length then .window center first others
          else .outside center

inductive DropReason where
  | noOffset
  | outside (center : Int)
deriving DecidableEq

/-- A key that makes no rule although it has several tokens. -/
structure DroppedKey where
  key : String
  reason : DropReason
deriving DecidableEq

/-- The key that says the same as a rule: its center, then its window. -/
def ContextRule.key (rule : ContextRule) : String :=
  Text.decimal rule.center ++ " " ++ " ".intercalate rule.pattern

/-- What the keys of a table give. An overlong offset ends the survey. -/
structure KeySurvey where
  rules : List ContextRule
  dropped : List DroppedKey
  hasWindow : Bool
  overlong : Option Text.Overlong

def KeySurvey.empty : KeySurvey := ⟨[], [], false, none⟩

def ContextRule.ofToken (token : Token) (alternatives : Alternatives) : ContextRule :=
  ⟨[token], 0, alternatives, List.cons_ne_nil _ _⟩

def ContextRule.ofWindow (center : Int) (first : Token) (others : List Token)
    (alternatives : Alternatives) : ContextRule :=
  ⟨first :: others, center, alternatives, List.cons_ne_nil _ _⟩

def surveyKeys : List (String × Alternatives) → KeySurvey
  | [] => .empty
  | (key, alternatives) :: rest =>
      match readKey key with
      | .blank => surveyKeys rest
      | .token token =>
          let survey := surveyKeys rest
          { survey with rules := .ofToken token alternatives :: survey.rules }
      | .window center first others =>
          let survey := surveyKeys rest
          { survey with
            rules := .ofWindow center first others alternatives :: survey.rules
            hasWindow := true }
      | .noOffset =>
          let survey := surveyKeys rest
          { survey with dropped := ⟨key, .noOffset⟩ :: survey.dropped }
      | .outside center =>
          let survey := surveyKeys rest
          { survey with dropped := ⟨key, .outside center⟩ :: survey.dropped }
      | .overlong e => { KeySurvey.empty with overlong := some e }

/-- A pass looks at the windows of `rules` only if one of them is a true window. -/
structure ContextIndex where
  rules : List ContextRule
  hasContexts : Bool
deriving DecidableEq

def Grammar.survey (g : Grammar) : KeySurvey := surveyKeys g.productive

def ContextIndex.ofGrammar (g : Grammar) : Except Text.Overlong ContextIndex :=
  match g.survey.overlong with
  | some e => .error e
  | none =>
      .ok ⟨g.survey.rules ++ g.contextRules, g.survey.hasWindow || !g.contextRules.isEmpty⟩

end LSystem
