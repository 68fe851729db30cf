import LSystem.Table

/-!
Grammars of rewriting systems: a start word, a table from keys to alternative words, and rules that
look at a window of tokens.
-/

namespace LSystem

/-- Tokens are texts, and a text is made of characters: a surrogate that stands alone is none. -/
abbrev Token := String

abbrev Word := List Token

/-- The words that may stand in for a token. -/
abbrev Alternatives := List Word

/-- A window of tokens. Where it occurs, the token at `center`, counted from the start of the
window, may be replaced by one of the alternatives. The center may lie outside the window. -/
structure ContextRule where
  pattern : List Token
  center : Int
  alternatives : Alternatives
  pattern_ne_nil : pattern ≠ []
deriving DecidableEq

/-- A window without tokens makes no rule. -/
def ContextRule.ofPattern? (pattern : List Token) (center : Int) (alternatives : Alternatives) :
    Option ContextRule :=
  if h : pattern = [] then none else some ⟨pattern, center, alternatives, h⟩

/-- A rewriting system. A key of `rules` is a token, or an offset followed by a window. -/
structure Grammar where
  start : Word
  rules : Table Alternatives
  contextRules : List ContextRule
  name : String
deriving DecidableEq

namespace Grammar

def defaultName : String := "L-System"

/-- The alternatives of a key; a key that is not there has none. -/
def replacements (g : Grammar) (key : String) : Alternatives :=
  (g.rules.get? key).getD []

/-- The entries that have an alternative, in order. -/
def productive (g : Grammar) : List (String × Alternatives) :=
  g.rules.entries.filter (fun entry => !entry.2.isEmpty)

/-- The keys that have an alternative, in order. -/
def productiveKeys (g : Grammar) : List String :=
  g.productive.map (·.1)

/-- Two grammars are alike if they differ at most in the order of their tables. -/
def alike (a b : Grammar) : Bool :=
  a.start == b.start && a.rules.sameMapping b.rules && a.contextRules == b.contextRules &&
    a.name == b.name

/-- The number of members of a set of two grammars that keeps grammars apart when they are not
alike or their tables have different orders. -/
def distinctCount (a b : Grammar) : Nat :=
  if a.alike b && a == b then 1 else 2

end Grammar

end LSystem
