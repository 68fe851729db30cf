import LSystem.Config.Reader

/-! # The shape of a configuration

Which values stand for words, alternatives, context rules and whole configurations, said of the
values alone. -/

namespace LSystem

namespace Json

/-- A value stands for a word of so many tokens: a text for its words, an array of texts for
these. -/
inductive IsWord : Json → Nat → Prop where
  | text (s : String) : IsWord (.string s) (Text.words s).length
  | tokens (items : List Json) : (∀ item ∈ items, ∃ s, item = .string s) →
      IsWord (.array items) items.length

/-- A text stands for one alternative, an array of words for several. -/
inductive IsAlternatives : Json → Prop where
  | text (s : String) : IsAlternatives (.string s)
  | list (items : List Json) : (∀ item ∈ items, ∃ n, item.IsWord n) → IsAlternatives (.array items)

/-- A context rule has a pattern that is not empty. Its center, if it is given, is a place of the
pattern; its alternatives may be missing too. -/
inductive IsContextRule : Json → Prop where
  | object (members : List (String × Json)) {pattern : Json} {n : Nat} :
      member? members "pattern" = some pattern → pattern.IsWord n → 0 < n →
      (∀ v, member? members "center" = some v → ∃ c : Int, v = .int c ∧ 0 ≤ c ∧ c < n) →
      (∀ v, member? members "alternatives" = some v → v.IsAlternatives) →
      IsContextRule (.object members)

end Json

/-- What the members of a configuration must be. Only the start word must be there. -/
structure Config.Complete (members : List (String × Json)) : Prop where
  name : ∀ v, Json.member? members "name" = some v → ∃ s, v = .string s
  start : ∃ v, Json.member? members "axiom" = some v ∧ ∃ n, v.IsWord n ∧ 0 < n
  rules : ∀ v, Json.member? members "rules" = some v →
    ∃ entries, v = .object entries ∧ ∀ entry ∈ entries, entry.2.IsAlternatives
  contextRules : ∀ v, Json.member? members "context_rules" = some v →
    ∃ items, v = .array items ∧ ∀ item ∈ items, item.IsContextRule
  seed : ∀ v, Json.member? members "seed" = some v → v = .null ∨ ∃ n, v = .int n
  level : ∀ v, Json.member? members "level" = some v → ∃ n : Nat, v = .int n

/-- A configuration is an object with such members; others may be there as well. -/
def Json.IsConfig (value : Json) : Prop :=
  ∃ members, value = .object members ∧ Config.Complete members

end LSystem
