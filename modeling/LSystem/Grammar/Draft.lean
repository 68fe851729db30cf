import LSystem.Grammar
import LSystem.Text.Words

/-!
Grammars written down with texts. A text that stands for a word is either cut at its blanks or taken
letter by letter.
-/

namespace LSystem

/-- A word, written as a text or as its tokens. -/
inductive WordDraft where
  | text (text : String)
  | tokens (tokens : List Token)

namespace WordDraft

/-- A text stands for its words. -/
def cut : WordDraft → Word
  | text s => Text.words s
  | tokens ts => ts

/-- A text stands for its letters. -/
def spell : WordDraft → Word
  | text s => Text.letters s
  | tokens ts => ts

end WordDraft

/-- The alternatives of a key. A text in their place is one alternative for each of its letters. -/
inductive AlternativesDraft where
  | text (text : String)
  | list (drafts : List WordDraft)

def AlternativesDraft.read (word : WordDraft → Word) : AlternativesDraft → Alternatives
  | text s => (Text.letters s).map (fun letter => word (.text letter))
  | list drafts => drafts.map word

/-- A context rule written down; its texts are taken letter by letter. -/
structure RuleDraft where
  pattern : WordDraft
  center : Int
  alternatives : AlternativesDraft

/-- A rule needs a window of at least one token. -/
def RuleDraft.rule? (d : RuleDraft) : Option ContextRule :=
  ContextRule.ofPattern? d.pattern.spell d.center (d.alternatives.read WordDraft.spell)

/-- A grammar written down. -/
structure GrammarDraft where
  start : WordDraft
  rules : List (String × AlternativesDraft)
  contextRules : List RuleDraft
  name : String

/-- Reads a grammar with the given reading of its words; `none` if a context rule has no window. -/
def GrammarDraft.grammar? (word : WordDraft → Word) (d : GrammarDraft) : Option Grammar := do
  let contextRules ← d.contextRules.mapM RuleDraft.rule?
  return {
    start := word d.start
    rules := .ofList (d.rules.map (fun entry => (entry.1, entry.2.read word)))
    contextRules
    name := d.name
  }

end LSystem
