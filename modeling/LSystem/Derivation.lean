import LSystem.Expander

/-!
Derivations: words related by one simultaneous replacement, whatever is chosen at each place.
-/

namespace LSystem

/-- A pattern stands in a word from `start` on, and all of it does. -/
def OccursAt (pattern : List Token) (word : Word) (start : Int) : Prop :=
  ∃ before after : Word, word = before ++ pattern ++ after ∧ start = before.length

namespace System

/-- A block that is on offer for a place of a word. Tokens are looked up in the table as they are,
windows have to occur around the place. -/
inductive Offers (s : System) (word : Word) (i : Nat) : Word → Prop where
  | key {token : Token} {alternatives : Alternatives} {block : Word} :
      s.mode = .plain → word[i]? = some token →
      (token, alternatives) ∈ s.grammar.rules.entries → block ∈ alternatives →
      Offers s word i block
  | window {rule : ContextRule} {block : Word} :
      s.mode = .context → rule ∈ s.index.rules →
      OccursAt rule.pattern word (i - rule.center) → block ∈ rule.alternatives →
      Offers s word i block

/-- What may stand for the token of a place afterwards: any block on offer, or the token itself if
there is none. -/
inductive Replaces (s : System) (word : Word) (i : Nat) : Token → Word → Prop where
  | kept (token : Token) : (∀ block, ¬ s.Offers word i block) → Replaces s word i token [token]
  | block (token : Token) {block : Word} :
      s.Offers word i block → Replaces s word i token block

/-- One derivation step. Every place is replaced, and the blocks are joined in order. -/
def Derives (s : System) (word next : Word) : Prop :=
  ∃ blocks : List Word, blocks.length = word.length ∧
    (∀ i token block, word[i]? = some token → blocks[i]? = some block →
      s.Replaces word i token block) ∧
    next = blocks.flatten

/-- A chain of steps that starts with a given word. -/
inductive Chain (s : System) : Word → List Word → Prop where
  | nil (word : Word) : Chain s word []
  | cons {word next : Word} {rest : List Word} :
      s.Derives word next → Chain s next rest → Chain s word (next :: rest)

end System

end LSystem
