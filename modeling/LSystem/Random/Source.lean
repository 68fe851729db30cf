import LSystem.Pass

/-!
Random choices. A source answers a bound with a number below it; a die counts how often it is asked.
-/

namespace LSystem

/-- A state that answers a positive bound with a number below it and a next state. -/
class RandomSource (σ : Type u) where
  below : Nat → σ → Nat × σ
  below_lt : ∀ {bound : Nat} (state : σ), 0 < bound → (below bound state).1 < bound

/-- A random source and the number of draws that were made from it. -/
structure Dice (σ : Type u) where
  source : σ
  draws : Nat
deriving DecidableEq

namespace Dice

variable {σ : Type u} [RandomSource σ]

def ofSource (source : σ) : Dice σ := ⟨source, 0⟩

/-- One draw among the members of a list that is not empty. -/
def pick (first : α) (others : List α) (dice : Dice σ) : α × Dice σ :=
  match RandomSource.below (others.length + 1) dice.source with
  | (i, next) => ((first :: others).getD i first, ⟨next, dice.draws + 1⟩)

/-- A token without candidates stands for itself and a single candidate is taken as it is. Only
among several candidates a draw is made, equal ones counted apart. -/
def choose : Chooser (Dice σ)
  | token, [], dice => ([token], dice)
  | _, [block], dice => (block, dice)
  | _, first :: second :: others, dice => dice.pick first (second :: others)

@[simp] theorem choose_nil (token : Token) (dice : Dice σ) :
    choose token [] dice = ([token], dice) := rfl

@[simp] theorem choose_singleton (token : Token) (block : Word) (dice : Dice σ) :
    choose token [block] dice = (block, dice) := rfl

end Dice

end LSystem
