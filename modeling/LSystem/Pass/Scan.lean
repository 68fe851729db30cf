import LSystem.Pass

/-!
A pass that looks at a word token by token. It may look at any place, and a look at a place outside
of the word ends it. The candidates of a place are collected when the pass comes to it.
-/

namespace LSystem

/-- A place that was looked at although the word has no such place. -/
structure OutsideWord where
  place : Int
deriving DecidableEq, Repr

def tokenAt (word : Word) (place : Int) : Except OutsideWord Token :=
  if 0 ≤ place then
    match word[place.toNat]? with
    | some token => .ok token
    | none => .error ⟨place⟩
  else .error ⟨place⟩

/-- Compares the tokens from a place on with a pattern, up to the first that differs. -/
def comparePattern (word : Word) : (pattern : List Token) → (place : Int) → Except OutsideWord Bool
  | [], _ => .ok true
  | token :: rest, place => do
      if (← tokenAt word place) = token then comparePattern word rest (place + 1)
      else return false

/-- Compares the window of a rule only if it neither begins before the word nor ends after it. -/
def ContextRule.scan (rule : ContextRule) (word : Word) (position : Int) :
    Except OutsideWord Alternatives := do
  let start := position - rule.center
  if start < 0 ∨ word.length < start + rule.pattern.length then return []
  else if ← comparePattern word rule.pattern start then return rule.alternatives
  else return []

/-- Collects what the rules give for a position, one rule after the other. -/
def ContextIndex.scan (index : ContextIndex) (word : Word) (position : Int) :
    Except OutsideWord (List Word) :=
  index.rules.foldlM (fun found rule => return found ++ (← rule.scan word position)) []

/-- Comes to a place: looks at its token, collects its candidates and lets the chooser pick. -/
def ContextIndex.scanPlace {σ : Type u} (index : ContextIndex) (choose : Chooser σ) (word : Word) :
    Word × σ → Nat → Except OutsideWord (Word × σ)
  | (written, state), i =>
      match tokenAt word i, index.scan word i with
      | .ok token, .ok candidates =>
          match choose token candidates state with
          | (block, next) => .ok (written ++ block, next)
      | .error outside, _ => .error outside
      | _, .error outside => .error outside

def ContextIndex.scanPass {σ : Type u} (index : ContextIndex) (choose : Chooser σ) (word : Word)
    (state : σ) : Except OutsideWord (Word × σ) :=
  (List.range word.length).foldlM (index.scanPlace choose word) ([], state)

end LSystem
