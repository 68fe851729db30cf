import LSystem.Pass

/-!
Choosers that follow a script, and choosers that keep a record of the sites they were shown.
-/

namespace LSystem

/-- Picks to be used in turn, over and over, and the number of sites seen so far. -/
structure Script where
  picks : Array Int
  seen : Nat

/-- The pick of a site is taken modulo the number of its candidates. -/
def Script.choose : Chooser Script
  | token, [], script => ([token], { script with seen := script.seen + 1 })
  | _, first :: others, script =>
      let pick := script.picks.getD (script.seen % script.picks.size) 0
      let candidates := first :: others
      let i := (pick % candidates.length).toNat
      (candidates.getD i first, { script with seen := script.seen + 1 })

/-- Notes every site before it is handed on. -/
def Chooser.recording (choose : Chooser σ) : Chooser (σ × Array Site)
  | token, candidates, (state, seen) =>
      match choose token candidates state with
      | (block, next) => (block, next, seen.push ⟨token, candidates⟩)

end LSystem
