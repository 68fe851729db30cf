import LSystem.Json.Shown
import LSystem.Random.Source

/-!
Expansion level by level. Level 0 is the start word and each further level is one pass over the one
before it. Every level that was computed is kept, so that draws are made in the order of the levels
and within a level from left to right, whatever levels are asked for.
-/

namespace LSystem

/-- Whether a pass looks tokens up in the table or matches windows. -/
inductive Mode where
  | plain
  | context
deriving DecidableEq

def Mode.text : Mode → String
  | plain => "plain"
  | context => "context"

def ContextIndex.mode (index : ContextIndex) : Mode :=
  if index.hasContexts then .context else .plain

/-- A grammar with its index, by which words are rewritten. -/
structure System where
  grammar : Grammar
  index : ContextIndex
deriving DecidableEq

namespace System

def ofGrammar (g : Grammar) : Except Text.Overlong System :=
  (ContextIndex.ofGrammar g).map (fun index => ⟨g, index⟩)

def mode (s : System) : Mode := s.index.mode

def sites (s : System) (word : Word) : List Site :=
  match s.mode with
  | .plain => s.grammar.sites word
  | .context => s.index.sites word

def rewrite (s : System) (choose : Chooser σ) (word : Word) (state : σ) : Word × σ :=
  rewriteSites choose (s.sites word) state

end System

/-- The record of a level that was computed: its number, the length of its word, and the draws made
up to it and for it. -/
structure Growth where
  level : Nat
  length : Nat
  draws : Nat
deriving DecidableEq, Repr

/-- The words of the levels computed so far, all but the newest in order and the newest one, and the
records of their computation. -/
structure Expander (σ : Type u) where
  system : System
  older : Array Word
  newest : Word
  dice : Dice σ
  growth : List Growth
deriving DecidableEq

/-- Why a level is refused. -/
inductive LevelRefusal where
  | notInteger (value : Json)
  | negative (level : Int)

/-- What is shown in the message of a refusal. -/
def LevelRefusal.value : LevelRefusal → Json
  | notInteger value => value
  | negative level => .int level

def LevelRefusal.message : LevelRefusal → String
  | notInteger value => "Recursion level " ++ value.shown ++ " is not an integer"
  | negative level => "Recursion level " ++ Text.decimal level ++ " impossible!"

/-- What a request for a level fails with: a refusal, or an integer that has too many digits to be
shown. -/
inductive LevelFault where
  | refused (refusal : LevelRefusal)
  | unwritable

/-- The message is written before anything is refused, and to write it may fail. -/
def LevelRefusal.fault (refusal : LevelRefusal) : LevelFault :=
  if refusal.value.Readable then .refused refusal else .unwritable

/-- A level is a natural number. -/
def checkLevel : Json → Except LevelFault Nat
  | .int (.ofNat n) => .ok n
  | .int n => .error (LevelRefusal.negative n).fault
  | value => .error (LevelRefusal.notInteger value).fault

namespace Expander

variable {σ : Type u}

def ofSystem (system : System) (source : σ) : Expander σ where
  system
  older := #[]
  newest := system.grammar.start
  dice := .ofSource source
  growth := []

def draws (e : Expander σ) : Nat := e.dice.draws

def cached (e : Expander σ) : Nat := e.older.size + 1

/-- The words of all levels computed so far, from the start word on. -/
def levels (e : Expander σ) : List Word := e.older.toList ++ [e.newest]

/-- The word of a level that was computed; the newest word beyond those. -/
def wordAt (e : Expander σ) (n : Nat) : Word := e.older.getD n e.newest

/-- The records of all levels above the start word, in the order of their computation. -/
def growthLog (e : Expander σ) : List Growth := e.growth.reverse

variable [RandomSource σ]

/-- Computes one more level. -/
def grow : Expander σ → Expander σ
  | ⟨system, older, newest, dice, growth⟩ =>
      let level := older.size + 1
      match system.rewrite Dice.choose newest dice with
      | (word, dice) =>
          ⟨system, older.push newest, word, dice, ⟨level, word.length, dice.draws⟩ :: growth⟩

def growBy : Nat → Expander σ → Expander σ
  | 0, e => e
  | n + 1, e => growBy n e.grow

/-- Computes the levels up to `n` that are missing. -/
def reach (e : Expander σ) (n : Nat) : Expander σ :=
  growBy (n + 1 - e.cached) e

def level (e : Expander σ) (n : Nat) : Word × Expander σ :=
  let e := e.reach n
  (e.wordAt n, e)

theorem levels_grow (e : Expander σ) :
    e.grow.levels = e.levels ++ [(e.system.rewrite Dice.choose e.newest e.dice).1] := by
  simp [grow, levels]

@[simp] theorem cached_grow (e : Expander σ) : e.grow.cached = e.cached + 1 := by
  simp [grow, cached]

theorem cached_growBy (n : Nat) (e : Expander σ) : (growBy n e).cached = e.cached + n := by
  induction n generalizing e with
  | zero => rfl
  | succ n ih =>
      rw [growBy, ih, cached_grow]
      omega

/-- Answers a request for a level. A request that fails changes nothing. -/
def request (e : Expander σ) (value : Json) : Except LevelFault Word × Expander σ :=
  match checkLevel value with
  | .error fault => (.error fault, e)
  | .ok n =>
      let (word, e) := e.level n
      (.ok word, e)

end Expander

end LSystem
