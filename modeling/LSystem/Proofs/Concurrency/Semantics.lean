import LSystem.Proofs.Levels.Growth
import Mathlib.Logic.Function.Basic
import Mathlib.Logic.Relation

/-! # Askers that share an expander

An asker makes one request; whoever makes several, one after the other, counts as several askers.
One that finds its level reads it at once. The others take turns at a lock and grow the expander
behind it, one site at a time. The steps of different askers come in any order. -/

namespace LSystem

/-! ## Stages of an asker -/

/-- How far an asker has come. -/
inductive Stage where
  /-- It has done nothing yet. -/
  | outside
  /-- Its level was there without the lock and is read next. -/
  | found
  | waiting
  /-- It has the lock and looks next whether its level is there. -/
  | looking
  /-- It has written part of a new level and visits the sites left next. -/
  | passing (written : Array Token) (left : List Site)
  | reading
  /-- It has its word and gives the lock back next. -/
  | leaving (word : Word)
  | done (word : Word)

namespace Stage

/-- Whether an asker has the lock. -/
def inside : Stage → Bool
  | looking | passing _ _ | reading | leaving _ => true
  | outside | found | waiting | done _ => false

/-- The pass that an asker is at. -/
def underWay : Stage → Option (Array Token × List Site)
  | passing written left => some (written, left)
  | _ => none

/-- What an asker for level `n` relies on. -/
def Fits {σ : Type u} (n : Nat) (e : Expander σ) : Stage → Prop
  | found | reading => n < e.cached
  | leaving word | done word => n < e.cached ∧ word = e.wordAt n
  | outside | waiting | looking | passing _ _ => True

/-- Levels that are added disturb nobody. -/
theorem Fits.mono {σ : Type u} {e e' : Expander σ} (h : e.levels <+: e'.levels) {n : Nat}
    {stage : Stage} (hfits : stage.Fits n e) : stage.Fits n e' := by
  have hle : e.cached ≤ e'.cached := by simpa using h.length_le
  cases stage with
  | outside | waiting | looking | passing => trivial
  | found | reading => exact Nat.lt_of_lt_of_le hfits hle
  | leaving word | done word =>
      obtain ⟨hn, hword⟩ := hfits
      refine ⟨Nat.lt_of_lt_of_le hn hle, ?_⟩
      rw [hword, Expander.wordAt_of_prefix h hn]

end Stage

/-! ## The last steps of a pass -/

namespace Expander

variable {σ : Type u}

/-- Adds a level that was written. -/
def append (e : Expander σ) (word : Word) : Expander σ :=
  { e with
    older := e.older.push e.newest
    newest := word
    growth := ⟨e.cached, word.length, e.draws⟩ :: e.growth }

theorem levels_append (e : Expander σ) (word : Word) :
    (e.append word).levels = e.levels ++ [word] := by
  simp [append, levels]

variable [RandomSource σ]

/-- Visits the sites that are left of a pass and adds the level. -/
def finish (e : Expander σ) (written : Array Token) (left : List Site) : Expander σ :=
  match left.foldl (emit Dice.choose) (written, e.dice) with
  | (written, dice) => { e with dice }.append written.toList

/-- A pass that is finished from its first site on grows the expander by one level. -/
theorem finish_sites (e : Expander σ) : e.finish #[] (e.system.sites e.newest) = e.grow := rfl

theorem finish_cons {e : Expander σ} {written written' : Array Token} {site : Site}
    {left : List Site} {dice : Dice σ}
    (h : emit Dice.choose (written, e.dice) site = (written', dice)) :
    e.finish written (site :: left) = ({ e with dice } : Expander σ).finish written' left := by
  rw [finish, List.foldl_cons, h]
  rfl

/-- The expander once a pass, if there is one under way, is finished. -/
def settle (e : Expander σ) : Option (Array Token × List Site) → Expander σ
  | none => e
  | some (written, left) => e.finish written left

theorem levels_prefix_settle (e : Expander σ) (pass : Option (Array Token × List Site)) :
    e.levels <+: (e.settle pass).levels := by
  cases pass with
  | none => exact List.prefix_rfl
  | some pass =>
      rw [settle, finish, levels_append]
      exact List.prefix_append _ _

end Expander

/-! ## The shared state and its steps -/

/-- An expander with a lock, the stages of the askers, and the levels whose computation was begun,
in order. -/
structure Shared (ι : Type v) (σ : Type u) where
  expander : Expander σ
  holder : Option ι
  stage : ι → Stage
  begun : List Nat

namespace Shared

variable {ι : Type v} {σ : Type u}

/-- Nobody has asked yet. -/
def around (e : Expander σ) : Shared ι σ where
  expander := e
  holder := none
  stage _ := .outside
  begun := []

def setExpander (r : Shared ι σ) (e : Expander σ) : Shared ι σ := { r with expander := e }

def setHolder (r : Shared ι σ) (holder : Option ι) : Shared ι σ := { r with holder }

/-- Notes that the level after the newest one is begun. -/
def record (r : Shared ι σ) : Shared ι σ := { r with begun := r.begun ++ [r.expander.cached] }

variable [DecidableEq ι]

/-- One asker comes to another stage. -/
def put (r : Shared ι σ) (i : ι) (stage : Stage) : Shared ι σ :=
  { r with stage := Function.update r.stage i stage }

@[simp] theorem expander_put (r : Shared ι σ) (i : ι) (stage : Stage) :
    (r.put i stage).expander = r.expander := rfl

@[simp] theorem holder_put (r : Shared ι σ) (i : ι) (stage : Stage) :
    (r.put i stage).holder = r.holder := rfl

@[simp] theorem stage_put_self (r : Shared ι σ) (i : ι) (stage : Stage) :
    (r.put i stage).stage i = stage := by
  simp only [put, Function.update_self]

theorem stage_put_of_ne (r : Shared ι σ) {i j : ι} (h : j ≠ i) (stage : Stage) :
    (r.put i stage).stage j = r.stage j := by
  simp only [put, Function.update_of_ne h]

variable [RandomSource σ]

/-- One step of one asker. Testing the number of levels, reading a level, choosing the block of a
site and adding a level are steps of their own, and others may come between them. -/
inductive Step (wanted : ι → Nat) (r : Shared ι σ) : Shared ι σ → Prop where
  | hit (i) : r.stage i = .outside → wanted i < r.expander.cached →
      Step wanted r (r.put i .found)
  | miss (i) : r.stage i = .outside → r.expander.cached ≤ wanted i →
      Step wanted r (r.put i .waiting)
  | fetch (i) : r.stage i = .found →
      Step wanted r (r.put i (.done (r.expander.wordAt (wanted i))))
  | lock (i) : r.stage i = .waiting → r.holder = none →
      Step wanted r ((r.setHolder (some i)).put i .looking)
  | stop (i) : r.stage i = .looking → wanted i < r.expander.cached →
      Step wanted r (r.put i .reading)
  | begin (i) : r.stage i = .looking → r.expander.cached ≤ wanted i →
      Step wanted r
        (r.record.put i (.passing #[] (r.expander.system.sites r.expander.newest)))
  | visit (i) {written site left written' dice} : r.stage i = .passing written (site :: left) →
      emit Dice.choose (written, r.expander.dice) site = (written', dice) →
      Step wanted r ((r.setExpander { r.expander with dice }).put i (.passing written' left))
  | append (i) {written} : r.stage i = .passing written [] →
      Step wanted r ((r.setExpander (r.expander.append written.toList)).put i .looking)
  | read (i) : r.stage i = .reading →
      Step wanted r (r.put i (.leaving (r.expander.wordAt (wanted i))))
  | unlock (i) {word} : r.stage i = .leaving word →
      Step wanted r ((r.setHolder none).put i (.done word))

/-- What can come of a shared state, by any number of steps of any askers. -/
abbrev Reaches (wanted : ι → Nat) : Shared ι σ → Shared ι σ → Prop :=
  Relation.ReflTransGen (Step wanted)

end Shared

end LSystem
