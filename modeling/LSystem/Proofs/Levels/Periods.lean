import LSystem.Proofs.Levels.Lockstep

/-! # Runs that come back to a word

A word says by itself whether the pass over it draws. So when a run comes to a word that it had before, and
has drawn nothing in between, it goes through the same words again and again and never draws any more. -/

namespace LSystem

variable {σ : Type u} [RandomSource σ]

namespace System

/-- No place of the word has several candidates. -/
def Decided (s : System) (word : Word) : Prop := LSystem.drawBounds (s.sites word) = []

/-- The word that follows a word in which nothing is to be chosen. -/
def decidedNext (s : System) (word : Word) : Word :=
  (s.sites word).flatMap (fun site => site.candidates.headD [site.token])

theorem rewrite_of_decided {s : System} {word : Word} (h : s.Decided word) (dice : Dice σ) :
    s.rewrite Dice.choose word dice = (s.decidedNext word, dice) :=
  rewriteSites_of_drawBounds_eq_nil h dice

end System

namespace Expander

theorem draws_grow (e : Expander σ) :
    e.grow.draws = e.draws + (drawBounds (e.system.sites e.newest)).length := by
  rw [draws, dice_grow, System.rewrite]
  exact congrArg (fun pass => pass.2.draws)
    (rewriteSites_choose (e.system.sites e.newest) e.dice.source e.dice.draws)

theorem draws_grow_eq_iff {e : Expander σ} :
    e.grow.draws = e.draws ↔ e.system.Decided e.newest := by
  rw [draws_grow, System.Decided, ← List.length_eq_zero_iff]
  exact Nat.add_eq_left

end Expander

namespace System

variable {s : System} {source : σ}

/-! ## One pass -/

theorem newest_run_succ {k : Nat} (h : s.Decided (s.run source k).newest) :
    (s.run source (k + 1)).newest = s.decidedNext (s.run source k).newest := by
  rw [run_succ, Expander.newest_grow, system_run, rewrite_of_decided h]

theorem dice_run_succ {k : Nat} (h : s.Decided (s.run source k).newest) :
    (s.run source (k + 1)).dice = (s.run source k).dice := by
  rw [run_succ, Expander.dice_grow, system_run, rewrite_of_decided h]

/-- Draws are never taken back, so between two levels with as many draws each pass was decided. -/
theorem decided_of_draws_eq {i j : Nat} (h : (s.run source j).draws = (s.run source i).draws)
    {k : Nat} (hi : i ≤ k) (hj : k < j) : s.Decided (s.run source k).newest := by
  have hbefore : (s.run source i).draws ≤ (s.run source k).draws := draws_run_mono s source hi
  have hpass : (s.run source k).draws ≤ (s.run source (k + 1)).draws :=
    draws_run_mono s source (Nat.le_succ k)
  have hafter : (s.run source (k + 1)).draws ≤ (s.run source j).draws := draws_run_mono s source hj
  have hsame : (s.run source k).grow.draws = (s.run source k).draws := by
    rw [← run_succ]
    omega
  rw [Expander.draws_grow_eq_iff, system_run] at hsame
  exact hsame

/-! ## The run from there on -/

/-- A run is at a word again after `p` decided passes. -/
structure Returns (s : System) (source : σ) (i p : Nat) : Prop where
  pos : 0 < p
  word : (s.run source (i + p)).newest = (s.run source i).newest
  decided : ∀ k < p, s.Decided (s.run source (i + k)).newest

namespace Returns

variable {i p : Nat} (h : s.Returns source i p)
include h

/-- Each later word is the one `p` levels after it, and is decided because it is also the one `p` levels
before it, if there is one. -/
theorem forever (k : Nat) :
    s.Decided (s.run source (i + k)).newest ∧
      (s.run source (i + p + k)).newest = (s.run source (i + k)).newest := by
  induction k using Nat.strongRecOn with
  | ind k ih =>
      have hdecided : s.Decided (s.run source (i + k)).newest := by
        rcases Nat.lt_or_ge k p with hfirst | hlater
        · exact h.decided k hfirst
        · obtain ⟨before, rfl⟩ := Nat.exists_eq_add_of_le hlater
          have hp := h.pos
          obtain ⟨hbefore, hsame⟩ := ih before (by omega)
          rw [← Nat.add_assoc, hsame]
          exact hbefore
      refine ⟨hdecided, ?_⟩
      cases k with
      | zero => exact h.word
      | succ k =>
          obtain ⟨hlast, hsame⟩ := ih k (Nat.lt_succ_self k)
          have hlast' : s.Decided (s.run source (i + p + k)).newest := by rwa [hsame]
          rw [← Nat.add_assoc, ← Nat.add_assoc, newest_run_succ hlast', newest_run_succ hlast, hsame]

/-- The source is never asked again. -/
theorem dice_eq (k : Nat) : (s.run source (i + k)).dice = (s.run source i).dice := by
  induction k with
  | zero => rfl
  | succ k ih =>
      rw [← Nat.add_assoc, dice_run_succ (h.forever k).1, ih]

end Returns

end System

namespace Expander

variable {s : System} {source : σ}

theorem newest_run (n : Nat) : (s.run source n).newest = ((ofSystem s source).level n).1 := by
  rw [System.run_eq_growBy, newest_growBy (cached_ofSystem s source)]

theorem returns_of_level_eq {i j : Nat} (hij : i < j)
    (hword : ((ofSystem s source).level j).1 = ((ofSystem s source).level i).1)
    (hdraws : ((ofSystem s source).level j).2.draws = ((ofSystem s source).level i).2.draws) :
    s.Returns source i (j - i) where
  pos := Nat.sub_pos_of_lt hij
  word := by rw [Nat.add_sub_cancel' hij.le, newest_run, newest_run, hword]
  decided := by
    intro k hk
    exact System.decided_of_draws_eq hdraws (Nat.le_add_right i k) (by omega)

/-- If two levels are the same word and nothing was drawn from the one to the other, then the levels repeat
themselves from there on and nothing is ever drawn any more. If they are neighbours, all later levels are this
word. -/
theorem level_periodic {i j : Nat} (hij : i < j)
    (hword : ((ofSystem s source).level j).1 = ((ofSystem s source).level i).1)
    (hdraws : ((ofSystem s source).level j).2.draws = ((ofSystem s source).level i).2.draws) :
    (∀ m, i ≤ m →
      ((ofSystem s source).level (m + (j - i))).1 = ((ofSystem s source).level m).1 ∧
      ((ofSystem s source).level m).2.draws = ((ofSystem s source).level i).2.draws ∧
      ((ofSystem s source).level m).2.dice.source = ((ofSystem s source).level i).2.dice.source) ∧
    (j = i + 1 → ∀ m, i ≤ m → ((ofSystem s source).level m).1 = ((ofSystem s source).level i).1) := by
  have hreturns := returns_of_level_eq hij hword hdraws
  have hperiod : ∀ m, i ≤ m →
      ((ofSystem s source).level (m + (j - i))).1 = ((ofSystem s source).level m).1 := by
    intro m hm
    obtain ⟨k, rfl⟩ := Nat.exists_eq_add_of_le hm
    rw [← newest_run, ← newest_run, Nat.add_right_comm]
    exact (hreturns.forever k).2
  refine ⟨?_, ?_⟩
  · intro m hm
    have hdice : ((ofSystem s source).level m).2.dice = ((ofSystem s source).level i).2.dice := by
      obtain ⟨k, rfl⟩ := Nat.exists_eq_add_of_le hm
      exact hreturns.dice_eq k
    exact ⟨hperiod m hm, congrArg Dice.draws hdice, congrArg Dice.source hdice⟩
  · rintro rfl m hm
    induction m, hm using Nat.le_induction with
    | base => rfl
    | succ m hm ih =>
        have hnext := hperiod m hm
        rw [Nat.add_sub_cancel_left] at hnext
        rw [hnext, ih]

end Expander

/-- A token that becomes one of two others, which then take turns. -/
def Grammar.blinker : Grammar where
  start := ["S"]
  rules := .ofList [("S", [["A"], ["B", "C"]]), ("A", [["B"]]), ("B", [["A"]]), ("C", [[]])]
  contextRules := []
  name := "Blinker"

def System.blinker : System :=
  ⟨.blinker, [.ofToken "S" [["A"], ["B", "C"]], .ofToken "A" [["B"]], .ofToken "B" [["A"]],
    .ofToken "C" [[]]], false⟩

/-- The only draw is made for level 1. Level 3 is not the same as level 2, but level 4 is. -/
theorem level_periodic_blinker :
    ((Expander.ofSystem System.blinker (Replay.mk [1])).level 3).1 ≠
      ((Expander.ofSystem System.blinker (Replay.mk [1])).level 2).1 ∧
    ((Expander.ofSystem System.blinker (Replay.mk [1])).level 4).1 =
      ((Expander.ofSystem System.blinker (Replay.mk [1])).level 2).1 ∧
    ((Expander.ofSystem System.blinker (Replay.mk [1])).level 4).2.draws =
      ((Expander.ofSystem System.blinker (Replay.mk [1])).level 2).2.draws ∧
    ∀ m, 2 ≤ m →
      ((Expander.ofSystem System.blinker (Replay.mk [1])).level (m + 2)).1 =
        ((Expander.ofSystem System.blinker (Replay.mk [1])).level m).1 ∧
      ((Expander.ofSystem System.blinker (Replay.mk [1])).level m).2.draws = 1 := by
  have hword : ((Expander.ofSystem System.blinker (Replay.mk [1])).level 4).1 =
      ((Expander.ofSystem System.blinker (Replay.mk [1])).level 2).1 := by decide
  have hdraws : ((Expander.ofSystem System.blinker (Replay.mk [1])).level 4).2.draws =
      ((Expander.ofSystem System.blinker (Replay.mk [1])).level 2).2.draws := by decide
  refine ⟨by decide, hword, hdraws, ?_⟩
  intro m hm
  obtain ⟨hperiod, hnone, -⟩ := (Expander.level_periodic (by decide) hword hdraws).1 m hm
  exact ⟨hperiod, hnone⟩

end LSystem
