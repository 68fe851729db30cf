import LSystem.Proofs.Concurrency.Invariant
import Mathlib.Algebra.Order.BigOperators.Group.Finset
import Mathlib.Data.Finset.Lattice.Fold
import Mathlib.Data.Fintype.Basic
import Mathlib.Data.Prod.Lex
import Mathlib.Order.Lattice.Nat

/-! # Every run comes to an end

Every step begins a level that is missing or brings its asker nearer to its word, so there is no
endless run, however the askers take turns. A run stops only when all of them are done. -/

namespace LSystem

/-- The number of steps that an asker has before it, but for the levels it has yet to begin. -/
def Stage.rank : Stage → Nat
  | outside => 5
  | waiting => 4
  | passing _ left => left.length + 4
  | looking => 3
  | reading => 2
  | found | leaving _ => 1
  | done _ => 0

namespace Shared

variable {ι : Type v} {σ : Type u}

/-! ## Steps left -/

section Measure

variable [Fintype ι]

def effort (r : Shared ι σ) : Nat := ∑ i, (r.stage i).rank

/-- The levels left to be begun and then the steps left to the askers. -/
def remaining [RandomSource σ] (wanted : ι → Nat) (r : Shared ι σ) : Nat ×ₗ Nat :=
  toLex (Finset.univ.sup wanted + 1 - r.settled.cached, r.effort)

variable [DecidableEq ι]

theorem effort_put_lt {r : Shared ι σ} {i : ι} {before after : Stage} (hi : r.stage i = before)
    (hrank : after.rank < before.rank) : (r.put i after).effort < r.effort := by
  refine Finset.sum_lt_sum ?_ ⟨i, Finset.mem_univ i, ?_⟩
  · intro j _
    by_cases hj : j = i
    · rw [hj, stage_put_self, hi]
      exact Nat.le_of_lt hrank
    · rw [stage_put_of_ne r hj]
  · rwa [stage_put_self, hi]

variable [RandomSource σ] {wanted : ι → Nat} {r r' : Shared ι σ}

theorem Step.effort_lt (hstep : Step wanted r r') (hbegun : r'.begun = r.begun) :
    r'.effort < r.effort := by
  cases hstep with
  | hit i hi _ | miss i hi _ | stop i hi _ => exact effort_put_lt hi (by decide)
  | fetch i hi | read i hi => exact effort_put_lt hi (by simp [Stage.rank])
  | lock i hi _ => exact effort_put_lt (r := r.setHolder _) hi (by decide)
  | begin => exact absurd hbegun (by simp [put, record])
  | visit i hi _ => exact effort_put_lt (r := r.setExpander _) hi (by simp [Stage.rank])
  | append i hi => exact effort_put_lt (r := r.setExpander _) hi (by simp [Stage.rank])
  | unlock i hi => exact effort_put_lt (r := r.setHolder _) hi (by simp [Stage.rank])

theorem Step.remaining_lt (hlocked : r.Locked) (hstep : Step wanted r r') :
    r'.remaining wanted < r.remaining wanted := by
  rw [remaining, remaining, Prod.Lex.toLex_lt_toLex]
  rcases hstep.settled hlocked with ⟨hsettled, hbegun⟩ | ⟨i, hneeded, hsettled, -⟩
  · refine .inr ⟨?_, hstep.effort_lt hbegun⟩
    rw [hsettled]
  · have hi : wanted i ≤ Finset.univ.sup wanted := Finset.le_sup (Finset.mem_univ i)
    left
    rw [hsettled, Expander.cached_grow]
    omega

/-- No run goes on for ever. -/
theorem Locked.acc (h : r.Locked) : Acc (fun later earlier => Step wanted earlier later) r := by
  induction hm : r.remaining wanted using WellFoundedLT.induction generalizing r with
  | ind m ih =>
      constructor
      intro later hstep
      refine ih _ ?_ (h.step hstep) rfl
      rw [← hm]
      exact hstep.remaining_lt h

end Measure

/-! ## Steps that can be taken -/

section Enabled

variable [DecidableEq ι] [RandomSource σ] {r : Shared ι σ} {i : ι}

/-- Nothing keeps the asker that has the lock from its next step. -/
theorem exists_step_of_inside (wanted : ι → Nat) (hi : (r.stage i).inside = true) :
    ∃ r', Step wanted r r' := by
  cases hstage : r.stage i with
  | looking =>
      rcases Nat.lt_or_ge (wanted i) r.expander.cached with hn | hn
      · exact ⟨_, .stop i hstage hn⟩
      · exact ⟨_, .begin i hstage hn⟩
  | passing written left =>
      cases left with
      | nil => exact ⟨_, .append i hstage⟩
      | cons site left => exact ⟨_, .visit i hstage rfl⟩
  | reading => exact ⟨_, .read i hstage⟩
  | leaving word => exact ⟨_, .unlock i hstage⟩
  | outside | found | waiting | done =>
      rw [hstage] at hi
      cases hi

/-- As long as an asker is not done, one of them can take a step. -/
theorem Locked.exists_step (h : r.Locked) (wanted : ι → Nat) (hi : ∀ word, r.stage i ≠ .done word) :
    ∃ r', Step wanted r r' := by
  cases hholder : r.holder with
  | some j => exact exists_step_of_inside wanted ((h j).mpr hholder)
  | none =>
      cases hstage : r.stage i with
      | outside =>
          rcases Nat.lt_or_ge (wanted i) r.expander.cached with hn | hn
          · exact ⟨_, .hit i hstage hn⟩
          · exact ⟨_, .miss i hstage hn⟩
      | found => exact ⟨_, .fetch i hstage⟩
      | waiting => exact ⟨_, .lock i hstage hholder⟩
      | done word => exact absurd hstage (hi word)
      | looking | passing | reading | leaving =>
          exact exists_step_of_inside wanted (by rw [hstage]; rfl)

end Enabled

end Shared

end LSystem
