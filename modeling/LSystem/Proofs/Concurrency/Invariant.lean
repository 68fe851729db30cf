import LSystem.Proofs.Concurrency.Semantics

/-! # What every step keeps

At every moment one asker at most is at a pass. Once that pass is finished, the expander is the one
that growth without any other askers would give. -/

namespace LSystem.Shared

open Expander

/-! ## The lock -/

section Lock

variable {ι : Type v} {σ : Type u} {wanted : ι → Nat} {r r' : Shared ι σ} {i : ι}

/-- The asker that holds the lock, and no other, is inside. -/
def Locked (r : Shared ι σ) : Prop := ∀ i, (r.stage i).inside = true ↔ r.holder = some i

theorem locked_around (e : Expander σ) : (around e : Shared ι σ).Locked := by
  intro i
  simp [around, Stage.inside]

theorem Locked.holder_eq (h : r.Locked) {stage : Stage} (hi : r.stage i = stage)
    (hinside : stage.inside = true) : r.holder = some i := by
  apply (h i).mp
  rw [hi, hinside]

theorem Locked.holder_ne (h : r.Locked) {stage : Stage} (hi : r.stage i = stage)
    (hinside : stage.inside = false) : r.holder ≠ some i := by
  intro hheld
  have hin := (h i).mpr hheld
  rw [hi, hinside] at hin
  cases hin

theorem Locked.holder_eq_none (h : r.Locked) (hdone : ∀ i, ∃ word, r.stage i = .done word) :
    r.holder = none := by
  cases hholder : r.holder with
  | none => rfl
  | some i =>
      obtain ⟨word, hi⟩ := hdone i
      exact absurd hholder (h.holder_ne hi rfl)

variable [DecidableEq ι]

theorem Locked.put (h : r.Locked) {before after : Stage} (hi : r.stage i = before)
    (hinside : after.inside = before.inside) : (r.put i after).Locked := by
  intro j
  by_cases hj : j = i
  · rw [hj, stage_put_self, hinside, ← hi]
    exact h i
  · rw [stage_put_of_ne r hj]
    exact h j

theorem Locked.take (h : r.Locked) (hfree : r.holder = none) :
    ((r.setHolder (some i)).put i .looking).Locked := by
  intro j
  by_cases hj : j = i
  · simp [hj, setHolder, Stage.inside]
  · have hout : ¬ (r.stage j).inside = true := by
      rw [h j, hfree]
      simp
    simp [stage_put_of_ne _ hj, setHolder, hout, Ne.symm hj]

theorem Locked.give (h : r.Locked) (hheld : r.holder = some i) (word : Word) :
    ((r.setHolder none).put i (.done word)).Locked := by
  intro j
  by_cases hj : j = i
  · simp [hj, setHolder, Stage.inside]
  · have hout : ¬ (r.stage j).inside = true := by
      rw [h j, hheld]
      simp [Ne.symm hj]
    simp [stage_put_of_ne _ hj, setHolder, hout]

theorem Locked.step [RandomSource σ] (h : r.Locked) (hstep : Step wanted r r') : r'.Locked := by
  cases hstep with
  | hit i hi _ | miss i hi _ | fetch i hi | stop i hi _ | read i hi => exact h.put hi rfl
  | lock i _ hfree => exact h.take hfree
  | begin i hi _ => exact Locked.put (r := r.record) h hi rfl
  | visit i hi _ | append i hi => exact Locked.put (r := r.setExpander _) h hi rfl
  | unlock i hi => exact h.give (h.holder_eq hi rfl) _

end Lock

/-! ## The pass under way -/

section Pass

variable {ι : Type v} {σ : Type u} [RandomSource σ]
variable {wanted : ι → Nat} {r r' : Shared ι σ} {i : ι}

/-- The expander once the pass of the asker inside, if it is at one, is finished. -/
def settled (r : Shared ι σ) : Expander σ :=
  r.expander.settle (r.holder.bind (fun i => (r.stage i).underWay))

theorem settled_of_free (h : r.holder = none) : r.settled = r.expander := by
  rw [settled, h]
  rfl

theorem settled_of_held (h : r.holder = some i) :
    r.settled = r.expander.settle (r.stage i).underWay := by
  rw [settled, h]
  rfl

theorem levels_prefix_settled (r : Shared ι σ) : r.expander.levels <+: r.settled.levels :=
  levels_prefix_settle _ _

theorem cached_le_settled (r : Shared ι σ) : r.expander.cached ≤ r.settled.cached := by
  simpa using (levels_prefix_settled r).length_le

variable [DecidableEq ι]

theorem settled_put (h : r.holder = some i) (stage : Stage) :
    (r.put i stage).settled = r.expander.settle stage.underWay := by
  rw [settled_of_held (r := r.put i stage) h, stage_put_self, expander_put]

/-- An asker without the lock has no part in the pass. -/
theorem settled_put_of_ne (h : r.holder ≠ some i) (stage : Stage) :
    (r.put i stage).settled = r.settled := by
  cases hholder : r.holder with
  | none => rw [settled_of_free hholder, settled_of_free (r := r.put i stage) hholder, expander_put]
  | some j =>
      have hj : j ≠ i := by
        rintro rfl
        exact h hholder
      rw [settled_of_held hholder, settled_of_held (r := r.put i stage) hholder,
        stage_put_of_ne r hj, expander_put]

/-- A step either leaves the settled expander as it is or begins a level that its asker needs. -/
theorem Step.settled (hlocked : r.Locked) (hstep : Step wanted r r') :
    (r'.settled = r.settled ∧ r'.begun = r.begun) ∨
      ∃ i, r.settled.cached ≤ wanted i ∧ r'.settled = r.settled.grow ∧
        r'.begun = r.begun ++ [r.settled.cached] := by
  cases hstep with
  | hit i hi _ | miss i hi _ | fetch i hi =>
      exact .inl ⟨settled_put_of_ne (hlocked.holder_ne hi rfl) _, rfl⟩
  | lock i _ hfree =>
      refine .inl ⟨?_, rfl⟩
      rw [settled_of_free hfree, settled_put (r := r.setHolder _) rfl]
      rfl
  | stop i hi _ | read i hi =>
      have hheld := hlocked.holder_eq hi rfl
      refine .inl ⟨?_, rfl⟩
      rw [settled_of_held hheld, hi, settled_put hheld]
      rfl
  | begin i hi hshort =>
      have hheld := hlocked.holder_eq hi rfl
      have hsettled : r.settled = r.expander := by
        rw [settled_of_held hheld, hi]
        rfl
      refine .inr ⟨i, ?_, ?_, ?_⟩
      · rwa [hsettled]
      · rw [settled_put (r := r.record) hheld, hsettled]
        exact finish_sites r.expander
      · rw [hsettled]
        rfl
  | visit i hi hemit =>
      have hheld := hlocked.holder_eq hi rfl
      refine .inl ⟨?_, rfl⟩
      rw [settled_of_held hheld, hi]
      refine (settled_put ?_ _).trans ?_
      · exact hheld
      · exact (finish_cons hemit).symm
  | append i hi =>
      have hheld := hlocked.holder_eq hi rfl
      refine .inl ⟨?_, rfl⟩
      rw [settled_of_held hheld, hi]
      refine (settled_put ?_ _).trans ?_
      · exact hheld
      · rfl
  | unlock i hi =>
      refine .inl ⟨?_, rfl⟩
      rw [settled_of_held (hlocked.holder_eq hi rfl), hi, settled_of_free rfl]
      rfl

end Pass

/-! ## Levels and stages -/

section Levels

variable {ι : Type v} {σ : Type u} {wanted : ι → Nat} {r r' : Shared ι σ}

/-- The stages fit the requests and the levels that are there. -/
def Fitting (wanted : ι → Nat) (r : Shared ι σ) : Prop :=
  ∀ i, (r.stage i).Fits (wanted i) r.expander

theorem fitting_around (wanted : ι → Nat) (e : Expander σ) : Fitting wanted (around e) :=
  fun _ => trivial

theorem Fitting.setExpander (h : Fitting wanted r) {e : Expander σ}
    (hlevels : r.expander.levels <+: e.levels) : Fitting wanted (r.setExpander e) :=
  fun i => (h i).mono hlevels

variable [DecidableEq ι]

theorem Fitting.put (h : Fitting wanted r) {i : ι} {stage : Stage}
    (hstage : stage.Fits (wanted i) r.expander) : Fitting wanted (r.put i stage) := by
  intro j
  by_cases hj : j = i
  · rw [hj, stage_put_self]
    exact hstage
  · rw [stage_put_of_ne r hj]
    exact h j

variable [RandomSource σ]

theorem Step.levels_prefix (hstep : Step wanted r r') :
    r.expander.levels <+: r'.expander.levels := by
  cases hstep with
  | append i hi =>
      rw [expander_put, setExpander, levels_append]
      exact List.prefix_append _ _
  | hit | miss | fetch | lock | stop | begin | visit | read | unlock => exact List.prefix_rfl

theorem Fitting.step (h : Fitting wanted r) (hstep : Step wanted r r') : Fitting wanted r' := by
  have hlevels := hstep.levels_prefix
  cases hstep with
  | hit i _ hn | stop i _ hn => exact h.put hn
  | fetch i hi | read i hi =>
      have hfits := h i
      rw [hi] at hfits
      exact h.put ⟨hfits, rfl⟩
  | miss => exact h.put trivial
  | lock => exact Fitting.put (r := r.setHolder _) h trivial
  | begin => exact Fitting.put (r := r.record) h trivial
  | visit | append => exact (h.setExpander hlevels).put trivial
  | unlock i hi =>
      have hfits := h i
      rw [hi] at hfits
      exact Fitting.put (r := r.setHolder _) h hfits

end Levels

/-! ## The invariant -/

section Invariant

variable {ι : Type v} {σ : Type u} [RandomSource σ]
variable {wanted : ι → Nat} {start : Expander σ} {r r' : Shared ι σ}

/-- The shared state is on the way that one asker alone would take from the start. -/
structure Sequential (wanted : ι → Nat) (start : Expander σ) (r : Shared ι σ) : Prop where
  locked : r.Locked
  fitting : Fitting wanted r
  grown : r.settled = growBy r.begun.length start
  /-- The levels were begun in order and each of them once. -/
  begun_eq : r.begun = List.range' start.cached r.begun.length
  needed : ∀ n ∈ r.begun, ∃ i, n ≤ wanted i

theorem sequential_around (wanted : ι → Nat) (start : Expander σ) :
    Sequential wanted start (around start) := by
  refine ⟨locked_around start, fitting_around wanted start, ?_, rfl, ?_⟩
  · exact settled_of_free rfl
  · intro n hn
    cases hn

theorem Sequential.cached_settled (h : Sequential wanted start r) :
    r.settled.cached = start.cached + r.begun.length := by
  rw [h.grown, cached_growBy]

variable [DecidableEq ι]

theorem Sequential.step (h : Sequential wanted start r) (hstep : Step wanted r r') :
    Sequential wanted start r' := by
  have hlocked := h.locked.step hstep
  have hfitting := h.fitting.step hstep
  rcases hstep.settled h.locked with ⟨hsettled, hbegun⟩ | ⟨i, hneeded, hsettled, hbegun⟩
  · refine ⟨hlocked, hfitting, ?_, ?_, ?_⟩
    · rw [hsettled, hbegun, h.grown]
    · rw [hbegun, ← h.begun_eq]
    · rw [hbegun]
      exact h.needed
  · refine ⟨hlocked, hfitting, ?_, ?_, ?_⟩
    · rw [hsettled, hbegun, List.length_append, List.length_singleton, growBy_succ, h.grown]
    · rw [hbegun, List.length_append, List.length_singleton, List.range'_1_concat, ← h.begun_eq,
        h.cached_settled]
    · intro n hn
      rw [hbegun, List.mem_append, List.mem_singleton] at hn
      rcases hn with hn | rfl
      · exact h.needed n hn
      · exact ⟨i, hneeded⟩

theorem Sequential.reaches (h : Sequential wanted start r) (hrun : Reaches wanted r r') :
    Sequential wanted start r' := by
  induction hrun with
  | refl => exact h
  | tail _ hstep ih => exact ih.step hstep

end Invariant

end LSystem.Shared
