import LSystem.Proofs.Concurrency.Progress
import LSystem.Proofs.Levels.QueryOrder

/-! # Askers at the same time and askers one after the other

However the steps of the askers are mixed, each of them gets the word that it would get if it were
alone, and what they leave behind is what one request for the highest of their levels leaves. -/

namespace LSystem.Shared

open Expander

variable {ι : Type v} {σ : Type u} [RandomSource σ]
variable {wanted : ι → Nat} {start fresh : Expander σ} {r : Shared ι σ} {i : ι}

/-! ## While askers are at work -/

theorem Sequential.mem_begun (h : Sequential wanted start r) {n : Nat} :
    n ∈ r.begun ↔ start.cached ≤ n ∧ n < r.settled.cached := by
  rw [h.begun_eq, List.mem_range'_1, h.cached_settled]

theorem Sequential.levels_eq (hfresh : fresh.cached = 1) {k : Nat}
    (h : Sequential wanted (growBy k fresh) r) :
    r.expander.levels = (List.range r.expander.cached).map (fun n => (fresh.level n).1) := by
  have hprefix := levels_prefix_settled r
  have hcached := cached_le_settled r
  rw [h.cached_settled, cached_growBy_fresh hfresh] at hcached
  rw [h.grown, ← growBy_add, levels_growBy hfresh] at hprefix
  have htake := List.prefix_iff_eq_take.mp hprefix
  rw [length_levels, ← List.map_take, List.take_range, Nat.min_eq_left (by omega)] at htake
  exact htake

theorem Sequential.word_eq (hfresh : fresh.cached = 1) {k : Nat}
    (h : Sequential wanted (growBy k fresh) r) {word : Word} (hdone : r.stage i = .done word) :
    word = (fresh.level (wanted i)).1 := by
  have hfits := h.fitting i
  rw [hdone] at hfits
  obtain ⟨hn, rfl⟩ := hfits
  have hword := getElem?_levels r.expander hn
  rw [h.levels_eq hfresh, List.getElem?_map, List.getElem?_range hn] at hword
  exact (Option.some.inj hword).symm

/-! ## When all askers are done -/

/-- The levels that were begun are those that one request for the highest level needs. -/
theorem Sequential.expander_eq [Fintype ι] (h : Sequential wanted start r)
    (hdone : ∀ i, ∃ word, r.stage i = .done word) :
    r.expander = (start.level (Finset.univ.sup wanted)).2 := by
  have hsettled := settled_of_free (h.locked.holder_eq_none hdone)
  have hcached := h.cached_settled
  have henough : Finset.univ.sup wanted < r.settled.cached := by
    refine (Finset.sup_lt_iff r.settled.cached_pos).mpr ?_
    intro i _
    obtain ⟨word, hi⟩ := hdone i
    have hfits := h.fitting i
    rw [hi, ← hsettled] at hfits
    exact hfits.1
  have hneeded : ∀ n ∈ r.begun, n ≤ Finset.univ.sup wanted := by
    intro n hn
    obtain ⟨i, hi⟩ := h.needed n hn
    exact hi.trans (Finset.le_sup (Finset.mem_univ i))
  have hlength : r.begun.length = Finset.univ.sup wanted + 1 - start.cached := by
    by_cases hnone : r.begun.length = 0
    · omega
    · have hlast := hneeded (r.settled.cached - 1) (h.mem_begun.mpr (by omega))
      omega
  rw [← hsettled, h.grown, hlength]
  rfl

/-! ## Runs -/

/-- What holds at every moment of a run, with a fresh expander to compare with and the one that
the askers found. -/
structure RunSpec [DecidableEq ι] [Fintype ι] (wanted : ι → Nat) (fresh start : Expander σ)
    (r : Shared ι σ) : Prop where
  /-- Whoever is done has the word that a fresh expander gives for its level. -/
  answers : ∀ i word, r.stage i = .done word → word = (fresh.level (wanted i)).1
  /-- No level is computed twice. -/
  once : r.begun.Nodup
  begun_of_new : ∀ n, start.cached ≤ n → n < r.expander.cached → n ∈ r.begun
  new_of_begun : ∀ n ∈ r.begun, start.cached ≤ n
  levels : r.expander.levels = (List.range r.expander.cached).map (fun n => (fresh.level n).1)
  /-- In the end the whole state is that of one request for the highest level. -/
  finished : (∀ i, ∃ word, r.stage i = .done word) →
    r.expander = (start.level (Finset.univ.sup wanted)).2
  /-- The run cannot go on for ever, and it stops only when everybody is done. -/
  ends : Acc (fun later earlier => Step wanted earlier later) r
  stops : (∀ r', ¬ Step wanted r r') → ∀ i, ∃ word, r.stage i = .done word

/-- Askers may begin with any expander that requests have led to. -/
theorem run_spec [DecidableEq ι] [Fintype ι] (s : System) (source : σ) (before : List Json)
    (hrun : Reaches wanted (around ((ofSystem s source).requests before).2) r) :
    RunSpec wanted (ofSystem s source) ((ofSystem s source).requests before).2 r := by
  have hfresh : (ofSystem s source).cached = 1 := rfl
  have hstart := requests_fresh hfresh before
  have h := (sequential_around wanted _).reaches hrun
  refine ⟨?_, ?_, ?_, ?_, ?_, h.expander_eq, h.locked.acc, ?_⟩
  · intro i word hdone
    rw [hstart] at h
    exact h.word_eq hfresh hdone
  · rw [h.begun_eq]
    exact List.nodup_range'
  · intro n hnew hn
    rw [h.mem_begun]
    exact ⟨hnew, Nat.lt_of_lt_of_le hn (cached_le_settled r)⟩
  · intro n hn
    exact (h.mem_begun.mp hn).1
  · rw [hstart] at h
    exact h.levels_eq hfresh
  · intro hstuck i
    by_contra hi
    obtain ⟨r', hstep⟩ := h.locked.exists_step wanted (i := i) (not_exists.mp hi)
    exact hstuck r' hstep

/-- One asker grows a level and the other reads the start word meanwhile. -/
theorem run_spec_algae :
    ∃ r : Shared Bool Twister,
      Reaches (fun i => if i then 1 else 0)
        (around ((ofSystem .algae (Twister.ofSeed 7)).requests [.null, .int 0]).2) r ∧
      (∀ i, ∃ word, r.stage i = .done word) ∧
      RunSpec (fun i => if i then 1 else 0) (ofSystem .algae (Twister.ofSeed 7))
        ((ofSystem .algae (Twister.ofSeed 7)).requests [.null, .int 0]).2 r := by
  obtain ⟨r, hrun, hdone⟩ : ∃ r : Shared Bool Twister,
      Reaches (fun i => if i then 1 else 0)
        (around ((ofSystem .algae (Twister.ofSeed 7)).requests [.null, .int 0]).2) r ∧
      ∀ i, ∃ word, r.stage i = .done word := by
    refine ⟨?after, ?run, ?done⟩
    case run =>
      refine .head (.miss true rfl (by decide)) ?_
      refine .head (.lock true rfl rfl) ?_
      refine .head (.begin true rfl (by decide)) ?_
      refine .head (.hit false rfl (by decide)) ?_
      refine .head (.visit true rfl (Prod.eta _).symm) ?_
      refine .head (.fetch false rfl) ?_
      refine .head (.append true rfl) ?_
      refine .head (.stop true rfl (by decide)) ?_
      refine .head (.read true rfl) ?_
      refine .head (.unlock true rfl) ?_
      exact .refl
    case done =>
      intro i
      cases i with
      | false => exact ⟨_, rfl⟩
      | true => exact ⟨_, rfl⟩
  exact ⟨r, hrun, hdone, run_spec .algae (Twister.ofSeed 7) [.null, .int 0] hrun⟩

end LSystem.Shared
