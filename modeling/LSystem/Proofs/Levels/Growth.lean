import LSystem.Expander

/-! # Growth of an expander

What an expander holds depends only on the number of levels it has grown since it was fresh. -/

namespace LSystem

theorem System.grammar_of_ofGrammar {g : Grammar} {system : System}
    (h : System.ofGrammar g = .ok system) : system.grammar = g := by
  unfold System.ofGrammar at h
  cases hindex : ContextIndex.ofGrammar g with
  | error offset => rw [hindex] at h; cases h
  | ok index => rw [hindex] at h; cases h; rfl

theorem System.ofGrammar_eq_ok_iff {g : Grammar} {system : System} :
    System.ofGrammar g = .ok system ↔
      ∃ index, ContextIndex.ofGrammar g = .ok index ∧ system = ⟨g, index⟩ := by
  rw [System.ofGrammar]
  cases ContextIndex.ofGrammar g with
  | error offset => simp [Except.map]
  | ok index => simp [Except.map, eq_comm]

namespace Expander

variable {σ : Type u}

/-! ## Levels and their words -/

@[simp] theorem length_levels (e : Expander σ) : e.levels.length = e.cached := by
  simp [levels, cached]

theorem cached_pos (e : Expander σ) : 0 < e.cached := Nat.succ_pos _

theorem getElem?_levels (e : Expander σ) {n : Nat} (h : n < e.cached) :
    e.levels[n]? = some (e.wordAt n) := by
  rcases Nat.lt_or_eq_of_le (Nat.le_of_lt_succ h) with hn | rfl
  · rw [levels, List.getElem?_append_left (by simpa using hn)]
    simp [wordAt, Array.getD, hn]
  · simp [levels, wordAt]

/-- A word that was computed is read off alike after further growth. -/
theorem wordAt_of_prefix {e e' : Expander σ} (h : e.levels <+: e'.levels) {n : Nat}
    (hn : n < e.cached) : e'.wordAt n = e.wordAt n := by
  have hle : e.cached ≤ e'.cached := by simpa using h.length_le
  have hget : e'.levels[n]? = e.levels[n]? := by
    obtain ⟨later, hlater⟩ := h
    rw [← hlater, List.getElem?_append_left (by simpa using hn)]
  rw [getElem?_levels e hn, getElem?_levels e' (Nat.lt_of_lt_of_le hn hle)] at hget
  exact Option.some.inj hget

@[simp] theorem cached_ofSystem (system : System) (source : σ) :
    (ofSystem system source).cached = 1 := rfl

@[simp] theorem levels_ofSystem (system : System) (source : σ) :
    (ofSystem system source).levels = [system.grammar.start] := rfl

variable [RandomSource σ]

/-! ## Growing in several goes -/

@[simp] theorem growBy_zero (e : Expander σ) : growBy 0 e = e := rfl

theorem growBy_add (m n : Nat) (e : Expander σ) : growBy (m + n) e = growBy n (growBy m e) := by
  induction m generalizing e with
  | zero => rw [Nat.zero_add, growBy_zero]
  | succ m ih => rw [Nat.succ_add, growBy, growBy, ih]

theorem growBy_succ (n : Nat) (e : Expander σ) : growBy (n + 1) e = (growBy n e).grow :=
  growBy_add n 1 e

@[simp] theorem system_grow (e : Expander σ) : e.grow.system = e.system := rfl

theorem newest_grow (e : Expander σ) :
    e.grow.newest = (e.system.rewrite Dice.choose e.newest e.dice).1 := rfl

@[simp] theorem system_growBy (n : Nat) (e : Expander σ) : (growBy n e).system = e.system := by
  induction n with
  | zero => rfl
  | succ n ih => rw [growBy_succ, system_grow, ih]

theorem levels_prefix_grow (e : Expander σ) : e.levels <+: e.grow.levels := by
  rw [levels_grow]
  exact List.prefix_append _ _

theorem levels_prefix_growBy (n : Nat) (e : Expander σ) : e.levels <+: (growBy n e).levels := by
  induction n with
  | zero => exact List.prefix_rfl
  | succ n ih =>
      rw [growBy_succ]
      exact ih.trans (levels_prefix_grow _)

theorem levels_growBy_mono (e : Expander σ) {m n : Nat} (h : m ≤ n) :
    (growBy m e).levels <+: (growBy n e).levels := by
  obtain ⟨k, rfl⟩ := Nat.exists_eq_add_of_le h
  rw [growBy_add]
  exact levels_prefix_growBy k _

/-! ## Growing from a fresh expander

An expander is fresh while its start word is the only level it holds. -/

section Fresh

variable {fresh : Expander σ} (hfresh : fresh.cached = 1)
include hfresh

theorem cached_growBy_fresh (k : Nat) : (growBy k fresh).cached = k + 1 := by
  rw [cached_growBy, hfresh, Nat.add_comm]

/-- Only the highest of two levels counts. -/
theorem reach_growBy (k n : Nat) : (growBy k fresh).reach n = growBy (max k n) fresh := by
  rw [reach, cached_growBy_fresh hfresh, ← growBy_add]
  congr 1
  omega

theorem reach_fresh (n : Nat) : fresh.reach n = growBy n fresh := by
  simpa using reach_growBy hfresh 0 n

theorem wordAt_growBy {k n : Nat} (h : n ≤ k) : (growBy k fresh).wordAt n = (fresh.level n).1 := by
  rw [level, reach_fresh hfresh]
  refine wordAt_of_prefix (levels_growBy_mono fresh h) ?_
  rw [cached_growBy_fresh hfresh]
  exact Nat.lt_succ_self n

/-- Whatever was grown before, a level has the word it has for a fresh expander. -/
theorem level_growBy (k n : Nat) :
    (growBy k fresh).level n = ((fresh.level n).1, growBy (max k n) fresh) := by
  rw [level, reach_growBy hfresh, wordAt_growBy hfresh (Nat.le_max_right k n)]

theorem level_snd_fresh (n : Nat) : (fresh.level n).2 = growBy n fresh := by
  rw [level, reach_fresh hfresh]

theorem newest_growBy (n : Nat) : (growBy n fresh).newest = (fresh.level n).1 := by
  have hsize : (growBy n fresh).older.size = n := Nat.succ.inj (cached_growBy_fresh hfresh n)
  rw [← wordAt_growBy hfresh (Nat.le_refl n), wordAt]
  simp [Array.getD, hsize]

/-- A level is what a pass makes of the level before it. -/
theorem level_succ (n : Nat) :
    (fresh.level (n + 1)).1 =
      (fresh.system.rewrite Dice.choose (fresh.level n).1 (growBy n fresh).dice).1 := by
  rw [← newest_growBy hfresh, growBy_succ, newest_grow, system_growBy, newest_growBy hfresh]

/-- The levels held are those that a fresh expander gives when it is asked for one only. -/
theorem levels_growBy (k : Nat) :
    (growBy k fresh).levels = (List.range (k + 1)).map (fun n => (fresh.level n).1) := by
  have hcached := cached_growBy_fresh hfresh k
  apply List.ext_getElem?
  intro n
  by_cases hn : n < k + 1
  · rw [getElem?_levels _ (by rwa [hcached]), wordAt_growBy hfresh (Nat.le_of_lt_succ hn)]
    simp [hn]
  · rw [List.getElem?_eq_none (by rw [length_levels, hcached]; omega),
      List.getElem?_eq_none (by simpa using hn)]

end Fresh

end Expander

end LSystem
