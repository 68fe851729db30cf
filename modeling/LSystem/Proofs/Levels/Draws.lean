import LSystem.Proofs.Levels.QueryOrder
import LSystem.Proofs.Pass.Draws
import LSystem.Proofs.Pass.Sites

/-! # Draws of a run

The levels below the newest one say which draws were made, and the numbers drawn say what the levels
are. The invariant of growth states both at once. -/

namespace LSystem

open RandomSource

/-! ## Draws that words need -/

namespace System

/-- The bounds of the draws that a pass over each of these words needs, in order. -/
def drawBounds (s : System) (words : List Word) : List Nat :=
  words.flatMap (fun word => LSystem.drawBounds (s.sites word))

theorem drawBounds_append_singleton (s : System) (words : List Word) (word : Word) :
    s.drawBounds (words ++ [word]) = s.drawBounds words ++ LSystem.drawBounds (s.sites word) := by
  simp [drawBounds]

/-- A word follows another if each site is replaced by the block it takes, the draws from place
`start` on being those of this pass. -/
def Follows (s : System) (drawn : List Nat) (start : Nat) (word next : Word) : Prop :=
  ∃ blocks : List Word, next = blocks.flatten ∧ blocks.length = word.length ∧
    ∀ i (site : Site) block, (s.sites word)[i]? = some site → blocks[i]? = some block →
      word[i]? = some site.token ∧
        site.Takes drawn (start + (LSystem.drawBounds ((s.sites word).take i)).length) block

theorem Follows.append_right {s : System} {drawn : List Nat} {start : Nat} {word next : Word}
    (h : s.Follows drawn start word next) (later : List Nat) :
    s.Follows (drawn ++ later) start word next := by
  obtain ⟨blocks, hnext, hlength, hblocks⟩ := h
  refine ⟨blocks, hnext, hlength, ?_⟩
  intro i site block hsite hblock
  obtain ⟨htoken, htakes⟩ := hblocks i site block hsite hblock
  exact ⟨htoken, htakes.append_right later⟩

/-- What a pass writes follows by the numbers it draws, whatever was drawn before. -/
theorem follows_rewrite {σ : Type u} [RandomSource σ] (s : System) (word : Word)
    (dice : Dice σ) (earlier : List Nat) :
    s.Follows (earlier ++ (rolls (LSystem.drawBounds (s.sites word)) dice.source).1)
      earlier.length word (s.rewrite Dice.choose word dice).1 := by
  have hpositive : ∀ bound ∈ LSystem.drawBounds (s.sites word), 0 < bound := pos_of_mem_drawBounds
  have hrange := rolls_lt hpositive dice.source
  refine ⟨fill (s.sites word) (rolls (LSystem.drawBounds (s.sites word)) dice.source).1, ?_, ?_, ?_⟩
  · rw [rewrite, rewriteSites_choose]
  · simp
  · intro i site block hsite hblock
    exact ⟨getElem?_word hsite, (takes_of_fill hrange hsite hblock).append_left earlier⟩

end System

namespace Expander

variable {σ : Type u} [RandomSource σ]

/-! ## Growth and draws -/

@[simp] theorem older_grow (e : Expander σ) : e.grow.older = e.older.push e.newest := rfl

theorem dice_grow (e : Expander σ) :
    e.grow.dice = (e.system.rewrite Dice.choose e.newest e.dice).2 := rfl

/-- The bounds of the draws needed for the levels that are held. -/
def bounds (e : Expander σ) : List Nat := e.system.drawBounds e.older.toList

theorem bounds_grow (e : Expander σ) :
    e.grow.bounds = e.bounds ++ drawBounds (e.system.sites e.newest) := by
  rw [bounds, system_grow, older_grow, Array.toList_push, System.drawBounds_append_singleton,
    bounds]

/-- The levels and the dice of an expander are what the draws from a source have made them. -/
structure DrawnFrom (start : σ) (e : Expander σ) : Prop where
  draws : e.draws = e.bounds.length
  source : e.dice.source = (rolls e.bounds start).2
  follows : ∀ k word next, e.levels[k]? = some word → e.levels[k + 1]? = some next →
    e.system.Follows (rolls e.bounds start).1 (e.system.drawBounds (e.levels.take k)).length
      word next

theorem drawnFrom_ofSystem (s : System) (start : σ) : DrawnFrom start (ofSystem s start) := by
  refine ⟨rfl, rfl, ?_⟩
  intro k word next _ hnext
  simp at hnext

theorem DrawnFrom.grow {start : σ} {e : Expander σ} (h : DrawnFrom start e) :
    DrawnFrom start e.grow := by
  have hdice := rewriteSites_choose (e.system.sites e.newest) e.dice.source e.dice.draws
  refine ⟨?_, ?_, ?_⟩
  · rw [Expander.draws, dice_grow, System.rewrite, hdice, bounds_grow, List.length_append,
      ← h.draws]
    rfl
  · rw [dice_grow, System.rewrite, hdice, bounds_grow, rolls_append, h.source]
  · intro k word next hword hnext
    rw [levels_grow] at hword hnext
    rw [system_grow, bounds_grow, rolls_append, levels_grow]
    have hk : k < e.levels.length := by
      have hlt := (List.getElem?_eq_some_iff.mp hnext).1
      rw [List.length_append, List.length_singleton] at hlt
      omega
    rw [List.getElem?_append_left hk] at hword
    rw [List.take_append_of_le_length (Nat.le_of_lt hk)]
    obtain hlt | hlast : k + 1 < e.levels.length ∨ k + 1 = e.levels.length := by omega
    · rw [List.getElem?_append_left hlt] at hnext
      exact (h.follows k word next hword hnext).append_right _
    · -- The word is the newest one, and the next is the one that was added.
      have hsize : k = e.older.toList.length := by
        rw [length_levels, cached] at hlast
        simpa using hlast
      rw [hsize, levels, List.getElem?_concat_length] at hword
      rw [hlast, List.getElem?_concat_length] at hnext
      cases hword
      cases hnext
      rw [hsize, levels, List.take_left, ← h.source]
      have hfollows := System.follows_rewrite e.system e.newest e.dice (rolls e.bounds start).1
      rwa [length_rolls] at hfollows

theorem drawnFrom_growBy (s : System) (start : σ) (n : Nat) :
    DrawnFrom start (growBy n (ofSystem s start)) := by
  induction n with
  | zero => exact drawnFrom_ofSystem s start
  | succ n ih =>
      rw [growBy_succ]
      exact ih.grow

end Expander

/-! ## A source that keeps a record -/

/-- A source and the bounds it was asked with, in order. -/
structure Recorded (σ : Type u) where
  source : σ
  asked : List Nat

instance {σ : Type u} [RandomSource σ] : RandomSource (Recorded σ) where
  below bound r := ((below bound r.source).1, ⟨(below bound r.source).2, r.asked ++ [bound]⟩)
  below_lt r positive := below_lt r.source positive

variable {σ : Type u} [RandomSource σ]

/-- The record changes no number. -/
theorem rolls_recorded (bounds : List Nat) (r : Recorded σ) :
    rolls bounds r =
      ((rolls bounds r.source).1, ⟨(rolls bounds r.source).2, r.asked ++ bounds⟩) := by
  induction bounds generalizing r with
  | nil => simp
  | cons bound rest ih =>
      rw [rolls_cons, rolls_cons, ih]
      simp [below]

namespace Expander

/-- The expander without the record of its source. -/
def forget (e : Expander (Recorded σ)) : Expander σ :=
  ⟨e.system, e.older, e.newest, ⟨e.dice.source.source, e.dice.draws⟩, e.growth⟩

theorem forget_grow (e : Expander (Recorded σ)) : e.grow.forget = e.forget.grow := by
  have hrecorded := rewriteSites_choose (e.system.sites e.newest) e.dice.source e.dice.draws
  have hplain := rewriteSites_choose (e.system.sites e.newest) e.dice.source.source e.dice.draws
  rw [rolls_recorded] at hrecorded
  simp only [forget, grow, System.rewrite]
  rw [hrecorded, hplain]

theorem forget_growBy (n : Nat) (e : Expander (Recorded σ)) :
    (growBy n e).forget = growBy n e.forget := by
  induction n with
  | zero => rfl
  | succ n ih => rw [growBy_succ, growBy_succ, forget_grow, ih]

theorem take_levels_growBy {fresh : Expander σ} (hfresh : fresh.cached = 1) (n : Nat) :
    (growBy n fresh).levels.take n = (growBy n fresh).older.toList := by
  have hsize : (growBy n fresh).older.toList.length = n := by
    have hcached := cached_growBy_fresh hfresh n
    rw [cached] at hcached
    simpa using hcached
  rw [levels, List.take_left' hsize]

/-- The levels that are held but the newest are those below it. -/
theorem older_growBy {fresh : Expander σ} (hfresh : fresh.cached = 1) (n : Nat) :
    (growBy n fresh).older.toList = (List.range n).map (fun k => (fresh.level k).1) := by
  rw [← take_levels_growBy hfresh, levels_growBy hfresh, ← List.map_take, List.take_range,
    Nat.min_eq_left (Nat.le_succ n)]

/-- If a run makes no draw, no word that it rewrites needs one. -/
theorem drawBounds_of_draws_eq_zero {s : System} {source : σ} {n : Nat}
    (h : ((ofSystem s source).level n).2.draws = 0) {k : Nat} (hk : k < n) :
    LSystem.drawBounds (s.sites ((ofSystem s source).level k).1) = [] := by
  have hfresh := cached_ofSystem s source
  rw [level_snd_fresh hfresh, (drawnFrom_growBy s source n).draws, List.length_eq_zero_iff, bounds,
    older_growBy hfresh, system_growBy, System.drawBounds, List.flatMap_eq_nil_iff] at h
  exact h _ (List.mem_map.mpr ⟨k, List.mem_range.mpr hk, rfl⟩)

/-- The record of a source is the list of the bounds that the levels need. -/
theorem asked_growBy (s : System) (source : σ) (n : Nat) :
    (growBy n (ofSystem s (Recorded.mk source []))).dice.source.asked =
      (growBy n (ofSystem s source)).bounds := by
  have hforget : (growBy n (ofSystem s (Recorded.mk source []))).forget =
      growBy n (ofSystem s source) := forget_growBy n _
  rw [(drawnFrom_growBy s (Recorded.mk source []) n).source, rolls_recorded, ← hforget]
  rfl

/-- An expander that was asked for level `n` has drawn once for each site of the levels below that
has several candidates, in the order of the levels and from left to right. -/
theorem level_draws (s : System) (source : σ) (n : Nat) :
    let e := ((ofSystem s source).level n).2
    let bounds := s.drawBounds (e.levels.take n)
    let drawn := (rolls bounds source).1
    e.draws = bounds.length ∧
    e.dice.source = (rolls bounds source).2 ∧
    ((ofSystem s (Recorded.mk source [])).level n).2.dice.source.asked = bounds ∧
    ∀ k < n, ∃ word next, e.levels[k]? = some word ∧ e.levels[k + 1]? = some next ∧
      s.Follows drawn (s.drawBounds (e.levels.take k)).length word next := by
  intro e bounds drawn
  have he : e = growBy n (ofSystem s source) := level_snd_fresh (cached_ofSystem s source) n
  have hsystem : e.system = s := by rw [he, system_growBy, ofSystem]
  have hbounds : bounds = e.bounds := by
    rw [Expander.bounds, hsystem, he, ← take_levels_growBy (cached_ofSystem s source), ← he]
  have hdrawn : DrawnFrom source e := by
    rw [he]
    exact drawnFrom_growBy s source n
  refine ⟨?_, ?_, ?_, ?_⟩
  · rw [hbounds, hdrawn.draws]
  · rw [hbounds, hdrawn.source]
  · rw [level_snd_fresh (cached_ofSystem s _), asked_growBy, hbounds, he]
  · intro k hk
    have hlength : e.levels.length = n + 1 := by
      rw [he, length_levels, cached_growBy_fresh (cached_ofSystem s source)]
    have hword := List.getElem?_eq_getElem (l := e.levels) (i := k) (by omega)
    have hnext := List.getElem?_eq_getElem (l := e.levels) (i := k + 1) (by omega)
    refine ⟨_, _, hword, hnext, ?_⟩
    have hfollows := hdrawn.follows k _ _ hword hnext
    rwa [hsystem, ← hbounds] at hfollows

end Expander

end LSystem
