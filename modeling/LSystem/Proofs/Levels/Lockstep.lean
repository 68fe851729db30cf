import LSystem.Proofs.Levels.Draws
import LSystem.Proofs.Pass.Choices
import LSystem.Proofs.Pass.Places

/-! # Two runs in lock step

Two runs of one system do the same until they draw different numbers. They come to each place of
each pass with as many draws behind them and have written the same blocks before it; only the
number drawn there may part them. -/

namespace LSystem

open RandomSource

variable {σ : Type u} [RandomSource σ] {τ : Type v} [RandomSource τ]

theorem drawBounds_append (sites more : List Site) :
    drawBounds (sites ++ more) = drawBounds sites ++ drawBounds more := by
  simp [drawBounds]

namespace Expander

/-! ## Draws by place -/

/-- The dice when the pass over the newest word comes to a place. -/
def diceAt (e : Expander σ) (p : Nat) : Dice σ :=
  stateAt Dice.choose (e.system.sites e.newest) e.dice p

/-- The block that the pass over the newest word writes for a place. -/
def blockAt (e : Expander σ) (p : Nat) : Option Word :=
  LSystem.blockAt Dice.choose (e.system.sites e.newest) e.dice p

/-- The pass over the newest word draws this number among these candidates at place `p`, after `j`
draws since the start word. -/
structure DrawsAt (e : Expander σ) (j p : Nat) (candidates : List Word) (number : Nat) :
    Prop where
  place : (e.system.sites e.newest)[p]?.map Site.candidates = some candidates
  several : 2 ≤ candidates.length
  earlier : (e.diceAt p).draws = j
  number : (below candidates.length (e.diceAt p).source).1 = number

theorem draws_diceAt (e : Expander σ) (p : Nat) :
    (e.diceAt p).draws = e.draws + (drawBounds ((e.system.sites e.newest).take p)).length := by
  rw [diceAt, stateAt, rewriteSites_choose]
  rfl

theorem draws_diceAt_mono (e : Expander σ) {p q : Nat} (h : p ≤ q) :
    (e.diceAt p).draws ≤ (e.diceAt q).draws := by
  obtain ⟨k, rfl⟩ := Nat.exists_eq_add_of_le h
  rw [draws_diceAt, draws_diceAt, List.take_add, drawBounds_append, List.length_append]
  omega

theorem draws_le_diceAt (e : Expander σ) (p : Nat) : e.draws ≤ (e.diceAt p).draws := by
  rw [draws_diceAt]
  exact Nat.le_add_right _ _

theorem dice_grow_eq (e : Expander σ) :
    e.grow.dice = e.diceAt (e.system.sites e.newest).length := by
  rw [dice_grow, diceAt, stateAt_length]
  rfl

theorem DrawsAt.draws_succ {e : Expander σ} {j p number : Nat} {candidates : List Word}
    (h : e.DrawsAt j p candidates number) : (e.diceAt (p + 1)).draws = j + 1 := by
  obtain ⟨site, hsite, rfl⟩ := Option.map_eq_some_iff.mp h.place
  rw [draws_diceAt, List.take_add_one, hsite, drawBounds_append, List.length_append,
    ← Nat.add_assoc, ← draws_diceAt, h.earlier, Option.toList_some,
    drawBounds_cons_of_le h.several]
  rfl

theorem DrawsAt.lt_length {e : Expander σ} {j p number : Nat} {candidates : List Word}
    (h : e.DrawsAt j p candidates number) : p < (e.system.sites e.newest).length := by
  obtain ⟨site, hsite, -⟩ := Option.map_eq_some_iff.mp h.place
  exact (List.getElem?_eq_some_iff.mp hsite).1

theorem DrawsAt.lt_of_grow {e : Expander σ} {j p number : Nat} {candidates : List Word}
    (h : e.DrawsAt j p candidates number) : j < e.grow.draws := by
  rw [draws, dice_grow_eq, Nat.lt_iff_add_one_le, ← h.draws_succ]
  exact draws_diceAt_mono e h.lt_length

theorem exists_drawsAt {e : Expander σ} {p : Nat} {site : Site}
    (hsite : (e.system.sites e.newest)[p]? = some site) (hseveral : 2 ≤ site.candidates.length) :
    ∃ number, e.DrawsAt (e.diceAt p).draws p site.candidates number :=
  ⟨_, by rw [hsite]; rfl, hseveral, rfl, rfl⟩

theorem exists_blockAt {e : Expander σ} {p : Nat} (hp : p < (e.system.sites e.newest).length) :
    ∃ block, e.blockAt p = some block := by
  rw [blockAt, LSystem.blockAt, List.getElem?_eq_getElem hp]
  exact ⟨_, rfl⟩

/-- Without a choice the block is the same whatever was drawn. -/
theorem blockAt_of_lt {e : Expander σ} {p : Nat} {site : Site}
    (hsite : (e.system.sites e.newest)[p]? = some site) (hfew : site.candidates.length < 2) :
    e.blockAt p = some (site.candidates.headD [site.token]) := by
  rw [blockAt, LSystem.blockAt, hsite, Option.map_some, choose_of_lt hfew]

/-- A number that is drawn picks the block of the place. -/
theorem DrawsAt.blockAt {e : Expander σ} {j p number : Nat} {candidates : List Word}
    (h : e.DrawsAt j p candidates number) : e.blockAt p = candidates[number]? := by
  obtain ⟨site, hsite, rfl⟩ := Option.map_eq_some_iff.mp h.place
  have hseveral := h.several
  have hnumber : (below site.candidates.length (e.diceAt p).source).1 < site.candidates.length :=
    below_lt _ (by omega)
  have hblock : e.blockAt p = some (Dice.choose site.token site.candidates (e.diceAt p)).1 := by
    rw [Expander.blockAt, LSystem.blockAt, hsite]
    rfl
  have hchoose := choose_of_le hseveral site.token (e.diceAt p).source (e.diceAt p).draws hnumber
  rw [hblock, ← h.number, List.getElem?_eq_getElem hnumber]
  exact congrArg (fun picked => some picked.1) hchoose

/-- The word of the next level is made of the blocks of all places. -/
theorem newest_grow_eq (e : Expander σ) :
    e.grow.newest = ((List.range e.newest.length).filterMap e.blockAt).flatten := by
  have hpass := rewriteSites_take Dice.choose (e.system.sites e.newest) e.dice e.newest.length
  rw [← e.system.length_sites, List.take_length] at hpass
  rw [← e.system.length_sites]
  exact hpass

end Expander

/-! ## The draws of a run -/

namespace System

/-- The expander of a source once it was asked for a level. -/
def run (s : System) (source : σ) (n : Nat) : Expander σ :=
  ((Expander.ofSystem s source).level n).2

theorem run_eq_growBy (s : System) (source : σ) (n : Nat) :
    s.run source n = Expander.growBy n (.ofSystem s source) :=
  Expander.level_snd_fresh rfl n

theorem run_succ (s : System) (source : σ) (n : Nat) :
    s.run source (n + 1) = (s.run source n).grow := by
  rw [run_eq_growBy, run_eq_growBy, Expander.growBy_succ]

@[simp] theorem system_run (s : System) (source : σ) (n : Nat) : (s.run source n).system = s := by
  rw [run_eq_growBy, Expander.system_growBy]
  rfl

theorem draws_run_mono (s : System) (source : σ) {k l : Nat} (h : k ≤ l) :
    (s.run source k).draws ≤ (s.run source l).draws := by
  induction h with
  | refl => exact Nat.le_refl _
  | @step l _ ih =>
      refine ih.trans ?_
      rw [run_succ, Expander.draws, Expander.draws, Expander.dice_grow_eq]
      exact Expander.draws_le_diceAt _ _

/-- A draw has one place only: later passes and later places of a pass come after it. -/
theorem not_drawsAt_of_lt {s : System} {source : σ} {j k l p q number other : Nat}
    {candidates others : List Word}
    (h : (s.run source k).DrawsAt j p candidates number)
    (hlater : k < l ∨ k = l ∧ p < q) :
    ¬ (s.run source l).DrawsAt j q others other := by
  intro hother
  rcases hlater with hkl | ⟨rfl, hpq⟩
  · have hpass := h.lt_of_grow
    rw [← run_succ] at hpass
    have hpasses : (s.run source (k + 1)).draws ≤ (s.run source l).draws :=
      s.draws_run_mono source hkl
    have hplace := Expander.draws_le_diceAt (s.run source l) q
    rw [hother.earlier] at hplace
    omega
  · have hplace := Expander.draws_diceAt_mono (s.run source k) hpq
    rw [h.draws_succ, hother.earlier] at hplace
    omega

/-- What is drawn after `j` draws is one number. -/
theorem number_unique {s : System} {source : σ} {j k l p q number other : Nat}
    {candidates others : List Word}
    (h : (s.run source k).DrawsAt j p candidates number)
    (hother : (s.run source l).DrawsAt j q others other) : number = other := by
  obtain hlt | ⟨rfl, rfl⟩ | hgt : (k < l ∨ k = l ∧ p < q) ∨ (k = l ∧ p = q) ∨
      (l < k ∨ l = k ∧ q < p) := by omega
  · exact absurd hother (not_drawsAt_of_lt h hlt)
  · have hcandidates : some candidates = some others := h.place.symm.trans hother.place
    cases hcandidates
    exact h.number.symm.trans hother.number
  · exact absurd h (not_drawsAt_of_lt hother hgt)

/-- The first `m` numbers of two runs are equal, wherever they are drawn. A run may draw fewer. -/
def SameNumbers (s : System) (a : σ) (b : τ) (m : Nat) : Prop :=
  ∀ j < m, ∀ {k l p q number other : Nat} {candidates others : List Word},
    (s.run a k).DrawsAt j p candidates number → (s.run b l).DrawsAt j q others other →
      number = other

section SameNumbers

variable {s : System} {a : σ} {b : τ} {m : Nat}

theorem sameNumbers_zero (s : System) (a : σ) (b : τ) : s.SameNumbers a b 0 :=
  fun _ hj => absurd hj (Nat.not_lt_zero _)

theorem SameNumbers.symm (h : s.SameNumbers a b m) : s.SameNumbers b a m := by
  intro j hj k l p q number other candidates others hb ha
  exact (h j hj ha hb).symm

theorem SameNumbers.succ {k l p q number : Nat} {candidates others : List Word}
    (h : s.SameNumbers a b m) (ha : (s.run a k).DrawsAt m p candidates number)
    (hb : (s.run b l).DrawsAt m q others number) : s.SameNumbers a b (m + 1) := by
  intro j hj _ _ _ _ drawn other _ _ hdrawn hother
  obtain hlt | rfl : j < m ∨ j = m := by omega
  · exact h j hlt hdrawn hother
  · rw [← number_unique ha hdrawn, ← number_unique hb hother]

end SameNumbers

end System

/-! ## Lock step -/

namespace Expander

/-- Two expanders are about to make the same pass, with as many draws behind them. -/
structure Abreast (e : Expander σ) (f : Expander τ) : Prop where
  system : f.system = e.system
  newest : f.newest = e.newest
  draws : f.draws = e.draws

namespace Abreast

variable {e : Expander σ} {f : Expander τ}

omit [RandomSource σ] [RandomSource τ] in
theorem sites (h : Abreast e f) : f.system.sites f.newest = e.system.sites e.newest := by
  rw [h.system, h.newest]

theorem draws_diceAt (h : Abreast e f) (p : Nat) : (f.diceAt p).draws = (e.diceAt p).draws := by
  rw [Expander.draws_diceAt, Expander.draws_diceAt, h.sites, h.draws]

theorem exists_drawsAt (h : Abreast e f) {j p number : Nat} {candidates : List Word}
    (hdraw : e.DrawsAt j p candidates number) : ∃ other, f.DrawsAt j p candidates other :=
  ⟨_, by rw [h.sites]; exact hdraw.place, hdraw.several, by rw [h.draws_diceAt, hdraw.earlier],
    rfl⟩

/-- A place is written alike if it draws the same number in both passes. -/
theorem blockAt_eq (h : Abreast e f) {p : Nat}
    (hnumbers : ∀ candidates number other, e.DrawsAt (e.diceAt p).draws p candidates number →
      f.DrawsAt (e.diceAt p).draws p candidates other → number = other) :
    f.blockAt p = e.blockAt p := by
  cases hsite : (e.system.sites e.newest)[p]? with
  | none => simp [Expander.blockAt, LSystem.blockAt, h.sites, hsite]
  | some site =>
      rcases Nat.lt_or_ge site.candidates.length 2 with hfew | hseveral
      · rw [blockAt_of_lt hsite hfew, blockAt_of_lt (by rw [h.sites, hsite]) hfew]
      · obtain ⟨number, he⟩ := Expander.exists_drawsAt hsite hseveral
        obtain ⟨other, hf⟩ := h.exists_drawsAt he
        rw [he.blockAt, hf.blockAt, hnumbers _ number other he hf]

/-- A pass that is written alike at every place leaves the two abreast. -/
theorem grow (h : Abreast e f) (hblocks : ∀ p < e.newest.length, f.blockAt p = e.blockAt p) :
    Abreast e.grow f.grow := by
  refine ⟨h.system, ?_, ?_⟩
  · rw [newest_grow_eq, newest_grow_eq, h.newest]
    congr 1
    apply List.filterMap_congr
    intro p hp
    exact hblocks p (List.mem_range.mp hp)
  · rw [Expander.draws, Expander.draws, dice_grow_eq, dice_grow_eq, h.sites, h.draws_diceAt]

end Abreast

end Expander

namespace System

variable {s : System} {a : σ} {b : τ} {m : Nat}

namespace SameNumbers

theorem blockAt_eq (h : s.SameNumbers a b m) {k p : Nat}
    (hlevel : Expander.Abreast (s.run a k) (s.run b k))
    (hm : ((s.run a k).diceAt (p + 1)).draws ≤ m) :
    (s.run b k).blockAt p = (s.run a k).blockAt p := by
  apply hlevel.blockAt_eq
  intro candidates number other ha hb
  refine h _ ?_ ha hb
  rwa [ha.draws_succ] at hm

/-- The runs stay abreast as long as they have not used up the numbers they share. -/
theorem abreast (h : s.SameNumbers a b m) {k : Nat} (hm : (s.run a k).draws ≤ m) :
    Expander.Abreast (s.run a k) (s.run b k) ∧ (s.run b k).levels = (s.run a k).levels := by
  induction k with
  | zero => exact ⟨⟨rfl, rfl, rfl⟩, rfl⟩
  | succ k ih =>
      have hpass : ((s.run a k).diceAt (s.sites (s.run a k).newest).length).draws ≤ m := by
        rwa [run_succ, Expander.draws, Expander.dice_grow_eq, system_run] at hm
      obtain ⟨hlevel, hlevels⟩ := ih ((Expander.draws_le_diceAt _ _).trans hpass)
      have hgrow : Expander.Abreast (s.run a k).grow (s.run b k).grow := by
        apply hlevel.grow
        intro p hp
        apply h.blockAt_eq hlevel
        refine (Expander.draws_diceAt_mono _ ?_).trans hpass
        rwa [length_sites]
      rw [run_succ, run_succ, Expander.levels_grow, Expander.levels_grow, hlevels]
      exact ⟨hgrow, congrArg (fun word => _ ++ [word]) hgrow.newest⟩

theorem drawsAt (h : s.SameNumbers a b m) {k p number : Nat} {candidates : List Word}
    (hdraw : (s.run a k).DrawsAt m p candidates number) :
    (∃ other, (s.run b k).DrawsAt m p candidates other) ∧
      ∀ q < p, (s.run b k).blockAt q = (s.run a k).blockAt q := by
  have hplace := hdraw.earlier.le
  obtain ⟨hlevel, -⟩ := h.abreast ((Expander.draws_le_diceAt _ p).trans hplace)
  refine ⟨hlevel.exists_drawsAt hdraw, ?_⟩
  intro q hq
  exact h.blockAt_eq hlevel ((Expander.draws_diceAt_mono _ hq).trans hplace)

end SameNumbers

/-- Two runs do the same up to the draw that comes after `m` others. -/
structure Lockstep (s : System) (a : σ) (b : τ) (m : Nat) : Prop where
  /-- A level that takes one of the runs at most `m` draws takes the other as many, and the levels
  up to it are the same. -/
  levels : ∀ n, (s.run a n).draws ≤ m ∨ (s.run b n).draws ≤ m →
    (s.run a n).draws = (s.run b n).draws ∧ (s.run a n).levels = (s.run b n).levels
  /-- The next draw, if there is one, is made in the same pass, at the same place and among the
  same candidates. -/
  next : ∀ k p candidates, (∃ number, (s.run a k).DrawsAt m p candidates number) ↔
    ∃ number, (s.run b k).DrawsAt m p candidates number
  /-- In that pass both have written the same blocks for all places before. -/
  blocks : ∀ k p candidates number, (s.run a k).DrawsAt m p candidates number → ∀ q < p,
    ∃ block, (s.run a k).blockAt q = some block ∧ (s.run b k).blockAt q = some block

/-- Runs whose first `m` numbers are equal do the same up to the draw after them. Any two runs do
the same up to the first draw. -/
theorem lockstep_of_sameNumbers (s : System) (a : σ) (b : τ) :
    (∀ m, s.SameNumbers a b m → s.Lockstep a b m) ∧ s.Lockstep a b 0 := by
  have hlockstep : ∀ m, s.SameNumbers a b m → s.Lockstep a b m := by
    intro m h
    refine ⟨?_, ?_, ?_⟩
    · rintro n (ha | hb)
      · obtain ⟨hlevel, hlevels⟩ := h.abreast ha
        exact ⟨hlevel.draws.symm, hlevels.symm⟩
      · obtain ⟨hlevel, hlevels⟩ := h.symm.abreast hb
        exact ⟨hlevel.draws, hlevels⟩
    · intro k p candidates
      constructor
      · rintro ⟨number, ha⟩
        exact (h.drawsAt ha).1
      · rintro ⟨number, hb⟩
        exact (h.symm.drawsAt hb).1
    · intro k p candidates number ha q hq
      obtain ⟨block, hblock⟩ := Expander.exists_blockAt (hq.trans ha.lt_length)
      exact ⟨block, hblock, by rw [(h.drawsAt ha).2 q hq, hblock]⟩
  exact ⟨hlockstep, hlockstep 0 (sameNumbers_zero s a b)⟩

/-- The first number is the same for both sources and the second one is not. -/
theorem sameNumbers_algae :
    System.algae.SameNumbers (Replay.mk [0, 0]) (Replay.mk [0, 1]) 1 := by
  have hfirst : ∀ numbers : List Nat, (System.algae.run (Replay.mk (0 :: numbers)) 0).DrawsAt 0 0
      [["A", "B"], ["B"]] 0 := by
    intro numbers
    exact ⟨rfl, by decide, rfl, rfl⟩
  exact (sameNumbers_zero _ _ _).succ (hfirst [0]) (hfirst [1])

/-- These runs have level 1 in common and part at the only draw of level 2. -/
theorem lockstep_algae :
    System.algae.SameNumbers (Replay.mk [0, 0]) (Replay.mk [0, 1]) 1 ∧
    System.algae.Lockstep (Replay.mk [0, 0]) (Replay.mk [0, 1]) 1 ∧
    (System.algae.run (Replay.mk [0, 0]) 2).newest ≠
      (System.algae.run (Replay.mk [0, 1]) 2).newest :=
  ⟨sameNumbers_algae, (lockstep_of_sameNumbers _ _ _).1 1 sameNumbers_algae, by decide⟩

end System

end LSystem
