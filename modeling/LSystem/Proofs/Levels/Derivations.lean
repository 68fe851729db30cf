import LSystem.Proofs.Levels.Draws
import LSystem.Proofs.Pass.Choices

/-! # Levels and derivations

Each level derives from the one before it, and every chain of derivation steps is computed if the
right numbers are drawn. The numbers for a chain are those for its passes, one pass after the
other. -/

namespace LSystem

open RandomSource

namespace System

theorem derives_rewrite {σ : Type u} [RandomSource σ] (s : System) (word : Word) (dice : Dice σ) :
    s.Derives word (s.rewrite Dice.choose word dice).1 := by
  refine derives_iff.mpr ⟨fill (s.sites word) (rolls (LSystem.drawBounds (s.sites word))
    dice.source).1, ?_, ?_⟩
  · exact forall₂_yields_fill (rolls_lt pos_of_mem_drawBounds _)
  · rw [rewrite, rewriteSites_choose]

/-- Some numbers in range let a pass write any word that can be derived. -/
theorem Derives.exists_drawn {s : System} {word next : Word} (h : s.Derives word next) :
    ∃ drawn, List.Forall₂ (· < ·) drawn (LSystem.drawBounds (s.sites word)) ∧
      ∀ {σ : Type u} [RandomSource σ] (dice : Dice σ),
        (rolls (LSystem.drawBounds (s.sites word)) dice.source).1 = drawn →
          (s.rewrite Dice.choose word dice).1 = next := by
  obtain ⟨blocks, hyields, rfl⟩ := derives_iff.mp h
  obtain ⟨drawn, hdrawn, rfl⟩ := exists_fill_eq hyields
  refine ⟨drawn, hdrawn, ?_⟩
  rintro σ _ dice rfl
  rw [rewrite, rewriteSites_choose]

end System

namespace Expander

variable {σ : Type u} [RandomSource σ]

/-- The levels that are added are a chain of derivation steps. -/
theorem exists_chain_growBy (n : Nat) (e : Expander σ) :
    ∃ words, words.length = n ∧ (growBy n e).levels = e.levels ++ words ∧
      e.system.Chain e.newest words := by
  induction n generalizing e with
  | zero => exact ⟨[], rfl, by simp, .nil _⟩
  | succ n ih =>
      obtain ⟨words, hlength, hlevels, hchain⟩ := ih e.grow
      refine ⟨e.grow.newest :: words, ?_, ?_, ?_⟩
      · rw [List.length_cons, hlength]
      · rw [growBy, hlevels, levels_grow, List.append_assoc]
        rfl
      · exact .cons (e.system.derives_rewrite e.newest e.dice) hchain

end Expander

/-! ## Numbers for a chain -/

theorem System.drawBounds_cons (s : System) (word : Word) (words : List Word) :
    s.drawBounds (word :: words) = LSystem.drawBounds (s.sites word) ++ s.drawBounds words :=
  List.flatMap_cons

theorem Expander.source_grow {σ : Type u} [RandomSource σ] (e : Expander σ) :
    e.grow.dice.source = (rolls (drawBounds (e.system.sites e.newest)) e.dice.source).2 := by
  rw [dice_grow, System.rewrite, rewriteSites_choose]

/-- Some numbers in range let an expander compute any chain. -/
theorem System.Chain.exists_numbers {s : System} {word : Word} {words : List Word}
    (h : s.Chain word words) :
    ∃ numbers, List.Forall₂ (· < ·) numbers (s.drawBounds (word :: words).dropLast) ∧
      ∀ {σ : Type u} [RandomSource σ] (e : Expander σ), e.system = s → e.newest = word →
        (rolls (s.drawBounds (word :: words).dropLast) e.dice.source).1 = numbers →
          (e.growBy words.length).levels = e.levels ++ words := by
  induction h with
  | nil word =>
      refine ⟨[], .nil, ?_⟩
      intro σ _ e _ _ _
      simp
  | @cons word next rest hstep _ ih =>
      obtain ⟨drawn, hdrawn, hpass⟩ := hstep.exists_drawn
      obtain ⟨numbers, hnumbers, hlater⟩ := ih
      rw [List.dropLast_cons_cons, drawBounds_cons]
      refine ⟨drawn ++ numbers, List.rel_append hdrawn hnumbers, ?_⟩
      rintro σ _ e rfl rfl hrolls
      rw [rolls_append] at hrolls
      obtain ⟨hfirst, hrest⟩ := List.append_inj hrolls (by rw [length_rolls, hdrawn.length_eq])
      have hnext : (e.system.rewrite Dice.choose e.newest e.dice).1 = next := hpass e.dice hfirst
      rw [← Expander.source_grow] at hrest
      rw [List.length_cons, Expander.growBy, hlater e.grow rfl hnext hrest, Expander.levels_grow,
        hnext, List.append_assoc]
      rfl

namespace Expander

theorem bounds_eq {σ : Type u} (e : Expander σ) :
    e.bounds = e.system.drawBounds e.levels.dropLast := by
  rw [bounds, levels, List.dropLast_concat]

/-- Whatever is drawn, the levels of an expander are a chain of derivation steps from the start
word. Conversely, for each such chain there are numbers, each below the bound it is drawn for and
none of them left over, with which the expander computes just this chain. -/
theorem levels_chain (s : System) (n : Nat) :
    (∀ {σ : Type u} [RandomSource σ] (source : σ), ∃ words, words.length = n ∧
      ((ofSystem s source).level n).2.levels = s.grammar.start :: words ∧
      s.Chain s.grammar.start words) ∧
    ∀ words : List Word, words.length = n → s.Chain s.grammar.start words →
      ∃ numbers : List Nat,
        ((ofSystem s (Replay.mk numbers)).level n).2.levels = s.grammar.start :: words ∧
        ((ofSystem s (Replay.mk numbers)).level n).2.dice.source = ⟨[]⟩ ∧
        List.Forall₂ (· < ·) numbers
          ((ofSystem s (Recorded.mk (Replay.mk numbers) [])).level n).2.dice.source.asked := by
  refine ⟨?_, ?_⟩
  · intro σ _ source
    rw [level_snd_fresh (cached_ofSystem s source)]
    exact exists_chain_growBy n (ofSystem s source)
  · rintro words rfl hchain
    obtain ⟨numbers, hnumbers, hcomputes⟩ := hchain.exists_numbers
    have hrolls := rolls_replay hnumbers []
    rw [List.append_nil] at hrolls
    have hlevels : (growBy words.length (ofSystem s (Replay.mk numbers))).levels =
        s.grammar.start :: words := hcomputes _ rfl rfl (congrArg Prod.fst hrolls)
    have hbounds : (growBy words.length (ofSystem s (Replay.mk numbers))).bounds =
        s.drawBounds (s.grammar.start :: words).dropLast := by
      rw [bounds_eq, hlevels, system_growBy, ofSystem]
    refine ⟨numbers, ?_, ?_, ?_⟩
    · rw [level_snd_fresh (cached_ofSystem s _), hlevels]
    · rw [level_snd_fresh (cached_ofSystem s _), (drawnFrom_growBy s _ _).source, hbounds, hrolls]
    · rw [level_snd_fresh (cached_ofSystem s _), asked_growBy, hbounds]
      exact hnumbers

end Expander

/-- Both steps have a choice, and the second one a place without a choice too. -/
theorem System.chain_algae : System.algae.Chain ["A"] [["A", "B"], ["B", "A"]] := by
  have hfirst : System.algae.sites ["A"] = [⟨"A", [["A", "B"], ["B"]]⟩] := by decide
  have hsecond : System.algae.sites ["A", "B"] =
      [⟨"A", [["A", "B"], ["B"]]⟩, ⟨"B", [["A"]]⟩] := by decide
  refine .cons (derives_iff.mpr ⟨[["A", "B"]], ?_, rfl⟩)
    (.cons (derives_iff.mpr ⟨[["B"], ["A"]], ?_, rfl⟩) (.nil _))
  · rw [hfirst]
    exact .cons (.candidate (by decide)) .nil
  · rw [hsecond]
    exact .cons (.candidate (by decide)) (.cons (.candidate (by decide)) .nil)

theorem levels_chain_algae :
    System.algae.Chain ["A"] [["A", "B"], ["B", "A"]] ∧
    ∃ numbers : List Nat,
      ((Expander.ofSystem .algae (Replay.mk numbers)).level 2).2.levels =
        [["A"], ["A", "B"], ["B", "A"]] ∧
      ((Expander.ofSystem .algae (Replay.mk numbers)).level 2).2.dice.source = ⟨[]⟩ ∧
      List.Forall₂ (· < ·) numbers
        ((Expander.ofSystem .algae (Recorded.mk (Replay.mk numbers) [])).level
          2).2.dice.source.asked :=
  ⟨System.chain_algae, (Expander.levels_chain.{0} .algae 2).2 _ rfl System.chain_algae⟩

end LSystem
