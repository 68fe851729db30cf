import LSystem.Proofs.Grammar.Renaming
import LSystem.Proofs.Levels.QueryOrder
import LSystem.Proofs.Pass.Simultaneous
import Mathlib.Data.List.GetD
import Mathlib.Logic.Equiv.Basic

/-! # Expansion of renamed tokens

Tokens are compared and never looked into, so that a renamed run does what the run does: each pass comes
to sites with the renamed candidates, and the same numbers are drawn. -/

namespace LSystem.Renaming

variable (f : Renaming)

/-! ## Sites -/

def site (site : Site) : Site := ⟨f site.token, f.alternatives site.candidates⟩

theorem occursAt_word {pattern : List Token} {word : Word} {start : Int} :
    OccursAt (f.word pattern) (f.word word) start ↔ OccursAt pattern word start := by
  have hinjective : Function.Injective (List.map f) := List.map_injective_iff.mpr f.injective
  simp only [occursAt_iff, Renaming.word, List.length_map, ← List.map_drop, ← List.map_take,
    hinjective.eq_iff]

theorem firing_rule (rule : ContextRule) (word : Word) (position : Int) :
    (f.rule rule).firing (f.word word).toArray position =
      f.alternatives (rule.firing word.toArray position) := by
  rw [ContextRule.firing_eq_ite, ContextRule.firing_eq_ite, apply_ite f.alternatives]
  simp only [Renaming.rule, occursAt_word]
  rfl

theorem candidates_index (index : ContextIndex) (word : Word) (position : Int) :
    (f.index index).candidates (f.word word).toArray position =
      f.alternatives (index.candidates word.toArray position) := by
  rw [ContextIndex.candidates, ContextIndex.candidates, Renaming.index, List.flatMap_map, alternatives,
    List.map_flatMap]
  exact List.flatMap_congr (fun rule _ => f.firing_rule rule word position)

/-- A renamed word has the renamed sites, whether its tokens are looked up or matched. -/
theorem sites_system (s : System) (word : Word) :
    (f.system s).sites (f.word word) = (s.sites word).map f.site := by
  have hmode : (f.system s).mode = s.mode := rfl
  rw [System.sites, System.sites, hmode]
  cases s.mode with
  | plain =>
      simp only [system, Grammar.sites, Renaming.word, List.map_map]
      apply List.map_congr_left
      intro token _
      simp only [Function.comp_apply, replacements_grammar, site]
  | context =>
      simp only [system, ContextIndex.sites]
      apply List.ext_getElem
      · simp [Renaming.word]
      · intro i hi hi'
        simp only [List.getElem_mapIdx, List.getElem_map, candidates_index, site]
        simp [Renaming.word]

/-! ## Passes -/

variable {σ : Type u} [RandomSource σ]

theorem choose_site (token : Token) (candidates : List Word) (dice : Dice σ) :
    Dice.choose (f token) (f.alternatives candidates) dice =
      (f.word (Dice.choose token candidates dice).1, (Dice.choose token candidates dice).2) := by
  match candidates with
  | [] | [_] => rfl
  | first :: second :: others =>
      simp only [alternatives, List.map_cons, Dice.choose, Dice.pick, List.length_cons,
        List.length_map]
      exact Prod.ext (List.getD_map (first :: second :: others) first f.word) rfl

theorem rewriteSites_map (sites : List Site) (dice : Dice σ) :
    rewriteSites Dice.choose (sites.map f.site) dice =
      (f.word (rewriteSites Dice.choose sites dice).1, (rewriteSites Dice.choose sites dice).2) := by
  induction sites generalizing dice with
  | nil => rfl
  | cons first rest ih =>
      rw [List.map_cons, rewriteSites_cons, rewriteSites_cons]
      simp only [site, choose_site, ih, Renaming.word, List.map_append]

theorem rewrite_system (s : System) (word : Word) (dice : Dice σ) :
    (f.system s).rewrite Dice.choose (f.word word) dice =
      (f.word (s.rewrite Dice.choose word dice).1, (s.rewrite Dice.choose word dice).2) := by
  rw [System.rewrite, System.rewrite, sites_system, rewriteSites_map]

/-! ## Expanders -/

/-- The expander with all its words renamed. Its dice and its records are the same. -/
def expander {σ : Type u} (e : Expander σ) : Expander σ where
  system := f.system e.system
  older := e.older.map f.word
  newest := f.word e.newest
  dice := e.dice
  growth := e.growth

omit [RandomSource σ] in
theorem expander_ofSystem (s : System) (source : σ) :
    f.expander (.ofSystem s source) = .ofSystem (f.system s) source := by
  simp [expander, Expander.ofSystem, system, grammar]

theorem grow_expander (e : Expander σ) : (f.expander e).grow = f.expander e.grow := by
  simp only [expander, Expander.grow, rewrite_system, Array.size_map, Array.map_push]
  simp [Renaming.word]

theorem growBy_expander (n : Nat) (e : Expander σ) :
    Expander.growBy n (f.expander e) = f.expander (Expander.growBy n e) := by
  induction n with
  | zero => rfl
  | succ n ih => rw [Expander.growBy_succ, Expander.growBy_succ, ih, grow_expander]

theorem level_expander {fresh : Expander σ} (hfresh : fresh.cached = 1) (n : Nat) :
    (f.expander fresh).level n = (f.word (fresh.level n).1, f.expander (fresh.level n).2) := by
  have hrenamed : (f.expander fresh).cached = 1 := by
    simpa [Expander.cached, expander] using hfresh
  refine Prod.ext ?_ ?_
  · rw [← Expander.newest_growBy hrenamed, ← Expander.newest_growBy hfresh, growBy_expander]
    rfl
  · rw [Expander.level_snd_fresh hrenamed, Expander.level_snd_fresh hfresh, growBy_expander]

/-- If every key is a word, the renamed grammar expands to the renamed levels of the grammar, by the same
draws and in the same mode. -/
theorem level_grammar {g : Grammar} (hkeys : ∀ key ∈ g.productiveKeys, Text.words key = [key]) :
    ∃ s s', System.ofGrammar g = .ok s ∧ System.ofGrammar (f.grammar g) = .ok s' ∧
      s'.mode = s.mode ∧
      ∀ {σ : Type u} [RandomSource σ] (source : σ) (n : Nat),
        ((Expander.ofSystem s' source).level n).1 =
          ((Expander.ofSystem s source).level n).1.map f ∧
        ((Expander.ofSystem s' source).level n).2.draws =
          ((Expander.ofSystem s source).level n).2.draws := by
  obtain ⟨s, hs, hs'⟩ := f.exists_ofGrammar hkeys
  refine ⟨s, f.system s, hs, hs', rfl, ?_⟩
  intro σ _ source n
  rw [← f.expander_ofSystem, f.level_expander (Expander.cached_ofSystem s source)]
  exact ⟨rfl, rfl⟩

/-- A token that could be read as an offset, and one that could not, exchange their names. -/
def exchange : Renaming where
  name := Equiv.swap "A" "1"
  injective := (Equiv.swap "A" "1").injective
  isWord := by
    intro token htoken
    rw [Equiv.swap_apply_def]
    split
    · decide
    · split
      · decide
      · exact htoken

/-- Algae with a rule for the place before a token. -/
def looking : Grammar := { Grammar.algae with contextRules := [.ofWindow (-1) "B" [] [["A", "A"]]] }

theorem level_grammar_looking :
    (∀ key ∈ looking.productiveKeys, Text.words key = [key]) ∧
    (exchange.grammar looking).productiveKeys = ["1", "B"] ∧
    ∃ s s', System.ofGrammar looking = .ok s ∧ System.ofGrammar (exchange.grammar looking) = .ok s' ∧
      ((Expander.ofSystem s' (Twister.ofSeed 7)).level 5).1 =
        ((Expander.ofSystem s (Twister.ofSeed 7)).level 5).1.map exchange := by
  have hkeys : ∀ key ∈ looking.productiveKeys, Text.words key = [key] := by decide
  obtain ⟨s, s', hs, hs', -, hlevels⟩ := exchange.level_grammar hkeys
  exact ⟨hkeys, by decide, s, s', hs, hs', (hlevels (Twister.ofSeed 7) 5).1⟩

end LSystem.Renaming
