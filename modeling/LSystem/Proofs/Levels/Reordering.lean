import LSystem.Proofs.Grammar.Alike
import LSystem.Proofs.Levels.Lockstep
import LSystem.Proofs.Levels.SameSites

/-! # Tables in another order

Alike grammars have the same rules, in an order that is that of their tables. Each place of a word
then has the same candidates, in some order, so that a pass draws at the same places below the same
bounds; only what is drawn may stand for something else. -/

namespace LSystem

open RandomSource

/-! ## Sites with the same candidates -/

/-- The same site but for the order of its candidates. -/
structure Site.Reordered (site other : Site) : Prop where
  token : other.token = site.token
  candidates : site.candidates.Perm other.candidates

/-- Without a choice there is only one order. -/
theorem Site.Reordered.eq_of_lt {site other : Site} (h : site.Reordered other)
    (hfew : site.candidates.length < 2) : other = site := by
  obtain ⟨token, candidates⟩ := site
  obtain ⟨_, others⟩ := other
  obtain ⟨rfl, hperm⟩ := h
  match candidates with
  | [] => rw [hperm.nil_eq]
  | [block] => rw [List.singleton_perm.mp hperm]
  | _ :: _ :: _ =>
      simp only [List.length_cons] at hfew
      omega

section Reordered

variable {sites others : List Site} (h : List.Forall₂ Site.Reordered sites others)
include h

theorem drawBounds_reordered : drawBounds others = drawBounds sites := by
  have hcounts : others.map (fun site => site.candidates.length) =
      sites.map (fun site => site.candidates.length) := by
    induction h with
    | nil => rfl
    | cons hsite _ ih => rw [List.map_cons, List.map_cons, ih, hsite.candidates.length_eq]
  rw [drawBounds, drawBounds, hcounts]

/-- A pass comes to every place with the same dice. -/
theorem stateAt_reordered {σ : Type u} [RandomSource σ] (dice : Dice σ) (p : Nat) :
    stateAt Dice.choose others dice p = stateAt Dice.choose sites dice p := by
  have hbounds := drawBounds_reordered (List.forall₂_take p h)
  rw [stateAt, stateAt, rewriteSites_choose, rewriteSites_choose, hbounds]

/-- Where nothing is drawn the sites are the same. -/
theorem eq_of_reordered (hnone : drawBounds sites = []) : others = sites := by
  induction h with
  | nil => rfl
  | @cons site other sites others hsite hrest ih =>
      rcases Nat.lt_or_ge site.candidates.length 2 with hfew | hseveral
      · rw [drawBounds_cons_of_lt hfew] at hnone
        rw [hsite.eq_of_lt hfew, ih hnone]
      · rw [drawBounds_cons_of_le hseveral] at hnone
        cases hnone

end Reordered

/-! ## Indexes of alike grammars -/

theorem ContextIndex.candidates_perm {index other : ContextIndex}
    (h : index.rules.Perm other.rules) (word : Array Token) (position : Int) :
    (index.candidates word position).Perm (other.candidates word position) :=
  h.flatMap_right _

theorem ContextIndex.sites_reordered {index other : ContextIndex}
    (h : index.rules.Perm other.rules) (word : Word) :
    List.Forall₂ Site.Reordered (index.sites word) (other.sites word) := by
  apply List.forall₂_of_length_eq_of_get
  · simp [sites]
  · intro i hi hother
    simp only [sites, List.get_eq_getElem, List.getElem_mapIdx]
    exact ⟨rfl, candidates_perm h _ _⟩

namespace Grammar

variable {a b : Grammar} (h : a.alike b = true)
include h

theorem productive_perm : a.productive.Perm b.productive :=
  (Table.perm_of_get?_eq (alike_iff.mp h).2.1).filter _

theorem sites_of_alike (word : Word) : b.sites word = a.sites word := by
  simp only [Grammar.sites, replacements, (alike_iff.mp h).2.1]

/-- If one of two alike grammars has an index so has the other, with the same rules. -/
theorem exists_index_of_alike {index : ContextIndex}
    (hindex : ContextIndex.ofGrammar a = .ok index) :
    ∃ other, ContextIndex.ofGrammar b = .ok other ∧ other.hasContexts = index.hasContexts ∧
      index.rules.Perm other.rules := by
  have hperm := productive_perm h
  have hrules : a.contextRules = b.contextRules := (alike_iff.mp h).2.2.1
  obtain ⟨hread, rfl⟩ := ContextIndex.ofGrammar_eq_ok_iff.mp hindex
  refine ⟨_, ContextIndex.ofGrammar_eq_ok_iff.mpr ⟨?_, rfl⟩, ?_, ?_⟩
  · intro entry hentry
    exact hread entry (hperm.mem_iff.mpr hentry)
  · rw [hperm.any_eq, hrules]
  · rw [hrules]
    exact (hperm.filterMap _).append_right _

end Grammar

/-! ## Runs without draws -/

/-- As long as nothing is drawn, neither the source nor the order of the candidates matters. -/
theorem levels_of_draws_eq_zero {s t : System} (hstart : t.grammar.start = s.grammar.start)
    (hsites : ∀ word, List.Forall₂ Site.Reordered (s.sites word) (t.sites word))
    {σ : Type u} [RandomSource σ] {τ : Type v} [RandomSource τ] {source : σ} {n : Nat}
    (h : ((Expander.ofSystem s source).level n).2.draws = 0) (other : τ) :
    ((Expander.ofSystem t other).level n).2.levels =
        ((Expander.ofSystem s source).level n).2.levels ∧
      ((Expander.ofSystem t other).level n).2.draws = 0 := by
  obtain ⟨habreast, hlevels⟩ :=
    (System.sameNumbers_zero s source other).abreast (k := n) (Nat.le_of_eq h)
  have hnone : ((Expander.ofSystem s other).level n).2.draws = 0 := habreast.draws.trans h
  have hsame : ∀ k < n, t.sites ((Expander.ofSystem s other).level k).1 =
      s.sites ((Expander.ofSystem s other).level k).1 := by
    intro k hk
    exact eq_of_reordered (hsites _) (Expander.drawBounds_of_draws_eq_zero hnone hk)
  rw [Expander.level_withSystem_of_levels hstart other n hsame]
  exact ⟨hlevels, hnone⟩

/-! ## Systems of alike grammars -/

/-- Systems that have the same rules, each in an order of its own. -/
structure System.Reordered.{u} (s t : System) : Prop where
  contexts : t.index.hasContexts = s.index.hasContexts
  mode : t.mode = s.mode
  rules : s.index.rules.Perm t.index.rules
  /-- Tokens that are looked up are found whatever the order. -/
  plain : s.mode = .plain → ∀ {σ : Type u} [RandomSource σ] (source : σ) (n : Nat),
    ((Expander.ofSystem t source).level n).1 = ((Expander.ofSystem s source).level n).1 ∧
    ((Expander.ofSystem t source).level n).2.draws = ((Expander.ofSystem s source).level n).2.draws
  candidates : ∀ (word : Word) (position : Int),
    (s.index.candidates word.toArray position).Perm (t.index.candidates word.toArray position)
  /-- A chooser is shown the same tokens with the same candidates in some order. -/
  sites : ∀ word : Word, List.Forall₂ Site.Reordered (s.sites word) (t.sites word)
  /-- Before each place of a pass as many draws are made, below the same bounds. -/
  bounds : ∀ (word : Word) (p : Nat),
    LSystem.drawBounds ((t.sites word).take p) = LSystem.drawBounds ((s.sites word).take p)
  dice : ∀ {σ : Type u} [RandomSource σ] (word : Word) (dice : Dice σ) (p : Nat),
    stateAt Dice.choose (t.sites word) dice p = stateAt Dice.choose (s.sites word) dice p
  /-- As long as nothing is drawn all levels are the same, whatever the sources. -/
  undrawn : ∀ {σ τ : Type u} [RandomSource σ] [RandomSource τ] (source : σ) (other : τ) (n : Nat),
    ((Expander.ofSystem s source).level n).2.draws = 0 →
    ((Expander.ofSystem t other).level n).2.levels = ((Expander.ofSystem s source).level n).2.levels ∧
    ((Expander.ofSystem t other).level n).2.draws = 0

/-- What alike grammars expand to differs at most in what is picked where there is a choice. -/
theorem exists_reordered_of_alike.{u} {a b : Grammar} (h : a.alike b = true) {s : System}
    (hs : System.ofGrammar a = .ok s) :
    ∃ t, System.ofGrammar b = .ok t ∧ System.Reordered.{u} s t := by
  obtain ⟨index, hindex, rfl⟩ := System.ofGrammar_eq_ok_iff.mp hs
  obtain ⟨other, hother, hcontexts, hrules⟩ := Grammar.exists_index_of_alike h hindex
  let s : System := ⟨a, index⟩
  let t : System := ⟨b, other⟩
  have hstart : t.grammar.start = s.grammar.start := (Grammar.alike_iff.mp h).1.symm
  have hmode : t.mode = s.mode := by
    simp only [System.mode, ContextIndex.mode, hcontexts, s, t]
  have hplain : s.mode = .plain → ∀ word, t.sites word = s.sites word := by
    intro hplain word
    simp only [System.sites, hmode, hplain]
    exact Grammar.sites_of_alike h word
  have hsites : ∀ word, List.Forall₂ Site.Reordered (s.sites word) (t.sites word) := by
    intro word
    cases hcase : s.mode with
    | plain =>
        rw [hplain hcase]
        exact List.forall₂_same.mpr (fun site _ => ⟨rfl, .refl _⟩)
    | context =>
        simp only [System.sites, hmode, hcase]
        exact ContextIndex.sites_reordered hrules word
  refine ⟨t, System.ofGrammar_eq_ok_iff.mpr ⟨other, hother, rfl⟩, ?_⟩
  exact {
    contexts := hcontexts
    mode := hmode
    rules := hrules
    plain := fun hcase {σ} _ source n => by
      rw [Expander.level_withSystem hstart (hplain hcase) source n]
      exact ⟨rfl, rfl⟩
    candidates := fun word position => ContextIndex.candidates_perm hrules word.toArray position
    sites := hsites
    bounds := fun word p => drawBounds_reordered (List.forall₂_take p (hsites word))
    dice := fun word dice p => stateAt_reordered (hsites word) dice p
    undrawn := fun source other n hnone => levels_of_draws_eq_zero hstart hsites hnone other }

/-- Two keys that both say what becomes of a token. -/
def Grammar.doubled : Grammar where
  start := ["A"]
  rules := .ofList [("A", [["A", "B"]]), ("0 A", [["B"], ["A", "B"]])]
  contextRules := []
  name := defaultName

def Grammar.doubledBackward : Grammar :=
  { doubled with rules := .ofList [("0 A", [["B"], ["A", "B"]]), ("A", [["A", "B"]])] }

def System.doubled : System :=
  ⟨.doubled, [.ofToken "A" [["A", "B"]], .ofWindow 0 "A" [] [["B"], ["A", "B"]]], true⟩

/-- The same draw picks another block when the keys come in the other order. -/
theorem exists_reordered_doubled :
    Grammar.doubled.alike .doubledBackward = true ∧ System.ofGrammar .doubled = .ok .doubled ∧
    ∃ t, System.ofGrammar .doubledBackward = .ok t ∧ System.Reordered.{0} .doubled t ∧
      t.sites ["A"] ≠ System.doubled.sites ["A"] := by
  have halike : Grammar.doubled.alike .doubledBackward = true := by decide
  have hsystem : System.ofGrammar .doubled = .ok .doubled := by decide
  obtain ⟨t, ht, hreordered⟩ := exists_reordered_of_alike halike hsystem
  refine ⟨halike, hsystem, t, ht, hreordered, ?_⟩
  have hother : System.ofGrammar .doubledBackward =
      .ok ⟨.doubledBackward, [.ofWindow 0 "A" [] [["B"], ["A", "B"]], .ofToken "A" [["A", "B"]]],
        true⟩ := by
    decide
  rw [hother] at ht
  cases ht
  decide

end LSystem
