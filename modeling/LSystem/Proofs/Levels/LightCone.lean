import LSystem.Proofs.Levels.Draws
import LSystem.Proofs.Pass.Locality
import LSystem.Random.Twister

/-! # How far a difference spreads

Where every rule puts one token in the place of one and nothing is to be chosen, a pass gives each place a
token that depends on its surroundings only. So a difference between two start words spreads in each pass
by as many places as the rules look around. -/

namespace LSystem

/-! ## Passes without a choice -/

/-- The token that is put for a site if there is one block at most and this is a single token. -/
def Site.successor (site : Site) : Token :=
  (site.candidates.headD [site.token]).headD site.token

/-- All alternatives of the rules are single tokens. -/
def ContextIndex.SingleTokens (index : ContextIndex) : Prop :=
  ∀ rule ∈ index.rules, ∀ block ∈ rule.alternatives, block.length = 1

instance (index : ContextIndex) : Decidable index.SingleTokens :=
  inferInstanceAs (Decidable (∀ rule ∈ index.rules, ∀ block ∈ rule.alternatives, block.length = 1))

theorem ContextIndex.SingleTokens.headD_eq {index : ContextIndex} (h : index.SingleTokens) {word : Word}
    {site : Site} (hsite : site ∈ index.sites word) :
    site.candidates.headD [site.token] = [site.successor] := by
  obtain ⟨i, hi, rfl⟩ := List.mem_mapIdx.mp hsite
  unfold Site.successor
  cases hcandidates : index.candidates word.toArray i with
  | nil => rfl
  | cons block others =>
      have hblock : block ∈ index.candidates word.toArray i := by simp [hcandidates]
      obtain ⟨rule, hrule, hfiring⟩ := List.mem_flatMap.mp hblock
      obtain ⟨token, rfl⟩ :=
        List.length_eq_one_iff.mp (h rule hrule block (ContextRule.mem_firing_iff.mp hfiring).2)
      rfl

/-- A pass without a choice that puts one token for each maps the sites of the word. -/
theorem System.rewrite_eq_map_successor {σ : Type u} [RandomSource σ] {s : System}
    (hmode : s.mode = .context) (hsingle : s.index.SingleTokens) {word : Word}
    (hnone : LSystem.drawBounds (s.sites word) = []) (dice : Dice σ) :
    (s.rewrite Dice.choose word dice).1 = (s.index.sites word).map Site.successor := by
  have hsites : s.sites word = s.index.sites word := by
    simp only [sites, hmode]
  rw [rewrite, rewriteSites_of_drawBounds_eq_nil hnone, hsites, List.map_eq_flatMap]
  exact List.flatMap_congr (fun _ hsite => hsingle.headD_eq hsite)

/-! ## Words that agree near a place -/

/-- Two words of one length have the same tokens at a place, at the given number of places before it and at
the given number of places after it. -/
structure AgreeNear (before after i : Nat) (word other : Word) : Prop where
  length : other.length = word.length
  tokens : ∀ j, i ≤ j + before → j ≤ i + after → other[j]? = word[j]?

namespace AgreeNear

variable {before after i : Nat} {word other : Word}

theorem agreeAround {k l : Nat} (h : AgreeNear (before + k) (after + l) i word other) {j : Nat}
    (hbefore : i ≤ j + before) (hafter : j ≤ i + after) : AgreeAround k l other j word j := by
  intro d hd hd' token
  rw [tokenAt_eq_ok_iff, tokenAt_eq_ok_iff]
  apply and_congr_right
  intro hplace
  rw [h.tokens (j + d).toNat (by omega) (by omega)]

/-- After a pass the words agree nearer to the place, by as much as the rules look around. -/
theorem map_successor {index : ContextIndex}
    (h : AgreeNear (before + index.reachBefore) (after + index.reachAfter) i word other) :
    AgreeNear before after i ((index.sites word).map Site.successor)
      ((index.sites other).map Site.successor) := by
  refine ⟨?_, ?_⟩
  · simpa [ContextIndex.sites] using h.length
  · intro j hbefore hafter
    have htoken := h.tokens j (by omega) (by omega)
    have hcandidates := (h.agreeAround hbefore hafter).candidates_eq
    rw [List.getElem?_map, List.getElem?_map, ContextIndex.getElem?_sites, ContextIndex.getElem?_sites,
      htoken, hcandidates]

end AgreeNear

/-! ## Levels of two runs -/

namespace Expander

variable {σ : Type u} [RandomSource σ] {τ : Type v} [RandomSource τ]

section SingleTokens

variable {s : System} (hmode : s.mode = .context) (hsingle : s.index.SingleTokens)
include hmode hsingle

/-- Without draws a level has a token for each token of the level before it. -/
theorem level_succ_eq_map_successor {source : σ} {n k : Nat}
    (hnone : ((ofSystem s source).level n).2.draws = 0) (hk : k < n) :
    ((ofSystem s source).level (k + 1)).1 =
      (s.index.sites ((ofSystem s source).level k).1).map Site.successor := by
  rw [level_succ (cached_ofSystem s source)]
  exact System.rewrite_eq_map_successor hmode hsingle (drawBounds_of_draws_eq_zero hnone hk) _

theorem length_level {source : σ} {n : Nat} (hnone : ((ofSystem s source).level n).2.draws = 0)
    {k : Nat} (hk : k ≤ n) : ((ofSystem s source).level k).1.length = s.grammar.start.length := by
  induction k with
  | zero => rfl
  | succ k ih =>
      rw [level_succ_eq_map_successor hmode hsingle hnone hk, List.length_map,
        ← ih (Nat.le_of_succ_le hk)]
      simp [ContextIndex.sites]

/-- In each pass the two runs come to agree a little nearer to the place only. -/
theorem agreeNear_level {t : System} (hindex : t.index = s.index) {source : σ} {other : τ} {n : Nat}
    (hs : ((ofSystem s source).level n).2.draws = 0)
    (ht : ((ofSystem t other).level n).2.draws = 0) {k : Nat} (hk : k ≤ n) {before after i : Nat}
    (h : AgreeNear (before + k * s.index.reachBefore) (after + k * s.index.reachAfter) i
      s.grammar.start t.grammar.start) :
    AgreeNear before after i ((ofSystem s source).level k).1 ((ofSystem t other).level k).1 := by
  have hmode' : t.mode = .context := by rwa [System.mode, hindex]
  induction k generalizing before after with
  | zero =>
      rw [Nat.zero_mul, Nat.zero_mul] at h
      exact h
  | succ k ih =>
      have hlevel : AgreeNear (before + s.index.reachBefore) (after + s.index.reachAfter) i
          ((ofSystem s source).level k).1 ((ofSystem t other).level k).1 := by
        apply ih (Nat.le_of_succ_le hk)
        simpa only [Nat.succ_mul, Nat.add_assoc, Nat.add_comm] using h
      have hsingle' : t.index.SingleTokens := hindex ▸ hsingle
      rw [level_succ_eq_map_successor hmode hsingle hs hk,
        level_succ_eq_map_successor hmode' hsingle' ht hk, hindex]
      exact hlevel.map_successor

end SingleTokens

end Expander

/-- The start word has no part in the index. -/
theorem System.index_withStart {g : Grammar} {start : Word} {s t : System}
    (hs : System.ofGrammar g = .ok s) (ht : System.ofGrammar { g with start } = .ok t) :
    t.index = s.index := by
  obtain ⟨index, hindex, rfl⟩ := System.ofGrammar_eq_ok_iff.mp hs
  obtain ⟨other, hother, rfl⟩ := System.ofGrammar_eq_ok_iff.mp ht
  have hsame : ContextIndex.ofGrammar { g with start } = ContextIndex.ofGrammar g := rfl
  rw [hsame, hindex] at hother
  cases hother
  rfl

/-- As long as nothing is drawn, two grammars that differ in their start words have the same token at a
place of level `n` if the start words agree as far from it as `n` passes can look. -/
theorem level_lightCone {g : Grammar} {start : Word} (hlength : start.length = g.start.length)
    {s t : System} (hs : System.ofGrammar g = .ok s)
    (ht : System.ofGrammar { g with start } = .ok t) (hmode : s.mode = .context)
    (hsingle : s.index.SingleTokens) {σ : Type u} [RandomSource σ] {τ : Type v} [RandomSource τ]
    (source : σ) (other : τ) (n i : Nat)
    (hdraws : ((Expander.ofSystem s source).level n).2.draws = 0)
    (hdraws' : ((Expander.ofSystem t other).level n).2.draws = 0)
    (hagree : ∀ j < g.start.length, i ≤ j + n * s.index.reachBefore → j ≤ i + n * s.index.reachAfter →
      start[j]? = g.start[j]?) :
    ((Expander.ofSystem s source).level n).1.length = g.start.length ∧
    ((Expander.ofSystem t other).level n).1.length = g.start.length ∧
    ((Expander.ofSystem t other).level n).1[i]? = ((Expander.ofSystem s source).level n).1[i]? := by
  have hgrammar : s.grammar = g := System.grammar_of_ofGrammar hs
  have hstart : t.grammar.start = start := by rw [System.grammar_of_ofGrammar ht]
  have hnear : AgreeNear (0 + n * s.index.reachBefore) (0 + n * s.index.reachAfter) i
      s.grammar.start t.grammar.start := by
    rw [hgrammar, hstart, Nat.zero_add, Nat.zero_add]
    refine ⟨hlength, ?_⟩
    intro j hbefore hafter
    by_cases hj : j < g.start.length
    · exact hagree j hj hbefore hafter
    · rw [List.getElem?_eq_none (by omega), List.getElem?_eq_none (by omega)]
  have hlevel := Expander.agreeNear_level hmode hsingle (System.index_withStart hs ht) hdraws hdraws'
    (Nat.le_refl n) hnear
  have hfirst := Expander.length_level hmode hsingle hdraws (Nat.le_refl n)
  rw [hgrammar] at hfirst
  exact ⟨hfirst, hlevel.length.trans hfirst, hlevel.tokens i (by omega) (by omega)⟩

/-- A token that goes on by one place in each pass. -/
def Grammar.signal : Grammar where
  start := ["b", "a", "a", "a", "a"]
  rules := .ofList [("1 b a", [["b"]]), ("b", [["a"]])]
  contextRules := []
  name := "Signal propagation"

def System.signal : System :=
  ⟨.signal, [.ofWindow 1 "b" ["a"] [["b"]], .ofToken "b" [["a"]]], true⟩

def Grammar.silence : Grammar := { signal with start := ["a", "a", "a", "a", "a"] }

def System.silence : System := ⟨.silence, System.signal.index⟩

/-- The rules look back by one place and do not look ahead, so after two passes the difference at the
first place has not come to place 3. It has come to place 2. -/
theorem level_lightCone_signal :
    System.signal.index.reachBefore = 1 ∧ System.signal.index.reachAfter = 0 ∧
    ((Expander.ofSystem System.silence (Twister.ofSeed 5)).level 2).1[3]? =
      ((Expander.ofSystem System.signal (Twister.ofSeed 3)).level 2).1[3]? ∧
    ((Expander.ofSystem System.silence (Twister.ofSeed 5)).level 2).1[2]? ≠
      ((Expander.ofSystem System.signal (Twister.ofSeed 3)).level 2).1[2]? := by
  have hsignal : System.ofGrammar .signal = .ok .signal := by decide
  have hsilence : System.ofGrammar .silence = .ok .silence := by decide
  have hcone := level_lightCone (by decide) hsignal hsilence rfl (by decide) (Twister.ofSeed 3)
    (Twister.ofSeed 5) 2 3 rfl rfl (by decide)
  exact ⟨by decide, by decide, hcone.2.2, by decide⟩

end LSystem
