import LSystem.Proofs.ContextIndex.Keys
import LSystem.Proofs.Pass.Sites
import LSystem.Proofs.Text.Words
import Mathlib.Data.List.Basic
import Mathlib.Data.List.Flatten

/-! # The two passes

Without windows a pass may look tokens up in the table instead of matching the rules of the index.
The table goes by the key itself and the index by the only word of the key, so the two agree where
these are the same. -/

namespace LSystem

/-- The two passes over a word return the same and show every chooser the same sites. -/
def SamePass.{u} (g : Grammar) (index : ContextIndex) (word : Word) : Prop :=
  ∀ {σ : Type u} (choose : Chooser σ) (state : σ),
    g.rewrite choose.recording word (state, #[]) = index.rewrite choose.recording word (state, #[])

theorem samePass_iff {g : Grammar} {index : ContextIndex} {word : Word} :
    SamePass.{u} g index word ↔ g.sites word = index.sites word := by
  constructor
  · intro h
    have hrecords := h (fun token _ (state : PUnit.{u + 1}) => ([token], state)) ⟨⟩
    simp only [Grammar.rewrite, ContextIndex.rewrite, rewriteSites_recording,
      Prod.mk.injEq] at hrecords
    simpa [← Array.toList_inj] using hrecords.2.2
  · intro h σ choose state
    rw [Grammar.rewrite, ContextIndex.rewrite, h]

/-! ## Candidates by key -/

theorem lookup_getD_eq {entries : List (String × Alternatives)}
    (hkeys : (entries.map (·.1)).Nodup) (key : String) :
    (entries.lookup key).getD [] =
      (entries.filter (fun entry => entry.1 = key)).flatMap (·.2) := by
  induction entries with
  | nil => rfl
  | cons entry rest ih =>
      rw [List.map_cons, List.nodup_cons] at hkeys
      rw [lookup_cons_eq]
      by_cases hkey : key = entry.1
      · have hrest : rest.filter (fun other => other.1 = key) = [] := by
          apply List.filter_eq_nil_iff.mpr
          intro other hother
          simp only [decide_eq_true_eq]
          intro hsame
          exact hkeys.1 (List.mem_map.mpr ⟨other, hother, hsame.trans hkey⟩)
        rw [List.filter_cons, hrest, hkey]
        simp
      · rw [if_neg hkey, ih hkeys.2, List.filter_cons]
        simp [Ne.symm hkey]

theorem flatMap_filter (l : List α) (p : α → Bool) (f : α → List β) :
    (l.filter p).flatMap f = l.flatMap (fun x => if p x then f x else []) := by
  induction l with
  | nil => rfl
  | cons x l ih => cases hp : p x <;> simp [hp, ih]

namespace Grammar

/-- The alternatives of a token are those of the keys that are equal to it, of which there is one
at most. -/
theorem replacements_eq (g : Grammar) (token : Token) :
    g.replacements token =
      (g.productive.filter (fun entry => entry.1 = token)).flatMap (·.2) := by
  rw [replacements, Table.get?, lookup_getD_eq g.rules.nodup, productive, List.filter_comm,
    flatMap_filter _ (fun entry : String × Alternatives => !entry.2.isEmpty)]
  apply List.flatMap_congr
  intro entry _
  cases hempty : entry.2 <;> simp

/-- The alternatives of all keys that have a token as their only word. -/
def pooled (g : Grammar) (token : Token) : Alternatives :=
  (g.productive.filter (fun entry => Text.words entry.1 = [token])).flatMap (·.2)

theorem pooled_eq_replacements {g : Grammar} {token : Token}
    (h : ∀ key ∈ g.productiveKeys, Text.words key = [token] ↔ key = token) :
    g.pooled token = g.replacements token := by
  rw [replacements_eq, pooled]
  congr 1
  apply List.filter_congr
  intro entry hentry
  have hkey := h entry.1 (List.mem_map.mpr ⟨entry, hentry, rfl⟩)
  simp only [hkey]

end Grammar

/-! ## Candidates by rule -/

theorem firing_ofToken (token : Token) (alternatives : Alternatives) {word : Word} {i : Nat}
    (hi : i < word.length) :
    (ContextRule.ofToken token alternatives).firing word.toArray i =
      if word[i] = token then alternatives else [] := by
  rw [ContextRule.firing_eq]
  have hwindow : (word.drop i).take 1 = [word[i]] := by
    rw [List.drop_eq_getElem_cons hi, List.take_succ_cons, List.take_zero]
  have hend : (i : Int) + 1 ≤ word.length := by omega
  simp [ContextRule.ofToken, hwindow, hend]

/-- A key that is no window fires where the token is its only word. -/
theorem flatMap_firing_rule? {key : String} (hkey : (readKey key).isWindow = false)
    (alternatives : Alternatives) {word : Word} {i : Nat} (hi : i < word.length) :
    ((readKey key).rule? alternatives).toList.flatMap (fun rule => rule.firing word.toArray i) =
      if Text.words key = [word[i]] then alternatives else [] := by
  cases hread : readKey key with
  | token t =>
      rw [readKey_eq_token_iff.mp hread]
      simp [KeyReading.rule?, firing_ofToken t alternatives hi, eq_comm]
  | window center first others => simp [hread, KeyReading.isWindow] at hkey
  | blank | noOffset | outside | overlong =>
      have hwords : Text.words key ≠ [word[i]] := by
        rw [ne_eq, ← readKey_eq_token_iff, hread]
        simp
      simp [KeyReading.rule?, hwords]

theorem candidates_eq_pooled {g : Grammar} {index : ContextIndex}
    (hindex : ContextIndex.ofGrammar g = .ok index) (hplain : index.hasContexts = false)
    {word : Word} {i : Nat} (hi : i < word.length) :
    index.candidates word.toArray i = g.pooled word[i] := by
  rw [ContextIndex.eq_of_ofGrammar hindex] at hplain ⊢
  simp only [Bool.or_eq_false_iff, List.any_eq_false, Bool.not_eq_true, Bool.not_eq_false',
    List.isEmpty_iff] at hplain
  obtain ⟨hkeys, hrules⟩ := hplain
  rw [ContextIndex.candidates, hrules, List.append_nil]
  calc
    _ = g.productive.flatMap (fun entry => ((readKey entry.1).rule? entry.2).toList.flatMap
          (fun rule => rule.firing word.toArray i)) := by
      rw [List.filterMap_eq_flatMap_toList, List.flatMap_assoc]
    _ = g.productive.flatMap (fun entry =>
          if Text.words entry.1 = [word[i]] then entry.2 else []) :=
      List.flatMap_congr (fun entry hentry => flatMap_firing_rule? (hkeys entry hentry) entry.2 hi)
    _ = g.pooled word[i] := by
      rw [Grammar.pooled, flatMap_filter]
      simp only [decide_eq_true_eq]

theorem sites_eq_pooled {g : Grammar} {index : ContextIndex}
    (hindex : ContextIndex.ofGrammar g = .ok index) (hplain : index.hasContexts = false)
    (word : Word) : index.sites word = word.map (fun token => ⟨token, g.pooled token⟩) := by
  apply List.ext_getElem
  · simp [ContextIndex.sites]
  · intro i hi _
    have hword : i < word.length := by simpa [ContextIndex.sites] using hi
    simp [ContextIndex.sites, candidates_eq_pooled hindex hplain hword]

/-! ## When the passes agree -/

theorem samePass_iff_pooled {g : Grammar} {index : ContextIndex}
    (hindex : ContextIndex.ofGrammar g = .ok index) (hplain : index.hasContexts = false)
    {word : Word} :
    SamePass.{u} g index word ↔ ∀ token ∈ word, g.pooled token = g.replacements token := by
  rw [samePass_iff, sites_eq_pooled hindex hplain, Grammar.sites, List.map_inj_left]
  simp [eq_comm]

/-- A key whose only word is a token other than itself adds candidates that the table does not
give for that token. -/
theorem pooled_ne_replacements {g : Grammar} {key : String} {token : Token}
    (hkey : key ∈ g.productiveKeys) (hwords : Text.words key = [token]) (hne : token ≠ key) :
    g.pooled token ≠ g.replacements token := by
  obtain ⟨⟨_, alternatives⟩, hentry, rfl⟩ := List.mem_map.mp hkey
  have hproductive : 0 < alternatives.length := by
    simpa [List.length_pos_iff] using (List.mem_filter.mp hentry).2
  have hword := Text.words_of_isWord (Text.isWord_of_words_eq hwords)
  obtain ⟨before, after, hsplit⟩ := List.mem_iff_append.mp hentry
  -- Each side of the entry, the table gives a part of what the index gives.
  have hpart : ∀ entries : List (String × Alternatives),
      ((entries.filter (fun entry => entry.1 = token)).flatMap (·.2)).length ≤
        ((entries.filter (fun entry => Text.words entry.1 = [token])).flatMap (·.2)).length := by
    intro entries
    refine (List.Sublist.flatMap (List.monotone_filter_right entries ?_) _).length_le
    intro entry
    simp only [decide_eq_true_eq]
    rintro rfl
    exact hword
  intro heq
  have hlength := congrArg List.length heq
  rw [Grammar.replacements_eq, Grammar.pooled, hsplit] at hlength
  simp only [List.filter_append, List.filter_cons, List.flatMap_append, List.flatMap_cons,
    List.length_append, hwords, Ne.symm hne, decide_true, decide_false, ite_true,
    Bool.false_eq_true, ite_false] at hlength
  have hbefore := hpart before
  have hafter := hpart after
  omega

/-- Without windows the two passes agree on words of proper tokens exactly if every key of a single
word is that word, and on words of any tokens exactly if every key is its own only word. -/
theorem fastPath_iff {g : Grammar} {index : ContextIndex}
    (hindex : ContextIndex.ofGrammar g = .ok index) (hplain : index.hasContexts = false) :
    ((∀ word : Word, (∀ token ∈ word, Text.IsWord token) → SamePass.{u} g index word) ↔
      ∀ key ∈ g.productiveKeys, ∀ token, Text.words key = [token] → token = key) ∧
    ((∀ word : Word, SamePass.{u} g index word) ↔
      ∀ key ∈ g.productiveKeys, Text.words key = [key]) := by
  simp only [samePass_iff_pooled hindex hplain]
  refine ⟨⟨?_, ?_⟩, ⟨?_, ?_⟩⟩
  · intro hsame key hkey token hwords
    by_contra hne
    have hword := Text.isWord_of_words_eq hwords
    have htoken := hsame [token] (by simpa using hword) token (List.mem_singleton_self token)
    exact pooled_ne_replacements hkey hwords hne htoken
  · intro hkeys word hword token htoken
    apply Grammar.pooled_eq_replacements
    intro key hkey
    constructor
    · intro hwords
      exact (hkeys key hkey token hwords).symm
    · rintro rfl
      exact Text.words_of_isWord (hword key htoken)
  · intro hsame key hkey
    obtain ⟨entry, hentry, rfl⟩ := List.mem_map.mp hkey
    have htoken := hsame [entry.1] entry.1 (List.mem_singleton_self entry.1)
    obtain ⟨block, hblock⟩ : ∃ block, block ∈ entry.2 := by
      apply List.exists_mem_of_ne_nil
      simpa using (List.mem_filter.mp hentry).2
    have hgiven : block ∈ g.replacements entry.1 := by
      rw [Grammar.replacements_eq]
      exact List.mem_flatMap.mpr ⟨entry, List.mem_filter.mpr ⟨hentry, by simp⟩, hblock⟩
    rw [← htoken, Grammar.pooled] at hgiven
    obtain ⟨other, hother, -⟩ := List.mem_flatMap.mp hgiven
    have hwords := (List.mem_filter.mp hother).2
    exact Text.words_of_isWord (Text.isWord_of_words_eq (of_decide_eq_true hwords))
  · intro hkeys word token _
    apply Grammar.pooled_eq_replacements
    intro key hkey
    rw [hkeys key hkey]
    simp

/-- Keys that read as the same token, a key of several words and a blank one. -/
def Grammar.padded : Grammar where
  start := ["A"]
  rules := .ofList [(" A ", [["B"]]), ("A", [["C"], []]), ("x y", [["D"]]), (" ", [["E"]])]
  contextRules := []
  name := Grammar.defaultName

def ContextIndex.padded : ContextIndex :=
  ⟨[.ofToken "A" [["B"]], .ofToken "A" [["C"], []]], false⟩

theorem fastPath_iff_padded :
    ContextIndex.ofGrammar .padded = .ok .padded ∧ ContextIndex.padded.hasContexts = false ∧
    ((∀ word : Word, (∀ token ∈ word, Text.IsWord token) →
        SamePass.{0} .padded .padded word) ↔
      ∀ key ∈ Grammar.padded.productiveKeys, ∀ token, Text.words key = [token] → token = key) ∧
    ((∀ word : Word, SamePass.{0} .padded .padded word) ↔
      ∀ key ∈ Grammar.padded.productiveKeys, Text.words key = [key]) :=
  ⟨by decide, rfl, fastPath_iff (by decide) rfl⟩

end LSystem
