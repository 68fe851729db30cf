import LSystem.Proofs.ContextIndex.Offsets
import LSystem.Proofs.Levels.Alphabet
import LSystem.Proofs.Levels.SameSites

/-! # Rules for tokens that never occur

A rule whose pattern has a token that the grammar never writes fires nowhere. It may make a grammar
match windows that looked its tokens up before, but where every key is a word the two passes see the
same. -/

namespace LSystem

/-! ## Rules that do not fire -/

/-- A pattern with a token that is not in a word does not occur in it. -/
theorem ContextRule.firing_eq_nil {rule : ContextRule} {z : Token} (hz : z ∈ rule.pattern)
    {word : Word} (hword : z ∉ word) (position : Int) : rule.firing word.toArray position = [] := by
  apply List.eq_nil_iff_forall_not_mem.mpr
  intro block hblock
  obtain ⟨⟨before, after, rfl, -⟩, -⟩ := mem_firing_iff.mp hblock
  exact hword (by simp [hz])

/-- An index with further rules, in whose patterns `z` stands. -/
structure ContextIndex.Extends (z : Token) (index other : ContextIndex) : Prop where
  rules : ∃ before more after, index.rules = before ++ after ∧
    other.rules = before ++ more ++ after ∧ ∀ rule ∈ more, z ∈ rule.pattern
  contexts : index.hasContexts = true → other.hasContexts = true

theorem ContextIndex.Extends.sites_eq {z : Token} {index other : ContextIndex}
    (h : index.Extends z other) {word : Word} (hword : z ∉ word) :
    other.sites word = index.sites word := by
  obtain ⟨before, more, after, hindex, hother, hmore⟩ := h.rules
  have hnone : ∀ position : Int,
      more.flatMap (fun rule => rule.firing word.toArray position) = [] := by
    intro position
    apply List.flatMap_eq_nil_iff.mpr
    intro rule hrule
    exact ContextRule.firing_eq_nil (hmore rule hrule) hword position
  simp only [ContextIndex.sites, ContextIndex.candidates, hindex, hother, List.flatMap_append,
    hnone, List.append_nil]

/-- Where every key is a word, the index has the candidates of the table. -/
theorem sites_index_eq {g : Grammar} {index : ContextIndex}
    (hindex : ContextIndex.ofGrammar g = .ok index) (hplain : index.hasContexts = false)
    (hkeys : ∀ key ∈ g.productiveKeys, Text.words key = [key]) (word : Word) :
    index.sites word = g.sites word := by
  rw [sites_eq_pooled hindex hplain, Grammar.sites]
  apply List.map_congr_left
  intro token _
  rw [Grammar.pooled_eq_replacements]
  intro key hkey
  rw [hkeys key hkey]
  simp

/-! ## One rule more -/

/-- A key for the token `z`: the token itself, or an offset and a window with the token in it. -/
inductive KeyFor (z : Token) : String → Prop where
  | token : Text.IsWord z → KeyFor z z
  | window {key : String} {center : Int} {first : Token} {others : List Token} :
      HasWindow key center first others → z ∈ first :: others → KeyFor z key

namespace KeyFor

variable {z : Token} {key : String} (h : KeyFor z key)
include h

theorem mem_pattern {alternatives : Alternatives} {rule : ContextRule}
    (hrule : (readKey key).rule? alternatives = some rule) : z ∈ rule.pattern := by
  cases h with
  | token hz =>
      rw [readKey_eq_token_iff.mpr (Text.words_of_isWord hz)] at hrule
      cases hrule
      exact List.mem_singleton_self z
  | window hwindow hz =>
      rw [readKey_eq_window_iff.mpr hwindow] at hrule
      cases hrule
      exact hz

theorem overlong?_eq_none : (readKey key).overlong? = none := by
  cases h with
  | token hz => rw [readKey_eq_token_iff.mpr (Text.words_of_isWord hz)]; rfl
  | window hwindow _ => rw [readKey_eq_window_iff.mpr hwindow]; rfl

theorem eq_or_isWindow : key = z ∨ (readKey key).isWindow = true := by
  cases h with
  | token _ => exact .inl rfl
  | window hwindow _ => rw [readKey_eq_window_iff.mpr hwindow]; exact .inr rfl

end KeyFor

/-- The grammar with one rule more, which is for the token `z`: a context rule anywhere among the
others, or a new key anywhere in the table. -/
inductive Grammar.AddsRule (z : Token) (g : Grammar) : Grammar → Prop where
  | contextRule {before after : List ContextRule} {rule : ContextRule} :
      g.contextRules = before ++ after → z ∈ rule.pattern →
      AddsRule z g { g with contextRules := before ++ rule :: after }
  | key {before after : List (String × Alternatives)} {key : String} {alternatives : Alternatives}
      {table : Table Alternatives} :
      g.rules.entries = before ++ after → KeyFor z key →
      table.entries = before ++ (key, alternatives) :: after →
      AddsRule z g { g with rules := table }

namespace Grammar.AddsRule

variable {z : Token} {g g' : Grammar} {index : ContextIndex}

theorem start_eq (h : g.AddsRule z g') : g'.start = g.start := by
  cases h <;> rfl

/-- The rules that keys make. -/
def keyRules (entries : List (String × Alternatives)) : List ContextRule :=
  entries.filterMap (fun entry => (readKey entry.1).rule? entry.2)

theorem exists_index_contextRule {before after : List ContextRule} {rule : ContextRule}
    (hrules : g.contextRules = before ++ after) (hz : z ∈ rule.pattern)
    (hindex : ContextIndex.ofGrammar g = .ok index) :
    ∃ other, ContextIndex.ofGrammar { g with contextRules := before ++ rule :: after } = .ok other ∧
      index.Extends z other ∧ other.hasContexts = true := by
  obtain ⟨hread, rfl⟩ := ContextIndex.ofGrammar_eq_ok_iff.mp hindex
  refine ⟨_, ContextIndex.ofGrammar_eq_ok_iff.mpr ⟨hread, rfl⟩, ⟨?_, fun _ => ?_⟩, ?_⟩
  · refine ⟨keyRules g.productive ++ before, [rule], after, ?_, ?_, by simpa using hz⟩
    · rw [hrules, ← List.append_assoc]
      rfl
    · rw [List.append_assoc, List.append_assoc]
      rfl
  · simp
  · simp

/-- A new entry has its place among those with alternatives, unless it has none. -/
theorem exists_productive {before after : List (String × Alternatives)} {key : String}
    {alternatives : Alternatives} (hentries : g.rules.entries = before ++ after)
    (htable : g'.rules.entries = before ++ (key, alternatives) :: after) :
    ∃ first more last, g.productive = first ++ last ∧ g'.productive = first ++ more ++ last ∧
      (more = [] ∨ more = [(key, alternatives)]) := by
  let filled := fun entry : String × Alternatives => !entry.2.isEmpty
  refine ⟨before.filter filled, [(key, alternatives)].filter filled, after.filter filled, ?_, ?_, ?_⟩
  · rw [productive, hentries, List.filter_append]
  · rw [productive, htable, ← List.singleton_append, ← List.append_assoc, List.filter_append,
      List.filter_append]
  · cases alternatives with
    | nil => exact .inl rfl
    | cons => exact .inr rfl

theorem exists_index_key {first more last : List (String × Alternatives)} {key : String}
    {alternatives : Alternatives} (hkey : KeyFor z key) (hrules : g'.contextRules = g.contextRules)
    (hproductive : g.productive = first ++ last) (hproductive' : g'.productive = first ++ more ++ last)
    (hmore : more = [] ∨ more = [(key, alternatives)])
    (hindex : ContextIndex.ofGrammar g = .ok index) :
    ∃ other, ContextIndex.ofGrammar g' = .ok other ∧ index.Extends z other ∧
      (other.hasContexts = true ∨
        ∀ token, token ≠ z → g'.replacements token = g.replacements token) := by
  obtain ⟨hread, rfl⟩ := ContextIndex.ofGrammar_eq_ok_iff.mp hindex
  have hkeys : ∀ entry ∈ more, KeyFor z entry.1 := by
    rcases hmore with rfl | rfl
    · simp
    · simpa using hkey
  have hread' : ∀ entry ∈ g'.productive, (readKey entry.1).overlong? = none := by
    intro entry hentry
    simp only [hproductive', List.mem_append, or_assoc] at hentry
    rcases hentry with hfirst | hnew | hlast
    · exact hread entry (by simp [hproductive, hfirst])
    · exact (hkeys entry hnew).overlong?_eq_none
    · exact hread entry (by simp [hproductive, hlast])
  refine ⟨_, ContextIndex.ofGrammar_eq_ok_iff.mpr ⟨hread', rfl⟩, ⟨?_, ?_⟩, ?_⟩
  · refine ⟨keyRules first, keyRules more, keyRules last ++ g.contextRules, ?_, ?_, ?_⟩
    · rw [hproductive, List.filterMap_append, List.append_assoc]
      rfl
    · rw [hproductive', hrules, List.filterMap_append, List.filterMap_append, List.append_assoc]
      rfl
    · intro rule hrule
      obtain ⟨entry, hentry, hread⟩ := List.mem_filterMap.mp hrule
      exact (hkeys entry hentry).mem_pattern hread
  · simp only [hproductive, hproductive', hrules, List.any_append, Bool.or_eq_true]
    tauto
  · rcases hmore with rfl | rfl
    · right
      intro token _
      rw [replacements_eq, replacements_eq, hproductive, hproductive', List.append_nil]
    · rcases hkey.eq_or_isWindow with rfl | hwindow
      · right
        intro token htoken
        rw [replacements_eq, replacements_eq, hproductive, hproductive']
        simp [Ne.symm htoken]
      · left
        simp [hproductive', hwindow]

/-- The index has one rule more at most. A pass that still looks tokens up finds the same for all
tokens but `z`. -/
theorem exists_index (h : g.AddsRule z g') (hindex : ContextIndex.ofGrammar g = .ok index) :
    ∃ other, ContextIndex.ofGrammar g' = .ok other ∧ index.Extends z other ∧
      (other.hasContexts = true ∨
        ∀ token, token ≠ z → g'.replacements token = g.replacements token) := by
  cases h with
  | contextRule hrules hz =>
      obtain ⟨other, hother, hextends, hcontexts⟩ := exists_index_contextRule hrules hz hindex
      exact ⟨other, hother, hextends, .inl hcontexts⟩
  | @key _ _ _ _ table hentries hkey htable =>
      have hadded : Table.entries (Grammar.rules { g with rules := table }) = _ := htable
      obtain ⟨first, more, last, hproductive, hproductive', hmore⟩ :=
        exists_productive hentries hadded
      exact exists_index_key hkey rfl hproductive hproductive' hmore hindex

end Grammar.AddsRule

/-! ## What both grammars expand to -/

/-- Words without `z` have the same sites, whether their tokens are looked up or matched. -/
theorem System.sites_addsRule {z : Token} {g g' : Grammar} {index other : ContextIndex}
    (hindex : ContextIndex.ofGrammar g = .ok index) (hextends : index.Extends z other)
    (hlookup : other.hasContexts = true ∨
      ∀ token, token ≠ z → g'.replacements token = g.replacements token)
    (hkeys : index.hasContexts = true ∨ ∀ key ∈ g.productiveKeys, Text.words key = [key])
    {word : Word} (hword : z ∉ word) :
    System.sites ⟨g', other⟩ word = System.sites ⟨g, index⟩ word := by
  have hmatched : other.sites word = index.sites word := hextends.sites_eq hword
  simp only [System.sites, System.mode, ContextIndex.mode]
  cases hcontexts : index.hasContexts with
  | true => simp [hextends.contexts hcontexts, hmatched]
  | false =>
      have hplain : ∀ key ∈ g.productiveKeys, Text.words key = [key] :=
        hkeys.resolve_left (by simp [hcontexts])
      cases hother : other.hasContexts with
      | true =>
          -- The pass over `g'` matches windows, the one over `g` looks tokens up.
          simpa [hmatched] using sites_index_eq hindex hcontexts hplain word
      | false =>
          have hsame := hlookup.resolve_left (by simp [hother])
          simp only [Bool.false_eq_true, if_false, Grammar.sites]
          apply List.map_congr_left
          intro token htoken
          rw [hsame token (fun heq => hword (heq ▸ htoken))]

/-- A rule for a token that is not of the alphabet changes no level and no count of draws, also where
it makes the passes match windows. -/
theorem level_of_addsRule {z : Token} {g g' : Grammar} {s : System}
    (hs : System.ofGrammar g = .ok s)
    (hkeys : s.index.hasContexts = true ∨ ∀ key ∈ g.productiveKeys, Text.words key = [key])
    (hz : z ∉ g.alphabet) (hadds : g.AddsRule z g') :
    ∃ s', System.ofGrammar g' = .ok s' ∧
      ∀ {σ : Type u} [RandomSource σ] (source : σ) (n : Nat),
        ((Expander.ofSystem s' source).level n).1 = ((Expander.ofSystem s source).level n).1 ∧
        ((Expander.ofSystem s' source).level n).2.draws =
          ((Expander.ofSystem s source).level n).2.draws := by
  have halphabet := @System.mem_alphabet_of_level g s hs
  obtain ⟨index, hindex, rfl⟩ := System.ofGrammar_eq_ok_iff.mp hs
  obtain ⟨other, hother, hextends, hlookup⟩ := hadds.exists_index hindex
  refine ⟨⟨g', other⟩, System.ofGrammar_eq_ok_iff.mpr ⟨other, hother, rfl⟩, ?_⟩
  intro σ _ source n
  have hsame : ∀ k < n, System.sites ⟨g', other⟩ ((Expander.ofSystem ⟨g, index⟩ source).level k).1 =
      System.sites ⟨g, index⟩ ((Expander.ofSystem ⟨g, index⟩ source).level k).1 := by
    intro k _
    apply System.sites_addsRule hindex hextends hlookup hkeys
    exact fun hmem => hz (halphabet source k z hmem)
  rw [Expander.level_withSystem_of_levels hadds.start_eq source n hsame]
  exact ⟨rfl, rfl⟩

/-- Algae, watched for a token that never grows. -/
def Grammar.algaeWatched : Grammar :=
  { algae with
    rules := .ofList
      [("A", [["A", "B"], ["B"]]), ("0 A Z", [["Z", "A"], []]), ("B", [["A"]])] }

theorem Grammar.addsRule_algaeWatched : algae.AddsRule "Z" algaeWatched := by
  have hwindow : HasWindow "0 A Z" 0 "A" ["Z"] := readKey_eq_window_iff.mp (by decide)
  have hentries : algae.rules.entries = [("A", [["A", "B"], ["B"]])] ++ [("B", [["A"]])] := rfl
  exact .key hentries (.window hwindow (by decide)) rfl

/-- The watched grammar matches windows where the other looks tokens up. -/
theorem level_of_addsRule_algae :
    System.algae.mode = .plain ∧ "Z" ∉ Grammar.algae.alphabet ∧
    ∃ s', System.ofGrammar .algaeWatched = .ok s' ∧ s'.mode = .context ∧
      ∀ (seed : Int) (n : Nat),
        ((Expander.ofSystem s' (Twister.ofSeed seed)).level n).1 =
          ((Expander.ofSystem System.algae (Twister.ofSeed seed)).level n).1 := by
  have hsystem : System.ofGrammar .algae = .ok .algae := by decide
  have hz : "Z" ∉ Grammar.algae.alphabet := by decide
  obtain ⟨s', hs', hlevels⟩ :=
    level_of_addsRule hsystem (.inr (by decide)) hz Grammar.addsRule_algaeWatched
  refine ⟨by decide, hz, s', hs', ?_, fun seed n => (hlevels (Twister.ofSeed seed) n).1⟩
  have hmode : (System.ofGrammar .algaeWatched).toOption.map System.mode = some .context := by decide
  rw [hs'] at hmode
  exact Option.some_inj.mp hmode

end LSystem
