import LSystem.Expander
import LSystem.Proofs.ContextIndex.Keys
import LSystem.Proofs.Levels.Growth
import LSystem.Proofs.Text.Words
import Mathlib.Data.List.Nodup

/-! # Grammars with other tokens

A renaming puts one token for each. Where every key is a word, the index of a renamed grammar is the index
of the grammar, renamed. -/

namespace LSystem

/-- New names for tokens: different tokens keep different names, and words are renamed to words. -/
structure Renaming where
  name : Token → Token
  injective : Function.Injective name
  isWord : ∀ token, Text.IsWord token → Text.IsWord (name token)

namespace Renaming

instance : CoeFun Renaming (fun _ => Token → Token) := ⟨name⟩

variable (f : Renaming)

def word (word : Word) : Word := word.map f

def alternatives (alternatives : Alternatives) : Alternatives := alternatives.map f.word

def entry (entry : String × Alternatives) : String × Alternatives :=
  (f entry.1, f.alternatives entry.2)

def table (table : Table Alternatives) : Table Alternatives where
  entries := table.entries.map f.entry
  nodup := by
    have hkeys : (table.entries.map f.entry).map (·.1) = (table.entries.map (·.1)).map f := by
      simp [entry]
    rw [hkeys]
    exact table.nodup.map f.injective

def rule (rule : ContextRule) : ContextRule where
  pattern := f.word rule.pattern
  center := rule.center
  alternatives := f.alternatives rule.alternatives
  pattern_ne_nil := by simpa [word] using rule.pattern_ne_nil

/-- All keys, and all tokens of the words, have their new names. The grammar itself keeps its name. -/
def grammar (g : Grammar) : Grammar where
  start := f.word g.start
  rules := f.table g.rules
  contextRules := g.contextRules.map f.rule
  name := g.name

def index (index : ContextIndex) : ContextIndex where
  rules := index.rules.map f.rule
  hasContexts := index.hasContexts

def system (s : System) : System := ⟨f.grammar s.grammar, f.index s.index⟩

theorem productive_grammar (g : Grammar) :
    (f.grammar g).productive = g.productive.map f.entry := by
  have hfilled : (fun entry : String × Alternatives => !entry.2.isEmpty) ∘ f.entry =
      fun entry => !entry.2.isEmpty := by
    funext entry
    simp [Renaming.entry, alternatives]
  rw [Grammar.productive, Grammar.productive, grammar, table, List.filter_map, hfilled]

theorem lookup_entries (entries : List (String × Alternatives)) (token : Token) :
    (entries.map f.entry).lookup (f token) = (entries.lookup token).map f.alternatives := by
  induction entries with
  | nil => rfl
  | cons entry entries ih =>
      have hkey : f token = (f.entry entry).1 ↔ token = entry.1 := f.injective.eq_iff
      rw [List.map_cons, lookup_cons_eq, lookup_cons_eq, ih]
      by_cases h : token = entry.1
      · rw [if_pos (hkey.mpr h), if_pos h]
        rfl
      · rw [if_neg (mt hkey.mp h), if_neg h]

/-- A renamed token is found if the token is, whatever the text of its key. -/
theorem replacements_grammar (g : Grammar) (token : Token) :
    (f.grammar g).replacements (f token) = f.alternatives (g.replacements token) := by
  rw [Grammar.replacements, Grammar.replacements, Table.get?, Table.get?, grammar, table,
    lookup_entries]
  cases g.rules.entries.lookup token <;> rfl

end Renaming

/-! ## Indexes -/

/-- Where every key is a word, each of them makes a rule for its token. -/
theorem ContextIndex.ofGrammar_of_words {g : Grammar}
    (hkeys : ∀ key ∈ g.productiveKeys, Text.words key = [key]) :
    ContextIndex.ofGrammar g =
      .ok ⟨g.productive.map (fun entry => .ofToken entry.1 entry.2) ++ g.contextRules,
        !g.contextRules.isEmpty⟩ := by
  have hread : ∀ entry ∈ g.productive, readKey entry.1 = .token entry.1 :=
    fun entry hentry => readKey_eq_token_iff.mpr (hkeys _ (List.mem_map_of_mem hentry))
  have hrules : g.productive.filterMap (fun entry => (readKey entry.1).rule? entry.2) =
      g.productive.map (fun entry => .ofToken entry.1 entry.2) := by
    rw [← List.filterMap_eq_map]
    apply List.filterMap_congr
    intro entry hentry
    rw [hread entry hentry]
    rfl
  have hwindows : g.productive.any (fun entry => (readKey entry.1).isWindow) = false := by
    apply List.any_eq_false.mpr
    intro entry hentry
    rw [hread entry hentry]
    simp [KeyReading.isWindow]
  refine ofGrammar_eq_ok_iff.mpr ⟨?_, ?_⟩
  · intro entry hentry
    rw [hread entry hentry]
    rfl
  · rw [hrules, hwindows, Bool.false_or]

namespace Renaming

variable (f : Renaming) {g : Grammar}

theorem words_productiveKeys (hkeys : ∀ key ∈ g.productiveKeys, Text.words key = [key]) :
    ∀ key ∈ (f.grammar g).productiveKeys, Text.words key = [key] := by
  intro renamed hrenamed
  rw [Grammar.productiveKeys, productive_grammar, List.map_map] at hrenamed
  obtain ⟨entry, hentry, rfl⟩ := List.mem_map.mp hrenamed
  have hkey := hkeys entry.1 (List.mem_map_of_mem hentry)
  exact Text.words_of_isWord (f.isWord _ (Text.isWord_of_words_eq hkey))

/-- Both grammars have an index, and the one is the other renamed. -/
theorem exists_ofGrammar (hkeys : ∀ key ∈ g.productiveKeys, Text.words key = [key]) :
    ∃ s, System.ofGrammar g = .ok s ∧ System.ofGrammar (f.grammar g) = .ok (f.system s) := by
  refine ⟨_, System.ofGrammar_eq_ok_iff.mpr ⟨_, ContextIndex.ofGrammar_of_words hkeys, rfl⟩, ?_⟩
  refine System.ofGrammar_eq_ok_iff.mpr
    ⟨_, ContextIndex.ofGrammar_of_words (f.words_productiveKeys hkeys), ?_⟩
  have hrules : (g.productive.map (fun entry => ContextRule.ofToken entry.1 entry.2)).map f.rule =
      (f.grammar g).productive.map (fun entry => ContextRule.ofToken entry.1 entry.2) := by
    rw [productive_grammar, List.map_map, List.map_map]
    rfl
  rw [system, index, List.map_append, hrules]
  simp [grammar]

end Renaming

end LSystem
