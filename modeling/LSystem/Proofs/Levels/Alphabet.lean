import LSystem.Proofs.ContextIndex.Keys
import LSystem.Proofs.Levels.Derivations

/-! # The alphabet of a grammar

All tokens of a run come from the start word or from an alternative of a rule. -/

namespace LSystem

/-- The tokens that a grammar can write. -/
def Grammar.alphabet (g : Grammar) : List Token :=
  g.start ++ (g.rules.entries.flatMap (·.2)).flatten ++
    (g.contextRules.flatMap (·.alternatives)).flatten

namespace Grammar

variable {g : Grammar} {token : Token}

theorem mem_alphabet_of_start (h : token ∈ g.start) : token ∈ g.alphabet := by
  simp [alphabet, h]

theorem mem_alphabet_of_entry {entry : String × Alternatives} {block : Word}
    (hentry : entry ∈ g.rules.entries) (hblock : block ∈ entry.2) (h : token ∈ block) :
    token ∈ g.alphabet := by
  have hmem : block ∈ g.rules.entries.flatMap (·.2) := List.mem_flatMap.mpr ⟨entry, hentry, hblock⟩
  simp [alphabet, List.mem_flatten_of_mem hmem h]

theorem mem_alphabet_of_contextRule {rule : ContextRule} {block : Word}
    (hrule : rule ∈ g.contextRules) (hblock : block ∈ rule.alternatives) (h : token ∈ block) :
    token ∈ g.alphabet := by
  have hmem : block ∈ g.contextRules.flatMap (·.alternatives) :=
    List.mem_flatMap.mpr ⟨rule, hrule, hblock⟩
  simp [alphabet, List.mem_flatten_of_mem hmem h]

/-- A token of the alphabet is in the start word, or in an alternative of a key, which thus has one, or of
a context rule. -/
theorem mem_alphabet_iff :
    token ∈ g.alphabet ↔ token ∈ g.start ∨
      (∃ entry ∈ g.productive, ∃ block ∈ entry.2, token ∈ block) ∨
      ∃ rule ∈ g.contextRules, ∃ block ∈ rule.alternatives, token ∈ block := by
  constructor
  · intro h
    rcases List.mem_append.mp h with h | h
    · rcases List.mem_append.mp h with h | h
      · exact .inl h
      · obtain ⟨block, hblock, htoken⟩ := List.mem_flatten.mp h
        obtain ⟨entry, hentry, hblock⟩ := List.mem_flatMap.mp hblock
        have hfilled : entry.2.isEmpty = false := by
          simpa using List.ne_nil_of_mem hblock
        exact .inr (.inl ⟨entry, List.mem_filter.mpr ⟨hentry, by simp [hfilled]⟩, block, hblock,
          htoken⟩)
    · obtain ⟨block, hblock, htoken⟩ := List.mem_flatten.mp h
      obtain ⟨rule, hrule, hblock⟩ := List.mem_flatMap.mp hblock
      exact .inr (.inr ⟨rule, hrule, block, hblock, htoken⟩)
  · rintro (h | ⟨entry, hentry, block, hblock, h⟩ | ⟨rule, hrule, block, hblock, h⟩)
    · exact mem_alphabet_of_start h
    · exact mem_alphabet_of_entry (List.mem_filter.mp hentry).1 hblock h
    · exact mem_alphabet_of_contextRule hrule hblock h

end Grammar

/-- The rule of a key has the alternatives of the key. -/
theorem KeyReading.alternatives_of_rule? {reading : KeyReading} {alternatives : Alternatives}
    {rule : ContextRule} (h : reading.rule? alternatives = some rule) :
    rule.alternatives = alternatives := by
  cases reading with
  | token | window => cases h; rfl
  | blank | noOffset | outside | overlong => cases h

/-- The alternatives of an index are those of the grammar. -/
theorem ContextIndex.mem_alphabet {g : Grammar} {index : ContextIndex}
    (hindex : ContextIndex.ofGrammar g = .ok index) {rule : ContextRule} (hrule : rule ∈ index.rules)
    {block : Word} (hblock : block ∈ rule.alternatives) {token : Token} (h : token ∈ block) :
    token ∈ g.alphabet := by
  rw [ContextIndex.eq_of_ofGrammar hindex] at hrule
  rcases List.mem_append.mp hrule with hkey | hexplicit
  · obtain ⟨entry, hentry, hread⟩ := List.mem_filterMap.mp hkey
    rw [KeyReading.alternatives_of_rule? hread] at hblock
    exact Grammar.mem_alphabet_of_entry (List.mem_filter.mp hentry).1 hblock h
  · exact Grammar.mem_alphabet_of_contextRule hexplicit hblock h

namespace System

variable {g : Grammar} {s : System} (hs : System.ofGrammar g = .ok s)
include hs

theorem Offers.mem_alphabet {word : Word} {i : Nat} {block : Word} (hoffer : s.Offers word i block)
    {token : Token} (h : token ∈ block) : token ∈ g.alphabet := by
  obtain ⟨index, hindex, rfl⟩ := System.ofGrammar_eq_ok_iff.mp hs
  cases hoffer with
  | key _ _ hentry hblock => exact Grammar.mem_alphabet_of_entry hentry hblock h
  | window _ hrule _ hblock => exact ContextIndex.mem_alphabet hindex hrule hblock h

/-- A derivation step brings in no token that is not of the alphabet. -/
theorem Derives.mem_alphabet {word next : Word} (hstep : s.Derives word next)
    (hword : ∀ token ∈ word, token ∈ g.alphabet) : ∀ token ∈ next, token ∈ g.alphabet := by
  obtain ⟨blocks, hlength, hreplaces, rfl⟩ := hstep
  intro token htoken
  obtain ⟨block, hblock, hmem⟩ := List.mem_flatten.mp htoken
  obtain ⟨i, hi, rfl⟩ := List.mem_iff_getElem.mp hblock
  have hold := List.getElem?_eq_getElem (l := word) (i := i) (by omega)
  have hreplace := hreplaces i _ _ hold (List.getElem?_eq_getElem hi)
  generalize hnew : blocks[i] = new at hreplace hmem
  cases hreplace with
  | kept =>
      rw [List.mem_singleton] at hmem
      subst hmem
      exact hword _ (List.getElem_mem _)
  | block hoffer => exact hoffer.mem_alphabet hs hmem

theorem Chain.mem_alphabet {word : Word} {words : List Word} (hchain : s.Chain word words)
    (hword : ∀ token ∈ word, token ∈ g.alphabet) :
    ∀ next ∈ word :: words, ∀ token ∈ next, token ∈ g.alphabet := by
  induction hchain with
  | nil word => simpa using hword
  | @cons word next rest hstep _ ih =>
      intro later hlater
      rcases List.mem_cons.mp hlater with rfl | hlater
      · exact hword
      · exact ih (hstep.mem_alphabet hs hword) later hlater

/-- Every token of a level is of the alphabet. -/
theorem mem_alphabet_of_level {σ : Type u} [RandomSource σ] (source : σ) (n : Nat) :
    ∀ token ∈ ((Expander.ofSystem s source).level n).1, token ∈ g.alphabet := by
  obtain ⟨words, -, hlevels, hchain⟩ := Expander.exists_chain_growBy n (Expander.ofSystem s source)
  have hstart : ∀ token ∈ s.grammar.start, token ∈ g.alphabet := by
    rw [System.grammar_of_ofGrammar hs]
    exact fun token htoken => Grammar.mem_alphabet_of_start htoken
  apply hchain.mem_alphabet hs hstart
  rw [← Expander.newest_growBy (Expander.cached_ofSystem s source)]
  have hnewest : (Expander.growBy n (Expander.ofSystem s source)).newest ∈
      (Expander.growBy n (Expander.ofSystem s source)).levels := by
    simp [Expander.levels]
  rwa [hlevels] at hnewest

end System

end LSystem
