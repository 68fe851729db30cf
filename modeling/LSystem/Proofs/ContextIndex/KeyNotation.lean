import LSystem.Proofs.ContextIndex.Keys
import LSystem.Proofs.Levels.SameSites
import LSystem.Proofs.Text.Decimal
import LSystem.Proofs.Text.Spacing
import Mathlib.Data.List.Basic

/-! # Context rules written as keys

A context rule and the key that spells it out say the same. The rules come in the order of their
keys, so that a draw picks the same alternative in both notations. -/

namespace LSystem

/-! ## Reading a key back -/

/-- A rule that a key can say: its tokens are words, its center is a place of its window or the
place just before it, and the offset is not too long to be read. -/
structure ContextRule.Spellable (rule : ContextRule) : Prop where
  words : ∀ token ∈ rule.pattern, Text.IsWord token
  center : -1 ≤ rule.center ∧ rule.center < rule.pattern.length
  digits : (Nat.toDigits 10 rule.center.natAbs).length ≤ Text.digitLimit

namespace ContextRule.Spellable

variable {rule : ContextRule}

theorem words_key (h : rule.Spellable) :
    Text.words rule.key = Text.decimal rule.center :: rule.pattern := by
  rw [key]
  refine (Text.words_append_blank (c := ' ') rfl _ _).trans ?_
  rw [Text.words_of_isWord (Text.isWord_decimal _),
    Text.words_intercalate (by decide) (by decide) h.words]
  rfl

/-- The key of a rule reads as its window. -/
theorem readKey_key (h : rule.Spellable) :
    (readKey rule.key).isWindow = true ∧
      (readKey rule.key).rule? rule.alternatives = some rule := by
  obtain ⟨pattern, center, alternatives, hne⟩ := rule
  cases pattern with
  | nil => exact absurd rfl hne
  | cons first others =>
      have hread : readKey (ContextRule.mk (first :: others) center alternatives hne).key =
          .window center first others := by
        simp only [readKey, h.words_key, Text.offset?_decimal h.digits]
        rw [if_pos h.center]
      rw [hread]
      exact ⟨rfl, rfl⟩

end ContextRule.Spellable

/-! ## Rules moved into the table -/

namespace Grammar

/-- The grammar with its context rules written as keys, at the end of the table. -/
def keyed (g : Grammar) : Grammar :=
  { g with
    rules :=
      g.contextRules.foldl (fun table rule => table.insert rule.key rule.alternatives) g.rules
    contextRules := [] }

/-- The context rules can be written as keys of their own. -/
structure Keyable (g : Grammar) : Prop where
  spellable : ∀ rule ∈ g.contextRules, rule.Spellable
  alternatives : ∀ rule ∈ g.contextRules, rule.alternatives ≠ []
  distinct : (g.contextRules.map ContextRule.key).Nodup
  fresh : ∀ rule ∈ g.contextRules, g.rules.get? rule.key = none

/-- The entries that say what the context rules say. -/
def ruleEntries (g : Grammar) : List (String × Alternatives) :=
  g.contextRules.map (fun rule => (rule.key, rule.alternatives))

namespace Keyable

variable {g : Grammar}

theorem nodup_keys (h : g.Keyable) : ((g.rules.entries ++ g.ruleEntries).map (·.1)).Nodup := by
  rw [List.map_append, List.nodup_append]
  refine ⟨g.rules.nodup, ?_, ?_⟩
  · rw [ruleEntries, List.map_map]
    exact h.distinct
  · rintro _ hkey key hrule rfl
    simp only [ruleEntries, List.map_map, List.mem_map, Function.comp_def] at hrule
    obtain ⟨rule, hmem, rfl⟩ := hrule
    obtain ⟨entry, hentry, hsame⟩ := List.mem_map.mp hkey
    have hnone := h.fresh rule hmem
    rw [Table.get?, List.lookup_eq_none_iff] at hnone
    exact absurd hsame.symm (by simpa using hnone entry hentry)

/-- The keys come after those of the table, in the order of the rules. -/
theorem entries_keyed (h : g.Keyable) :
    g.keyed.rules.entries = g.rules.entries ++ g.ruleEntries := by
  rw [← Table.entries_foldl_insert g.ruleEntries g.rules h.nodup_keys, ruleEntries, List.foldl_map]
  rfl

theorem productive_keyed (h : g.Keyable) :
    g.keyed.productive = g.productive ++ g.ruleEntries := by
  have hall : g.ruleEntries.filter (fun entry => !entry.2.isEmpty) = g.ruleEntries := by
    apply List.filter_eq_self.mpr
    intro entry hentry
    obtain ⟨rule, hrule, rfl⟩ := List.mem_map.mp hentry
    simpa using h.alternatives rule hrule
  rw [productive, h.entries_keyed, List.filter_append, hall, ← productive]

theorem filterMap_ruleEntries (h : g.Keyable) :
    g.ruleEntries.filterMap (fun entry => (readKey entry.1).rule? entry.2) = g.contextRules := by
  rw [ruleEntries, List.filterMap_map]
  refine (List.filterMap_congr ?_).trans List.filterMap_some
  intro rule hrule
  rw [Function.comp_apply, (h.spellable rule hrule).readKey_key.2]

/-- Both notations make the same index, or fail to make one for the same offset. -/
theorem ofGrammar_keyed (h : g.Keyable) :
    ContextIndex.ofGrammar g.keyed = ContextIndex.ofGrammar g := by
  have hoverlong : g.ruleEntries.findSome? (fun entry => (readKey entry.1).overlong?) = none := by
    apply List.findSome?_eq_none_iff.mpr
    intro entry hentry
    obtain ⟨rule, hrule, rfl⟩ := List.mem_map.mp hentry
    exact KeyReading.overlong?_of_isWindow (h.spellable rule hrule).readKey_key.1
  have hwindows : g.ruleEntries.any (fun entry => (readKey entry.1).isWindow) =
      !g.contextRules.isEmpty := by
    cases hrules : g.contextRules with
    | nil => simp [ruleEntries, hrules]
    | cons rule rest =>
        have hspellable : rule.Spellable := h.spellable rule (by simp [hrules])
        simp [ruleEntries, hrules, hspellable.readKey_key.1]
  rw [ContextIndex.ofGrammar_eq, ContextIndex.ofGrammar_eq, h.productive_keyed,
    List.findSome?_append, hoverlong, Option.or_none, List.filterMap_append,
    h.filterMap_ruleEntries, List.any_append, hwindows]
  simp [keyed]

/-- In both notations every word has the same sites. -/
theorem sites_keyed (h : g.Keyable) {index : ContextIndex}
    (hindex : ContextIndex.ofGrammar g = .ok index) (word : Word) :
    (System.mk g.keyed index).sites word = (System.mk g index).sites word := by
  cases hmode : index.mode with
  | context => simp only [System.sites, System.mode, hmode]
  | plain =>
      -- Without windows there is no context rule to be moved.
      have hrules : g.contextRules = [] := by
        rw [ContextIndex.eq_of_ofGrammar hindex] at hmode
        by_contra hne
        simp [ContextIndex.mode, hne] at hmode
      have hkeyed : g.keyed = g := by
        obtain ⟨start, rules, contextRules, name⟩ := g
        cases hrules
        rfl
      rw [hkeyed]

end Keyable

/-- A grammar and the one with its context rules written as keys have the same index, and whatever
the source their expanders give the same words and make as many draws. -/
theorem keyed_spec {g : Grammar} (h : g.Keyable) :
    g.keyed.rules.entries = g.rules.entries ++ g.ruleEntries ∧
    ContextIndex.ofGrammar g.keyed = ContextIndex.ofGrammar g ∧
    ∀ s, System.ofGrammar g = .ok s → ∃ s', System.ofGrammar g.keyed = .ok s' ∧
      ∀ {σ : Type u} [RandomSource σ] (source : σ) (n : Nat),
        ((Expander.ofSystem s' source).level n).1 = ((Expander.ofSystem s source).level n).1 ∧
        ((Expander.ofSystem s' source).level n).2.draws =
          ((Expander.ofSystem s source).level n).2.draws := by
  refine ⟨h.entries_keyed, h.ofGrammar_keyed, ?_⟩
  intro s hs
  cases hindex : ContextIndex.ofGrammar g with
  | error offset => simp [System.ofGrammar, hindex, Except.map] at hs
  | ok index =>
      simp only [System.ofGrammar, hindex, Except.map, Except.ok.injEq] at hs
      subst hs
      refine ⟨⟨g.keyed, index⟩, ?_, ?_⟩
      · rw [System.ofGrammar, h.ofGrammar_keyed, hindex]
        rfl
      · intro σ _ source n
        have hstart : (System.mk g.keyed index).grammar.start =
            (System.mk g index).grammar.start := rfl
        rw [Expander.level_withSystem hstart (h.sites_keyed hindex) source n]
        exact ⟨rfl, rfl⟩

/-- A grammar whose context rules look before and behind the token they rewrite. -/
def relay : Grammar where
  start := ["a", "b", "x"]
  rules := .ofList [("b", [["c"]])]
  contextRules := [.ofWindow 1 "a" ["b"] [["b", "b"], ["a"]], .ofWindow (-1) "x" [] [["x"]]]
  name := Grammar.defaultName

theorem keyable_relay : relay.Keyable where
  spellable rule hrule := {
    words := (by decide : ∀ rule ∈ relay.contextRules, ∀ token ∈ rule.pattern,
      Text.IsWord token) rule hrule
    center := (by decide : ∀ rule ∈ relay.contextRules,
      -1 ≤ rule.center ∧ rule.center < rule.pattern.length) rule hrule
    digits := (by decide : ∀ rule ∈ relay.contextRules,
      (Nat.toDigits 10 rule.center.natAbs).length ≤ Text.digitLimit) rule hrule }
  alternatives := by decide
  distinct := by decide
  fresh := by decide

theorem keyed_spec_relay :
    relay.Keyable ∧ relay.contextRules.map ContextRule.key = ["1 a b", "-1 x"] ∧
    ContextIndex.ofGrammar relay.keyed = ContextIndex.ofGrammar relay :=
  ⟨keyable_relay, by decide, (keyed_spec.{0} keyable_relay).2.1⟩

end Grammar

end LSystem
