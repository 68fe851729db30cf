import LSystem.Grammar.Draft
import LSystem.Proofs.Config.Acceptance
import LSystem.Proofs.Config.Writings
import Mathlib.Data.Set.List

/-! # Configurations and drafts

The start word and the rules of a configuration may as well be handed over as a draft. Only a text that
stands for all alternatives of a key is read in two ways: a configuration takes it for one word, a draft for
one word from each of its letters. So the two make the same grammar exactly if every such text is a single
letter. -/

namespace LSystem

/-! ## Tables with other values -/

namespace Table

variable {α : Type u} {β : Type v}

/-- The table with another value for each key. -/
def map (t : Table α) (f : α → β) : Table β :=
  ⟨t.entries.map (fun entry => (entry.1, f entry.2)), by
    rw [List.map_map]
    exact t.nodup⟩

theorem map_enter (f : α → β) (key : String) (value : α) (entries : List (String × α)) :
    (enter key value entries).map (fun entry => (entry.1, f entry.2)) =
      enter key (f value) (entries.map (fun entry => (entry.1, f entry.2))) := by
  induction entries with
  | nil => rfl
  | cons entry rest ih =>
      rw [enter, List.map_cons, enter]
      split
      · rfl
      · rw [List.map_cons, ih]

theorem map_insert (t : Table α) (f : α → β) (key : String) (value : α) :
    (t.insert key value).map f = (t.map f).insert key (f value) :=
  ext (map_enter f key value t.entries)

theorem map_foldl_insert (f : α → β) (pairs : List (String × α)) (t : Table α) :
    (pairs.foldl (fun t pair => t.insert pair.1 pair.2) t).map f =
      (pairs.map (fun pair => (pair.1, f pair.2))).foldl (fun t pair => t.insert pair.1 pair.2)
        (t.map f) := by
  induction pairs generalizing t with
  | nil => rfl
  | cons pair pairs ih => rw [List.foldl_cons, List.map_cons, List.foldl_cons, ih, map_insert]

theorem map_ofList (f : α → β) (pairs : List (String × α)) :
    (ofList pairs).map f = ofList (pairs.map (fun pair => (pair.1, f pair.2))) :=
  map_foldl_insert f pairs empty

theorem map_eq_map_iff {t : Table α} {f g : α → β} :
    t.map f = t.map g ↔ ∀ entry ∈ t.entries, f entry.2 = g entry.2 := by
  constructor
  · intro h entry hentry
    have hentries := List.map_inj_left.mp (congrArg entries h) entry hentry
    exact (Prod.mk.inj hentries).2
  · intro h
    exact ext (List.map_congr_left (fun entry hentry => by rw [h entry hentry]))

end Table

/-! ## Drafts as values -/

/-- A text is a text and a list of tokens an array. -/
def WordDraft.toJson : WordDraft → Json
  | text s => .string s
  | tokens ts => .array (ts.map .string)

namespace AlternativesDraft

def toJson : AlternativesDraft → Json
  | text s => .string s
  | list drafts => .array (drafts.map WordDraft.toJson)

/-- The alternatives if a text in their place is the only one of them. -/
def whole : AlternativesDraft → Alternatives
  | text s => [Text.words s]
  | list drafts => drafts.map WordDraft.cut

/-- Letter by letter a text is the same alternatives as in one piece if it is one letter. -/
theorem read_cut_eq_whole_iff {draft : AlternativesDraft} :
    draft.read WordDraft.cut = draft.whole ↔ ∀ s, draft = .text s → s.length = 1 := by
  cases draft with
  | list drafts =>
      constructor
      · intro _ s hs
        cases hs
      · intro _
        rfl
  | text s =>
      have hone : (text s).read WordDraft.cut = (text s).whole ↔ s.length = 1 := by
        simp only [read, whole, WordDraft.cut, Text.letters, List.map_map]
        rw [← String.length_toList]
        constructor
        · intro h
          simpa using congrArg List.length h
        · intro h
          obtain ⟨c, hc⟩ := List.length_eq_one_iff.mp h
          have hs : String.singleton c = s := String.toList_inj.mp (by simp [hc])
          rw [hc, List.map_singleton, Function.comp_apply, hs]
      rw [hone]
      constructor
      · rintro h _ ⟨⟩
        exact h
      · intro h
        exact h s rfl

theorem toJson_eq_string_iff {draft : AlternativesDraft} {s : String} :
    draft.toJson = .string s ↔ draft = .text s := by
  cases draft <;> simp [toJson]

end AlternativesDraft

/-- The texts among the values of a table are those of its drafts. -/
theorem Table.forall_mem_toJson_iff {t : Table AlternativesDraft} {p : String → Prop} :
    (∀ key s, (key, Json.string s) ∈ (t.map AlternativesDraft.toJson).entries → p s) ↔
      ∀ entry ∈ t.entries, ∀ s, entry.2 = .text s → p s := by
  constructor
  · intro h entry hentry s hs
    apply h entry.1 s
    exact List.mem_map.mpr ⟨entry, hentry, by rw [hs]; rfl⟩
  · intro h key s hmem
    obtain ⟨entry, hentry, hvalue⟩ := List.mem_map.mp hmem
    exact h entry hentry s (AlternativesDraft.toJson_eq_string_iff.mp (Prod.mk.inj hvalue).2)

/-- The draft of a rule that is there already. -/
def ContextRule.draft (rule : ContextRule) : RuleDraft :=
  ⟨.tokens rule.pattern, rule.center, .list (rule.alternatives.map .tokens)⟩

theorem ContextRule.rule?_draft (rule : ContextRule) : rule.draft.rule? = some rule := by
  have halternatives : (rule.alternatives.map WordDraft.tokens).map WordDraft.spell =
      rule.alternatives := by
    rw [List.map_map]
    exact List.map_id _
  simp only [RuleDraft.rule?, ofPattern?, draft, WordDraft.spell, AlternativesDraft.read,
    halternatives, dif_neg rule.pattern_ne_nil]

theorem mapM_rule?_draft (rules : List ContextRule) :
    (rules.map ContextRule.draft).mapM RuleDraft.rule? = some rules := by
  induction rules with
  | nil => rfl
  | cons rule rules ih =>
      rw [List.map_cons, List.mapM_cons, rule.rule?_draft, ih]
      rfl

/-! ## Values that have a draft -/

theorem exists_map_eq {f : α → β} {items : List β} (h : ∀ item ∈ items, ∃ a, f a = item) :
    ∃ drafts : List α, drafts.map f = items :=
  (Set.range_list_map f).symm.subset h

theorem Json.IsWord.exists_draft {value : Json} {n : Nat} (h : value.IsWord n) :
    ∃ draft : WordDraft, draft.toJson = value := by
  cases h with
  | text s => exact ⟨.text s, rfl⟩
  | tokens items hitems =>
      obtain ⟨ts, hts⟩ := exists_map_eq (fun item hitem => (hitems item hitem).imp (fun _ h => h.symm))
      exact ⟨.tokens ts, congrArg Json.array hts⟩

theorem Json.IsAlternatives.exists_draft {value : Json} (h : value.IsAlternatives) :
    ∃ draft : AlternativesDraft, draft.toJson = value := by
  cases h with
  | text s => exact ⟨.text s, rfl⟩
  | list items hitems =>
      have hdrafts : ∀ item ∈ items, ∃ draft : WordDraft, draft.toJson = item := by
        intro item hitem
        obtain ⟨n, hword⟩ := hitems item hitem
        exact hword.exists_draft
      obtain ⟨drafts, hitems⟩ := exists_map_eq hdrafts
      exact ⟨.list drafts, congrArg Json.array hitems⟩

namespace Config

theorem readItems_map {read : Path → Json → Reading α} {f : γ → Json} {g : γ → α}
    (h : ∀ item path, read path (f item) = .ok (g item)) (items : List γ) (path : Path) :
    readItems read path (items.map f) = .ok (items.map g) := by
  have hitems : List.Forall₂ (fun result value => ∃ item, g item = result ∧ f item = value)
      (items.map g) (items.map f) := by
    rw [List.forall₂_map_left_iff, List.forall₂_map_right_iff]
    exact List.forall₂_same.mpr (fun item _ => ⟨item, rfl, rfl⟩)
  refine readItems_eq_ok hitems ?_ path
  rintro _ _ path _ ⟨item, rfl, rfl⟩
  exact h item path

theorem readWord_toJson (draft : WordDraft) (path : Path) :
    readWord path draft.toJson = .ok draft.cut := by
  cases draft with
  | text s => rfl
  | tokens ts =>
      have hread : ∀ (item : String) path, readText path (.string item) = .ok (id item) :=
        fun _ _ => rfl
      have hitems := readItems_map hread ts path
      rw [List.map_id] at hitems
      exact hitems

theorem readAlternatives_toJson (draft : AlternativesDraft) (path : Path) :
    readAlternatives path draft.toJson = .ok draft.whole := by
  cases draft with
  | text s => rfl
  | list drafts => exact readItems_map readWord_toJson drafts path

theorem readRules_toJson (drafts : List (String × AlternativesDraft)) :
    readRules (.object (drafts.map (fun entry => (entry.1, entry.2.toJson)))) =
      .ok ((Table.ofList drafts).map AlternativesDraft.whole) := by
  have hentries : (drafts.map (fun entry => (entry.1, entry.2.toJson))).mapM (fun member =>
      (return (member.1, ← readAlternatives (.rule member.1) member.2) :
        Reading (String × Alternatives))) =
      .ok (drafts.map (fun entry => (entry.1, entry.2.whole))) := by
    induction drafts with
    | nil => rfl
    | cons draft drafts ih =>
        rw [List.map_cons, List.mapM_cons, readAlternatives_toJson, ih]
        rfl
  refine bind_eq_ok_iff.mpr ⟨_, rfl, bind_eq_ok_iff.mpr ⟨_, hentries, ?_⟩⟩
  rw [Table.map_ofList]
  rfl

theorem isConfig_of_read {value : Json} {config : Config} (h : read value = .ok config) :
    value.IsConfig := by
  have hreports := reports_read value
  rw [← faults_eq_nil_iff]
  cases hfaults : faults value with
  | nil => rfl
  | cons fault later =>
      rw [hfaults] at hreports
      have herror : read value = .error fault := hreports
      rw [h] at herror
      cases herror

/-! ## Drafts of configurations -/

/-- A draft has start word and rules from the members of an object, as they stand there, and context rules
and name of a grammar. -/
structure Drafts (members : List (String × Json)) (g : Grammar) (draft : GrammarDraft) : Prop where
  start : Json.member? members "axiom" = some draft.start.toJson
  rules : field members "rules" (.object []) =
    .object (draft.rules.map (fun entry => (entry.1, entry.2.toJson)))
  contextRules : draft.contextRules = g.contextRules.map ContextRule.draft
  name : draft.name = g.name

theorem exists_drafts {members : List (String × Json)} {config : Config}
    (h : read (.object members) = .ok config) : ∃ draft, Drafts members config.grammar draft := by
  obtain ⟨_, ⟨⟩, hcomplete⟩ := isConfig_of_read h
  obtain ⟨value, hvalue, n, hword, -⟩ := hcomplete.start
  obtain ⟨start, rfl⟩ := hword.exists_draft
  have hrules : ∃ entries, field members "rules" (.object []) = .object entries ∧
      ∀ entry ∈ entries, entry.2.IsAlternatives := by
    cases hmember : Json.member? members "rules" with
    | none => exact ⟨[], by rw [field, hmember]; rfl, nofun⟩
    | some value =>
        rw [field_eq_of_member? hmember]
        exact hcomplete.rules value hmember
  obtain ⟨entries, hfield, hentries⟩ := hrules
  obtain ⟨rules, rfl⟩ := exists_map_eq (f := fun entry : String × AlternativesDraft =>
      (entry.1, entry.2.toJson)) (by
    rintro ⟨key, value⟩ hentry
    obtain ⟨draft, rfl⟩ := (hentries _ hentry).exists_draft
    exact ⟨(key, draft), rfl⟩)
  exact ⟨⟨start, rules, config.grammar.contextRules.map ContextRule.draft, config.grammar.name⟩, hvalue,
    hfield, rfl, rfl⟩

/-- The grammar of a draft, whose context rules all have a pattern. -/
theorem Drafts.grammar?_eq {members : List (String × Json)} {g : Grammar} {draft : GrammarDraft}
    (h : Drafts members g draft) :
    draft.grammar? WordDraft.cut =
      some ⟨draft.start.cut, (Table.ofList draft.rules).map (·.read WordDraft.cut), g.contextRules,
        g.name⟩ := by
  simp only [GrammarDraft.grammar?, h.contextRules, mapM_rule?_draft, h.name, Table.map_ofList]
  rfl

/-- The grammar that is read from an object, in terms of its draft. -/
theorem Drafts.grammar_eq {members : List (String × Json)} {config : Config} {draft : GrammarDraft}
    (h : Drafts members config.grammar draft) (hread : read (.object members) = .ok config) :
    config.grammar =
      ⟨draft.start.cut, (Table.ofList draft.rules).map AlternativesDraft.whole,
        config.grammar.contextRules, config.grammar.name⟩ := by
  obtain ⟨-, hstart, -, hrules, -⟩ := read_eq_ok_iff.mp hread
  rw [field_eq_of_member? h.start, readWord_toJson] at hstart
  rw [h.rules, readRules_toJson] at hrules
  rw [Except.ok.inj hstart, Except.ok.inj hrules]

/-- Every object that is read as a configuration has a draft, and every draft of it makes a grammar. This is
the grammar that is read, with the same order of rules, exactly if each text that stands for all alternatives
of a key has one letter. Of a key that is given twice the last value counts. -/
theorem drafts_agree_iff {members : List (String × Json)} {config : Config}
    (hread : read (.object members) = .ok config) :
    ∃ rules, field members "rules" (.object []) = .object rules ∧
      (∃ draft, Drafts members config.grammar draft) ∧
      ∀ draft, Drafts members config.grammar draft →
        ∃ g, draft.grammar? WordDraft.cut = some g ∧
          (g = config.grammar ↔
            ∀ key s, (key, Json.string s) ∈ (Table.ofList rules).entries → s.length = 1) ∧
          ((∀ entry ∈ (Table.ofList rules).entries, ∃ items, entry.2 = .array items) →
            g = config.grammar) := by
  obtain ⟨first, hfirst⟩ := exists_drafts hread
  refine ⟨_, hfirst.rules, ⟨first, hfirst⟩, ?_⟩
  intro draft hdraft
  have hvalues := Json.object.inj (hfirst.rules.symm.trans hdraft.rules)
  have hgrammar := hdraft.grammar_eq hread
  rw [hvalues, ← Table.map_ofList]
  have hagree : (⟨draft.start.cut, (Table.ofList draft.rules).map (·.read WordDraft.cut),
      config.grammar.contextRules, config.grammar.name⟩ : Grammar) = config.grammar ↔
      ∀ key s, (key, Json.string s) ∈
        ((Table.ofList draft.rules).map AlternativesDraft.toJson).entries → s.length = 1 := by
    calc
      _ ↔ (Table.ofList draft.rules).map (·.read WordDraft.cut) =
            (Table.ofList draft.rules).map AlternativesDraft.whole := by
        constructor
        · exact fun h => congrArg Grammar.rules (h.trans hgrammar)
        · intro h
          rw [h, ← hgrammar]
      _ ↔ ∀ entry ∈ (Table.ofList draft.rules).entries, ∀ s, entry.2 = .text s → s.length = 1 := by
        simp only [Table.map_eq_map_iff, AlternativesDraft.read_cut_eq_whole_iff]
      _ ↔ _ := Table.forall_mem_toJson_iff.symm
  refine ⟨_, hdraft.grammar?_eq, hagree, ?_⟩
  intro harrays
  rw [hagree]
  intro key s hentry
  obtain ⟨items, hitems⟩ := harrays _ hentry
  cases hitems

/-- Alternatives as a text of one letter, as an array of a text and an array, and as an empty array. The last
ones are left open. -/
def mixtureRules (last : Json) : List (String × Json) :=
  [("a", .string "b"), ("b", .array [.string "a  b", .array [.string "c d"]]), ("c", .array []),
    ("d", last)]

def mixture (last : Json) : List (String × Json) :=
  [("axiom", .string "a b"), ("name", .string "Mixture"), ("rules", .object (mixtureRules last)),
    ("context_rules", .array [.object [("pattern", .string "a b"), ("alternatives", .string "a b")]])]

def mixtureConfig (last : Alternatives) : Config where
  grammar := {
    start := ["a", "b"]
    rules := .ofList [("a", [["b"]]), ("b", [["a", "b"], ["c d"]]), ("c", []), ("d", last)]
    contextRules := [⟨["a", "b"], 0, [["a", "b"]], List.cons_ne_nil _ _⟩]
    name := "Mixture" }
  seed := none
  level := 0

/-- A text that is one blank is one empty alternative in both readings. One that is a blank between two
letters is three alternatives in the one reading and one in the other. -/
theorem drafts_agree_mixture :
    read (.object (mixture (.string " "))) = .ok (mixtureConfig [[]]) ∧
    read (.object (mixture (.string "a b"))) = .ok (mixtureConfig [["a", "b"]]) ∧
    (∃ draft, Drafts (mixture (.string " ")) (mixtureConfig [[]]).grammar draft ∧
      draft.grammar? WordDraft.cut = some (mixtureConfig [[]]).grammar) ∧
    ∃ draft, Drafts (mixture (.string "a b")) (mixtureConfig [["a", "b"]]).grammar draft ∧
      draft.grammar? WordDraft.cut ≠ some (mixtureConfig [["a", "b"]]).grammar := by
  have hblank : read (.object (mixture (.string " "))) = .ok (mixtureConfig [[]]) := rfl
  have hpair : read (.object (mixture (.string "a b"))) = .ok (mixtureConfig [["a", "b"]]) := rfl
  refine ⟨hblank, hpair, ?blank, ?pair⟩
  case blank =>
    obtain ⟨rules, hrules, ⟨draft, hdraft⟩, hdrafts⟩ := drafts_agree_iff hblank
    obtain ⟨g, hg, hiff, -⟩ := hdrafts draft hdraft
    have hvalues : mixtureRules (.string " ") = rules := Json.object.inj hrules
    refine ⟨draft, hdraft, ?_⟩
    rw [hg, hiff.mpr]
    rw [← hvalues]
    intro key s hentry
    have hentries : (Table.ofList (mixtureRules (.string " "))).entries = mixtureRules (.string " ") := rfl
    rw [hentries] at hentry
    simp only [mixtureRules, List.mem_cons, Prod.mk.injEq, Json.string.injEq, reduceCtorEq, and_false,
      List.not_mem_nil, or_false, false_or] at hentry
    rcases hentry with ⟨-, rfl⟩ | ⟨-, rfl⟩ <;> rfl
  case pair =>
    obtain ⟨rules, hrules, ⟨draft, hdraft⟩, hdrafts⟩ := drafts_agree_iff hpair
    obtain ⟨g, hg, hiff, -⟩ := hdrafts draft hdraft
    have hvalues : mixtureRules (.string "a b") = rules := Json.object.inj hrules
    refine ⟨draft, hdraft, ?_⟩
    rw [hg]
    intro hsame
    have hlength := hiff.mp (Option.some.inj hsame) "d" "a b"
    rw [← hvalues] at hlength
    have hentry : ("d", Json.string "a b") ∈ (Table.ofList (mixtureRules (.string "a b"))).entries :=
      List.mem_of_getElem? (i := 3) rfl
    exact absurd (hlength hentry) (by decide)

end Config

end LSystem
