import LSystem.Config.Writer
import LSystem.Proofs.Config.Fields
import LSystem.Proofs.Text.Spacing
import Mathlib.Data.List.Forall2

/-! # Ways to write a configuration

Every word can be written as the array of its tokens. A word whose tokens are words of a text can be
written as a text that spells them, and then alternatives of which there is only one need no array.
All these ways of writing are read alike. -/

namespace LSystem

/-! ## Writings -/

/-- A word is written as the array of its tokens, or as a text that spells it. -/
inductive Word.WrittenAs (word : Word) : Json → Prop where
  | tokens : WrittenAs word (Word.toJson word)
  | text {text : String} : Text.Spells text word → WrittenAs word (.string text)

/-- Alternatives are written as an array of words. A text that is alone in it may stand for itself.
-/
inductive Alternatives.WrittenAs (alternatives : Alternatives) : Json → Prop where
  | list {items : List Json} :
      List.Forall₂ Word.WrittenAs alternatives items → WrittenAs alternatives (.array items)
  | bare {text : String} :
      WrittenAs alternatives (.array [.string text]) → WrittenAs alternatives (.string text)

/-- A context rule is written as an object with its window, its center and its alternatives. -/
inductive ContextRule.WrittenAs (rule : ContextRule) : Json → Prop where
  | object {members : List (String × Json)} {pattern alternatives : Json} :
      Json.member? members "pattern" = some pattern → Word.WrittenAs rule.pattern pattern →
      Json.member? members "center" = some (.int rule.center) →
      Json.member? members "alternatives" = some alternatives →
      Alternatives.WrittenAs rule.alternatives alternatives → WrittenAs rule (.object members)

namespace Config

/-- The members of a written configuration. The table keeps the order of its entries, and so do the
context rules. -/
structure Members (config : Config) (members : List (String × Json)) : Prop where
  name : Json.member? members "name" = some (.string config.grammar.name)
  start : ∃ value, Json.member? members "axiom" = some value ∧
    Word.WrittenAs config.grammar.start value
  rules : ∃ entries, Json.member? members "rules" = some (.object entries) ∧
    List.Forall₂ (fun entry written => written.1 = entry.1 ∧
      Alternatives.WrittenAs entry.2 written.2) config.grammar.rules.entries entries
  contextRules : ∃ items, Json.member? members "context_rules" = some (.array items) ∧
    List.Forall₂ ContextRule.WrittenAs config.grammar.contextRules items
  seed : Json.member? members "seed" = some ((config.seed.map Json.int).getD .null)
  level : Json.member? members "level" = some (.int config.level)

/-- A value is a way to write a configuration. -/
def WrittenAs (config : Config) (value : Json) : Prop :=
  ∃ members, value = .object members ∧ Members config members

/-! ## Everything as arrays -/

theorem forall₂_map_self {R : α → β → Prop} {f : α → β} (h : ∀ item, R item (f item))
    (items : List α) : List.Forall₂ R items (items.map f) :=
  List.forall₂_map_right_iff.mpr (List.forall₂_same.mpr (fun item _ => h item))

theorem alternatives_writtenAs_toJson (alternatives : Alternatives) :
    Alternatives.WrittenAs alternatives alternatives.toJson :=
  .list (forall₂_map_self (fun _ => .tokens) alternatives)

theorem contextRule_writtenAs_toJson (rule : ContextRule) : rule.WrittenAs rule.toJson :=
  .object rfl .tokens rfl rfl (alternatives_writtenAs_toJson _)

theorem writtenAs_toJson (config : Config) : config.WrittenAs config.toJson := by
  refine ⟨_, rfl, rfl, ⟨_, rfl, .tokens⟩, ⟨_, rfl, ?_⟩, ⟨_, rfl, ?_⟩, rfl, rfl⟩
  · exact forall₂_map_self (fun entry => ⟨rfl, alternatives_writtenAs_toJson entry.2⟩) _
  · exact forall₂_map_self contextRule_writtenAs_toJson _

/-! ## Reading what was written -/

theorem readItems_eq_ok {R : α → Json → Prop} {read : Path → Json → Reading α}
    {results : List α} {items : List Json} (h : List.Forall₂ R results items)
    (hread : ∀ result ∈ results, ∀ path value, R result value → read path value = .ok result)
    (path : Path) : readItems read path items = .ok results := by
  rw [readItems]
  generalize 0 = first
  induction h generalizing first with
  | nil => rfl
  | cons hresult _ ih =>
      obtain ⟨hhead, htail⟩ := List.forall_mem_cons.mp hread
      rw [List.zipIdx_cons, List.mapM_cons, hhead _ _ hresult, ih htail]
      rfl

theorem readWord_of_writtenAs {word : Word} {value : Json} (h : Word.WrittenAs word value)
    (path : Path) : readWord path value = .ok word := by
  cases h with
  | text hspells => rw [readWord, hspells.words_eq]
  | tokens =>
      have htokens : List.Forall₂ (fun token value => value = Json.string token) word
          (word.map .string) :=
        List.forall₂_map_right_iff.mpr (List.forall₂_same.mpr (fun _ _ => rfl))
      refine readItems_eq_ok htokens ?_ path
      rintro token _ path _ rfl
      rfl

theorem readAlternatives_of_writtenAs {alternatives : Alternatives} {value : Json}
    (h : Alternatives.WrittenAs alternatives value) (path : Path) :
    readAlternatives path value = .ok alternatives := by
  cases h with
  | list hitems =>
      exact readItems_eq_ok hitems (fun _ _ path _ hword => readWord_of_writtenAs hword path) path
  | bare hlist =>
      cases hlist with
      | list hitems =>
          obtain ⟨word, rest, hword, hrest, rfl⟩ := List.forall₂_cons_right_iff.mp hitems
          obtain rfl := List.forall₂_nil_right_iff.mp hrest
          have hread := readWord_of_writtenAs hword path
          rw [readWord, Except.ok.injEq] at hread
          rw [readAlternatives, hread]

/-- The center must be a place of the window. -/
theorem readContextRule_of_writtenAs {rule : ContextRule} {value : Json} (h : rule.WrittenAs value)
    (hcenter : 0 ≤ rule.center ∧ rule.center < rule.pattern.length) (path : Path) :
    readContextRule path value = .ok rule := by
  cases h with
  | @object members pattern alternatives hpattern hword hplace halternatives hlist =>
      refine bind_eq_ok_iff.mpr ⟨members, rfl, bind_eq_ok_iff.mpr ⟨rule.pattern, ?_, ?_⟩⟩
      · rw [field_eq_of_member? hpattern]
        exact readWord_of_writtenAs hword _
      · rw [dif_neg rule.pattern_ne_nil, field_eq_of_member? hplace]
        refine bind_eq_ok_iff.mpr ⟨rule.center, rfl, ?_⟩
        rw [if_pos hcenter, field_eq_of_member? halternatives,
          readAlternatives_of_writtenAs hlist]
        rfl

theorem readRules_of_forall₂ {table : Table Alternatives} {entries : List (String × Json)}
    (h : List.Forall₂ (fun entry written => written.1 = entry.1 ∧
      Alternatives.WrittenAs entry.2 written.2) table.entries entries) :
    readRules (.object entries) = .ok table := by
  have hentries : entries.mapM (fun member => (return (member.1,
      ← readAlternatives (.rule member.1) member.2) : Reading (String × Alternatives))) =
      .ok table.entries := by
    generalize table.entries = written at h
    induction h with
    | nil => rfl
    | cons hentry _ ih =>
        obtain ⟨hkey, halternatives⟩ := hentry
        rw [List.mapM_cons, readAlternatives_of_writtenAs halternatives, ih, hkey]
        rfl
  have htable : Table.ofList table.entries = table :=
    Table.ext (Table.entries_ofList table.nodup)
  refine bind_eq_ok_iff.mpr ⟨entries, rfl, bind_eq_ok_iff.mpr ⟨_, hentries, ?_⟩⟩
  rw [htable]
  rfl

theorem read_of_writtenAs {config : Config} {value : Json} (h : config.WrittenAs value)
    (hstart : config.grammar.start ≠ [])
    (hcenters : ∀ rule ∈ config.grammar.contextRules,
      0 ≤ rule.center ∧ rule.center < rule.pattern.length) :
    read value = .ok config := by
  obtain ⟨members, rfl, hname, ⟨start, hmember, hword⟩, ⟨entries, hrules, hentries⟩,
    ⟨items, hcontextRules, hitems⟩, hseed, hlevel⟩ := h
  apply read_eq_ok_iff.mpr
  refine ⟨?_, ?_, hstart, ?_, ?_, ?_, ?_⟩
  · rw [field_eq_of_member? hname]
    rfl
  · rw [field_eq_of_member? hmember, readWord_of_writtenAs hword]
  · rw [field_eq_of_member? hrules, readRules_of_forall₂ hentries]
  · rw [field_eq_of_member? hcontextRules]
    refine readItems_eq_ok hitems ?_ _
    intro rule hrule path _ hwritten
    exact readContextRule_of_writtenAs hwritten (hcenters rule hrule) path
  · rw [field_eq_of_member? hseed, readSeed_getD]
  · rw [field_eq_of_member? hlevel, readLevel_natCast]

/-- A configuration with a start word, whose context rules have their centers in their windows, is
read back from its arrays, and from every other way to write it. -/
theorem read_toJson {config : Config} (hstart : config.grammar.start ≠ [])
    (hcenters : ∀ rule ∈ config.grammar.contextRules,
      0 ≤ rule.center ∧ rule.center < rule.pattern.length) :
    read config.toJson = .ok config ∧
      ∀ value, config.WrittenAs value → read value = .ok config :=
  ⟨read_of_writtenAs (writtenAs_toJson config) hstart hcenters,
    fun _ h => read_of_writtenAs h hstart hcenters⟩

/-- A configuration with an empty token, a token with a blank in it and an empty replacement. -/
def sampler : Config where
  grammar := {
    start := ["a", "b c", ""]
    rules := .ofList [("a", [["b", "c"], []]), ("1 x y", [["z"]])]
    contextRules := [⟨["x", "y"], 1, [["p", "q"]], List.cons_ne_nil _ _⟩]
    name := "Sampler" }
  seed := none
  level := 3

/-- The same, as short as can be. -/
def samplerInShort : Json :=
  .object [
    ("axiom", .array [.string "a", .string "b c", .string ""]),
    ("rules", .object [
      ("a", .array [.string "\tb  c", .string ""]),
      ("1 x y", .string "z ")]),
    ("context_rules", .array [.object [
      ("pattern", .string "x y"), ("center", .int 1), ("alternatives", .string "p q")]]),
    ("seed", .null),
    ("level", .int 3),
    ("name", .string "Sampler")]

theorem sampler_writtenAs : sampler.WrittenAs samplerInShort := by
  have hpair : Text.Spells ("\t" ++ "b" ++ "  " ++ ("" ++ "c" ++ "")) ["b", "c"] :=
    .cons (by decide) (by decide) (by decide) (by decide)
      (.last (by decide) (by decide) (by decide))
  have hnothing : Text.Spells "" [] := .gap (by decide)
  have hsingle : Text.Spells ("" ++ "z" ++ " ") ["z"] :=
    .last (by decide) (by decide) (by decide)
  have hwindow : Text.Spells ("" ++ "x" ++ " " ++ ("" ++ "y" ++ "")) ["x", "y"] :=
    .cons (by decide) (by decide) (by decide) (by decide)
      (.last (by decide) (by decide) (by decide))
  have hblock : Text.Spells ("" ++ "p" ++ " " ++ ("" ++ "q" ++ "")) ["p", "q"] :=
    .cons (by decide) (by decide) (by decide) (by decide)
      (.last (by decide) (by decide) (by decide))
  refine ⟨_, rfl, rfl, ⟨_, rfl, .tokens⟩, ⟨_, rfl, ?_⟩, ⟨_, rfl, ?_⟩, rfl, rfl⟩
  · refine .cons ⟨rfl, .list (.cons (.text hpair) (.cons (.text hnothing) .nil))⟩ ?_
    exact .cons ⟨rfl, .bare (.list (.cons (.text hsingle) .nil))⟩ .nil
  · refine .cons (.object rfl (.text hwindow) rfl rfl ?_) .nil
    exact .bare (.list (.cons (.text hblock) .nil))

theorem read_toJson_sampler :
    sampler.grammar.start ≠ [] ∧
    (∀ rule ∈ sampler.grammar.contextRules,
      0 ≤ rule.center ∧ rule.center < rule.pattern.length) ∧
    read sampler.toJson = .ok sampler ∧ sampler.WrittenAs samplerInShort ∧
    read samplerInShort = .ok sampler := by
  have hstart : sampler.grammar.start ≠ [] := by decide
  have hcenters : ∀ rule ∈ sampler.grammar.contextRules,
      0 ≤ rule.center ∧ rule.center < rule.pattern.length := by decide
  obtain ⟨harrays, hwritings⟩ := read_toJson hstart hcenters
  exact ⟨hstart, hcenters, harrays, sampler_writtenAs, hwritings _ sampler_writtenAs⟩

end Config

end LSystem
