import LSystem.Proofs.ContextIndex.Offsets
import LSystem.Proofs.Text.Spacing

/-! # The form of keys

Whether a key makes a rule, and which, can be read off its characters: a key is a token among blanks,
or a sign, digits and tokens, with blanks between them and around. -/

namespace LSystem

/-! ## Forms -/

/-- The key is an offset and a window, and the offset is a place of the window or the place just before
it. -/
inductive IsWindowKey : String → List Token → Int → Prop where
  | mk {key offset : String} {first : Token} {others : List Token} {digits : Nat} {center : Int} :
      Text.Spells key (offset :: first :: others) → Text.IsOffset offset digits center →
      -1 ≤ center → center < (first :: others).length → IsWindowKey key (first :: others) center

/-- The pattern and the center that a key stands for. -/
inductive IsRuleKey : String → List Token → Int → Prop where
  | token {key : String} {token : Token} : Text.Spells key [token] → IsRuleKey key [token] 0
  | window {key : String} {tokens : List Token} {center : Int} :
      IsWindowKey key tokens center → IsRuleKey key tokens center

/-- The rules of some entries, one for each key that has one of the forms. -/
inductive KeyRules : List (String × Alternatives) → List ContextRule → Prop where
  | nil : KeyRules [] []
  | rule {key : String} {rule : ContextRule} {entries : List (String × Alternatives)}
      {rules : List ContextRule} :
      IsRuleKey key rule.pattern rule.center → KeyRules entries rules →
      KeyRules ((key, rule.alternatives) :: entries) (rule :: rules)
  | dropped {key : String} {alternatives : Alternatives} {entries : List (String × Alternatives)}
      {rules : List ContextRule} :
      (∀ tokens center, ¬ IsRuleKey key tokens center) → KeyRules entries rules →
      KeyRules ((key, alternatives) :: entries) rules

/-- No offset before a window has more digits than are read. -/
def HasShortOffsets (key : String) : Prop :=
  ∀ offset first others digits center, Text.Spells key (offset :: first :: others) →
    Text.IsOffset offset digits center → digits ≤ Text.digitLimit

theorem hasShortOffsets_iff {key : String} :
    HasShortOffsets key ↔ ∀ digits, ¬ HasLongOffset key digits := by
  constructor
  · rintro h digits ⟨hlong, offset, first, others, center, hwords, hoffset⟩
    exact absurd (h _ _ _ _ _ (Text.spells_iff.mpr hwords) hoffset) (Nat.not_le.mpr hlong)
  · intro h offset first others digits center hspells hoffset
    by_contra hlong
    exact h digits ⟨Nat.lt_of_not_le hlong, _, _, _, _, hspells.words_eq, hoffset⟩

/-! ## Readings by form -/

section

variable {key : String} (hshort : HasShortOffsets key)
include hshort

theorem hasWindow_iff {center : Int} {first : Token} {others : List Token} :
    HasWindow key center first others ↔ IsWindowKey key (first :: others) center := by
  constructor
  · rintro ⟨offset, hwords, ⟨digits, -, hoffset⟩, hlow, hhigh⟩
    exact .mk (Text.spells_iff.mpr hwords) hoffset hlow hhigh
  · rintro ⟨hspells, hoffset, hlow, hhigh⟩
    exact ⟨_, hspells.words_eq, ⟨_, hshort _ _ _ _ _ hspells hoffset, hoffset⟩, hlow, hhigh⟩

theorem isWindow_readKey_iff :
    (readKey key).isWindow = true ↔ ∃ tokens center, IsWindowKey key tokens center := by
  constructor
  · intro h
    cases hread : readKey key with
    | window center first others =>
        exact ⟨_, _, (hasWindow_iff hshort).mp (readKey_eq_window_iff.mp hread)⟩
    | blank | token | noOffset | outside | overlong =>
        rw [hread] at h
        cases h
  · rintro ⟨_, _, hspells, hoffset, hlow, hhigh⟩
    rw [readKey_eq_window_iff.mpr ((hasWindow_iff hshort).mpr (.mk hspells hoffset hlow hhigh))]
    rfl

/-- A key makes the rule whose pattern and center are those of its form, with the alternatives of the
key. -/
theorem rule?_readKey_eq_some_iff {alternatives : Alternatives} {rule : ContextRule} :
    (readKey key).rule? alternatives = some rule ↔
      IsRuleKey key rule.pattern rule.center ∧ rule.alternatives = alternatives := by
  constructor
  · intro h
    cases hread : readKey key with
    | token token =>
        rw [hread] at h
        cases h
        exact ⟨.token (Text.spells_iff.mpr (readKey_eq_token_iff.mp hread)), rfl⟩
    | window center first others =>
        rw [hread] at h
        cases h
        exact ⟨.window ((hasWindow_iff hshort).mp (readKey_eq_window_iff.mp hread)), rfl⟩
    | blank | noOffset | outside | overlong =>
        rw [hread] at h
        cases h
  · obtain ⟨pattern, center, own, hpattern⟩ := rule
    rintro ⟨hkey, rfl⟩
    cases hkey with
    | token hspells =>
        rw [readKey_eq_token_iff.mpr hspells.words_eq]
        rfl
    | window hwindow =>
        cases hwindow with
        | mk hspells hoffset hlow hhigh =>
            rw [readKey_eq_window_iff.mpr
              ((hasWindow_iff hshort).mpr (.mk hspells hoffset hlow hhigh))]
            rfl

theorem rule?_readKey_eq_none_iff {alternatives : Alternatives} :
    (readKey key).rule? alternatives = none ↔ ∀ tokens center, ¬ IsRuleKey key tokens center := by
  rw [Option.eq_none_iff_forall_ne_some]
  constructor
  · intro h tokens center hkey
    have hne : tokens ≠ [] := by
      cases hkey with
      | token => simp
      | window hwindow =>
          cases hwindow
          simp
    exact h ⟨tokens, center, alternatives, hne⟩ ((rule?_readKey_eq_some_iff hshort).mpr ⟨hkey, rfl⟩)
  · intro h rule hrule
    exact h _ _ ((rule?_readKey_eq_some_iff hshort).mp hrule).1

end

/-- There is one list of rules for some entries. -/
theorem keyRules_iff {entries : List (String × Alternatives)}
    (hshort : ∀ entry ∈ entries, HasShortOffsets entry.1) (rules : List ContextRule) :
    KeyRules entries rules ↔
      rules = entries.filterMap (fun entry => (readKey entry.1).rule? entry.2) := by
  constructor
  · intro h
    induction h with
    | nil => rfl
    | rule hkey _ ih =>
        obtain ⟨hentry, hentries⟩ := List.forall_mem_cons.mp hshort
        rw [List.filterMap_cons, (rule?_readKey_eq_some_iff hentry).mpr ⟨hkey, rfl⟩, ← ih hentries]
    | dropped hnone _ ih =>
        obtain ⟨hentry, hentries⟩ := List.forall_mem_cons.mp hshort
        rw [List.filterMap_cons, (rule?_readKey_eq_none_iff hentry).mpr hnone, ← ih hentries]
  · rintro rfl
    induction entries with
    | nil => exact .nil
    | cons entry entries ih =>
        obtain ⟨hentry, hentries⟩ := List.forall_mem_cons.mp hshort
        obtain ⟨key, alternatives⟩ := entry
        rw [List.filterMap_cons]
        cases hrule : (readKey key).rule? alternatives with
        | none => exact .dropped ((rule?_readKey_eq_none_iff hentry).mp hrule) (ih hentries)
        | some rule =>
            obtain ⟨hkey, rfl⟩ := (rule?_readKey_eq_some_iff hentry).mp hrule
            exact .rule hkey (ih hentries)

/-! ## The index -/

/-- What holds of a rule that comes from a key. -/
structure ContextRule.WellFormed (rule : ContextRule) : Prop where
  words : ∀ token ∈ rule.pattern, Text.IsWord token
  alternatives : rule.alternatives ≠ []
  low : -1 ≤ rule.center
  high : rule.center < rule.pattern.length

theorem Text.Spells.isWord {text : String} {tokens : List String} (h : Spells text tokens) :
    ∀ token ∈ tokens, IsWord token := by
  rw [spells_iff] at h
  rw [← h]
  exact fun token => isWord_of_mem_words

theorem IsRuleKey.wellFormed {key : String} {rule : ContextRule}
    (h : IsRuleKey key rule.pattern rule.center) (halternatives : rule.alternatives ≠ []) :
    rule.WellFormed := by
  cases rule with
  | mk pattern center alternatives hpattern =>
      cases h with
      | token hspells => exact ⟨hspells.isWord, halternatives, (by decide : (-1 : Int) ≤ 0),
          Int.zero_lt_one⟩
      | window hwindow =>
          cases hwindow with
          | mk hspells _ hlow hhigh =>
              exact ⟨(List.forall_mem_cons.mp hspells.isWord).2, halternatives, hlow, hhigh⟩

theorem KeyRules.wellFormed {entries : List (String × Alternatives)} {rules : List ContextRule}
    (h : KeyRules entries rules) (hentries : ∀ entry ∈ entries, entry.2 ≠ []) :
    ∀ rule ∈ rules, rule.WellFormed := by
  induction h with
  | nil => exact nofun
  | rule hkey _ ih =>
      obtain ⟨hentry, hrest⟩ := List.forall_mem_cons.mp hentries
      exact List.forall_mem_cons.mpr ⟨hkey.wellFormed hentry, ih hrest⟩
  | dropped _ _ ih => exact ih (List.forall_mem_cons.mp hentries).2

/-- Unless an offset has too many digits to be read, the index of a grammar holds the rules of the keys
that have alternatives, in the order of the table, and then the explicit ones. It has contexts if one
of these keys is a window or there is an explicit rule. -/
theorem ofGrammar_keyRules {g : Grammar} (hshort : ∀ key ∈ g.productiveKeys, HasShortOffsets key) :
    ∃ index rules, ContextIndex.ofGrammar g = .ok index ∧
      index.rules = rules ++ g.contextRules ∧
      (∀ others, KeyRules g.productive others ↔ others = rules) ∧
      (index.hasContexts = true ↔
        (∃ key ∈ g.productiveKeys, ∃ tokens center, IsWindowKey key tokens center) ∨
          g.contextRules ≠ []) ∧
      ∀ rule ∈ rules, rule.WellFormed := by
  obtain ⟨index, hindex⟩ :=
    g.exists_ofGrammar_iff.mpr (fun key hkey => hasShortOffsets_iff.mp (hshort key hkey))
  have hentries : ∀ entry ∈ g.productive, HasShortOffsets entry.1 :=
    fun entry hentry => hshort _ (List.mem_map_of_mem hentry)
  have hfilled : ∀ entry ∈ g.productive, entry.2 ≠ [] := by
    intro entry hentry
    simpa using (List.mem_filter.mp hentry).2
  have hrules := keyRules_iff hentries
  refine ⟨index, _, hindex, ?_, hrules, ?_, ((hrules _).mpr rfl).wellFormed hfilled⟩
  · rw [ContextIndex.eq_of_ofGrammar hindex]
  · have hwindow : g.productive.any (fun entry => (readKey entry.1).isWindow) = true ↔
        ∃ key ∈ g.productiveKeys, ∃ tokens center, IsWindowKey key tokens center := by
      rw [List.any_eq_true, Grammar.productiveKeys]
      constructor
      · rintro ⟨entry, hentry, hkey⟩
        exact ⟨_, List.mem_map_of_mem hentry, (isWindow_readKey_iff (hentries _ hentry)).mp hkey⟩
      · rintro ⟨_, hkey, hform⟩
        obtain ⟨entry, hentry, rfl⟩ := List.mem_map.mp hkey
        exact ⟨entry, hentry, (isWindow_readKey_iff (hentries _ hentry)).mpr hform⟩
    rw [ContextIndex.eq_of_ofGrammar hindex, Bool.or_eq_true, hwindow]
    simp

/-- Keys with signs, zeros and blanks, of which two are dropped, one has no word and one has no
alternative. -/
def Grammar.signs : Grammar where
  start := ["a"]
  rules := .ofList [("\t007 ", [["b"]]), ("+01\u2003a  B c", [["B", "B"], []]), ("-2 a b", [["x"]]),
    ("-1 a", [["a", "a"]]), ("0 a", []), ("a b", [["y"]]), (" ", [["z"]]), ("-0 ٣ -1", [["٣"]])]
  contextRules := [.ofWindow 7 "a" [] [["c"]]]
  name := Grammar.defaultName

theorem ofGrammar_keyRules_signs :
    (∀ key ∈ Grammar.signs.productiveKeys, HasShortOffsets key) ∧
    KeyRules Grammar.signs.productive
      [.ofToken "007" [["b"]], .ofWindow 1 "a" ["B", "c"] [["B", "B"], []],
        .ofWindow (-1) "a" [] [["a", "a"]], .ofWindow 0 "٣" ["-1"] [["٣"]]] := by
  have hshort : ∀ key ∈ Grammar.signs.productiveKeys, HasShortOffsets key := by
    simp only [hasShortOffsets_iff, ← overlong?_eq_none_iff]
    decide
  obtain ⟨index, rules, hindex, hindexRules, hrules, -⟩ := ofGrammar_keyRules hshort
  have hcomputed : ContextIndex.ofGrammar .signs = .ok
      ⟨[.ofToken "007" [["b"]], .ofWindow 1 "a" ["B", "c"] [["B", "B"], []],
        .ofWindow (-1) "a" [] [["a", "a"]], .ofWindow 0 "٣" ["-1"] [["٣"]]] ++
          Grammar.signs.contextRules, true⟩ := by decide
  rw [hcomputed] at hindex
  cases hindex
  exact ⟨hshort, (hrules _).mpr (List.append_cancel_right hindexRules)⟩

end LSystem
