import LSystem.ContextIndex

/-! # Rules from keys

An index that can be built holds one rule for each key that reads as a token or as a window, in the
order of the table, and the explicit rules after them. -/

namespace LSystem

namespace KeyReading

/-- The rule that a key makes with its alternatives, if it makes one. -/
def rule? : KeyReading → Alternatives → Option ContextRule
  | token t, alternatives => some (.ofToken t alternatives)
  | window center first others, alternatives => some (.ofWindow center first others alternatives)
  | blank, _ | noOffset, _ | outside _, _ | overlong _, _ => none

def isWindow : KeyReading → Bool
  | window _ _ _ => true
  | _ => false

def overlong? : KeyReading → Option Text.Overlong
  | overlong offset => some offset
  | _ => none

theorem overlong?_of_isWindow {reading : KeyReading} (h : reading.isWindow = true) :
    reading.overlong? = none := by
  cases reading with
  | overlong offset => cases h
  | blank | token | window | noOffset | outside => rfl

end KeyReading

theorem readKey_eq_token_iff {key : String} {t : Token} :
    readKey key = .token t ↔ Text.words key = [t] := by
  unfold readKey
  split
  · rename_i h
    simp [h]
  · rename_i token h
    simp [h]
  · rename_i offset first others h
    rw [h]
    split
    · simp
    · simp
    · split <;> simp

/-! ## The survey of a table -/

theorem surveyKeys_cons {key : String} {alternatives : Alternatives}
    {rest : List (String × Alternatives)}
    (h : (surveyKeys ((key, alternatives) :: rest)).overlong = none) :
    (surveyKeys rest).overlong = none ∧
      (surveyKeys ((key, alternatives) :: rest)).rules =
        ((readKey key).rule? alternatives).toList ++ (surveyKeys rest).rules ∧
      (surveyKeys ((key, alternatives) :: rest)).hasWindow =
        ((readKey key).isWindow || (surveyKeys rest).hasWindow) := by
  rw [surveyKeys] at h ⊢
  cases hkey : readKey key <;> rw [hkey] at h
  case overlong offset => cases h
  all_goals exact ⟨h, rfl, rfl⟩

theorem rules_surveyKeys {entries : List (String × Alternatives)}
    (h : (surveyKeys entries).overlong = none) :
    (surveyKeys entries).rules =
      entries.filterMap (fun entry => (readKey entry.1).rule? entry.2) := by
  induction entries with
  | nil => rfl
  | cons entry rest ih =>
      obtain ⟨hrest, hrules, -⟩ := surveyKeys_cons h
      rw [hrules, ih hrest, List.filterMap_cons]
      cases (readKey entry.1).rule? entry.2 <;> rfl

theorem hasWindow_surveyKeys {entries : List (String × Alternatives)}
    (h : (surveyKeys entries).overlong = none) :
    (surveyKeys entries).hasWindow = entries.any (fun entry => (readKey entry.1).isWindow) := by
  induction entries with
  | nil => rfl
  | cons entry rest ih =>
      obtain ⟨hrest, -, hwindow⟩ := surveyKeys_cons h
      rw [hwindow, ih hrest, List.any_cons]

theorem overlong_surveyKeys (entries : List (String × Alternatives)) :
    (surveyKeys entries).overlong =
      entries.findSome? (fun entry => (readKey entry.1).overlong?) := by
  induction entries with
  | nil => rfl
  | cons entry rest ih =>
      rw [surveyKeys, List.findSome?_cons]
      cases hkey : readKey entry.1 with
      | overlong offset => rfl
      | blank | token | window | noOffset | outside => exact ih

/-- The index of a grammar, which the first overlong offset keeps from being built. -/
theorem ContextIndex.ofGrammar_eq (g : Grammar) :
    ofGrammar g =
      match g.productive.findSome? (fun entry => (readKey entry.1).overlong?) with
      | some offset => .error offset
      | none => .ok {
          rules :=
            g.productive.filterMap (fun entry => (readKey entry.1).rule? entry.2) ++
              g.contextRules
          hasContexts :=
            g.productive.any (fun entry => (readKey entry.1).isWindow) ||
              !g.contextRules.isEmpty } := by
  rw [ofGrammar, Grammar.survey, ← overlong_surveyKeys]
  cases hsurvey : (surveyKeys g.productive).overlong with
  | some offset => rfl
  | none => rw [rules_surveyKeys hsurvey, hasWindow_surveyKeys hsurvey]

/-- When an index can be built, and what it holds. -/
theorem ContextIndex.ofGrammar_eq_ok_iff {g : Grammar} {index : ContextIndex} :
    ofGrammar g = .ok index ↔
      (∀ entry ∈ g.productive, (readKey entry.1).overlong? = none) ∧
      index =
        { rules :=
            g.productive.filterMap (fun entry => (readKey entry.1).rule? entry.2) ++ g.contextRules
          hasContexts :=
            g.productive.any (fun entry => (readKey entry.1).isWindow) ||
              !g.contextRules.isEmpty } := by
  rw [ofGrammar_eq, ← List.findSome?_eq_none_iff]
  cases g.productive.findSome? (fun entry => (readKey entry.1).overlong?) with
  | some offset => simp
  | none => simp [eq_comm]

theorem ContextIndex.eq_of_ofGrammar {g : Grammar} {index : ContextIndex}
    (h : ofGrammar g = .ok index) :
    index =
      { rules :=
          g.productive.filterMap (fun entry => (readKey entry.1).rule? entry.2) ++ g.contextRules
        hasContexts :=
          g.productive.any (fun entry => (readKey entry.1).isWindow) ||
            !g.contextRules.isEmpty } :=
  (ofGrammar_eq_ok_iff.mp h).2

end LSystem
