import LSystem.Log
import LSystem.Proofs.ContextIndex.Offsets
import LSystem.Proofs.Text.Spacing

/-! # Keys that are dropped

A key of several tokens is dropped if it begins with no offset or with one that points nowhere. The
survey of a table has one record for each such key, in the order of the table. -/

namespace LSystem

/-- Why a key of several tokens makes no rule: the first of them is no offset, or it is one that can be
read and is neither a place of the window nor the place just before it. -/
inductive Drops (key : String) : DropReason → Prop where
  | noOffset {offset first : Token} {others : List Token} :
      Text.Spells key (offset :: first :: others) →
      (∀ digits center, ¬ Text.IsOffset offset digits center) → Drops key .noOffset
  | outside {offset first : Token} {others : List Token} {digits : Nat} {center : Int} :
      Text.Spells key (offset :: first :: others) → Text.IsOffset offset digits center →
      digits ≤ Text.digitLimit → ¬ (-1 ≤ center ∧ center < (first :: others).length) →
      Drops key (.outside center)

/-- The records of the keys that are dropped, one for each of them. -/
inductive DroppedKeys : List String → List DroppedKey → Prop where
  | nil : DroppedKeys [] []
  | drop {key : String} {reason : DropReason} {keys : List String} {dropped : List DroppedKey} :
      Drops key reason → DroppedKeys keys dropped →
      DroppedKeys (key :: keys) (⟨key, reason⟩ :: dropped)
  | keep {key : String} {keys : List String} {dropped : List DroppedKey} :
      (∀ reason, ¬ Drops key reason) → DroppedKeys keys dropped → DroppedKeys (key :: keys) dropped

/-! ## Readings of keys that are dropped -/

namespace KeyReading

def dropReason? : KeyReading → Option DropReason
  | noOffset => some .noOffset
  | outside center => some (.outside center)
  | blank | token _ | window _ _ _ | overlong _ => none

end KeyReading

theorem dropReason?_eq_some_iff {key : String} {reason : DropReason} :
    (readKey key).dropReason? = some reason ↔ Drops key reason := by
  constructor
  · intro h
    have hreads := reads_readKey key
    generalize readKey key = reading at h hreads
    cases hreads with
    | noOffset hwords hoffset =>
        cases h
        exact .noOffset (Text.spells_iff.mpr hwords) hoffset
    | outside hwords hoffset hshort hcenter =>
        cases h
        exact .outside (Text.spells_iff.mpr hwords) hoffset hshort hcenter
    | blank | token | window | overlong => cases h
  · rintro (⟨hspells, hoffset⟩ | ⟨hspells, hoffset, hshort, hcenter⟩)
    · rw [readKey_eq_iff.mpr (.noOffset hspells.words_eq hoffset)]
      rfl
    · rw [readKey_eq_iff.mpr (.outside hspells.words_eq hoffset hshort hcenter)]
      rfl

/-! ## The survey of a table -/

theorem dropped_surveyKeys_cons {key : String} {alternatives : Alternatives}
    {rest : List (String × Alternatives)}
    (h : (surveyKeys ((key, alternatives) :: rest)).overlong = none) :
    (surveyKeys ((key, alternatives) :: rest)).dropped =
      ((readKey key).dropReason?.map (DroppedKey.mk key)).toList ++ (surveyKeys rest).dropped := by
  rw [surveyKeys] at h ⊢
  cases hkey : readKey key <;> rw [hkey] at h
  case overlong offset => cases h
  all_goals rfl

theorem droppedKeys_surveyKeys {entries : List (String × Alternatives)}
    (h : (surveyKeys entries).overlong = none) :
    DroppedKeys (entries.map (·.1)) (surveyKeys entries).dropped := by
  induction entries with
  | nil => exact .nil
  | cons entry rest ih =>
      have hrest := ih (surveyKeys_cons h).1
      rw [dropped_surveyKeys_cons h, List.map_cons]
      cases hreason : (readKey entry.1).dropReason? with
      | some reason => exact .drop (dropReason?_eq_some_iff.mp hreason) hrest
      | none =>
          refine .keep (fun reason hdrops => ?_) hrest
          rw [dropReason?_eq_some_iff.mpr hdrops] at hreason
          cases hreason

/-- An index that can be built comes with the records of the keys it leaves out, and a summary. -/
theorem exists_indexLog {g : Grammar} {system : System} (h : System.ofGrammar g = .ok system) :
    ∃ dropped, DroppedKeys g.productiveKeys dropped ∧
      g.indexLog = dropped.map .dropped ++
        [.indexed g.name system.index.rules.length system.index.hasContexts] := by
  obtain ⟨index, hindex, rfl⟩ := System.ofGrammar_eq_ok_iff.mp h
  have hshort : (surveyKeys g.productive).overlong = none := by
    rw [overlong_surveyKeys, List.findSome?_eq_none_iff]
    exact (ContextIndex.ofGrammar_eq_ok_iff.mp hindex).1
  refine ⟨g.survey.dropped, droppedKeys_surveyKeys hshort, ?_⟩
  rw [Grammar.indexLog, hindex]

end LSystem
