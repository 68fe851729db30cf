import LSystem.Proofs.Config.Faults

/-! # Where the faults are

Each fault in the list is found at its path: the value there is not as it must be, or a word that
must be there is missing. -/

namespace LSystem

/-- The shape of a value. Null, truth values and fractions have none of the shapes that are asked
for. -/
def Json.shape? : Json → Option Config.Shape
  | .int _ => some .integer
  | .string _ => some .string
  | .object _ => some .object
  | .array _ => some .array
  | .null | .bool _ | .float _ => none

namespace Config

/-- A value stands at a path of a configuration, which itself goes by the name of its root. -/
inductive StandsAt (config : Json) : Path → Json → Prop where
  | root : StandsAt config (.field "root") config
  | field {members : List (String × Json)} {name : String} {value : Json} :
      config = .object members → Json.member? members name = some value →
      StandsAt config (.field name) value
  | rule {entries : List (String × Json)} {key : String} {value : Json} :
      StandsAt config (.field "rules") (.object entries) → (key, value) ∈ entries →
      StandsAt config (.rule key) value
  | item {path : Path} {items : List Json} {i : Nat} {value : Json} :
      StandsAt config path (.array items) → items[i]? = some value →
      StandsAt config (.item path i) value
  | member {path : Path} {members : List (String × Json)} {name : String} {value : Json} :
      StandsAt config path (.object members) → Json.member? members name = some value →
      StandsAt config (.member path name) value

/-- What stands at the path of a fault is at fault. -/
inductive Fault.FoundIn (config : Json) : Fault → Prop where
  | shape {path : Path} {value : Json} {expected : Shape} :
      StandsAt config path value → value.shape? ≠ some expected →
      FoundIn config (.shape path expected)
  | empty {path : Path} {value : Json} :
      StandsAt config path value → value.tokenCount? = some 0 → FoundIn config (.empty path)
  | noStart {members : List (String × Json)} :
      config = .object members → Json.member? members "axiom" = none →
      FoundIn config (.empty (.field "axiom"))
  | noPattern {path : Path} {members : List (String × Json)} :
      StandsAt config path (.object members) → Json.member? members "pattern" = none →
      FoundIn config (.empty (.member path "pattern"))
  | outside {path : Path} {members : List (String × Json)} {pattern : Json} {center : Int}
      {last : Nat} :
      StandsAt config path (.object members) → Json.member? members "pattern" = some pattern →
      pattern.tokenCount? = some (last + 1) → Json.member? members "center" = some (.int center) →
      ¬ (0 ≤ center ∧ center ≤ last) → FoundIn config (.outside (.member path "center") last)
  | negative {path : Path} {n : Int} :
      StandsAt config path (.int n) → n < 0 → FoundIn config (.negative path)

/-- All these faults are found in the configuration. -/
def AllFound (config : Json) (faults : List Fault) : Prop := ∀ fault ∈ faults, fault.FoundIn config

namespace AllFound

variable {config : Json}

theorem nil : AllFound config [] := by
  intro fault hfault
  cases hfault

theorem singleton {fault : Fault} (h : fault.FoundIn config) : AllFound config [fault] := by
  intro other hother
  rwa [List.mem_singleton.mp hother]

theorem append {faults more : List Fault} (h : AllFound config faults)
    (hmore : AllFound config more) : AllFound config (faults ++ more) := by
  intro fault hfault
  rcases List.mem_append.mp hfault with hfault | hfault
  · exact h fault hfault
  · exact hmore fault hfault

/-- A field that is missing has no fault if its default has none. -/
theorem field (faults : Json → List Fault) {members : List (String × Json)} {name : String}
    {default : Json} (hdefault : faults default = [])
    (h : ∀ value, Json.member? members name = some value → AllFound config (faults value)) :
    AllFound config (faults (Config.field members name default)) := by
  rw [Config.field]
  cases hvalue : Json.member? members name with
  | none =>
      rw [Option.getD_none, hdefault]
      exact nil
  | some value => exact h value hvalue

end AllFound

variable {config : Json}

theorem allFound_textFaults {path : Path} {value : Json} (h : StandsAt config path value) :
    AllFound config (textFaults path value) := by
  cases value with
  | string s => exact .nil
  | null | bool | int | float | array | object =>
      exact .singleton (.shape h (by rintro ⟨⟩))

theorem allFound_integerFaults {path : Path} {value : Json} (h : StandsAt config path value) :
    AllFound config (integerFaults path value) := by
  cases value with
  | int n => exact .nil
  | null | bool | float | string | array | object =>
      exact .singleton (.shape h (by rintro ⟨⟩))

theorem allFound_itemFaults {faults : Path → Json → List Fault}
    (hfaults : ∀ path value, StandsAt config path value → AllFound config (faults path value))
    {path : Path} {items : List Json} (h : StandsAt config path (.array items)) :
    AllFound config (itemFaults faults path items) := by
  intro fault hfault
  obtain ⟨⟨value, i⟩, hitem, hfault⟩ := List.mem_flatMap.mp hfault
  exact hfaults _ _ (.item h (List.mem_zipIdx_iff_getElem?.mp hitem)) fault hfault

theorem allFound_wordFaults (path : Path) (value : Json) (h : StandsAt config path value) :
    AllFound config (wordFaults path value) := by
  cases value with
  | string s => exact .nil
  | array items => exact allFound_itemFaults (fun _ _ => allFound_textFaults) h
  | null | bool | int | float | object =>
      exact .singleton (.shape h (by rintro ⟨⟩))

theorem allFound_alternativesFaults {path : Path} {value : Json} (h : StandsAt config path value) :
    AllFound config (alternativesFaults path value) := by
  cases value with
  | string s => exact .nil
  | array items => exact allFound_itemFaults allFound_wordFaults h
  | null | bool | int | float | object =>
      exact .singleton (.shape h (by rintro ⟨⟩))

/-- A word that needs a token is missing, or what stands in its place is at fault. -/
theorem allFound_filledWordFaults {path : Path} {members : List (String × Json)} {name : String}
    (hmissing : Json.member? members name = none → (Fault.empty path).FoundIn config)
    (h : ∀ value, Json.member? members name = some value → StandsAt config path value) :
    AllFound config (filledWordFaults path (field members name (.string ""))) := by
  rw [field]
  cases hvalue : Json.member? members name with
  | none => exact .singleton (hmissing hvalue)
  | some value =>
      refine .append (allFound_wordFaults path value (h value hvalue)) ?_
      split
      · rename_i hcount
        exact .singleton (.empty (h value hvalue) hcount)
      · exact .nil

theorem centerFaults_zero (path : Path) (count : Option Nat) :
    centerFaults path count (.int 0) = [] := by
  rcases count with _ | _ | last
  · rfl
  · rfl
  · have hplace : (0 : Int) ≤ 0 ∧ (0 : Int) ≤ last := ⟨Int.le_refl 0, Int.natCast_nonneg last⟩
    rw [centerFaults, if_pos hplace]

/-- A word of some tokens cannot be missing. -/
theorem member?_of_tokenCount?_field {members : List (String × Json)} {name : String} {last : Nat}
    (h : (field members name (.string "")).tokenCount? = some (last + 1)) :
    ∃ word, Json.member? members name = some word ∧ word.tokenCount? = some (last + 1) := by
  rw [field] at h
  cases hword : Json.member? members name with
  | some word => exact ⟨word, rfl, by rwa [hword, Option.getD_some] at h⟩
  | none =>
      rw [hword] at h
      cases h

theorem allFound_centerFaults {path : Path} {members : List (String × Json)} {value : Json}
    (h : StandsAt config path (.object members))
    (hcenter : Json.member? members "center" = some value) :
    AllFound config (centerFaults (.member path "center")
      (field members "pattern" (.string "")).tokenCount? value) := by
  cases value with
  | int center =>
      rcases hcount : (field members "pattern" (.string "")).tokenCount? with _ | _ | last
      · exact .nil
      · exact .nil
      · obtain ⟨pattern, hpattern, hlast⟩ := member?_of_tokenCount?_field hcount
        rw [centerFaults]
        split
        · exact .nil
        · rename_i hplace
          exact .singleton (.outside h hpattern hlast hcenter hplace)
  | null | bool | float | string | array | object =>
      exact .singleton (.shape (.member h hcenter) (by rintro ⟨⟩))

theorem allFound_contextRuleFaults (path : Path) (value : Json) (h : StandsAt config path value) :
    AllFound config (contextRuleFaults path value) := by
  cases value with
  | object members =>
      refine .append ?_ (.append ?_ ?_)
      · exact allFound_filledWordFaults (.noPattern h) (fun _ => .member h)
      · exact .field (centerFaults _ _) (centerFaults_zero _ _) (fun _ => allFound_centerFaults h)
      · exact .field (alternativesFaults _) rfl
          (fun _ hvalue => allFound_alternativesFaults (.member h hvalue))
  | null | bool | int | float | string | array =>
      exact .singleton (.shape h (by rintro ⟨⟩))

theorem allFound_rulesFaults {value : Json} (h : StandsAt config (.field "rules") value) :
    AllFound config (rulesFaults value) := by
  cases value with
  | object entries =>
      intro fault hfault
      obtain ⟨entry, hentry, hfault⟩ := List.mem_flatMap.mp hfault
      exact allFound_alternativesFaults (.rule h hentry) fault hfault
  | null | bool | int | float | string | array =>
      exact .singleton (.shape h (by rintro ⟨⟩))

theorem allFound_contextRulesFaults {value : Json}
    (h : StandsAt config (.field "context_rules") value) :
    AllFound config (contextRulesFaults value) := by
  cases value with
  | array items => exact allFound_itemFaults allFound_contextRuleFaults h
  | null | bool | int | float | string | object =>
      exact .singleton (.shape h (by rintro ⟨⟩))

theorem allFound_seedFaults {value : Json} (h : StandsAt config (.field "seed") value) :
    AllFound config (seedFaults value) := by
  cases value with
  | null => exact .nil
  | bool | int | float | string | array | object => exact allFound_integerFaults h

theorem allFound_levelFaults {value : Json} (h : StandsAt config (.field "level") value) :
    AllFound config (levelFaults value) := by
  cases value with
  | int n =>
      rw [levelFaults]
      split
      · exact .singleton (.negative h ‹_›)
      · exact .nil
  | null | bool | float | string | array | object =>
      exact .singleton (.shape h (by rintro ⟨⟩))

theorem allFound_faults (value : Json) : AllFound value (faults value) := by
  cases value with
  | object members =>
      refine .append ?name (.append ?start (.append ?rules (.append ?contextRules
        (.append ?seed ?level))))
      case name =>
        exact .field (textFaults _) rfl (fun _ h => allFound_textFaults (.field rfl h))
      case start => exact allFound_filledWordFaults (.noStart rfl) (fun _ => .field rfl)
      case rules => exact .field rulesFaults rfl (fun _ h => allFound_rulesFaults (.field rfl h))
      case contextRules =>
        exact .field contextRulesFaults rfl (fun _ h => allFound_contextRulesFaults (.field rfl h))
      case seed => exact .field seedFaults rfl (fun _ h => allFound_seedFaults (.field rfl h))
      case level => exact .field levelFaults rfl (fun _ h => allFound_levelFaults (.field rfl h))
  | null | bool | int | float | string | array =>
      exact .singleton (.shape .root (by rintro ⟨⟩))

end Config

end LSystem
