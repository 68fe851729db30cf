import LSystem.Proofs.Config.Shape

/-! # Everything that is wrong with a configuration

The faults of a value are listed in the order of the fields, those of a field in the order of its
items and each item before the next. A value has no fault exactly if it has the shape of a
configuration. -/

namespace LSystem

/-- The number of tokens of a value that may stand for a word. -/
def Json.tokenCount? : Json → Option Nat
  | .string s => some (Text.words s).length
  | .array items => some items.length
  | _ => none

theorem Json.IsWord.tokenCount?_eq {value : Json} {n : Nat} (h : value.IsWord n) :
    value.tokenCount? = some n := by
  cases h with
  | text s => rfl
  | tokens items _ => rfl

namespace Config

/-- The path of the value that has the fault. -/
def Fault.path : Fault → Path
  | shape path _ | empty path | outside path _ | negative path => path

/-- A message begins with the path of its fault and says what must be there. -/
theorem Fault.message_eq (fault : Fault) :
    ∃ demand, fault.message = fault.path.text ++ " must " ++ demand := by
  cases fault with
  | shape path expected =>
      refine ⟨"be " ++ expected.text, ?_⟩
      have hsplit : " must be " = " must " ++ "be " := rfl
      simp only [message, Fault.path, hsplit, String.append_assoc]
  | empty path => exact ⟨"be non-empty", by rw [String.append_assoc]; rfl⟩
  | outside path last =>
      refine ⟨"index into the pattern (0.." ++ (Text.decimal last ++ ")"), ?_⟩
      have hsplit : " must index into the pattern (0.." =
          " must " ++ "index into the pattern (0.." := rfl
      simp only [message, Fault.path, hsplit, String.append_assoc]
  | negative path => exact ⟨"be >= 0", by rw [String.append_assoc]; rfl⟩

/-! ## Faults by kind of value -/

def textFaults (path : Path) : Json → List Fault
  | .string _ => []
  | _ => [.shape path .string]

def integerFaults (path : Path) : Json → List Fault
  | .int _ => []
  | _ => [.shape path .integer]

/-- The faults of all items, each item with a path of its own. -/
def itemFaults (faults : Path → Json → List Fault) (path : Path) (items : List Json) :
    List Fault :=
  items.zipIdx.flatMap (fun item => faults (.item path item.2) item.1)

def wordFaults (path : Path) : Json → List Fault
  | .string _ => []
  | .array items => itemFaults textFaults path items
  | _ => [.shape path .array]

/-- The faults of a word that needs a token. -/
def filledWordFaults (path : Path) (value : Json) : List Fault :=
  wordFaults path value ++ if value.tokenCount? = some 0 then [.empty path] else []

def alternativesFaults (path : Path) : Json → List Fault
  | .string _ => []
  | .array items => itemFaults wordFaults path items
  | _ => [.shape path .array]

/-- The faults of the center of a pattern with so many tokens. -/
def centerFaults (path : Path) (count : Option Nat) : Json → List Fault
  | .int n =>
      match count with
      | some (last + 1) => if 0 ≤ n ∧ n ≤ last then [] else [.outside path last]
      | _ => []
  | _ => [.shape path .integer]

def contextRuleFaults (path : Path) : Json → List Fault
  | .object members =>
      let pattern := field members "pattern" (.string "")
      filledWordFaults (.member path "pattern") pattern ++
        (centerFaults (.member path "center") pattern.tokenCount?
            (field members "center" (.int 0)) ++
          alternativesFaults (.member path "alternatives")
            (field members "alternatives" (.array [])))
  | _ => [.shape path .object]

/-! ## Faults by field -/

def rulesFaults : Json → List Fault
  | .object entries => entries.flatMap (fun entry => alternativesFaults (.rule entry.1) entry.2)
  | _ => [.shape (.field "rules") .object]

def contextRulesFaults : Json → List Fault
  | .array items => itemFaults contextRuleFaults (.field "context_rules") items
  | _ => [.shape (.field "context_rules") .array]

def seedFaults : Json → List Fault
  | .null => []
  | value => integerFaults (.field "seed") value

def levelFaults : Json → List Fault
  | .int n => if n < 0 then [.negative (.field "level")] else []
  | _ => [.shape (.field "level") .integer]

/-- All faults of a value that should be a configuration. -/
def faults : Json → List Fault
  | .object members =>
      textFaults (.field "name") (field members "name" (.string Grammar.defaultName)) ++
      (filledWordFaults (.field "axiom") (field members "axiom" (.string "")) ++
      (rulesFaults (field members "rules" (.object [])) ++
      (contextRulesFaults (field members "context_rules" (.array [])) ++
      (seedFaults (field members "seed" .null) ++
        levelFaults (field members "level" (.int 0))))))
  | _ => [.shape (.field "root") .object]

/-! ## No fault -/

theorem textFaults_eq_nil_iff (path : Path) (value : Json) :
    textFaults path value = [] ↔ ∃ s, value = .string s := by
  cases value <;> simp [textFaults]

theorem integerFaults_eq_nil_iff (path : Path) (value : Json) :
    integerFaults path value = [] ↔ ∃ n, value = .int n := by
  cases value <;> simp [integerFaults]

theorem itemFaults_eq_nil_iff {faults : Path → Json → List Fault} {P : Json → Prop}
    (h : ∀ path value, faults path value = [] ↔ P value) (path : Path) (items : List Json) :
    itemFaults faults path items = [] ↔ ∀ item ∈ items, P item := by
  have hitems := List.forall_mem_map (l := items.zipIdx) (f := Prod.fst) (P := P)
  rw [List.zipIdx_map_fst] at hitems
  rw [itemFaults, List.flatMap_eq_nil_iff, hitems]
  simp only [h]

theorem wordFaults_eq_nil_iff (path : Path) (value : Json) :
    wordFaults path value = [] ↔ ∃ n, value.IsWord n := by
  cases value with
  | string s => exact iff_of_true rfl ⟨_, .text s⟩
  | array items =>
      rw [wordFaults, itemFaults_eq_nil_iff textFaults_eq_nil_iff]
      constructor
      · exact fun h => ⟨_, .tokens items h⟩
      · rintro ⟨_, ⟨⟩ | ⟨_, h⟩⟩
        exact h
  | null | bool | int | float | object =>
      refine iff_of_false (List.cons_ne_nil _ _) ?_
      rintro ⟨_, ⟨⟩⟩

theorem filledWordFaults_eq_nil_iff (path : Path) (value : Json) :
    filledWordFaults path value = [] ↔ ∃ n, value.IsWord n ∧ 0 < n := by
  rw [filledWordFaults, List.append_eq_nil_iff, wordFaults_eq_nil_iff]
  constructor
  · rintro ⟨⟨n, hword⟩, hcount⟩
    refine ⟨n, hword, Nat.pos_of_ne_zero ?_⟩
    rintro rfl
    rw [if_pos hword.tokenCount?_eq] at hcount
    cases hcount
  · rintro ⟨n, hword, hpos⟩
    refine ⟨⟨n, hword⟩, if_neg ?_⟩
    rw [hword.tokenCount?_eq, Option.some.injEq]
    omega

theorem alternativesFaults_eq_nil_iff (path : Path) (value : Json) :
    alternativesFaults path value = [] ↔ value.IsAlternatives := by
  cases value with
  | string s => exact iff_of_true rfl (.text s)
  | array items =>
      rw [alternativesFaults, itemFaults_eq_nil_iff wordFaults_eq_nil_iff]
      constructor
      · exact .list items
      · rintro (⟨⟩ | ⟨_, h⟩)
        exact h
  | null | bool | int | float | object =>
      refine iff_of_false (List.cons_ne_nil _ _) ?_
      rintro ⟨⟩

theorem centerFaults_eq_nil_iff (path : Path) {n : Nat} (hn : 0 < n) (value : Json) :
    centerFaults path (some n) value = [] ↔ ∃ c : Int, value = .int c ∧ 0 ≤ c ∧ c < n := by
  cases n with
  | zero => cases hn
  | succ last =>
      cases value with
      | int c =>
          have hplace : (0 ≤ c ∧ c ≤ last) ↔ ∃ c' : Int, Json.int c = .int c' ∧ 0 ≤ c' ∧
              c' < (last + 1 : Nat) := by
            constructor
            · rintro ⟨hlow, hhigh⟩
              exact ⟨c, rfl, hlow, by omega⟩
            · rintro ⟨_, ⟨⟩, hlow, hhigh⟩
              exact ⟨hlow, by omega⟩
          rw [← hplace, centerFaults]
          simp
      | null | bool | float | string | array | object => simp [centerFaults]

/-! ## Fields that may be missing -/

/-- A field that may be missing is as it should be, if the default is. -/
theorem forall_member?_iff {P : Json → Prop} {members : List (String × Json)} {name : String}
    {default : Json} (h : P default) :
    (∀ v, Json.member? members name = some v → P v) ↔ P (field members name default) := by
  rw [field]
  cases Json.member? members name with
  | none => simp [h]
  | some v => simp

/-- A missing word counts as an empty one. -/
theorem exists_word_iff {members : List (String × Json)} {name : String} :
    (∃ v, Json.member? members name = some v ∧ ∃ n, v.IsWord n ∧ 0 < n) ↔
      ∃ n, (field members name (.string "")).IsWord n ∧ 0 < n := by
  rw [field]
  cases Json.member? members name with
  | some v => simp
  | none =>
      refine iff_of_false (by simp) ?_
      rintro ⟨_, ⟨⟩, hpos⟩
      exact absurd hpos (by decide)

theorem contextRuleFaults_eq_nil_iff (path : Path) (value : Json) :
    contextRuleFaults path value = [] ↔ value.IsContextRule := by
  cases value with
  | object members =>
      rw [contextRuleFaults, List.append_eq_nil_iff, List.append_eq_nil_iff,
        filledWordFaults_eq_nil_iff, alternativesFaults_eq_nil_iff]
      constructor
      · rintro ⟨hpattern, hcenter, halternatives⟩
        obtain ⟨pattern, hmember, n, hword, hpos⟩ := exists_word_iff.mpr hpattern
        rw [field, hmember, Option.getD_some, hword.tokenCount?_eq,
          centerFaults_eq_nil_iff _ hpos] at hcenter
        refine .object members hmember hword hpos ?_ ?_
        · exact (forall_member?_iff ⟨0, rfl, by omega⟩).mpr hcenter
        · exact (forall_member?_iff (.list [] (by simp))).mpr halternatives
      · rintro ⟨_, hmember, hword, hpos, hcenter, halternatives⟩
        refine ⟨?_, ?_, ?_⟩
        · exact exists_word_iff.mp ⟨_, hmember, _, hword, hpos⟩
        · rw [field, hmember, Option.getD_some, hword.tokenCount?_eq,
            centerFaults_eq_nil_iff _ hpos]
          exact (forall_member?_iff ⟨0, rfl, by omega⟩).mp hcenter
        · exact (forall_member?_iff (.list [] (by simp))).mp halternatives
  | null | bool | int | float | string | array =>
      refine iff_of_false (List.cons_ne_nil _ _) ?_
      rintro ⟨⟩

theorem rulesFaults_eq_nil_iff (value : Json) :
    rulesFaults value = [] ↔
      ∃ entries, value = .object entries ∧ ∀ entry ∈ entries, entry.2.IsAlternatives := by
  cases value with
  | object entries => simp [rulesFaults, List.flatMap_eq_nil_iff, alternativesFaults_eq_nil_iff]
  | null | bool | int | float | string | array => simp [rulesFaults]

theorem contextRulesFaults_eq_nil_iff (value : Json) :
    contextRulesFaults value = [] ↔
      ∃ items, value = .array items ∧ ∀ item ∈ items, item.IsContextRule := by
  cases value with
  | array items => simp [contextRulesFaults, itemFaults_eq_nil_iff contextRuleFaults_eq_nil_iff]
  | null | bool | int | float | string | object => simp [contextRulesFaults]

theorem seedFaults_eq_nil_iff (value : Json) :
    seedFaults value = [] ↔ value = .null ∨ ∃ n, value = .int n := by
  cases value <;> simp [seedFaults, integerFaults_eq_nil_iff]

theorem levelFaults_eq_nil_iff (value : Json) :
    levelFaults value = [] ↔ ∃ n : Nat, value = .int n := by
  cases value with
  | int n =>
      cases n with
      | ofNat n =>
          have hn : ¬ Int.ofNat n < 0 := Int.not_lt.mpr (Int.natCast_nonneg n)
          rw [levelFaults, if_neg hn]
          exact iff_of_true rfl ⟨n, rfl⟩
      | negSucc n => simp [levelFaults]
  | null | bool | float | string | array | object => simp [levelFaults]

theorem faults_eq_nil_iff (value : Json) : faults value = [] ↔ value.IsConfig := by
  cases value with
  | object members =>
      simp only [faults, List.append_eq_nil_iff, textFaults_eq_nil_iff,
        filledWordFaults_eq_nil_iff, rulesFaults_eq_nil_iff, contextRulesFaults_eq_nil_iff,
        seedFaults_eq_nil_iff, levelFaults_eq_nil_iff]
      have hname : ∃ s, Json.string Grammar.defaultName = .string s := ⟨_, rfl⟩
      have hrules : ∃ entries, Json.object [] = .object entries ∧
          ∀ entry ∈ entries, entry.2.IsAlternatives := ⟨[], rfl, by simp⟩
      have hitems : ∃ items, Json.array [] = .array items ∧
          ∀ item ∈ items, item.IsContextRule := ⟨[], rfl, by simp⟩
      have hlevel : ∃ n : Nat, Json.int 0 = .int n := ⟨0, rfl⟩
      constructor
      · rintro ⟨name, start, rules, contextRules, seed, level⟩
        refine ⟨members, rfl, ?_, ?_, ?_, ?_, ?_, ?_⟩
        · exact (forall_member?_iff hname).mpr name
        · exact exists_word_iff.mpr start
        · exact (forall_member?_iff hrules).mpr rules
        · exact (forall_member?_iff hitems).mpr contextRules
        · exact (forall_member?_iff (.inl rfl)).mpr seed
        · exact (forall_member?_iff hlevel).mpr level
      · rintro ⟨_, ⟨⟩, name, start, rules, contextRules, seed, level⟩
        refine ⟨?_, ?_, ?_, ?_, ?_, ?_⟩
        · exact (forall_member?_iff hname).mp name
        · exact exists_word_iff.mp start
        · exact (forall_member?_iff hrules).mp rules
        · exact (forall_member?_iff hitems).mp contextRules
        · exact (forall_member?_iff (.inl rfl)).mp seed
        · exact (forall_member?_iff hlevel).mp level
  | null | bool | int | float | string | array =>
      refine iff_of_false (List.cons_ne_nil _ _) ?_
      rintro ⟨_, ⟨⟩, _⟩

end Config

end LSystem
