import LSystem.Proofs.Config.Located

/-! # Which configurations are accepted

A reading gives the first of the faults of its value, and succeeds if there is none. -/

namespace LSystem.Config

/-! ## Readings and faults -/

/-- A reading stops at the first of these faults, and comes to an end if there is none. -/
def Reports (reading : Reading α) : List Fault → Prop
  | [] => ∃ a, reading = .ok a
  | fault :: _ => reading = .error fault

namespace Reports

variable {reading : Reading α} {faults : List Fault}

theorem ok (a : α) : Reports (.ok a) [] := ⟨a, rfl⟩

theorem error (fault : Fault) : Reports (.error fault : Reading α) [fault] := rfl

/-- The faults of a part come before those of what is read after it. -/
theorem bind {next : α → Reading β} {later : List Fault} (h : Reports reading faults)
    (hnext : ∀ a, reading = .ok a → Reports (next a) later) :
    Reports (reading >>= next) (faults ++ later) := by
  cases faults with
  | nil =>
      obtain ⟨a, rfl⟩ := h
      exact hnext a rfl
  | cons fault rest =>
      rw [show reading = .error fault from h]
      rfl

/-- What is made of a value that was read adds no fault. -/
theorem map (h : Reports reading faults) (f : α → β) :
    Reports (reading >>= fun a => pure (f a)) faults := by
  rw [← List.append_nil faults]
  exact h.bind (fun a _ => ok (f a))

theorem mapM {f : γ → Reading α} {g : γ → List Fault} {items : List γ}
    (h : ∀ item ∈ items, Reports (f item) (g item)) : Reports (items.mapM f) (items.flatMap g) := by
  induction items with
  | nil => exact ok []
  | cons item items ih =>
      obtain ⟨hitem, hitems⟩ := List.forall_mem_cons.mp h
      rw [List.mapM_cons, List.flatMap_cons]
      exact hitem.bind (fun a _ => (ih hitems).map (fun rest => a :: rest))

end Reports

/-! ## Parts of a configuration -/

theorem reports_readText (path : Path) (value : Json) :
    Reports (readText path value) (textFaults path value) := by
  cases value with
  | string s => exact .ok s
  | null | bool | int | float | array | object => exact .error _

theorem reports_readInt (path : Path) (value : Json) :
    Reports (readInt path value) (integerFaults path value) := by
  cases value with
  | int n => exact .ok n
  | null | bool | float | string | array | object => exact .error _

theorem reports_readItems {read : Path → Json → Reading α} {faults : Path → Json → List Fault}
    (h : ∀ path value, Reports (read path value) (faults path value)) (path : Path)
    (items : List Json) : Reports (readItems read path items) (itemFaults faults path items) :=
  .mapM (fun item _ => h (.item path item.2) item.1)

theorem reports_readWord (path : Path) (value : Json) :
    Reports (readWord path value) (wordFaults path value) := by
  cases value with
  | string s => exact .ok _
  | array items => exact reports_readItems reports_readText path items
  | null | bool | int | float | object => exact .error _

theorem reports_readAlternatives (path : Path) (value : Json) :
    Reports (readAlternatives path value) (alternativesFaults path value) := by
  cases value with
  | string s => exact .ok _
  | array items => exact reports_readItems reports_readWord path items
  | null | bool | int | float | object => exact .error _

theorem length_of_mapM {f : γ → Reading α} {items : List γ} {results : List α}
    (h : items.mapM f = .ok results) : results.length = items.length := by
  induction items generalizing results with
  | nil => cases h; rfl
  | cons item items ih =>
      rw [List.mapM_cons] at h
      cases hitem : f item with
      | error fault => rw [hitem] at h; cases h
      | ok first =>
          cases hitems : items.mapM f with
          | error fault => rw [hitem, hitems] at h; cases h
          | ok rest =>
              rw [hitem, hitems] at h
              cases h
              rw [List.length_cons, List.length_cons, ih hitems]

/-- A word that was read has as many tokens as its value. -/
theorem tokenCount?_of_readWord {path : Path} {value : Json} {word : Word}
    (h : readWord path value = .ok word) : value.tokenCount? = some word.length := by
  cases value with
  | string s => cases h; rfl
  | array items =>
      have hlength := length_of_mapM h
      rw [List.length_zipIdx] at hlength
      rw [hlength]
      rfl
  | null | bool | int | float | object => cases h

/-- A word without tokens is a fault before anything is read after it. -/
theorem reports_readWord_filled {next : Word → Reading α} {path : Path} {value : Json}
    {later : List Fault} (hempty : next [] = .error (.empty path))
    (hnext : ∀ word, word ≠ [] → value.tokenCount? = some word.length →
      Reports (next word) later) :
    Reports (readWord path value >>= next) (filledWordFaults path value ++ later) := by
  rw [filledWordFaults, List.append_assoc]
  refine (reports_readWord path value).bind ?_
  intro word hword
  have hcount := tokenCount?_of_readWord hword
  cases word with
  | nil =>
      rw [List.length_nil] at hcount
      rw [if_pos hcount]
      exact hempty
  | cons token rest =>
      rw [if_neg (by simp [hcount])]
      exact hnext _ (List.cons_ne_nil _ _) hcount

/-- The place of the center is looked at once the center is known to be an integer. -/
theorem reports_readInt_center {next : Int → Reading α} {path : Path} {count : Nat} {value : Json}
    {later : List Fault} (hcount : 0 < count) (hnext : ∀ center, Reports (next center) later) :
    Reports
      (readInt path value >>= fun center =>
        if 0 ≤ center ∧ center < count then next center else .error (.outside path (count - 1)))
      (centerFaults path (some count) value ++ later) := by
  obtain ⟨last, rfl⟩ := Nat.exists_eq_succ_of_ne_zero (Nat.ne_of_gt hcount)
  cases value with
  | int center =>
      have hplace : (0 ≤ center ∧ center < (last.succ : Nat)) ↔ 0 ≤ center ∧ center ≤ last := by
        omega
      change Reports (if _ then _ else _) ((if _ then _ else _) ++ later)
      by_cases hcenter : 0 ≤ center ∧ center ≤ last
      · rw [if_pos (hplace.mpr hcenter), if_pos hcenter]
        exact hnext center
      · rw [if_neg (mt hplace.mp hcenter), if_neg hcenter]
        exact rfl
  | null | bool | float | string | array | object => exact rfl

theorem reports_readContextRule (path : Path) (value : Json) :
    Reports (readContextRule path value) (contextRuleFaults path value) := by
  cases value with
  | object members =>
      refine reports_readWord_filled rfl ?_
      intro pattern hne hcount
      rw [dif_neg hne, hcount]
      refine reports_readInt_center (List.length_pos_iff.mpr hne) ?_
      intro center
      exact (reports_readAlternatives _ _).map _
  | null | bool | int | float | string | array => exact .error _

theorem reports_readRules (value : Json) : Reports (readRules value) (rulesFaults value) := by
  cases value with
  | object entries =>
      refine Reports.map (.mapM ?_) Table.ofList
      intro entry _
      exact (reports_readAlternatives _ _).map _
  | null | bool | int | float | string | array => exact .error _

theorem reports_readContextRules {next : List ContextRule → Reading α} {value : Json}
    {later : List Fault} (hnext : ∀ rules, Reports (next rules) later) :
    Reports
      (readArray (.field "context_rules") value >>= fun items =>
        readItems readContextRule (.field "context_rules") items >>= next)
      (contextRulesFaults value ++ later) := by
  cases value with
  | array items =>
      exact (reports_readItems reports_readContextRule _ items).bind (fun rules _ => hnext rules)
  | null | bool | int | float | string | object => exact rfl

theorem reports_readSeed (value : Json) : Reports (readSeed value) (seedFaults value) := by
  cases value with
  | null => exact .ok none
  | bool | int | float | string | array | object => exact (reports_readInt _ _).map some

theorem reports_readLevel (value : Json) : Reports (readLevel value) (levelFaults value) := by
  cases value with
  | int n =>
      cases n with
      | ofNat n =>
          have hn : ¬ Int.ofNat n < 0 := Int.not_lt.mpr (Int.natCast_nonneg n)
          rw [levelFaults, if_neg hn]
          exact .ok n
      | negSucc n =>
          rw [levelFaults, if_pos (Int.negSucc_lt_zero n)]
          exact .error _
  | null | bool | float | string | array | object => exact .error _

/-! ## The whole configuration -/

theorem reports_read (value : Json) : Reports (read value) (faults value) := by
  cases value with
  | object members =>
      refine (reports_readText _ _).bind (fun name _ => ?_)
      refine reports_readWord_filled rfl (fun start hne _ => ?_)
      rw [if_neg (by simpa using hne)]
      refine (reports_readRules _).bind (fun rules _ => ?_)
      refine reports_readContextRules (fun contextRules => ?_)
      refine (reports_readSeed _).bind (fun seed _ => ?_)
      exact (reports_readLevel _).map _
  | null | bool | int | float | string | array => exact .error _

/-- Just the values with the shape of a configuration are accepted. Any other value has a fault, and
the first of its faults is the one that is given: it is found at its path, with which its message
begins. -/
theorem read_spec (value : Json) :
    ((∃ config, read value = .ok config) ↔ value.IsConfig) ∧
    (¬ value.IsConfig → ∃ fault later, faults value = fault :: later ∧
      read value = .error fault ∧ fault.FoundIn value ∧
      ∃ demand, fault.message = fault.path.text ++ " must " ++ demand) := by
  have hreports := reports_read value
  rw [← faults_eq_nil_iff]
  cases hfaults : faults value with
  | nil =>
      rw [hfaults] at hreports
      exact ⟨iff_of_true hreports rfl, fun hne => absurd rfl hne⟩
  | cons fault later =>
      rw [hfaults] at hreports
      have herror : read value = .error fault := hreports
      have hfound : fault.FoundIn value := allFound_faults value fault (by simp [hfaults])
      refine ⟨?_, fun _ => ⟨fault, later, rfl, herror, hfound, fault.message_eq⟩⟩
      simp [herror]

/-- The level and an alternative are both at fault. The alternative is read first, although the
level is written first. -/
def flagged : Json :=
  .object [("level", .bool true), ("rules", .object [("A", .array [.string "B", .int 1])]),
    ("axiom", .string "A")]

theorem not_isConfig_flagged : ¬ flagged.IsConfig := by
  rw [← faults_eq_nil_iff]
  decide

theorem read_spec_flagged :
    ¬ flagged.IsConfig ∧ (read flagged).mapError Fault.message =
      .error "rules['A'][1] must be an array" ∧
    ∃ fault later, faults flagged = fault :: later ∧ read flagged = .error fault ∧
      fault.FoundIn flagged ∧ ∃ demand, fault.message = fault.path.text ++ " must " ++ demand :=
  ⟨not_isConfig_flagged, by rfl, (read_spec flagged).2 not_isConfig_flagged⟩

end LSystem.Config
