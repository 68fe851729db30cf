import LSystem.Proofs.Config.Acceptance
import LSystem.Proofs.Config.Loading
import LSystem.Proofs.Text.Visible

/-! # What can be seen of a message

The message of a fault is made of texts that can be seen, with two exceptions that are written as they are:
the key of the rule that is at fault, and the path of a file that is malformed. -/

namespace LSystem.Config

/-! ## Paths -/

/-- The key of the rule that a path leads into. -/
def Path.key? : Path → Option String
  | field _ => none
  | rule key => some key
  | item parent _ | member parent _ => parent.key?

/-- All names on a path can be seen, except perhaps the key of a rule. -/
def Path.Named : Path → Prop
  | field name => Text.Visible name
  | rule _ => True
  | item parent _ => parent.Named
  | member parent name => parent.Named ∧ Text.Visible name

theorem Path.named_field {name : String} (h : Text.Visible name) : (field name).Named := h

theorem Path.named_member {path : Path} (h : path.Named) {name : String} (hname : Text.Visible name) :
    (member path name).Named := ⟨h, hname⟩

/-- What cannot be seen in a path is in the key of its rule. -/
theorem Path.Named.mem_text_iff {path : Path} (h : path.Named) {c : Char}
    (hc : Text.isPrintable c = false) :
    c ∈ path.text.toList ↔ ∃ key, path.key? = some key ∧ c ∈ key.toList := by
  induction path with
  | field name => exact iff_of_false (h.not_mem hc) (by rintro ⟨_, ⟨⟩, _⟩)
  | rule key =>
      have hopen : Text.Visible "rules['" := by decide
      have hclose : Text.Visible "']" := by decide
      rw [Path.text, hclose.mem_append_iff hc, hopen.append_mem_iff hc]
      simp [key?]
  | item parent i ih =>
      have hopen : Text.Visible "[" := by decide
      have hclose : Text.Visible "]" := by decide
      rw [Path.text, hclose.mem_append_iff hc, (Text.visible_decimal i).mem_append_iff hc,
        hopen.mem_append_iff hc]
      exact ih h
  | member parent name ih =>
      have hdot : Text.Visible "." := by decide
      rw [Path.text, h.2.mem_append_iff hc, hdot.mem_append_iff hc]
      exact ih h.1

/-! ## Messages of faults -/

theorem Shape.visible_text (shape : Shape) : Text.Visible shape.text := by
  cases shape <;> decide

/-- What a message demands can be seen. -/
theorem Fault.mem_message_iff (fault : Fault) {c : Char} (hc : Text.isPrintable c = false) :
    c ∈ fault.message.toList ↔ c ∈ fault.path.text.toList := by
  cases fault with
  | shape path expected =>
      have hmust : Text.Visible " must be " := by decide
      rw [message, expected.visible_text.mem_append_iff hc, hmust.mem_append_iff hc]
      rfl
  | empty path =>
      have hdemand : Text.Visible " must be non-empty" := by decide
      exact hdemand.mem_append_iff hc
  | outside path last =>
      have hmust : Text.Visible " must index into the pattern (0.." := by decide
      have hclose : Text.Visible ")" := by decide
      rw [message, hclose.mem_append_iff hc, (Text.visible_decimal last).mem_append_iff hc,
        hmust.mem_append_iff hc]
      rfl
  | negative path =>
      have hdemand : Text.Visible " must be >= 0" := by decide
      exact hdemand.mem_append_iff hc

/-! ## Paths of faults -/

/-- All these faults have paths whose names can be seen. -/
def AllNamed (faults : List Fault) : Prop := ∀ fault ∈ faults, fault.path.Named

namespace AllNamed

theorem nil : AllNamed [] := nofun

theorem singleton {fault : Fault} (h : fault.path.Named) : AllNamed [fault] :=
  List.forall_mem_singleton.mpr h

theorem append {faults more : List Fault} (h : AllNamed faults) (hmore : AllNamed more) :
    AllNamed (faults ++ more) :=
  List.forall_mem_append.mpr ⟨h, hmore⟩

end AllNamed

section

variable {path : Path} (h : path.Named)
include h

theorem allNamed_textFaults (value : Json) : AllNamed (textFaults path value) := by
  cases value with
  | string s => exact .nil
  | null | bool | int | float | array | object => exact .singleton h

theorem allNamed_itemFaults {faults : Path → Json → List Fault}
    (hfaults : ∀ {path : Path}, path.Named → ∀ value, AllNamed (faults path value))
    (items : List Json) : AllNamed (itemFaults faults path items) := by
  intro fault hfault
  obtain ⟨⟨value, i⟩, -, hfault⟩ := List.mem_flatMap.mp hfault
  have hitem : (Path.item path i).Named := h
  exact hfaults hitem value fault hfault

theorem allNamed_wordFaults (value : Json) : AllNamed (wordFaults path value) := by
  cases value with
  | string s => exact .nil
  | array items => exact allNamed_itemFaults h allNamed_textFaults items
  | null | bool | int | float | object => exact .singleton h

theorem allNamed_filledWordFaults (value : Json) : AllNamed (filledWordFaults path value) := by
  refine .append (allNamed_wordFaults h value) ?_
  split
  · exact .singleton h
  · exact .nil

theorem allNamed_alternativesFaults (value : Json) : AllNamed (alternativesFaults path value) := by
  cases value with
  | string s => exact .nil
  | array items => exact allNamed_itemFaults h allNamed_wordFaults items
  | null | bool | int | float | object => exact .singleton h

theorem allNamed_centerFaults (count : Option Nat) (value : Json) :
    AllNamed (centerFaults path count value) := by
  cases value with
  | int n =>
      rcases count with _ | _ | last
      · exact .nil
      · exact .nil
      · rw [centerFaults]
        split
        · exact .nil
        · exact .singleton h
  | null | bool | float | string | array | object => exact .singleton h

theorem allNamed_contextRuleFaults (value : Json) : AllNamed (contextRuleFaults path value) := by
  cases value with
  | object members =>
      refine .append ?pattern (.append ?center ?alternatives)
      case pattern => exact allNamed_filledWordFaults (Path.named_member h (by decide)) _
      case center => exact allNamed_centerFaults (Path.named_member h (by decide)) _ _
      case alternatives => exact allNamed_alternativesFaults (Path.named_member h (by decide)) _
  | null | bool | int | float | string | array => exact .singleton h

end

theorem allNamed_rulesFaults (value : Json) : AllNamed (rulesFaults value) := by
  cases value with
  | object entries =>
      intro fault hfault
      obtain ⟨entry, -, hfault⟩ := List.mem_flatMap.mp hfault
      have hrule : (Path.rule entry.1).Named := trivial
      exact allNamed_alternativesFaults hrule entry.2 fault hfault
  | null | bool | int | float | string | array =>
      exact .singleton (Path.named_field (by decide))

theorem allNamed_contextRulesFaults (value : Json) : AllNamed (contextRulesFaults value) := by
  have hfield : (Path.field "context_rules").Named := Path.named_field (by decide)
  cases value with
  | array items => exact allNamed_itemFaults hfield allNamed_contextRuleFaults items
  | null | bool | int | float | string | object => exact .singleton hfield

theorem allNamed_seedFaults (value : Json) : AllNamed (seedFaults value) := by
  have hfield : (Path.field "seed").Named := Path.named_field (by decide)
  cases value with
  | null | int => exact .nil
  | bool | float | string | array | object => exact .singleton hfield

theorem allNamed_levelFaults (value : Json) : AllNamed (levelFaults value) := by
  have hfield : (Path.field "level").Named := Path.named_field (by decide)
  cases value with
  | int n =>
      rw [levelFaults]
      split
      · exact .singleton hfield
      · exact .nil
  | null | bool | float | string | array | object => exact .singleton hfield

theorem allNamed_faults (value : Json) : AllNamed (faults value) := by
  cases value with
  | object members =>
      refine .append ?name (.append ?start (.append (allNamed_rulesFaults _)
        (.append (allNamed_contextRulesFaults _)
          (.append (allNamed_seedFaults _) (allNamed_levelFaults _)))))
      case name => exact allNamed_textFaults (Path.named_field (by decide)) _
      case start => exact allNamed_filledWordFaults (Path.named_field (by decide)) _
  | null | bool | int | float | string | array =>
      exact .singleton (Path.named_field (by decide))

/-! ## Faults of a file -/

theorem read_eq_error_iff {value : Json} {fault : Fault} :
    read value = .error fault ↔ ∃ later, faults value = fault :: later := by
  have hreports := reports_read value
  cases hfaults : faults value with
  | nil =>
      rw [hfaults] at hreports
      obtain ⟨config, hread⟩ := hreports
      simp [hread]
  | cons first later =>
      rw [hfaults] at hreports
      have hread : read value = .error first := hreports
      simp [hread]

/-- The path that a file is malformed under is its own, and no value is at fault before it is read. -/
theorem of_loadJson_eq_error {files : FileReader} {path : String} {fault : LoadFault}
    (h : loadJson files path = .error fault) :
    (∀ inner, fault ≠ .config inner) ∧
      ∀ path' problem place, fault = .malformed path' problem place → path' = path := by
  unfold loadJson at h
  split at h
  · cases h
    exact ⟨nofun, nofun⟩
  · split at h
    · cases h
      exact ⟨nofun, nofun⟩
    · split at h
      · cases h
        exact ⟨nofun, nofun⟩
      · split at h <;> cases h
        -- The one place where a file is called malformed, by the path it is asked for under.
        · refine ⟨nofun, ?_⟩
          rintro _ _ _ ⟨⟩
          rfl
        · exact ⟨nofun, nofun⟩

theorem load_eq_config_iff {files : FileReader} {path : String} {fault : Fault} :
    load files path = .error (.config fault) ↔
      ∃ value later, loadJson files path = .ok value ∧ faults value = fault :: later := by
  rw [load]
  cases hjson : loadJson files path with
  | error other =>
      have hother : other ≠ .config fault := (of_loadJson_eq_error hjson).1 fault
      simp [hother]
  | ok value =>
      have hread : (read value).mapError LoadFault.config = .error (.config fault) ↔
          read value = .error fault := by
        cases read value <;> simp [Except.mapError]
      simp [hread, read_eq_error_iff]

/-- A character is written into the message about a file as it is, in the path of a malformed file or in
the key of the rule that has the first fault. -/
inductive Exposes (files : FileReader) (path : String) (c : Char) : Prop where
  | path {problem : Json.Problem} {place : Text.Place} :
      loadJson files path = .error (.malformed path problem place) → c ∈ path.toList →
      Exposes files path c
  | key {value : Json} {fault : Fault} {later : List Fault} {key : String} :
      loadJson files path = .ok value → faults value = fault :: later →
      fault.path.key? = some key → c ∈ key.toList → Exposes files path c

section

variable {files : FileReader} {path : String} {c : Char}

theorem not_exposes_of_load_ok {config : Config} (h : load files path = .ok config) :
    ¬ Exposes files path c := by
  have hplain : ∀ problem place inner, LoadFault.malformed path problem place ≠ .config inner := by
    rintro _ _ _ ⟨⟩
  rintro (⟨hjson, -⟩ | ⟨hjson, hfaults, -, -⟩)
  · rw [(load_eq_error_iff (hplain _ _)).mpr hjson] at h
    cases h
  · rw [load_eq_config_iff.mpr ⟨_, _, hjson, hfaults⟩] at h
    cases h

/-- Nothing is exposed of a file that is neither malformed nor read. -/
theorem not_exposes_of_error {fault : LoadFault} (h : loadJson files path = .error fault)
    (hother : ∀ problem place, fault ≠ .malformed path problem place) : ¬ Exposes files path c := by
  rintro (⟨hjson, -⟩ | ⟨hjson, -, -, -⟩)
  · rw [h, Except.error.injEq] at hjson
    exact hother _ _ hjson
  · rw [h] at hjson
    cases hjson

theorem exposes_iff_of_malformed {problem : Json.Problem} {place : Text.Place}
    (h : loadJson files path = .error (.malformed path problem place)) :
    Exposes files path c ↔ c ∈ path.toList := by
  refine ⟨?_, .path h⟩
  rintro (⟨-, hpath⟩ | ⟨hjson, -, -, -⟩)
  · exact hpath
  · rw [h] at hjson
    cases hjson

theorem exposes_iff_of_faults {value : Json} {fault : Fault} {later : List Fault}
    (hjson : loadJson files path = .ok value) (hfaults : faults value = fault :: later) :
    Exposes files path c ↔ ∃ key, fault.path.key? = some key ∧ c ∈ key.toList := by
  constructor
  · rintro (⟨hmalformed, -⟩ | ⟨hjson', hfaults', hkey, hmem⟩)
    · rw [hjson] at hmalformed
      cases hmalformed
    · rw [hjson, Except.ok.injEq] at hjson'
      subst hjson'
      rw [hfaults, List.cons.injEq] at hfaults'
      rw [hfaults'.1]
      exact ⟨_, hkey, hmem⟩
  · rintro ⟨key, hkey, hmem⟩
    exact .key hjson hfaults hkey hmem

end

/-! ## Messages about a file -/

theorem visible_fileFault (fault : FileFault) (path : String) : Text.Visible (fault.message path) := by
  have hnumber : Text.Visible ("[Errno " ++ Text.decimal fault.number ++ "] ") :=
    (Text.Visible.append (by decide) (Text.visible_decimal _)).append (by decide)
  have htext : Text.Visible (fault.text ++ ": ") := by cases fault <;> decide
  have hmessage := (hnumber.append htext).append (Text.visible_quoted path)
  rwa [← String.append_assoc] at hmessage

theorem visible_encodingFault (fault : Text.Utf8.Fault) : Text.Visible fault.message := by
  have hbyte : Text.Visible (String.ofList (Text.hex 2 fault.byte.toNat)) := by
    rw [Text.Visible, String.toList_ofList]
    exact Text.isPrintable_of_mem_hex
  have hreason : Text.Visible fault.reason.text := by cases fault.reason <;> decide
  unfold Text.Utf8.Fault.message
  refine ((Text.Visible.append (by decide) ?_).append (by decide)).append hreason
  split
  · exact ((Text.Visible.append (by decide) hbyte).append (by decide)).append
      (Text.visible_decimal _)
  · exact ((Text.Visible.append (by decide) (Text.visible_decimal _)).append (by decide)).append
      (Text.visible_decimal _)

theorem visible_overlong (integer : Text.Overlong) : Text.Visible integer.message := by
  have hlimit : Text.Visible ("Exceeds the limit (" ++ Text.decimal Text.digitLimit ++
      " digits) for integer string conversion") := by decide
  have hknown : Text.Visible (": value has " ++ Text.decimal integer.digits ++ " digits") :=
    (Text.Visible.append (by decide) (Text.visible_decimal _)).append (by decide)
  exact (hlimit.append hknown).append (by decide)

theorem visible_malformed (problem : Json.Problem) (place : Text.Place) :
    Text.Visible (Json.Fault.malformed problem place).message := by
  have hproblem : Text.Visible (problem.text ++ ": line ") := by cases problem <;> decide
  have hline := (hproblem.append (Text.visible_decimal place.line)).append
    (by decide : Text.Visible " column ")
  have hcolumn := (hline.append (Text.visible_decimal place.column)).append
    (by decide : Text.Visible " (char ")
  exact (hcolumn.append (Text.visible_decimal place.offset)).append (by decide)

theorem mem_message_iff_of_visible {files : FileReader} {path : String} {fault : LoadFault}
    (h : load files path = .error fault) (hconfig : ∀ inner, fault ≠ .config inner)
    (hmalformed : ∀ problem place, fault ≠ .malformed path problem place)
    (hvisible : Text.Visible fault.message) {c : Char} (hc : Text.isPrintable c = false) :
    c ∈ fault.message.toList ↔ Exposes files path c :=
  iff_of_false (hvisible.not_mem hc)
    (not_exposes_of_error ((load_eq_error_iff hconfig).mp h) hmalformed)

/-- What cannot be seen in a message about a file is what is exposed there. -/
theorem mem_message_iff_exposes {files : FileReader} {path : String} {fault : LoadFault}
    (h : load files path = .error fault) {c : Char} (hc : Text.isPrintable c = false) :
    c ∈ fault.message.toList ↔ Exposes files path c := by
  cases fault with
  | config fault =>
      obtain ⟨value, later, hjson, hfaults⟩ := load_eq_config_iff.mp h
      have hnamed : fault.path.Named := allNamed_faults value fault (by simp [hfaults])
      rw [exposes_iff_of_faults hjson hfaults, ← hnamed.mem_text_iff hc]
      exact fault.mem_message_iff hc
  | malformed path' problem place =>
      have hjson := (load_eq_error_iff (by simp)).mp h
      obtain rfl := (of_loadJson_eq_error hjson).2 _ _ _ rfl
      have hopen : Text.Visible "Invalid JSON in " := by decide
      have hcolon : Text.Visible ": " := by decide
      rw [exposes_iff_of_malformed hjson]
      unfold LoadFault.message
      rw [(visible_malformed problem place).mem_append_iff hc, hcolon.mem_append_iff hc,
        hopen.append_mem_iff hc]
  | file fault path' =>
      exact mem_message_iff_of_visible h (by simp) (by simp) (visible_fileFault fault path') hc
  | nullPath => exact mem_message_iff_of_visible h (by simp) (by simp) (by decide) hc
  | encoding fault =>
      exact mem_message_iff_of_visible h (by simp) (by simp) (visible_encodingFault fault) hc
  | overlong integer =>
      exact mem_message_iff_of_visible h (by simp) (by simp) (visible_overlong integer) hc

end LSystem.Config
