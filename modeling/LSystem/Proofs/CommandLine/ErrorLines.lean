import LSystem.Proofs.CommandLine.Loading
import LSystem.Proofs.Config.Messages

/-! # Failures that are reported

A failure that is reported is one line on the standard error stream, which begins with what the failure is
called, unless a line feed is written there as it is: in the path of a malformed file, or in the key of the
rule that is at fault. -/

namespace LSystem

theorem LevelRefusal.eq_of_fault_eq {refusal other : LevelRefusal}
    (h : refusal.fault = .refused other) : refusal = other := by
  unfold fault at h
  split at h <;> cases h
  rfl

theorem LevelRefusal.visible_negative (n : Int) : Text.Visible (negative n).message := by
  have hopen : Text.Visible "Recursion level " := by decide
  exact (hopen.append (Text.visible_decimal n)).append (by decide)

namespace CommandLine

/-! ## Names of failures -/

/-- What a failure that is reported is called. -/
inductive Failure.IsCalled : Failure → String → Prop where
  | unreadable (fault : FileFault) (path : String) :
      IsCalled (.load (.file fault path)) "File error: "
  | malformed (path : String) (problem : Json.Problem) (place : Text.Place) :
      IsCalled (.load (.malformed path problem place)) "Grammar error: "
  | config (fault : Config.Fault) : IsCalled (.load (.config fault)) "Grammar error: "
  | refused (refusal : LevelRefusal) : IsCalled (.refused refusal) "Invalid argument: "

theorem isCalled_of_title? {failure : Failure} {title : String} (h : failure.title? = some title) :
    failure.IsCalled title := by
  cases failure with
  | load fault =>
      cases fault with
      | file fault path => cases h; exact .unreadable fault path
      | malformed path problem place => cases h; exact .malformed path problem place
      | config fault => cases h; exact .config fault
      | nullPath | encoding | overlong => cases h
  | refused refusal => cases h; exact .refused refusal
  | overlong | unwritable | blankSeed | blankSeparator => cases h

theorem Failure.IsCalled.visible {failure : Failure} {title : String} (h : failure.IsCalled title) :
    Text.Visible title := by
  cases h <;> decide

/-- A report that ends with the code of failures has written one message, after what it is called. -/
theorem exists_of_ending_failure {report : Report}
    (h : (report.outcome false).ending = .exit failureCode) :
    ∃ failure title, report.result = .error failure ∧ failure.IsCalled title ∧
      (report.outcome false).stderr = title ++ failure.message ++ "\n" := by
  cases hresult : report.result with
  | ok output =>
      simp only [Report.outcome, hresult] at h
      cases h
  | error failure =>
      cases htitle : failure.title? with
      | none =>
          simp only [Report.outcome, hresult, htitle] at h
          cases h
      | some title =>
          refine ⟨failure, title, rfl, isCalled_of_title? htitle, ?_⟩
          simp only [Report.outcome, hresult, htitle, Bool.false_eq_true, if_false,
            String.empty_append]

/-! ## Refusals -/

/-- Of a level that is given, the number is written into the message, or that there is none. -/
theorem visible_of_checkLevel {config : Config} {setting : Setting Int} {refusal : LevelRefusal}
    (h : checkLevel (setting.level config) = .error (.refused refusal)) :
    Text.Visible refusal.message := by
  cases setting with
  | absent => cases h
  | blank =>
      obtain rfl : LevelRefusal.notInteger (.array []) = refusal :=
        LevelRefusal.eq_of_fault_eq (Except.error.inj h)
      decide
  | value n =>
      cases n with
      | ofNat n => cases h
      | negSucc n =>
          obtain rfl : LevelRefusal.negative (.negSucc n) = refusal :=
            LevelRefusal.eq_of_fault_eq (Except.error.inj h)
          exact LevelRefusal.visible_negative _

theorem checkLevel_of_ofLevel {made : SeededExpander} {level : Json}
    {report : Nat → Word → Expander Twister → Report} {refusal : LevelRefusal}
    (h : (Report.ofLevel made level report).result = .error (.refused refusal))
    (hreport : ∀ n word expander, (report n word expander).result ≠ .error (.refused refusal)) :
    checkLevel level = .error (.refused refusal) := by
  unfold Report.ofLevel at h
  split at h
  · rename_i fault hcheck
    cases fault <;> cases h
    exact hcheck
  · exact absurd h (hreport _ _ _)

theorem exists_of_ofExpander_refused {files : FileReader} {process : Twister} {path : String}
    {seed : Setting Int} {report : Config → SeededExpander → Report} {refusal : LevelRefusal}
    (h : (Report.ofExpander files process path seed report).result = .error (.refused refusal)) :
    ∃ config made, Config.load files path = .ok config ∧
      (report config made).result = .error (.refused refusal) := by
  unfold Report.ofExpander at h
  split at h
  · cases h
  · rename_i config hload
    split at h
    · cases h
    · split at h
      · cases h
      · exact ⟨config, _, hload, h⟩

/-- A level is refused after the file is loaded, and everything in the message can be seen. -/
theorem of_report_refused {files : FileReader} {process : Twister} {command : Command}
    {refusal : LevelRefusal} (h : (command.report files process).result = .error (.refused refusal)) :
    (∃ config, Config.load files command.path = .ok config) ∧ Text.Visible refusal.message := by
  cases command with
  | expand path level seed separator =>
      obtain ⟨config, made, hload, hreport⟩ := exists_of_ofExpander_refused h
      refine ⟨⟨config, hload⟩, visible_of_checkLevel (checkLevel_of_ofLevel hreport ?_)⟩
      intro n word expander
      cases separator <;> simp [Report.ofResult, Setting.separator, Except.map]
  | levels path upto seed =>
      obtain ⟨config, made, hload, hreport⟩ := exists_of_ofExpander_refused h
      refine ⟨⟨config, hload⟩, visible_of_checkLevel (checkLevel_of_ofLevel hreport ?_)⟩
      intro n word expander
      simp [Report.ofResult]
  | validate path =>
      obtain ⟨config, made, hload, hreport⟩ := exists_of_ofExpander_refused h
      cases hreport

/-! ## One line -/

theorem mem_message_iff_exposes {files : FileReader} {process : Twister} {command : Command}
    {failure : Failure} {title : String}
    (h : (command.report files process).result = .error failure) (hcalled : failure.IsCalled title) :
    '\n' ∈ failure.message.toList ↔ Config.Exposes files command.path '\n' := by
  have hfile : ∀ fault, failure = .load fault →
      ('\n' ∈ failure.message.toList ↔ Config.Exposes files command.path '\n') := by
    rintro fault rfl
    exact Config.mem_message_iff_exposes (report_eq_load_iff.mp h) Text.not_isPrintable_lineFeed
  cases hcalled with
  | unreadable | malformed | config => exact hfile _ rfl
  | refused refusal =>
      obtain ⟨⟨config, hload⟩, hvisible⟩ := of_report_refused h
      exact iff_of_false (hvisible.not_mem Text.not_isPrintable_lineFeed)
        (Config.not_exposes_of_load_ok hload)

/-- A command that ends with the code of failures, and is not asked for records, has written what its
failure is called and the message. This is one line exactly if no line feed is written into it as it is. -/
theorem isOneLine_iff_of_parse {arguments : List String} {command : Command}
    (hparse : parse arguments = .ok ⟨false, command⟩) (files : FileReader) (process : Twister)
    (hcode : (run files process arguments).ending = .exit failureCode) :
    ∃ failure title, (command.report files process).result = .error failure ∧
      failure.IsCalled title ∧
      (run files process arguments).stderr = title ++ failure.message ++ "\n" ∧
      (Text.IsOneLine (run files process arguments).stderr ↔
        ¬ Config.Exposes files command.path '\n') := by
  rw [run_of_parse hparse] at hcode ⊢
  obtain ⟨failure, title, hresult, hcalled, hstderr⟩ := exists_of_ending_failure hcode
  refine ⟨failure, title, hresult, hcalled, hstderr, ?_⟩
  rw [hstderr, Text.isOneLine_append_iff,
    hcalled.visible.append_mem_iff Text.not_isPrintable_lineFeed, mem_message_iff_exposes hresult hcalled]

/-- There is no file at all. -/
def noFile : FileReader := fun _ => .error .missing

/-- The line feed in a path that leads to no file is shown in quotes. -/
theorem isOneLine_iff_of_parse_missing :
    parse ["expand", "--", "two\nlines.json"] =
      .ok ⟨false, .expand "two\nlines.json" .absent .absent .absent⟩ ∧
    (run noFile (Twister.ofSeed 7) ["expand", "--", "two\nlines.json"]).ending =
      .exit failureCode ∧
    Text.IsOneLine (run noFile (Twister.ofSeed 7) ["expand", "--", "two\nlines.json"]).stderr := by
  have hparse := parse_expand "two\nlines.json"
  have hjson : Config.loadJson noFile "two\nlines.json" =
      .error (.file .missing "two\nlines.json") := rfl
  have hload := (Config.load_eq_error_iff (by simp)).mpr hjson
  have hcode : (run noFile (Twister.ofSeed 7) ["expand", "--", "two\nlines.json"]).ending =
      .exit failureCode :=
    congrArg Outcome.ending ((run_of_parse hparse).trans (outcome_of_load_error hload false))
  obtain ⟨-, -, -, -, -, hline⟩ := isOneLine_iff_of_parse hparse _ _ hcode
  exact ⟨hparse, hcode, hline.mpr (Config.not_exposes_of_error hjson (by simp))⟩

/-- A rule that is at fault, with a line feed in its key. -/
def brokenKeyText : String := "\x7b\"axiom\": \"A\", \"rules\": \x7b\"A\\nB\": 3\x7d\x7d"

def brokenKeyFile : FileReader :=
  fun _ => .ok (brokenKeyText.toList.map (fun c => c.toNat.toUInt8))

/-- A failure that is reported on two lines. -/
theorem not_isOneLine_brokenKey :
    parse ["expand", "--", "g.json"] = .ok ⟨false, .expand "g.json" .absent .absent .absent⟩ ∧
    run brokenKeyFile (Twister.ofSeed 7) ["expand", "--", "g.json"] =
      ⟨"", "Grammar error: rules['A\nB'] must be an array\n", .exit failureCode⟩ ∧
    ¬ Text.IsOneLine (run brokenKeyFile (Twister.ofSeed 7) ["expand", "--", "g.json"]).stderr := by
  have hload : Config.load brokenKeyFile (Command.expand "g.json" .absent .absent .absent).path =
      .error (.config (.shape (.rule "A\nB") .array)) := by
    decide +kernel
  have hrun : run brokenKeyFile (Twister.ofSeed 7) ["expand", "--", "g.json"] =
      ⟨"", "Grammar error: " ++ (Config.Fault.shape (.rule "A\nB") .array).message ++ "\n",
        .exit failureCode⟩ :=
    (run_of_parse (parse_expand _)).trans (outcome_of_load_error hload false)
  have hmessage : '\n' ∈ ("Grammar error: " ++
      (Config.Fault.shape (.rule "A\nB") .array).message).toList := by decide
  refine ⟨parse_expand "g.json", hrun, ?_⟩
  rw [hrun]
  exact fun hline => Text.isOneLine_append_iff.mp hline hmessage

end CommandLine

end LSystem
