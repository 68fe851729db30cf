import LSystem.CommandLine.Outcome
import LSystem.Proofs.CommandLine.Arguments
import LSystem.Proofs.Config.Loading

/-! # Faults of a file

Every command begins with its file. What is wrong with the file ends it in the same way whatever the
command, and only a file can end it in this way. -/

namespace LSystem.CommandLine

/-! ## Failures of a report -/

/-- A report that does not fail because of a file. -/
def Report.Loaded (report : Report) : Prop := ∀ fault, report.result ≠ .error (.load fault)

theorem loaded_ofLevel {made : SeededExpander} {level : Json}
    {report : Nat → Word → Expander Twister → Report}
    (h : ∀ n word expander, (report n word expander).Loaded) :
    (Report.ofLevel made level report).Loaded := by
  intro fault
  unfold Report.ofLevel
  split
  · rename_i levelFault _
    cases levelFault <;> simp [Failure.ofLevelFault]
  · exact h _ _ _ fault

theorem loaded_expandReport (level : Setting Int) (separator : Setting String) (config : Config)
    (made : SeededExpander) : (expandReport level separator config made).Loaded := by
  apply loaded_ofLevel
  intro n word expander fault
  cases separator <;> simp [Report.ofResult, Setting.separator, Except.map]

theorem loaded_levelsReport (upto : Setting Int) (config : Config) (made : SeededExpander) :
    (levelsReport upto config made).Loaded := by
  apply loaded_ofLevel
  intro n word expander fault
  simp [Report.ofResult]

theorem loaded_validateReport (config : Config) (made : SeededExpander) :
    (validateReport config made).Loaded := by
  intro fault
  simp [validateReport, Report.ofResult]

/-- A command fails because of a file exactly if its configuration cannot be loaded. -/
theorem ofExpander_eq_load_iff {files : FileReader} {process : Twister} {path : String}
    {seed : Setting Int} {report : Config → SeededExpander → Report}
    (h : ∀ config made, (report config made).Loaded) {fault : Config.LoadFault} :
    (Report.ofExpander files process path seed report).result = .error (.load fault) ↔
      Config.load files path = .error fault := by
  unfold Report.ofExpander
  cases Config.load files path with
  | error other => simp
  | ok config =>
      simp only [reduceCtorEq, iff_false]
      split
      · simp
      · split
        · simp
        · exact h _ _ fault

theorem report_eq_load_iff {files : FileReader} {process : Twister} {command : Command}
    {fault : Config.LoadFault} :
    (command.report files process).result = .error (.load fault) ↔
      Config.load files command.path = .error fault := by
  cases command with
  | expand path level seed separator => exact ofExpander_eq_load_iff (loaded_expandReport _ _)
  | levels path upto seed => exact ofExpander_eq_load_iff (loaded_levelsReport _)
  | validate path => exact ofExpander_eq_load_iff loaded_validateReport

theorem report_of_load_error {files : FileReader} {process : Twister} {command : Command}
    {fault : Config.LoadFault} (h : Config.load files command.path = .error fault) :
    command.report files process = ⟨[], .error (.load fault)⟩ := by
  cases command <;> simp only [Command.path] at h <;>
    simp only [Command.report, Report.ofExpander, h]

/-! ## How the program ends -/

/-- A fault of a file that is not reported. -/
theorem title?_load_eq_none_iff {fault : Config.LoadFault} :
    (Failure.load fault).title? = none ↔
      fault = .nullPath ∨ (∃ inner, fault = .encoding inner) ∨ ∃ integer, fault = .overlong integer := by
  cases fault <;> simp [Failure.title?]

theorem ending_eq_escaped_iff {verbose : Bool} {report : Report} {failure : Failure} :
    (report.outcome verbose).ending = .escaped failure ↔
      report.result = .error failure ∧ failure.title? = none := by
  unfold Report.outcome
  cases hresult : report.result with
  | ok output => simp
  | error other =>
      simp only [Except.error.injEq]
      split
      · rename_i title htitle
        simp only [reduceCtorEq, false_iff, not_and]
        rintro rfl
        simp [htitle]
      · rename_i htitle
        simp only [Ending.escaped.injEq]
        constructor
        · rintro rfl
          exact ⟨rfl, htitle⟩
        · exact fun h => h.1

/-- A report of a command that fails because of its file has no records. -/
theorem outcome_of_load_error {files : FileReader} {process : Twister} {command : Command}
    {fault : Config.LoadFault} (h : Config.load files command.path = .error fault) (verbose : Bool) :
    (command.report files process).outcome verbose =
      match (Failure.load fault).title? with
      | some title => ⟨"", title ++ fault.message ++ "\n", .exit failureCode⟩
      | none => ⟨"", "", .escaped (.load fault)⟩ := by
  have hlog : (if verbose then String.join (([] : List LogRecord).map logLine) else "") = "" := by
    cases verbose <;> rfl
  rw [report_of_load_error h, Report.outcome]
  simp only [hlog, String.empty_append]
  rfl

theorem run_of_parse {files : FileReader} {process : Twister} {arguments : List String}
    {invocation : Invocation} (h : parse arguments = .ok invocation) :
    run files process arguments =
      (invocation.command.report files process).outcome invocation.verbose := by
  rw [run, h]
  rfl

/-- The faults that are not reported are those of the encoding and of integers. -/
theorem exists_unreported_iff {files : FileReader} {path : String} {bytes : List UInt8}
    (hpath : '\x00' ∉ path.toList) (hfile : files path = .ok bytes) :
    (∃ fault, Config.load files path = .error fault ∧ (Failure.load fault).title? = none) ↔
      Config.Undecodable bytes ∨ ∃ digits, Config.HasLongInteger bytes digits := by
  rw [← Config.loadJson_eq_encoding_iff hpath hfile]
  simp only [← Config.loadJson_eq_overlong_iff hpath hfile]
  constructor
  · rintro ⟨fault, hload, htitle⟩
    rw [title?_load_eq_none_iff] at htitle
    have hplain : ∀ inner, fault ≠ .config inner := by
      rintro inner rfl
      simp at htitle
    rw [Config.load_eq_error_iff hplain] at hload
    rcases htitle with rfl | ⟨inner, rfl⟩ | ⟨⟨digits⟩, rfl⟩
    · have hcases := Config.loadJson_cases hpath hfile
      simp [hload] at hcases
    · exact .inl ⟨inner, hload⟩
    · exact .inr ⟨digits, hload⟩
  · rintro (⟨inner, hload⟩ | ⟨digits, hload⟩)
    · exact ⟨_, (Config.load_eq_error_iff (by simp)).mpr hload, rfl⟩
    · exact ⟨_, (Config.load_eq_error_iff (by simp)).mpr hload, rfl⟩

/-- What comes of a file with some contents, whichever command reads it. -/
structure LoadingSpec (files : FileReader) (path : String) (bytes : List UInt8) : Prop where
  encoding : (∃ fault, Config.loadJson files path = .error (.encoding fault)) ↔
    Config.Undecodable bytes
  overlong : ∀ digits, Config.loadJson files path = .error (.overlong ⟨digits⟩) ↔
    Config.HasLongInteger bytes digits
  /-- All other contents are a value or are malformed. -/
  otherwise : (∃ value, Config.loadJson files path = .ok value) ∨
    (∃ problem place, Config.loadJson files path = .error (.malformed path problem place)) ∨
    Config.Undecodable bytes ∨ ∃ digits, Config.HasLongInteger bytes digits
  reported : ∀ (process : Twister) {arguments : List String} {invocation : Invocation},
    parse arguments = .ok invocation → invocation.command.path = path → ∀ problem place,
    Config.loadJson files path = .error (.malformed path problem place) →
    run files process arguments =
      ⟨"", "Grammar error: " ++
        ("Invalid JSON in " ++ path ++ ": " ++ (Json.Fault.malformed problem place).message) ++ "\n",
        .exit failureCode⟩
  /-- The file ends the program without a report. -/
  escaped : ∀ (process : Twister) {arguments : List String} {invocation : Invocation},
    parse arguments = .ok invocation → invocation.command.path = path →
    ((∃ fault, (run files process arguments).ending = .escaped (.load fault)) ↔
      Config.Undecodable bytes ∨ ∃ digits, Config.HasLongInteger bytes digits)
  silent : ∀ (process : Twister) {arguments : List String} {invocation : Invocation},
    parse arguments = .ok invocation → invocation.command.path = path → ∀ fault,
    (run files process arguments).ending = .escaped (.load fault) →
    run files process arguments = ⟨"", "", .escaped (.load fault)⟩

/-- Faults of the text of a file are reported, but not bytes that are no text, nor integers that are
too long. -/
theorem loading_spec {files : FileReader} {path : String} {bytes : List UInt8}
    (hpath : '\x00' ∉ path.toList) (hfile : files path = .ok bytes) :
    LoadingSpec files path bytes where
  encoding := Config.loadJson_eq_encoding_iff hpath hfile
  overlong := fun _ => Config.loadJson_eq_overlong_iff hpath hfile
  otherwise := by
    rcases Config.loadJson_cases hpath hfile with hvalue | hmalformed | hencoding | ⟨⟨digits⟩, hlong⟩
    · exact .inl hvalue
    · exact .inr (.inl hmalformed)
    · exact .inr (.inr (.inl ((Config.loadJson_eq_encoding_iff hpath hfile).mp hencoding)))
    · exact .inr (.inr (.inr ⟨digits, (Config.loadJson_eq_overlong_iff hpath hfile).mp hlong⟩))
  reported := by
    rintro process arguments invocation hparse rfl problem place h
    rw [run_of_parse hparse, outcome_of_load_error ((Config.load_eq_error_iff (by simp)).mpr h)]
    rfl
  escaped := by
    rintro process arguments invocation hparse rfl
    rw [← exists_unreported_iff hpath hfile, run_of_parse hparse]
    simp only [ending_eq_escaped_iff, report_eq_load_iff]
  silent := by
    rintro process arguments invocation hparse rfl fault h
    rw [run_of_parse hparse, ending_eq_escaped_iff, report_eq_load_iff] at h
    rw [run_of_parse hparse, outcome_of_load_error h.1, h.2]

theorem parse_expand (path : String) :
    parse ["expand", "--", path] = .ok ⟨false, .expand path .absent .absent .absent⟩ := by
  have hwritable : (Command.expand path .absent .absent .absent).Writable :=
    ⟨trivial, trivial, nofun⟩
  exact @parse_arguments ⟨false, _⟩ hwritable

/-- All of the text is an integer that is just too long. -/
def longIntegerFile : FileReader :=
  fun _ => .ok (Text.Utf8.encode (List.replicate (Text.digitLimit + 1) '1'))

theorem loading_spec_longInteger :
    '\x00' ∉ "g.json".toList ∧
    Config.loadJson longIntegerFile "g.json" = .error (.overlong ⟨Text.digitLimit + 1⟩) ∧
    ∃ fault, run longIntegerFile (Twister.ofSeed 7) ["expand", "--", "g.json"] =
      ⟨"", "", .escaped (.load fault)⟩ := by
  have hpath : '\x00' ∉ "g.json".toList := by decide
  have hdigits : ∀ d ∈ List.replicate (Text.digitLimit + 1) '1', d.isDigit = true := by
    intro d hd
    rw [List.eq_of_mem_replicate hd]
    rfl
  have hliteral : Json.IsInteger (List.replicate (Text.digitLimit + 1) '1') (Text.digitLimit + 1) := by
    have hhead : (List.replicate (Text.digitLimit + 1) '1').head? ≠ some '0' := by
      rw [List.replicate_succ, List.head?_cons]
      decide
    have hinteger := Json.IsInteger.mk (.inl rfl) hdigits hhead
    rwa [List.length_replicate, List.nil_append] at hinteger
  have hlong := Config.hasLongInteger_encode (Nat.lt_succ_self Text.digitLimit) hliteral
  have hspec : LoadingSpec longIntegerFile "g.json" _ := loading_spec hpath rfl
  obtain ⟨fault, hescaped⟩ :=
    (hspec.escaped (Twister.ofSeed 7) (parse_expand _) rfl).mpr (.inr ⟨_, hlong⟩)
  exact ⟨hpath, (hspec.overlong _).mpr hlong, fault,
    hspec.silent _ (parse_expand _) rfl fault hescaped⟩

/-- The only byte of the file begins no character. -/
def garbledFile : FileReader := fun _ => .ok [0xFF]

/-- A file without a value that is not reported either. -/
theorem not_reported_garbled :
    (¬ ∃ value, Config.loadJson garbledFile "g.json" = .ok value) ∧
    (¬ ∃ problem place,
      Config.loadJson garbledFile "g.json" = .error (.malformed "g.json" problem place)) ∧
    run garbledFile (Twister.ofSeed 7) ["expand", "--", "g.json"] =
      ⟨"", "", .escaped (.load (.encoding ⟨0, 0, 0xFF, .start⟩))⟩ := by
  have hload : Config.loadJson garbledFile "g.json" = .error (.encoding ⟨0, 0, 0xFF, .start⟩) :=
    Config.loadJson_of_decode_error (by decide) rfl rfl
  refine ⟨?_, ?_, ?_⟩
  · rw [hload]
    simp
  · rw [hload]
    simp
  · rw [run_of_parse (parse_expand _),
      outcome_of_load_error ((Config.load_eq_error_iff (by simp)).mpr hload)]
    rfl

end LSystem.CommandLine
