import LSystem.Proofs.CommandLine.Agreement
import LSystem.Proofs.CommandLine.Courses
import LSystem.Proofs.CommandLine.Loading
import LSystem.Proofs.ContextIndex.Dropped
import LSystem.Proofs.Text.Visible

/-! # Records of a run

That records are asked for changes nothing of a run but what is written to the standard error stream. If
the run succeeds, this is one line for each key that is dropped, one for the index and one for each level
that is computed: no level is computed twice, and none beyond the highest one that is asked for. -/

namespace LSystem

open Expander

/-! ## Records of levels -/

/-- What is recorded of a level: the length of its word, and the number of places below it at which
something was drawn. -/
def System.growthAt (s : System) (seed : Int) (n : Nat) : Growth :=
  ⟨n, (s.levelWord seed n).length, s.ambiguityBelow seed n⟩

/-- The records of an expander up to a level: those of the keys that are dropped, one of the index, and one
of each level from the first to the highest. -/
def System.records (s : System) (seed : Int) (dropped : List DroppedKey) (top : Nat) :
    List LogRecord :=
  dropped.map .dropped ++
    .indexed s.grammar.name s.index.rules.length s.index.hasContexts ::
      (List.range top).map (fun n => .grown (s.growthAt seed (n + 1)))

namespace CommandLine

theorem grownLog_grown (s : System) (seed : Int) (top : Nat) :
    grownLog (grown s seed top) =
      (List.range top).map (fun n => .grown (s.growthAt seed (n + 1))) := by
  induction top with
  | zero => rfl
  | succ top ih =>
      have hgrow : (grown s seed top).grow = grown s seed (top + 1) := (growBy_succ top _).symm
      have hsize : (grown s seed (top + 1)).older.size = top + 1 := by
        rw [← Array.length_toList, older_grown, List.length_map, List.length_range]
      have hnewest : (grown s seed (top + 1)).newest = s.levelWord seed (top + 1) :=
        newest_growBy (cached_ofSystem s _) (top + 1)
      rw [← hgrow, Course.grownLog_grow, hgrow, ih, hsize, hnewest, draws_grown, List.range_succ,
        List.map_append]
      rfl

/-! ## Lines of records -/

theorem visible_message (record : LogRecord) : Text.Visible record.message := by
  cases record with
  | dropped key =>
      obtain ⟨key, reason⟩ := key
      have hkey : Text.Visible ("dropping context key " ++ Text.quoted key ++ ": offset ") :=
        (Text.Visible.append (by decide) (Text.visible_quoted key)).append (by decide)
      refine hkey.append ?_
      cases reason with
      | noOffset => exact (by decide : Text.Visible "is not an integer")
      | outside center => exact (Text.visible_decimal center).append (by decide)
  | indexed name rules contexts =>
      have hname : Text.Visible ("context index for " ++ Text.quoted name ++ ": ") :=
        (Text.Visible.append (by decide) (Text.visible_quoted name)).append (by decide)
      refine ((hname.append (Text.visible_decimal rules)).append (by decide)).append ?_
      cases contexts <;> decide
  | grown growth =>
      have hlevel : Text.Visible ("level " ++ Text.decimal growth.level ++ ": ") :=
        (Text.Visible.append (by decide) (Text.visible_decimal _)).append (by decide)
      have hlength := (hlevel.append (Text.visible_decimal growth.length)).append
        (by decide : Text.Visible " symbols, ")
      exact (hlength.append (Text.visible_decimal growth.draws)).append (by decide)

/-- Each record is written on one line, whatever the keys and the name of a grammar hold. -/
theorem isLine_logLine (record : LogRecord) : Text.IsLine (logLine record) := by
  have hvisible : Text.Visible ("DEBUG lsystem_expander: " ++ record.message) :=
    Text.Visible.append (by decide) (visible_message record)
  exact hvisible.isLine

/-! ## Asking for records -/

def Invocation.recorded (invocation : Invocation) : Invocation := { invocation with verbose := true }

theorem classifyAll_cons {flags : List Flag} {text : String} {argument : Argument}
    (hplain : text ≠ dividerText) (h : classify flags text = .ok argument) (texts : List String) :
    classifyAll flags (text :: texts) = (classifyAll flags texts).map (argument :: ·) := by
  have htake : (text :: texts).takeWhile (· != dividerText) =
      text :: texts.takeWhile (· != dividerText) := by
    rw [List.takeWhile_cons_of_pos]
    rwa [bne_iff_ne]
  simp only [classifyAll, htake, List.mapM_cons, h, List.length_cons, List.drop_succ_cons]
  cases (texts.takeWhile (· != dividerText)).mapM (classify flags) <;> rfl

theorem dispatch_recorded (verbose : Bool) (extra : List String) (word : String)
    (texts : List String) :
    dispatch true extra word texts = (dispatch verbose extra word texts).map Invocation.recorded := by
  unfold dispatch
  split
  · rfl
  · split
    · rfl
    · split <;> rfl

/-- That records are asked for makes no difference to what is read after it. -/
theorem readMain_recorded (verbose : Bool) (extra : List String) (arguments : List Argument) :
    readMain true extra arguments = (readMain verbose extra arguments).map Invocation.recorded := by
  induction arguments generalizing verbose extra with
  | nil => rfl
  | cons argument rest ih =>
      cases argument with
      | unknown text => exact ih verbose (extra ++ [text])
      | operand text => exact dispatch_recorded verbose extra text _
      | divider =>
          simp only [readMain]
          split
          · rfl
          · exact dispatch_recorded verbose extra dividerText _
      | flag text use =>
          simp only [readMain]
          split
          · rfl
          · split
            · rfl
            · exact ih _ extra

theorem parse_recorded (arguments : List String) :
    parse ("-v" :: arguments) = (parse arguments).map Invocation.recorded := by
  have hflag : classify Parser.main.flags "-v" = .ok (.flag "-v" ⟨.verbose, "-v", none⟩) := rfl
  rw [parse, parse, classifyAll_cons (by decide) hflag]
  cases classifyAll Parser.main.flags arguments with
  | error ambiguity => rfl
  | ok arguments => exact readMain_recorded false [] arguments

/-! ## Outcomes with records and without -/

/-- What is printed and how a report ends does not depend on its records. -/
theorem outcome_verbose (report : Report) (verbose verbose' : Bool) :
    (report.outcome verbose).stdout = (report.outcome verbose').stdout ∧
      (report.outcome verbose).ending = (report.outcome verbose').ending := by
  cases hresult : report.result with
  | ok output => simp only [Report.outcome, hresult, and_self]
  | error failure =>
      cases htitle : failure.title? <;> simp only [Report.outcome, hresult, htitle, and_self]

/-- Only a report that does not fail ends with code 0. -/
theorem exists_of_ending {report : Report} {verbose : Bool}
    (h : (report.outcome verbose).ending = .exit 0) : ∃ output, report.result = .ok output := by
  cases hresult : report.result with
  | ok output => exact ⟨output, rfl⟩
  | error failure =>
      simp only [Report.outcome, hresult] at h
      cases htitle : failure.title? <;> rw [htitle] at h <;> cases h

theorem outcome_of_ok {report : Report} {output : String} (h : report.result = .ok output)
    (verbose : Bool) :
    report.outcome verbose =
      ⟨output, if verbose then String.join (report.log.map logLine) else "", .exit 0⟩ := by
  simp only [Report.outcome, h]

/-! ## Successful reports -/

namespace Command

/-- The seed that a command is given. -/
def seed : Command → Setting Int
  | expand _ _ seed _ | levels _ _ seed => seed
  | validate _ => .absent

/-- The highest level that a command asks for is the one it is given, or the one at which validation
stops. -/
def Asks (config : Config) (system : System) (seed : Int) : Command → Nat → Prop
  | expand _ level _ _, top => level.level config = .int top
  | levels _ upto _, top => upto.level config = .int top
  | validate _, top => StopsAt system seed config.level top

end Command

theorem exists_of_ofLevel {made : SeededExpander} {level : Json}
    {report : Nat → Word → Expander Twister → Report} {output : String}
    (h : (Report.ofLevel made level report).result = .ok output) : ∃ n : Nat, level = .int n := by
  cases level with
  | int n =>
      cases n with
      | ofNat n => exact ⟨n, rfl⟩
      | negSucc n => cases h
  | null | bool | float | string | array | object => cases h

theorem exists_of_ofExpander {files : FileReader} {process : Twister} {path : String}
    {setting : Setting Int} {report : Config → SeededExpander → Report} {output : String}
    (h : (Report.ofExpander files process path setting report).result = .ok output) :
    ∃ config system, Config.load files path = .ok config ∧
      System.ofGrammar config.grammar = .ok system ∧
      let rest := report config (.fresh system ((setting.seed config).getD process.drawnSeed))
      rest.result = .ok output ∧
      (Report.ofExpander files process path setting report).log =
        config.grammar.indexLog ++ rest.log := by
  cases hload : Config.load files path with
  | error fault =>
      rw [Report.ofExpander, hload] at h
      cases h
  | ok config =>
      cases hsystem : System.ofGrammar config.grammar with
      | error offset =>
          simp only [Report.ofExpander, hload, SeededExpander.create_of_error hsystem] at h
          cases h
      | ok system =>
          have hsetting : setting ≠ .blank := by
            rintro rfl
            simp only [Report.ofExpander, hload, SeededExpander.create_of_ok hsystem, if_true] at h
            cases h
          have hreport := ofExpander_of_ok hload hsystem hsetting process report
          rw [hreport] at h
          exact ⟨config, system, rfl, hsystem, h, congrArg Report.log hreport⟩

/-- A command that succeeds has built one index and has grown to the highest level it asks for. -/
theorem exists_of_report {files : FileReader} {process : Twister} {command : Command}
    {output : String} (h : (command.report files process).result = .ok output) :
    ∃ config system top, Config.load files command.path = .ok config ∧
      System.ofGrammar config.grammar = .ok system ∧
      let seed := (command.seed.seed config).getD process.drawnSeed
      command.Asks config system seed top ∧
      (command.report files process).log =
        config.grammar.indexLog ++ grownLog (grown system seed top) := by
  cases command with
  | expand path level seed separator =>
      obtain ⟨config, system, hload, hsystem, hresult, hlog⟩ := exists_of_ofExpander h
      obtain ⟨top, htop⟩ := exists_of_ofLevel hresult
      rw [expandReport_fresh htop] at hlog
      exact ⟨config, system, top, hload, hsystem, htop, hlog⟩
  | levels path upto seed =>
      obtain ⟨config, system, hload, hsystem, hresult, hlog⟩ := exists_of_ofExpander h
      obtain ⟨top, htop⟩ := exists_of_ofLevel hresult
      rw [levelsReport_fresh htop] at hlog
      exact ⟨config, system, top, hload, hsystem, htop, hlog⟩
  | validate path =>
      obtain ⟨config, system, hload, hsystem, -, hlog⟩ := exists_of_ofExpander h
      obtain ⟨top, hstops, hreport⟩ := exists_validateReport hsystem _
      rw [hreport] at hlog
      exact ⟨config, system, top, hload, hsystem, hstops, hlog⟩

/-! ## Runs -/

/-- To ask for records adds them to the standard error stream, and does nothing else. -/
structure AddsRecords (files : FileReader) (process : Twister) (arguments : List String)
    (invocation : Invocation) : Prop where
  stdout : (run files process ("-v" :: arguments)).stdout = (run files process arguments).stdout
  ending : (run files process ("-v" :: arguments)).ending = (run files process arguments).ending
  /-- Nothing is written but the log, and without the flag nothing at all, unless the arguments have it
  already. -/
  stderr : (run files process arguments).ending = .exit 0 →
    ∃ config system top dropped,
      Config.load files invocation.command.path = .ok config ∧
      System.ofGrammar config.grammar = .ok system ∧
      DroppedKeys config.grammar.productiveKeys dropped ∧
      let seed := (invocation.command.seed.seed config).getD process.drawnSeed
      let log := (system.records seed dropped top).map logLine
      invocation.command.Asks config system seed top ∧
      (∀ line ∈ log, Text.IsLine line) ∧
      (run files process ("-v" :: arguments)).stderr = String.join log ∧
      (run files process arguments).stderr = if invocation.verbose then String.join log else ""

/-- This holds of every command line that can be parsed, also of one that asks for records already. -/
theorem addsRecords_of_parse {arguments : List String} {invocation : Invocation}
    (h : parse arguments = .ok invocation) (files : FileReader) (process : Twister) :
    AddsRecords files process arguments invocation := by
  have hrecorded : parse ("-v" :: arguments) = .ok invocation.recorded := by
    rw [parse_recorded, h]
    rfl
  have hquiet : run files process arguments =
      (invocation.command.report files process).outcome invocation.verbose := run_of_parse h
  have hverbose : run files process ("-v" :: arguments) =
      (invocation.command.report files process).outcome true := run_of_parse hrecorded
  obtain ⟨hstdout, hending⟩ :=
    outcome_verbose (invocation.command.report files process) true invocation.verbose
  refine ⟨?stdout, ?ending, ?stderr⟩
  case stdout =>
    rw [hverbose, hquiet]
    exact hstdout
  case ending =>
    rw [hverbose, hquiet]
    exact hending
  case stderr =>
    intro hzero
    rw [hquiet] at hzero
    obtain ⟨output, hresult⟩ := exists_of_ending hzero
    obtain ⟨config, system, top, hload, hsystem, hasks, hlog⟩ := exists_of_report hresult
    obtain ⟨dropped, hdropped, hindex⟩ := exists_indexLog hsystem
    have hrecords : (invocation.command.report files process).log =
        system.records ((invocation.command.seed.seed config).getD process.drawnSeed) dropped top := by
      rw [hlog, hindex, grownLog_grown, List.append_assoc, System.records,
        System.grammar_of_ofGrammar hsystem]
      rfl
    refine ⟨config, system, top, dropped, hload, hsystem, hdropped, hasks, ?_, ?_, ?_⟩
    · exact List.forall_mem_map.mpr (fun record _ => isLine_logLine record)
    · rw [hverbose, outcome_of_ok hresult, hrecords, if_pos rfl]
    · rw [hquiet, outcome_of_ok hresult, hrecords]

/-- The text of a configuration with ends of lines in its name and in two keys, both of which are
dropped. -/
def brokenLinesText : String :=
  "\x7b\"name\": \"Two\\nlines\", \"axiom\": \"A\", \"level\": 2, \"seed\": 1, " ++
    "\"rules\": \x7b\"1\\nB\": \"A\", \"A\": \"A B\", \"x\\u2028A\": \"B\"\x7d\x7d"

def brokenLinesFile : FileReader :=
  fun _ => .ok (brokenLinesText.toList.map (fun c => c.toNat.toUInt8))

def brokenLinesLog : List String := [
  "DEBUG lsystem_expander: dropping context key '1\\nB': offset 1 out of range\n",
  "DEBUG lsystem_expander: dropping context key 'x\\u2028A': offset is not an integer\n",
  "DEBUG lsystem_expander: context index for 'Two\\nlines': 1 rules, contexts=False\n",
  "DEBUG lsystem_expander: level 1: 2 symbols, 0 draws so far\n",
  "DEBUG lsystem_expander: level 2: 3 symbols, 0 draws so far\n"]

theorem addsRecords_of_parse_brokenLines :
    parse (Command.validate "lines.json").arguments = .ok ⟨false, .validate "lines.json"⟩ ∧
    AddsRecords brokenLinesFile (Twister.ofSeed 7) (Command.validate "lines.json").arguments
      ⟨false, .validate "lines.json"⟩ ∧
    (run brokenLinesFile (Twister.ofSeed 7) (Command.validate "lines.json").arguments).ending =
      .exit 0 ∧
    (run brokenLinesFile (Twister.ofSeed 7)
        ("-v" :: (Command.validate "lines.json").arguments)).stderr = String.join brokenLinesLog := by
  have hwritable : (Command.validate "lines.json").Writable := trivial
  have hparse : parse (Command.validate "lines.json").arguments =
      .ok ⟨false, .validate "lines.json"⟩ := parse_arguments hwritable
  have hreport : ((Command.validate "lines.json").report brokenLinesFile
        (Twister.ofSeed 7)).result.isOk = true ∧
      ((Command.validate "lines.json").report brokenLinesFile (Twister.ofSeed 7)).log.map logLine =
        brokenLinesLog := by
    decide +kernel
  obtain ⟨hsucceeds, hlog⟩ := hreport
  rw [run, run, parse_recorded, hparse]
  refine ⟨rfl, addsRecords_of_parse hparse _ _, ?_⟩
  cases hresult : ((Command.validate "lines.json").report brokenLinesFile
      (Twister.ofSeed 7)).result with
  | ok output =>
      simp only [Except.map, Invocation.run, Invocation.recorded, outcome_of_ok hresult, hlog, if_true,
        and_self]
  | error failure =>
      rw [hresult] at hsucceeds
      cases hsucceeds

end CommandLine

end LSystem
