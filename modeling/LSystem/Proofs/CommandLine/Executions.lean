import LSystem.Proofs.CommandLine.Agreement
import LSystem.Proofs.CommandLine.Courses

/-! # The writes of a run

Executed step by step, a run writes to both streams what it comes to as a whole. A run that fails has
printed nothing, and one that does not fail has written nothing but what it prints, unless its records
are asked for. -/

namespace LSystem.CommandLine

def Write.stdout? : Write → Option String
  | stdout text => some text
  | stderr _ => none

def Write.stderr? : Write → Option String
  | stdout _ => none
  | stderr text => some text

/-- The texts written to the standard output. -/
def Execution.stdout (execution : Execution) : List String :=
  execution.writes.filterMap Write.stdout?

/-- The texts written to the standard error stream. -/
def Execution.stderr (execution : Execution) : List String :=
  execution.writes.filterMap Write.stderr?

def Ending.code : Ending → Except Failure Nat
  | exit code => .ok code
  | escaped fault => .error fault

/-! ## Streams of a course -/

/-- The lines of some records, if they are asked for. -/
def logLines (verbose : Bool) (records : List LogRecord) : List String :=
  if verbose then records.map logLine else []

theorem stdout_of_events (verbose : Bool) (events : List Event) :
    (events.flatMap (Event.writes verbose)).filterMap Write.stdout? =
      events.filterMap Event.line? := by
  induction events with
  | nil => rfl
  | cons event events ih =>
      rw [List.flatMap_cons, List.filterMap_append, ih]
      cases event with
      | recorded record => cases verbose <;> rfl
      | printed line => rfl

theorem stderr_of_events (verbose : Bool) (events : List Event) :
    (events.flatMap (Event.writes verbose)).filterMap Write.stderr? =
      logLines verbose (events.filterMap Event.record?) := by
  induction events with
  | nil => cases verbose <;> rfl
  | cons event events ih =>
      rw [List.flatMap_cons, List.filterMap_append, ih]
      cases event with
      | recorded record => cases verbose <;> rfl
      | printed line => rfl

namespace Course

variable (course : Course Unit) (verbose : Bool)

/-- Only what the course prints is written to the standard output, however it ends. -/
theorem stdout_execution : (course.execution verbose).stdout = course.lines := by
  unfold execution Execution.stdout
  split
  · exact stdout_of_events verbose course.events
  · split
    · rw [List.filterMap_append, stdout_of_events]
      exact List.append_nil _
    · exact stdout_of_events verbose course.events

variable {course}

theorem execution_of_ok (h : course.result = .ok ()) :
    (course.execution verbose).code = .ok 0 ∧
      (course.execution verbose).stderr = logLines verbose course.records := by
  unfold execution
  simp only [h]
  exact ⟨trivial, stderr_of_events verbose course.events⟩

theorem execution_of_reported {fault : Failure} (h : course.result = .error fault)
    {title : String} (htitle : fault.title? = some title) :
    (course.execution verbose).code = .ok failureCode ∧
      (course.execution verbose).stderr =
        logLines verbose course.records ++ [title ++ fault.message ++ "\n"] := by
  unfold execution
  simp only [h, Failure.report?, htitle, Option.map_some]
  refine ⟨trivial, ?_⟩
  rw [Execution.stderr, List.filterMap_append, stderr_of_events]
  rfl

theorem execution_of_escaped {fault : Failure} (h : course.result = .error fault)
    (htitle : fault.title? = none) :
    (course.execution verbose).code = .error fault ∧
      (course.execution verbose).stderr = logLines verbose course.records := by
  unfold execution
  simp only [h, Failure.report?, htitle, Option.map_none]
  exact ⟨trivial, stderr_of_events verbose course.events⟩

end Course

/-! ## Executions and outcomes -/

/-- What an execution shows of itself is the outcome. -/
structure Execution.Shows (execution : Execution) (outcome : Outcome) : Prop where
  stdout : String.join execution.stdout = outcome.stdout
  stderr : String.join execution.stderr = outcome.stderr
  code : execution.code = outcome.ending.code

/-- An execution that does not end with code 0 has printed nothing, and one that does has written
nothing else, unless it is to write records. -/
structure Execution.Clean (execution : Execution) (verbose : Bool) : Prop where
  stdout : execution.code ≠ .ok 0 → execution.stdout = []
  stderr : execution.code = .ok 0 → verbose = false → execution.stderr = []

theorem join_logLines (verbose : Bool) (records : List LogRecord) :
    String.join (logLines verbose records) =
      if verbose then String.join (records.map logLine) else "" := by
  cases verbose <;> rfl

theorem Course.Realizes.shows {course : Course Unit} {report : Report}
    (h : course.Realizes [] report) (verbose : Bool) :
    (course.execution verbose).Shows (report.outcome verbose) := by
  have hrecords : course.records = report.log := h.records
  have hstdout := course.stdout_execution verbose
  unfold Report.outcome
  cases hresult : report.result with
  | ok text =>
      obtain ⟨hok, hlines⟩ := h.ok text hresult
      obtain ⟨hcode, hstderr⟩ := execution_of_ok verbose hok
      refine ⟨?_, ?_, hcode⟩
      · rw [hstdout, hlines]
      · rw [hstderr, join_logLines, hrecords]
  | error fault =>
      obtain ⟨herror, hlines⟩ := h.error fault hresult
      rw [hlines] at hstdout
      cases htitle : fault.title? with
      | none =>
          obtain ⟨hcode, hstderr⟩ := execution_of_escaped verbose herror htitle
          simp only [htitle]
          refine ⟨congrArg String.join hstdout, ?_, hcode⟩
          rw [hstderr, join_logLines, hrecords]
      | some title =>
          obtain ⟨hcode, hstderr⟩ := execution_of_reported verbose herror htitle
          simp only [htitle]
          refine ⟨congrArg String.join hstdout, ?_, hcode⟩
          rw [hstderr, String.join_append, join_logLines, hrecords, join_singleton]
          simp only [String.append_assoc]

theorem Course.Realizes.clean {course : Course Unit} {report : Report}
    (h : course.Realizes [] report) (verbose : Bool) : (course.execution verbose).Clean verbose := by
  cases hresult : report.result with
  | ok text =>
      obtain ⟨hcode, hstderr⟩ := execution_of_ok verbose (h.ok text hresult).1
      refine ⟨fun hfailed => absurd hcode hfailed, ?_⟩
      rintro - rfl
      exact hstderr
  | error fault =>
      obtain ⟨herror, hlines⟩ := h.error fault hresult
      refine ⟨fun _ => (course.stdout_execution verbose).trans hlines, ?_⟩
      intro hzero
      cases htitle : fault.title? with
      | none =>
          rw [(execution_of_escaped verbose herror htitle).1] at hzero
          cases hzero
      | some title =>
          rw [(execution_of_reported verbose herror htitle).1] at hzero
          cases hzero

theorem Stop.shows (stop : Stop) : stop.execution.Shows stop.outcome := by
  cases stop with
  | help parser =>
      have hhelp : (help parser).execution.stdout = [parser.help] := rfl
      refine ⟨?_, rfl, rfl⟩
      rw [hhelp, join_singleton]
      rfl
  | usage parser fault =>
      have husage : (usage parser fault).execution.stderr =
          [parser.usage, parser.name ++ ": error: " ++ fault.message ++ "\n"] := rfl
      refine ⟨rfl, ?_, rfl⟩
      rw [husage, String.join_cons, join_singleton, outcome]
      simp only [String.append_assoc]

theorem Stop.clean (stop : Stop) (verbose : Bool) : stop.execution.Clean verbose := by
  cases stop with
  | help parser => exact ⟨fun h => absurd rfl h, fun _ _ => rfl⟩
  | usage parser fault => exact ⟨fun _ => rfl, nofun⟩

/-- Step by step a run writes what it comes to as a whole. If it does not end with code 0, nothing is
written to the standard output. If it does, nothing is written elsewhere unless records are asked
for. -/
theorem execute_spec (files : FileReader) (process : Twister) (arguments : List String) :
    (execute files process arguments).Shows (run files process arguments) ∧
    ((execute files process arguments).code ≠ .ok 0 →
      (execute files process arguments).stdout = []) ∧
    ((execute files process arguments).code = .ok 0 →
      (∀ command, parse arguments ≠ .ok ⟨true, command⟩) →
        (execute files process arguments).stderr = []) := by
  unfold execute run
  cases hparse : parse arguments with
  | error stop =>
      have hclean := stop.clean false
      exact ⟨stop.shows, hclean.stdout, fun hcode _ => hclean.stderr hcode rfl⟩
  | ok invocation =>
      obtain ⟨verbose, command⟩ := invocation
      have hrealizes := Course.realizes_course (writable_of_parse hparse) files process
      have hclean := hrealizes.clean verbose
      refine ⟨hrealizes.shows verbose, hclean.stdout, ?_⟩
      intro hcode hquiet
      cases verbose with
      | false => exact hclean.stderr hcode rfl
      | true => exact absurd rfl (hquiet command)

/-- That a separator is blank is found out when all levels are computed. Then no word is printed, though
the levels are recorded. -/
theorem execute_spec_algae :
    (execute algaeFile (Twister.ofSeed 7) (Invocation.arguments
      ⟨true, .expand "algae.json" .absent .absent .blank⟩)).stdout = [] ∧
    (execute algaeFile (Twister.ofSeed 7) (Command.validate "algae.json").arguments).code = .ok 0 ∧
    (execute algaeFile (Twister.ofSeed 7) (Command.validate "algae.json").arguments).stderr = [] := by
  have hsystem : System.ofGrammar (Config.mk .algae none 3).grammar = .ok .algae := by decide
  refine ⟨?blank, ?valid⟩
  case blank =>
    obtain ⟨hshows, hfailed, -⟩ := execute_spec algaeFile (Twister.ofSeed 7) (Invocation.arguments
      ⟨true, .expand "algae.json" .absent .absent .blank⟩)
    have hwritable : (Command.expand "algae.json" .absent .absent .blank).Writable :=
      ⟨trivial, trivial, by decide⟩
    apply hfailed
    rw [hshows.code, run_arguments hwritable, Invocation.run, Command.report,
      ofExpander_of_ok load_algaeFile hsystem (by decide)]
    intro hcode
    cases hcode
  case valid =>
    obtain ⟨hshows, -, hquiet⟩ := execute_spec algaeFile (Twister.ofSeed 7)
      (Command.validate "algae.json").arguments
    have hwritable : (Command.validate "algae.json").Writable := trivial
    obtain ⟨_, -, hrun⟩ := exists_run_validate load_algaeFile hsystem (Twister.ofSeed 7)
    have hcode := hshows.code
    rw [hrun] at hcode
    have hparse : parse (Command.validate "algae.json").arguments =
        .ok ⟨false, .validate "algae.json"⟩ := parse_arguments hwritable
    refine ⟨hcode, hquiet hcode ?_⟩
    rw [hparse]
    simp

end LSystem.CommandLine
