import LSystem.CommandLine.Course
import LSystem.Proofs.CommandLine.Readability
import LSystem.Proofs.CommandLine.Reports

/-! # The course of a command

A command prints its first line when nothing can fail any more: what comes after are levels that are
natural numbers and numbers that are short enough to be written. So its course records what its report
says it records, and it prints all of the report or, if it fails, nothing. -/

namespace LSystem.CommandLine

def Event.record? : Event → Option LogRecord
  | recorded record => some record
  | printed _ => none

def Event.line? : Event → Option String
  | recorded _ => none
  | printed line => some line

theorem join_singleton (text : String) : String.join [text] = text := by
  rw [String.join_cons, String.join_nil, String.append_empty]

/-- The records of the levels of an expander. -/
def grownLog (expander : Expander Twister) : List LogRecord := expander.growthLog.map .grown

namespace Course

def records (course : Course α) : List LogRecord := course.events.filterMap Event.record?

def lines (course : Course α) : List String := course.events.filterMap Event.line?

theorem bind_of_ok {course : Course α} {value : α} (h : course.result = .ok value)
    (next : α → Course β) :
    course >>= next = ⟨course.events ++ (next value).events, (next value).result⟩ := by
  simp only [bind, h]

theorem bind_of_error {course : Course α} {fault : Failure} (h : course.result = .error fault)
    (next : α → Course β) : course >>= next = ⟨course.events, .error fault⟩ := by
  simp only [bind, h]

theorem bind_assoc (course : Course α) (next : α → Course β) (last : β → Course γ) :
    course >>= next >>= last = course >>= fun value => next value >>= last := by
  cases hresult : course.result with
  | error fault => rw [bind_of_error hresult, bind_of_error hresult, bind_of_error rfl]
  | ok value =>
      rw [bind_of_ok hresult, bind_of_ok hresult]
      cases hnext : (next value).result with
      | error fault => rw [bind_of_error hnext, bind_of_error rfl]
      | ok last => rw [bind_of_ok hnext, bind_of_ok rfl, List.append_assoc]

theorem records_bind {course : Course α} {value : α} (h : course.result = .ok value)
    (next : α → Course β) :
    (course >>= next).records = course.records ++ (next value).records := by
  rw [bind_of_ok h, records, List.filterMap_append]
  rfl

theorem lines_bind {course : Course α} {value : α} (h : course.result = .ok value)
    (next : α → Course β) : (course >>= next).lines = course.lines ++ (next value).lines := by
  rw [bind_of_ok h, lines, List.filterMap_append]
  rfl

/-- What was printed before a failure stays printed. -/
example (line : String) (fault : Failure) :
    (print line >>= fun _ => fail fault : Course Unit).lines = [line] := rfl

/-! ## Courses that come to their end -/

/-- After the records that were made before, the course leaves the given ones. It prints these lines and
results in this value. -/
structure Yields (course : Course α) (value : α) (before after : List LogRecord)
    (lines : List String) : Prop where
  result : course.result = .ok value
  records : before ++ course.records = after
  lines : course.lines = lines

theorem Yields.bind {course : Course α} {next : α → Course β} {value : α} {last : β}
    {before between after : List LogRecord} {lines more : List String}
    (h : course.Yields value before between lines) (hnext : (next value).Yields last between after more) :
    (course >>= next).Yields last before after (lines ++ more) := by
  refine ⟨?_, ?_, ?_⟩
  · rw [bind_of_ok h.result, hnext.result]
  · rw [records_bind h.result, ← List.append_assoc, h.records, hnext.records]
  · rw [lines_bind h.result, h.lines, hnext.lines]

theorem Yields.after {course : Course α} {value : α} {records : List LogRecord}
    {lines : List String} (h : course.Yields value [] records lines) (before : List LogRecord) :
    course.Yields value before (before ++ records) lines :=
  ⟨h.result, congrArg (before ++ ·) h.records, h.lines⟩

theorem yields_pure (value : α) (before : List LogRecord) :
    (pure value : Course α).Yields value before before [] :=
  ⟨rfl, List.append_nil before, rfl⟩

theorem yields_print (line : String) (before : List LogRecord) :
    (print line).Yields () before before [line] :=
  ⟨rfl, List.append_nil before, rfl⟩

theorem yields_record (records before : List LogRecord) :
    (record records).Yields () before (before ++ records) [] := by
  refine ⟨rfl, ?_, ?_⟩
  · simp [Course.records, record, List.filterMap_map, Function.comp_def, Event.record?]
  · simp [Course.lines, record, Event.line?]

theorem yields_write {n : Int} (h : Text.Readable n) (before : List LogRecord) :
    (write n).Yields (Text.decimal n) before before [] := by
  rw [write, if_pos h]
  exact yields_pure _ before

theorem grownLog_grow (expander : Expander Twister) :
    grownLog expander.grow = grownLog expander ++
      [.grown ⟨expander.grow.older.size, expander.grow.newest.length, expander.grow.draws⟩] := by
  simp [grownLog, Expander.growthLog, Expander.grow, Expander.draws]

theorem yields_grow (n : Nat) (expander : Expander Twister) :
    (grow n expander).Yields (Expander.growBy n expander) (grownLog expander)
      (grownLog (Expander.growBy n expander)) [] := by
  induction n generalizing expander with
  | zero => exact yields_pure expander _
  | succ n ih =>
      have hrecord := yields_record
        [.grown ⟨expander.grow.older.size, expander.grow.newest.length, expander.grow.draws⟩]
        (grownLog expander)
      rw [← grownLog_grow] at hrecord
      exact hrecord.bind (ih expander.grow)

/-- A natural number is never refused as a level. -/
theorem yields_request (expander : Expander Twister) (n : Nat) :
    (request expander (.int n)).Yields (n, expander.level n) (grownLog expander)
      (grownLog (expander.level n).2) [] :=
  (yields_grow (n + 1 - expander.cached) expander).bind (yields_pure _ _)

/-! ## Lines of the levels -/

theorem yields_printLevel (expander : Expander Twister) {n : Nat} (hn : Text.Readable n) :
    (printLevel expander n).Yields (expander.level n).2 (grownLog expander)
      (grownLog (expander.level n).2)
      [Text.decimal n ++ ": " ++ Text.decimal (expander.level n).1.length ++ "\n"] :=
  (yields_write hn _).bind <| (yields_request expander n).bind <|
    (yields_print _ _).bind (yields_pure _ _)

/-- The lines that are printed one by one are those that the report adds to its text. -/
theorem exists_yields_levels {ns : List Nat} (h : ∀ n ∈ ns, Text.Readable n) (text : String)
    (expander : Expander Twister) :
    ∃ lines, (ns.foldl levelLine (text, expander)).1 = text ++ String.join lines ∧
      (ns.foldlM printLevel expander).Yields (ns.foldl levelLine (text, expander)).2
        (grownLog expander) (grownLog (ns.foldl levelLine (text, expander)).2) lines := by
  induction ns generalizing text expander with
  | nil => exact ⟨[], by simp, yields_pure expander _⟩
  | cons n ns ih =>
      obtain ⟨hn, hns⟩ := List.forall_mem_cons.mp h
      obtain ⟨lines, htext, hyields⟩ := ih hns (levelLine (text, expander) n).1
        (levelLine (text, expander) n).2
      refine ⟨_, ?_, (yields_printLevel expander hn).bind hyields⟩
      rw [List.foldl_cons, htext, List.singleton_append, String.join_cons]
      simp only [levelLine, String.append_assoc]

/-! ## Validation -/

theorem yields_advance (n : Nat) (probe : Probe) :
    (advance n probe).Yields (Probe.advance n probe) (grownLog probe.expander)
      (grownLog (Probe.advance n probe).expander) [] := by
  induction n generalizing probe with
  | zero => exact yields_pure probe _
  | succ n ih =>
      obtain ⟨level, length, expander⟩ := probe
      rw [advance, Probe.advance]
      split
      · exact (yields_request expander (level + 1)).bind (ih _)
      · exact yields_pure _ _

theorem level_advance_le (n : Nat) (probe : Probe) :
    (Probe.advance n probe).level ≤ probe.level + n := by
  induction n generalizing probe with
  | zero => exact Nat.le_refl _
  | succ n ih =>
      obtain ⟨level, length, expander⟩ := probe
      rw [Probe.advance]
      split
      · have hle := ih ⟨level + 1, (expander.level (level + 1)).1.length,
          (expander.level (level + 1)).2⟩
        simp only at hle ⊢
        omega
      · simp

/-- The lines of what is known before anything is expanded. -/
def summaryLines (config : Config) (system : System) : List String :=
  ["name: " ++ config.grammar.name ++ "\n",
    "axiom length: " ++ Text.decimal config.grammar.start.length ++ "\n",
    "rules: " ++ Text.decimal config.grammar.rules.size ++ "\n",
    "context rules: " ++ Text.decimal system.index.rules.length ++ "\n",
    "mode: " ++ system.mode.text ++ "\n"]

/-- The lines of the level at which validation stops, with a warning if this is too early. -/
def stopLines (top : Nat) (probe : Probe) : List String :=
  ("symbols at level " ++ Text.decimal probe.level ++ ": " ++ Text.decimal probe.length ++ "\n") ::
    if probe.level < top then
      ["warning: level " ++ Text.decimal probe.level ++ " already exceeds " ++
        Text.decimal symbolLimit ++ " symbols; level " ++ Text.decimal top ++
        " was not expanded\n"]
    else []

theorem join_summaryLines (config : Config) (system : System) :
    String.join (summaryLines config system) = summary config system := by
  -- Unfolded and not rewritten: the equation of a definition with long texts is slow to prove.
  unfold summaryLines summary
  simp only [String.join_cons, String.join_nil, String.append_empty, String.append_assoc]

/-- The text of the level at which validation stops. -/
def probeLines (top : Nat) (probe : Probe) : String :=
  "symbols at level " ++ Text.decimal probe.level ++ ": " ++ Text.decimal probe.length ++ "\n" ++
    warning probe.level top

theorem join_stopLines (top : Nat) (probe : Probe) :
    String.join (stopLines top probe) = probeLines top probe := by
  unfold stopLines probeLines warning
  split
  all_goals simp only [String.join_cons, String.join_nil, String.append_empty, String.append_assoc]

theorem yields_printSummary (config : Config) (system : System) (before : List LogRecord) :
    (printSummary config.grammar system).Yields () before before (summaryLines config system) :=
  (yields_print _ _).bind <| (yields_print _ _).bind <| (yields_print _ _).bind <|
    (yields_print _ _).bind (yields_print _ _)

theorem yields_printProbe {top : Nat} (htop : Text.Readable top) {probe : Probe}
    (hlevel : probe.level ≤ top) (before : List LogRecord) :
    (printProbe top probe).Yields () before before (stopLines top probe) := by
  have hwrite := yields_write (htop.mono hlevel) before
  unfold stopLines printProbe
  by_cases hbelow : probe.level < top
  · simp only [if_pos hbelow]
    exact hwrite.bind <| (yields_print _ _).bind <| hwrite.bind <|
      (yields_write htop _).bind (yields_print _ _)
  · simp only [if_neg hbelow]
    exact hwrite.bind <| (yields_print _ _).bind (yields_pure () _)

/-- Validation prints its lines, wherever it stops. -/
theorem yields_validate {config : Config} {made : SeededExpander}
    (hfresh : grownLog made.expander = []) (hlevel : Text.Readable config.level) {last : Probe}
    (hlast : Probe.advance config.level ⟨0, config.grammar.start.length, made.expander⟩ = last) :
    (validate config made).Yields () [] (grownLog last.expander)
      (summaryLines config made.expander.system ++ stopLines config.level last) := by
  have hadvance := yields_advance config.level ⟨0, config.grammar.start.length, made.expander⟩
  have hreached := level_advance_le config.level ⟨0, config.grammar.start.length, made.expander⟩
  rw [hlast, hfresh] at hadvance
  rw [hlast, Nat.zero_add] at hreached
  exact (yields_printSummary config made.expander.system []).bind <|
    hadvance.bind (yields_printProbe hlevel hreached _)

/-! ## Courses and reports -/

/-- After the records that were made before, the course leaves those of the report. It prints the whole
text of the report or, where the report is that of a failure, nothing. -/
structure Realizes (course : Course Unit) (before : List LogRecord) (report : Report) : Prop where
  records : before ++ course.records = report.log
  ok : ∀ text, report.result = .ok text →
    course.result = .ok () ∧ String.join course.lines = text
  error : ∀ fault, report.result = .error fault →
    course.result = .error fault ∧ course.lines = []

theorem Yields.realizes {course : Course Unit} {before : List LogRecord}
    {expander : Expander Twister} {lines : List String}
    (h : course.Yields () before (grownLog expander) lines) {text : String}
    (htext : String.join lines = text) :
    course.Realizes before (.ofResult (.ok text) expander) := by
  refine ⟨h.records, ?_, nofun⟩
  rintro _ ⟨⟩
  exact ⟨h.result, h.lines ▸ htext⟩

theorem realizes_fail (fault : Failure) (before : List LogRecord) :
    (fail fault).Realizes before ⟨before, .error fault⟩ := by
  refine ⟨List.append_nil before, nofun, ?_⟩
  rintro _ ⟨⟩
  exact ⟨rfl, rfl⟩

/-- As long as nothing is printed, what comes next may still fail. -/
theorem Yields.realizes_bind {course : Course α} {value : α} {next : α → Course Unit}
    {before between : List LogRecord} {report : Report}
    (h : course.Yields value before between []) (hnext : (next value).Realizes between report) :
    (course >>= next).Realizes before report := by
  have hlines : (course >>= next).lines = (next value).lines := by
    rw [lines_bind h.result, h.lines, List.nil_append]
  have hresult : (course >>= next).result = (next value).result := by
    rw [bind_of_ok h.result]
  refine ⟨?_, ?_, ?_⟩
  · rw [records_bind h.result, ← List.append_assoc, h.records, hnext.records]
  · rw [hlines, hresult]
    exact hnext.ok
  · rw [hlines, hresult]
    exact hnext.error

theorem Realizes.after {course : Course Unit} {report : Report} (h : course.Realizes [] report)
    (before : List LogRecord) :
    course.Realizes before ⟨before ++ report.log, report.result⟩ :=
  ⟨congrArg (before ++ ·) h.records, h.ok, h.error⟩

/-- The course of a request that fails, or of what is done with the level. -/
theorem realizes_request {made : SeededExpander} {level : Json}
    {next : Nat × Word × Expander Twister → Course Unit}
    {report : Nat → Word → Expander Twister → Report} (hfresh : grownLog made.expander = [])
    (h : ∀ n : Nat, level = .int n → (next (n, made.expander.level n)).Realizes
      (grownLog (made.expander.level n).2)
      (report n (made.expander.level n).1 (made.expander.level n).2)) :
    (request made.expander level >>= next).Realizes [] (.ofLevel made level report) := by
  cases level with
  | int n =>
      cases n with
      | ofNat n =>
          have hrequest := yields_request made.expander n
          rw [hfresh] at hrequest
          exact hrequest.realizes_bind (h n rfl)
      | negSucc n => exact realizes_fail _ []
  | null | bool | float | string | array | object => exact realizes_fail _ []

/-- A configuration whose index can be built is loaded without a line. -/
theorem yields_load {files : FileReader} {path : String} {config : Config} {system : System}
    {seed : Setting Int} (hload : Config.load files path = .ok config)
    (hsystem : System.ofGrammar config.grammar = .ok system) (hseed : seed ≠ .blank)
    (process : Twister) :
    (load files process path seed).Yields
      (config, .fresh system ((seed.seed config).getD process.drawnSeed)) []
      config.grammar.indexLog [] := by
  have hconfig : (ofExcept ((Config.load files path).mapError .load)).Yields config [] [] [] := by
    rw [hload]
    exact yields_pure config []
  have hmade : (ofExcept
      ((SeededExpander.create config.grammar (seed.seed config) process).1.mapError .overlong)).Yields
        (.fresh system ((seed.seed config).getD process.drawnSeed)) config.grammar.indexLog
        config.grammar.indexLog [] := by
    rw [SeededExpander.create_of_ok hsystem]
    exact yields_pure _ _
  refine hconfig.bind <| (yields_record config.grammar.indexLog []).bind <| hmade.bind ?_
  rw [if_neg hseed]
  exact yields_pure _ _

/-- The course of a command that fails before it is at work, or of its work. -/
theorem realizes_load {files : FileReader} {process : Twister} {path : String}
    {seed : Setting Int} {next : Config × SeededExpander → Course Unit}
    {report : Config → SeededExpander → Report}
    (h : ∀ config system, Config.load files path = .ok config →
      (next (config, .fresh system ((seed.seed config).getD process.drawnSeed))).Realizes []
        (report config (.fresh system ((seed.seed config).getD process.drawnSeed)))) :
    (load files process path seed >>= next).Realizes []
      (.ofExpander files process path seed report) := by
  unfold load Report.ofExpander
  cases hload : Config.load files path with
  | error fault => exact realizes_fail _ []
  | ok config =>
      -- The records of the index are made before its fault, if it has one, ends the course.
      change ((record config.grammar.indexLog >>= fun _ => _) >>= next).Realizes [] _
      rw [bind_assoc]
      refine (yields_record config.grammar.indexLog []).realizes_bind ?_
      cases hsystem : System.ofGrammar config.grammar with
      | error offset =>
          simp only [SeededExpander.create_of_error hsystem]
          exact realizes_fail _ _
      | ok system =>
          simp only [SeededExpander.create_of_ok hsystem]
          by_cases hblank : seed = .blank
          · simp only [if_pos hblank]
            exact realizes_fail _ _
          · simp only [if_neg hblank]
            exact (h config system hload).after config.grammar.indexLog

/-! ## Commands -/

section Made

variable {config : Config} {made : SeededExpander} (hfresh : grownLog made.expander = [])
include hfresh

theorem realizes_expand (level : Setting Int) (separator : Setting String) :
    (expand level separator config made).Realizes [] (expandReport level separator config made) := by
  refine realizes_request hfresh ?_
  intro n _
  cases hseparator : separator.separator with
  | error fault => exact realizes_fail fault _
  | ok gap => exact (yields_print _ _).realizes (join_singleton _)

theorem realizes_levels {upto : Setting Int}
    (hupto : ∀ n, upto.level config = .int n → Text.Readable n) (hseed : Text.Readable made.seed) :
    (levels upto config made).Realizes [] (levelsReport upto config made) := by
  refine realizes_request hfresh ?_
  intro top htop
  have hnumbers : ∀ n ∈ List.range (top + 1), Text.Readable n := by
    intro n hn
    exact (hupto top htop).mono (Nat.le_of_lt_succ (List.mem_range.mp hn))
  obtain ⟨lines, htext, hlines⟩ :=
    exists_yields_levels hnumbers "" (made.expander.level top).2
  have hlast : ∀ before draws,
      (write made.seed >>= fun seed =>
        print ("seed: " ++ seed ++ " draws: " ++ Text.decimal draws ++ "\n")).Yields () before before
          ["seed: " ++ Text.decimal made.seed ++ " draws: " ++ Text.decimal draws ++ "\n"] :=
    fun before _ => (yields_write hseed before).bind (yields_print _ before)
  refine (hlines.bind (hlast _ _)).realizes ?_
  rw [htext]
  simp only [String.empty_append, String.join_append, String.join_cons, String.join_nil,
    String.append_empty, String.append_assoc]

theorem realizes_validate (hlevel : Text.Readable config.level) :
    (validate config made).Realizes [] (validateReport config made) := by
  refine (yields_validate hfresh hlevel rfl).realizes ?_
  rw [String.join_append, join_summaryLines, join_stopLines]
  unfold summary probeLines warning
  simp only [String.append_assoc]

end Made

theorem realizes_course {command : Command} (h : command.Writable) (files : FileReader)
    (process : Twister) :
    (command.course files process).Realizes [] (command.report files process) := by
  cases command with
  | expand path level seed separator =>
      refine realizes_load ?_
      intro config system _
      exact realizes_expand rfl level separator
  | levels path upto seed =>
      refine realizes_load ?_
      intro config system hload
      have hconfig := Config.readable_of_load hload
      exact realizes_levels rfl (fun _ => Setting.readable_level hconfig h.1)
        (Setting.readable_seed hconfig h.2 process)
  | validate path =>
      refine realizes_load ?_
      intro config system hload
      exact realizes_validate rfl (Config.readable_of_load hload).level

end Course

end LSystem.CommandLine
