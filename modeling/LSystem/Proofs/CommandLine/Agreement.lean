import LSystem.Proofs.CommandLine.Arguments
import LSystem.Proofs.CommandLine.Reports
import LSystem.Proofs.Config.Fields

/-! # The commands agree

What one command prints about a level is what any other prints about it, and a level or a seed may
be given as an option or stand in the configuration. -/

namespace LSystem.CommandLine

/-- The outcome of a command that prints a text and nothing else. -/
def Outcome.printed (text : String) : Outcome := ⟨text, "", .exit 0⟩

/-- The arguments that ask for a command and for no records. -/
def Command.arguments (command : Command) : List String := Invocation.arguments ⟨false, command⟩

theorem run_arguments {invocation : Invocation} (h : invocation.command.Writable)
    (files : FileReader) (process : Twister) :
    run files process invocation.arguments = invocation.run files process := by
  rw [run, parse_arguments h]

/-- Commands with the same report have the same outcome, with records and without. -/
theorem run_eq_of_report_eq {files files' : FileReader} {process process' : Twister}
    {command command' : Command} (h : command.Writable) (h' : command'.Writable)
    (hreport : command.report files process = command'.report files' process') (verbose : Bool) :
    run files process (Invocation.arguments ⟨verbose, command⟩) =
      run files' process' (Invocation.arguments ⟨verbose, command'⟩) := by
  rw [run_arguments h, run_arguments h', Invocation.run, Invocation.run, hreport]

/-- What the commands print for one configuration, whatever else they are asked for. -/
structure CommandsAgree (files : FileReader) (process : Twister) (path : String) (config : Config)
    (system : System) : Prop where
  /-- A level is printed token by token. -/
  expand : ∀ (seed : Int) (top n : Nat), Text.Readable seed → Text.Readable top → n ≤ top →
    run files process (Command.expand path (.value n) (.value seed) .absent).arguments =
      .printed (" ".intercalate (system.levelWord seed n) ++ "\n")
  /-- The lengths of these words are printed for all levels, and then the number of places below the
  highest one at which something was drawn. -/
  levels : ∀ (seed : Int) (top : Nat), Text.Readable seed → Text.Readable top →
    run files process (Command.levels path (.value top) (.value seed)).arguments =
      .printed (String.join (levelLines system seed top) ++ seedLine system seed top)
  /-- Lines are only added when further levels are asked for. -/
  growing : ∀ (seed : Int) (m n : Nat), m ≤ n →
    levelLines system seed m <+: levelLines system seed n
  /-- Options do what the fields of their names do, for every way to print and to record. -/
  fields : ∀ (seed : Int) (n : Nat), Text.Readable seed → Text.Readable n →
    ∀ members members' files' path', Config.Sets members members' n seed →
    Config.loadJson files path = .ok (.object members) →
    Config.loadJson files' path' = .ok (.object members') →
    ∀ verbose process',
      (∀ separator, separator ≠ .value dividerText →
        run files process
            (Invocation.arguments ⟨verbose, .expand path (.value n) (.value seed) separator⟩) =
          run files' process'
            (Invocation.arguments ⟨verbose, .expand path' .absent .absent separator⟩)) ∧
      run files process
          (Invocation.arguments ⟨verbose, .levels path (.value n) (.value seed)⟩) =
        run files' process' (Invocation.arguments ⟨verbose, .levels path' .absent .absent⟩)
  /-- Validation prints the length of the word of the level it stops at, under the seed of the
  configuration or, if it has none, one that is taken. -/
  validate : ∃ n, StopsAt system (config.seed.getD process.drawnSeed) config.level n ∧
    run files process (Command.validate path).arguments =
      .printed (summary config system ++
        sizeLine system (config.seed.getD process.drawnSeed) n ++ warning n config.level)
  /-- A seed that was taken is printed, and when it is given everything is as before. -/
  repeatable : config.seed = none → ∀ (upto : Setting Int) (top : Nat),
    upto.level config = .int top → upto.Readable →
    ∃ seed, run files process (Command.levels path upto .absent).arguments =
        .printed (String.join (levelLines system seed top) ++ seedLine system seed top) ∧
      ∀ verbose process',
        run files process' (Invocation.arguments ⟨verbose, .levels path upto (.value seed)⟩) =
          run files process (Invocation.arguments ⟨verbose, .levels path upto .absent⟩)

section Loaded

variable {files : FileReader} {path : String} {config : Config} {system : System}
  (hload : Config.load files path = .ok config)
  (hsystem : System.ofGrammar config.grammar = .ok system)
include hload hsystem

theorem run_expand (level seed : Setting Int) {n : Nat} (hlevel : level.level config = .int n)
    (hseed : seed ≠ .blank) (hreadLevel : level.Readable) (hreadSeed : seed.Readable)
    (process : Twister) :
    run files process (Command.expand path level seed .absent).arguments =
      .printed (" ".intercalate
        (system.levelWord ((seed.seed config).getD process.drawnSeed) n) ++ "\n") := by
  have hwritable : (Command.expand path level seed .absent).Writable :=
    ⟨hreadLevel, hreadSeed, by simp⟩
  rw [Command.arguments, run_arguments hwritable, Invocation.run, Command.report,
    ofExpander_of_ok hload hsystem hseed, expandReport_fresh hlevel]
  rfl

theorem run_levels (upto seed : Setting Int) {top : Nat} (hupto : upto.level config = .int top)
    (hseed : seed ≠ .blank) (hreadUpto : upto.Readable) (hreadSeed : seed.Readable)
    (process : Twister) :
    run files process (Command.levels path upto seed).arguments =
      .printed
        (String.join (levelLines system ((seed.seed config).getD process.drawnSeed) top) ++
          seedLine system ((seed.seed config).getD process.drawnSeed) top) := by
  have hwritable : (Command.levels path upto seed).Writable := ⟨hreadUpto, hreadSeed⟩
  rw [Command.arguments, run_arguments hwritable, Invocation.run, Command.report,
    ofExpander_of_ok hload hsystem hseed, levelsReport_fresh hupto]
  rfl

theorem exists_run_validate (process : Twister) :
    ∃ n, StopsAt system (config.seed.getD process.drawnSeed) config.level n ∧
      run files process (Command.validate path).arguments =
        .printed (summary config system ++
          sizeLine system (config.seed.getD process.drawnSeed) n ++ warning n config.level) := by
  obtain ⟨n, hstops, hreport⟩ :=
    exists_validateReport hsystem (config.seed.getD process.drawnSeed)
  refine ⟨n, hstops, ?_⟩
  have hwritable : (Command.validate path).Writable := trivial
  have hseed : Setting.seed config .absent = config.seed := rfl
  rw [Command.arguments, run_arguments hwritable, Invocation.run, Command.report,
    ofExpander_of_ok hload hsystem (by simp), hseed, hreport]
  rfl

/-- A seed that is given makes the same report as one that stands in the configuration. -/
theorem ofExpander_fields {files' : FileReader} {path' : String} {seed : Int} {level : Nat}
    (hload' : Config.load files' path' = .ok { config with seed := some seed, level })
    {report report' : Config → SeededExpander → Report}
    (h : ∀ made, report config made = report' { config with seed := some seed, level } made)
    (process process' : Twister) :
    Report.ofExpander files process path (.value seed) report =
      Report.ofExpander files' process' path' .absent report' := by
  rw [ofExpander_of_ok hload hsystem (by simp), ofExpander_of_ok hload' hsystem (by simp), h]
  rfl

/-- So does one that was taken because there was none. -/
theorem ofExpander_drawnSeed (hnone : config.seed = none)
    (report : Config → SeededExpander → Report) (process process' : Twister) :
    Report.ofExpander files process' path (.value process.drawnSeed) report =
      Report.ofExpander files process path .absent report := by
  have htaken : Setting.seed config .absent = none := hnone
  rw [ofExpander_of_ok hload hsystem (by simp), ofExpander_of_ok hload hsystem (by simp), htaken]
  rfl

end Loaded

theorem load_of_loadJson {files : FileReader} {path : String} {value : Json} {config : Config}
    (h : Config.loadJson files path = .ok value) :
    Config.load files path = .ok config ↔ Config.read value = .ok config := by
  simp only [Config.load, h]
  cases Config.read value <;> simp [Except.mapError]

theorem levelLines_prefix (system : System) (seed : Int) {m n : Nat} (h : m ≤ n) :
    levelLines system seed m <+: levelLines system seed n := by
  have hrange : List.range (m + 1) = (List.range (n + 1)).take (m + 1) := by
    rw [List.take_range, Nat.min_eq_left (Nat.succ_le_succ h)]
  rw [levelLines, levelLines, hrange, List.map_take]
  exact List.take_prefix _ _

/-- A configuration that can be loaded, and whose index can be built, has only one word for each
level and each seed, and every command is about these words. -/
theorem commands_agree {files : FileReader} {path : String} {config : Config} {system : System}
    (hload : Config.load files path = .ok config)
    (hsystem : System.ofGrammar config.grammar = .ok system) (process : Twister) :
    CommandsAgree files process path config system := by
  refine ⟨?expand, ?levels, ?growing, ?fields, ?validate, ?repeatable⟩
  case expand =>
    intro seed top n hseed htop hn
    exact run_expand hload hsystem (.value n) (.value seed) rfl (by simp) (htop.mono hn) hseed
      process
  case levels =>
    intro seed top hseed htop
    exact run_levels hload hsystem (.value top) (.value seed) rfl (by simp) htop hseed process
  case growing => exact fun seed m n h => levelLines_prefix system seed h
  case fields =>
    intro seed n hseed hn members members' files' path' hsets hjson hjson' verbose process'
    have hload' : Config.load files' path' = .ok { config with seed := some seed, level := n } :=
      (load_of_loadJson hjson').mpr
        (Config.read_of_sets hsets ((load_of_loadJson hjson).mp hload))
    refine ⟨?_, ?_⟩
    · intro separator hseparator
      have hgiven : (Command.expand path (.value n) (.value seed) separator).Writable :=
        ⟨hn, hseed, hseparator⟩
      have habsent : (Command.expand path' .absent .absent separator).Writable :=
        ⟨trivial, trivial, hseparator⟩
      exact run_eq_of_report_eq hgiven habsent
        (ofExpander_fields hload hsystem hload' (fun _ => rfl) process process') verbose
    · have hgiven : (Command.levels path (.value n) (.value seed)).Writable := ⟨hn, hseed⟩
      have habsent : (Command.levels path' .absent .absent).Writable := ⟨trivial, trivial⟩
      exact run_eq_of_report_eq hgiven habsent
        (ofExpander_fields hload hsystem hload' (fun _ => rfl) process process') verbose
  case validate => exact exists_run_validate hload hsystem process
  case repeatable =>
    intro hnone upto top hupto hreadable
    have htaken : (Setting.seed config .absent).getD process.drawnSeed = process.drawnSeed := by
      rw [Setting.seed, hnone, Option.getD_none]
    have hrun := run_levels hload hsystem upto .absent hupto (by simp) hreadable trivial process
    rw [htaken] at hrun
    refine ⟨process.drawnSeed, hrun, ?_⟩
    intro verbose process'
    have hgiven : (Command.levels path upto (.value process.drawnSeed)).Writable :=
      ⟨hreadable, process.readable_drawnSeed⟩
    have habsent : (Command.levels path upto .absent).Writable := ⟨hreadable, trivial⟩
    exact run_eq_of_report_eq hgiven habsent
      (ofExpander_drawnSeed hload hsystem hnone (levelsReport upto) process process') verbose

/-- The text of a configuration of algae, with a level and no seed. -/
def algaeText : String :=
  "\x7b\"name\": \"Algae\", \"axiom\": \"A\", \"level\": 3, " ++
    "\"rules\": \x7b\"A\": [\"A B\", \"B\"], \"B\": \"A\"\x7d\x7d"

def algaeFile : FileReader := fun _ => .ok (algaeText.toList.map (fun c => c.toNat.toUInt8))

theorem load_algaeFile : Config.load algaeFile "algae.json" = .ok ⟨.algae, none, 3⟩ := by
  have hsome : (Config.load algaeFile "algae.json").toOption = some ⟨.algae, none, 3⟩ := by
    decide +kernel
  cases hconfig : Config.load algaeFile "algae.json" with
  | error fault =>
      rw [hconfig] at hsome
      cases hsome
  | ok config =>
      rw [hconfig] at hsome
      exact congrArg Except.ok (Option.some.inj hsome)

theorem commands_agree_algae :
    Config.load algaeFile "algae.json" = .ok ⟨.algae, none, 3⟩ ∧
    System.ofGrammar .algae = .ok .algae ∧
    CommandsAgree algaeFile (Twister.ofSeed 7) "algae.json" ⟨.algae, none, 3⟩ .algae := by
  have hsystem : System.ofGrammar .algae = .ok .algae := by decide
  exact ⟨load_algaeFile, hsystem, commands_agree load_algaeFile hsystem _⟩

end LSystem.CommandLine
