import LSystem.CommandLine.Report
import LSystem.Proofs.CommandLine.Classification

/-! # Arguments that ask for a command

Every command can be asked for: its flags are written first, each with its value, and then the path
after a divider, which keeps it from being read as a flag. The main parser knows none of the flags
of a command but hands them on as they were given. -/

namespace LSystem.CommandLine

/-! ## Writing -/

/-- The arguments that set a number. A blank is attached to the name, since a divider of its own
would end the flags. -/
def numberArguments (name : String) : Setting Int → List String
  | .absent => []
  | .blank => [name ++ "=" ++ dividerText]
  | .value n => [name, Text.decimal n]

/-- The arguments that set a text, which is attached to the name whatever it begins with. -/
def textArguments (name : String) : Setting String → List String
  | .absent => []
  | .blank => [name ++ "=" ++ dividerText]
  | .value s => [name ++ "=" ++ s]

namespace Command

def name : Command → CommandName
  | expand .. => .expand
  | levels .. => .levels
  | validate _ => .validate

/-- The arguments between the name of a command and its path. -/
def options : Command → List String
  | expand _ level seed separator =>
      numberArguments "--level" level ++ numberArguments "--seed" seed ++
        textArguments "--separator" separator
  | levels _ upto seed => numberArguments "--upto" upto ++ numberArguments "--seed" seed
  | validate _ => []

end Command

def Invocation.arguments (invocation : Invocation) : List String :=
  (if invocation.verbose then ["--verbose"] else []) ++
    (invocation.command.name.text :: invocation.command.options) ++
      [dividerText, invocation.command.path]

/-- The number is read back from its decimal text. -/
def Setting.Readable : Setting Int → Prop
  | .value n => Text.Readable n
  | .absent | .blank => True

/-- No number of the command is too long to be read, and its separator does not read as a blank. -/
def Command.Writable : Command → Prop
  | expand _ level seed separator =>
      level.Readable ∧ seed.Readable ∧ separator ≠ .value dividerText
  | levels _ upto seed => upto.Readable ∧ seed.Readable
  | validate _ => True

/-! ## Flags and their values -/

theorem contains_help_of_takesValue {flag : Flag} (h : flag.takesValue = true) :
    [flag].contains .help = false := by
  cases flag with
  | help | verbose => cases h
  | level | upto | seed | separator => rfl

theorem ofAttached_of_takesValue {flag : Flag} (h : flag.takesValue = true) (flags : List Flag)
    (short : Bool) (attached : List Char) :
    Cluster.ofAttached flags flag short attached =
      .ok ⟨[], flag, some (String.ofList attached)⟩ := by
  cases attached <;> rw [Cluster.ofAttached, if_pos h]

/-- The arguments lead a command's parser from some settings to others. -/
def Reads (name : CommandName) (texts : List String) (s s' : Settings) : Prop :=
  ∃ arguments, texts.mapM (classify (Parser.command name).flags) = .ok arguments ∧
    ∀ rest, readCommand name s (arguments ++ rest) = readCommand name s' rest

namespace Reads

variable {name : CommandName} {s s' s'' : Settings}

theorem nil : Reads name [] s s := ⟨[], rfl, fun _ => rfl⟩

theorem append {texts more : List String} (h : Reads name texts s s')
    (hmore : Reads name more s' s'') : Reads name (texts ++ more) s s'' := by
  obtain ⟨arguments, hclassify, hread⟩ := h
  obtain ⟨others, hothers, hreadOthers⟩ := hmore
  refine ⟨arguments ++ others, ?_, ?_⟩
  · rw [List.mapM_append, hclassify, hothers]
    rfl
  · intro rest
    rw [List.append_assoc, hread, hreadOthers]

section Flag

variable {flag : Flag} {option text : String} (htakes : flag.takesValue = true)
  (hlookup : (namesOf (Parser.command name).flags).lookup option = some flag)
  (hassign : s.assign name flag text = .ok s')
include htakes hlookup hassign

theorem attached : Reads name [option ++ "=" ++ text] s s' := by
  refine ⟨[.flag (option ++ "=" ++ text) ⟨flag, option, some text⟩], ?_, ?_⟩
  · rw [List.mapM_cons, classify_attached hlookup]
    rfl
  · intro rest
    have hhelp := contains_help_of_takesValue htakes
    rw [List.singleton_append, readCommand]
    simp only [FlagUse.cluster, ofAttached_of_takesValue htakes, Cluster.flags, List.nil_append,
      hhelp, Bool.false_eq_true, if_false, String.ofList_toList, hassign]

theorem separate
    (hoperand : classify (Parser.command name).flags text = .ok (.operand text)) :
    Reads name [option, text] s s' := by
  refine ⟨[.flag option ⟨flag, option, none⟩, .operand text], ?_, ?_⟩
  · rw [List.mapM_cons, List.mapM_cons, classify_name hlookup, hoperand]
    rfl
  · intro rest
    have hhelp := contains_help_of_takesValue htakes
    rw [List.cons_append, List.singleton_append, readCommand]
    simp only [FlagUse.cluster, Cluster.flags, List.nil_append, hhelp, Bool.false_eq_true,
      if_false, List.head?_cons, hassign, List.drop_succ_cons, List.drop_zero]

end Flag

/-- What a flag sets is a function of its setting, and without the flag nothing is set. -/
theorem number {option : String} (flag : Flag) (set : Setting Int → Settings)
    (htakes : flag.takesValue = true)
    (hlookup : (namesOf (Parser.command name).flags).lookup option = some flag)
    (hassign : ∀ text, (set .absent).assign name flag text = (intSetting name flag text).map set)
    {setting : Setting Int} (h : setting.Readable) :
    Reads name (numberArguments option setting) (set .absent) (set setting) := by
  cases setting with
  | absent => exact .nil
  | blank => exact .attached htakes hlookup (hassign dividerText)
  | value n =>
      refine .separate htakes hlookup ?_ (classify_decimal _ n)
      rw [hassign, intSetting, if_neg (decimal_ne_dividerText n), Text.integer?_decimal h]
      rfl

theorem text {option : String} (flag : Flag) (set : Setting String → Settings)
    (htakes : flag.takesValue = true)
    (hlookup : (namesOf (Parser.command name).flags).lookup option = some flag)
    (hassign : ∀ text, (set .absent).assign name flag text = .ok (set (textSetting text)))
    {setting : Setting String} (h : setting ≠ .value dividerText) :
    Reads name (textArguments option setting) (set .absent) (set setting) := by
  cases setting with
  | absent => exact .nil
  | blank => exact .attached htakes hlookup (hassign dividerText)
  | value s =>
      have hset : textSetting s = .value s := if_neg (fun heq => h (congrArg _ heq))
      have hread := hassign s
      rw [hset] at hread
      exact .attached htakes hlookup hread

end Reads

/-! ## The parser of a command -/

/-- What the parser of a command knows once it has read the flags. -/
def Command.settings : Command → Settings
  | expand _ level seed separator => { Settings.initial with level, seed, separator }
  | levels _ upto seed => { Settings.initial with upto, seed }
  | validate _ => .initial

theorem reads_options {command : Command} (h : command.Writable) :
    Reads command.name command.options .initial command.settings := by
  cases command with
  | expand path level seed separator =>
      obtain ⟨hlevel, hseed, hseparator⟩ := h
      have hreadLevel : Reads .expand (numberArguments "--level" level) .initial
          { Settings.initial with level } :=
        .number .level (fun level => { Settings.initial with level }) rfl rfl (fun _ => rfl) hlevel
      have hreadSeed : Reads .expand (numberArguments "--seed" seed)
          { Settings.initial with level } { Settings.initial with level, seed } :=
        .number .seed (fun seed => { Settings.initial with level, seed }) rfl rfl (fun _ => rfl)
          hseed
      have hreadSeparator : Reads .expand (textArguments "--separator" separator)
          { Settings.initial with level, seed }
          { Settings.initial with level, seed, separator } :=
        .text .separator (fun separator => { Settings.initial with level, seed, separator })
          rfl rfl (fun _ => rfl) hseparator
      exact (hreadLevel.append hreadSeed).append hreadSeparator
  | levels path upto seed =>
      obtain ⟨hupto, hseed⟩ := h
      have hreadUpto : Reads .levels (numberArguments "--upto" upto) .initial
          { Settings.initial with upto } :=
        .number .upto (fun upto => { Settings.initial with upto }) rfl rfl (fun _ => rfl) hupto
      have hreadSeed : Reads .levels (numberArguments "--seed" seed)
          { Settings.initial with upto } { Settings.initial with upto, seed } :=
        .number .seed (fun seed => { Settings.initial with upto, seed }) rfl rfl (fun _ => rfl)
          hseed
      exact hreadUpto.append hreadSeed
  | validate path => exact .nil

theorem path_settings (command : Command) : command.settings.path = none := by
  cases command <;> rfl

theorem readCommand_path {name : CommandName} {s : Settings} (h : s.path = none) (path : String) :
    readCommand name s [.divider, .operand path] = .ok { s with path := some path } := by
  rw [readCommand, h]
  simp only [List.head?_cons, List.drop_succ_cons, List.drop_zero, Argument.text]
  rw [readCommand]

theorem parseCommand_options {command : Command} (h : command.Writable)
    (hplain : dividerText ∉ command.options) :
    parseCommand command.name (command.options ++ [dividerText, command.path]) =
      .ok (command, []) := by
  obtain ⟨arguments, hclassify, hread⟩ := reads_options h
  rw [parseCommand, classifyAll_divided hplain hclassify]
  simp only [hread, List.map_cons, List.map_nil, readCommand_path (path_settings command)]
  cases command <;> rfl

/-! ## The main parser -/

/-- The main parser reads the argument as such and does not take it for several flags. -/
def Passes (text : String) : Prop :=
  text ≠ dividerText ∧ ∃ argument, classify Parser.main.flags text = .ok argument

theorem passes_decimal (n : Int) : Passes (Text.decimal n) :=
  ⟨decimal_ne_dividerText n, _, classify_decimal _ n⟩

/-- The names of the flags with a value. -/
def optionNames : List String := ["--level", "--upto", "--seed", "--separator"]

/-- The main parser hands on a flag of a command, alone or with a value attached. -/
theorem passes_option {option : String} (h : option ∈ optionNames) :
    Passes option ∧ ∀ value, Passes (option ++ "=" ++ value) := by
  have hoption : ['-', '-'] <+: option.toList ∧ '=' ∉ option.toList ∧ option ≠ dividerText ∧
      candidates Parser.main.flags option = [] ∧
      ∀ named ∈ namesOf Parser.main.flags, ¬ option.toList <+: named.1.toList := by
    revert option
    decide
  obtain ⟨hdashes, hequals, hne, hcandidates, hforeign⟩ := hoption
  refine ⟨⟨hne, exists_classify hcandidates⟩, ?_⟩
  intro value
  refine ⟨?_, exists_classify (candidates_attached hdashes hequals hforeign value)⟩
  intro hdivider
  have hmem : '=' ∈ (option ++ "=" ++ value).toList := by simp
  rw [hdivider] at hmem
  exact absurd hmem (by decide)

theorem passes_numberArguments {option : String} (h : option ∈ optionNames)
    (setting : Setting Int) : ∀ text ∈ numberArguments option setting, Passes text := by
  cases setting with
  | absent => exact fun _ htext => absurd htext List.not_mem_nil
  | blank => exact List.forall_mem_singleton.mpr ((passes_option h).2 dividerText)
  | value n =>
      exact List.forall_mem_cons.mpr
        ⟨(passes_option h).1, List.forall_mem_singleton.mpr (passes_decimal n)⟩

theorem passes_textArguments {option : String} (h : option ∈ optionNames)
    (setting : Setting String) : ∀ text ∈ textArguments option setting, Passes text := by
  cases setting with
  | absent => exact fun _ htext => absurd htext List.not_mem_nil
  | blank => exact List.forall_mem_singleton.mpr ((passes_option h).2 dividerText)
  | value s => exact List.forall_mem_singleton.mpr ((passes_option h).2 s)

theorem passes_options (command : Command) : ∀ text ∈ command.options, Passes text := by
  cases command with
  | expand path level seed separator =>
      refine List.forall_mem_append.mpr ⟨List.forall_mem_append.mpr ⟨?_, ?_⟩, ?_⟩
      · exact passes_numberArguments (by decide) level
      · exact passes_numberArguments (by decide) seed
      · exact passes_textArguments (by decide) separator
  | levels path upto seed =>
      refine List.forall_mem_append.mpr ⟨?_, ?_⟩
      · exact passes_numberArguments (by decide) upto
      · exact passes_numberArguments (by decide) seed
  | validate path => exact fun _ htext => absurd htext List.not_mem_nil

/-- The main parser knows all arguments before the divider one by one, and none of those that a
command is given is changed. -/
theorem exists_mapM_classify {texts : List String} (h : ∀ text ∈ texts, Passes text) :
    ∃ arguments, texts.mapM (classify Parser.main.flags) = .ok arguments ∧
      arguments.map Argument.text = texts := by
  induction texts with
  | nil => exact ⟨[], rfl, rfl⟩
  | cons text texts ih =>
      obtain ⟨⟨-, argument, hargument⟩, htexts⟩ := List.forall_mem_cons.mp h
      obtain ⟨arguments, harguments, hmap⟩ := ih htexts
      refine ⟨argument :: arguments, ?_, ?_⟩
      · rw [List.mapM_cons, hargument, harguments]
        rfl
      · rw [List.map_cons, hmap, text_of_classify hargument]

theorem notMem_options (command : Command) : dividerText ∉ command.options :=
  fun hmem => (passes_options command _ hmem).1 rfl

theorem dispatch_options {command : Command} (h : command.Writable) (verbose : Bool) :
    dispatch verbose [] command.name.text (command.options ++ [dividerText, command.path]) =
      .ok ⟨verbose, command⟩ := by
  have hname : CommandName.ofText? command.name.text = some command.name := by
    cases command.name <;> decide
  simp only [dispatch, hname, parseCommand_options h (notMem_options command)]
  rfl

/-- The arguments before the divider, as the main parser knows them. -/
theorem mapM_classify_main {verbose : Bool} {command : Command} {arguments : List Argument}
    (h : command.options.mapM (classify Parser.main.flags) = .ok arguments) :
    ((if verbose then ["--verbose"] else []) ++ (command.name.text :: command.options)).mapM
        (classify Parser.main.flags) =
      .ok ((if verbose then [.flag "--verbose" ⟨.verbose, "--verbose", none⟩] else []) ++
        (.operand command.name.text :: arguments)) := by
  have hname : classify Parser.main.flags command.name.text =
      .ok (.operand command.name.text) := by
    cases command.name <;> rfl
  have hcommand : (command.name.text :: command.options).mapM (classify Parser.main.flags) =
      .ok (.operand command.name.text :: arguments) := by
    rw [List.mapM_cons, hname, h]
    rfl
  rw [List.mapM_append, hcommand]
  cases verbose <;> rfl

/-- Every command that can be written is read back from its arguments. -/
theorem parse_arguments {invocation : Invocation} (h : invocation.command.Writable) :
    parse invocation.arguments = .ok invocation := by
  obtain ⟨verbose, command⟩ := invocation
  obtain ⟨arguments, hclassify, htexts⟩ := exists_mapM_classify (passes_options command)
  have hplain : dividerText ∉
      (if verbose then ["--verbose"] else []) ++ (command.name.text :: command.options) := by
    have hname : dividerText ≠ command.name.text := by
      cases command.name <;> decide
    have hverbose : dividerText ≠ "--verbose" := by decide
    cases verbose <;> simp [hname, hverbose, notMem_options]
  have hrest : (arguments ++ [Argument.divider, .operand command.path]).map Argument.text =
      command.options ++ [dividerText, command.path] := by
    rw [List.map_append, htexts]
    rfl
  have hdispatch : readMain verbose [] (.operand command.name.text ::
      (arguments ++ [.divider, .operand command.path])) = .ok ⟨verbose, command⟩ := by
    rw [readMain, hrest, dispatch_options h]
  rw [parse, Invocation.arguments, classifyAll_divided hplain (mapM_classify_main hclassify)]
  cases verbose with
  | false => exact hdispatch
  | true => exact hdispatch

end LSystem.CommandLine
