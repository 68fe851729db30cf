import LSystem.Config.File
import LSystem.Proofs.CommandLine.Arguments
import LSystem.Proofs.CommandLine.Reports
import LSystem.Proofs.Config.Fields
import LSystem.Proofs.Json.ReadableIntegers

/-! # Numbers that a run is given

The numbers that a run may print come from its configuration and its arguments. Neither gives one that
is too long to be written. -/

namespace LSystem.Config

/-- Neither number of the configuration has more digits than are read. -/
structure Readable (config : Config) : Prop where
  seed : ∀ seed, config.seed = some seed → Text.Readable seed
  level : Text.Readable config.level

theorem readable_field {members : List (String × Json)} (h : Json.Readable (.object members))
    {default : Json} (hdefault : default.Readable) (name : String) :
    (field members name default).Readable := by
  rw [field]
  cases hvalue : Json.member? members name with
  | none => exact hdefault
  | some value => exact h.member? hvalue

theorem readable_of_readSeed {value : Json} (hvalue : value.Readable) {seed : Int}
    (h : readSeed value = .ok (some seed)) : Text.Readable seed := by
  cases hvalue with
  | null => cases h
  | int hn =>
      cases h
      exact hn
  | bool | float | string | array | object => cases h

theorem readable_of_readLevel {value : Json} (hvalue : value.Readable) {level : Nat}
    (h : readLevel value = .ok level) : Text.Readable level := by
  cases hvalue with
  | @int n hn =>
      cases n with
      | ofNat n =>
          cases h
          exact hn
      | negSucc n => cases h
  | null | bool | float | string | array | object => cases h

theorem readable_of_read {value : Json} (hvalue : value.Readable) {config : Config}
    (h : read value = .ok config) : config.Readable := by
  cases value with
  | object members =>
      have hfields := read_eq_ok_iff.mp h
      refine ⟨?_, ?_⟩
      · intro seed hseed
        have hread := hfields.seed
        rw [hseed] at hread
        exact readable_of_readSeed (readable_field hvalue .null _) hread
      · have hzero : Text.Readable 0 := by decide
        exact readable_of_readLevel (readable_field hvalue (.int hzero) _) hfields.level
  | null | bool | int | float | string | array => cases h

theorem readable_of_loadJson {files : FileReader} {path : String} {value : Json}
    (h : loadJson files path = .ok value) : value.Readable := by
  unfold loadJson at h
  split at h
  · cases h
  · split at h
    · cases h
    · split at h
      · cases h
      · split at h <;> cases h
        rename_i hread
        exact Json.readable_of_read hread

theorem readable_of_load {files : FileReader} {path : String} {config : Config}
    (h : load files path = .ok config) : config.Readable := by
  unfold load at h
  split at h
  · cases h
  · rename_i value hjson
    cases hread : read value with
    | error fault =>
        rw [hread] at h
        cases h
    | ok other =>
        rw [hread] at h
        cases h
        exact readable_of_read (readable_of_loadJson hjson) hread

end LSystem.Config

namespace LSystem.CommandLine

theorem Setting.readable_seed {config : Config} (hconfig : config.Readable) {setting : Setting Int}
    (h : setting.Readable) (process : Twister) :
    Text.Readable ((setting.seed config).getD process.drawnSeed) := by
  cases hseed : setting.seed config with
  | none => exact process.readable_drawnSeed
  | some seed =>
      cases setting with
      | value n =>
          cases hseed
          exact h
      | absent | blank => exact hconfig.seed seed hseed

theorem Setting.readable_level {config : Config} (hconfig : config.Readable) {setting : Setting Int}
    (h : setting.Readable) {n : Int} (hn : setting.level config = .int n) : Text.Readable n := by
  cases setting with
  | absent =>
      cases hn
      exact hconfig.level
  | blank => cases hn
  | value m =>
      cases hn
      exact h

/-- What was set can be given again. -/
structure Settings.Writable (s : Settings) : Prop where
  level : s.level.Readable
  upto : s.upto.Readable
  seed : s.seed.Readable
  separator : s.separator ≠ .value dividerText

section Command

variable {name : CommandName} {s s' : Settings}

theorem readable_of_intSetting {flag : Flag} {text : String} {setting : Setting Int}
    (h : intSetting name flag text = .ok setting) : setting.Readable := by
  unfold intSetting at h
  split at h
  · cases h
    trivial
  · split at h
    · rename_i hread
      cases h
      exact Text.readable_of_integer? hread
    · cases h

theorem textSetting_ne (text : String) : textSetting text ≠ .value dividerText := by
  unfold textSetting
  split
  · simp
  · rename_i hne
    simpa using hne

theorem writable_assign {flag : Flag} {text : String} (hs : s.Writable)
    (h : s.assign name flag text = .ok s') : s'.Writable := by
  have hnumber : ∀ set : Setting Int → Settings,
      (∀ setting, setting.Readable → (set setting).Writable) →
      (intSetting name flag text).map set = .ok s' → s'.Writable := by
    intro set hset hmap
    cases hread : intSetting name flag text with
    | error stop =>
        rw [hread] at hmap
        cases hmap
    | ok setting =>
        rw [hread] at hmap
        cases hmap
        exact hset setting (readable_of_intSetting hread)
  cases flag with
  | level => exact hnumber (fun level => { s with level }) (fun _ h => { hs with level := h }) h
  | upto => exact hnumber (fun upto => { s with upto }) (fun _ h => { hs with upto := h }) h
  | seed => exact hnumber (fun seed => { s with seed }) (fun _ h => { hs with seed := h }) h
  | separator =>
      cases h
      exact { hs with separator := textSetting_ne text }
  | help | verbose =>
      cases h
      exact hs

/-- What was set stays writable: the path and what is left over are no part of it, and every value is
read anew. -/
theorem writable_readCommand {arguments : List Argument} (hs : s.Writable)
    (h : readCommand name s arguments = .ok s') : s'.Writable := by
  fun_induction readCommand name s arguments with
  | case1 =>
      cases h
      exact hs
  | case2 | case3 | case4 | case5 | case6 =>
      rename_i ih
      exact ih ⟨hs.level, hs.upto, hs.seed, hs.separator⟩ h
  | case10 | case12 =>
      rename_i hassign ih
      exact ih (writable_assign hs hassign) h
  | case7 | case8 | case9 | case11 | case13 => cases h

theorem writable_parseCommand {texts more : List String} {command : Command}
    (h : parseCommand name texts = .ok (command, more)) : command.Writable := by
  have hinitial : Settings.initial.Writable := ⟨trivial, trivial, trivial, nofun⟩
  unfold parseCommand at h
  split at h
  · cases h
  · split at h
    · cases h
    · rename_i s hread
      have hs := writable_readCommand hinitial hread
      split at h
      · cases h
      · cases name with
        | expand =>
            cases h
            exact ⟨hs.level, hs.seed, hs.separator⟩
        | levels =>
            cases h
            exact ⟨hs.upto, hs.seed⟩
        | validate =>
            cases h
            trivial

end Command

theorem writable_dispatch {verbose : Bool} {extra texts : List String} {word : String}
    {invocation : Invocation} (h : dispatch verbose extra word texts = .ok invocation) :
    invocation.command.Writable := by
  unfold dispatch at h
  split at h
  · cases h
  · split at h
    · cases h
    · rename_i hparse
      split at h <;> cases h
      exact writable_parseCommand hparse

theorem writable_readMain {verbose : Bool} {extra : List String} {arguments : List Argument}
    {invocation : Invocation} (h : readMain verbose extra arguments = .ok invocation) :
    invocation.command.Writable := by
  fun_induction readMain verbose extra arguments with
  | case1 | case4 | case6 | case7 => cases h
  | case2 | case8 =>
      rename_i ih
      exact ih h
  | case3 | case5 => exact writable_dispatch h

/-- A command that was read can be written, and then is read again. -/
theorem writable_of_parse {arguments : List String} {invocation : Invocation}
    (h : parse arguments = .ok invocation) : invocation.command.Writable := by
  unfold parse at h
  split at h
  · cases h
  · exact writable_readMain h

end LSystem.CommandLine
