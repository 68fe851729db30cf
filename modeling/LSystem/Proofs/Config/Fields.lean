import LSystem.Config.Reader

/-! # Configurations field by field

A configuration is read if each of its fields is, whatever else the object holds and in whatever
order it holds it. -/

namespace LSystem.Config

theorem bind_eq_ok_iff {reading : Reading α} {next : α → Reading β} {b : β} :
    (reading >>= next) = .ok b ↔ ∃ a, reading = .ok a ∧ next a = .ok b := by
  cases reading with
  | error fault =>
      constructor
      · rintro ⟨⟩
      · rintro ⟨_, ⟨⟩, _⟩
  | ok a =>
      constructor
      · exact fun h => ⟨a, rfl, h⟩
      · rintro ⟨_, ⟨⟩, h⟩
        exact h

/-- What the fields of an object must be read as to make a configuration. -/
structure Fields (members : List (String × Json)) (config : Config) : Prop where
  name : readText (.field "name") (field members "name" (.string Grammar.defaultName)) =
    .ok config.grammar.name
  start : readWord (.field "axiom") (field members "axiom" (.string "")) = .ok config.grammar.start
  start_ne_nil : config.grammar.start ≠ []
  rules : readRules (field members "rules" (.object [])) = .ok config.grammar.rules
  contextRules :
    (readArray (.field "context_rules") (field members "context_rules" (.array [])) >>=
      readItems readContextRule (.field "context_rules")) = .ok config.grammar.contextRules
  seed : readSeed (field members "seed" .null) = .ok config.seed
  level : readLevel (field members "level" (.int 0)) = .ok config.level

theorem read_eq_ok_iff {members : List (String × Json)} {config : Config} :
    read (.object members) = .ok config ↔ Fields members config := by
  constructor
  · intro h
    obtain ⟨_, ⟨⟩, h⟩ := bind_eq_ok_iff.mp h
    obtain ⟨name, hname, h⟩ := bind_eq_ok_iff.mp h
    obtain ⟨start, hstart, h⟩ := bind_eq_ok_iff.mp h
    have hne : start ≠ [] := by
      rintro rfl
      cases h
    rw [if_neg (by simpa using hne)] at h
    obtain ⟨rules, hrules, h⟩ := bind_eq_ok_iff.mp h
    obtain ⟨items, hitems, h⟩ := bind_eq_ok_iff.mp h
    obtain ⟨contextRules, hcontextRules, h⟩ := bind_eq_ok_iff.mp h
    obtain ⟨seed, hseed, h⟩ := bind_eq_ok_iff.mp h
    obtain ⟨level, hlevel, h⟩ := bind_eq_ok_iff.mp h
    cases h
    exact ⟨hname, hstart, hne, hrules, bind_eq_ok_iff.mpr ⟨items, hitems, hcontextRules⟩, hseed,
      hlevel⟩
  · rintro ⟨hname, hstart, hne, hrules, hcontextRules, hseed, hlevel⟩
    obtain ⟨items, hitems, hcontextRules⟩ := bind_eq_ok_iff.mp hcontextRules
    refine bind_eq_ok_iff.mpr ⟨members, rfl, ?_⟩
    refine bind_eq_ok_iff.mpr ⟨_, hname, ?_⟩
    refine bind_eq_ok_iff.mpr ⟨_, hstart, ?_⟩
    rw [if_neg (by simpa using hne)]
    refine bind_eq_ok_iff.mpr ⟨_, hrules, ?_⟩
    refine bind_eq_ok_iff.mpr ⟨items, hitems, ?_⟩
    refine bind_eq_ok_iff.mpr ⟨_, hcontextRules, ?_⟩
    refine bind_eq_ok_iff.mpr ⟨_, hseed, ?_⟩
    exact bind_eq_ok_iff.mpr ⟨_, hlevel, rfl⟩

theorem field_eq_of_member? {members : List (String × Json)} {name : String} {value : Json}
    (h : Json.member? members name = some value) (default : Json) :
    field members name default = value := by
  rw [field, h, Option.getD_some]

theorem readLevel_natCast (n : Nat) : readLevel (.int n) = .ok n := rfl

theorem readSeed_getD (seed : Option Int) :
    readSeed ((seed.map Json.int).getD .null) = .ok seed := by
  cases seed <;> rfl

/-- The members of an object with its level and its seed set anew, wherever these two stand. -/
structure Sets (members members' : List (String × Json)) (level : Nat) (seed : Int) : Prop where
  level : Json.member? members' "level" = some (.int level)
  seed : Json.member? members' "seed" = some (.int seed)
  others : ∀ name, name ≠ "level" → name ≠ "seed" →
    Json.member? members' name = Json.member? members name

theorem Sets.field_eq {members members' : List (String × Json)} {level : Nat} {seed : Int}
    (h : Sets members members' level seed) {name : String} (hlevel : name ≠ "level")
    (hseed : name ≠ "seed") (default : Json) :
    field members' name default = field members name default := by
  rw [field, field, h.others name hlevel hseed]

theorem read_of_sets {members members' : List (String × Json)} {config : Config} {level : Nat}
    {seed : Int} (h : Sets members members' level seed)
    (hread : read (.object members) = .ok config) :
    read (.object members') = .ok { config with seed := some seed, level } := by
  obtain ⟨hname, hstart, hne, hrules, hcontextRules, -, -⟩ := read_eq_ok_iff.mp hread
  apply read_eq_ok_iff.mpr
  refine ⟨?_, ?_, hne, ?_, ?_, ?_, ?_⟩
  · rwa [h.field_eq (by decide) (by decide)]
  · rwa [h.field_eq (by decide) (by decide)]
  · rwa [h.field_eq (by decide) (by decide)]
  · rwa [h.field_eq (by decide) (by decide)]
  · rw [field_eq_of_member? h.seed]
    rfl
  · rw [field_eq_of_member? h.level, readLevel_natCast]

end LSystem.Config
