import LSystem.Proofs.CommandLine.Agreement
import LSystem.Proofs.CommandLine.Loading
import LSystem.Proofs.Levels.Alphabet
import LSystem.Proofs.Text.Spacing

/-! # Printed levels are read back

A level has no token that its grammar does not write. If these are words, the text that is printed for a
level is cut into the same tokens again, whatever blanks are printed between them. -/

namespace LSystem.CommandLine

section Loaded

variable {files : FileReader} {path : String} {config : Config} {system : System}
  (hload : Config.load files path = .ok config)
  (hsystem : System.ofGrammar config.grammar = .ok system)
include hload hsystem

/-- However a level is asked for, its tokens are printed with the separator between them. -/
theorem run_expand_of_parse {arguments : List String} {verbose : Bool} {level seed : Setting Int}
    {separator : Setting String} {n : Nat} {gap : String}
    (hparse : parse arguments = .ok ⟨verbose, .expand path level seed separator⟩)
    (hlevel : level.level config = .int n) (hseed : seed ≠ .blank)
    (hseparator : separator.separator = .ok gap) (process : Twister) :
    (run files process arguments).stdout =
        gap.intercalate (system.levelWord ((seed.seed config).getD process.drawnSeed) n) ++ "\n" ∧
      (run files process arguments).ending = .exit 0 := by
  rw [run_of_parse hparse, Command.report, ofExpander_of_ok hload hsystem hseed,
    expandReport_fresh hlevel, hseparator]
  exact ⟨rfl, rfl⟩

end Loaded

/-- All tokens of a level come from the start word or an alternative, whatever is drawn. If these
tokens are words, the text printed for a level holds no others and in the same order. -/
theorem level_reread {config : Config} {system : System}
    (hsystem : System.ofGrammar config.grammar = .ok system) :
    (∀ {σ : Type u} [RandomSource σ] (source : σ) (n : Nat),
      ∀ token ∈ ((Expander.ofSystem system source).level n).1,
        token ∈ config.grammar.start ∨
          (∃ entry ∈ config.grammar.productive, ∃ block ∈ entry.2, token ∈ block) ∨
          ∃ rule ∈ config.grammar.contextRules, ∃ block ∈ rule.alternatives, token ∈ block) ∧
    ((∀ token ∈ config.grammar.alphabet, Text.IsWord token) →
      ∀ {files : FileReader} {path : String}, Config.load files path = .ok config →
      ∀ {arguments : List String} {verbose : Bool} {level seed : Setting Int}
        {separator : Setting String} {n : Nat} {gap : String},
        parse arguments = .ok ⟨verbose, .expand path level seed separator⟩ →
        level.level config = .int n → seed ≠ .blank →
        separator.separator = .ok gap → Text.IsGap gap → gap ≠ "" →
        ∀ process : Twister, (run files process arguments).ending = .exit 0 ∧
          Text.words (run files process arguments).stdout =
            system.levelWord ((seed.seed config).getD process.drawnSeed) n) := by
  refine ⟨?_, ?_⟩
  · intro σ _ source n token htoken
    exact Grammar.mem_alphabet_iff.mp (System.mem_alphabet_of_level hsystem source n token htoken)
  · intro hwords files path hload arguments verbose level seed separator n gap hparse hlevel hseed
      hseparator hgap hne process
    obtain ⟨hstdout, hending⟩ :=
      run_expand_of_parse hload hsystem hparse hlevel hseed hseparator process
    have hlineEnd : Text.IsGap "\n" := by decide
    refine ⟨hending, ?_⟩
    rw [hstdout, Text.words_append_of_isGap hlineEnd, Text.words_intercalate hgap hne]
    intro token htoken
    exact hwords token (System.mem_alphabet_of_level hsystem _ n token htoken)

/-- The tokens of algae are read back when a tab and a line end are printed between them. -/
theorem level_reread_algae :
    System.ofGrammar .algae = .ok .algae ∧
    (∀ token ∈ Grammar.algae.alphabet, Text.IsWord token) ∧
    Text.words (run algaeFile (Twister.ofSeed 7) (Invocation.arguments
        ⟨false, .expand "algae.json" (.value 4) (.value 7) (.value "\t\n")⟩)).stdout =
      System.algae.levelWord 7 4 := by
  have hsystem : System.ofGrammar .algae = .ok .algae := by decide
  have hwords : ∀ token ∈ Grammar.algae.alphabet, Text.IsWord token := by decide
  have hlevel : Text.Readable 4 := by decide
  have hseed : Text.Readable 7 := by decide
  have hparse : parse (Invocation.arguments
      ⟨false, .expand "algae.json" (.value 4) (.value 7) (.value "\t\n")⟩) =
        .ok ⟨false, .expand "algae.json" (.value 4) (.value 7) (.value "\t\n")⟩ :=
    parse_arguments ⟨hlevel, hseed, by decide⟩
  obtain ⟨-, hreread⟩ := @level_reread.{0} ⟨.algae, none, 3⟩ .algae hsystem
  obtain ⟨-, hread⟩ := hreread hwords load_algaeFile hparse rfl (by decide) rfl (by decide)
    (by decide) (Twister.ofSeed 7)
  exact ⟨hsystem, hwords, hread⟩

end LSystem.CommandLine
