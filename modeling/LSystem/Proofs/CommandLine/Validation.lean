import LSystem.Proofs.CommandLine.Executions
import Mathlib.Order.Bounds.Defs

/-! # How far validation expands

Validation goes from level to level until it has come to the default level or has a word that is too
long. Its loop ends at the first such level and has computed no level beyond it. -/

namespace LSystem.CommandLine

/-! ## The loop -/

/-- Turns of a loop: as long as the level is below the default level `top` and its word is not too long,
the next level is asked for. -/
inductive Probe.Loops (top : Nat) : Probe → Nat → Probe → Prop where
  | stop {probe : Probe} :
      ¬ (probe.level < top ∧ probe.length ≤ symbolLimit) → Loops top probe 0 probe
  | turn {level length turns : Nat} {expander : Expander Twister} {last : Probe} :
      level < top → length ≤ symbolLimit →
      Loops top
        ⟨level + 1, (expander.level (level + 1)).1.length, (expander.level (level + 1)).2⟩ turns last →
      Loops top ⟨level, length, expander⟩ (turns + 1) last

/-- The loop ends, whatever it is given: the levels that are left bound its turns. -/
theorem exists_loops {top : Nat} (n : Nat) (probe : Probe) (htop : probe.level + n = top) :
    ∃ turns, Probe.Loops top probe turns (Probe.advance n probe) ∧
      (Probe.advance n probe).level = probe.level + turns := by
  induction n generalizing probe with
  | zero => exact ⟨0, .stop (by omega), rfl⟩
  | succ n ih =>
      obtain ⟨level, length, expander⟩ := probe
      simp only at htop
      rw [Probe.advance]
      split
      case isTrue hshort =>
        obtain ⟨turns, hloops, hlevel⟩ := ih ⟨level + 1, (expander.level (level + 1)).1.length,
          (expander.level (level + 1)).2⟩ (by simp only; omega)
        refine ⟨turns + 1, .turn (by omega) hshort hloops, ?_⟩
        rw [hlevel]
        simp only
        omega
      case isFalse hlong => exact ⟨0, .stop (fun h => hlong h.2), rfl⟩

/-! ## Where it stops -/

theorem StopsAt.isLeast {system : System} {seed : Int} {top n : Nat}
    (h : StopsAt system seed top n) :
    IsLeast {m | m = top ∨ symbolLimit < (system.levelWord seed m).length} n := by
  refine ⟨?_, ?_⟩
  · rcases Nat.eq_or_lt_of_le h.le with heq | hlt
    · exact .inl heq
    · exact .inr (h.long hlt)
  · rintro m (rfl | hm)
    · exact h.le
    · by_contra hlt
      have hshort := h.short m (Nat.lt_of_not_le hlt)
      omega

/-! ## The warning -/

/-- A line that is a warning. -/
def Warns (line : String) : Prop := "warning: ".toList <+: line.toList

theorem not_warns_append {first : String} (hfirst : first.toList.head?.getD 'w' ≠ 'w')
    (rest : String) : ¬ Warns (first ++ rest) := by
  rintro ⟨after, h⟩
  rw [String.toList_append] at h
  cases hchars : first.toList with
  | nil => simp [hchars] at hfirst
  | cons c cs =>
      rw [hchars] at h hfirst
      exact hfirst (List.cons.inj h).1.symm

theorem not_warns_summaryLines (config : Config) (system : System) :
    ∀ line ∈ Course.summaryLines config system, ¬ Warns line := by
  unfold Course.summaryLines
  simp only [List.forall_mem_cons, String.append_assoc]
  exact ⟨not_warns_append (by decide) _, not_warns_append (by decide) _,
    not_warns_append (by decide) _, not_warns_append (by decide) _,
    not_warns_append (by decide) _, fun _ hline => absurd hline List.not_mem_nil⟩

theorem exists_warns_stopLines (top : Nat) (probe : Probe) :
    (∃ line ∈ Course.stopLines top probe, Warns line) ↔ probe.level < top := by
  have hsize : ¬ Warns ("symbols at level " ++ Text.decimal probe.level ++ ": " ++
      Text.decimal probe.length ++ "\n") := by
    simp only [String.append_assoc]
    exact not_warns_append (by decide) _
  have hwarning : Warns ("warning: level " ++ Text.decimal probe.level ++ " already exceeds " ++
      Text.decimal symbolLimit ++ " symbols; level " ++ Text.decimal top ++ " was not expanded\n") := by
    simp only [String.append_assoc, Warns, String.toList_append]
    exact (show "warning: ".toList <+: "warning: level ".toList by decide).trans
      (List.prefix_append _ _)
  unfold Course.stopLines
  by_cases hbelow : probe.level < top
  · simp [hbelow, hwarning]
  · simp [hbelow, hsize]

/-! ## Validation -/

/-- What validation writes once the configuration is loaded and its loop has ended with some probe. -/
theorem execute_validate {files : FileReader} {path : String} {process : Twister} {config : Config}
    {system : System} {last : Probe} (hload : Config.load files path = .ok config)
    (hsystem : System.ofGrammar config.grammar = .ok system)
    (hlast : Probe.advance config.level ⟨0, config.grammar.start.length,
      (SeededExpander.fresh system (config.seed.getD process.drawnSeed)).expander⟩ = last)
    (verbose : Bool) :
    let execution := execute files process (Invocation.arguments ⟨verbose, .validate path⟩)
    execution.code = .ok 0 ∧
    execution.stdout = Course.summaryLines config system ++ Course.stopLines config.level last ∧
    execution.stderr = logLines verbose (config.grammar.indexLog ++ grownLog last.expander) := by
  have hparse : parse (Invocation.arguments ⟨verbose, .validate path⟩) =
      .ok ⟨verbose, .validate path⟩ := parse_arguments trivial
  have habsent : (.absent : Setting Int) ≠ .blank := nofun
  have hloaded := Course.yields_load hload hsystem habsent process
  have hvalidated := Course.yields_validate rfl (Config.readable_of_load hload).level hlast
  have hcourse : ((Command.validate path).course files process).Yields () []
      (config.grammar.indexLog ++ grownLog last.expander)
      (Course.summaryLines config system ++ Course.stopLines config.level last) :=
    hloaded.bind (hvalidated.after config.grammar.indexLog)
  obtain ⟨hcode, hstderr⟩ := Course.execution_of_ok verbose hcourse.result
  simp only [execute, hparse]
  refine ⟨hcode, ?_, ?_⟩
  · rw [Course.stdout_execution, hcourse.lines]
  · rw [hstderr, ← hcourse.records, List.nil_append]

/-- What validation does with a configuration under a seed, if its loop ends with the given probe. -/
structure Validation (config : Config) (system : System) (seed : Int) (last : Probe) : Prop where
  /-- The loop ends after as many turns as there are levels above the start word. -/
  loop : Probe.Loops config.level
    ⟨0, config.grammar.start.length, (SeededExpander.fresh system seed).expander⟩ last.level last
  /-- No level before is the default level or has too long a word. -/
  least : IsLeast {m | m = config.level ∨ symbolLimit < (system.levelWord seed m).length} last.level
  length : last.length = (system.levelWord seed last.level).length
  /-- The levels up to this one have been computed, and no other. -/
  levels : last.expander.levels = (List.range (last.level + 1)).map (system.levelWord seed)
  /-- All levels but the last one have been rewritten. None of their words is too long. -/
  rewritten : ∀ word ∈ last.expander.older.toList, word.length ≤ symbolLimit
  /-- Level and length are printed, and a warning if this is not the default level. Only the levels that
  have been computed are recorded. -/
  writes : ∀ (files : FileReader) (path : String) (process : Twister) (verbose : Bool),
    Config.load files path = .ok config → config.seed.getD process.drawnSeed = seed →
    let execution := execute files process (Invocation.arguments ⟨verbose, .validate path⟩)
    execution.code = .ok 0 ∧
    execution.stdout = Course.summaryLines config system ++ Course.stopLines config.level last ∧
    execution.stderr = logLines verbose (config.grammar.indexLog ++ grownLog last.expander)
  warns : (∃ line ∈ Course.summaryLines config system ++ Course.stopLines config.level last,
    Warns line) ↔ last.level < config.level
  long : last.level < config.level → symbolLimit < last.length

/-- The loop of validation ends for every configuration whose index can be built, and under every seed. -/
theorem exists_validation {config : Config} {system : System}
    (hsystem : System.ofGrammar config.grammar = .ok system) (seed : Int) :
    ∃ last, Validation config system seed last := by
  obtain ⟨n, hstops, hadvance⟩ := exists_stopsAt system seed config.level
  rw [← probeAt_zero hsystem seed] at hadvance
  obtain ⟨turns, hloops, hturns⟩ := exists_loops config.level
    ⟨0, config.grammar.start.length, (SeededExpander.fresh system seed).expander⟩
    (Nat.zero_add config.level)
  rw [hadvance] at hloops hturns
  have hn : turns = n := by simpa [probeAt] using hturns.symm
  refine ⟨probeAt system seed n, ?_⟩
  exact {
    loop := hn ▸ hloops
    least := hstops.isLeast
    length := rfl
    levels := levels_grown system seed n
    rewritten := by
      intro word hword
      obtain ⟨m, hm, rfl⟩ := List.mem_map.mp (older_grown system seed n ▸ hword)
      exact hstops.short m (List.mem_range.mp hm)
    writes := by
      rintro files path process verbose hload rfl
      exact execute_validate hload hsystem hadvance verbose
    warns := by
      have hsummary : ¬ ∃ line ∈ Course.summaryLines config system, Warns line := by
        push Not
        exact not_warns_summaryLines config system
      simp only [List.mem_append, or_and_right, exists_or, hsummary, false_or,
        exists_warns_stopLines]
    long := hstops.long }

/-- A configuration whose start word is too long already. -/
def overgrown : Config :=
  ⟨{ Grammar.algae with start := List.replicate (symbolLimit + 1) "A" }, none, 3⟩

/-- An overgrown configuration is not expanded at all. -/
theorem exists_validation_overgrown :
    System.ofGrammar overgrown.grammar =
      .ok ⟨overgrown.grammar, System.algae.index⟩ ∧
    ∃ last, Validation overgrown ⟨overgrown.grammar, System.algae.index⟩ 7 last ∧
      last.level = 0 ∧ ∃ line ∈ Course.stopLines 3 last, Warns line := by
  have hindex : ContextIndex.ofGrammar .algae = .ok System.algae.index := by decide
  have hsystem : System.ofGrammar overgrown.grammar =
      .ok ⟨overgrown.grammar, System.algae.index⟩ := by
    -- The index does not depend on the start word.
    change (ContextIndex.ofGrammar .algae).map (System.mk overgrown.grammar) = _
    rw [hindex]
    rfl
  obtain ⟨last, hvalidation⟩ := exists_validation hsystem 7
  have hlevel : last.level = 0 := by
    refine Nat.le_zero.mp (hvalidation.least.2 (.inr ?_))
    rw [System.levelWord_zero, overgrown, List.length_replicate]
    exact Nat.lt_succ_self symbolLimit
  refine ⟨hsystem, last, hvalidation, hlevel, ?_⟩
  rw [exists_warns_stopLines, hlevel]
  decide

end LSystem.CommandLine
