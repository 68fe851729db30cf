import LSystem.CommandLine.Outcome
import LSystem.Proofs.Levels.Draws
import LSystem.Proofs.Text.Decimal

/-! # What a report says

A command asks for one level only, for the highest one and then for all, or for one after the other
until a word is too long. Its report speaks of the words that an expander of its seed gives for one
request each. -/

namespace LSystem

open Expander

namespace System

/-- The word of a level under a seed, by an expander that is asked for nothing else. -/
def levelWord (s : System) (seed : Int) (n : Nat) : Word :=
  ((ofSystem s (Twister.ofSeed seed)).level n).1

/-- The number of places in a word that have several candidates. -/
def ambiguity (s : System) (word : Word) : Nat :=
  (s.sites word).countP (fun site => 2 ≤ site.candidates.length)

/-- The number of such places in all levels below one. -/
def ambiguityBelow (s : System) (seed : Int) (n : Nat) : Nat :=
  ((List.range n).map (fun k => s.ambiguity (s.levelWord seed k))).sum

theorem length_drawBounds (s : System) (words : List Word) :
    (s.drawBounds words).length = (words.map s.ambiguity).sum := by
  rw [drawBounds, List.length_flatMap]
  congr 1
  apply List.map_congr_left
  intro word _
  rw [LSystem.drawBounds, ambiguity, ← List.countP_eq_length_filter, List.countP_map]
  rfl

theorem levelWord_zero (s : System) (seed : Int) : s.levelWord seed 0 = s.grammar.start := rfl

end System

/-- An expander of a seed that was asked for nothing yet. -/
def SeededExpander.fresh (system : System) (seed : Int) : SeededExpander :=
  ⟨seed, ofSystem system (Twister.ofSeed seed)⟩

namespace Twister

/-- The seed that is taken from a generator. -/
def drawnSeed (process : Twister) : Int := (process.bits 63).1

theorem bits_lt (k : Nat) (t : Twister) : (bits k t).1 < 2 ^ k := by
  induction k using Nat.strongRecOn generalizing t with
  | ind k ih =>
      rw [bits]
      obtain ⟨w, rest⟩ := t.next
      have hword : w.toNat < 2 ^ 32 := w.toNat_lt
      split
      case isTrue hk =>
        have hsplit : 2 ^ k * 2 ^ (32 - k) = 2 ^ 32 := by
          rw [← Nat.pow_add, Nat.add_sub_cancel' hk]
        change w.toNat >>> (32 - k) < 2 ^ k
        rw [Nat.shiftRight_eq_div_pow, Nat.div_lt_iff_lt_mul (Nat.two_pow_pos _), hsplit]
        exact hword
      case isFalse hk =>
        have hhigh : (bits (k - 32) rest).1 < 2 ^ (k - 32) := ih (k - 32) (by omega) rest
        have hsplit : 2 ^ (k - 32) * 2 ^ 32 = 2 ^ k := by
          rw [← Nat.pow_add, Nat.sub_add_cancel (by omega)]
        change w.toNat + (bits (k - 32) rest).1 <<< 32 < 2 ^ k
        rw [Nat.shiftLeft_eq]
        calc w.toNat + (bits (k - 32) rest).1 * 2 ^ 32
            < ((bits (k - 32) rest).1 + 1) * 2 ^ 32 := by omega
          _ ≤ 2 ^ (k - 32) * 2 ^ 32 := Nat.mul_le_mul_right _ hhigh
          _ = 2 ^ k := hsplit

/-- A seed that was taken can be given again. -/
theorem readable_drawnSeed (process : Twister) : Text.Readable process.drawnSeed := by
  rw [Text.readable_iff, drawnSeed, Int.natAbs_natCast]
  calc (process.bits 63).1 < 2 ^ 63 := bits_lt 63 process
    _ ≤ 10 ^ 19 := by decide
    _ ≤ 10 ^ Text.digitLimit := Nat.pow_le_pow_right (by decide) (by decide)

end Twister

theorem SeededExpander.create_of_ok {g : Grammar} {system : System}
    (h : System.ofGrammar g = .ok system) (seed : Option Int) (process : Twister) :
    (SeededExpander.create g seed process).1 =
      .ok (.fresh system (seed.getD process.drawnSeed)) := by
  cases seed <;> rw [SeededExpander.create, h] <;> rfl

theorem SeededExpander.create_of_error {g : Grammar} {offset : Text.Overlong}
    (h : System.ofGrammar g = .error offset) (seed : Option Int) (process : Twister) :
    (SeededExpander.create g seed process).1 = .error offset := by
  cases seed <;> rw [SeededExpander.create, h] <;> rfl

/-! ## A fresh expander that has grown -/

section Grown

variable (s : System) (seed : Int)

/-- The expander once it has grown to a level. -/
def Expander.grown (top : Nat) : Expander Twister := growBy top (ofSystem s (Twister.ofSeed seed))

theorem level_grown (top n : Nat) :
    (grown s seed top).level n = (s.levelWord seed n, grown s seed (max top n)) :=
  level_growBy (cached_ofSystem s _) top n

theorem levels_grown (top : Nat) :
    (grown s seed top).levels = (List.range (top + 1)).map (s.levelWord seed) :=
  levels_growBy (cached_ofSystem s _) top

theorem older_grown (top : Nat) :
    (grown s seed top).older.toList = (List.range top).map (s.levelWord seed) :=
  older_growBy (cached_ofSystem s _) top

theorem draws_grown (top : Nat) : (grown s seed top).draws = s.ambiguityBelow seed top := by
  have hfresh := cached_ofSystem s (Twister.ofSeed seed)
  rw [grown, (drawnFrom_growBy s (Twister.ofSeed seed) top).draws, Expander.bounds,
    older_growBy hfresh, system_growBy, System.length_drawBounds, List.map_map]
  rfl

end Grown

namespace CommandLine

/-! ## Reports of a fresh expander -/

variable {config : Config} {system : System} {seed : Int}

/-- A natural number is never refused as a level. -/
theorem ofLevel_fresh {level : Json} {n : Nat} (h : level = .int n)
    (report : Nat → Word → Expander Twister → Report) :
    Report.ofLevel (.fresh system seed) level report =
      report n (system.levelWord seed n) (grown system seed n) := by
  have hlevel : (SeededExpander.fresh system seed).expander.level n =
      (system.levelWord seed n, grown system seed n) := by
    have hgrown := level_grown system seed 0 n
    rwa [Nat.zero_max] at hgrown
  subst h
  exact congrArg (fun answer => report n answer.1 answer.2) hlevel

theorem expandReport_fresh {level : Setting Int} {separator : Setting String} {n : Nat}
    (h : level.level config = .int n) :
    expandReport level separator config (.fresh system seed) =
      .ofResult (separator.separator.map (fun s =>
        s.intercalate (system.levelWord seed n) ++ "\n")) (grown system seed n) :=
  ofLevel_fresh h _

/-- The line of one level. -/
def lineOf (system : System) (seed : Int) (n : Nat) : String :=
  Text.decimal n ++ ": " ++ Text.decimal (system.levelWord seed n).length ++ "\n"

/-- The lines of the levels up to one. -/
def levelLines (system : System) (seed : Int) (top : Nat) : List String :=
  (List.range (top + 1)).map (lineOf system seed)

def seedLine (system : System) (seed : Int) (top : Nat) : String :=
  "seed: " ++ Text.decimal seed ++ " draws: " ++
    Text.decimal (system.ambiguityBelow seed top) ++ "\n"

/-- Below the highest level nothing grows any more, so each line is that of its level. -/
theorem foldl_levelLine {top : Nat} {ns : List Nat} (h : ∀ n ∈ ns, n ≤ top) (lines : String) :
    ns.foldl levelLine (lines, grown system seed top) =
      (lines ++ String.join (ns.map (lineOf system seed)), grown system seed top) := by
  induction ns generalizing lines with
  | nil => simp
  | cons n ns ih =>
      obtain ⟨hn, hns⟩ := List.forall_mem_cons.mp h
      have hstep : levelLine (lines, grown system seed top) n =
          (lines ++ lineOf system seed n, grown system seed top) := by
        simp only [levelLine, level_grown, Nat.max_eq_left hn, lineOf, String.append_assoc]
      rw [List.foldl_cons, hstep, ih hns, List.map_cons, String.join_cons, String.append_assoc]

theorem levelsReport_fresh {upto : Setting Int} {top : Nat} (h : upto.level config = .int top) :
    levelsReport upto config (.fresh system seed) =
      .ofResult (.ok (String.join (levelLines system seed top) ++ seedLine system seed top))
        (grown system seed top) := by
  have hle : ∀ n ∈ List.range (top + 1), n ≤ top :=
    fun n hn => Nat.le_of_lt_succ (List.mem_range.mp hn)
  refine (ofLevel_fresh h _).trans ?_
  simp only [foldl_levelLine hle, draws_grown, levelLines, seedLine, SeededExpander.fresh,
    String.empty_append, String.append_assoc]

/-! ## Validation -/

/-- Validation goes on to level `n`: up to a given level, or to the first word that is too long. -/
structure StopsAt (system : System) (seed : Int) (top n : Nat) : Prop where
  le : n ≤ top
  short : ∀ m < n, (system.levelWord seed m).length ≤ symbolLimit
  long : n < top → symbolLimit < (system.levelWord seed n).length

/-- A probe that has come to a level holds what a fresh expander gives for it. -/
def probeAt (system : System) (seed : Int) (n : Nat) : Probe :=
  ⟨n, (system.levelWord seed n).length, grown system seed n⟩

/-- Validation starts with the start word. -/
theorem probeAt_zero (hsystem : System.ofGrammar config.grammar = .ok system) (seed : Int) :
    Probe.mk 0 config.grammar.start.length (SeededExpander.fresh system seed).expander =
      probeAt system seed 0 := by
  rw [probeAt, System.levelWord_zero, System.grammar_of_ofGrammar hsystem]
  rfl

theorem advance_succ (system : System) (seed : Int) (m k : Nat) :
    Probe.advance (k + 1) (probeAt system seed m) =
      if (system.levelWord seed m).length ≤ symbolLimit then
        Probe.advance k (probeAt system seed (m + 1))
      else probeAt system seed m := by
  rw [probeAt, Probe.advance, level_grown, Nat.max_eq_right (Nat.le_succ m)]
  rfl

/-- The probe stops at the end of its way unless a word before it is too long. -/
theorem exists_advance (system : System) (seed : Int) (k m : Nat) :
    ∃ n, Probe.advance k (probeAt system seed m) = probeAt system seed n ∧ m ≤ n ∧ n ≤ m + k ∧
      (∀ i, m ≤ i → i < n → (system.levelWord seed i).length ≤ symbolLimit) ∧
      (n < m + k → symbolLimit < (system.levelWord seed n).length) := by
  induction k generalizing m with
  | zero => exact ⟨m, rfl, Nat.le_refl m, Nat.le_refl m, by omega, by omega⟩
  | succ k ih =>
      rw [advance_succ]
      split
      case isTrue hshort =>
        obtain ⟨n, hadvance, hm, hn, hbefore, hlong⟩ := ih (m + 1)
        refine ⟨n, hadvance, by omega, by omega, ?_, fun h => hlong (by omega)⟩
        intro i hi hin
        rcases Nat.eq_or_lt_of_le hi with rfl | hlt
        · exact hshort
        · exact hbefore i hlt hin
      case isFalse hlong =>
        exact ⟨m, rfl, Nat.le_refl m, by omega, by omega, fun _ => Nat.lt_of_not_le hlong⟩

theorem exists_stopsAt (system : System) (seed : Int) (top : Nat) :
    ∃ n, StopsAt system seed top n ∧
      Probe.advance top (probeAt system seed 0) = probeAt system seed n := by
  obtain ⟨n, hadvance, -, hle, hshort, hlong⟩ := exists_advance system seed top 0
  rw [Nat.zero_add] at hle hlong
  exact ⟨n, ⟨hle, fun m hm => hshort m (Nat.zero_le m) hm, hlong⟩, hadvance⟩

/-- What validation says about a configuration before it expands it. -/
def summary (config : Config) (system : System) : String :=
  "name: " ++ config.grammar.name ++ "\n" ++
    "axiom length: " ++ Text.decimal config.grammar.start.length ++ "\n" ++
    "rules: " ++ Text.decimal config.grammar.rules.size ++ "\n" ++
    "context rules: " ++ Text.decimal system.index.rules.length ++ "\n" ++
    "mode: " ++ system.mode.text ++ "\n"

def sizeLine (system : System) (seed : Int) (n : Nat) : String :=
  "symbols at level " ++ Text.decimal n ++ ": " ++
    Text.decimal (system.levelWord seed n).length ++ "\n"

def warning (n top : Nat) : String :=
  if n < top then
    "warning: level " ++ Text.decimal n ++ " already exceeds " ++ Text.decimal symbolLimit ++
      " symbols; level " ++ Text.decimal top ++ " was not expanded\n"
  else ""

theorem exists_validateReport (hsystem : System.ofGrammar config.grammar = .ok system)
    (seed : Int) :
    ∃ n, StopsAt system seed config.level n ∧
      validateReport config (.fresh system seed) =
        .ofResult (.ok (summary config system ++ sizeLine system seed n ++ warning n config.level))
          (grown system seed n) := by
  obtain ⟨n, hstops, hadvance⟩ := exists_stopsAt system seed config.level
  have hprobe : Probe.advance config.level
      ⟨0, config.grammar.start.length, (SeededExpander.fresh system seed).expander⟩ =
        probeAt system seed n := by
    rw [probeAt_zero hsystem, hadvance]
  -- The summary stays folded: comparing long texts piece by piece is slow.
  have hsize : summary config system ++ sizeLine system seed n =
      summary config system ++ "symbols at level " ++ Text.decimal n ++ ": " ++
        Text.decimal (system.levelWord seed n).length ++ "\n" := by
    unfold sizeLine
    rw [← String.append_assoc, ← String.append_assoc, ← String.append_assoc,
      ← String.append_assoc]
  refine ⟨n, hstops, ?_⟩
  rw [validateReport, hprobe, hsize]
  rfl

/-! ## Commands -/

/-- A loaded configuration whose index can be built is reported on by a fresh expander, of the seed
that is given, of its own or of one that is taken. -/
theorem ofExpander_of_ok {files : FileReader} {path : String} {setting : Setting Int}
    (hload : Config.load files path = .ok config)
    (hsystem : System.ofGrammar config.grammar = .ok system) (hsetting : setting ≠ .blank)
    (process : Twister) (report : Config → SeededExpander → Report) :
    Report.ofExpander files process path setting report =
      let rest :=
        report config (.fresh system ((setting.seed config).getD process.drawnSeed))
      ⟨config.grammar.indexLog ++ rest.log, rest.result⟩ := by
  rw [Report.ofExpander, hload]
  simp only [SeededExpander.create_of_ok hsystem, if_neg hsetting]

end CommandLine

end LSystem
