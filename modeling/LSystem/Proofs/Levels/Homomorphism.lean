import LSystem.Proofs.Levels.Periods
import Mathlib.Algebra.BigOperators.Group.Finset.Basic

/-! # Expansion as a homomorphism

Where tokens are looked up and none has several alternatives, each token is replaced by a word of its own,
wherever it stands. So every level of two words in a row is made of the levels of both, and the numbers of
tokens in a level determine those in the next. -/

namespace LSystem

namespace Grammar

/-- No key has several alternatives. -/
def Unambiguous (g : Grammar) : Prop := ∀ entry ∈ g.rules.entries, entry.2.length ≤ 1

instance (g : Grammar) : Decidable g.Unambiguous :=
  inferInstanceAs (Decidable (∀ entry ∈ g.rules.entries, entry.2.length ≤ 1))

/-- The replacement of a token, which is the token itself if the table has none for it. -/
def image (g : Grammar) (token : Token) : Word := (g.replacements token).headD [token]

theorem Unambiguous.length_replacements {g : Grammar} (h : g.Unambiguous) (token : Token) :
    (g.replacements token).length ≤ 1 := by
  rw [replacements, Table.get?]
  cases hlookup : g.rules.entries.lookup token with
  | none => exact Nat.zero_le 1
  | some alternatives =>
      obtain ⟨before, after, hentries, -⟩ := List.lookup_eq_some_iff.mp hlookup
      exact h (token, alternatives) (by simp [hentries])

end Grammar

/-! ## One pass -/

namespace System

variable {s : System}

theorem sites_of_plain (hmode : s.mode = .plain) (word : Word) : s.sites word = s.grammar.sites word := by
  rw [sites, hmode]

theorem decided_of_unambiguous (hmode : s.mode = .plain) (hone : s.grammar.Unambiguous) (word : Word) :
    s.Decided word := by
  rw [Decided, LSystem.drawBounds, sites_of_plain hmode, List.filter_eq_nil_iff]
  intro count hcount
  simp only [Grammar.sites, List.map_map, List.mem_map, Function.comp_apply] at hcount
  obtain ⟨token, -, rfl⟩ := hcount
  have hfew := hone.length_replacements token
  simp only [decide_eq_true_eq]
  omega

theorem decidedNext_of_plain (hmode : s.mode = .plain) (word : Word) :
    s.decidedNext word = word.flatMap s.grammar.image := by
  rw [decidedNext, sites_of_plain hmode, Grammar.sites, List.flatMap_map]
  rfl

/-- The same rules with another start word. -/
def withStart (s : System) (start : Word) : System := ⟨{ s.grammar with start }, s.index⟩

theorem ofGrammar_withStart {g : Grammar} (hs : ofGrammar g = .ok s) (start : Word) :
    ofGrammar { g with start } = .ok (s.withStart start) := by
  obtain ⟨index, hindex, rfl⟩ := ofGrammar_eq_ok_iff.mp hs
  exact ofGrammar_eq_ok_iff.mpr ⟨index, hindex, rfl⟩

end System

/-! ## All levels -/

namespace Expander

variable {s : System} (hmode : s.mode = .plain) (hone : s.grammar.Unambiguous)
include hmode hone

section

variable {σ : Type u} [RandomSource σ]

/-- In each pass every token is replaced by its image. -/
theorem level_succ_of_unambiguous (source : σ) (n : Nat) :
    ((ofSystem s source).level (n + 1)).1 =
      ((ofSystem s source).level n).1.flatMap s.grammar.image := by
  rw [← newest_run, ← newest_run, System.newest_run_succ (System.decided_of_unambiguous hmode hone _),
    System.decidedNext_of_plain hmode]

theorem dice_of_unambiguous (source : σ) (n : Nat) :
    ((ofSystem s source).level n).2.dice = .ofSource source := by
  induction n with
  | zero => rfl
  | succ n ih => exact (System.dice_run_succ (System.decided_of_unambiguous hmode hone _)).trans ih

/-- Each token is counted in the images of all tokens of the level before. -/
theorem count_level_succ (source : σ) (n : Nat) (token : Token) :
    ((ofSystem s source).level (n + 1)).1.count token =
      ∑ t ∈ ((ofSystem s source).level n).1.toFinset,
        ((ofSystem s source).level n).1.count t * (s.grammar.image t).count token := by
  rw [level_succ_of_unambiguous hmode hone, List.count_flatMap, Finset.sum_list_map_count]
  rfl

end

theorem level_append {σ : Type u} [RandomSource σ] {τ : Type v} [RandomSource τ] {υ : Type w}
    [RandomSource υ] (source : σ) (first : τ) (second : υ) (x y : Word) (n : Nat) :
    ((ofSystem (s.withStart (x ++ y)) source).level n).1 =
      ((ofSystem (s.withStart x) first).level n).1 ++ ((ofSystem (s.withStart y) second).level n).1 := by
  induction n with
  | zero => rfl
  | succ n ih =>
      have hwhole := level_succ_of_unambiguous (s := s.withStart (x ++ y)) hmode hone source n
      have hfirst := level_succ_of_unambiguous (s := s.withStart x) hmode hone first n
      have hsecond := level_succ_of_unambiguous (s := s.withStart y) hmode hone second n
      rw [hwhole, hfirst, hsecond, ih, List.flatMap_append]
      -- The images are those of one table.
      rfl

end Expander

/-- What comes of a table without ambiguous keys, whatever start word is put to it. -/
structure Homomorphic (s : System) : Prop where
  /-- Each level of two words in a row is the level of the first and then that of the second, whichever
  sources the three of them have. -/
  append : ∀ {σ : Type u} [RandomSource σ] {τ : Type v} [RandomSource τ] {υ : Type w} [RandomSource υ]
    (source : σ) (first : τ) (second : υ) (x y : Word) (n : Nat),
    ((Expander.ofSystem (s.withStart (x ++ y)) source).level n).1 =
      ((Expander.ofSystem (s.withStart x) first).level n).1 ++
        ((Expander.ofSystem (s.withStart y) second).level n).1
  /-- Nothing is drawn, and the source is as it was. -/
  undrawn : ∀ {σ : Type u} [RandomSource σ] (source : σ) (start : Word) (n : Nat),
    ((Expander.ofSystem (s.withStart start) source).level n).2.dice = ⟨source, 0⟩
  /-- Each token of a level brings the tokens of its image into the next. -/
  count : ∀ {σ : Type u} [RandomSource σ] (source : σ) (start : Word) (n : Nat) (token : Token),
    ((Expander.ofSystem (s.withStart start) source).level (n + 1)).1.count token =
      ∑ t ∈ ((Expander.ofSystem (s.withStart start) source).level n).1.toFinset,
        ((Expander.ofSystem (s.withStart start) source).level n).1.count t *
          (s.grammar.image t).count token

/-- A grammar that looks tokens up and has no key with several alternatives expands every start word token
by token. -/
theorem System.homomorphic_of_unambiguous {g : Grammar} {s : System} (hs : System.ofGrammar g = .ok s)
    (hmode : s.mode = .plain) (hone : g.Unambiguous) :
    (∀ start, System.ofGrammar { g with start } = .ok (s.withStart start)) ∧
      Homomorphic.{u, v, w} s := by
  obtain rfl : s.grammar = g := System.grammar_of_ofGrammar hs
  refine ⟨System.ofGrammar_withStart hs, ?append, ?undrawn, ?count⟩
  case append => exact Expander.level_append hmode hone
  case undrawn =>
    intro σ _ source start n
    exact Expander.dice_of_unambiguous (s := s.withStart start) hmode hone source n
  case count =>
    intro σ _ source start n token
    exact Expander.count_level_succ (s := s.withStart start) hmode hone source n token

/-- A token that grows, one that is erased and one without a rule. -/
def Grammar.fibonacci : Grammar where
  start := ["A"]
  rules := .ofList [("A", [["A", "B", "-"]]), ("B", [["A"]]), ("-", [[]]), ("C", [])]
  contextRules := []
  name := "Fibonacci"

def System.fibonacci : System :=
  ⟨.fibonacci, [.ofToken "A" [["A", "B", "-"]], .ofToken "B" [["A"]], .ofToken "-" [[]]], false⟩

theorem System.homomorphic_fibonacci :
    System.ofGrammar .fibonacci = .ok .fibonacci ∧ System.fibonacci.mode = .plain ∧
    Grammar.fibonacci.Unambiguous ∧
    ∀ n, ((Expander.ofSystem (System.fibonacci.withStart ["B", "C", "A"]) (Twister.ofSeed 3)).level n).1 =
      ((Expander.ofSystem (System.fibonacci.withStart ["B", "C"]) (Twister.ofSeed 4)).level n).1 ++
        ((Expander.ofSystem (System.fibonacci.withStart ["A"]) (Twister.ofSeed 5)).level n).1 := by
  have hs : System.ofGrammar .fibonacci = .ok .fibonacci := by decide
  have hone : Grammar.fibonacci.Unambiguous := by decide
  obtain ⟨-, hhomomorphic⟩ := System.homomorphic_of_unambiguous hs rfl hone
  exact ⟨hs, rfl, hone, fun n => hhomomorphic.append _ _ _ ["B", "C"] ["A"] n⟩

end LSystem
