import LSystem.Proofs.Pass.Locality
import Mathlib.Data.Set.Card
import Mathlib.SetTheory.Cardinal.NatCount

/-! # Where a rule fires

A rule fires once for each occurrence of its pattern, at the position that its center makes of the place of
the occurrence. The center may be any integer, so this position may lie outside of the pattern and outside of
the word, but no place outside of the word is looked at. -/

namespace LSystem

variable {pattern : List Token} {word : Word}

/-- The places at which a pattern stands in a word. Occurrences may overlap. -/
def occurrences (pattern : List Token) (word : Word) : Set Int :=
  {start | OccursAt pattern word start}

/-! ## Occurrences -/

/-- A pattern stands at the places from which on the word begins with it. -/
theorem mem_occurrences_iff (hne : pattern ≠ []) {start : Int} :
    start ∈ occurrences pattern word ↔
      ∃ i < word.length, pattern <+: word.drop i ∧ (i : Int) = start := by
  constructor
  · rintro ⟨before, after, rfl, rfl⟩
    refine ⟨before.length, ?_, ⟨after, ?_⟩, rfl⟩
    · have hpositive := List.length_pos_iff.mpr hne
      simp only [List.length_append]
      omega
    · rw [List.append_assoc, List.drop_left]
  · rintro ⟨i, hi, ⟨after, hafter⟩, rfl⟩
    refine ⟨word.take i, after, ?_, ?_⟩
    · rw [List.append_assoc, hafter, List.take_append_drop]
    · rw [List.length_take, Nat.min_eq_left hi.le]

/-- Each place is looked at by itself, so overlapping occurrences are all counted. -/
theorem ncard_occurrences (hne : pattern ≠ []) (word : Word) :
    (occurrences pattern word).ncard =
      Nat.count (fun start => pattern <+: word.drop start) word.length := by
  have himage : occurrences pattern word = Nat.cast ''
      ((Finset.range word.length).filter (fun start => pattern <+: word.drop start) : Set Nat) := by
    ext start
    rw [mem_occurrences_iff hne]
    simp [and_assoc]
  rw [himage, Set.ncard_image_of_injective _ Nat.cast_injective, Set.ncard_coe_finset,
    Nat.count_eq_card_filter_range]

/-- More tokens before and after a word leave the occurrences in it where they are. -/
theorem mapsTo_occurrences (pattern : List Token) (before word after : Word) :
    Set.MapsTo ((before.length : Int) + ·) (occurrences pattern word)
      (occurrences pattern (before ++ word ++ after)) :=
  fun _ hstart => OccursAt.append hstart before after

/-! ## Firings -/

namespace ContextRule

/-- The positions at which a rule has something to offer. -/
def firings (rule : ContextRule) (word : Word) : Set Int :=
  {position | rule.firing word.toArray position ≠ []}

variable {rule : ContextRule} (hne : rule.alternatives ≠ [])
include hne

theorem mem_firings_iff {position : Int} :
    position ∈ rule.firings word ↔ position - rule.center ∈ occurrences rule.pattern word := by
  rw [firings, Set.mem_ofPred_eq, firing_eq_ite, occurrences, Set.mem_ofPred_eq]
  split
  case isTrue hoccurs => exact iff_of_true hne hoccurs
  case isFalse habsent => exact iff_of_false (not_not_intro rfl) habsent

theorem bijOn_firings (word : Word) :
    Set.BijOn (· + rule.center) (occurrences rule.pattern word) (rule.firings word) := by
  refine ⟨?into, (add_left_injective rule.center).injOn, ?onto⟩
  case into =>
    intro start hstart
    rw [mem_firings_iff hne, Int.add_sub_cancel]
    exact hstart
  case onto =>
    intro position hposition
    exact ⟨position - rule.center, (mem_firings_iff hne).mp hposition, Int.sub_add_cancel _ _⟩

end ContextRule

/-- A rule looks at no place outside of the word, and offers its alternatives exactly where the window that
its center asks for lies in the word and holds its pattern. If it has alternatives, it fires once for each
occurrence of its pattern, and more tokens before or after the word take none of them away. -/
theorem ContextRule.firing_spec (rule : ContextRule) (word : Word) :
    (∀ position, rule.scan word position = .ok (rule.firing word.toArray position)) ∧
    (∀ position, rule.firing word.toArray position =
      if 0 ≤ position - rule.center ∧
          position - rule.center + rule.pattern.length ≤ word.length ∧
          (word.drop (position - rule.center).toNat).take rule.pattern.length = rule.pattern
        then rule.alternatives else []) ∧
    (rule.alternatives ≠ [] →
      Set.BijOn (· + rule.center) (occurrences rule.pattern word) (rule.firings word) ∧
      (rule.firings word).ncard =
        Nat.count (fun start => rule.pattern <+: word.drop start) word.length) ∧
    ∀ before after : Word, Set.MapsTo ((before.length : Int) + ·) (occurrences rule.pattern word)
      (occurrences rule.pattern (before ++ word ++ after)) := by
  refine ⟨rule.scan_eq word, ?slice, ?firings, ?longer⟩
  case slice =>
    intro position
    simp only [firing_eq, List.size_toArray]
  case firings =>
    intro hne
    have hbij := bijOn_firings hne word
    refine ⟨hbij, ?_⟩
    rw [← hbij.ncard_eq, ncard_occurrences rule.pattern_ne_nil]
  case longer => exact fun before after => mapsTo_occurrences rule.pattern before word after

/-- A rule whose pattern overlaps with itself. Its center is the place before its window, so it fires at a
position before the word. -/
def overlapping : ContextRule := .ofWindow (-1) "a" ["a"] [["x"]]

theorem ContextRule.firing_spec_overlapping :
    overlapping.alternatives ≠ [] ∧ (overlapping.firings ["a", "a", "a", "b"]).ncard = 2 ∧
    -1 ∈ overlapping.firings ["a", "a", "a", "b"] := by
  obtain ⟨-, hslice, hfirings, -⟩ := overlapping.firing_spec ["a", "a", "a", "b"]
  have hne : overlapping.alternatives ≠ [] := by decide
  refine ⟨hne, ?_, ?_⟩
  · rw [(hfirings hne).2]
    decide
  · rw [firings, Set.mem_ofPred_eq, hslice]
    decide

end LSystem
