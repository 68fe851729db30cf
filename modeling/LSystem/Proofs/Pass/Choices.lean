import LSystem.Proofs.Pass.Draws
import LSystem.Proofs.Pass.Offers

/-! # Numbers for chosen blocks

Numbers in range pick a block for each site, and whatever blocks the sites may yield, there are
numbers that pick them. A source can be made to give these numbers. -/

namespace LSystem

/-! ## Blocks by number -/

namespace Site

variable {site : Site}

/-- A site without a choice yields one block only. -/
theorem yields_iff_of_lt (h : site.candidates.length < 2) {block : Word} :
    site.Yields block ↔ block = site.candidates.headD [site.token] := by
  obtain ⟨token, candidates⟩ := site
  match candidates with
  | [] =>
      constructor
      · intro hyields
        cases hyields with
        | token => rfl
        | candidate hblock => cases hblock
      · rintro rfl
        exact .token token
  | [only] =>
      constructor
      · intro hyields
        cases hyields with
        | candidate hblock => exact List.mem_singleton.mp hblock
      · rintro rfl
        exact .candidate (List.mem_singleton_self _)
  | _ :: _ :: _ =>
      simp only [List.length_cons] at h
      omega

/-- A site with a choice yields the block of each number in range. -/
theorem yields_iff_of_le (h : 2 ≤ site.candidates.length) {block : Word} :
    site.Yields block ↔ ∃ number, ∃ hnumber : number < site.candidates.length,
      site.candidates[number] = block := by
  rw [← List.mem_iff_getElem]
  constructor
  · intro hyields
    cases hyields with
    | token => simp at h
    | candidate hblock => exact hblock
  · exact .candidate

end Site

theorem forall₂_yields_fill {sites : List Site} {drawn : List Nat}
    (hdrawn : List.Forall₂ (· < ·) drawn (drawBounds sites)) :
    List.Forall₂ Site.Yields sites (fill sites drawn) := by
  induction sites generalizing drawn with
  | nil => exact .nil
  | cons site sites ih =>
      rcases Nat.lt_or_ge site.candidates.length 2 with hfew | hseveral
      · rw [drawBounds_cons_of_lt hfew] at hdrawn
        rw [fill_cons_of_lt hfew]
        exact .cons ((Site.yields_iff_of_lt hfew).mpr rfl) (ih hdrawn)
      · rw [drawBounds_cons_of_le hseveral] at hdrawn
        cases hdrawn with
        | cons hnumber hnumbers =>
            rw [fill_cons_of_le hseveral hnumber]
            exact .cons ((Site.yields_iff_of_le hseveral).mpr ⟨_, hnumber, rfl⟩) (ih hnumbers)

theorem exists_fill_eq {sites : List Site} {blocks : List Word}
    (hyields : List.Forall₂ Site.Yields sites blocks) :
    ∃ drawn, List.Forall₂ (· < ·) drawn (drawBounds sites) ∧ fill sites drawn = blocks := by
  induction hyields with
  | nil => exact ⟨[], .nil, rfl⟩
  | @cons site block sites blocks hblock _ ih =>
      obtain ⟨drawn, hdrawn, hfill⟩ := ih
      rcases Nat.lt_or_ge site.candidates.length 2 with hfew | hseveral
      · refine ⟨drawn, ?_, ?_⟩
        · rwa [drawBounds_cons_of_lt hfew]
        · rw [fill_cons_of_lt hfew, hfill, ← (Site.yields_iff_of_lt hfew).mp hblock]
      · obtain ⟨number, hnumber, hpicked⟩ := (Site.yields_iff_of_le hseveral).mp hblock
        refine ⟨number :: drawn, ?_, ?_⟩
        · rw [drawBounds_cons_of_le hseveral]
          exact .cons hnumber hdrawn
        · rw [fill_cons_of_le hseveral hnumber, hfill, hpicked]

/-! ## A source that gives chosen numbers -/

/-- A source that gives these numbers one after the other. It gives zero in place of a number that
is out of range, and when no number is left. -/
structure Replay where
  numbers : List Nat
deriving DecidableEq

instance : RandomSource Replay where
  below bound r := (if r.numbers.headD 0 < bound then r.numbers.headD 0 else 0, ⟨r.numbers.tail⟩)
  below_lt r positive := by
    split
    · assumption
    · exact positive

/-- Numbers in range are given as they are, and those after them are left. -/
theorem rolls_replay {numbers bounds : List Nat} (h : List.Forall₂ (· < ·) numbers bounds)
    (later : List Nat) :
    RandomSource.rolls bounds (Replay.mk (numbers ++ later)) = (numbers, ⟨later⟩) := by
  induction h with
  | nil => rfl
  | @cons number bound numbers bounds hnumber _ ih =>
      have hbelow : RandomSource.below bound (Replay.mk (number :: (numbers ++ later))) =
          (number, ⟨numbers ++ later⟩) := by
        simp [RandomSource.below, hnumber]
      rw [List.cons_append, RandomSource.rolls_cons, hbelow, ih]

end LSystem
