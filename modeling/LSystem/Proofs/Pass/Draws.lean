import LSystem.Random.Source
import Mathlib.Data.List.Forall2
import Mathlib.Data.List.GetD

/-! # Draws of a pass

A pass draws once for each site with several candidates, from left to right, and the numbers drawn
decide what it writes. -/

namespace LSystem

/-! ## Numbers from a source -/

namespace RandomSource

variable {σ : Type u} [RandomSource σ]

/-- Asks for one number below each bound, in order. -/
def rolls : List Nat → σ → List Nat × σ
  | [], source => ([], source)
  | bound :: rest, source =>
      let (number, source) := below bound source
      let (numbers, source) := rolls rest source
      (number :: numbers, source)

@[simp] theorem rolls_nil (source : σ) : rolls [] source = ([], source) := rfl

theorem rolls_cons (bound : Nat) (rest : List Nat) (source : σ) :
    rolls (bound :: rest) source =
      ((below bound source).1 :: (rolls rest (below bound source).2).1,
        (rolls rest (below bound source).2).2) := rfl

theorem rolls_append (bounds more : List Nat) (source : σ) :
    rolls (bounds ++ more) source =
      ((rolls bounds source).1 ++ (rolls more (rolls bounds source).2).1,
        (rolls more (rolls bounds source).2).2) := by
  induction bounds generalizing source with
  | nil => rfl
  | cons bound rest ih => rw [List.cons_append, rolls_cons, rolls_cons, ih, List.cons_append]

@[simp] theorem length_rolls (bounds : List Nat) (source : σ) :
    (rolls bounds source).1.length = bounds.length := by
  induction bounds generalizing source with
  | nil => rfl
  | cons bound rest ih => rw [rolls_cons, List.length_cons, ih, List.length_cons]

/-- Numbers drawn for positive bounds are in range. -/
theorem rolls_lt {bounds : List Nat} (h : ∀ bound ∈ bounds, 0 < bound) (source : σ) :
    List.Forall₂ (· < ·) (rolls bounds source).1 bounds := by
  induction bounds generalizing source with
  | nil => exact .nil
  | cons bound rest ih =>
      obtain ⟨hbound, hrest⟩ := List.forall_mem_cons.mp h
      exact .cons (below_lt source hbound) (ih hrest _)

end RandomSource

/-! ## Sites that need a draw -/

/-- The numbers of candidates where there are several, in order. -/
def drawBounds (sites : List Site) : List Nat :=
  (sites.map (fun site => site.candidates.length)).filter (fun count => 2 ≤ count)

theorem drawBounds_cons_of_lt {site : Site} (h : site.candidates.length < 2) (sites : List Site) :
    drawBounds (site :: sites) = drawBounds sites := by
  simp [drawBounds, Nat.not_le_of_lt h]

theorem drawBounds_cons_of_le {site : Site} (h : 2 ≤ site.candidates.length) (sites : List Site) :
    drawBounds (site :: sites) = site.candidates.length :: drawBounds sites := by
  simp [drawBounds, h]

theorem pos_of_mem_drawBounds {sites : List Site} : ∀ bound ∈ drawBounds sites, 0 < bound := by
  intro bound hbound
  have htwo := (List.mem_filter.mp hbound).2
  simp only [decide_eq_true_eq] at htwo
  omega

/-- The blocks of the sites when these numbers were drawn. -/
def fill : List Site → List Nat → List Word
  | [], _ => []
  | site :: sites, drawn =>
      match site.candidates with
      | [] => [site.token] :: fill sites drawn
      | [single] => single :: fill sites drawn
      | first :: others => (first :: others).getD (drawn.headD 0) first :: fill sites drawn.tail

@[simp] theorem length_fill (sites : List Site) (drawn : List Nat) :
    (fill sites drawn).length = sites.length := by
  induction sites generalizing drawn with
  | nil => rfl
  | cons site sites ih =>
      rw [fill]
      split <;> simp [ih]

theorem fill_cons_of_lt {site : Site} (h : site.candidates.length < 2) (sites : List Site)
    (drawn : List Nat) :
    fill (site :: sites) drawn = site.candidates.headD [site.token] :: fill sites drawn := by
  obtain ⟨token, candidates⟩ := site
  match candidates with
  | [] | [_] => rfl
  | _ :: _ :: _ =>
      simp only [List.length_cons] at h
      omega

theorem fill_cons_of_le {site : Site} (h : 2 ≤ site.candidates.length) {number : Nat}
    (hnumber : number < site.candidates.length) (sites : List Site) (drawn : List Nat) :
    fill (site :: sites) (number :: drawn) = site.candidates[number] :: fill sites drawn := by
  obtain ⟨token, candidates⟩ := site
  match candidates with
  | [] | [_] => simp at h
  | first :: second :: others =>
      have hblock := List.getD_eq_getElem (first :: second :: others) first hnumber
      rw [← hblock]
      rfl

theorem choose_of_lt {σ : Type u} [RandomSource σ] {candidates : List Word}
    (h : candidates.length < 2) (token : Token) (dice : Dice σ) :
    Dice.choose token candidates dice = (candidates.headD [token], dice) := by
  match candidates with
  | [] | [_] => rfl
  | _ :: _ :: _ =>
      simp only [List.length_cons] at h
      omega

theorem choose_of_le {σ : Type u} [RandomSource σ] {candidates : List Word}
    (h : 2 ≤ candidates.length) (token : Token) (source : σ) (draws : Nat)
    (hnumber : (RandomSource.below candidates.length source).1 < candidates.length) :
    Dice.choose token candidates ⟨source, draws⟩ =
      (candidates[(RandomSource.below candidates.length source).1],
        ⟨(RandomSource.below candidates.length source).2, draws + 1⟩) := by
  match candidates with
  | [] | [_] => simp at h
  | first :: second :: others =>
      rw [Dice.choose, Dice.pick]
      simp only [List.length_cons] at hnumber ⊢
      rw [List.getD_eq_getElem _ _ hnumber]

/-- A pass asks its source for the draws it needs and for nothing else, and counts them. -/
theorem rewriteSites_choose {σ : Type u} [RandomSource σ] (sites : List Site) (source : σ)
    (draws : Nat) :
    rewriteSites Dice.choose sites ⟨source, draws⟩ =
      ((fill sites (RandomSource.rolls (drawBounds sites) source).1).flatten,
        ⟨(RandomSource.rolls (drawBounds sites) source).2,
          draws + (drawBounds sites).length⟩) := by
  induction sites generalizing source draws with
  | nil => rfl
  | cons site sites ih =>
      rw [rewriteSites_cons]
      rcases Nat.lt_or_ge site.candidates.length 2 with hfew | hseveral
      · rw [choose_of_lt hfew, ih, drawBounds_cons_of_lt hfew, fill_cons_of_lt hfew,
          List.flatten_cons]
      · have hnumber : (RandomSource.below site.candidates.length source).1 <
            site.candidates.length := RandomSource.below_lt source (by omega)
        rw [choose_of_le hseveral _ _ _ hnumber, ih, drawBounds_cons_of_le hseveral,
          RandomSource.rolls_cons, fill_cons_of_le hseveral hnumber, List.flatten_cons,
          List.length_cons, Nat.add_assoc, Nat.add_comm 1]

theorem fill_of_drawBounds_eq_nil {sites : List Site} (h : drawBounds sites = []) (drawn : List Nat) :
    fill sites drawn = sites.map (fun site => site.candidates.headD [site.token]) := by
  induction sites with
  | nil => rfl
  | cons site sites ih =>
      rcases Nat.lt_or_ge site.candidates.length 2 with hfew | hseveral
      · rw [drawBounds_cons_of_lt hfew] at h
        rw [fill_cons_of_lt hfew, ih h, List.map_cons]
      · rw [drawBounds_cons_of_le hseveral] at h
        cases h

/-- Where nothing is to be chosen, a pass leaves its source alone and writes what the sites say. -/
theorem rewriteSites_of_drawBounds_eq_nil {σ : Type u} [RandomSource σ] {sites : List Site}
    (h : drawBounds sites = []) (dice : Dice σ) :
    rewriteSites Dice.choose sites dice =
      (sites.flatMap (fun site => site.candidates.headD [site.token]), dice) := by
  have hpass := rewriteSites_choose sites dice.source dice.draws
  rw [fill_of_drawBounds_eq_nil h, h] at hpass
  exact hpass

/-- Equal candidates are counted apart, and a site without a choice uses up no number. -/
example : let sites : List Site := [⟨"A", [["B"], ["B"]]⟩, ⟨"B", []⟩, ⟨"C", [[], ["C"], ["D"]]⟩]
    drawBounds sites = [2, 3] ∧ fill sites [1, 2] = [["B"], ["B"], ["D"]] := by
  decide

/-! ## What each site takes -/

/-- The block a site takes if these are the numbers drawn in a run and the next of them has place
`j`. -/
inductive Site.Takes (drawn : List Nat) (j : Nat) : Site → Word → Prop where
  | token (token : Token) : Takes drawn j ⟨token, []⟩ [token]
  | only (token : Token) (block : Word) : Takes drawn j ⟨token, [block]⟩ block
  | drawn {site : Site} {number : Nat} {block : Word} :
      2 ≤ site.candidates.length → drawn[j]? = some number →
      site.candidates[number]? = some block → Takes drawn j site block

namespace Site.Takes

variable {drawn : List Nat} {j : Nat} {site : Site} {block : Word}

/-- Later draws change nothing. -/
theorem append_right (h : site.Takes drawn j block) (later : List Nat) :
    site.Takes (drawn ++ later) j block := by
  cases h with
  | token t => exact .token t
  | only t block => exact .only t block
  | drawn hseveral hnumber hblock =>
      refine .drawn hseveral ?_ hblock
      have hj : j < drawn.length := (List.getElem?_eq_some_iff.mp hnumber).1
      rw [List.getElem?_append_left hj, hnumber]

/-- Earlier draws move the place of the next one. -/
theorem append_left (h : site.Takes drawn j block) (earlier : List Nat) :
    site.Takes (earlier ++ drawn) (earlier.length + j) block := by
  cases h with
  | token t => exact .token t
  | only t block => exact .only t block
  | drawn hseveral hnumber hblock =>
      refine .drawn hseveral ?_ hblock
      rw [List.getElem?_append_right (Nat.le_add_right _ _), Nat.add_sub_cancel_left, hnumber]

/-- Without a choice nothing that was drawn matters. -/
theorem of_lt (h : site.candidates.length < 2) :
    site.Takes drawn j (site.candidates.headD [site.token]) := by
  obtain ⟨token, candidates⟩ := site
  match candidates with
  | [] => exact .token token
  | [block] => exact .only token block
  | _ :: _ :: _ =>
      simp only [List.length_cons] at h
      omega

end Site.Takes

/-- With numbers in range, a site takes the candidate whose number has the place of the site among
those that need a draw. -/
theorem takes_of_fill {sites : List Site} {drawn : List Nat}
    (hdrawn : List.Forall₂ (· < ·) drawn (drawBounds sites)) {i : Nat} {site : Site} {block : Word}
    (hsite : sites[i]? = some site) (hblock : (fill sites drawn)[i]? = some block) :
    site.Takes drawn (drawBounds (sites.take i)).length block := by
  induction sites generalizing drawn i with
  | nil => simp at hsite
  | cons first rest ih =>
      rcases Nat.lt_or_ge first.candidates.length 2 with hfew | hseveral
      · rw [drawBounds_cons_of_lt hfew] at hdrawn
        rw [fill_cons_of_lt hfew] at hblock
        cases i with
        | zero =>
            cases hsite
            cases hblock
            exact .of_lt hfew
        | succ i =>
            rw [List.take_succ_cons, drawBounds_cons_of_lt hfew]
            exact ih hdrawn hsite hblock
      · rw [drawBounds_cons_of_le hseveral] at hdrawn
        cases hdrawn with
        | @cons number _ numbers _ hnumber hnumbers =>
            rw [fill_cons_of_le hseveral hnumber] at hblock
            cases i with
            | zero =>
                cases hsite
                cases hblock
                exact .drawn hseveral rfl (List.getElem?_eq_getElem hnumber)
            | succ i =>
                rw [List.take_succ_cons, drawBounds_cons_of_le hseveral, List.length_cons,
                  Nat.add_comm]
                exact (ih hnumbers hsite hblock).append_left [number]

end LSystem
