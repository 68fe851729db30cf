import LSystem.ContextIndex

/-!
One pass over a word. The candidates of all positions are fixed by the word before the pass; a
chooser then picks a block for each position from left to right, and the blocks are joined.
-/

namespace LSystem

/-- A position of a word as a chooser sees it. -/
structure Site where
  token : Token
  candidates : List Word
deriving DecidableEq

/-- Picks the block of a site and goes on to a next state. -/
abbrev Chooser (σ : Type u) := Token → List Word → σ → Word × σ

/-- Whether the tokens from `i` on begin with a pattern that fits into the word. -/
def agreesFrom (word : Array Token) :
    (pattern : List Token) → (i : Nat) → i + pattern.length ≤ word.size → Bool
  | [], _, _ => true
  | token :: rest, i, fits =>
      have : i < word.size := by simp only [List.length_cons] at fits; omega
      word[i] == token &&
        agreesFrom word rest (i + 1) (by simp only [List.length_cons] at fits; omega)

/-- The alternatives of a rule at a position, if its window lies in the word and holds the pattern;
none otherwise. -/
def ContextRule.firing (rule : ContextRule) (word : Array Token) (position : Int) :
    Alternatives :=
  let start := position - rule.center
  if h : 0 ≤ start ∧ start + rule.pattern.length ≤ word.size then
    if agreesFrom word rule.pattern start.toNat (by omega) then rule.alternatives else []
  else []

theorem agreesFrom_iff (word : Array Token) (pattern : List Token) (i : Nat)
    (fits : i + pattern.length ≤ word.size) :
    agreesFrom word pattern i fits = true ↔ (word.toList.drop i).take pattern.length = pattern := by
  induction pattern generalizing i with
  | nil => simp [agreesFrom]
  | cons token rest ih =>
      have hi : i < word.toList.length := by
        simp only [List.length_cons, Array.length_toList] at fits ⊢
        omega
      rw [agreesFrom, Bool.and_eq_true, ih, List.drop_eq_getElem_cons hi]
      simp

/-- A rule fires where the tokens of its window are those of its pattern. -/
theorem ContextRule.firing_eq (rule : ContextRule) (word : Array Token) (position : Int) :
    rule.firing word position =
      if 0 ≤ position - rule.center ∧
          position - rule.center + rule.pattern.length ≤ word.size ∧
          (word.toList.drop (position - rule.center).toNat).take rule.pattern.length =
            rule.pattern
      then rule.alternatives else [] := by
  by_cases h : 0 ≤ position - rule.center ∧
      position - rule.center + rule.pattern.length ≤ word.size
  · simp only [firing, agreesFrom_iff, h, true_and, dite_true]
  · rw [if_neg (fun hc => h ⟨hc.1, hc.2.1⟩)]
    simp only [firing, dif_neg h]

/-- The candidates of a position are the alternatives of all rules, in the order of the rules. -/
def ContextIndex.candidates (index : ContextIndex) (word : Array Token) (position : Int) :
    List Word :=
  index.rules.flatMap (fun rule => rule.firing word position)

/-- The sites of a word when a token is its own key. -/
def Grammar.sites (g : Grammar) (word : Word) : List Site :=
  word.map (fun token => ⟨token, g.replacements token⟩)

/-- The sites of a word when windows are matched at every position. -/
def ContextIndex.sites (index : ContextIndex) (word : Word) : List Site :=
  let tokens := word.toArray
  word.mapIdx (fun i token => ⟨token, index.candidates tokens i⟩)

/-- Adds the block of one site to what has been written. -/
def emit (choose : Chooser σ) : Array Token × σ → Site → Array Token × σ
  | (written, state), site =>
      match choose site.token site.candidates state with
      | (block, next) => (written ++ block, next)

/-- Visits all sites from left to right. -/
def rewriteSites (choose : Chooser σ) (sites : List Site) (state : σ) : Word × σ :=
  match sites.foldl (emit choose) (#[], state) with
  | (written, next) => (written.toList, next)

theorem foldl_emit (choose : Chooser σ) (sites : List Site) (written : Array Token) (state : σ) :
    sites.foldl (emit choose) (written, state) =
      (written ++ (rewriteSites choose sites state).1, (rewriteSites choose sites state).2) := by
  induction sites generalizing written state with
  | nil => simp [rewriteSites]
  | cons site sites ih =>
      simp only [rewriteSites, List.foldl_cons, emit]
      rw [ih, ih]
      simp [← Array.toList_inj]

@[simp] theorem rewriteSites_nil (choose : Chooser σ) (state : σ) :
    rewriteSites choose [] state = ([], state) := rfl

theorem rewriteSites_cons (choose : Chooser σ) (site : Site) (sites : List Site) (state : σ) :
    rewriteSites choose (site :: sites) state =
      ((choose site.token site.candidates state).1 ++
        (rewriteSites choose sites (choose site.token site.candidates state).2).1,
        (rewriteSites choose sites (choose site.token site.candidates state).2).2) := by
  rw [rewriteSites, List.foldl_cons, emit, foldl_emit]
  simp

def Grammar.rewrite (g : Grammar) (choose : Chooser σ) (word : Word) (state : σ) : Word × σ :=
  rewriteSites choose (g.sites word) state

def ContextIndex.rewrite (index : ContextIndex) (choose : Chooser σ) (word : Word) (state : σ) :
    Word × σ :=
  rewriteSites choose (index.sites word) state

end LSystem
