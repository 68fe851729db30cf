import LSystem.Proofs.Pass.Simultaneous
import Mathlib.Data.List.MinMax
import Mathlib.Order.Nat

/-! # Windows around a place

What the rules offer for a place depends on the tokens of their windows and on nothing else. A word that
is part of a longer one has the candidates that it has by itself, but for places so near to an end that a
window reaches into what is added there. -/

namespace LSystem

/-! ## Occurrences token by token -/

/-- A part of a word is read at its places behind what stands before it. -/
theorem getElem?_append_of_lt {u s v : Word} {i : Nat} (h : i < s.length) :
    (u ++ s ++ v)[u.length + i]? = s[i]? := by
  rw [List.append_assoc, List.getElem?_append_right (Nat.le_add_right _ _),
    Nat.add_sub_cancel_left, List.getElem?_append_left h]

theorem tokenAt_eq_ok_iff {word : Word} {place : Int} {token : Token} :
    tokenAt word place = .ok token ↔ 0 ≤ place ∧ word[place.toNat]? = some token := by
  unfold tokenAt
  split
  case isTrue hplace =>
    cases word[place.toNat]? <;> simp [hplace]
  case isFalse hplace => simp [hplace]

/-- A pattern stands where each of its tokens is found at its place. -/
theorem occursAt_iff_tokenAt {pattern : List Token} (hne : pattern ≠ []) {word : Word}
    {start : Int} :
    OccursAt pattern word start ↔
      ∀ (j : Nat) (token : Token), pattern[j]? = some token → tokenAt word (start + j) = .ok token := by
  constructor
  · rintro ⟨before, after, rfl, rfl⟩ j token htoken
    have hj : j < pattern.length := (List.getElem?_eq_some_iff.mp htoken).1
    rw [← Int.natCast_add]
    apply tokenAt_natCast
    rw [getElem?_append_of_lt hj, htoken]
  · intro h
    have hplaces : ∀ j < pattern.length,
        0 ≤ start + j ∧ word[(start + j).toNat]? = pattern[j]? := by
      intro j hj
      have htoken := List.getElem?_eq_getElem hj
      rw [htoken]
      exact tokenAt_eq_ok_iff.mp (h j _ htoken)
    have hpositive : 0 < pattern.length := List.length_pos_iff.mpr hne
    obtain ⟨hstart, -⟩ := hplaces 0 hpositive
    -- The last token of the pattern shows that the word does not end before it.
    obtain ⟨-, hlast⟩ := hplaces (pattern.length - 1) (by omega)
    rw [List.getElem?_eq_getElem (l := pattern) (by omega)] at hlast
    have hend := (List.getElem?_eq_some_iff.mp hlast).1
    refine occursAt_iff.mpr ⟨by omega, by omega, ?_⟩
    apply List.ext_getElem?
    intro j
    by_cases hj : j < pattern.length
    · have hplace : start.toNat + j = (start + j).toNat := by omega
      rw [List.getElem?_take_of_lt hj, List.getElem?_drop, hplace, (hplaces j hj).2]
    · rw [List.getElem?_eq_none (by simp; omega), List.getElem?_eq_none (by omega)]

/-! ## How far an index looks -/

namespace ContextIndex

/-- The number of tokens before a place that the rules may look at. -/
def reachBefore (index : ContextIndex) : Nat :=
  (index.rules.map (fun rule => rule.center.toNat)).foldr max 0

/-- The number of tokens after a place that the rules may look at. -/
def reachAfter (index : ContextIndex) : Nat :=
  (index.rules.map (fun rule => (rule.pattern.length - 1 - rule.center).toNat)).foldr max 0

variable {index : ContextIndex} {rule : ContextRule} (h : rule ∈ index.rules)
include h

theorem center_le_reachBefore : rule.center ≤ index.reachBefore := by
  have hle : rule.center.toNat ≤ index.reachBefore :=
    List.le_max_of_le (List.mem_map_of_mem h) (Nat.le_refl _)
  omega

theorem length_le_reachAfter : rule.pattern.length - 1 - rule.center ≤ index.reachAfter := by
  have hle : (rule.pattern.length - 1 - rule.center).toNat ≤ index.reachAfter :=
    List.le_max_of_le (List.mem_map_of_mem h) (Nat.le_refl _)
  omega

end ContextIndex

/-! ## Places with the same surroundings -/

/-- Two places are alike in their words: the same tokens stand before and after them, as far as the given
numbers of tokens, and the words end alike. -/
def AgreeAround (before after : Nat) (word : Word) (p : Int) (other : Word) (q : Int) : Prop :=
  ∀ d : Int, -before ≤ d → d ≤ after →
    ∀ token, tokenAt word (p + d) = .ok token ↔ tokenAt other (q + d) = .ok token

namespace AgreeAround

variable {before after : Nat} {word other : Word} {p q : Int}

theorem occursAt_iff (h : AgreeAround before after word p other q) {rule : ContextRule}
    (hbefore : rule.center ≤ before) (hafter : rule.pattern.length - 1 - rule.center ≤ after) :
    OccursAt rule.pattern word (p - rule.center) ↔
      OccursAt rule.pattern other (q - rule.center) := by
  rw [occursAt_iff_tokenAt rule.pattern_ne_nil, occursAt_iff_tokenAt rule.pattern_ne_nil]
  apply forall_congr'
  intro j
  apply forall_congr'
  intro token
  apply imp_congr_right
  intro htoken
  have hj : j < rule.pattern.length := (List.getElem?_eq_some_iff.mp htoken).1
  have hword : p - rule.center + j = p + (j - rule.center) := by omega
  have hother : q - rule.center + j = q + (j - rule.center) := by omega
  rw [hword, hother]
  exact h _ (by omega) (by omega) token

/-- Alike places have the same candidates. -/
theorem candidates_eq {index : ContextIndex}
    (h : AgreeAround index.reachBefore index.reachAfter word p other q) :
    index.candidates word.toArray p = index.candidates other.toArray q := by
  apply List.flatMap_congr
  intro rule hrule
  have hoccurs := h.occursAt_iff (ContextIndex.center_le_reachBefore hrule)
    (ContextIndex.length_le_reachAfter hrule)
  simp only [ContextRule.firing_eq_ite, hoccurs]

end AgreeAround

/-! ## A word within a longer one -/

theorem OccursAt.append {pattern : List Token} {s : Word} {start : Int}
    (h : OccursAt pattern s start) (u v : Word) :
    OccursAt pattern (u ++ s ++ v) (u.length + start) := by
  obtain ⟨before, after, rfl, rfl⟩ := h
  exact ⟨u ++ before, after ++ v, by simp, by simp⟩

/-- Beyond an end of a word nothing is found, unless something is added there. -/
theorem tokenAt_append {u s v : Word} {place : Int} (hbefore : u = [] ∨ 0 ≤ place)
    (hafter : v = [] ∨ place < s.length) (token : Token) :
    tokenAt (u ++ s ++ v) (u.length + place) = .ok token ↔ tokenAt s place = .ok token := by
  rw [tokenAt_eq_ok_iff, tokenAt_eq_ok_iff]
  by_cases hplace : 0 ≤ place
  · have hindex : (u.length + place).toNat = u.length + place.toNat := by omega
    have hword : (u ++ s ++ v)[u.length + place.toNat]? = s[place.toNat]? := by
      rcases hafter with rfl | hlt
      · rw [List.append_nil, List.getElem?_append_right (Nat.le_add_right _ _),
          Nat.add_sub_cancel_left]
      · exact getElem?_append_of_lt (by omega)
    rw [hindex, hword]
    simp [hplace]
    omega
  · have hempty : u = [] := hbefore.resolve_right hplace
    simp [hempty, hplace]

/-- A chooser that goes by token and candidates alone writes its block for each site. -/
theorem blockAt_of_forall {σ : Type u} {choose : Chooser σ} {block : Token → List Word → Word}
    (h : ∀ token candidates state, (choose token candidates state).1 = block token candidates)
    (sites : List Site) (state : σ) (p : Nat) :
    blockAt choose sites state p = sites[p]?.map (fun site => block site.token site.candidates) := by
  simp only [blockAt, h]

namespace ContextIndex

variable (index : ContextIndex)

theorem getElem?_sites (word : Word) (p : Nat) :
    (index.sites word)[p]? =
      word[p]?.map (fun token => ⟨token, index.candidates word.toArray p⟩) := by
  simp [sites]

theorem candidates_sublist (u s v : Word) (p : Int) :
    (index.candidates s.toArray p).Sublist
      (index.candidates (u ++ s ++ v).toArray (u.length + p)) := by
  apply List.Sublist.flatMap_right
  intro rule _
  rw [ContextRule.firing_eq_ite, ContextRule.firing_eq_ite]
  split
  case isTrue hoccurs =>
    have hplace : (u.length : Int) + p - rule.center = u.length + (p - rule.center) := by omega
    rw [if_pos (by rw [hplace]; exact hoccurs.append u v)]
  case isFalse => exact List.nil_sublist _

/-- A word has no more candidates than it has within a longer word, in the same order. It has the same
where no window reaches beyond an end at which the longer word goes on, so that a chooser that goes by
token and candidates alone writes the same block there. -/
theorem candidates_local.{u} (u s v : Word) {p : Nat} (hp : p < s.length) :
    (index.candidates s.toArray p).Sublist
        (index.candidates (u ++ s ++ v).toArray (u.length + p)) ∧
      ((u = [] ∨ index.reachBefore ≤ p) → (v = [] ∨ p + index.reachAfter < s.length) →
        index.candidates (u ++ s ++ v).toArray (u.length + p) = index.candidates s.toArray p ∧
        ∀ {σ : Type u} (choose : Chooser σ) (block : Token → List Word → Word),
          (∀ token candidates state, (choose token candidates state).1 = block token candidates) →
          ∀ state state' : σ, ∃ written,
            blockAt choose (index.sites (u ++ s ++ v)) state (u.length + p) = some written ∧
            blockAt choose (index.sites s) state' p = some written) := by
  refine ⟨index.candidates_sublist u s v p, ?_⟩
  intro hbefore hafter
  have hagree : AgreeAround index.reachBefore index.reachAfter (u ++ s ++ v) (u.length + p) s p := by
    intro d hd hd' token
    rw [Int.add_assoc]
    exact tokenAt_append (hbefore.imp_right (by omega)) (hafter.imp_right (by omega)) token
  refine ⟨hagree.candidates_eq, ?_⟩
  intro σ choose block hblock state state'
  have hs : s[p]? = some s[p] := List.getElem?_eq_getElem hp
  have hword : (u ++ s ++ v)[u.length + p]? = some s[p] := (getElem?_append_of_lt hp).trans hs
  refine ⟨block s[p] (index.candidates s.toArray p), ?_, ?_⟩
  · rw [blockAt_of_forall hblock, getElem?_sites, hword, Int.natCast_add, hagree.candidates_eq]
    rfl
  · rw [blockAt_of_forall hblock, getElem?_sites, hs]
    rfl

/-- A rule with tokens on both sides, and one whose window ends before its place. -/
def flanked : ContextIndex :=
  ⟨[.ofWindow 1 "a" ["b", "c"] [["x"]], .ofWindow 2 "a" ["a"] [["y"]], .ofToken "b" [["z"]]], true⟩

/-- A chooser that takes the first candidate. -/
def chooseFirst : Chooser Unit := fun token candidates state => (candidates.headD [token], state)

/-- The first place lies too near to the begin, where the longer word has one token more. -/
theorem candidates_local_flanked :
    (flanked.candidates #["b", "c"] 0).Sublist (flanked.candidates #["a", "b", "c"] 1) ∧
    flanked.candidates #["b", "c"] 0 ≠ flanked.candidates #["a", "b", "c"] 1 ∧
    flanked.reachBefore = 2 ∧ flanked.reachAfter = 1 ∧
    flanked.candidates #["a", "a", "a", "b", "c", "b"] 3 =
      flanked.candidates #["a", "a", "b", "c"] 2 ∧
    blockAt chooseFirst (flanked.sites ["a", "a", "a", "b", "c", "b"]) () 3 =
      blockAt chooseFirst (flanked.sites ["a", "a", "b", "c"]) () 2 := by
  have hbegin := (flanked.candidates_local.{0} ["a"] ["b", "c"] [] (p := 0) (by decide)).1
  have hinner := (flanked.candidates_local.{0} ["a"] ["a", "a", "b", "c"] ["b"] (p := 2)
    (by decide)).2 (.inr (by decide)) (.inr (by decide))
  obtain ⟨written, hlonger, hshorter⟩ := hinner.2 chooseFirst
    (fun token candidates => candidates.headD [token]) (fun _ _ _ => rfl) () ()
  exact ⟨hbegin, by decide, by decide, by decide, hinner.1, hlonger.trans hshorter.symm⟩

end ContextIndex

end LSystem
