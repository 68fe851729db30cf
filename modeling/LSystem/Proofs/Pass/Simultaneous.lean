import LSystem.Pass.Scan
import LSystem.Proofs.Pass.Offers
import LSystem.Proofs.Pass.Places

/-! # A pass replaces all tokens at once

A pass that goes through a word token by token never leaves the word, and what it shows the chooser
depends on the word alone: at each place, once and in order, the alternatives of the rules whose
pattern stands around it. -/

namespace LSystem

variable {word : Word}

instance (pattern : List Token) (word : Word) (start : Int) : Decidable (OccursAt pattern word start) :=
  decidable_of_iff _ occursAt_iff.symm

/-! ## Calls by occurrences -/

namespace ContextIndex

/-- The alternatives of all rules whose pattern stands around a place, in the order of the rules. -/
def pool (index : ContextIndex) (word : Word) (position : Int) : List Word :=
  (index.rules.filter
    (fun rule => OccursAt rule.pattern word (position - rule.center))).flatMap (·.alternatives)

/-- What a chooser is asked in a pass over a word. -/
def calls (index : ContextIndex) (word : Word) : List Site :=
  word.mapIdx (fun i token => ⟨token, index.pool word i⟩)

end ContextIndex

theorem ContextRule.firing_eq_ite (rule : ContextRule) (word : Word) (position : Int) :
    rule.firing word.toArray position =
      if OccursAt rule.pattern word (position - rule.center) then rule.alternatives else [] := by
  simp only [firing_eq, occursAt_iff, List.size_toArray]

theorem ContextIndex.candidates_eq_pool (index : ContextIndex) (word : Word) (position : Int) :
    index.candidates word.toArray position = index.pool word position := by
  simp only [candidates, pool, flatMap_filter, ContextRule.firing_eq_ite, decide_eq_true_eq]

theorem ContextIndex.sites_eq_calls (index : ContextIndex) (word : Word) :
    index.sites word = index.calls word := by
  simp only [sites, calls, candidates_eq_pool]

/-! ## Looks at places of the word -/

theorem tokenAt_natCast {i : Nat} {token : Token} (h : word[i]? = some token) :
    tokenAt word i = .ok token := by
  simp [tokenAt, h]

/-- A window that lies in the word is compared without a look beyond it. -/
theorem comparePattern_natCast {pattern : List Token} {i : Nat} (h : i + pattern.length ≤ word.length) :
    comparePattern word pattern i =
      .ok (decide ((word.drop i).take pattern.length = pattern)) := by
  induction pattern generalizing i with
  | nil => simp [comparePattern]
  | cons token rest ih =>
      rw [List.length_cons] at h
      have hi : i < word.length := by omega
      have hrest := ih (i := i + 1) (by omega)
      have hwindow : (word.drop i).take (token :: rest).length =
          word[i] :: (word.drop (i + 1)).take rest.length := by
        rw [List.drop_eq_getElem_cons hi, List.length_cons, List.take_succ_cons]
      rw [comparePattern, tokenAt_natCast (List.getElem?_eq_getElem hi), hwindow]
      by_cases htoken : word[i] = token
      · simpa [bind, Except.bind, htoken] using hrest
      · simp [bind, Except.bind, pure, Except.pure, htoken]

theorem ContextRule.scan_eq (rule : ContextRule) (word : Word) (position : Int) :
    rule.scan word position = .ok (rule.firing word.toArray position) := by
  rw [firing_eq_ite]
  by_cases hinside : 0 ≤ position - rule.center ∧
      position - rule.center + rule.pattern.length ≤ word.length
  · obtain ⟨i, hi⟩ := Int.eq_ofNat_of_zero_le hinside.1
    have hwindow : i + rule.pattern.length ≤ word.length := by omega
    have hcompare := comparePattern_natCast hwindow
    have hoccurs : OccursAt rule.pattern word (position - rule.center) ↔
        (word.drop i).take rule.pattern.length = rule.pattern := by
      rw [occursAt_iff, hi, Int.toNat_natCast]
      exact ⟨fun h => h.2.2, fun h => ⟨Int.natCast_nonneg i, hi ▸ hinside.2, h⟩⟩
    simp only [scan, hoccurs]
    rw [if_neg (by omega), hi, hcompare]
    by_cases hpattern : (word.drop i).take rule.pattern.length = rule.pattern
    · rw [if_pos hpattern, decide_eq_true hpattern]
      rfl
    · rw [if_neg hpattern, decide_eq_false hpattern]
      rfl
  · have houtside : ¬ OccursAt rule.pattern word (position - rule.center) := by
      rw [occursAt_iff]
      exact fun h => hinside ⟨h.1, h.2.1⟩
    simp only [scan]
    rw [if_pos (by omega), if_neg houtside]
    rfl

theorem foldlM_scan (word : Word) (position : Int) (rules : List ContextRule) (found : List Word) :
    rules.foldlM (fun found rule => return found ++ (← rule.scan word position)) found =
      Except.ok (found ++ rules.flatMap (fun rule => rule.firing word.toArray position)) := by
  induction rules generalizing found with
  | nil =>
      rw [List.flatMap_nil, List.append_nil]
      rfl
  | cons rule rules ih =>
      rw [List.foldlM_cons, rule.scan_eq, List.flatMap_cons, ← List.append_assoc, ← ih]
      rfl

theorem ContextIndex.scan_eq (index : ContextIndex) (word : Word) (position : Int) :
    index.scan word position = .ok (index.candidates word.toArray position) :=
  foldlM_scan word position index.rules []

theorem ContextIndex.scanPlace_eq {σ : Type u} (index : ContextIndex) (choose : Chooser σ) {i : Nat}
    {token : Token} (h : word[i]? = some token) (done : Word × σ) :
    index.scanPlace choose word done i =
      .ok (done.1 ++ (choose token (index.candidates word.toArray i) done.2).1,
        (choose token (index.candidates word.toArray i) done.2).2) := by
  simp only [scanPlace, tokenAt_natCast h, index.scan_eq]

/-- A pass that has come to a place has written what the places before it yield. -/
theorem ContextIndex.scanPass_take {σ : Type u} (index : ContextIndex) (choose : Chooser σ) (state : σ)
    {n : Nat} (h : n ≤ word.length) :
    (List.range n).foldlM (index.scanPlace choose word) ([], state) =
      .ok (rewriteSites choose ((index.sites word).take n) state) := by
  induction n with
  | zero => rfl
  | succ n ih =>
      have hword := List.getElem?_eq_getElem (l := word) (i := n) (by omega)
      have hsite : (index.sites word)[n]? =
          some ⟨word[n], index.candidates word.toArray n⟩ := by
        simp [sites, hword]
      rw [List.range_succ, List.foldlM_append, ih (by omega), rewriteSites_take_succ _ _ hsite,
        stateAt, ← index.scanPlace_eq choose hword]
      exact bind_pure (m := Except OutsideWord) _

theorem ContextIndex.scanPass_eq {σ : Type u} (index : ContextIndex) (choose : Chooser σ) (word : Word)
    (state : σ) : index.scanPass choose word state = .ok (index.rewrite choose word state) := by
  have hlength : (index.sites word).length = word.length := by simp [sites]
  rw [scanPass, index.scanPass_take choose state (Nat.le_refl _), rewrite, ← hlength,
    List.take_length]

/-! ## One answer to each call -/

/-- A chooser answers calls one after the other, each in the state that the one before left. -/
inductive Answers {σ : Type u} (choose : Chooser σ) : List Site → σ → List Word → σ → Prop where
  | nil (state : σ) : Answers choose [] state [] state
  | cons {call : Site} {calls : List Site} {state next last : σ} {block : Word}
      {blocks : List Word} :
      choose call.token call.candidates state = (block, next) →
      Answers choose calls next blocks last →
      Answers choose (call :: calls) state (block :: blocks) last

theorem exists_answers {σ : Type u} (choose : Chooser σ) (calls : List Site) (state : σ) :
    ∃ blocks last, Answers choose calls state blocks last ∧
      rewriteSites choose calls state = (blocks.flatten, last) := by
  induction calls generalizing state with
  | nil => exact ⟨[], state, .nil state, rfl⟩
  | cons call calls ih =>
      obtain ⟨blocks, last, hanswers, hrewrite⟩ :=
        ih (choose call.token call.candidates state).2
      refine ⟨_, last, .cons rfl hanswers, ?_⟩
      rw [rewriteSites_cons, hrewrite]
      rfl

/-- A pass never looks beyond the word. Its calls, which the record of any chooser shows to be the
same, are those for the places of the word in order, and it returns the answers joined. -/
theorem ContextIndex.rewrite_calls {σ : Type u} (index : ContextIndex) (word : Word)
    (choose : Chooser σ) (state : σ) :
    index.scanPass choose word state = .ok (index.rewrite choose word state) ∧
    index.rewrite choose.recording word (state, #[]) =
      ((index.rewrite choose word state).1, (index.rewrite choose word state).2,
        (index.calls word).toArray) ∧
    ∃ blocks last, Answers choose (index.calls word) state blocks last ∧
      index.rewrite choose word state = (blocks.flatten, last) := by
  refine ⟨index.scanPass_eq choose word state, ?_, ?_⟩
  · rw [rewrite, rewriteSites_recording, sites_eq_calls]
    simp [rewrite, sites_eq_calls]
  · rw [rewrite, sites_eq_calls]
    exact exists_answers choose (index.calls word) state

/-- The center of the first rule is the place before its window. -/
example :
    ContextIndex.calls ⟨[.ofWindow (-1) "a" ["b"] [["x"]], .ofToken "c" [["y"], ["y"]]], true⟩
        ["c", "a", "b"] =
      [⟨"c", [["x"], ["y"], ["y"]]⟩, ⟨"a", []⟩, ⟨"b", []⟩] := by decide

end LSystem
