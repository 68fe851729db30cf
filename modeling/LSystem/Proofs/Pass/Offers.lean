import LSystem.Derivation
import LSystem.Proofs.Pass.FastPath
import LSystem.Proofs.Pass.Sites
import Mathlib.Data.List.Forall2

/-! # Candidates and the blocks on offer

The candidates that a pass collects for a place are the blocks that the rules have on offer there,
so a derivation step picks one block for each site. -/

namespace LSystem

/-! ## Blocks on offer -/

theorem occursAt_iff {pattern : List Token} {word : Word} {start : Int} :
    OccursAt pattern word start ↔
      0 ≤ start ∧ start + pattern.length ≤ word.length ∧
        (word.drop start.toNat).take pattern.length = pattern := by
  constructor
  · rintro ⟨before, after, rfl, rfl⟩
    refine ⟨Int.natCast_nonneg _, ?_, ?_⟩
    · simp only [List.length_append]
      omega
    · simp
  · rintro ⟨hstart, hend, hwindow⟩
    have hwhole : word = word.take start.toNat ++ pattern ++
        (word.drop start.toNat).drop pattern.length := by
      conv_lhs => rw [← List.take_append_drop start.toNat word,
        ← List.take_append_drop pattern.length (word.drop start.toNat), hwindow]
      rw [List.append_assoc]
    refine ⟨_, _, hwhole, ?_⟩
    rw [List.length_take]
    omega

theorem ContextRule.mem_firing_iff {rule : ContextRule} {word : Word} {position : Int}
    {block : Word} :
    block ∈ rule.firing word.toArray position ↔
      OccursAt rule.pattern word (position - rule.center) ∧ block ∈ rule.alternatives := by
  rw [firing_eq, List.mem_ite_nil_right, occursAt_iff, List.size_toArray]

theorem Grammar.mem_replacements_iff {g : Grammar} {token : Token} {block : Word} :
    block ∈ g.replacements token ↔
      ∃ alternatives, (token, alternatives) ∈ g.rules.entries ∧ block ∈ alternatives := by
  rw [replacements, Table.get?, lookup_getD_eq g.rules.nodup]
  simp only [List.mem_flatMap, List.mem_filter, decide_eq_true_eq]
  constructor
  · rintro ⟨⟨_, alternatives⟩, ⟨hentry, rfl⟩, hblock⟩
    exact ⟨alternatives, hentry, hblock⟩
  · rintro ⟨alternatives, hentry, hblock⟩
    exact ⟨(token, alternatives), ⟨hentry, rfl⟩, hblock⟩

theorem System.offers_iff {s : System} {word : Word} {i : Nat} {site : Site}
    (hsite : (s.sites word)[i]? = some site) {block : Word} :
    s.Offers word i block ↔ block ∈ site.candidates := by
  cases hmode : s.mode with
  | plain =>
      simp only [sites, hmode, Grammar.sites, List.getElem?_map, Option.map_eq_some_iff] at hsite
      obtain ⟨token, htoken, rfl⟩ := hsite
      rw [Grammar.mem_replacements_iff]
      constructor
      · intro h
        cases h with
        | @key other alternatives _ _ hother hentry hblock =>
            rw [htoken] at hother
            cases hother
            exact ⟨alternatives, hentry, hblock⟩
        | window hcontext => simp [hmode] at hcontext
      · rintro ⟨alternatives, hentry, hblock⟩
        exact .key hmode htoken hentry hblock
  | context =>
      simp only [sites, hmode, ContextIndex.sites, List.getElem?_mapIdx,
        Option.map_eq_some_iff] at hsite
      obtain ⟨token, -, rfl⟩ := hsite
      simp only [ContextIndex.candidates, List.mem_flatMap, ContextRule.mem_firing_iff]
      constructor
      · intro h
        cases h with
        | key hplain => simp [hmode] at hplain
        | @window rule _ _ hrule hoccurs hblock => exact ⟨rule, hrule, hoccurs, hblock⟩
      · rintro ⟨rule, hrule, hoccurs, hblock⟩
        exact .window hmode hrule hoccurs hblock

/-! ## A block for each site -/

/-- A block that may be written for a site: a candidate, or the token if there is none. -/
inductive Site.Yields : Site → Word → Prop where
  | token (token : Token) : Yields ⟨token, []⟩ [token]
  | candidate {site : Site} {block : Word} : block ∈ site.candidates → Yields site block

namespace System

theorem replaces_iff {s : System} {word : Word} {i : Nat} {site : Site}
    (hsite : (s.sites word)[i]? = some site) {block : Word} :
    s.Replaces word i site.token block ↔ site.Yields block := by
  obtain ⟨token, candidates⟩ := site
  constructor
  · intro h
    cases h with
    | kept hnone =>
        have hempty : candidates = [] := by
          apply List.eq_nil_iff_forall_not_mem.mpr
          intro block hblock
          exact hnone block ((offers_iff hsite).mpr hblock)
        cases hempty
        exact .token token
    | block hoffer => exact .candidate ((offers_iff hsite).mp hoffer)
  · intro h
    cases h with
    | token =>
        refine .kept token (fun block hoffer => ?_)
        have hblock := (offers_iff hsite).mp hoffer
        cases hblock
    | candidate hblock => exact .block token ((offers_iff hsite).mpr hblock)

/-- A derivation step writes one block for each site. -/
theorem derives_iff {s : System} {word next : Word} :
    s.Derives word next ↔
      ∃ blocks, List.Forall₂ Site.Yields (s.sites word) blocks ∧ next = blocks.flatten := by
  constructor
  · rintro ⟨blocks, hlength, hreplaces, hnext⟩
    refine ⟨blocks, ?_, hnext⟩
    apply List.forall₂_of_length_eq_of_get
    · rw [length_sites, hlength]
    · intro i hi hblock
      have hsite := List.getElem?_eq_getElem hi
      apply (replaces_iff hsite).mp
      exact hreplaces i _ _ (getElem?_word hsite) (List.getElem?_eq_getElem hblock)
  · rintro ⟨blocks, hyields, hnext⟩
    refine ⟨blocks, ?_, ?_, hnext⟩
    · rw [← hyields.length_eq, length_sites]
    · intro i token block htoken hblock
      obtain ⟨hi, rfl⟩ := List.getElem?_eq_some_iff.mp hblock
      have hsite := List.getElem?_eq_getElem (l := s.sites word) (i := i)
        (by rwa [hyields.length_eq])
      rw [getElem?_word hsite] at htoken
      cases htoken
      apply (replaces_iff hsite).mpr
      exact hyields.get _ hi

end System

end LSystem
