import LSystem.Proofs.Text.Words

/-! # Words with blanks around them

Whatever blanks stand between words, before them and after them, the same words are found, and every
text is made up of words and blanks. -/

namespace LSystem.Text

/-- A text of blanks only, which may be empty. -/
def IsGap (text : String) : Prop := ∀ c ∈ text.toList, isBlank c = true

instance (text : String) : Decidable (IsGap text) :=
  decidable_of_iff (text.toList.all isBlank) (by simp [IsGap])

/-- A text spells words if they stand in it in order, with blanks between any two of them and
perhaps before the first and after the last. -/
inductive Spells : String → List String → Prop where
  | gap {gap : String} : IsGap gap → Spells gap []
  | last {before word after : String} :
      IsGap before → IsWord word → IsGap after → Spells (before ++ word ++ after) [word]
  | cons {before word gap rest next : String} {words : List String} :
      IsGap before → IsWord word → IsGap gap → gap ≠ "" → Spells rest (next :: words) →
      Spells (before ++ word ++ gap ++ rest) (word :: next :: words)

/-- Blanks before a text add no word. -/
theorem words_gap_append {gap : String} (hgap : IsGap gap) (text : String) :
    words (gap ++ text) = words text := by
  rw [IsGap] at hgap
  rw [← String.ofList_toList (s := gap)]
  generalize gap.toList = cs at hgap
  induction cs with
  | nil => rw [String.ofList_nil, String.empty_append]
  | cons c cs ih =>
      obtain ⟨hc, hcs⟩ := List.forall_mem_cons.mp hgap
      have hsplit : String.ofList (c :: cs) ++ text =
          "" ++ String.singleton c ++ (String.ofList cs ++ text) := by
        rw [String.ofList_cons, String.empty_append, String.append_assoc]
      rw [hsplit, words_append_blank hc, ih hcs]
      rfl

theorem words_of_isGap {gap : String} (hgap : IsGap gap) : words gap = [] := by
  rw [← String.append_empty (s := gap), words_gap_append hgap]
  rfl

/-- Blanks, of which there is one at least, part the words before them from those after them. -/
theorem words_append_gap {gap : String} (hgap : IsGap gap) (hne : gap ≠ "")
    (before after : String) : words (before ++ gap ++ after) = words before ++ words after := by
  rw [IsGap] at hgap
  obtain ⟨c, cs, hcs⟩ : ∃ c cs, gap.toList = c :: cs :=
    List.exists_cons_of_ne_nil (fun hnil => hne (String.toList_eq_nil_iff.mp hnil))
  rw [hcs] at hgap
  obtain ⟨hc, hrest⟩ := List.forall_mem_cons.mp hgap
  have hsplit : before ++ gap ++ after =
      before ++ String.singleton c ++ (String.ofList cs ++ after) := by
    rw [← String.ofList_toList (s := gap), hcs, String.ofList_cons]
    simp only [String.append_assoc]
  have hgap' : IsGap (String.ofList cs) := by
    rw [IsGap, String.toList_ofList]
    exact hrest
  rw [hsplit, words_append_blank hc, words_gap_append hgap']

/-- Blanks after a text add no word. -/
theorem words_append_of_isGap {gap : String} (hgap : IsGap gap) (text : String) :
    words (text ++ gap) = words text := by
  by_cases hne : gap = ""
  · rw [hne, String.append_empty]
  · have happend := words_append_gap hgap hne text ""
    rw [String.append_empty] at happend
    rw [happend]
    exact List.append_nil _

/-- Words that are joined by the same blanks, of which there is one at least, are found again. -/
theorem words_intercalate {gap : String} (hgap : IsGap gap) (hne : gap ≠ "") {tokens : List String}
    (h : ∀ token ∈ tokens, IsWord token) : words (gap.intercalate tokens) = tokens := by
  induction tokens with
  | nil => rfl
  | cons token rest ih =>
      obtain ⟨htoken, hrest⟩ := List.forall_mem_cons.mp h
      cases rest with
      | nil => rw [String.intercalate_singleton, words_of_isWord htoken]
      | cons next rest =>
          rw [String.intercalate_cons_cons, words_append_gap hgap hne, words_of_isWord htoken,
            ih hrest]
          rfl

theorem Spells.words_eq {text : String} {tokens : List String} (h : Spells text tokens) :
    words text = tokens := by
  induction h with
  | gap hgap => exact words_of_isGap hgap
  | last hbefore hword hafter =>
      rw [words_append_of_isGap hafter, words_gap_append hbefore, words_of_isWord hword]
  | cons hbefore hword hgap hne _ ih =>
      rw [words_append_gap hgap hne, words_gap_append hbefore, words_of_isWord hword, ih]
      rfl

/-! ## Every text spells its words -/

theorem isGap_empty : IsGap "" := nofun

theorem IsGap.append {gap gap' : String} (h : IsGap gap) (h' : IsGap gap') : IsGap (gap ++ gap') := by
  rw [IsGap, String.toList_append]
  exact List.forall_mem_append.mpr ⟨h, h'⟩

theorem isGap_singleton {c : Char} (hc : isBlank c = true) : IsGap (String.singleton c) := by
  simpa [IsGap] using hc

theorem isWord_singleton {c : Char} (hc : isBlank c = false) : IsWord (String.singleton c) := by
  refine ⟨?_, by simpa using hc⟩
  rw [ne_eq, ← String.toList_eq_nil_iff]
  simp

theorem isWord_singleton_append {c : Char} (hc : isBlank c = false) {word : String}
    (hword : IsWord word) : IsWord (String.singleton c ++ word) := by
  refine ⟨?_, ?_⟩
  · rw [ne_eq, ← String.toList_eq_nil_iff]
    simp
  · simpa using ⟨hc, hword.2⟩

namespace Spells

variable {text : String} {tokens : List String}

/-- Blanks before a text are part of the blanks that it begins with. -/
theorem gap_append {gap : String} (hgap : IsGap gap) (h : Spells text tokens) :
    Spells (gap ++ text) tokens := by
  cases h with
  | gap hrest => exact .gap (hgap.append hrest)
  | last hbefore hword hafter =>
      rw [← String.append_assoc, ← String.append_assoc]
      exact .last (hgap.append hbefore) hword hafter
  | cons hbefore hword hbetween hne hrest =>
      rw [← String.append_assoc, ← String.append_assoc, ← String.append_assoc]
      exact .cons (hgap.append hbefore) hword hbetween hne hrest

/-- A character before a text begins its first word, or is a word of its own if blanks follow. -/
theorem singleton_append {c : Char} (hc : isBlank c = false) (h : Spells text tokens) :
    ∃ tokens', Spells (String.singleton c ++ text) tokens' := by
  have hword := isWord_singleton hc
  cases h with
  | gap hgap =>
      have hspells := Spells.last isGap_empty hword hgap
      rw [String.empty_append] at hspells
      exact ⟨_, hspells⟩
  | @last before next after hbefore hnext hafter =>
      by_cases hempty : before = ""
      · have hspells := Spells.last isGap_empty (isWord_singleton_append hc hnext) hafter
        rw [String.empty_append, String.append_assoc] at hspells
        rw [hempty, String.empty_append]
        exact ⟨_, hspells⟩
      · have hspells := Spells.cons isGap_empty hword hbefore hempty
          (.last isGap_empty hnext hafter)
        rw [String.empty_append, String.empty_append] at hspells
        rw [String.append_assoc, ← String.append_assoc]
        exact ⟨_, hspells⟩
  | @cons before next gap rest _ _ hbefore hnext hgap hne hrest =>
      by_cases hempty : before = ""
      · have hspells := Spells.cons isGap_empty (isWord_singleton_append hc hnext) hgap hne hrest
        rw [String.empty_append] at hspells
        simp only [hempty, String.empty_append, ← String.append_assoc]
        exact ⟨_, hspells⟩
      · have hspells := Spells.cons isGap_empty hword hbefore hempty
          (.cons isGap_empty hnext hgap hne hrest)
        simp only [String.empty_append] at hspells
        simp only [← String.append_assoc] at hspells ⊢
        exact ⟨_, hspells⟩

end Spells

theorem exists_spells (text : String) : ∃ tokens, Spells text tokens := by
  rw [← String.ofList_toList (s := text)]
  induction text.toList with
  | nil => exact ⟨[], .gap isGap_empty⟩
  | cons c cs ih =>
      obtain ⟨tokens, h⟩ := ih
      have hcons : String.ofList (c :: cs) = String.singleton c ++ String.ofList cs :=
        String.ofList_cons
      rw [hcons]
      cases hc : isBlank c with
      | true => exact ⟨tokens, h.gap_append (isGap_singleton hc)⟩
      | false => exact h.singleton_append hc

/-- The words of a text are the only ones that it spells. -/
theorem spells_iff {text : String} {tokens : List String} :
    Spells text tokens ↔ words text = tokens := by
  refine ⟨Spells.words_eq, ?_⟩
  rintro rfl
  obtain ⟨tokens, h⟩ := exists_spells text
  rwa [h.words_eq]

end LSystem.Text
