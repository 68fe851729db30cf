import LSystem.Text.Words

/-! # Words and blanks

Cutting a text yields words only, and a word is cut into itself. -/

namespace LSystem.Text

/-- A text that has a character and no blank. -/
def IsWord (text : String) : Prop := text ≠ "" ∧ ∀ c ∈ text.toList, isBlank c = false

instance (text : String) : Decidable (IsWord text) :=
  decidable_of_iff (text ≠ "" ∧ text.toList.all (fun c => !isBlank c)) (by simp [IsWord])

/-! ## Runs between separators -/

/-- There is a first run, which may be empty. -/
theorem runs_eq_cons (separates : Char → Bool) (cs : List Char) :
    ∃ run rest, runs separates cs = run :: rest := by
  induction cs with
  | nil => exact ⟨[], [], rfl⟩
  | cons c cs ih =>
      obtain ⟨run, rest, hruns⟩ := ih
      rw [runs_cons]
      cases separates c with
      | true => exact ⟨[], _, rfl⟩
      | false => exact ⟨c :: run, rest, by rw [hruns]; rfl⟩

theorem not_separates_of_mem_runs {separates : Char → Bool} {cs run : List Char}
    (h : run ∈ runs separates cs) : ∀ c ∈ run, separates c = false := by
  induction cs generalizing run with
  | nil =>
      rw [runs_nil, List.mem_singleton] at h
      simp [h]
  | cons c cs ih =>
      obtain ⟨first, rest, hruns⟩ := runs_eq_cons separates cs
      rw [runs_cons, hruns] at h
      rw [hruns] at ih
      cases hc : separates c with
      | true =>
          rw [hc] at h
          rcases List.mem_cons.mp h with rfl | h
          · simp
          · exact ih h
      | false =>
          rw [hc] at h
          rcases List.mem_cons.mp h with rfl | h
          · intro d hd
            rcases List.mem_cons.mp hd with rfl | hd
            · exact hc
            · exact ih List.mem_cons_self d hd
          · exact ih (List.mem_cons_of_mem first h)

theorem runs_of_not_separates {separates : Char → Bool} {cs : List Char}
    (h : ∀ c ∈ cs, separates c = false) : runs separates cs = [cs] := by
  induction cs with
  | nil => rfl
  | cons c cs ih =>
      rw [runs_cons, h c List.mem_cons_self, ih (fun d hd => h d (List.mem_cons_of_mem c hd))]
      rfl

/-- A separator parts the runs before it from those after it. -/
theorem runs_append_cons {separates : Char → Bool} {c : Char} (hc : separates c = true)
    (before after : List Char) :
    runs separates (before ++ c :: after) = runs separates before ++ runs separates after := by
  induction before with
  | nil => rw [List.nil_append, runs_cons, hc, runs_nil]; rfl
  | cons d before ih =>
      rw [List.cons_append, runs_cons, runs_cons, ih]
      obtain ⟨run, rest, hruns⟩ := runs_eq_cons separates before
      cases separates d with
      | true => rfl
      | false => rw [hruns]; rfl

/-! ## Words of a text -/

theorem isWord_of_mem_words {text word : String} (h : word ∈ words text) : IsWord word := by
  simp only [words, List.mem_map, List.mem_filter] at h
  obtain ⟨run, ⟨hrun, hne⟩, rfl⟩ := h
  refine ⟨?_, ?_⟩
  · intro hempty
    rw [String.ofList_eq_empty_iff] at hempty
    simp [hempty] at hne
  · intro c hc
    rw [String.toList_ofList] at hc
    exact not_separates_of_mem_runs hrun c hc

theorem words_of_isWord {text : String} (h : IsWord text) : words text = [text] := by
  have hne : text.toList ≠ [] := fun hnil => h.1 (String.toList_eq_nil_iff.mp hnil)
  rw [words, runs_of_not_separates h.2]
  simp [hne, String.ofList_toList]

theorem isWord_of_words_eq {text word : String} (h : words text = [word]) : IsWord word := by
  have hmem : word ∈ words text := by
    rw [h]
    exact List.mem_singleton_self word
  exact isWord_of_mem_words hmem

/-- A blank parts the words before it from those after it. -/
theorem words_append_blank {c : Char} (hc : isBlank c = true) (before after : String) :
    words (before ++ String.singleton c ++ after) = words before ++ words after := by
  simp only [words, String.toList_append, String.toList_singleton, List.append_assoc,
    List.singleton_append]
  rw [runs_append_cons hc, List.filter_append, List.map_append]

example : words " A\tb  " = ["A", "b"] := by decide

end LSystem.Text
