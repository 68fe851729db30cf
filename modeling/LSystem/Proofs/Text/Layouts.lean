import LSystem.Proofs.Text.Spacing

/-! # Texts laid out as words and blanks

Cutting a text at its blanks is the only way to take it for words with blanks between them. So words are
found again however they are laid out, and two texts that blanks part are cut apart. -/

namespace LSystem.Text

/-- The code points of all blanks. -/
def blankCodes : List Nat :=
  [0x09, 0x0A, 0x0B, 0x0C, 0x0D, 0x1C, 0x1D, 0x1E, 0x1F, 0x20, 0x85, 0xA0, 0x1680, 0x2000, 0x2001,
    0x2002, 0x2003, 0x2004, 0x2005, 0x2006, 0x2007, 0x2008, 0x2009, 0x200A, 0x2028, 0x2029, 0x202F,
    0x205F, 0x3000]

theorem isBlank_iff_mem_blankCodes (c : Char) : isBlank c = true ↔ c.toNat ∈ blankCodes := by
  simp only [isBlank, blankCodes, Bool.or_eq_true, Bool.and_eq_true, decide_eq_true_eq, beq_iff_eq,
    List.mem_cons, List.not_mem_nil, or_false]
  omega

/-! ## Layouts -/

/-- Words with blanks around them: the blanks before the first word, and each word with the blanks after
it. Only after the last word there may be none. -/
structure Layout where
  before : String
  parts : List (String × String)
  isGap_before : IsGap before
  isWord : ∀ part ∈ parts, IsWord part.1
  isGap : ∀ part ∈ parts, IsGap part.2
  parted : ∀ part ∈ parts.dropLast, part.2 ≠ ""

namespace Layout

def text (layout : Layout) : String :=
  layout.before ++ String.join (layout.parts.map (fun part => part.1 ++ part.2))

def tokens (layout : Layout) : List String := layout.parts.map (·.1)

/-- A layout without words. -/
def ofGap {gap : String} (h : IsGap gap) : Layout where
  before := gap
  parts := []
  isGap_before := h
  isWord := nofun
  isGap := nofun
  parted := nofun

/-- A further word before a layout. The blanks that the layout begins with follow it. -/
def cons {before word gap : String} (hbefore : IsGap before) (hword : IsWord word) (hgap : IsGap gap)
    (layout : Layout) (hne : gap ≠ "" ∨ layout.parts = []) : Layout where
  before := before
  parts := (word, gap ++ layout.before) :: layout.parts
  isGap_before := hbefore
  isWord := List.forall_mem_cons.mpr ⟨hword, layout.isWord⟩
  isGap := List.forall_mem_cons.mpr ⟨hgap.append layout.isGap_before, layout.isGap⟩
  parted := by
    cases hparts : layout.parts with
    | nil => simp
    | cons part rest =>
        have hfirst : gap ++ layout.before ≠ "" := by
          rw [ne_eq, String.append_eq_empty_iff]
          exact fun h => (hne.resolve_right (by simp [hparts])) h.1
        rw [List.dropLast_cons_cons, List.forall_mem_cons, ← hparts]
        exact ⟨hfirst, layout.parted⟩

@[simp] theorem tokens_cons {before word gap : String} (hbefore : IsGap before) (hword : IsWord word)
    (hgap : IsGap gap) (layout : Layout) (hne : gap ≠ "" ∨ layout.parts = []) :
    (cons hbefore hword hgap layout hne).tokens = word :: layout.tokens := rfl

theorem text_cons {before word gap : String} (hbefore : IsGap before) (hword : IsWord word)
    (hgap : IsGap gap) (layout : Layout) (hne : gap ≠ "" ∨ layout.parts = []) :
    (cons hbefore hword hgap layout hne).text = before ++ word ++ gap ++ layout.text := by
  simp only [text, cons, List.map_cons, String.join_cons, String.append_assoc]

end Layout

/-! ## Words of a layout -/

-- The induction needs the blanks after a word only to part it from the next one, so the last word is a case
-- of its own.
theorem words_join {parts : List (String × String)} (hword : ∀ part ∈ parts, IsWord part.1)
    (hgap : ∀ part ∈ parts, IsGap part.2) (hparted : ∀ part ∈ parts.dropLast, part.2 ≠ "") :
    words (String.join (parts.map (fun part => part.1 ++ part.2))) = parts.map (·.1) := by
  induction parts with
  | nil => rfl
  | cons part rest ih =>
      obtain ⟨hfirst, hwords⟩ := List.forall_mem_cons.mp hword
      obtain ⟨hafter, hgaps⟩ := List.forall_mem_cons.mp hgap
      rw [List.map_cons, String.join_cons, List.map_cons]
      cases rest with
      | nil =>
          rw [List.map_nil, String.join_nil, String.append_empty, words_append_of_isGap hafter,
            words_of_isWord hfirst]
          rfl
      | cons next rest =>
          rw [List.dropLast_cons_cons, List.forall_mem_cons] at hparted
          rw [words_append_gap hafter hparted.1, words_of_isWord hfirst, ih hwords hgaps hparted.2]
          rfl

theorem words_text (layout : Layout) : words layout.text = layout.tokens := by
  rw [Layout.text, words_gap_append layout.isGap_before,
    words_join layout.isWord layout.isGap layout.parted, Layout.tokens]

/-- What spells words is a layout of them. -/
theorem Spells.exists_layout {text : String} {tokens : List String} (h : Spells text tokens) :
    ∃ layout : Layout, layout.text = text ∧ layout.tokens = tokens := by
  induction h with
  | @gap gap hgap => exact ⟨.ofGap hgap, String.append_empty, rfl⟩
  | @last before word after hbefore hword hafter =>
      refine ⟨.cons hbefore hword hafter (.ofGap isGap_empty) (.inr rfl), ?_, rfl⟩
      rw [Layout.text_cons]
      exact String.append_empty
  | @cons before word gap rest next words hbefore hword hgap hne _ ih =>
      obtain ⟨layout, rfl, htokens⟩ := ih
      refine ⟨.cons hbefore hword hgap layout (.inl hne), Layout.text_cons .., ?_⟩
      rw [Layout.tokens_cons, htokens]

theorem exists_layout_iff {text : String} {tokens : List String} :
    (∃ layout : Layout, layout.text = text ∧ layout.tokens = tokens) ↔ tokens = words text := by
  constructor
  · rintro ⟨layout, rfl, rfl⟩
    exact (words_text layout).symm
  · rintro rfl
    exact (spells_iff.mpr rfl).exists_layout

/-- Every text is a layout of its words and of no others. Hence words are found again in each of their
layouts, blanks part the words before them from those after them, and words that are joined by spaces stay
the same. -/
theorem words_unique :
    (∀ c, isBlank c = true ↔ c.toNat ∈ blankCodes) ∧
    (∀ text tokens, (∃ layout : Layout, layout.text = text ∧ layout.tokens = tokens) ↔
      tokens = words text) ∧
    (∀ layout : Layout, words layout.text = layout.tokens) ∧
    (∀ before gap after, IsGap gap → gap ≠ "" →
      words (before ++ gap ++ after) = words before ++ words after) ∧
    ∀ text, words (" ".intercalate (words text)) = words text := by
  refine ⟨isBlank_iff_mem_blankCodes, ?_, words_text, ?_, ?_⟩
  · exact fun text tokens => exists_layout_iff
  · exact fun before gap after hgap hne => words_append_gap hgap hne before after
  · exact fun text => words_intercalate (by decide) (by decide) (fun _ => isWord_of_mem_words)

/-- Blanks of different kinds, some of them next to each other. -/
def mixed : Layout where
  before := "\t"
  parts := [("A", " \u2003"), ("b\u200B", "\u0085"), ("+1", "")]
  isGap_before := by decide
  isWord := by decide
  isGap := by decide
  parted := by decide

theorem words_unique_mixed :
    IsGap "\u2028 " ∧ "\u2028 " ≠ "" ∧
    words (mixed.text ++ "\u2028 " ++ "c d\n") = ["A", "b\u200B", "+1", "c", "d"] := by
  obtain ⟨-, -, hlayout, hparts, -⟩ := words_unique
  have hgap : IsGap "\u2028 " := by decide
  have hne : "\u2028 " ≠ "" := by decide
  have hlast : words "c d\n" = ["c", "d"] := by decide
  refine ⟨hgap, hne, ?_⟩
  rw [hparts _ _ _ hgap hne, hlayout, hlast]
  rfl

end LSystem.Text
