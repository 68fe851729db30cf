import LSystem.CommandLine.Argument
import LSystem.Proofs.Text.Decimal
import Mathlib.Data.List.TakeWhile

/-! # What an argument is taken for

A number is an operand, even if it is negative. A flag that the parser knows is told by its name,
with or without a value attached, and a flag that it does not know is left as it is. -/

namespace LSystem.CommandLine

/-! ## Names of flags -/

/-- No name of a flag looks like a negative number or has a value attached. -/
theorem toList_of_mem_namesOf {flags : List Flag} {named : String × Flag}
    (h : named ∈ namesOf flags) :
    '=' ∉ named.1.toList ∧
      ∃ c rest, named.1.toList = '-' :: c :: rest ∧ c.isDigit = false := by
  simp only [namesOf, List.mem_flatMap, List.mem_map] at h
  obtain ⟨flag, -, name, hname, rfl⟩ := h
  cases flag <;> simp only [Flag.names, List.mem_cons, List.not_mem_nil, or_false] at hname
  case help | verbose => rcases hname with rfl | rfl <;> exact ⟨by decide, _, _, rfl, rfl⟩
  case level | upto | seed | separator => subst hname; exact ⟨by decide, _, _, rfl, rfl⟩

theorem splitAtEquals_append {name : List Char} (h : '=' ∉ name) (value : List Char) :
    splitAtEquals (name ++ '=' :: value) =
      (String.ofList name, some (String.ofList value)) := by
  have htake : (name ++ '=' :: value).takeWhile (· != '=') = name := by
    rw [List.takeWhile_append_of_pos]
    · simp
    · intro c hc
      rw [bne_iff_ne]
      rintro rfl
      exact h hc
  simp [splitAtEquals, htake]

theorem splitAtEquals_of_notMem {cs : List Char} (h : '=' ∉ cs) :
    splitAtEquals cs = (String.ofList cs, none) := by
  have htake : cs.takeWhile (· != '=') = cs := by
    rw [List.takeWhile_eq_self_iff]
    intro c hc
    rw [bne_iff_ne]
    rintro rfl
    exact h hc
  simp [splitAtEquals, htake]

/-- An equals sign keeps an argument from being a name. -/
theorem lookup_of_equals {flags : List Flag} {text : String} (h : '=' ∈ text.toList) :
    (namesOf flags).lookup text = none := by
  rw [List.lookup_eq_none_iff]
  intro named hnamed
  rw [bne_iff_ne]
  rintro rfl
  exact (toList_of_mem_namesOf hnamed).1 h

theorem mem_of_lookup {flags : List Flag} {flag : Flag} {name : String}
    (h : (namesOf flags).lookup name = some flag) : (name, flag) ∈ namesOf flags := by
  obtain ⟨before, after, hsplit, -⟩ := List.lookup_eq_some_iff.mp h
  rw [hsplit]
  exact List.mem_append_right _ List.mem_cons_self

/-! ## Numbers -/

theorem looksNegative_of_isDigit {cs : List Char} (hne : cs ≠ [])
    (h : ∀ c ∈ cs, c.isDigit = true) : looksNegative ('-' :: cs) = true := by
  have hlast : cs.getLast? ≠ some '\n' := by
    intro hlast
    exact absurd (h _ (List.mem_of_getLast? hlast)) (by decide)
  have hdrop : cs.dropWhile isDigit = [] := by
    rw [List.dropWhile_eq_nil_iff]
    intro c hc
    rw [isDigit, Text.digitValue?_of_isDigit (h c hc)]
    rfl
  simp [looksNegative, hlast, hdrop, hne]

theorem lookup_negative {flags : List Flag} {d : Char} (hd : d.isDigit = true) (ds : List Char) :
    (namesOf flags).lookup (String.ofList ('-' :: d :: ds)) = none := by
  rw [List.lookup_eq_none_iff]
  intro named hnamed
  obtain ⟨-, c, rest, hname, hc⟩ := toList_of_mem_namesOf hnamed
  rw [bne_iff_ne]
  intro heq
  rw [← heq, String.toList_ofList] at hname
  cases hname
  rw [hd] at hc
  cases hc

theorem candidates_negative {flags : List Flag} {d : Char} (hd : d.isDigit = true)
    (ds : List Char) : candidates flags (String.ofList ('-' :: d :: ds)) = [] := by
  have hdash : d ≠ '-' := by
    rintro rfl
    cases hd
  rw [candidates, String.toList_ofList, if_neg (by simp [hdash.symm]), List.filterMap_eq_nil_iff]
  intro named hnamed
  obtain ⟨-, c, rest, hname, hc⟩ := toList_of_mem_namesOf hnamed
  have hne : d ≠ c := by
    rintro rfl
    rw [hd] at hc
    cases hc
  simp [hname, hne, hne.symm]

theorem classify_negative {flags : List Flag} {cs : List Char} (hne : cs ≠ [])
    (h : ∀ c ∈ cs, c.isDigit = true) :
    classify flags (String.ofList ('-' :: cs)) = .ok (.operand (String.ofList ('-' :: cs))) := by
  obtain ⟨d, ds, rfl⟩ := List.exists_cons_of_ne_nil hne
  have hd : d.isDigit = true := h d List.mem_cons_self
  have hequals : '=' ∉ '-' :: d :: ds := by
    rw [List.mem_cons, not_or]
    exact ⟨by decide, fun hmem => absurd (h _ hmem) (by decide)⟩
  simp only [classify, lookup_negative hd, candidates_negative hd, String.toList_ofList,
    splitAtEquals_of_notMem hequals, looksNegative_of_isDigit hne h]
  simp

/-- A number is no flag, even if it is negative. -/
theorem classify_decimal (flags : List Flag) (n : Int) :
    classify flags (Text.decimal n) = .ok (.operand (Text.decimal n)) := by
  rw [Text.decimal]
  by_cases hn : n < 0
  · rw [if_pos hn]
    exact classify_negative Nat.toDigits_ne_nil Text.isDigit_of_mem_toDigits
  · rw [if_neg hn, List.nil_append, classify, String.toList_ofList, if_pos]
    intro hhead
    exact absurd (Text.isDigit_of_mem_toDigits _ (List.mem_of_head? hhead)) (by decide)

/-- A divider is taken for no operand, so it is no number. -/
theorem decimal_ne_dividerText (n : Int) : Text.decimal n ≠ dividerText := by
  intro hdivider
  have hclassify := classify_decimal [] n
  rw [hdivider] at hclassify
  cases hclassify

/-! ## Flags, known and unknown -/

theorem toList_attached (name value : String) :
    (name ++ "=" ++ value).toList = name.toList ++ '=' :: value.toList := by
  simp

theorem classify_name {flags : List Flag} {flag : Flag} {name : String}
    (h : (namesOf flags).lookup name = some flag) :
    classify flags name = .ok (.flag name ⟨flag, name, none⟩) := by
  obtain ⟨-, c, rest, hname, -⟩ := toList_of_mem_namesOf (mem_of_lookup h)
  simp only [classify, h]
  rw [if_neg (by simp [hname])]

theorem classify_attached {flags : List Flag} {flag : Flag} {name : String}
    (h : (namesOf flags).lookup name = some flag) (value : String) :
    classify flags (name ++ "=" ++ value) =
      .ok (.flag (name ++ "=" ++ value) ⟨flag, name, some value⟩) := by
  obtain ⟨hequals, c, rest, hname, -⟩ := toList_of_mem_namesOf (mem_of_lookup h)
  have hlookup : (namesOf flags).lookup (name ++ "=" ++ value) = none :=
    lookup_of_equals (by simp)
  simp only [classify, toList_attached, splitAtEquals_append hequals, hlookup,
    String.ofList_toList, h]
  simp [hname]

/-- An argument is told what it is and keeps its text, unless it may be short for several flags. -/
theorem classify_cases (flags : List Flag) (text : String) :
    (∃ argument, classify flags text = .ok argument ∧ argument.text = text) ∨
      ∃ ambiguity, classify flags text = .error ambiguity ∧ candidates flags text ≠ [] := by
  unfold classify
  simp only
  split
  case isTrue hplain => exact .inl ⟨.operand text, rfl, rfl⟩
  case isFalse hdash =>
    split
    case h_1 flag hname => exact .inl ⟨.flag text _, rfl, rfl⟩
    case h_2 hunnamed =>
      split
      case isTrue hlone => exact .inl ⟨.operand text, rfl, rfl⟩
      case isFalse =>
        split
        case h_1 value flag hattached hname => exact .inl ⟨.flag text _, rfl, rfl⟩
        case h_2 =>
          split
          case h_1 use hcandidates => exact .inl ⟨.flag text use, rfl, rfl⟩
          case h_2 hcandidates =>
            split
            · exact .inl ⟨.operand text, rfl, rfl⟩
            · exact .inl ⟨.unknown text, rfl, rfl⟩
          case h_3 hseveral hcandidates => exact .inr ⟨_, rfl, hcandidates⟩

/-- No argument is changed when it is told what it is. -/
theorem text_of_classify {flags : List Flag} {text : String} {argument : Argument}
    (h : classify flags text = .ok argument) : argument.text = text := by
  rcases classify_cases flags text with ⟨told, htold, htext⟩ | ⟨ambiguity, hambiguous, -⟩
  · rw [h, Except.ok.injEq] at htold
    rw [htold, htext]
  · rw [h] at hambiguous
    cases hambiguous

/-- Only an argument that may be short for several flags is refused. -/
theorem exists_classify {flags : List Flag} {text : String} (h : candidates flags text = []) :
    ∃ argument, classify flags text = .ok argument := by
  rcases classify_cases flags text with ⟨argument, htold, -⟩ | ⟨-, -, hseveral⟩
  · exact ⟨argument, htold⟩
  · exact absurd h hseveral

/-- A text is not short for a flag if its name begins none of their names. -/
theorem candidates_attached {flags : List Flag} {name : String}
    (hdashes : ['-', '-'] <+: name.toList) (hequals : '=' ∉ name.toList)
    (hforeign : ∀ named ∈ namesOf flags, ¬ name.toList <+: named.1.toList) (value : String) :
    candidates flags (name ++ "=" ++ value) = [] := by
  obtain ⟨rest, hrest⟩ := hdashes
  simp only [candidates, toList_attached, splitAtEquals_append hequals]
  rw [if_pos (by simp [← hrest]), List.filterMap_eq_nil_iff]
  intro named hnamed
  simp [hforeign named hnamed]

/-! ## Arguments in a row -/

/-- What comes before the first divider is told one by one, and what comes after it is operands. -/
theorem classifyAll_divided {flags : List Flag} {before : List String} {arguments : List Argument}
    (hplain : dividerText ∉ before) (h : before.mapM (classify flags) = .ok arguments)
    (after : List String) :
    classifyAll flags (before ++ dividerText :: after) =
      .ok (arguments ++ .divider :: after.map .operand) := by
  have htake : (before ++ dividerText :: after).takeWhile (· != dividerText) = before := by
    rw [List.takeWhile_append_of_pos]
    · simp
    · intro text htext
      rw [bne_iff_ne]
      rintro rfl
      exact hplain htext
  simp [classifyAll, htake, h, Except.map]

end LSystem.CommandLine
