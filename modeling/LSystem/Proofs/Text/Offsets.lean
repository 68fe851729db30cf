import LSystem.Proofs.Text.Decimal

/-! # How offsets are written

An offset is a sign, which may be missing, and decimal digits. It is read unless it has too many of
them, and nothing else is read. -/

namespace LSystem.Text

/-- The characters of a sign, and whether it makes an integer negative. -/
inductive IsSign : List Char → Bool → Prop where
  | missing : IsSign [] false
  | plus : IsSign ['+'] false
  | minus : IsSign ['-'] true

/-- A text writes an offset with so many digits. -/
inductive IsOffset : String → Nat → Int → Prop where
  | mk {sign digits : List Char} {negative : Bool} :
      IsSign sign negative → digits ≠ [] → (∀ d ∈ digits, d.isDigit = true) →
      IsOffset (String.ofList (sign ++ digits)) digits.length
        (if negative then -(Nat.ofDigitChars 10 digits 0 : Int) else Nat.ofDigitChars 10 digits 0)

/-! ## Digits -/

theorem isDigit_of_asciiDigit? {c : Char} {n : Nat} (h : asciiDigit? c = some n) :
    c.isDigit = true := by
  rw [asciiDigit?] at h
  split at h
  · rename_i hrange
    simp only [Bool.and_eq_true, decide_eq_true_eq] at hrange
    simp only [Char.isDigit, Bool.and_eq_true, decide_eq_true_eq]
    exact hrange
  · cases h

theorem isDigit_of_mapM_asciiDigit? {cs : List Char} {digits : List Nat}
    (h : cs.mapM asciiDigit? = some digits) : ∀ c ∈ cs, c.isDigit = true := by
  induction cs generalizing digits with
  | nil => simp
  | cons c cs ih =>
      simp only [List.mapM_cons, Option.bind_eq_bind, Option.bind_eq_some_iff] at h
      obtain ⟨first, hfirst, rest, hrest, -⟩ := h
      exact List.forall_mem_cons.mpr ⟨isDigit_of_asciiDigit? hfirst, ih hrest⟩

theorem ofDigits_map (digits : List Char) :
    ofDigits (digits.map (fun c => c.toNat - '0'.toNat)) = Nat.ofDigitChars 10 digits 0 := by
  rw [ofDigits, List.foldl_map, Nat.ofDigitChars_eq_foldl]

theorem isWord_of_isDigit {digits : List Char} (hne : digits ≠ [])
    (h : ∀ d ∈ digits, d.isDigit = true) : IsWord (String.ofList digits) := by
  refine ⟨?_, ?_⟩
  · rwa [ne_eq, String.ofList_eq_empty_iff]
  · intro c hc
    rw [String.toList_ofList] at hc
    exact isBlank_of_isDigit (h c hc)

/-! ## Signs -/

theorem splitSign_append {sign digits : List Char} {negative : Bool} (hsign : IsSign sign negative)
    (hdigits : ∀ d ∈ digits, d.isDigit = true) :
    splitSign (sign ++ digits) = (negative, digits) := by
  cases hsign with
  | missing => exact splitSign_of_isDigit hdigits
  | plus | minus => rfl

theorem exists_sign (cs : List Char) :
    ∃ sign, IsSign sign (splitSign cs).1 ∧ cs = sign ++ (splitSign cs).2 := by
  unfold splitSign
  split
  · exact ⟨['-'], .minus, rfl⟩
  · exact ⟨['+'], .plus, rfl⟩
  · exact ⟨[], .missing, rfl⟩

/-! ## Offsets -/

theorem IsOffset.offset?_eq {text : String} {digits : Nat} {center : Int}
    (h : IsOffset text digits center) :
    offset? text = some (if digitLimit < digits then .error ⟨digits⟩ else .ok center) := by
  cases h with
  | @mk sign digits negative hsign hne hdigits =>
      have hsplit := splitSign_append hsign hdigits
      have hfilled : digits.isEmpty = false := by simpa using hne
      simp only [offset?, String.toList_ofList, hsplit, hfilled, Bool.false_eq_true, if_false,
        mapM_asciiDigit? hdigits, Option.map_some, signed, List.length_map, ofDigits_map]

theorem exists_isOffset {text : String} {reading : Except Overlong Int}
    (h : offset? text = some reading) : ∃ digits center, IsOffset text digits center := by
  obtain ⟨sign, hsign, htext⟩ := exists_sign text.toList
  simp only [offset?] at h
  split at h
  · cases h
  · rename_i hfilled
    obtain ⟨digits, hdigits, -⟩ := Option.map_eq_some_iff.mp h
    have hne : (splitSign text.toList).2 ≠ [] := by simpa using hfilled
    have hoffset := IsOffset.mk hsign hne (isDigit_of_mapM_asciiDigit? hdigits)
    rw [← htext, String.ofList_toList] at hoffset
    exact ⟨_, _, hoffset⟩

theorem offset?_eq_none_iff {text : String} :
    offset? text = none ↔ ∀ digits center, ¬ IsOffset text digits center := by
  constructor
  · intro hnone digits center hoffset
    rw [hoffset.offset?_eq] at hnone
    cases hnone
  · intro h
    cases hreading : offset? text with
    | none => rfl
    | some reading =>
        obtain ⟨digits, center, hoffset⟩ := exists_isOffset hreading
        exact absurd hoffset (h digits center)

theorem offset?_eq_ok_iff {text : String} {center : Int} :
    offset? text = some (.ok center) ↔ ∃ digits ≤ digitLimit, IsOffset text digits center := by
  constructor
  · intro h
    obtain ⟨digits, center', hoffset⟩ := exists_isOffset h
    rw [hoffset.offset?_eq] at h
    split at h
    · cases h
    · rename_i hdigits
      cases h
      exact ⟨digits, Nat.le_of_not_lt hdigits, hoffset⟩
  · rintro ⟨digits, hdigits, hoffset⟩
    rw [hoffset.offset?_eq, if_neg (Nat.not_lt.mpr hdigits)]

theorem offset?_eq_error_iff {text : String} {overlong : Overlong} :
    offset? text = some (.error overlong) ↔
      digitLimit < overlong.digits ∧ ∃ center, IsOffset text overlong.digits center := by
  constructor
  · intro h
    obtain ⟨digits, center, hoffset⟩ := exists_isOffset h
    rw [hoffset.offset?_eq] at h
    split at h
    · rename_i hdigits
      cases h
      exact ⟨hdigits, center, hoffset⟩
    · cases h
  · rintro ⟨hdigits, center, hoffset⟩
    rw [hoffset.offset?_eq, if_pos hdigits]

/-- A text writes one offset at most. -/
theorem IsOffset.unique {text : String} {digits digits' : Nat} {center center' : Int}
    (h : IsOffset text digits center) (h' : IsOffset text digits' center') :
    digits = digits' ∧ center = center' := by
  cases h with
  | @mk sign ds negative hsign hne hdigits =>
      generalize htext : String.ofList (sign ++ ds) = text at h'
      cases h' with
      | @mk sign' ds' negative' hsign' hne' hdigits' =>
          have hchars : sign ++ ds = sign' ++ ds' := String.ofList_injective htext
          have hsplit := splitSign_append hsign hdigits
          rw [hchars, splitSign_append hsign' hdigits'] at hsplit
          cases hsplit
          exact ⟨rfl, rfl⟩

example : offset? "+007" = some (.ok 7) ∧ offset? "-" = none := ⟨rfl, rfl⟩

end LSystem.Text
