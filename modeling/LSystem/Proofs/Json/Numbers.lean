import LSystem.Json.Lexeme
import LSystem.Proofs.Text.Offsets
import Mathlib.Data.List.Basic

/-! # Numbers in a text

Where a number ends can be seen from the character that comes after it. -/

namespace LSystem.Json

/-- The characters that end a number or a name, whatever comes next. -/
def delimiters : List Char := [' ', '\t', '\n', '\r', ',', ':', '[', ']', '\x7b', '\x7d']

theorem not_numeric_of_mem_delimiters :
    ∀ d ∈ delimiters, d.isDigit = false ∧ d ≠ '.' ∧ d ≠ 'e' ∧ d ≠ 'E' ∧ d ≠ '+' ∧ d ≠ '-' := by
  simp [delimiters]

/-! ## Digits -/

theorem isAsciiDigit_eq (c : Char) : Text.isAsciiDigit c = c.isDigit := by
  rw [Text.isAsciiDigit]
  cases hdigit : c.isDigit with
  | true => rw [Text.asciiDigit?_of_isDigit hdigit]; rfl
  | false =>
      cases hvalue : Text.asciiDigit? c with
      | none => rfl
      | some n =>
          rw [Text.isDigit_of_asciiDigit? hvalue] at hdigit
          cases hdigit

theorem leadingDigits_delimiter {d : Char} (hd : d.isDigit = false) (cs rest : List Char) :
    leadingDigits (cs ++ d :: rest) = leadingDigits cs := by
  have hdigit : Text.isAsciiDigit d = false := by rw [isAsciiDigit_eq, hd]
  rw [leadingDigits, leadingDigits]
  congr 1
  induction cs with
  | nil => simp [hdigit]
  | cons c cs ih => simp [List.takeWhile_cons, ih]

theorem length_leadingDigits_le (cs : List Char) : (leadingDigits cs).length ≤ cs.length :=
  Nat.le_trans (List.length_filterMap_le _ _) (List.takeWhile_prefix _).length_le

/-! ## Parts of a number -/

/-- The digits before the point. -/
def wholeDigits (body : List Char) : List Nat :=
  if (leadingDigits body).head? = some 0 then [0] else leadingDigits body

/-- The digits after a point, if the text begins with one. -/
def fractionDigits : List Char → List Nat
  | '.' :: rest => leadingDigits rest
  | _ => []

/-- The length of a number without its sign and exponent. -/
def mantissaLength (body : List Char) : Nat :=
  let fraction := fractionDigits (body.drop (wholeDigits body).length)
  (wholeDigits body).length + (if fraction.isEmpty then 0 else fraction.length + 1)

/-- A number after its sign. -/
def readMagnitude? (negative : Bool) (body : List Char) : Option (NumberText × Nat) :=
  if (wholeDigits body).isEmpty then none
  else
    let fraction := fractionDigits (body.drop (wholeDigits body).length)
    let signLength := if negative then 1 else 0
    match readExponent? (body.drop (mantissaLength body)) with
    | none => some (⟨negative, wholeDigits body, fraction, none⟩, signLength + mantissaLength body)
    | some (exponent, n) =>
        some (⟨negative, wholeDigits body, fraction, some exponent⟩,
          signLength + mantissaLength body + n)

theorem readNumber?_minus (body : List Char) :
    readNumber? ('-' :: body) = readMagnitude? true body := rfl

theorem readNumber?_of_ne {cs : List Char} (h : cs.head? ≠ some '-') :
    readNumber? cs = readMagnitude? false cs := by
  unfold readNumber?
  split
  rename_i hsplit
  split at hsplit
  · simp at h
  · cases hsplit
    rfl

/-! ## Lengths -/

theorem length_wholeDigits_le (body : List Char) : (wholeDigits body).length ≤ body.length := by
  have hdigits := length_leadingDigits_le body
  unfold wholeDigits
  split
  · rename_i hzero
    have hne : leadingDigits body ≠ [] := by
      intro hnil
      simp [hnil] at hzero
    exact Nat.le_trans (List.length_pos_iff.mpr hne) hdigits
  · exact hdigits

theorem mantissaLength_le (body : List Char) : mantissaLength body ≤ body.length := by
  have hwhole := length_wholeDigits_le body
  have hdrop : (body.drop (wholeDigits body).length).length =
      body.length - (wholeDigits body).length := List.length_drop
  simp only [mantissaLength]
  generalize body.drop (wholeDigits body).length = after at hdrop
  unfold fractionDigits
  split
  · rename_i rest
    have hfraction := length_leadingDigits_le rest
    rw [List.length_cons] at hdrop
    split <;> omega
  · exact hwhole

theorem length_splitSign (cs : List Char) :
    (if cs.head? = some '-' || cs.head? = some '+' then 1 else 0) + (Text.splitSign cs).2.length =
      cs.length := by
  cases cs with
  | nil => rfl
  | cons c cs =>
      by_cases hminus : c = '-'
      · subst hminus
        simp [Text.splitSign, Nat.add_comm]
      · by_cases hplus : c = '+'
        · subst hplus
          simp [Text.splitSign, Nat.add_comm]
        · simp [Text.splitSign, hminus, hplus]

theorem length_of_readExponent? {cs : List Char} {exponent : Int} {n : Nat}
    (h : readExponent? cs = some (exponent, n)) : n ≤ cs.length := by
  cases cs with
  | nil => cases h
  | cons c rest =>
      have hsign := length_splitSign rest
      have hdigits := length_leadingDigits_le (Text.splitSign rest).2
      simp only [readExponent?, Option.ite_none_right_eq_some, Option.ite_none_left_eq_some,
        Option.some.injEq, Prod.mk.injEq] at h
      obtain ⟨-, -, -, rfl⟩ := h
      rw [List.length_cons]
      omega

theorem length_of_readMagnitude? {negative : Bool} {body : List Char} {number : NumberText} {n : Nat}
    (h : readMagnitude? negative body = some (number, n)) :
    0 < n ∧ n ≤ body.length + if negative then 1 else 0 := by
  have hmantissa := mantissaLength_le body
  unfold readMagnitude? at h
  split at h
  · cases h
  · rename_i hwhole
    have hpos : 0 < mantissaLength body := by
      have hne : wholeDigits body ≠ [] := by simpa using hwhole
      have := List.length_pos_iff.mpr hne
      simp only [mantissaLength]
      omega
    simp only at h
    split at h
    · cases h
      omega
    · rename_i hexponent
      cases h
      have hlength := length_of_readExponent? hexponent
      rw [List.length_drop] at hlength
      omega

/-- A number takes up at least one character, and is all of a text at most. -/
theorem length_of_readNumber? {cs : List Char} {number : NumberText} {n : Nat}
    (h : readNumber? cs = some (number, n)) : 0 < n ∧ n ≤ cs.length := by
  by_cases hminus : cs.head? = some '-'
  · obtain ⟨body, rfl⟩ : ∃ body, cs = '-' :: body := List.head?_eq_some_iff.mp hminus
    rw [readNumber?_minus] at h
    simpa using length_of_readMagnitude? h
  · rw [readNumber?_of_ne hminus] at h
    simpa using length_of_readMagnitude? h

/-! ## Numbers before a delimiter -/

section Delimiter

variable {d : Char} (hd : d ∈ delimiters)
include hd

theorem wholeDigits_delimiter (body rest : List Char) :
    wholeDigits (body ++ d :: rest) = wholeDigits body := by
  simp only [wholeDigits, leadingDigits_delimiter (not_numeric_of_mem_delimiters d hd).1]

theorem fractionDigits_delimiter (cs rest : List Char) :
    fractionDigits (cs ++ d :: rest) = fractionDigits cs := by
  have hnumeric := not_numeric_of_mem_delimiters d hd
  cases cs with
  | nil => simp [fractionDigits, hnumeric]
  | cons c cs =>
      by_cases hc : c = '.'
      · subst hc
        exact leadingDigits_delimiter hnumeric.1 cs rest
      · simp [fractionDigits, hc]

theorem splitSign_delimiter (cs rest : List Char) :
    Text.splitSign (cs ++ d :: rest) = ((Text.splitSign cs).1, (Text.splitSign cs).2 ++ d :: rest) := by
  have hnumeric := not_numeric_of_mem_delimiters d hd
  cases cs with
  | nil => simp [Text.splitSign, hnumeric]
  | cons c cs =>
      by_cases hminus : c = '-'
      · subst hminus
        rfl
      · by_cases hplus : c = '+'
        · subst hplus
          rfl
        · simp [Text.splitSign, hminus, hplus]

theorem readExponent?_delimiter (cs rest : List Char) :
    readExponent? (cs ++ d :: rest) = readExponent? cs := by
  have hnumeric := not_numeric_of_mem_delimiters d hd
  have hhead : ∀ cs : List Char, ((cs ++ d :: rest).head? = some '-' ∨
      (cs ++ d :: rest).head? = some '+') ↔ (cs.head? = some '-' ∨ cs.head? = some '+') := by
    intro cs
    cases cs <;> simp [hnumeric]
  cases cs with
  | nil => simp [readExponent?, hnumeric]
  | cons c cs =>
      simp only [readExponent?, List.cons_append, splitSign_delimiter hd,
        leadingDigits_delimiter hnumeric.1, Bool.or_eq_true, decide_eq_true_eq, hhead]

theorem readMagnitude?_delimiter (negative : Bool) (body rest : List Char) :
    readMagnitude? negative (body ++ d :: rest) = readMagnitude? negative body := by
  have hwhole := length_wholeDigits_le body
  have hmantissa : mantissaLength (body ++ d :: rest) = mantissaLength body := by
    simp only [mantissaLength, wholeDigits_delimiter hd, List.drop_append_of_le_length hwhole,
      fractionDigits_delimiter hd]
  simp only [readMagnitude?, wholeDigits_delimiter hd, hmantissa,
    List.drop_append_of_le_length hwhole,
    List.drop_append_of_le_length (mantissaLength_le body), fractionDigits_delimiter hd,
    readExponent?_delimiter hd]

/-- What follows a delimiter does not matter to a number before it. -/
theorem readNumber?_delimiter {cs : List Char} (hcs : cs ≠ []) (rest : List Char) :
    readNumber? (cs ++ d :: rest) = readNumber? cs := by
  obtain ⟨c, cs, rfl⟩ := List.exists_cons_of_ne_nil hcs
  by_cases hminus : c = '-'
  · subst hminus
    rw [List.cons_append, readNumber?_minus, readNumber?_minus, readMagnitude?_delimiter hd]
  · have hne : ∀ cs, (c :: cs).head? ≠ some '-' := by simpa using hminus
    rw [readNumber?_of_ne (hne cs), List.cons_append, readNumber?_of_ne (hne _),
      ← List.cons_append, readMagnitude?_delimiter hd]

end Delimiter

/-! ## Integers that are too long -/

/-- An integer with so many digits. A zero is not followed by further ones. -/
inductive IsInteger : List Char → Nat → Prop where
  | mk {sign digits : List Char} :
      sign = [] ∨ sign = ['-'] → (∀ d ∈ digits, d.isDigit = true) → digits.head? ≠ some '0' →
      IsInteger (sign ++ digits) digits.length

/-- What would go on with an integer: a digit, or a fraction or an exponent with a digit. -/
inductive ContinuesInteger : List Char → Prop where
  | digit {d : Char} {rest : List Char} : d.isDigit = true → ContinuesInteger (d :: rest)
  | fraction {d : Char} {rest : List Char} :
      d.isDigit = true → ContinuesInteger ('.' :: d :: rest)
  | exponent {e d : Char} {sign rest : List Char} {negative : Bool} :
      e = 'e' ∨ e = 'E' → Text.IsSign sign negative → d.isDigit = true →
      ContinuesInteger (e :: (sign ++ d :: rest))

theorem leadingDigits_ne_nil_iff {cs : List Char} :
    leadingDigits cs ≠ [] ↔ ∃ d rest, cs = d :: rest ∧ d.isDigit = true := by
  cases cs with
  | nil => simp [leadingDigits]
  | cons c rest =>
      cases hc : c.isDigit with
      | true => simp [leadingDigits, isAsciiDigit_eq, hc, Text.asciiDigit?_of_isDigit hc]
      | false => simp [leadingDigits, isAsciiDigit_eq, hc]

theorem fractionDigits_ne_nil_iff {cs : List Char} :
    fractionDigits cs ≠ [] ↔ ∃ d rest, cs = '.' :: d :: rest ∧ d.isDigit = true := by
  unfold fractionDigits
  split
  · rw [leadingDigits_ne_nil_iff]
    simp
  · rename_i hpoint
    simp only [ne_eq, not_true_eq_false, false_iff]
    rintro ⟨d, rest, rfl, -⟩
    exact hpoint _ rfl

theorem splitSign_cons {sign : List Char} {negative : Bool} (hsign : Text.IsSign sign negative)
    {d : Char} (hd : d.isDigit = true) (rest : List Char) :
    Text.splitSign (sign ++ d :: rest) = (negative, d :: rest) := by
  cases hsign with
  | missing =>
      have hne : d ≠ '-' ∧ d ≠ '+' := by
        constructor <;> rintro rfl <;> cases hd
      simp [Text.splitSign, hne]
  | plus | minus => rfl

theorem readExponent?_ne_none_iff {cs : List Char} :
    readExponent? cs ≠ none ↔ ∃ e sign negative d rest, cs = e :: (sign ++ d :: rest) ∧
      (e = 'e' ∨ e = 'E') ∧ Text.IsSign sign negative ∧ d.isDigit = true := by
  cases cs with
  | nil => simp [readExponent?]
  | cons c rest =>
      have hiff : readExponent? (c :: rest) ≠ none ↔
          (c = 'e' ∨ c = 'E') ∧ leadingDigits (Text.splitSign rest).2 ≠ [] := by
        simp only [readExponent?]
        split <;> simp_all
      rw [hiff, leadingDigits_ne_nil_iff]
      constructor
      · rintro ⟨he, d, after, hafter, hd⟩
        obtain ⟨sign, hsign, hrest⟩ := Text.exists_sign rest
        rw [hafter] at hrest
        exact ⟨c, sign, _, d, after, by rw [hrest], he, hsign, hd⟩
      · rintro ⟨e, sign, negative, d, after, hcs, he, hsign, hd⟩
        cases hcs
        exact ⟨he, d, after, by rw [splitSign_cons hsign hd], hd⟩

theorem continuesInteger_iff {after : List Char} :
    ContinuesInteger after ↔
      leadingDigits after ≠ [] ∨ fractionDigits after ≠ [] ∨ readExponent? after ≠ none := by
  rw [leadingDigits_ne_nil_iff, fractionDigits_ne_nil_iff, readExponent?_ne_none_iff]
  constructor
  · intro h
    cases h with
    | digit hd => exact .inl ⟨_, _, rfl, hd⟩
    | fraction hd => exact .inr (.inl ⟨_, _, rfl, hd⟩)
    | exponent he hsign hd => exact .inr (.inr ⟨_, _, _, _, _, rfl, he, hsign, hd⟩)
  · rintro (⟨d, rest, rfl, hd⟩ | ⟨d, rest, rfl, hd⟩ | ⟨e, sign, negative, d, rest, rfl, he, hsign, hd⟩)
    · exact .digit hd
    · exact .fraction hd
    · exact .exponent he hsign hd

theorem not_continuesInteger_iff {after : List Char} :
    ¬ ContinuesInteger after ↔
      leadingDigits after = [] ∧ fractionDigits after = [] ∧ readExponent? after = none := by
  rw [continuesInteger_iff]
  simp only [not_or, ne_eq, not_not]

theorem exists_leadingDigits (body : List Char) :
    ∃ digits after, body = digits ++ after ∧ (∀ d ∈ digits, d.isDigit = true) ∧
      leadingDigits after = [] := by
  induction body with
  | nil => exact ⟨[], [], rfl, by simp, rfl⟩
  | cons c rest ih =>
      cases hc : c.isDigit with
      | true =>
          obtain ⟨digits, after, rfl, hdigits, hafter⟩ := ih
          exact ⟨c :: digits, after, rfl, List.forall_mem_cons.mpr ⟨hc, hdigits⟩, hafter⟩
      | false =>
          exact ⟨[], c :: rest, rfl, by simp, by simp [leadingDigits, isAsciiDigit_eq, hc]⟩

/-- The digits at the head of a text are its digits before any other character. -/
theorem leadingDigits_append {digits after : List Char} (hdigits : ∀ d ∈ digits, d.isDigit = true)
    (hafter : leadingDigits after = []) :
    leadingDigits (digits ++ after) = digits.map (fun c => c.toNat - '0'.toNat) := by
  induction digits with
  | nil => exact hafter
  | cons d digits ih =>
      obtain ⟨hd, hdigits⟩ := List.forall_mem_cons.mp hdigits
      simp only [List.cons_append, leadingDigits, List.takeWhile_cons, isAsciiDigit_eq, hd, if_true,
        List.filterMap_cons, Text.asciiDigit?_of_isDigit hd, List.map_cons]
      exact congrArg _ (ih hdigits)

/-- A body that begins with digits has them as its whole part, unless the first one is a zero. -/
theorem wholeDigits_append {digits after : List Char} (hdigits : ∀ d ∈ digits, d.isDigit = true)
    (hafter : leadingDigits after = []) :
    wholeDigits (digits ++ after) =
      if digits.head? = some '0' then [0] else digits.map (fun c => c.toNat - '0'.toNat) := by
  have hzero : (digits.map (fun c => c.toNat - '0'.toNat)).head? = some 0 ↔
      digits.head? = some '0' := by
    cases digits with
    | nil => simp
    | cons d digits =>
        have hrange := Text.toNat_of_isDigit (hdigits d List.mem_cons_self)
        simp only [List.map_cons, List.head?_cons, Option.some.injEq, ← Char.toNat_inj]
        change d.toNat - 48 = 0 ↔ d.toNat = 48
        omega
  simp only [wholeDigits, leadingDigits_append hdigits hafter, hzero]

theorem kind_eq_overlong_iff {number : NumberText} {k : Nat} :
    number.kind = .overlong ⟨k⟩ ↔ number.fraction = [] ∧ number.exponent = none ∧
      number.whole.length = k ∧ Text.digitLimit < k := by
  rw [NumberText.kind]
  by_cases hinteger : number.fraction = [] ∧ number.exponent = none
  · rw [if_pos (by simpa using hinteger), Text.signed]
    by_cases hlong : Text.digitLimit < number.whole.length
    · simp only [if_pos hlong, Kind.overlong.injEq, Text.Overlong.mk.injEq, hinteger, true_and]
      constructor
      · rintro rfl
        exact ⟨rfl, hlong⟩
      · exact fun h => h.1
    · simp only [if_neg hlong, reduceCtorEq, false_iff]
      rintro ⟨-, -, rfl, h⟩
      exact hlong h
  · rw [if_neg (by simpa using hinteger)]
    simp only [reduceCtorEq, false_iff]
    exact fun h => hinteger ⟨h.1, h.2.1⟩

theorem exists_readMagnitude? (negative : Bool) {body : List Char} (h : wholeDigits body ≠ []) :
    ∃ number n, readMagnitude? negative body = some (number, n) ∧
      number.whole = wholeDigits body ∧
      number.fraction = fractionDigits (body.drop (wholeDigits body).length) ∧
      number.exponent = (readExponent? (body.drop (mantissaLength body))).map Prod.fst := by
  rw [readMagnitude?, if_neg (by simpa using h)]
  simp only
  cases readExponent? (body.drop (mantissaLength body)) with
  | none => exact ⟨_, _, rfl, rfl, rfl, rfl⟩
  | some exponent => exact ⟨_, _, rfl, rfl, rfl, rfl⟩

theorem readMagnitude?_overlong_iff {negative : Bool} {body : List Char} {k : Nat} :
    (∃ number n, readMagnitude? negative body = some (number, n) ∧ number.kind = .overlong ⟨k⟩) ↔
      Text.digitLimit < k ∧ (wholeDigits body).length = k ∧ fractionDigits (body.drop k) = [] ∧
        readExponent? (body.drop k) = none := by
  by_cases hwhole : wholeDigits body = []
  · constructor
    · rintro ⟨number, n, h, -⟩
      simp [readMagnitude?, hwhole] at h
    · rintro ⟨hlong, hlength, -⟩
      rw [hwhole, List.length_nil] at hlength
      omega
  · obtain ⟨number, n, hread, hnumber, hfraction, hexponent⟩ :=
      exists_readMagnitude? negative hwhole
    have hsame : (∃ number n, readMagnitude? negative body = some (number, n) ∧
        number.kind = .overlong ⟨k⟩) ↔ number.kind = .overlong ⟨k⟩ := by
      simp [hread]
    rw [hsame, kind_eq_overlong_iff, hnumber, hfraction, hexponent, Option.map_eq_none_iff]
    constructor
    · rintro ⟨hnone, hexponent, rfl, hlong⟩
      refine ⟨hlong, rfl, hnone, ?_⟩
      simpa [mantissaLength, hnone] using hexponent
    · rintro ⟨hlong, rfl, hnone, hexponent⟩
      refine ⟨hnone, ?_, rfl, hlong⟩
      simpa [mantissaLength, hnone] using hexponent

theorem long_wholeDigits_iff {body : List Char} {k : Nat} (hlong : Text.digitLimit < k) :
    ((wholeDigits body).length = k ∧ fractionDigits (body.drop k) = [] ∧
        readExponent? (body.drop k) = none) ↔
      ∃ digits after, body = digits ++ after ∧ digits.length = k ∧
        (∀ d ∈ digits, d.isDigit = true) ∧ digits.head? ≠ some '0' ∧ ¬ ContinuesInteger after := by
  constructor
  · rintro ⟨hlength, hfraction, hexponent⟩
    obtain ⟨digits, after, rfl, hdigits, hafter⟩ := exists_leadingDigits body
    rw [wholeDigits_append hdigits hafter] at hlength
    split at hlength
    · subst hlength
      exact absurd hlong (by decide)
    · rename_i hhead
      rw [List.length_map] at hlength
      rw [List.drop_left' hlength] at hfraction hexponent
      exact ⟨digits, after, rfl, hlength, hdigits, hhead,
        not_continuesInteger_iff.mpr ⟨hafter, hfraction, hexponent⟩⟩
  · rintro ⟨digits, after, rfl, hlength, hdigits, hhead, hcontinues⟩
    obtain ⟨hafter, hfraction, hexponent⟩ := not_continuesInteger_iff.mp hcontinues
    rw [wholeDigits_append hdigits hafter, if_neg hhead, List.length_map, List.drop_left' hlength]
    exact ⟨hlength, hfraction, hexponent⟩

/-- A text begins with an integer that is too long. -/
theorem readNumber?_overlong_iff {cs : List Char} {k : Nat} :
    (∃ number n, readNumber? cs = some (number, n) ∧ number.kind = .overlong ⟨k⟩) ↔
      Text.digitLimit < k ∧ ∃ literal after, cs = literal ++ after ∧ IsInteger literal k ∧
        ¬ ContinuesInteger after := by
  by_cases hminus : cs.head? = some '-'
  · obtain ⟨body, rfl⟩ : ∃ body, cs = '-' :: body := List.head?_eq_some_iff.mp hminus
    rw [readNumber?_minus, readMagnitude?_overlong_iff]
    apply and_congr_right
    intro hlong
    rw [long_wholeDigits_iff hlong]
    constructor
    · rintro ⟨digits, after, rfl, rfl, hdigits, hhead, hcontinues⟩
      exact ⟨'-' :: digits, after, rfl, .mk (.inr rfl) hdigits hhead, hcontinues⟩
    · rintro ⟨literal, after, hcs, ⟨rfl | rfl, hdigits, hhead⟩, hcontinues⟩
      · rename_i digits
        cases digits with
        | nil => exact absurd hlong (Nat.not_lt_zero _)
        | cons d digits =>
            cases hcs
            cases hdigits '-' List.mem_cons_self
      · cases hcs
        exact ⟨_, after, rfl, rfl, hdigits, hhead, hcontinues⟩
  · rw [readNumber?_of_ne hminus, readMagnitude?_overlong_iff]
    apply and_congr_right
    intro hlong
    rw [long_wholeDigits_iff hlong]
    constructor
    · rintro ⟨digits, after, rfl, rfl, hdigits, hhead, hcontinues⟩
      exact ⟨digits, after, rfl, .mk (.inl rfl) hdigits hhead, hcontinues⟩
    · rintro ⟨literal, after, rfl, ⟨rfl | rfl, hdigits, hhead⟩, hcontinues⟩
      · exact ⟨_, after, rfl, rfl, hdigits, hhead, hcontinues⟩
      · simp at hminus

end LSystem.Json
