import LSystem.Proofs.Text.Words
import LSystem.Text.Decimal
import Mathlib.Algebra.Ring.Nat

/-! # Decimal texts of integers

The decimal text of an integer is a word, and the integer is read back from it as long as it has no
more digits than are read. -/

namespace LSystem.Text

/-! ## Digits -/

theorem toNat_of_isDigit {c : Char} (h : c.isDigit = true) : 48 ≤ c.toNat ∧ c.toNat ≤ 57 := by
  simp only [Char.isDigit, Bool.and_eq_true, decide_eq_true_eq] at h
  exact h

theorem isDigit_of_mem_toDigits {n : Nat} : ∀ c ∈ Nat.toDigits 10 n, c.isDigit = true :=
  fun _ hc => Nat.isDigit_of_mem_toDigits (by decide) (by decide) hc

theorem isBlank_of_isDigit {c : Char} (h : c.isDigit = true) : isBlank c = false := by
  have hrange := toNat_of_isDigit h
  simp only [isBlank, Bool.or_eq_false_iff, Bool.and_eq_false_iff, decide_eq_false_iff_not,
    beq_eq_false_iff_ne]
  omega

theorem asciiDigit?_of_isDigit {c : Char} (h : c.isDigit = true) :
    asciiDigit? c = some (c.toNat - '0'.toNat) := by
  simp only [Char.isDigit, Bool.and_eq_true, decide_eq_true_eq] at h
  rw [asciiDigit?, if_pos]
  simp only [Bool.and_eq_true, decide_eq_true_eq]
  exact h

theorem mapM_eq_some {f : α → Option β} {g : α → β} {items : List α}
    (h : ∀ item ∈ items, f item = some (g item)) : items.mapM f = some (items.map g) := by
  induction items with
  | nil => rfl
  | cons item items ih =>
      obtain ⟨hitem, hitems⟩ := List.forall_mem_cons.mp h
      rw [List.mapM_cons, hitem, ih hitems]
      rfl

theorem mapM_asciiDigit? {cs : List Char} (h : ∀ c ∈ cs, c.isDigit = true) :
    cs.mapM asciiDigit? = some (cs.map (fun c => c.toNat - '0'.toNat)) :=
  mapM_eq_some (fun c hc => asciiDigit?_of_isDigit (h c hc))

theorem ofDigits_toDigits (n : Nat) :
    ofDigits ((Nat.toDigits 10 n).map (fun c => c.toNat - '0'.toNat)) = n := by
  rw [ofDigits, List.foldl_map, ← Nat.ofDigitChars_eq_foldl, Nat.ofDigitChars_ten_toDigits]

theorem splitSign_of_isDigit {cs : List Char} (h : ∀ c ∈ cs, c.isDigit = true) :
    splitSign cs = (false, cs) := by
  unfold splitSign
  split
  · exact absurd (h '-' List.mem_cons_self) (by decide)
  · exact absurd (h '+' List.mem_cons_self) (by decide)
  · rfl

/-! ## Integers -/

theorem isWord_decimal (n : Int) : IsWord (decimal n) := by
  refine ⟨?_, ?_⟩
  · rw [decimal, ne_eq, String.ofList_eq_empty_iff, List.append_eq_nil_iff]
    exact fun h => Nat.toDigits_ne_nil h.2
  · intro c hc
    rw [decimal, String.toList_ofList, List.mem_append] at hc
    rcases hc with hc | hc
    · split at hc
      · rw [List.mem_singleton.mp hc]
        rfl
      · cases hc
    · exact isBlank_of_isDigit (isDigit_of_mem_toDigits c hc)

theorem splitSign_decimal (n : Int) :
    splitSign (decimal n).toList = (decide (n < 0), Nat.toDigits 10 n.natAbs) := by
  rw [decimal, String.toList_ofList]
  by_cases hn : n < 0
  · simp [hn, splitSign]
  · simp [hn, splitSign_of_isDigit isDigit_of_mem_toDigits]

theorem readable_iff {n : Int} : Readable n ↔ n.natAbs < 10 ^ digitLimit :=
  Nat.length_toDigits_le_iff (by decide) (by decide)

theorem Readable.mono {m n : Nat} (h : Readable n) (hle : m ≤ n) : Readable m :=
  readable_iff.mpr (Nat.lt_of_le_of_lt hle (readable_iff.mp h))

theorem signed_toDigits {n : Int} (h : Readable n) :
    signed (decide (n < 0))
      ((Nat.toDigits 10 n.natAbs).map (fun c => c.toNat - '0'.toNat)) = .ok n := by
  rw [signed, List.length_map, if_neg (Nat.not_lt.mpr h), ofDigits_toDigits]
  by_cases hn : n < 0
  · simp only [hn, decide_true, if_true, Except.ok.injEq]
    omega
  · simp only [hn, decide_false, Bool.false_eq_true, if_false, Except.ok.injEq]
    omega

theorem offset?_decimal {n : Int} (h : Readable n) : offset? (decimal n) = some (.ok n) := by
  have hne : (Nat.toDigits 10 n.natAbs).isEmpty = false := by simp
  simp only [offset?, splitSign_decimal, hne, mapM_asciiDigit? isDigit_of_mem_toDigits,
    Option.map_some, signed_toDigits h, Bool.false_eq_true, if_false]

/-! ## Integers among blanks, in digits of any script -/

theorem digitValue?_of_isDigit {c : Char} (h : c.isDigit = true) :
    digitValue? c = some (c.toNat - '0'.toNat) := by
  have hrange := toNat_of_isDigit h
  rw [digitValue?, digitZeros, List.find?_cons_of_pos]
  · rfl
  · simp only [Bool.and_eq_true, decide_eq_true_eq]
    omega

theorem mapM_digitValue? {cs : List Char} (h : ∀ c ∈ cs, c.isDigit = true) :
    cs.mapM digitValue? = some (cs.map (fun c => c.toNat - '0'.toNat)) :=
  mapM_eq_some (fun c hc => digitValue?_of_isDigit (h c hc))

theorem dropWhile_surrounds {cs : List Char} (h : ∀ c ∈ cs, isBlank c = false) :
    cs.dropWhile surrounds = cs := by
  cases cs with
  | nil => rfl
  | cons c cs =>
      rw [List.dropWhile_cons_of_neg]
      simp [surrounds, h c List.mem_cons_self]

/-- Nothing surrounds a word. -/
theorem strip_of_isWord {text : String} (h : IsWord text) : strip text.toList = text.toList := by
  rw [strip, dropWhile_surrounds h.2, dropWhile_surrounds, List.reverse_reverse]
  intro c hc
  exact h.2 c (List.mem_reverse.mp hc)

theorem integer?_decimal {n : Int} (h : Readable n) : integer? (decimal n) = some n := by
  have hplain : ∀ c ∈ Nat.toDigits 10 n.natAbs, (c == '_') = false := by
    intro c hc
    have hrange := toNat_of_isDigit (isDigit_of_mem_toDigits c hc)
    rw [beq_eq_false_iff_ne]
    rintro rfl
    exact absurd hrange (by decide)
  have hne : (Nat.toDigits 10 n.natAbs).isEmpty = false := by simp
  simp only [integer?, strip_of_isWord (isWord_decimal n), splitSign_decimal,
    runs_of_not_separates hplain, List.any_cons, List.any_nil, hne, Bool.or_false,
    Bool.false_eq_true, if_false, List.flatten_cons, List.flatten_nil, List.append_nil,
    mapM_digitValue? isDigit_of_mem_toDigits, signed_toDigits h]
  rfl

/-! ## Integers that were read -/

theorem asciiDigit?_lt {c : Char} {d : Nat} (h : asciiDigit? c = some d) : d < 10 := by
  unfold asciiDigit? at h
  split at h
  · rename_i hrange
    rw [Bool.and_eq_true, decide_eq_true_eq, decide_eq_true_eq] at hrange
    have hhigh : c.toNat ≤ '9'.toNat := hrange.2
    have hdigit : c.toNat - '0'.toNat = d := Option.some.inj h
    have hnine : '9'.toNat = '0'.toNat + 9 := rfl
    omega
  · cases h

theorem digitValue?_lt {c : Char} {d : Nat} (h : digitValue? c = some d) : d < 10 := by
  obtain ⟨first, hfind, rfl⟩ := Option.map_eq_some_iff.mp h
  have hrange := List.find?_some hfind
  rw [Bool.and_eq_true, decide_eq_true_eq, decide_eq_true_eq] at hrange
  omega

/-- The digits after a number that was begun add a digit each. -/
theorem foldl_digits_lt {digits : List Nat} (h : ∀ d ∈ digits, d < 10) (n : Nat) :
    digits.foldl (fun n d => 10 * n + d) n < (n + 1) * 10 ^ digits.length := by
  induction digits generalizing n with
  | nil => simp
  | cons d digits ih =>
      obtain ⟨hd, hdigits⟩ := List.forall_mem_cons.mp h
      calc (d :: digits).foldl (fun n d => 10 * n + d) n
          < (10 * n + d + 1) * 10 ^ digits.length := ih hdigits (10 * n + d)
        _ ≤ ((n + 1) * 10) * 10 ^ digits.length := Nat.mul_le_mul_right _ (by omega)
        _ = (n + 1) * 10 ^ (d :: digits).length := by
          rw [List.length_cons, Nat.pow_succ', Nat.mul_assoc]

theorem ofDigits_lt {digits : List Nat} (h : ∀ d ∈ digits, d < 10) :
    ofDigits digits < 10 ^ digits.length := by
  have hlt := foldl_digits_lt h 0
  rwa [Nat.zero_add, Nat.one_mul] at hlt

/-- An integer is read from few enough digits to be written again. -/
theorem readable_of_signed {negative : Bool} {digits : List Nat} {n : Int}
    (hdigits : ∀ d ∈ digits, d < 10) (h : signed negative digits = .ok n) : Readable n := by
  unfold signed at h
  split at h
  · cases h
  · rename_i hlength
    have habs : n.natAbs = ofDigits digits := by
      rw [← Except.ok.inj h]
      cases negative
      · exact Int.natAbs_natCast _
      · exact (Int.natAbs_neg _).trans (Int.natAbs_natCast _)
    rw [readable_iff, habs]
    calc ofDigits digits < 10 ^ digits.length := ofDigits_lt hdigits
      _ ≤ 10 ^ digitLimit := Nat.pow_le_pow_right (by decide) (Nat.le_of_not_lt hlength)

theorem forall_mem_of_mapM_eq_some {f : α → Option β} {P : β → Prop}
    (hf : ∀ item result, f item = some result → P result) {items : List α} {results : List β}
    (h : items.mapM f = some results) : ∀ result ∈ results, P result := by
  induction items generalizing results with
  | nil =>
      cases h
      exact fun _ hresult => absurd hresult List.not_mem_nil
  | cons item items ih =>
      simp only [List.mapM_cons, Option.bind_eq_bind, Option.bind_eq_some_iff] at h
      obtain ⟨first, hfirst, rest, hrest, heq⟩ := h
      cases heq
      exact List.forall_mem_cons.mpr ⟨hf item first hfirst, ih hrest⟩

theorem readable_of_integer? {text : String} {n : Int} (h : integer? text = some n) :
    Readable n := by
  unfold integer? at h
  simp only at h
  split at h
  · cases h
  · split at h
    · cases h
    · rename_i digits hmap
      have hdigits : ∀ d ∈ digits, d < 10 :=
        forall_mem_of_mapM_eq_some (fun _ _ => digitValue?_lt) hmap
      cases hsigned : signed _ digits with
      | error overlong =>
          rw [hsigned] at h
          cases h
      | ok m =>
          rw [hsigned] at h
          cases h
          exact readable_of_signed hdigits hsigned

end LSystem.Text
