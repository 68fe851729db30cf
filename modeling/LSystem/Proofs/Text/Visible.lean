import LSystem.Proofs.Text.Decimal
import LSystem.Text.Quoted

/-! # Texts on one line

Whatever a text in quotes holds, each of its characters can be seen, since what could not be seen is
written with its code point. No end of a line can be seen, so a quoted text stays on its line. -/

namespace LSystem.Text

/-- The code points at which a line may end: line feed, vertical tab, form feed, carriage return, the
separators of files, groups and records, the next line, and the separators of lines and paragraphs. -/
def lineEnds : List Nat := [0x0A, 0x0B, 0x0C, 0x0D, 0x1C, 0x1D, 0x1E, 0x85, 0x2028, 0x2029]

/-- The text ends with a line feed, and no line ends before it. -/
def IsLine (text : String) : Prop :=
  ∃ body : String, text = body ++ "\n" ∧ ∀ c ∈ body.toList, c.toNat ∉ lineEnds

/-- Every character of the text can be seen. -/
def Visible (text : String) : Prop := ∀ c ∈ text.toList, isPrintable c = true

instance (text : String) : Decidable (Visible text) :=
  List.decidableBAll _ text.toList

theorem Visible.append {first second : String} (hfirst : Visible first)
    (hsecond : Visible second) : Visible (first ++ second) := by
  rw [Visible, String.toList_append]
  exact List.forall_mem_append.mpr ⟨hfirst, hsecond⟩

namespace Visible

variable {text more : String} {c : Char}

theorem not_mem (h : Visible text) (hc : isPrintable c = false) : c ∉ text.toList := by
  intro hmem
  rw [h c hmem] at hc
  cases hc

/-- What cannot be seen in a text is in the part of it that is not known to be visible. -/
theorem mem_append_iff (h : Visible more) (hc : isPrintable c = false) :
    c ∈ (text ++ more).toList ↔ c ∈ text.toList := by
  rw [String.toList_append, List.mem_append, or_iff_left (h.not_mem hc)]

theorem append_mem_iff (h : Visible text) (hc : isPrintable c = false) :
    c ∈ (text ++ more).toList ↔ c ∈ more.toList := by
  rw [String.toList_append, List.mem_append, or_iff_right (h.not_mem hc)]

end Visible

/-! ## Ends of lines -/

theorem not_isPrintable_of_mem_lineEnds {c : Char} (h : c.toNat ∈ lineEnds) : isPrintable c = false := by
  have hcodes : ∀ n ∈ lineEnds, ((0x20 ≤ n && n ≤ 0x7E) ||
      !hiddenRanges.any (fun range => range.1 ≤ n && n ≤ range.2)) = false := by
    decide +kernel
  exact hcodes _ h

theorem not_isPrintable_lineFeed : isPrintable '\n' = false :=
  not_isPrintable_of_mem_lineEnds (by decide)

/-- The text ends with a line feed and has no other. Other ends of lines do not count. -/
def IsOneLine (text : String) : Prop := ∃ body : String, text = body ++ "\n" ∧ '\n' ∉ body.toList

theorem isOneLine_append_iff {body : String} : IsOneLine (body ++ "\n") ↔ '\n' ∉ body.toList := by
  constructor
  · rintro ⟨other, hsame, hother⟩
    rw [← String.toList_inj, String.toList_append, String.toList_append] at hsame
    rwa [List.append_cancel_right hsame]
  · exact fun h => ⟨body, rfl, h⟩

/-- What can be seen is one line once a line feed follows it. -/
theorem Visible.isLine {text : String} (h : Visible text) : IsLine (text ++ "\n") := by
  refine ⟨text, rfl, ?_⟩
  intro c hc hend
  have hseen := h c hc
  rw [not_isPrintable_of_mem_lineEnds hend] at hseen
  cases hseen

/-! ## Numbers -/

theorem isPrintable_of_isDigit {c : Char} (h : c.isDigit = true) : isPrintable c = true := by
  have hrange := toNat_of_isDigit h
  have hascii : 0x20 ≤ c.toNat ∧ c.toNat ≤ 0x7E := by omega
  simp only [isPrintable, hascii, decide_true, Bool.and_self, Bool.true_or]

theorem visible_decimal (n : Int) : Visible (decimal n) := by
  rw [Visible, decimal, String.toList_ofList, List.forall_mem_append]
  refine ⟨?_, fun c hc => isPrintable_of_isDigit (isDigit_of_mem_toDigits c hc)⟩
  split
  · exact List.forall_mem_singleton.mpr (by decide)
  · exact fun _ hc => absurd hc List.not_mem_nil

/-! ## Quoted texts -/

theorem isPrintable_hexDigit : ∀ n < 16, isPrintable (hexDigit n) = true := by decide

theorem isPrintable_of_mem_hex {width n : Nat} : ∀ c ∈ hex width n, isPrintable c = true := by
  induction width generalizing n with
  | zero => exact fun _ hc => absurd hc List.not_mem_nil
  | succ width ih =>
      rw [hex, List.forall_mem_append, List.forall_mem_singleton]
      exact ⟨ih, isPrintable_hexDigit _ (Nat.mod_lt _ (by decide))⟩

theorem isPrintable_of_mem_escapeCode {n : Nat} : ∀ c ∈ escapeCode n, isPrintable c = true := by
  have hmarked : ∀ mark width, isPrintable mark = true →
      ∀ c ∈ '\\' :: mark :: hex width n, isPrintable c = true := by
    intro mark width hmark
    exact List.forall_mem_cons.mpr
      ⟨by decide, List.forall_mem_cons.mpr ⟨hmark, isPrintable_of_mem_hex⟩⟩
  unfold escapeCode
  split
  · exact hmarked 'x' 2 (by decide)
  · split
    · exact hmarked 'u' 4 (by decide)
    · exact hmarked 'U' 8 (by decide)

/-- A character is seen as it is or after a backslash, or its code point is seen. -/
theorem isPrintable_of_mem_escape {quote c : Char} (hquote : isPrintable quote = true) :
    ∀ d ∈ escape quote c, isPrintable d = true := by
  have hmarked : ∀ mark, isPrintable mark = true → ∀ d ∈ ['\\', mark], isPrintable d = true :=
    fun mark hmark =>
      List.forall_mem_cons.mpr ⟨by decide, List.forall_mem_singleton.mpr hmark⟩
  unfold escape
  split
  case isTrue hsign =>
    simp only [Bool.or_eq_true, beq_iff_eq] at hsign
    rcases hsign with rfl | rfl
    · exact hmarked c hquote
    · exact hmarked '\\' (by decide)
  case isFalse =>
    split
    · exact hmarked 'n' (by decide)
    · split
      · exact hmarked 'r' (by decide)
      · split
        · exact hmarked 't' (by decide)
        · split
          case isTrue hc => exact List.forall_mem_singleton.mpr hc
          case isFalse => exact isPrintable_of_mem_escapeCode

theorem isPrintable_quoteFor (cs : List Char) : isPrintable (quoteFor cs) = true := by
  unfold quoteFor
  split <;> decide

theorem visible_quoted (text : String) : Visible (quoted text) := by
  have hquote := isPrintable_quoteFor text.toList
  rw [Visible, quoted, String.toList_ofList, List.forall_mem_cons, List.forall_mem_append,
    List.forall_mem_singleton, List.forall_mem_flatMap]
  exact ⟨hquote, fun _ _ => isPrintable_of_mem_escape hquote, hquote⟩

/-- Ends of lines of every kind stay in a quoted text. -/
example : quoted "1 F\n\u0085\u2028" = "'1 F\\n\\x85\\u2028'" := by decide +kernel

end LSystem.Text
