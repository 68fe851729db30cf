import LSystem.Proofs.Json.Numbers

/-! # How far a lexeme looks

What a lexeme is depends on its own characters. Only where a number or a name ends is seen from the
character after it. -/

namespace LSystem.Json

/-! ## Strings -/

theorem readString_cons (opening : Nat) (read : List Char) (count : Nat) (c : Char)
    (rest : List Char) :
    readString opening read count (c :: rest) =
      if c == '"' then .ok (String.ofList read.reverse, count + 1)
      else if c == '\\' then
        match readEscape opening (opening + 1 + count) rest with
        | .error e => .error e
        | .ok (meaning, n) => readString opening (meaning :: read) (count + 1 + n) (rest.drop n)
      else if c.toNat < 0x20 then .error (.control, opening + 1 + count)
      else readString opening (c :: read) (count + 1) rest :=
  readString.eq_def opening read count (c :: rest)

/-- A string takes up characters, and no more than there are. -/
theorem length_of_readString {opening count n : Nat} {read cs : List Char} {s : String}
    (h : readString opening read count cs = .ok (s, n)) : count < n ∧ n ≤ count + cs.length := by
  fun_induction readString opening read count cs with
  | case1 | case3 | case5 => cases h
  | case2 =>
      cases h
      simp
  | case4 _ _ _ _ _ _ _ _ _ ih =>
      have hlength := ih h
      rw [List.length_drop] at hlength
      rw [List.length_cons]
      omega
  | case6 _ _ _ _ _ _ _ ih =>
      have hlength := ih h
      rw [List.length_cons]
      omega

theorem readEscape_of_ne {opening position : Nat} {c : Char} (hc : c ≠ 'u') (rest : List Char) :
    readEscape opening position (c :: rest) =
      match escapes.lookup c with
      | some meaning => .ok (meaning, 1)
      | none => .error (.badEscape, position) := by
  unfold readEscape
  split
  · rename_i heq
    cases heq
  · rename_i heq
    cases heq
    exact absurd rfl hc
  · rename_i heq
    cases heq
    exact if_neg (by simpa using hc)

/-- An escape of a code takes up its four digits, or a second code as well. -/
theorem length_of_readEscape {opening position n : Nat} {meaning : Char} {rest : List Char}
    (h : readEscape opening position ('u' :: rest) = .ok (meaning, n)) : n = 5 ∨ n = 11 := by
  unfold readEscape at h
  split at h
  · rename_i heq
    cases heq
  · split at h
    · cases h
    · split at h
      · split at h
        · cases h
        · cases h
          exact .inl rfl
        · rw [Except.ok.injEq, Prod.mk.injEq] at h
          exact .inr h.2.symm
      · cases h
        exact .inl rfl
  · rename_i heq
    cases heq
    cases h

theorem exists_of_five_le : {cs : List Char} → 5 ≤ cs.length →
    ∃ a b c d e rest, cs = a :: b :: c :: d :: e :: rest
  | a :: b :: c :: d :: e :: rest, _ => ⟨a, b, c, d, e, rest, rfl⟩

theorem lowHalf?_of_ne {position : Nat} {c : Char} (hc : c ≠ '\\') (rest : List Char) :
    lowHalf? position (c :: rest) = .ok none := by
  unfold lowHalf?
  split
  · rename_i heq
    cases heq
    exact absurd rfl hc
  · rfl

theorem lowHalf?_backslash_of_ne {position : Nat} {c : Char} (hc : c ≠ 'u') (rest : List Char) :
    lowHalf? position ('\\' :: c :: rest) = .ok none := by
  unfold lowHalf?
  split
  · rename_i heq
    cases heq
    exact absurd rfl hc
  · rfl

/-- No more than seven characters are looked at. -/
theorem lowHalf?_append {position : Nat} :
    {cs : List Char} → 7 ≤ cs.length → (rest : List Char) →
      lowHalf? position (cs ++ rest) = lowHalf? position cs
  | c :: u :: _ :: _ :: _ :: _ :: _ :: _, _, rest => by
      by_cases hc : c = '\\'
      · by_cases hu : u = 'u'
        · subst hc hu
          rfl
        · subst hc
          simp only [List.cons_append, lowHalf?_backslash_of_ne hu]
      · simp only [List.cons_append, lowHalf?_of_ne hc]

/-- What comes after a string does not matter to a look ahead within it. -/
theorem lowHalf?_append_of_readString {opening count : Nat} {read used rest : List Char}
    {s : String} (h : readString opening read count (used ++ rest) = .ok (s, count + used.length))
    (position : Nat) (other : List Char) :
    lowHalf? position (used ++ other) = lowHalf? position (used ++ rest) := by
  cases used with
  | nil => exact absurd (length_of_readString h).1 (by simp)
  | cons c used =>
      by_cases hc : c = '\\'
      · subst hc
        -- A backslash begins an escape, and all of the escape belongs to the string.
        rw [List.cons_append, readString_cons, if_neg (by decide), if_pos (by decide)] at h
        split at h
        · cases h
        rename_i meaning n hescape
        have hlength := (length_of_readString h).1
        rw [List.length_cons] at hlength
        cases used with
        | nil =>
            rw [List.length_nil] at hlength
            omega
        | cons u used =>
            by_cases hu : u = 'u'
            · subst hu
              have hcode := length_of_readEscape hescape
              rw [List.length_cons] at hlength
              obtain ⟨a, b, c, d, next, more, rfl⟩ := exists_of_five_le (show 5 ≤ used.length by omega)
              rfl
            · simp only [List.cons_append, lowHalf?_backslash_of_ne hu]
      · rw [List.cons_append, List.cons_append, lowHalf?_of_ne hc, lowHalf?_of_ne hc]

/-- An escape within a string is read from the characters of the string. -/
theorem readEscape_append {opening position count n : Nat} {read used rest : List Char}
    {meaning : Char} {s : String} (h : readEscape opening position (used ++ rest) = .ok (meaning, n))
    (hlength : n < used.length)
    (hstring : readString opening read count (used.drop n ++ rest) =
      .ok (s, count + (used.drop n).length)) (other : List Char) :
    readEscape opening position (used ++ other) = .ok (meaning, n) := by
  cases used with
  | nil => exact absurd hlength (Nat.not_lt_zero n)
  | cons c used =>
      by_cases hc : c = 'u'
      · subst hc
        have hcode := length_of_readEscape h
        rw [List.length_cons] at hlength
        obtain ⟨a, b, c, d, next, more, rfl⟩ := exists_of_five_le (show 5 ≤ used.length by omega)
        simp only [List.cons_append, readEscape] at h ⊢
        cases hunit : codeUnit? [a, b, c, d] with
        | none => simp [hunit] at h
        | some high =>
            simp only [hunit] at h ⊢
            split at h
            · rename_i hhigh
              have hlow : lowHalf? (position + 6) (next :: (more ++ other)) =
                  lowHalf? (position + 6) (next :: (more ++ rest)) := by
                rcases hcode with rfl | rfl
                · exact lowHalf?_append_of_readString hstring _ other
                · have hlong : 7 ≤ (next :: more).length := by
                    simp only [List.length_cons] at hlength ⊢
                    omega
                  rw [← List.cons_append, ← List.cons_append, lowHalf?_append hlong,
                    lowHalf?_append hlong]
              rw [if_pos hhigh, hlow]
              exact h
            · rename_i hhigh
              rw [if_neg hhigh]
              exact h
      · rw [List.cons_append, readEscape_of_ne hc] at h ⊢
        exact h

/-- A string is read from its own characters. -/
theorem readString_append {opening count : Nat} {read used rest : List Char} {s : String}
    (h : readString opening read count (used ++ rest) = .ok (s, count + used.length))
    (other : List Char) :
    readString opening read count (used ++ other) = .ok (s, count + used.length) := by
  induction hsize : used.length using Nat.strongRecOn generalizing used read count with
  | ind size ih =>
      cases used with
      | nil => exact absurd (length_of_readString h).1 (by simp)
      | cons c used =>
          rw [List.length_cons] at h hsize
          subst hsize
          rw [List.cons_append, readString_cons] at h ⊢
          by_cases hquote : c == '"'
          · rw [if_pos hquote] at h ⊢
            exact h
          rw [if_neg hquote] at h ⊢
          by_cases hbackslash : c == '\\'
          · rw [if_pos hbackslash] at h ⊢
            split at h
            · cases h
            rename_i meaning n hescape
            have hn : n < used.length := by
              have hcount := (length_of_readString h).1
              omega
            have hsplit : ∀ tail : List Char, (used ++ tail).drop n = used.drop n ++ tail :=
              fun tail => List.drop_append_of_le_length (Nat.le_of_lt hn)
            have hused : count + (used.length + 1) = count + 1 + n + (used.drop n).length := by
              rw [List.length_drop]
              omega
            rw [hsplit, hused] at h
            rw [readEscape_append hescape hn h other]
            simp only [hsplit, hused]
            refine ih _ ?_ h rfl
            rw [List.length_drop]
            omega
          · rw [if_neg hbackslash] at h ⊢
            split at h
            · cases h
            rename_i hcontrol
            have hused : count + (used.length + 1) = count + 1 + used.length := by omega
            rw [hused] at h
            rw [if_neg hcontrol, hused]
            exact ih _ (Nat.lt_succ_self _) h rfl

/-! ## Numbers and names -/

theorem isPrefixOf_delimiter {spelling : List Char} {d : Char} (hd : d ∉ spelling)
    (cs rest : List Char) : spelling.isPrefixOf (cs ++ d :: rest) = spelling.isPrefixOf cs := by
  induction spelling generalizing cs with
  | nil => simp
  | cons c spelling ih =>
      rw [List.mem_cons, not_or] at hd
      cases cs with
      | nil => simp [List.isPrefixOf, Ne.symm hd.1]
      | cons c' cs => simp [List.isPrefixOf, ih hd.2]

theorem not_mem_constants_of_mem_delimiters :
    ∀ d ∈ delimiters, ∀ constant ∈ constants, d ∉ constant.1 := by
  simp [delimiters, constants]

/-- What follows a delimiter does not matter to a lexeme before it. -/
theorem lexemeAt_delimiter {d : Char} (hd : d ∈ delimiters) {position : Nat} {c : Char}
    (hc : c ≠ '"') (cs rest : List Char) :
    lexemeAt position c (cs ++ d :: rest) = lexemeAt position c cs := by
  have hnumber : readNumber? (c :: (cs ++ d :: rest)) = readNumber? (c :: cs) :=
    readNumber?_delimiter hd (List.cons_ne_nil c cs) rest
  have hname : constants.find? (fun constant => constant.1.isPrefixOf (c :: (cs ++ d :: rest))) =
      constants.find? (fun constant => constant.1.isPrefixOf (c :: cs)) := by
    rw [← List.head?_filter, ← List.head?_filter]
    congr 1
    apply List.filter_congr
    intro constant hconstant
    exact isPrefixOf_delimiter (not_mem_constants_of_mem_delimiters d hd constant hconstant)
      (c :: cs) rest
  simp only [lexemeAt, hnumber, hname, beq_iff_eq, hc, if_false]

/-! ## What a character begins -/

theorem NumberText.kind_cases (number : NumberText) :
    (∃ value, number.kind = .scalar value) ∨ ∃ integer, number.kind = .overlong integer := by
  rw [NumberText.kind]
  split
  · cases Text.signed number.negative number.whole with
    | ok n => exact .inl ⟨_, rfl⟩
    | error integer => exact .inr ⟨_, rfl⟩
  · exact .inl ⟨_, rfl⟩

def Kind.isPunctuation : Kind → Bool
  | .openArray | .closeArray | .openObject | .closeObject | .colon | .comma => true
  | _ => false

/-- What a character and the text after it begin, and how much of that text belongs to it. -/
inductive Begins (position : Nat) (c : Char) (rest : List Char) : Kind → Nat → Prop where
  | punctuation {kind : Kind} : kind.isPunctuation = true → c ∈ delimiters →
      (∀ other, lexemeAt position c other = (kind, 0)) → Begins position c rest kind 0
  | string {s : String} {n : Nat} : c = '"' → readString position [] 0 rest = .ok (s, n) →
      Begins position c rest (.scalar (.string s)) n
  | broken {problem : Problem} {place : Nat} : c = '"' →
      readString position [] 0 rest = .error (problem, place) →
      Begins position c rest (.broken problem place) 0
  /-- A number or a name. -/
  | scalar {value : Json} {n : Nat} : c ≠ '"' → n ≤ rest.length →
      Begins position c rest (.scalar value) n
  | overlong {number : NumberText} {integer : Text.Overlong} {m n : Nat} :
      readNumber? (c :: rest) = some (number, m) → number.kind = .overlong integer →
      Begins position c rest (.overlong integer) n
  | stray : Begins position c rest .stray 0

theorem mem_delimiters_of_punctuation :
    ∀ {c : Char}, c ∈ ['[', ']', '\x7b', '\x7d', ':', ','] → c ∈ delimiters := by
  simp [delimiters]

theorem lexemeAt_of_not_punctuation {position : Nat} {c : Char} {rest : List Char}
    (hc : c ∉ ['[', ']', '\x7b', '\x7d', ':', ',']) :
    lexemeAt position c rest =
      if c = '"' then
        match readString position [] 0 rest with
        | .ok (s, n) => (.scalar (.string s), n)
        | .error (problem, place) => (.broken problem place, 0)
      else
        match constants.find? (fun constant => constant.1.isPrefixOf (c :: rest)) with
        | some (spelling, value) => (.scalar value, spelling.length - 1)
        | none =>
            match readNumber? (c :: rest) with
            | some (number, n) => (number.kind, n - 1)
            | none => (.stray, 0) := by
  simp only [List.mem_cons, List.not_mem_nil, or_false, not_or] at hc
  obtain ⟨hopen, hclose, hopenObject, hcloseObject, hcolon, hcomma⟩ := hc
  have hskip : ∀ other, c ≠ other → ¬ (c == other) = true := fun other h => by simpa using h
  exact (if_neg (hskip _ hopen)).trans <| (if_neg (hskip _ hclose)).trans <|
    (if_neg (hskip _ hopenObject)).trans <| (if_neg (hskip _ hcloseObject)).trans <|
    (if_neg (hskip _ hcolon)).trans <| (if_neg (hskip _ hcomma)).trans <|
    if_congr beq_iff_eq rfl rfl

theorem begins_lexemeAt (position : Nat) (c : Char) (rest : List Char) :
    Begins position c rest (lexemeAt position c rest).1 (lexemeAt position c rest).2 := by
  by_cases hpunctuation : c ∈ ['[', ']', '\x7b', '\x7d', ':', ',']
  · simp only [List.mem_cons, List.not_mem_nil, or_false] at hpunctuation
    rcases hpunctuation with rfl | rfl | rfl | rfl | rfl | rfl <;>
      exact .punctuation rfl (by decide) (fun _ => rfl)
  · rw [lexemeAt_of_not_punctuation hpunctuation]
    split
    · rename_i hquote
      split
      · rename_i hread
        exact .string hquote hread
      · rename_i hread
        exact .broken hquote hread
    · rename_i hquote
      split
      · rename_i spelling value hname
        have hbegins : spelling.isPrefixOf (c :: rest) = true := by
          simpa using List.find?_some hname
        have hlength := (List.isPrefixOf_iff_prefix.mp hbegins).length_le
        rw [List.length_cons] at hlength
        exact .scalar hquote (Nat.sub_le_of_le_add hlength)
      · split
        · rename_i number n hnumber
          have hlength := length_of_readNumber? hnumber
          rw [List.length_cons] at hlength
          rcases number.kind_cases with ⟨value, hkind⟩ | ⟨integer, hkind⟩
          · rw [hkind]
            exact .scalar hquote (Nat.sub_le_of_le_add hlength.2)
          · rw [hkind]
            exact .overlong hnumber hkind
        · exact .stray

/-! ## Integers that are too long -/

/-- No name begins like an integer. -/
theorem find?_constants_integer {literal : List Char} {k : Nat} (h : IsInteger literal k) (hk : 0 < k)
    (after : List Char) :
    constants.find? (fun constant => constant.1.isPrefixOf (literal ++ after)) = none := by
  rw [List.find?_eq_none]
  cases h with
  | @mk sign digits hsign hdigits hhead =>
      obtain ⟨d, digits, rfl⟩ := List.exists_cons_of_length_pos hk
      have hd := hdigits d List.mem_cons_self
      have hne : 'n' ≠ d ∧ 't' ≠ d ∧ 'f' ≠ d ∧ 'N' ≠ d ∧ 'I' ≠ d ∧ '-' ≠ d := by
        refine ⟨?_, ?_, ?_, ?_, ?_, ?_⟩ <;> rintro rfl <;> cases hd
      rcases hsign with rfl | rfl <;> simp [constants, hne]

/-- An integer begins with a sign or a digit. -/
theorem IsInteger.exists_cons {literal : List Char} {k : Nat} (h : IsInteger literal k) (hk : 0 < k) :
    ∃ c rest, literal = c :: rest ∧ (c = '-' ∨ c.isDigit = true) := by
  cases h with
  | @mk sign digits hsign hdigits hhead =>
      obtain ⟨d, digits, rfl⟩ := List.exists_cons_of_length_pos hk
      rcases hsign with rfl | rfl
      · exact ⟨d, digits, rfl, .inr (hdigits d List.mem_cons_self)⟩
      · exact ⟨'-', d :: digits, rfl, .inl rfl⟩

theorem not_mem_delimiters_of_integer {c : Char} (h : c = '-' ∨ c.isDigit = true) :
    c ∉ delimiters := by
  intro hmem
  have hnumeric := not_numeric_of_mem_delimiters c hmem
  simp [hnumeric] at h

/-- Where a character begins an integer that is too long. -/
theorem exists_lexemeAt_overlong_iff {position : Nat} {c : Char} {rest : List Char} {k : Nat} :
    (∃ n, lexemeAt position c rest = (.overlong ⟨k⟩, n)) ↔
      Text.digitLimit < k ∧ ∃ literal after, c :: rest = literal ++ after ∧ IsInteger literal k ∧
        ¬ ContinuesInteger after := by
  rw [← readNumber?_overlong_iff]
  constructor
  · rintro ⟨n, h⟩
    have hbegins := begins_lexemeAt position c rest
    rw [h] at hbegins
    cases hbegins with
    | punctuation hkind => cases hkind
    | overlong hnumber hkind => exact ⟨_, _, hnumber, hkind⟩
  · rintro ⟨number, n, hnumber, hkind⟩
    obtain ⟨hlong, literal, after, hcs, hliteral, -⟩ :=
      readNumber?_overlong_iff.mp ⟨number, n, hnumber, hkind⟩
    have hpos := Nat.zero_lt_of_lt hlong
    have hname := find?_constants_integer hliteral hpos after
    rw [← hcs] at hname
    obtain ⟨first, tail, hfirst, hc⟩ := hliteral.exists_cons hpos
    rw [hfirst, List.cons_append, List.cons.injEq] at hcs
    obtain rfl := hcs.1
    have hpunctuation : c ∉ ['[', ']', '\x7b', '\x7d', ':', ','] :=
      fun hmem => not_mem_delimiters_of_integer hc (mem_delimiters_of_punctuation hmem)
    have hquote : c ≠ '"' := by
      rintro rfl
      exact absurd hc (by decide)
    rw [lexemeAt_of_not_punctuation hpunctuation, if_neg hquote, hname, hnumber, ← hkind]
    exact ⟨_, rfl⟩

end LSystem.Json
