import LSystem.Json.Reader
import LSystem.Proofs.Json.Lexemes

/-! # Where reading meets a long integer

A text whose reading ends at an integer that is too long has it where the text before it lacks a value
and nothing else. -/

namespace LSystem.Json

/-! ## Reading lexeme by lexeme -/

/-- Reads the rest of a text. -/
def readFrom (expected : Expected) (position : Nat) (cs : List Char) : Except Stop Expected :=
  (lexemesFrom position #[] cs).foldlM take expected

theorem lexemesFrom_cons {c : Char} (hc : isSpace c = false) {kind : Kind} {n position : Nat}
    {rest : List Char} (hlexeme : lexemeAt position c rest = (kind, n)) (found : Array Lexeme) :
    lexemesFrom position found (c :: rest) =
      if kind.isSound then
        lexemesFrom (position + 1 + n) (found.push ⟨position, kind⟩) (rest.drop n)
      else found.push ⟨position, kind⟩ := by
  rw [lexemesFrom, if_neg (by simp [hc]), hlexeme]

theorem lexemesFrom_eq_append (position : Nat) (found : Array Lexeme) (cs : List Char) :
    lexemesFrom position found cs = found ++ lexemesFrom position #[] cs := by
  induction hsize : cs.length using Nat.strongRecOn generalizing position found cs with
  | ind size ih =>
      cases cs with
      | nil => simp [lexemesFrom]
      | cons c rest =>
          rw [List.length_cons] at hsize
          cases hc : isSpace c with
          | true =>
              rw [lexemesFrom, if_pos hc, lexemesFrom, if_pos hc]
              exact ih _ (by omega) _ _ _ rfl
          | false =>
              cases hlexeme : lexemeAt position c rest with
              | mk kind n =>
                  have hshorter : (rest.drop n).length < size := by
                    rw [List.length_drop]
                    omega
                  rw [lexemesFrom_cons hc hlexeme, lexemesFrom_cons hc hlexeme]
                  split
                  · rw [ih _ hshorter _ (found.push _) _ rfl, ih _ hshorter _ (#[].push _) _ rfl]
                    simp
                  · simp

theorem readFrom_nil (expected : Expected) (position : Nat) :
    readFrom expected position [] = take expected ⟨position, .endOfText⟩ := by
  simp [readFrom, lexemesFrom]

theorem readFrom_space {c : Char} (hc : isSpace c = true) (expected : Expected) (position : Nat)
    (rest : List Char) :
    readFrom expected position (c :: rest) = readFrom expected (position + 1) rest := by
  rw [readFrom, lexemesFrom, if_pos hc]
  rfl

theorem readFrom_lexeme {c : Char} (hc : isSpace c = false) {kind : Kind} {n position : Nat}
    {rest : List Char} (hlexeme : lexemeAt position c rest = (kind, n)) (expected : Expected) :
    readFrom expected position (c :: rest) =
      match take expected ⟨position, kind⟩ with
      | .error stop => .error stop
      | .ok next =>
          if kind.isSound then readFrom next (position + 1 + n) (rest.drop n) else .ok next := by
  rw [readFrom, lexemesFrom_cons hc hlexeme]
  split
  · rw [lexemesFrom_eq_append]
    simp
    cases take expected ⟨position, kind⟩ <;> rfl
  · simp
    cases take expected ⟨position, kind⟩ <;> rfl

/-! ## What a lexeme can do -/

namespace Expected

/-- Whether a value may come next. -/
def takesValue : Expected → Bool
  | value _ | itemOrClose _ => true
  | _ => false

/-- Whether only punctuation or the end may come next. -/
def closed : Expected → Bool
  | colon _ _ _ | afterItem _ _ | afterMember _ _ | nothing _ => true
  | _ => false

end Expected

/-- What a lexeme comes to. -/
inductive Taken (expected : Expected) (position : Nat) : Kind → Except Stop Expected → Prop where
  | scalar {value : Json} {next : Expected} : expected.closed = false → next.closed = true →
      Taken expected position (.scalar value) (.ok next)
  | punctuation {kind : Kind} {next : Expected} : kind.isPunctuation = true →
      Taken expected position kind (.ok next)
  | finished {value : Json} : expected = .nothing value →
      Taken expected position .endOfText (.ok (.nothing value))
  | broken {problem : Problem} {place : Nat} : expected.closed = false →
      Taken expected position (.broken problem place) (.error (.malformed problem place))
  | overlong {integer : Text.Overlong} : expected.takesValue = true →
      Taken expected position (.overlong integer) (.error (.overlong integer))
  | missing {kind : Kind} : expected.takesValue = true → (∀ integer, kind ≠ .overlong integer) →
      Taken expected position kind (.error (.malformed .value position))
  | misplaced {kind : Kind} {problem : Problem} : expected.takesValue = false → problem ≠ .value →
      Taken expected position kind (.error (.malformed problem position))

theorem takesValue_of_closed {expected : Expected} (h : expected.closed = true) :
    expected.takesValue = false := by
  cases expected <;> first | rfl | cases h

theorem closed_complete (value : Json) (stack : List Frame) : (complete value stack).closed = true := by
  unfold complete
  split <;> rfl

theorem taken_takeValue {expected : Expected} (h : expected.takesValue = true) (position : Nat)
    (kind : Kind) (stack : List Frame) :
    Taken expected position kind (takeValue ⟨position, kind⟩ stack) := by
  have hopen : expected.closed = false := by
    cases expected <;> first | rfl | cases h
  cases kind with
  | scalar value => exact .scalar hopen (closed_complete value stack)
  | openArray | openObject => exact .punctuation rfl
  | broken => exact .broken hopen
  | overlong => exact .overlong h
  | closeArray | closeObject | colon | comma | stray | endOfText => exact .missing h (by simp)

theorem taken_takeName {expected : Expected} (hvalue : expected.takesValue = false)
    (hopen : expected.closed = false) (position : Nat) (kind : Kind)
    (members : List (String × Json)) (stack : List Frame) :
    Taken expected position kind (takeName ⟨position, kind⟩ members stack) := by
  unfold takeName
  split
  · rename_i hkind
    simp only at hkind
    rw [hkind]
    exact .scalar hopen rfl
  · rename_i hkind
    simp only at hkind
    rw [hkind]
    exact .broken hopen
  · exact .misplaced hvalue (by decide)

theorem taken_take (expected : Expected) (position : Nat) (kind : Kind) :
    Taken expected position kind (take expected ⟨position, kind⟩) := by
  cases expected with
  | value stack => exact taken_takeValue rfl position kind stack
  | itemOrClose stack =>
      cases kind with
      | closeArray => exact .punctuation rfl
      | openArray | openObject | closeObject | colon | comma | scalar | broken | overlong | stray
      | endOfText =>
          exact taken_takeValue rfl position _ (.array [] :: stack)
  | nameOrClose stack =>
      cases kind with
      | closeObject => exact .punctuation rfl
      | openArray | closeArray | openObject | colon | comma | scalar | broken | overlong | stray
      | endOfText =>
          exact taken_takeName rfl rfl position _ [] stack
  | name members stack => exact taken_takeName rfl rfl position kind members stack
  | colon members name stack =>
      cases kind <;> first | exact .punctuation rfl | exact .misplaced rfl (by decide)
  | afterItem items stack =>
      cases kind <;> first | exact .punctuation rfl | exact .misplaced rfl (by decide)
  | afterMember members stack =>
      cases kind <;> first | exact .punctuation rfl | exact .misplaced rfl (by decide)
  | nothing value =>
      cases kind <;> first | exact .finished rfl | exact .misplaced rfl (by decide)

/-! ## Places for a value -/

section

variable {expected next : Expected} {position place : Nat} {kind : Kind}

theorem take_overlong (h : expected.takesValue = true) (integer : Text.Overlong) :
    take expected ⟨position, .overlong integer⟩ = .error (.overlong integer) := by
  generalize hresult : take expected ⟨position, .overlong integer⟩ = result
  have htaken := taken_take expected position (.overlong integer)
  rw [hresult] at htaken
  cases htaken with
  | punctuation hkind => cases hkind
  | overlong => rfl
  | missing _ hkind => exact absurd rfl (hkind integer)
  | misplaced hvalue => rw [h] at hvalue; cases hvalue

theorem of_take_eq_overlong {integer : Text.Overlong}
    (h : take expected ⟨position, kind⟩ = .error (.overlong integer)) :
    expected.takesValue = true ∧ kind = .overlong integer := by
  have htaken := taken_take expected position kind
  rw [h] at htaken
  cases htaken with
  | overlong hvalue => exact ⟨hvalue, rfl⟩

/-- A text that ends lacks a value where one may come. -/
theorem take_endOfText_eq_iff :
    take expected ⟨position, .endOfText⟩ = .error (.malformed .value place) ↔
      expected.takesValue = true ∧ place = position := by
  have htaken := taken_take expected position .endOfText
  constructor
  · intro h
    rw [h] at htaken
    cases htaken with
    | missing hvalue => exact ⟨hvalue, rfl⟩
    | misplaced _ hproblem => exact absurd rfl hproblem
  · rintro ⟨hvalue, rfl⟩
    generalize take expected ⟨place, .endOfText⟩ = result at htaken
    cases htaken with
    | punctuation hkind => cases hkind
    | finished hnothing => rw [hnothing] at hvalue; cases hvalue
    | missing => rfl
    | misplaced hno => rw [hvalue] at hno; cases hno

/-- Reading goes on after a number or a name, which closes a value, or after punctuation. -/
theorem of_take_eq_ok (h : take expected ⟨position, kind⟩ = .ok next) :
    (∃ value, kind = .scalar value ∧ next.closed = true) ∨ kind.isPunctuation = true ∨
      kind = .endOfText ∧ ∃ value, next = .nothing value := by
  have htaken := taken_take expected position kind
  rw [h] at htaken
  cases htaken with
  | scalar _ hclosed => exact .inl ⟨_, rfl, hclosed⟩
  | punctuation hkind => exact .inr (.inl hkind)
  | finished _ => exact .inr (.inr ⟨rfl, _, rfl⟩)

/-- After a number or a name nothing but punctuation is read, and no value is missed. -/
theorem of_take_of_closed (hclosed : expected.closed = true) :
    (∃ next, take expected ⟨position, kind⟩ = .ok next ∧
      (kind.isPunctuation = true ∨ kind = .endOfText)) ∨
    ∃ stop, take expected ⟨position, kind⟩ = .error stop ∧ ∀ place, stop ≠ .malformed .value place := by
  have htaken := taken_take expected position kind
  generalize take expected ⟨position, kind⟩ = result at htaken
  cases htaken with
  | scalar hopen | broken hopen => rw [hclosed] at hopen; cases hopen
  | punctuation hkind => exact .inl ⟨_, rfl, .inl hkind⟩
  | finished => exact .inl ⟨_, rfl, .inr rfl⟩
  | overlong => exact .inr ⟨_, rfl, by simp⟩
  | missing hvalue =>
      rw [takesValue_of_closed hclosed] at hvalue
      cases hvalue
  | misplaced _ hproblem => exact .inr ⟨_, rfl, by simp [hproblem]⟩

end

/-! ## One lexeme after the other -/

theorem begins_of_lexemeAt {position n : Nat} {c : Char} {rest : List Char} {kind : Kind}
    (h : lexemeAt position c rest = (kind, n)) : Begins position c rest kind n := by
  have hbegins := begins_lexemeAt position c rest
  rwa [h] at hbegins

theorem Begins.mem_delimiters {position n : Nat} {c : Char} {rest : List Char} {kind : Kind}
    (h : Begins position c rest kind n) (hkind : kind.isPunctuation = true) : c ∈ delimiters := by
  cases h with
  | punctuation _ hc => exact hc
  | string | broken | scalar | overlong | stray => cases hkind

theorem Begins.ne_endOfText {position n : Nat} {c : Char} {rest : List Char} {kind : Kind}
    (h : Begins position c rest kind n) : kind ≠ .endOfText := by
  rintro rfl
  cases h with
  | punctuation hkind => cases hkind

theorem mem_delimiters_of_isSpace {c : Char} (h : isSpace c = true) : c ∈ delimiters := by
  simp only [isSpace, Bool.or_eq_true, beq_iff_eq] at h
  rcases h with ((rfl | rfl) | rfl) | rfl <;> decide

/-- A text that lacks a value only at its end goes on with a delimiter after a number or a name. -/
theorem exists_delimiter {expected : Expected} (hclosed : expected.closed = true)
    {position place : Nat} {cs : List Char}
    (h : readFrom expected position cs = .error (.malformed .value place)) :
    ∃ d rest, cs = d :: rest ∧ d ∈ delimiters := by
  cases cs with
  | nil =>
      rw [readFrom_nil, take_endOfText_eq_iff, takesValue_of_closed hclosed] at h
      cases h.1
  | cons c rest =>
      refine ⟨c, rest, rfl, ?_⟩
      cases hc : isSpace c with
      | true => exact mem_delimiters_of_isSpace hc
      | false =>
          cases hlexeme : lexemeAt position c rest with
          | mk kind n =>
              have hbegins := begins_of_lexemeAt hlexeme
              rw [readFrom_lexeme hc hlexeme] at h
              rcases @of_take_of_closed _ position kind hclosed with
                ⟨next, -, hkind | hkind⟩ | ⟨stop, htake, hstop⟩
              · exact hbegins.mem_delimiters hkind
              · exact absurd hkind hbegins.ne_endOfText
              · rw [htake] at h
                exact absurd (Except.error.inj h) (hstop place)

/-- What comes after a text that lacks a value does not matter to the lexemes in it. -/
theorem lexemeAt_append {expected next : Expected} {position after place n : Nat} {c : Char}
    {kind : Kind} {used rest more : List Char}
    (htake : take expected ⟨position, kind⟩ = .ok next)
    (hrest : readFrom next after rest = .error (.malformed .value place)) (hn : used.length = n)
    (h : lexemeAt position c (used ++ (rest ++ more)) = (kind, n)) (other : List Char) :
    lexemeAt position c (used ++ (rest ++ other)) = (kind, n) := by
  have hbegins := begins_of_lexemeAt h
  cases hbegins with
  | punctuation _ _ hall => exact hall _
  | @string s _ hquote hread =>
      subst hquote hn
      rw [← Nat.zero_add used.length] at hread
      have hown := readString_append hread (rest ++ other)
      rw [Nat.zero_add] at hown
      rw [lexemeAt_of_not_punctuation (by decide), if_pos rfl, hown]
  | scalar hquote _ =>
      rcases of_take_eq_ok htake with ⟨_, -, hclosed⟩ | hkind | ⟨hkind, -⟩
      · obtain ⟨d, rest, rfl, hd⟩ := exists_delimiter hclosed hrest
        rw [List.cons_append, lexemeAt_delimiter hd hquote] at h ⊢
        exact h
      · cases hkind
      · cases hkind
  | broken | overlong | stray =>
      rcases of_take_eq_ok htake with ⟨_, hkind, -⟩ | hkind | ⟨hkind, -⟩ <;> cases hkind

theorem length_le_of_begins {position n : Nat} {c : Char} {rest : List Char} {kind : Kind}
    (h : Begins position c rest kind n) (hsound : kind.isSound = true) : n ≤ rest.length := by
  cases h with
  | punctuation => exact Nat.zero_le _
  | string _ hread => simpa using (length_of_readString hread).2
  | scalar _ hlength => exact hlength
  | broken | overlong | stray => cases hsound

/-- Reading goes on behind a lexeme that is taken. -/
theorem readFrom_of_take {expected next : Expected} {position n : Nat} {c : Char} {kind : Kind}
    {rest : List Char} (hc : isSpace c = false) (hlexeme : lexemeAt position c rest = (kind, n))
    (htake : take expected ⟨position, kind⟩ = .ok next) :
    readFrom expected position (c :: rest) = readFrom next (position + 1 + n) (rest.drop n) ∧
      n ≤ rest.length := by
  have hbegins := begins_of_lexemeAt hlexeme
  have hsound : kind.isSound = true := by
    rcases of_take_eq_ok htake with ⟨_, rfl, -⟩ | hkind | ⟨hkind, -⟩
    · rfl
    · cases kind <;> first | rfl | cases hkind
    · exact absurd hkind hbegins.ne_endOfText
  rw [readFrom_lexeme hc hlexeme, htake]
  exact ⟨if_pos hsound, length_le_of_begins hbegins hsound⟩

/-- The text falls into what belongs to the lexeme and what is read behind it. -/
theorem exists_readFrom_of_take {expected next : Expected} {position n : Nat} {c : Char} {kind : Kind}
    {rest : List Char} (hc : isSpace c = false) (hlexeme : lexemeAt position c rest = (kind, n))
    (htake : take expected ⟨position, kind⟩ = .ok next) :
    ∃ used tail, rest = used ++ tail ∧ n = used.length ∧
      readFrom expected position (c :: rest) = readFrom next (position + 1 + used.length) tail := by
  obtain ⟨hstep, hn⟩ := readFrom_of_take hc hlexeme htake
  have hlength : (rest.take n).length = n := List.length_take_of_le hn
  refine ⟨rest.take n, rest.drop n, (List.take_append_drop n rest).symm, hlength.symm, ?_⟩
  rw [hstep, hlength]

/-- An induction over the rest of a text, as it is read: at its end, at a space, at a lexeme that is not
taken and behind one that is. -/
theorem readFrom_induct {motive : Expected → Nat → List Char → Prop}
    (nil : ∀ expected position, motive expected position [])
    (space : ∀ expected position c rest, isSpace c = true →
      motive expected (position + 1) rest → motive expected position (c :: rest))
    (refused : ∀ expected position c rest kind n stop, isSpace c = false →
      lexemeAt position c rest = (kind, n) → take expected ⟨position, kind⟩ = .error stop →
      readFrom expected position (c :: rest) = .error stop → motive expected position (c :: rest))
    (taken : ∀ expected next position c used tail kind, isSpace c = false →
      lexemeAt position c (used ++ tail) = (kind, used.length) →
      take expected ⟨position, kind⟩ = .ok next →
      readFrom expected position (c :: (used ++ tail)) =
        readFrom next (position + 1 + used.length) tail →
      motive next (position + 1 + used.length) tail → motive expected position (c :: (used ++ tail)))
    (expected : Expected) (position : Nat) (cs : List Char) : motive expected position cs := by
  induction hsize : cs.length using Nat.strongRecOn generalizing expected position cs with
  | ind size ih =>
      cases cs with
      | nil => exact nil expected position
      | cons c rest =>
          rw [List.length_cons] at hsize
          cases hc : isSpace c with
          | true => exact space _ _ _ _ hc (ih _ (by omega) _ _ _ rfl)
          | false =>
              cases hlexeme : lexemeAt position c rest with
              | mk kind n =>
                  cases htake : take expected ⟨position, kind⟩ with
                  | error stop =>
                      refine refused _ _ _ _ _ _ _ hc hlexeme htake ?_
                      rw [readFrom_lexeme hc hlexeme, htake]
                  | ok next =>
                      obtain ⟨used, tail, rfl, rfl, hstep⟩ :=
                        exists_readFrom_of_take hc hlexeme htake
                      rw [List.length_append] at hsize
                      exact taken _ _ _ _ _ _ _ hc hlexeme htake hstep
                        (ih _ (by omega) _ _ _ rfl)

/-- Reading goes on behind a lexeme in the same way, whatever comes after a text that lacks a value. -/
theorem readFrom_append {expected next : Expected} {position place : Nat} {c : Char} {kind : Kind}
    {used rest more : List Char} (hc : isSpace c = false)
    (hlexeme : lexemeAt position c (used ++ (rest ++ more)) = (kind, used.length))
    (htake : take expected ⟨position, kind⟩ = .ok next)
    (hrest : readFrom next (position + 1 + used.length) rest = .error (.malformed .value place))
    (other : List Char) :
    readFrom expected position (c :: (used ++ (rest ++ other))) =
      readFrom next (position + 1 + used.length) (rest ++ other) := by
  have hother := lexemeAt_append htake hrest rfl hlexeme other
  rw [(readFrom_of_take hc hother htake).1, List.drop_left]

/-! ## Where reading ends -/

theorem problem_of_lowHalf? {position place : Nat} {cs : List Char} {problem : Problem}
    (h : lowHalf? position cs = .error (problem, place)) : problem ≠ .value := by
  unfold lowHalf? at h
  split at h
  · split at h
    · cases h
      decide
    · cases h
  · cases h

theorem problem_of_readEscape {opening position place : Nat} {cs : List Char} {problem : Problem}
    (h : readEscape opening position cs = .error (problem, place)) : problem ≠ .value := by
  unfold readEscape at h
  split at h
  · cases h
    decide
  · split at h
    · cases h
      decide
    · split at h
      · split at h
        · rename_i hlow
          cases h
          exact problem_of_lowHalf? hlow
        · cases h
        · cases h
      · cases h
  · split at h
    · cases h
      decide
    · split at h
      · cases h
      · cases h
        decide

/-- A string that cannot be taken is not a missing value. -/
theorem problem_of_readString {opening count place : Nat} {read cs : List Char} {problem : Problem}
    (h : readString opening read count cs = .error (problem, place)) : problem ≠ .value := by
  fun_induction readString opening read count cs with
  | case1 | case5 =>
      cases h
      decide
  | case2 => cases h
  | case3 _ _ _ _ _ _ _ hescape =>
      cases h
      exact problem_of_readEscape hescape
  | case4 _ _ _ _ _ _ _ _ _ ih => exact ih h
  | case6 _ _ _ _ _ _ _ ih => exact ih h

/-- A lexeme that stands for a missing value is where the value is missing. -/
theorem place_of_take {expected : Expected} {position place n : Nat} {c : Char} {kind : Kind}
    {rest : List Char} (hlexeme : lexemeAt position c rest = (kind, n))
    (h : take expected ⟨position, kind⟩ = .error (.malformed .value place)) : place = position := by
  have htaken := taken_take expected position kind
  rw [h] at htaken
  cases htaken with
  | broken =>
      cases begins_of_lexemeAt hlexeme with
      | punctuation hkind => cases hkind
      | broken _ hread => exact absurd rfl (problem_of_readString hread)
  | missing => rfl
  | misplaced _ hproblem => exact absurd rfl hproblem

theorem exists_of_readFrom_eq_overlong {expected : Expected} {position k : Nat} {cs : List Char}
    (h : readFrom expected position cs = .error (.overlong ⟨k⟩)) :
      Text.digitLimit < k ∧ ∃ before literal after, cs = before ++ (literal ++ after) ∧
        readFrom expected position before = .error (.malformed .value (position + before.length)) ∧
        IsInteger literal k ∧ ¬ ContinuesInteger after := by
  induction expected, position, cs using readFrom_induct with
  | nil =>
      rw [readFrom_nil] at h
      cases (of_take_eq_overlong h).2
  | space expected position c rest hc ih =>
      rw [readFrom_space hc] at h
      obtain ⟨hlong, before, literal, after, rfl, hbefore, hliteral, hafter⟩ := ih h
      refine ⟨hlong, c :: before, literal, after, rfl, ?_, hliteral, hafter⟩
      rw [readFrom_space hc, hbefore, List.length_cons, Nat.add_right_comm, Nat.add_assoc]
  | refused expected position c rest kind n stop hc hlexeme htake hstop =>
      rw [hstop] at h
      rw [Except.error.inj h] at htake
      obtain ⟨hvalue, rfl⟩ := of_take_eq_overlong htake
      obtain ⟨hlong, literal, after, hcs, hliteral, hafter⟩ :=
        exists_lexemeAt_overlong_iff.mp ⟨n, hlexeme⟩
      refine ⟨hlong, [], literal, after, hcs, ?_, hliteral, hafter⟩
      rw [readFrom_nil]
      exact take_endOfText_eq_iff.mpr ⟨hvalue, rfl⟩
  | taken expected next position c used tail kind hc hlexeme htake hstep ih =>
      rw [hstep] at h
      obtain ⟨hlong, before, literal, after, rfl, hbefore, hliteral, hafter⟩ := ih h
      have hread := readFrom_append hc hlexeme htake hbefore []
      rw [List.append_nil] at hread
      refine ⟨hlong, c :: (used ++ before), literal, after, by simp, ?_, hliteral, hafter⟩
      rw [hread, hbefore, List.length_cons, List.length_append]
      congr 2
      omega

theorem readFrom_eq_overlong {expected : Expected} {position k : Nat}
    {before literal after : List Char} (hlong : Text.digitLimit < k)
    (h : readFrom expected position before = .error (.malformed .value (position + before.length)))
    (hliteral : IsInteger literal k) (hafter : ¬ ContinuesInteger after) :
    readFrom expected position (before ++ (literal ++ after)) = .error (.overlong ⟨k⟩) := by
  induction expected, position, before using readFrom_induct with
  | nil expected position =>
      rw [readFrom_nil, take_endOfText_eq_iff] at h
      obtain ⟨c, tail, rfl, hc⟩ := hliteral.exists_cons (Nat.zero_lt_of_lt hlong)
      have hspace : isSpace c = false := by
        rw [Bool.eq_false_iff]
        exact fun hspace => not_mem_delimiters_of_integer hc (mem_delimiters_of_isSpace hspace)
      obtain ⟨n, hlexeme⟩ : ∃ n, lexemeAt position c (tail ++ after) = (.overlong ⟨k⟩, n) :=
        exists_lexemeAt_overlong_iff.mpr ⟨hlong, c :: tail, after, rfl, hliteral, hafter⟩
      rw [List.nil_append, List.cons_append, readFrom_lexeme hspace hlexeme, take_overlong h.1]
  | space expected position c rest hc ih =>
      rw [readFrom_space hc, List.length_cons, ← Nat.add_assoc, Nat.add_right_comm] at h
      rw [List.cons_append, readFrom_space hc]
      exact ih h
  | refused expected position c rest kind n stop hc hlexeme htake hstop =>
      rw [hstop] at h
      rw [Except.error.inj h] at htake
      have hplace := place_of_take hlexeme htake
      rw [List.length_cons] at hplace
      omega
  | taken expected next position c used tail kind hc hlexeme htake hstep ih =>
      have hplace : position + (c :: (used ++ tail)).length =
          position + 1 + used.length + tail.length := by
        rw [List.length_cons, List.length_append]
        omega
      rw [hstep, hplace] at h
      rw [← List.append_nil tail] at hlexeme
      rw [List.cons_append, List.append_assoc, readFrom_append hc hlexeme htake h]
      exact ih h

/-! ## Texts with a long integer -/

/-- A text lacks a value at its end, and nothing else. -/
def LacksValue (cs : List Char) : Prop :=
  read cs = .error (.malformed .value (Text.placeOf cs cs.length))

/-- Where a value has to come stands an integer with so many digits, more than are read. -/
def HasLongInteger (cs : List Char) (digits : Nat) : Prop :=
  Text.digitLimit < digits ∧ ∃ before literal after, cs = before ++ (literal ++ after) ∧
    LacksValue before ∧ IsInteger literal digits ∧ ¬ ContinuesInteger after

theorem exists_of_readFrom_eq_ok {expected next : Expected} {position : Nat} {cs : List Char}
    (h : readFrom expected position cs = .ok next) : ∃ value, next = .nothing value := by
  induction expected, position, cs using readFrom_induct with
  | nil =>
      rw [readFrom_nil] at h
      rcases of_take_eq_ok h with ⟨_, hkind, -⟩ | hkind | ⟨-, hnext⟩
      · cases hkind
      · cases hkind
      · exact hnext
  | space expected position c rest hc ih =>
      rw [readFrom_space hc] at h
      exact ih h
  | refused expected position c rest kind n stop hc hlexeme htake hstop =>
      rw [hstop] at h
      cases h
  | taken expected next position c used tail kind hc hlexeme htake hstep ih =>
      rw [hstep] at h
      exact ih h

/-- Reading a text fails where reading its lexemes does, unless it starts with a byte order mark. -/
theorem readChars_eq_error_iff {cs : List Char} {stop : Stop} (hstop : stop ≠ .malformed .byteOrderMark 0) :
    readChars cs = .error stop ↔
      cs.head? ≠ some byteOrderMark ∧ readFrom (.value []) 0 cs = .error stop := by
  rw [readChars]
  by_cases hmark : cs.head? = some byteOrderMark
  · rw [if_pos hmark]
    simp [hmark, Ne.symm hstop]
  · rw [if_neg hmark]
    have hfold : (lexemes cs).foldlM take (.value []) = readFrom (.value []) 0 cs := rfl
    rw [hfold]
    cases hread : readFrom (.value []) 0 cs with
    | error other => simp [hmark]
    | ok next =>
        obtain ⟨value, rfl⟩ := exists_of_readFrom_eq_ok hread
        simp

theorem lacksValue_iff {cs : List Char} :
    LacksValue cs ↔ cs.head? ≠ some byteOrderMark ∧
      readFrom (.value []) 0 cs = .error (.malformed .value cs.length) := by
  rw [← readChars_eq_error_iff (by simp), LacksValue, read]
  cases readChars cs with
  | ok value => simp
  | error stop =>
      cases stop with
      | overlong integer => simp
      | malformed problem position =>
          simp only [Except.error.injEq, Fault.malformed.injEq, Stop.malformed.injEq]
          apply and_congr_right
          intro _
          constructor
          · exact fun hplace => congrArg Text.Place.offset hplace
          · rintro rfl
            rfl

theorem lacksValue_nil : LacksValue [] := by
  rw [lacksValue_iff, readFrom_nil]
  exact ⟨nofun, rfl⟩

theorem read_eq_overlong_iff_readChars {cs : List Char} {integer : Text.Overlong} :
    read cs = .error (.overlong integer) ↔ readChars cs = .error (.overlong integer) := by
  rw [read]
  cases readChars cs with
  | ok value => simp
  | error stop => cases stop <;> simp

/-- Reading fails at an integer that is too long exactly if the text has one where a value has to
come. -/
theorem read_eq_overlong_iff {cs : List Char} {digits : Nat} :
    read cs = .error (.overlong ⟨digits⟩) ↔ HasLongInteger cs digits := by
  rw [read_eq_overlong_iff_readChars, readChars_eq_error_iff (by simp)]
  constructor
  · rintro ⟨hmark, h⟩
    obtain ⟨hlong, before, literal, after, rfl, hbefore, hliteral, hafter⟩ :=
      exists_of_readFrom_eq_overlong h
    rw [Nat.zero_add] at hbefore
    refine ⟨hlong, before, literal, after, rfl, lacksValue_iff.mpr ⟨?_, hbefore⟩, hliteral, hafter⟩
    cases before with
    | nil => simp
    | cons c before => exact hmark
  · rintro ⟨hlong, before, literal, after, rfl, hlacks, hliteral, hafter⟩
    obtain ⟨hmark, hbefore⟩ := lacksValue_iff.mp hlacks
    rw [← Nat.zero_add before.length] at hbefore
    refine ⟨?_, readFrom_eq_overlong hlong hbefore hliteral hafter⟩
    cases before with
    | nil =>
        obtain ⟨c, rest, rfl, hc⟩ := hliteral.exists_cons (Nat.zero_lt_of_lt hlong)
        rintro hhead
        cases hhead
        exact absurd hc (by decide)
    | cons c before => exact hmark

end LSystem.Json
