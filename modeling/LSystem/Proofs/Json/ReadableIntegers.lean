import LSystem.Json.Shown
import LSystem.Proofs.Json.LongIntegers
import LSystem.Proofs.Text.Decimal

/-! # Integers of a value that was read

Reading stops at an integer that is too long. So all integers of a value that was read, however deep
they stand in it, can be written again. -/

namespace LSystem.Json

theorem Readable.member? {members : List (String × Json)} (h : Readable (.object members))
    {name : String} {value : Json} (hvalue : Json.member? members name = some value) :
    value.Readable := by
  cases h with
  | object hmembers =>
      obtain ⟨before, after, hsplit, -⟩ := List.lookup_eq_some_iff.mp hvalue
      exact hmembers (name, value) (by simp [hsplit])

/-! ## Lexemes -/

theorem leadingDigits_lt {cs : List Char} : ∀ d ∈ leadingDigits cs, d < 10 := by
  intro d hd
  obtain ⟨c, -, hc⟩ := List.mem_filterMap.mp hd
  exact Text.asciiDigit?_lt hc

theorem wholeDigits_lt {body : List Char} : ∀ d ∈ wholeDigits body, d < 10 := by
  unfold wholeDigits
  split
  · exact List.forall_mem_singleton.mpr (by decide)
  · exact leadingDigits_lt

theorem whole_of_readMagnitude? {negative : Bool} {body : List Char} {number : NumberText} {n : Nat}
    (h : readMagnitude? negative body = some (number, n)) : number.whole = wholeDigits body := by
  unfold readMagnitude? at h
  split at h
  · cases h
  · simp only at h
    split at h <;>
    · cases h
      rfl

theorem whole_lt_of_readNumber? {cs : List Char} {number : NumberText} {n : Nat}
    (h : readNumber? cs = some (number, n)) : ∀ d ∈ number.whole, d < 10 := by
  by_cases hminus : cs.head? = some '-'
  · obtain ⟨body, rfl⟩ : ∃ body, cs = '-' :: body := List.head?_eq_some_iff.mp hminus
    rw [readNumber?_minus] at h
    rw [whole_of_readMagnitude? h]
    exact wholeDigits_lt
  · rw [readNumber?_of_ne hminus] at h
    rw [whole_of_readMagnitude? h]
    exact wholeDigits_lt

theorem readable_of_kind {number : NumberText} (hdigits : ∀ d ∈ number.whole, d < 10) {value : Json}
    (h : number.kind = .scalar value) : value.Readable := by
  unfold NumberText.kind at h
  split at h
  · split at h
    · rename_i hsigned
      cases h
      exact .int (Text.readable_of_signed hdigits hsigned)
    · cases h
  · cases h
    exact .float _

theorem readable_constants : ∀ constant ∈ constants, constant.2.Readable := by
  simp only [constants, List.forall_mem_cons]
  exact ⟨.null, .bool true, .bool false, .float _, .float _, .float _,
    List.forall_mem_nil _⟩

theorem readable_of_lexemeAt {position n : Nat} {c : Char} {rest : List Char} {value : Json}
    (h : lexemeAt position c rest = (.scalar value, n)) : value.Readable := by
  by_cases hpunctuation : c ∈ ['[', ']', '\x7b', '\x7d', ':', ',']
  · simp only [List.mem_cons, List.not_mem_nil, or_false] at hpunctuation
    rcases hpunctuation with rfl | rfl | rfl | rfl | rfl | rfl <;> cases h
  · rw [lexemeAt_of_not_punctuation hpunctuation] at h
    split at h
    · split at h
      · cases h
        exact .string _
      · cases h
    · split at h
      · rename_i hname
        cases h
        exact readable_constants _ (List.mem_of_find?_eq_some hname)
      · split at h
        · rename_i hnumber
          exact readable_of_kind (whole_lt_of_readNumber? hnumber) (congrArg Prod.fst h)
        · cases h

/-! ## Open containers -/

def Frame.Readable : Frame → Prop
  | .array items => ∀ item ∈ items, item.Readable
  | .member members _ => ∀ member ∈ members, member.2.Readable

/-- Whatever was read so far holds no long integer. -/
def Expected.Readable : Expected → Prop
  | .value stack | .itemOrClose stack | .nameOrClose stack => ∀ frame ∈ stack, frame.Readable
  | .name members stack | .colon members _ stack | .afterMember members stack =>
      (∀ member ∈ members, member.2.Readable) ∧ ∀ frame ∈ stack, frame.Readable
  | .afterItem items stack => (∀ item ∈ items, item.Readable) ∧ ∀ frame ∈ stack, frame.Readable
  | .nothing whole => whole.Readable

theorem readable_enter {name : String} {value : Json} (hvalue : value.Readable)
    {members : List (String × Json)} (h : ∀ member ∈ members, member.2.Readable) :
    ∀ member ∈ enter name value members, member.2.Readable := by
  induction members with
  | nil => exact List.forall_mem_singleton.mpr hvalue
  | cons member members ih =>
      obtain ⟨hmember, hmembers⟩ := List.forall_mem_cons.mp h
      unfold enter
      split
      · exact List.forall_mem_cons.mpr ⟨hvalue, hmembers⟩
      · exact List.forall_mem_cons.mpr ⟨hmember, ih hmembers⟩

theorem readable_complete {value : Json} (hvalue : value.Readable) {stack : List Frame}
    (hstack : ∀ frame ∈ stack, frame.Readable) : (complete value stack).Readable := by
  cases stack with
  | nil => exact hvalue
  | cons frame stack =>
      obtain ⟨hframe, hrest⟩ := List.forall_mem_cons.mp hstack
      cases frame with
      | array items => exact ⟨List.forall_mem_cons.mpr ⟨hvalue, hframe⟩, hrest⟩
      | member members name => exact ⟨readable_enter hvalue hframe, hrest⟩

theorem readable_takeName {members : List (String × Json)} {stack : List Frame}
    (hmembers : ∀ member ∈ members, member.2.Readable) (hstack : ∀ frame ∈ stack, frame.Readable)
    (lexeme : Lexeme) {next : Expected} (h : takeName lexeme members stack = .ok next) : next.Readable := by
  unfold takeName at h
  split at h
  · cases h
    exact ⟨hmembers, hstack⟩
  · cases h
  · cases h

section Take

variable {kind : Kind} {next : Expected}
  (hkind : ∀ value, kind = .scalar value → value.Readable)
include hkind

theorem readable_takeValue {stack : List Frame} (hstack : ∀ frame ∈ stack, frame.Readable)
    (position : Nat) (h : takeValue ⟨position, kind⟩ stack = .ok next) : next.Readable := by
  cases kind with
  | scalar value =>
      cases h
      exact readable_complete (hkind value rfl) hstack
  | openArray | openObject =>
      cases h
      exact hstack
  | closeArray | closeObject | colon | comma | broken | overlong | stray | endOfText => cases h

theorem readable_take {expected : Expected} (hexpected : expected.Readable) {position : Nat}
    (h : take expected ⟨position, kind⟩ = .ok next) : next.Readable := by
  cases expected with
  | value stack => exact readable_takeValue hkind hexpected position h
  | itemOrClose stack =>
      have hframe : Frame.Readable (.array []) := List.forall_mem_nil _
      cases kind with
      | closeArray =>
          cases h
          exact readable_complete (.array (List.forall_mem_nil _)) hexpected
      | openArray | openObject | closeObject | colon | comma | scalar | broken | overlong | stray
      | endOfText =>
          exact readable_takeValue hkind (List.forall_mem_cons.mpr ⟨hframe, hexpected⟩) position h
  | nameOrClose stack =>
      cases kind with
      | closeObject =>
          cases h
          exact readable_complete (.object (List.forall_mem_nil _)) hexpected
      | openArray | closeArray | openObject | colon | comma | scalar | broken | overlong | stray
      | endOfText =>
          simp only [take] at h
          exact readable_takeName (List.forall_mem_nil _) hexpected _ h
  | name members stack => exact readable_takeName hexpected.1 hexpected.2 ⟨position, kind⟩ h
  | colon members name stack =>
      cases kind <;> cases h
      exact List.forall_mem_cons.mpr hexpected
  | afterItem items stack =>
      obtain ⟨hitems, hstack⟩ := hexpected
      cases kind <;> cases h
      case comma.refl => exact List.forall_mem_cons.mpr ⟨hitems, hstack⟩
      case closeArray.refl =>
        have hreverse := fun item hitem => hitems item (List.mem_reverse.mp hitem)
        exact readable_complete (.array hreverse) hstack
  | afterMember members stack =>
      obtain ⟨hmembers, hstack⟩ := hexpected
      cases kind <;> cases h
      case comma.refl => exact ⟨hmembers, hstack⟩
      case closeObject.refl => exact readable_complete (.object hmembers) hstack
  | nothing value =>
      cases kind <;> cases h
      exact hexpected

end Take

/-! ## Texts -/

/-- A value is only put together from values that were read before, which wait in the open
containers. -/
theorem readable_readFrom {expected next : Expected} {position : Nat} {cs : List Char}
    (hexpected : expected.Readable) (h : readFrom expected position cs = .ok next) :
    next.Readable := by
  induction expected, position, cs using readFrom_induct with
  | nil =>
      rw [readFrom_nil] at h
      refine readable_take ?_ hexpected h
      exact nofun
  | space expected position c rest hc ih =>
      rw [readFrom_space hc] at h
      exact ih hexpected h
  | refused expected position c rest kind n stop hc hlexeme htake hstop =>
      rw [hstop] at h
      cases h
  | taken expected following position c used tail kind hc hlexeme htake hstep ih =>
      rw [hstep] at h
      refine ih (readable_take ?_ hexpected htake) h
      rintro value rfl
      exact readable_of_lexemeAt hlexeme

theorem readable_of_read {cs : List Char} {value : Json} (h : read cs = .ok value) :
    value.Readable := by
  have hchars : readChars cs = .ok value := by
    unfold read at h
    split at h <;> cases h
    assumption
  unfold readChars at hchars
  split at hchars
  · cases hchars
  · split at hchars <;> cases hchars
    rename_i hfold
    have hstart : Expected.Readable (.value []) := List.forall_mem_nil _
    exact readable_readFrom hstart hfold

end LSystem.Json
