import LSystem.Config.File
import LSystem.Proofs.Json.LongIntegers
import LSystem.Proofs.Text.Utf8

/-! # Loading a file

A file whose contents can be had is read to a value or is malformed, unless its bytes are no text or its
text has an integer that is too long. -/

namespace LSystem.Config

/-- Contents that are no text. -/
def Undecodable (bytes : List UInt8) : Prop := ∀ cs, Text.Utf8.encode cs ≠ bytes

/-- Contents that are a text which has an integer with so many digits, more than are read, where a
value has to come. -/
def HasLongInteger (bytes : List UInt8) (digits : Nat) : Prop :=
  ∃ cs, Text.Utf8.encode cs = bytes ∧ Json.HasLongInteger (Text.unifyLineEnds cs) digits

/-- A text without carriage returns keeps its line ends. -/
theorem unifyLineEnds_of_not_mem {cs : List Char} (h : '\r' ∉ cs) : Text.unifyLineEnds cs = cs := by
  let step := fun (state : Bool × List Char) (c : Char) =>
    if c == '\r' then (true, '\n' :: state.2)
    else if c == '\n' && state.1 then (false, state.2)
    else (false, c :: state.2)
  have hfold : ∀ found, (cs.foldl step (false, found)).2 = cs.reverse ++ found := by
    induction cs with
    | nil => exact fun _ => rfl
    | cons c cs ih =>
        intro found
        rw [List.mem_cons, not_or] at h
        have hstep : step (false, found) c = (false, c :: found) := by simp [step, Ne.symm h.1]
        rw [List.foldl_cons, hstep, ih h.2]
        simp
  change (cs.foldl step (false, [])).2.reverse = cs
  rw [hfold, List.append_nil, List.reverse_reverse]

/-- All of a text can be an integer that is too long. -/
theorem hasLongInteger_encode {literal : List Char} {digits : Nat}
    (hlong : Text.digitLimit < digits) (hliteral : Json.IsInteger literal digits) :
    HasLongInteger (Text.Utf8.encode literal) digits := by
  have hplain : '\r' ∉ literal := by
    obtain ⟨hsign, hdigits, -⟩ := hliteral
    rw [List.mem_append, not_or]
    constructor
    · rcases hsign with rfl | rfl <;> decide
    · exact fun h => absurd (hdigits _ h) (by decide)
  refine ⟨literal, rfl, ?_⟩
  rw [unifyLineEnds_of_not_mem hplain]
  exact ⟨hlong, [], literal, [], by simp, Json.lacksValue_nil, hliteral, nofun⟩

theorem exists_decode_error_iff {bytes : List UInt8} :
    (∃ fault, Text.Utf8.decode bytes = .error fault) ↔ Undecodable bytes := by
  constructor
  · rintro ⟨fault, hfault⟩ cs hcs
    rw [Text.Utf8.decode_eq_ok_iff.mpr hcs] at hfault
    cases hfault
  · intro h
    cases hdecode : Text.Utf8.decode bytes with
    | error fault => exact ⟨fault, rfl⟩
    | ok cs => exact absurd (Text.Utf8.decode_eq_ok_iff.mp hdecode) (h cs)

section

variable {files : FileReader} {path : String} {bytes : List UInt8}
  (hpath : '\x00' ∉ path.toList) (hfile : files path = .ok bytes)
include hpath hfile

theorem loadJson_of_decode_error {fault : Text.Utf8.Fault}
    (h : Text.Utf8.decode bytes = .error fault) :
    loadJson files path = .error (.encoding fault) := by
  rw [loadJson, if_neg (by simpa using hpath), hfile]
  simp only [h]

theorem loadJson_of_decode_ok {cs : List Char} (h : Text.Utf8.decode bytes = .ok cs) :
    loadJson files path =
      match Json.read (Text.unifyLineEnds cs) with
      | .ok value => .ok value
      | .error (.malformed problem place) => .error (.malformed path problem place)
      | .error (.overlong integer) => .error (.overlong integer) := by
  have hplain : path.toList.contains '\x00' = false := by simpa using hpath
  cases hread : Json.read (Text.unifyLineEnds cs) with
  | ok value => simp only [loadJson, hplain, Bool.false_eq_true, if_false, hfile, h, hread]
  | error fault =>
      cases fault <;> simp only [loadJson, hplain, Bool.false_eq_true, if_false, hfile, h, hread]

/-- What can come of a file. -/
theorem loadJson_cases :
    (∃ value, loadJson files path = .ok value) ∨
    (∃ problem place, loadJson files path = .error (.malformed path problem place)) ∨
    (∃ fault, loadJson files path = .error (.encoding fault)) ∨
    ∃ integer, loadJson files path = .error (.overlong integer) := by
  cases hdecode : Text.Utf8.decode bytes with
  | error fault => exact .inr (.inr (.inl ⟨fault, loadJson_of_decode_error hpath hfile hdecode⟩))
  | ok cs =>
      rw [loadJson_of_decode_ok hpath hfile hdecode]
      cases Json.read (Text.unifyLineEnds cs) with
      | ok value => exact .inl ⟨value, rfl⟩
      | error fault =>
          cases fault with
          | malformed problem place => exact .inr (.inl ⟨problem, place, rfl⟩)
          | overlong integer => exact .inr (.inr (.inr ⟨integer, rfl⟩))

theorem loadJson_eq_encoding_iff :
    (∃ fault, loadJson files path = .error (.encoding fault)) ↔ Undecodable bytes := by
  rw [← exists_decode_error_iff]
  cases hdecode : Text.Utf8.decode bytes with
  | error fault => simp [loadJson_of_decode_error hpath hfile hdecode]
  | ok cs =>
      rw [loadJson_of_decode_ok hpath hfile hdecode]
      simp only [reduceCtorEq, exists_false, iff_false, not_exists]
      intro fault
      split <;> simp

theorem loadJson_eq_overlong_iff {digits : Nat} :
    loadJson files path = .error (.overlong ⟨digits⟩) ↔ HasLongInteger bytes digits := by
  cases hdecode : Text.Utf8.decode bytes with
  | error fault =>
      have hnone : Undecodable bytes := exists_decode_error_iff.mp ⟨fault, hdecode⟩
      rw [loadJson_of_decode_error hpath hfile hdecode]
      simp only [Except.error.injEq, reduceCtorEq, false_iff]
      rintro ⟨cs, hcs, -⟩
      exact hnone cs hcs
  | ok cs =>
      have hcs := Text.Utf8.decode_eq_ok_iff.mp hdecode
      have hsame : HasLongInteger bytes digits ↔
          Json.HasLongInteger (Text.unifyLineEnds cs) digits := by
        constructor
        · rintro ⟨other, hother, h⟩
          rw [← Text.Utf8.decode_eq_ok_iff, hdecode, Except.ok.injEq] at hother
          rwa [hother]
        · exact fun h => ⟨cs, hcs, h⟩
      rw [hsame, ← Json.read_eq_overlong_iff, loadJson_of_decode_ok hpath hfile hdecode]
      split <;> simp_all

end

/-- The faults of a configuration are those of its file and those of its value. -/
theorem load_eq_error_iff {files : FileReader} {path : String} {fault : LoadFault}
    (h : ∀ inner, fault ≠ .config inner) :
    load files path = .error fault ↔ loadJson files path = .error fault := by
  rw [load]
  cases loadJson files path with
  | error other => simp
  | ok value =>
      cases hread : read value with
      | ok config => simp [Except.mapError, hread]
      | error inner => simp [Except.mapError, hread, (h inner).symm]

end LSystem.Config
