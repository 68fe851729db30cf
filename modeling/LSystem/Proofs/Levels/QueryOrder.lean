import LSystem.Proofs.Levels.Growth
import LSystem.Proofs.Text.Decimal
import LSystem.Random.Twister
import Mathlib.Data.List.Forall2
import Mathlib.Data.List.Infix

/-! # Requests in any order

The invariant of a run of requests is that the expander has grown from the fresh one to the highest
level asked for, and by nothing else. Every answer and the whole state follow from it. A value that is
no level is refused, unless it has an integer that is too long to be shown in the message. -/

namespace LSystem

/-! ## The levels asked for -/

/-- The level that a value stands for. -/
def Json.level? : Json → Option Nat
  | .int (.ofNat n) => some n
  | _ => none

theorem Json.level?_eq_some_iff {value : Json} {n : Nat} :
    value.level? = some n ↔ value = .int n := by
  constructor
  · intro h
    unfold Json.level? at h
    split at h
    · rw [← Option.some.inj h]
      rfl
    · cases h
  · rintro rfl
    rfl

theorem Json.level?_eq_none_iff {value : Json} :
    value.level? = none ↔ ∀ n : Nat, value ≠ .int n := by
  simp only [Option.eq_none_iff_forall_ne_some, ne_eq, Json.level?_eq_some_iff]

/-- The levels that a list of values asks for, in order; values that are refused ask for none. -/
def levelsAsked (values : List Json) : List Nat := values.filterMap Json.level?

namespace Expander

variable {σ : Type u} [RandomSource σ]

/-- The answers to requests made one after the other, and the expander after them. -/
def requests (e : Expander σ) : List Json → List (Except LevelFault Word) × Expander σ
  | [] => ([], e)
  | value :: rest =>
      let (answer, e) := e.request value
      let (answers, e) := requests e rest
      (answer :: answers, e)

/-- What a request must be answered, by the words of an expander that is asked for nothing else. -/
inductive Answered (fresh : Expander σ) : Json → Except LevelFault Word → Prop where
  | level (n : Nat) : Answered fresh (.int n) (.ok (fresh.level n).1)
  | negative {n : Int} : n < 0 → Text.Readable n →
      Answered fresh (.int n) (.error (.refused (.negative n)))
  | notInteger {value : Json} : (∀ n, value ≠ .int n) → value.Readable →
      Answered fresh value (.error (.refused (.notInteger value)))
  | unwritable {value : Json} : (∀ n : Nat, value ≠ .int n) → ¬ value.Readable →
      Answered fresh value (.error .unwritable)

/-- A request that fails is refused, unless an integer in its value is too long. -/
theorem Answered.refused_iff {fresh : Expander σ} {value : Json} {answer : Except LevelFault Word}
    (h : Answered fresh value answer) :
    (∀ fault, answer = .error fault → ∃ refusal, fault = .refused refusal) ↔
      (value.level? = none → value.Readable) := by
  cases h with
  | level n => exact iff_of_true nofun nofun
  | negative _ hreadable => exact iff_of_true (by simp) (fun _ => .int hreadable)
  | notInteger _ hreadable => exact iff_of_true (by simp) (fun _ => hreadable)
  | unwritable hlevel hlong =>
      exact iff_of_false (by simp) (fun h => hlong (h (Json.level?_eq_none_iff.mpr hlevel)))

/-! ## One request -/

theorem request_of_level? {value : Json} {n : Nat} (h : value.level? = some n) (e : Expander σ) :
    e.request value = (.ok (e.level n).1, (e.level n).2) := by
  rw [Json.level?_eq_some_iff.mp h]
  rfl

/-- A refusal has a message if its value can be shown. -/
theorem answered_fault {fresh : Expander σ} (refusal : LevelRefusal)
    (hlevel : refusal.value.level? = none)
    (h : refusal.value.Readable → Answered fresh refusal.value (.error (.refused refusal))) :
    Answered fresh refusal.value (.error refusal.fault) := by
  rw [LevelRefusal.fault]
  split
  case isTrue hreadable => exact h hreadable
  case isFalse hlong => exact .unwritable (Json.level?_eq_none_iff.mp hlevel) hlong

/-- A request for a value that is no level fails for what the value is, and the expander is left
alone. -/
theorem request_of_level?_eq_none {value : Json} (h : value.level? = none) (e fresh : Expander σ) :
    ∃ fault, e.request value = (.error fault, e) ∧ Answered fresh value (.error fault) := by
  cases value with
  | int n =>
      cases n with
      | ofNat n => cases h
      | negSucc n =>
          refine ⟨_, rfl, answered_fault (.negative _) h ?_⟩
          rintro (_ | _ | hn)
          exact .negative (Int.negSucc_lt_zero n) hn
  | null | bool | float | string | array | object =>
      exact ⟨_, rfl, answered_fault (.notInteger _) h (.notInteger nofun)⟩

theorem request_of_not_readable {n : Int} (hn : n < 0) (h : ¬ Text.Readable n) (e : Expander σ) :
    e.request (.int n) = (.error .unwritable, e) := by
  have hlevel : (Json.int n).level? = none := by
    rw [Json.level?_eq_none_iff]
    rintro m ⟨⟩
    omega
  obtain ⟨fault, hrequest, hanswer⟩ := request_of_level?_eq_none hlevel e e
  cases hanswer with
  | negative _ hreadable => exact absurd hreadable h
  | notInteger hinteger _ => exact absurd rfl (hinteger n)
  | unwritable => exact hrequest

/-- The level an expander is at after a request, if it was at `k`. -/
def levelAfter (k : Nat) (value : Json) : Nat := value.level?.elim k (max k)

theorem request_growBy {fresh : Expander σ} (hfresh : fresh.cached = 1) (k : Nat) (value : Json) :
    Answered fresh value ((growBy k fresh).request value).1 ∧
      ((growBy k fresh).request value).2 = growBy (levelAfter k value) fresh := by
  cases hlevel : value.level? with
  | some n =>
      rw [request_of_level? hlevel, level_growBy hfresh, levelAfter, hlevel]
      rw [Json.level?_eq_some_iff.mp hlevel]
      exact ⟨.level n, rfl⟩
  | none =>
      obtain ⟨fault, hrequest, hanswer⟩ := request_of_level?_eq_none hlevel (growBy k fresh) fresh
      rw [hrequest, levelAfter, hlevel]
      exact ⟨hanswer, rfl⟩

/-! ## A run of requests -/

theorem foldl_levelAfter (k : Nat) (values : List Json) :
    values.foldl levelAfter k = (levelsAsked values).foldl max k := by
  induction values generalizing k with
  | nil => rfl
  | cons value rest ih =>
      rw [List.foldl_cons, ih, levelAfter]
      cases hlevel : value.level? with
      | none => simp [levelsAsked, hlevel]
      | some n => simp [levelsAsked, hlevel]

theorem requests_growBy {fresh : Expander σ} (hfresh : fresh.cached = 1) (k : Nat)
    (values : List Json) :
    List.Forall₂ (Answered fresh) values (requests (growBy k fresh) values).1 ∧
      (requests (growBy k fresh) values).2 = growBy ((levelsAsked values).foldl max k) fresh := by
  rw [← foldl_levelAfter]
  induction values generalizing k with
  | nil => exact ⟨.nil, rfl⟩
  | cons value rest ih =>
      obtain ⟨hanswer, hstate⟩ := request_growBy hfresh k value
      obtain ⟨hanswers, hend⟩ := ih (levelAfter k value)
      rw [← hstate] at hanswers hend
      exact ⟨.cons hanswer hanswers, hend⟩

theorem refused_iff_of_answered {fresh : Expander σ} {values : List Json}
    {answers : List (Except LevelFault Word)} (h : List.Forall₂ (Answered fresh) values answers) :
    (∀ fault, .error fault ∈ answers → ∃ refusal, fault = .refused refusal) ↔
      ∀ value ∈ values, value.level? = none → value.Readable := by
  induction h with
  | nil => exact iff_of_true nofun nofun
  | @cons value answer values answers hanswer _ ih =>
      rw [List.forall_mem_cons, ← hanswer.refused_iff, ← ih]
      simp only [List.mem_cons, or_imp, forall_and, @eq_comm _ _ answer]

theorem requests_fresh {fresh : Expander σ} (hfresh : fresh.cached = 1) (values : List Json) :
    (fresh.requests values).2 = growBy ((levelsAsked values).max?.getD 0) fresh := by
  have hrun := (requests_growBy hfresh 0 values).2
  rw [growBy_zero] at hrun
  rw [hrun]
  cases levelsAsked values with
  | nil => rfl
  | cons n rest => rw [List.max?_cons', List.foldl_cons, Nat.zero_max, Option.getD_some]

/-- No request takes a level away. -/
theorem levels_prefix_request (e : Expander σ) (value : Json) :
    e.levels <+: (e.request value).2.levels := by
  cases hlevel : value.level? with
  | none =>
      obtain ⟨fault, hrequest, -⟩ := request_of_level?_eq_none hlevel e e
      rw [hrequest]
  | some n =>
      rw [request_of_level? hlevel]
      exact levels_prefix_growBy _ e

theorem levels_prefix_requests (e : Expander σ) (values : List Json) :
    e.levels <+: (e.requests values).2.levels := by
  induction values generalizing e with
  | nil => exact List.prefix_rfl
  | cons value rest ih => exact (levels_prefix_request e value).trans (ih _)

theorem requests_append (e : Expander σ) (before after : List Json) :
    (e.requests (before ++ after)).2 = ((e.requests before).2.requests after).2 := by
  induction before generalizing e with
  | nil => rfl
  | cons value rest ih => exact ih _

/-- What requests do to a fresh expander of a grammar, whatever they ask for and in whatever
order. -/
structure RequestsSpec (g : Grammar) (fresh : Expander σ) (values : List Json) : Prop where
  /-- Every request is answered as if it were the only one. -/
  answers : List.Forall₂ (Answered fresh) values (fresh.requests values).1
  /-- All that fail are refused exactly if the values that are no levels can be shown. -/
  refused_iff : (∀ fault, .error fault ∈ (fresh.requests values).1 →
      ∃ refusal, fault = .refused refusal) ↔
    ∀ value ∈ values, value.level? = none → value.Readable
  /-- The state is that of the fresh expander after one request for the highest level. -/
  state_of_max : ∀ n, (levelsAsked values).max? = some n →
    (fresh.requests values).2 = (fresh.level n).2
  state_of_none : levelsAsked values = [] → (fresh.requests values).2 = fresh
  /-- Levels are only added, from one moment to each later one. -/
  growing : ∀ i j, i ≤ j →
    (fresh.requests (values.take i)).2.levels <+: (fresh.requests (values.take j)).2.levels
  start : ∀ i, (fresh.requests (values.take i)).2.levels.head? = some g.start
  count : ∀ i, (fresh.requests (values.take i)).2.levels.length =
    1 + (levelsAsked (values.take i)).max?.getD 0

theorem requests_spec {g : Grammar} {system : System} (hsystem : System.ofGrammar g = .ok system)
    (source : σ) (values : List Json) : RequestsSpec g (ofSystem system source) values := by
  have hfresh : (ofSystem system source).cached = 1 := rfl
  have hgrammar : system.grammar = g := System.grammar_of_ofGrammar hsystem
  refine ⟨?_, ?_, ?_, ?_, ?_, ?_, ?_⟩
  · exact (requests_growBy hfresh 0 values).1
  · exact refused_iff_of_answered (requests_growBy hfresh 0 values).1
  · intro n hn
    rw [requests_fresh hfresh, hn, level_snd_fresh hfresh]
    rfl
  · intro hnone
    rw [requests_fresh hfresh, hnone]
    rfl
  · intro i j hij
    have hsplit : values.take j = values.take i ++ (values.take j).drop i := by
      have htake : (values.take j).take i = values.take i := by
        rw [List.take_take, Nat.min_eq_left hij]
      rw [← htake, List.take_append_drop]
    rw [hsplit, requests_append]
    exact levels_prefix_requests _ _
  · intro i
    obtain ⟨later, hlater⟩ := levels_prefix_requests (ofSystem system source) (values.take i)
    rw [← hlater, levels_ofSystem, hgrammar]
    rfl
  · intro i
    rw [requests_fresh hfresh, length_levels, cached_growBy_fresh hfresh, Nat.add_comm]

end Expander

/-- A grammar with one ambiguous token. -/
def Grammar.algae : Grammar where
  start := ["A"]
  rules := .ofList [("A", [["A", "B"], ["B"]]), ("B", [["A"]])]
  contextRules := []
  name := "Algae"

def System.algae : System :=
  ⟨.algae, [.ofToken "A" [["A", "B"], ["B"]], .ofToken "B" [["A"]]], false⟩

/-- A negative integer that is too long by one digit. -/
def farBelow : Int := -(10 ^ Text.digitLimit : Nat)

theorem requests_spec_algae :
    System.ofGrammar .algae = .ok .algae ∧
    Expander.RequestsSpec .algae (.ofSystem .algae (Twister.ofSeed 7))
      [.int 2, .bool true, .int (-1), .int 0, .null, .int farBelow, .int 3, .int 2] :=
  ⟨by decide, Expander.requests_spec (by decide) _ _⟩

/-- A negative level that is not refused. The request fails since its message cannot be written. -/
theorem not_refused_farBelow :
    farBelow < 0 ∧
    ((Expander.ofSystem .algae (Twister.ofSeed 7)).requests [.int farBelow]).1 =
      [.error .unwritable] := by
  have hnegative : farBelow < 0 := by
    have hpos : 0 < 10 ^ Text.digitLimit := Nat.pow_pos (by decide)
    rw [farBelow]
    omega
  have hlong : ¬ Text.Readable farBelow := by
    rw [Text.readable_iff, farBelow, Int.natAbs_neg, Int.natAbs_natCast]
    exact Nat.lt_irrefl _
  refine ⟨hnegative, ?_⟩
  rw [Expander.requests, Expander.request_of_not_readable hnegative hlong]
  rfl

end LSystem
