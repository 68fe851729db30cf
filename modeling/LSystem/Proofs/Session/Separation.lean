import LSystem.Session
import Mathlib.Data.List.Basic

/-! # Expanders of one session

The expanders of a session share nothing but the generator that their seeds come from, and no
request for a level touches that. So each of them answers as in a session of its own. -/

namespace LSystem

/-! ## Seeds from a generator -/

/-- The seed that a generator gives after `j` others. -/
def Twister.seedAfter : Nat → Twister → Int
  | 0, t => (t.bits 63).1
  | j + 1, t => seedAfter j (t.bits 63).2

/-! ## Operations by their expander -/

namespace Operation

/-- The number of the expander that is asked for levels. -/
def target? : Operation → Option Nat
  | create _ _ => none
  | level i _ | levels i _ => some i

/-- Whether an expander is to be made without a seed of its own. -/
def takesSeed : Operation → Bool
  | create _ none => true
  | create _ (some _) | level _ _ | levels _ _ => false

/-- The same request to the first expander of a session. -/
def toFirst : Operation → Operation
  | create g seed => create g seed
  | level _ value => level 0 value
  | levels _ values => levels 0 values

/-- What a request does to the expander it is for. To create one is no request. -/
def work : Operation → SeededExpander → Answer × SeededExpander
  | create _ _, made => (.absent, made)
  | level _ value, made =>
      (.reply (Session.request made value).1, (Session.request made value).2)
  | levels _ values, made =>
      (.replies (Session.requestAll made values).1, (Session.requestAll made values).2)

theorem target?_toFirst {operation : Operation} {k : Nat} (h : operation.target? = some k) :
    operation.toFirst.target? = some 0 := by
  cases operation with
  | create => cases h
  | level | levels => rfl

theorem work_toFirst (operation : Operation) : operation.toFirst.work = operation.work := by
  cases operation <;> rfl

end Operation

namespace Answer

/-- What is answered when an expander of a grammar is made with a seed. -/
def ofCreation (g : Grammar) (seed : Int) : Answer :=
  match System.ofGrammar g with
  | .error offset => .overlong offset
  | .ok system => .created ⟨seed, .ofSystem system (.ofSeed seed)⟩

def isCreated : Answer → Bool
  | created _ => true
  | overlong _ | reply _ | replies _ | absent => false

/-- An expander keeps the seed it was made with. -/
theorem seed_of_ofCreation {g : Grammar} {seed : Int} {made : SeededExpander}
    (h : ofCreation g seed = .created made) : made.seed = seed := by
  rw [ofCreation] at h
  cases hsystem : System.ofGrammar g with
  | error offset => rw [hsystem] at h; cases h
  | ok system => rw [hsystem] at h; cases h; rfl

end Answer

theorem Operation.isCreated_work (operation : Operation) (made : SeededExpander) :
    (operation.work made).1.isCreated = false := by
  cases operation <;> rfl

namespace Session

/-! ## One step -/

/-- The seed is the one that is given, or else the next one of the generator. -/
theorem step_create (s : Session) (g : Grammar) (seed : Option Int) :
    (s.step (.create g seed)).1 = .ofCreation g (seed.getD (s.process.seedAfter 0)) := by
  cases seed <;>
    simp only [step, create, SeededExpander.create, Answer.ofCreation, Option.getD_some,
      Option.getD_none, Twister.seedAfter] <;>
    cases System.ofGrammar g <;> rfl

/-- Only an expander that has to take its seed changes the generator. -/
theorem process_step (s : Session) (operation : Operation) :
    (s.step operation).2.process =
      if operation.takesSeed then (s.process.bits 63).2 else s.process := by
  cases operation with
  | create g seed =>
      cases seed <;> simp only [step, create, SeededExpander.create] <;>
        cases System.ofGrammar g <;> rfl
  | level i _ | levels i _ =>
      simp only [step, onExpander]
      split <;> rfl

/-- A new expander comes after all others. -/
theorem expanders_step_create (s : Session) (g : Grammar) (seed : Option Int) :
    (s.step (.create g seed)).2.expanders =
      match (s.step (.create g seed)).1 with
      | .created made => s.expanders.push made
      | _ => s.expanders := by
  simp only [step, create]
  split <;> rfl

theorem getElem?_step_create {s : Session} {g : Grammar} {seed : Option Int}
    {made : SeededExpander} (h : (s.step (.create g seed)).1 = .created made) :
    (s.step (.create g seed)).2.expanders[s.expanders.size]? = some made := by
  rw [expanders_step_create, h, Array.getElem?_push_size]

theorem step_of_target? {s : Session} {operation : Operation} {k : Nat}
    (h : operation.target? = some k) : s.step operation = s.onExpander k operation.work := by
  cases operation with
  | create => cases h
  | level | levels =>
      cases h
      rfl

theorem onExpander_eq (s : Session) (k : Nat) (work : SeededExpander → Answer × SeededExpander) :
    s.onExpander k work =
      ((s.expanders[k]?.map (fun made => (work made).1)).getD .absent,
        ⟨s.process, s.expanders.modify k (fun made => (work made).2)⟩) := by
  by_cases hk : k < s.expanders.size
  · have hmodify : s.expanders.modify k (fun made => (work made).2) =
        s.expanders.set k (work s.expanders[k]).2 := by
      apply Array.ext_getElem?
      intro i
      by_cases hi : k = i
      · subst hi
        rw [Array.getElem?_modify, if_pos rfl, Array.getElem?_set_self,
          Array.getElem?_eq_getElem hk]
        rfl
      · rw [Array.getElem?_modify, if_neg hi, Array.getElem?_set_ne hk hi]
    rw [onExpander, dif_pos hk, hmodify, Array.getElem?_eq_getElem hk]
    rfl
  · have hnone : s.expanders[k]? = none := Array.getElem?_eq_none (Nat.not_lt.mp hk)
    have hmodify : s.expanders.modify k (fun made => (work made).2) = s.expanders := by
      apply Array.ext_getElem?
      intro i
      by_cases hi : k = i
      · subst hi
        simp [Array.getElem?_modify, hnone]
      · simp [Array.getElem?_modify, hi]
    rw [onExpander, dif_neg hk, hmodify, hnone]
    rfl

/-- An expander is left alone by all that is not for it. -/
theorem getElem?_step_of_ne {s : Session} {operation : Operation} {k : Nat} {made : SeededExpander}
    (hmade : s.expanders[k]? = some made) (h : operation.target? ≠ some k) :
    (s.step operation).2.expanders[k]? = some made := by
  cases htarget : operation.target? with
  | none =>
      cases operation with
      | level | levels => cases htarget
      | create g seed =>
          have hk : k < s.expanders.size := (Array.getElem?_eq_some_iff.mp hmade).1
          rw [expanders_step_create]
          split
          · rw [Array.getElem?_push_lt hk, ← hmade, Array.getElem?_eq_getElem hk]
          · exact hmade
  | some i =>
      have hne : i ≠ k := fun heq => h (heq ▸ htarget)
      rw [step_of_target? htarget, onExpander_eq, Array.getElem?_modify, if_neg hne, hmade]

/-- What is for an expander is answered by it, and what it has become stays in its place. -/
theorem step_of_getElem? {s : Session} {operation : Operation} {k : Nat} {made : SeededExpander}
    (hmade : s.expanders[k]? = some made) (h : operation.target? = some k) :
    (s.step operation).1 = (operation.work made).1 ∧
      (s.step operation).2.expanders[k]? = some (operation.work made).2 := by
  rw [step_of_target? h, onExpander_eq, Array.getElem?_modify, if_pos rfl, hmade]
  exact ⟨rfl, rfl⟩

/-- There is one expander more for each that is said to have been made. -/
theorem size_step (s : Session) (operation : Operation) :
    (s.step operation).2.expanders.size =
      s.expanders.size + if (s.step operation).1.isCreated then 1 else 0 := by
  cases htarget : operation.target? with
  | none =>
      cases operation with
      | level | levels => cases htarget
      | create g seed =>
          rw [expanders_step_create]
          cases (s.step (.create g seed)).1 <;> simp [Answer.isCreated]
  | some k =>
      rw [step_of_target? htarget, onExpander_eq]
      cases s.expanders[k]? with
      | none => simp [Answer.isCreated]
      | some made => simp [Operation.isCreated_work]

/-! ## Runs -/

theorem run_cons (s : Session) (operation : Operation) (rest : List Operation) :
    s.run (operation :: rest) =
      ((s.step operation).1 :: ((s.step operation).2.run rest).1,
        ((s.step operation).2.run rest).2) := rfl

theorem run_append (s : Session) (before after : List Operation) :
    s.run (before ++ after) =
      ((s.run before).1 ++ ((s.run before).2.run after).1, ((s.run before).2.run after).2) := by
  induction before generalizing s with
  | nil => rfl
  | cons operation rest ih => rw [List.cons_append, run_cons, run_cons, ih, List.cons_append]

@[simp] theorem length_run (s : Session) (operations : List Operation) :
    (s.run operations).1.length = operations.length := by
  induction operations generalizing s with
  | nil => rfl
  | cons operation rest ih => rw [run_cons, List.length_cons, ih, List.length_cons]

/-- The next seed of a session comes after those that were taken in it. -/
theorem seedAfter_run (s : Session) (operations : List Operation) (j : Nat) :
    (s.run operations).2.process.seedAfter j =
      s.process.seedAfter (operations.countP Operation.takesSeed + j) := by
  induction operations generalizing s with
  | nil => rw [run, List.countP_nil, Nat.zero_add]
  | cons operation rest ih =>
      rw [run_cons, ih, process_step, List.countP_cons]
      cases operation.takesSeed with
      | true =>
          rw [if_pos rfl, if_pos rfl, Nat.add_right_comm, Twister.seedAfter]
      | false => rfl

theorem size_run (s : Session) (operations : List Operation) :
    (s.run operations).2.expanders.size =
      s.expanders.size + (s.run operations).1.countP Answer.isCreated := by
  induction operations generalizing s with
  | nil => rfl
  | cons operation rest ih =>
      simp only [run_cons, ih, size_step, List.countP_cons]
      omega

/-! ## One expander of many -/

/-- The requests to one expander. -/
def requestsTo (k : Nat) (operations : List Operation) : List Operation :=
  operations.filter (fun operation => operation.target? = some k)

/-- The answers to the requests to one expander. -/
def answersTo (k : Nat) (operations : List Operation) (answers : List Answer) : List Answer :=
  ((operations.zip answers).filter (fun asked => asked.1.target? = some k)).map (·.2)

/-- An expander answers alike wherever it stands, if the same is asked of it. -/
theorem answersTo_run {s t : Session} {k : Nat} {made : SeededExpander}
    (hs : s.expanders[k]? = some made) (ht : t.expanders[0]? = some made)
    (operations : List Operation) :
    answersTo k operations (s.run operations).1 =
      (t.run ((requestsTo k operations).map Operation.toFirst)).1 := by
  induction operations generalizing s t made with
  | nil => rfl
  | cons operation rest ih =>
      rw [answersTo, run_cons, List.zip_cons_cons, requestsTo]
      by_cases htarget : operation.target? = some k
      · obtain ⟨hanswer, hs⟩ := step_of_getElem? hs htarget
        obtain ⟨hfirst, ht⟩ := step_of_getElem? ht (Operation.target?_toFirst htarget)
        rw [Operation.work_toFirst] at hfirst ht
        rw [List.filter_cons_of_pos (by simpa using htarget),
          List.filter_cons_of_pos (by simpa using htarget), List.map_cons, List.map_cons, run_cons,
          hanswer, hfirst]
        exact congrArg (List.cons _) (ih hs ht)
      · rw [List.filter_cons_of_neg (by simpa using htarget),
          List.filter_cons_of_neg (by simpa using htarget)]
        exact ih (getElem?_step_of_ne hs htarget) ht

/-! ## Requests side by side -/

/-- Requests to different expanders do the same in either order. -/
theorem step_step_comm {s : Session} {a b : Operation} {i j : Nat} (ha : a.target? = some i)
    (hb : b.target? = some j) (hne : i ≠ j) :
    ((s.step a).2.step b).1 = (s.step b).1 ∧ ((s.step b).2.step a).1 = (s.step a).1 ∧
      ((s.step b).2.step a).2 = ((s.step a).2.step b).2 := by
  simp only [step_of_target? ha, step_of_target? hb, onExpander_eq, Array.getElem?_modify,
    if_neg hne, if_neg hne.symm]
  refine ⟨trivial, trivial, ?_⟩
  congr 1
  apply Array.ext_getElem?
  intro k
  simp only [Array.getElem?_modify]
  by_cases hi : i = k
  · subst hi
    simp [hne.symm]
  · simp [hi]

/-! ## Sessions -/

/-- What the expanders of a session have to do with one another. -/
structure Separation (process : Twister) (operations : List Operation) (answers : List Answer) :
    Prop where
  /-- An expander without a seed of its own takes the next one from the generator. Those that were
  to take one before it count, made or not, and none of the levels that were asked for. -/
  taken : ∀ (i : Nat) (g : Grammar), operations[i]? = some (.create g none) →
    answers[i]? =
      some (.ofCreation g (process.seedAfter ((operations.take i).countP Operation.takesSeed)))
  given : ∀ (i : Nat) (g : Grammar) (seed : Int), operations[i]? = some (.create g (some seed)) →
    answers[i]? = some (.ofCreation g seed)
  /-- Each expander answers what it is asked as it does in a session in which it is the only one and
  has its seed from the start. -/
  alone : ∀ (i : Nat) (g : Grammar) (seed : Option Int) (made : SeededExpander),
    operations[i]? = some (.create g seed) → answers[i]? = some (.created made) →
    ∀ process' : Twister,
      let k := (answers.take i).countP Answer.isCreated
      let later := operations.drop (i + 1)
      ((ofProcess process').run
          (.create g (some made.seed) :: (requestsTo k later).map Operation.toFirst)).1 =
        .created made :: answersTo k later (answers.drop (i + 1))
  /-- Neighbouring requests to different expanders may change places, and their answers do so
  too. -/
  swap : ∀ (before after : List Operation) (a b : Operation) (i j : Nat),
    operations = before ++ a :: b :: after → a.target? = some i → b.target? = some j → i ≠ j →
    ∃ first x y last, answers = first ++ x :: y :: last ∧ first.length = before.length ∧
      ((ofProcess process).run (before ++ b :: a :: after)).1 = first ++ y :: x :: last

/-- An operation is carried out in the state that those before it have led to. -/
theorem getElem?_run {operations : List Operation} {i : Nat} {operation : Operation}
    (h : operations[i]? = some operation) (s : Session) :
    (s.run operations).1[i]? = some ((s.run (operations.take i)).2.step operation).1 ∧
      (s.run operations).1.take i = (s.run (operations.take i)).1 ∧
      (s.run operations).1.drop (i + 1) =
        ((((s.run (operations.take i)).2.step operation).2).run (operations.drop (i + 1))).1 := by
  obtain ⟨hi, rfl⟩ := List.getElem?_eq_some_iff.mp h
  have hsplit : operations = operations.take i ++ operations[i] :: operations.drop (i + 1) := by
    rw [← List.drop_eq_getElem_cons hi, List.take_append_drop]
  have hlength : (s.run (operations.take i)).1.length = i := by
    rw [length_run, List.length_take, Nat.min_eq_left (Nat.le_of_lt hi)]
  have hrun : (s.run operations).1 =
      (s.run (operations.take i)).1 ++
        ((s.run (operations.take i)).2.step operations[i]).1 ::
          (((s.run (operations.take i)).2.step operations[i]).2.run
            (operations.drop (i + 1))).1 := by
    conv_lhs => rw [hsplit, run_append, run_cons]
  rw [hrun]
  refine ⟨?_, ?_, ?_⟩
  · rw [List.getElem?_append_right (Nat.le_of_eq hlength), hlength, Nat.sub_self]
    rfl
  · rw [List.take_left' hlength]
  · rw [← List.drop_drop, List.drop_left' hlength]
    rfl

/-- The expanders of a session do not interfere, whatever the order of what is asked of them. -/
theorem run_separation (process : Twister) (operations : List Operation) :
    Separation process operations ((ofProcess process).run operations).1 := by
  refine ⟨?taken, ?given, ?alone, ?swap⟩
  case taken =>
    intro i g hi
    rw [(getElem?_run hi _).1, step_create, Option.getD_none, seedAfter_run]
    rfl
  case given =>
    intro i g seed hi
    rw [(getElem?_run hi _).1, step_create, Option.getD_some]
  case alone =>
    intro i g seed made hi hmade process'
    obtain ⟨hanswer, htake, hdrop⟩ := getElem?_run hi (ofProcess process)
    rw [hanswer, Option.some.injEq] at hmade
    have hplace := getElem?_step_create hmade
    have hempty : (ofProcess process).expanders.size = 0 := rfl
    rw [size_run, ← htake, hempty, Nat.zero_add] at hplace
    have halone : ((ofProcess process').step (.create g (some made.seed))).1 = .created made := by
      rw [step_create] at hmade ⊢
      rw [Option.getD_some, Answer.seed_of_ofCreation hmade, hmade]
    simp only [run_cons, halone, hdrop]
    rw [answersTo_run hplace (getElem?_step_create halone)]
  case swap =>
    rintro before after a b i j rfl ha hb hne
    let t : Session := ((ofProcess process).run before).2
    obtain ⟨hsecond, hfirst, hstate⟩ := step_step_comm (s := t) ha hb hne
    refine ⟨((ofProcess process).run before).1, (t.step a).1, (t.step b).1,
      (((t.step a).2.step b).2.run after).1, ?answers, length_run _ before, ?swapped⟩
    case answers => rw [run_append, run_cons, run_cons, hsecond]
    case swapped => rw [run_append, run_cons, run_cons, hfirst, hstate]

end Session

end LSystem
