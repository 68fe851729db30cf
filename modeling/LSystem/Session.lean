import LSystem.Expander
import LSystem.Random.Twister

/-!
Sessions with several expanders. An expander without a seed of its own takes 63 bits from the
generator of the session, which nothing else draws from.
-/

namespace LSystem

/-- An expander and the seed its random source was made from. -/
structure SeededExpander where
  seed : Int
  expander : Expander Twister

/-- Makes an expander. The seed is taken before the grammar is looked at. -/
def SeededExpander.create (g : Grammar) (seed : Option Int) (process : Twister) :
    Except Text.Overlong SeededExpander × Twister :=
  let (seed, process) : Int × Twister :=
    match seed with
    | some seed => (seed, process)
    | none =>
        let (bits, process) := process.bits 63
        (bits, process)
  ((System.ofGrammar g).map (fun system => ⟨seed, .ofSystem system (.ofSeed seed)⟩), process)

/-- The expanders in the order of their creation, and the generator of the session. -/
structure Session where
  process : Twister
  expanders : Array SeededExpander

/-- What a session may be asked for. Expanders are known by the order of their creation. -/
inductive Operation where
  | create (grammar : Grammar) (seed : Option Int)
  | level (expander : Nat) (value : Json)
  /-- Several levels at once. -/
  | levels (expander : Nat) (values : List Json)

/-- What an expander says to a request, and its counts afterwards. -/
structure Reply where
  answer : Except LevelFault Word
  draws : Nat
  cached : Nat

inductive Answer where
  | created (made : SeededExpander)
  | overlong (offset : Text.Overlong)
  | reply (reply : Reply)
  | replies (replies : List Reply)
  /-- There is no such expander. -/
  | absent

namespace Session

def ofProcess (process : Twister) : Session := ⟨process, #[]⟩

/-- Adds an expander. If its index cannot be built the session has no more of them. -/
def create (s : Session) (g : Grammar) (seed : Option Int) : Answer × Session :=
  match SeededExpander.create g seed s.process with
  | (.error offset, process) => (.overlong offset, { s with process })
  | (.ok made, process) => (.created made, ⟨process, s.expanders.push made⟩)

/-- Asks one expander for a level. -/
def request (made : SeededExpander) (value : Json) : Reply × SeededExpander :=
  let (answer, expander) := made.expander.request value
  (⟨answer, expander.draws, expander.cached⟩, { made with expander })

/-- Asks one expander for levels, one after the other. Whoever comes second finds the levels of the
first, so their order is of no account for the words. -/
def requestAll (made : SeededExpander) (values : List Json) : List Reply × SeededExpander :=
  values.foldl
    (fun (state : List Reply × SeededExpander) value =>
      let (reply, made) := request state.2 value
      (state.1 ++ [reply], made))
    ([], made)

/-- Lets one expander work and puts it back. -/
def onExpander (s : Session) (i : Nat) (work : SeededExpander → Answer × SeededExpander) :
    Answer × Session :=
  if h : i < s.expanders.size then
    let (answer, made) := work s.expanders[i]
    (answer, { s with expanders := s.expanders.set i made })
  else (.absent, s)

def step (s : Session) : Operation → Answer × Session
  | .create grammar seed => s.create grammar seed
  | .level i value =>
      s.onExpander i (fun made =>
        let (reply, made) := request made value
        (.reply reply, made))
  | .levels i values =>
      s.onExpander i (fun made =>
        let (replies, made) := requestAll made values
        (.replies replies, made))

/-- All answers of a session, in order, and the session afterwards. -/
def run (s : Session) : List Operation → List Answer × Session
  | [] => ([], s)
  | operation :: rest =>
      let (answer, s) := s.step operation
      let (answers, s) := run s rest
      (answer :: answers, s)

end Session

end LSystem
