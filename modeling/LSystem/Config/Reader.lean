import LSystem.Config
import LSystem.Json
import LSystem.Text.Words

/-!
Configurations read from JSON values. A word is a text that is cut at its blanks or an array of
tokens; alternatives are an array of words, or a text that is the only one of them. Fields are read
in the order name, start word, rules, context rules, seed, level, and the first fault is given.
-/

namespace LSystem.Config

abbrev Reading (α : Type) := Except Fault α

def readInt (path : Path) : Json → Reading Int
  | .int n => .ok n
  | _ => .error (.shape path .integer)

def readText (path : Path) : Json → Reading String
  | .string s => .ok s
  | _ => .error (.shape path .string)

def readObject (path : Path) : Json → Reading (List (String × Json))
  | .object members => .ok members
  | _ => .error (.shape path .object)

def readArray (path : Path) : Json → Reading (List Json)
  | .array items => .ok items
  | _ => .error (.shape path .array)

/-- Reads the items of an array, each with its own path. -/
def readItems (read : Path → Json → Reading α) (path : Path) (items : List Json) :
    Reading (List α) :=
  items.zipIdx.mapM (fun item => read (.item path item.2) item.1)

def readWord (path : Path) : Json → Reading Word
  | .string s => .ok (Text.words s)
  | value => do readItems readText path (← readArray path value)

def readAlternatives (path : Path) : Json → Reading Alternatives
  | .string s => .ok [Text.words s]
  | value => do readItems readWord path (← readArray path value)

/-- The value of a field that may be missing. -/
def field (members : List (String × Json)) (name : String) (default : Json) : Json :=
  (Json.member? members name).getD default

/-- The center is a place of the pattern, the first one if it is not given. -/
def readContextRule (path : Path) (value : Json) : Reading ContextRule := do
  let members ← readObject path value
  let pattern ← readWord (.member path "pattern") (field members "pattern" (.string ""))
  if h : pattern = [] then .error (.empty (.member path "pattern"))
  else
    let center ← readInt (.member path "center") (field members "center" (.int 0))
    if 0 ≤ center ∧ center < pattern.length then
      let alternatives ←
        readAlternatives (.member path "alternatives") (field members "alternatives" (.array []))
      return ⟨pattern, center, alternatives, h⟩
    else .error (.outside (.member path "center") (pattern.length - 1))

def readRules (value : Json) : Reading (Table Alternatives) := do
  let members ← readObject (.field "rules") value
  let entries ← members.mapM (fun member => do
    return (member.1, ← readAlternatives (.rule member.1) member.2))
  return .ofList entries

def readSeed : Json → Reading (Option Int)
  | .null => .ok none
  | value => do return some (← readInt (.field "seed") value)

def readLevel (value : Json) : Reading Nat := do
  match ← readInt (.field "level") value with
  | .ofNat n => return n
  | .negSucc _ => .error (.negative (.field "level"))

def read (value : Json) : Reading Config := do
  let members ← readObject (.field "root") value
  let name ← readText (.field "name") (field members "name" (.string Grammar.defaultName))
  let start ← readWord (.field "axiom") (field members "axiom" (.string ""))
  if start.isEmpty then .error (.empty (.field "axiom"))
  let rules ← readRules (field members "rules" (.object []))
  let items ← readArray (.field "context_rules") (field members "context_rules" (.array []))
  let contextRules ← readItems readContextRule (.field "context_rules") items
  let seed ← readSeed (field members "seed" .null)
  let level ← readLevel (field members "level" (.int 0))
  return ⟨⟨start, rules, contextRules, name⟩, seed, level⟩

end LSystem.Config
