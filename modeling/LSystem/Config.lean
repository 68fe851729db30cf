import LSystem.Grammar
import LSystem.Text.Decimal

/-!
Configurations: a grammar with its default seed and level, and what can be wrong with one.
-/

namespace LSystem

/-- The default seed may be missing; expansion then takes a seed of its own. -/
structure Config where
  grammar : Grammar
  seed : Option Int
  level : Nat
deriving DecidableEq

namespace Config

/-- Where in a configuration a value stands. -/
inductive Path where
  | field (name : String)
  | rule (key : String)
  | item (parent : Path) (index : Nat)
  | member (parent : Path) (name : String)
deriving DecidableEq, Repr

def Path.text : Path → String
  | field name => name
  | rule key => "rules['" ++ key ++ "']"
  | item parent index => parent.text ++ "[" ++ Text.decimal index ++ "]"
  | member parent name => parent.text ++ "." ++ name

inductive Shape where
  | integer
  | string
  | object
  | array
deriving DecidableEq, Repr

def Shape.text : Shape → String
  | integer => "an integer"
  | string => "a string"
  | object => "an object"
  | array => "an array"

inductive Fault where
  | shape (path : Path) (expected : Shape)
  | empty (path : Path)
  /-- The center is none of the places of the pattern, which run from zero to `last`. -/
  | outside (path : Path) (last : Nat)
  | negative (path : Path)
deriving DecidableEq, Repr

def Fault.message : Fault → String
  | shape path expected => path.text ++ " must be " ++ expected.text
  | empty path => path.text ++ " must be non-empty"
  | outside path last =>
      path.text ++ " must index into the pattern (0.." ++ Text.decimal last ++ ")"
  | negative path => path.text ++ " must be >= 0"

end Config

end LSystem
