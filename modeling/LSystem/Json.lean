import LSystem.Binary64
import LSystem.Table

/-!
The values of the JSON data format. Integers are exact; any other number is a binary one. An object
keeps its members in order.
-/

namespace LSystem

inductive Json where
  | null
  | bool (value : Bool)
  | int (value : Int)
  | float (value : Binary64)
  | string (value : String)
  | array (items : List Json)
  | object (members : List (String × Json))

namespace Json

/-- The value of a member. -/
def member? (members : List (String × Json)) (key : String) : Option Json :=
  members.lookup key

end Json

end LSystem
