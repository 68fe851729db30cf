import LSystem.Json.Lexeme
import LSystem.Text.Lines

/-!
From lexemes to a JSON value. The containers that are open are kept on a stack, the innermost one on
top. Of members with one name the first gives the place and the last the value.
-/

namespace LSystem.Json

/-- An open container: the items so far, the last one first, or the members so far and the name of
the next one. -/
inductive Frame where
  | array (items : List Json)
  | member (members : List (String × Json)) (name : String)

/-- What may come next. -/
inductive Expected where
  | value (stack : List Frame)
  | itemOrClose (stack : List Frame)
  | nameOrClose (stack : List Frame)
  | name (members : List (String × Json)) (stack : List Frame)
  | colon (members : List (String × Json)) (name : String) (stack : List Frame)
  | afterItem (items : List Json) (stack : List Frame)
  | afterMember (members : List (String × Json)) (stack : List Frame)
  | nothing (value : Json)

/-- Why a text has no value: it is not JSON, or an integer in it is too long. -/
inductive Stop where
  | malformed (problem : Problem) (position : Nat)
  | overlong (integer : Text.Overlong)

/-- A value is complete and goes into the container around it. -/
def complete (value : Json) : List Frame → Expected
  | [] => .nothing value
  | .array items :: stack => .afterItem (value :: items) stack
  | .member members name :: stack => .afterMember (enter name value members) stack

def takeValue (lexeme : Lexeme) (stack : List Frame) : Except Stop Expected :=
  match lexeme.kind with
  | .scalar value => .ok (complete value stack)
  | .openArray => .ok (.itemOrClose stack)
  | .openObject => .ok (.nameOrClose stack)
  | .broken problem position => .error (.malformed problem position)
  | .overlong integer => .error (.overlong integer)
  | _ => .error (.malformed .value lexeme.position)

def takeName (lexeme : Lexeme) (members : List (String × Json)) (stack : List Frame) :
    Except Stop Expected :=
  match lexeme.kind with
  | .scalar (.string name) => .ok (.colon members name stack)
  | .broken problem position => .error (.malformed problem position)
  | _ => .error (.malformed .name lexeme.position)

def take (expected : Expected) (lexeme : Lexeme) : Except Stop Expected :=
  match expected, lexeme.kind with
  | .value stack, _ => takeValue lexeme stack
  | .itemOrClose stack, .closeArray => .ok (complete (.array []) stack)
  | .itemOrClose stack, _ => takeValue lexeme (.array [] :: stack)
  | .nameOrClose stack, .closeObject => .ok (complete (.object []) stack)
  | .nameOrClose stack, _ => takeName lexeme [] stack
  | .name members stack, _ => takeName lexeme members stack
  | .colon members name stack, .colon => .ok (.value (.member members name :: stack))
  | .colon _ _ _, _ => .error (.malformed .colon lexeme.position)
  | .afterItem items stack, .comma => .ok (.value (.array items :: stack))
  | .afterItem items stack, .closeArray => .ok (complete (.array items.reverse) stack)
  | .afterItem _ _, _ => .error (.malformed .comma lexeme.position)
  | .afterMember members stack, .comma => .ok (.name members stack)
  | .afterMember members stack, .closeObject => .ok (complete (.object members) stack)
  | .afterMember _ _, _ => .error (.malformed .comma lexeme.position)
  | .nothing value, .endOfText => .ok (.nothing value)
  | .nothing _, _ => .error (.malformed .extra lexeme.position)

def byteOrderMark : Char := '\uFEFF'

/-- The value of a text. A text never starts with a byte order mark. -/
def readChars (cs : List Char) : Except Stop Json :=
  if cs.head? = some byteOrderMark then .error (.malformed .byteOrderMark 0)
  else
    match (lexemes cs).foldlM take (.value []) with
    | .error stop => .error stop
    | .ok (.nothing value) => .ok value
    | .ok _ => .error (.malformed .value cs.length)

/-- A fault of a text, with its place. -/
inductive Fault where
  | malformed (problem : Problem) (place : Text.Place)
  | overlong (integer : Text.Overlong)
deriving DecidableEq, Repr

def Fault.message : Fault → String
  | malformed problem place =>
      problem.text ++ ": line " ++ Text.decimal place.line ++ " column " ++
        Text.decimal place.column ++ " (char " ++ Text.decimal place.offset ++ ")"
  | overlong integer => integer.message

def read (cs : List Char) : Except Fault Json :=
  match readChars cs with
  | .ok value => .ok value
  | .error (.malformed problem position) => .error (.malformed problem (Text.placeOf cs position))
  | .error (.overlong integer) => .error (.overlong integer)

end LSystem.Json
