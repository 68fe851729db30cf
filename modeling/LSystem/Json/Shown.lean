import LSystem.Binary64.Shortest
import LSystem.Json
import LSystem.Text.Decimal
import LSystem.Text.Quoted

/-!
How a value is shown in a message: texts in quotes, numbers in full, arrays in brackets, objects in
braces. A value with an integer of too many digits cannot be shown.
-/

namespace LSystem

namespace Json

mutual

def shown : Json → String
  | null => "None"
  | bool b => if b then "True" else "False"
  | int n => Text.decimal n
  | float x => x.text
  | string s => Text.quoted s
  | array items => "[" ++ shownItems items ++ "]"
  | object members => "\x7b" ++ shownMembers members ++ "\x7d"

def shownItems : List Json → String
  | [] => ""
  | [item] => shown item
  | item :: rest => shown item ++ ", " ++ shownItems rest

def shownMembers : List (String × Json) → String
  | [] => ""
  | [(key, value)] => Text.quoted key ++ ": " ++ shown value
  | (key, value) :: rest => Text.quoted key ++ ": " ++ shown value ++ ", " ++ shownMembers rest

end

/-- No integer in the value has more digits than are read and written. -/
inductive Readable : Json → Prop where
  | null : Readable .null
  | bool (value : Bool) : Readable (.bool value)
  | int {n : Int} : Text.Readable n → Readable (.int n)
  | float (value : Binary64) : Readable (.float value)
  | string (text : String) : Readable (.string text)
  | array {items : List Json} : (∀ item ∈ items, Readable item) → Readable (.array items)
  | object {members : List (String × Json)} : (∀ member ∈ members, Readable member.2) →
      Readable (.object members)

mutual

/-- Whether no integer in the value is too long. -/
def isReadable : Json → Bool
  | int n => decide (Text.Readable n)
  | array items => areReadable items
  | object members => haveReadable members
  | null | bool _ | float _ | string _ => true

def areReadable : List Json → Bool
  | [] => true
  | item :: rest => isReadable item && areReadable rest

def haveReadable : List (String × Json) → Bool
  | [] => true
  | (_, value) :: rest => isReadable value && haveReadable rest

end

mutual

theorem isReadable_iff : ∀ {value : Json}, value.isReadable = true ↔ value.Readable
  | null => iff_of_true rfl .null
  | bool b => iff_of_true rfl (.bool b)
  | float x => iff_of_true rfl (.float x)
  | string s => iff_of_true rfl (.string s)
  | int n => by
      rw [isReadable, decide_eq_true_iff]
      exact ⟨.int, fun | .int h => h⟩
  | array items => by
      rw [isReadable, areReadable_iff]
      exact ⟨.array, fun | .array h => h⟩
  | object members => by
      rw [isReadable, haveReadable_iff]
      exact ⟨.object, fun | .object h => h⟩

theorem areReadable_iff :
    ∀ {items : List Json}, areReadable items = true ↔ ∀ item ∈ items, item.Readable
  | [] => iff_of_true rfl (List.forall_mem_nil _)
  | item :: rest => by
      rw [areReadable, Bool.and_eq_true, isReadable_iff, areReadable_iff, List.forall_mem_cons]

theorem haveReadable_iff :
    ∀ {members : List (String × Json)},
      haveReadable members = true ↔ ∀ member ∈ members, member.2.Readable
  | [] => iff_of_true rfl (List.forall_mem_nil _)
  | (_, value) :: rest => by
      rw [haveReadable, Bool.and_eq_true, isReadable_iff, haveReadable_iff, List.forall_mem_cons]

end

instance (value : Json) : Decidable value.Readable := decidable_of_iff _ isReadable_iff

end Json

end LSystem
