/-!
Blank characters and the words of a text. A word is a maximal run of characters that are not blank,
so no word is empty and none holds a blank.
-/

namespace LSystem.Text

/-- Blanks are the separators of Unicode together with the control characters that end a line, move
the carriage or separate records. -/
def isBlank (c : Char) : Bool :=
  let n := c.toNat
  (0x09 ≤ n && n ≤ 0x0D) || (0x1C ≤ n && n ≤ 0x20) || n == 0x85 || n == 0xA0 || n == 0x1680 ||
    (0x2000 ≤ n && n ≤ 0x200A) || n == 0x2028 || n == 0x2029 || n == 0x202F || n == 0x205F ||
    n == 0x3000

/-- The runs between separators, empty ones included: one more than there are separators. -/
def runs (separates : Char → Bool) (cs : List Char) : List (List Char) :=
  cs.foldr (fun c acc => if separates c then [] :: acc else acc.modifyHead (c :: ·)) [[]]

/-- The words of a text, in order. -/
def words (text : String) : List String :=
  ((runs isBlank text.toList).filter (fun run => !run.isEmpty)).map String.ofList

/-- The texts of the single characters of a text. -/
def letters (text : String) : List String :=
  text.toList.map String.singleton

@[simp] theorem runs_nil (separates : Char → Bool) : runs separates [] = [[]] := rfl

theorem runs_cons (separates : Char → Bool) (c : Char) (cs : List Char) :
    runs separates (c :: cs) =
      if separates c then [] :: runs separates cs
      else (runs separates cs).modifyHead (c :: ·) := rfl

end LSystem.Text
