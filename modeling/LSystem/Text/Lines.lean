/-!
Line ends, and places in a text.
-/

namespace LSystem.Text

/-- A carriage return ends a line, and so does a line feed unless it follows a carriage return. -/
def unifyLineEnds (cs : List Char) : List Char :=
  let step := fun (state : Bool × List Char) (c : Char) =>
    if c == '\r' then (true, '\n' :: state.2)
    else if c == '\n' && state.1 then (false, state.2)
    else (false, c :: state.2)
  (cs.foldl step (false, [])).2.reverse

/-- A place in a text. Lines and columns are counted from one, offsets from zero. -/
structure Place where
  line : Nat
  column : Nat
  offset : Nat
deriving DecidableEq, Repr

/-- The place of the character at an offset. -/
def placeOf (cs : List Char) (offset : Nat) : Place :=
  let before := cs.take offset
  let tail := before.reverse.takeWhile (· != '\n')
  ⟨before.count '\n' + 1, tail.length + 1 + (offset - before.length), offset⟩

end LSystem.Text
