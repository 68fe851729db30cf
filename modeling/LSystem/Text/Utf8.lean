import LSystem.Text.Decimal
import LSystem.Text.Quoted

/-!
Decoding of UTF-8. Bytes are read one at a time; a character that is begun owes bytes, the next of
which has to lie between two bounds.
-/

namespace LSystem.Text

namespace Utf8

inductive Reason where
  | start
  | continuation
  | endOfData
deriving DecidableEq, Repr

def Reason.text : Reason → String
  | start => "invalid start byte"
  | continuation => "invalid continuation byte"
  | endOfData => "unexpected end of data"

/-- The bytes from `first` to `last` are no character; `byte` is the first of them. -/
structure Fault where
  first : Nat
  last : Nat
  byte : UInt8
  reason : Reason
deriving DecidableEq, Repr

def Fault.message (f : Fault) : String :=
  let bytes :=
    if f.first = f.last then
      "byte 0x" ++ String.ofList (hex 2 f.byte.toNat) ++ " in position " ++ decimal f.first
    else "bytes in position " ++ decimal f.first ++ "-" ++ decimal f.last
  "'utf-8' codec can't decode " ++ bytes ++ ": " ++ f.reason.text

/-- A character that is begun: the number of bytes owed, the bounds of the next one, the bits read so
far, and the place and value of the first byte. -/
structure Pending where
  owed : Nat
  low : Nat
  high : Nat
  code : Nat
  first : Nat
  byte : UInt8

/-- What a byte begins: a whole character, a longer one, or nothing. The bounds keep out characters
that have a shorter form, surrogates, and code points beyond the last one. -/
inductive Lead where
  | whole (c : Char)
  | longer (pending : Pending)
  | invalid

def lead (position : Nat) (byte : UInt8) : Lead :=
  let b := byte.toNat
  if b < 0x80 then .whole (Char.ofNat b)
  else if b < 0xC2 then .invalid
  else if b < 0xE0 then .longer ⟨1, 0x80, 0xBF, b - 0xC0, position, byte⟩
  else if b < 0xF0 then
    .longer ⟨2, if b = 0xE0 then 0xA0 else 0x80, if b = 0xED then 0x9F else 0xBF, b - 0xE0,
      position, byte⟩
  else if b < 0xF5 then
    .longer ⟨3, if b = 0xF0 then 0x90 else 0x80, if b = 0xF4 then 0x8F else 0xBF, b - 0xF0,
      position, byte⟩
  else .invalid

/-- Decodes the bytes from a position on. `read` are the characters so far, the last one first. -/
def decodeFrom :
    (position : Nat) → Option Pending → (read : List Char) → List UInt8 → Except Fault (List Char)
  | _, none, read, [] => .ok read.reverse
  | position, some p, _, [] => .error ⟨p.first, position - 1, p.byte, .endOfData⟩
  | position, none, read, byte :: rest =>
      match lead position byte with
      | .whole c => decodeFrom (position + 1) none (c :: read) rest
      | .longer pending => decodeFrom (position + 1) (some pending) read rest
      | .invalid => .error ⟨position, position, byte, .start⟩
  | position, some p, read, byte :: rest =>
      let b := byte.toNat
      if p.low ≤ b ∧ b ≤ p.high then
        let code := 64 * p.code + (b - 0x80)
        if p.owed ≤ 1 then decodeFrom (position + 1) none (Char.ofNat code :: read) rest
        else
          decodeFrom (position + 1) (some { p with owed := p.owed - 1, low := 0x80, high := 0xBF, code })
            read rest
      else .error ⟨p.first, position - 1, p.byte, .continuation⟩

def decode (bytes : List UInt8) : Except Fault (List Char) :=
  decodeFrom 0 none [] bytes

end Utf8

/-- The number of bytes of a character. -/
def utf8Size (c : Char) : Nat :=
  if c.toNat < 0x80 then 1 else if c.toNat < 0x800 then 2 else if c.toNat < 0x10000 then 3 else 4

end LSystem.Text
