import LSystem.Random.Source

/-!
The Mersenne twister of 624 words of 32 bits, seeded from an integer of any size.
-/

namespace LSystem

/-- The words of a twister and the number of them already handed out. -/
structure Twister where
  words : Vector UInt32 624
  used : Nat
deriving DecidableEq

namespace Twister

abbrev Words := Vector UInt32 624

/-- Mixes the word after place `i` from the word at `i`. -/
def spread (words : Words) (i : Nat) (h : i < 623) : Words :=
  let w : UInt32 := words[i]
  words.set (i + 1) ((1812433253 : UInt32) * (w ^^^ (w >>> 30)) + UInt32.ofNat (i + 1))

/-- The words before a key is mixed in. -/
def baseWords : Words :=
  Nat.fold 623 (fun i h words => spread words i h) (Vector.replicate 624 19650218)

/-- Little words of a natural number, the lowest first; zero has one word. -/
def keyWords (n : Nat) : Array UInt32 :=
  let count := (Nat.log2 n) / 32 + 1
  Array.ofFn (fun i : Fin count => UInt32.ofNat (n >>> (32 * i.val)))

/-- The place that follows `i`; after the last place comes the second one, and the first place then
takes the last word. -/
def follow (words : Words) (i : Fin 624) : Words × Fin 624 :=
  if h : i.val + 1 < 624 then (words, ⟨i.val + 1, h⟩)
  else (words.set 0 words[623], ⟨1, by omega⟩)

/-- Mixes the key into the words, then mixes each word with the one before it. -/
def ofKey (key : Array UInt32) : Twister :=
  let absorb := fun (state : Words × Fin 624 × Nat) (_ : Nat) =>
    match state with
    | (words, i, j) =>
        let before := words[i.val - 1]
        let mixed := (words[i] ^^^ ((before ^^^ (before >>> 30)) * 1664525)) +
          key.getD j 0 + UInt32.ofNat j
        match follow (words.set i mixed) i with
        | (words, i) => (words, i, if j + 1 < key.size then j + 1 else 0)
  let scatter := fun (state : Words × Fin 624) (_ : Nat) =>
    match state with
    | (words, i) =>
        let before := words[i.val - 1]
        let mixed := (words[i] ^^^ ((before ^^^ (before >>> 30)) * 1566083941)) -
          UInt32.ofNat i.val
        follow (words.set i mixed) i
  let (words, i, _) := (List.range (max 624 key.size)).foldl absorb (baseWords, 1, 0)
  let (words, _) := (List.range 623).foldl scatter (words, i)
  ⟨words.set 0 0x80000000, 624⟩

/-- The sign of a seed is of no account. -/
def ofSeed (seed : Int) : Twister := ofKey (keyWords seed.natAbs)

/-- The next word at place `i`: high bit of this word, low bits of the next one, and the word 397
places on. -/
def twist (words : Words) (i : Nat) (h : i < 624) : Words :=
  let y := (words[i] &&& 0x80000000) ||| (words[(i + 1) % 624] &&& 0x7fffffff)
  let mask : UInt32 := if y &&& 1 == 0 then 0 else 0x9908b0df
  words.set i (words[(i + 397) % 624] ^^^ (y >>> 1) ^^^ mask)

def renew (words : Words) : Words :=
  Nat.fold 624 (fun i h words => twist words i h) words

/-- Spreads the bits of a word before it is handed out. -/
def temper (y : UInt32) : UInt32 :=
  let y := y ^^^ (y >>> 11)
  let y := y ^^^ ((y <<< 7) &&& 0x9d2c5680)
  let y := y ^^^ ((y <<< 15) &&& 0xefc60000)
  y ^^^ (y >>> 18)

/-- The next word. When all are used up they are renewed first. -/
def next (t : Twister) : UInt32 × Twister :=
  if h : t.used < 624 then (temper t.words[t.used], { t with used := t.used + 1 })
  else
    let words := renew t.words
    (temper words[0], ⟨words, 1⟩)

/-- A number of `k` random bits. Each word gives up to 32 of them, lower ones first; a word that is
not used up gives its high bits. -/
def bits (k : Nat) (t : Twister) : Nat × Twister :=
  if k ≤ 32 then
    match t.next with
    | (w, t) => (w.toNat >>> (32 - k), t)
  else
    match t.next with
    | (w, t) =>
        match bits (k - 32) t with
        | (high, t) => (w.toNat + high <<< 32, t)
termination_by k
decreasing_by omega

/-- The number of binary digits. -/
def bitLength (n : Nat) : Nat := if n = 0 then 0 else Nat.log2 n + 1

/-- Tries numbers of as many bits as the bound has until one is below it. -/
def tryBelow (bound : Nat) : (tries : Nat) → Twister → Nat × Twister
  | 0, t => (0, t)
  | tries + 1, t =>
      match t.bits (bitLength bound) with
      | (n, t) => if n < bound then (n, t) else tryBelow bound tries t

theorem tryBelow_lt {bound : Nat} (positive : 0 < bound) (tries : Nat) (t : Twister) :
    (tryBelow bound tries t).1 < bound := by
  induction tries generalizing t with
  | zero => exact positive
  | succ tries ih =>
      simp only [tryBelow]
      split
      · assumption
      · exact ih _

/-- A number that is refused has its highest bit set, and no more than 19937 words in a row have
theirs set, so these tries are never used up for bounds of 32 bits. -/
def maxTries : Nat := 19938

instance : RandomSource Twister where
  below bound t := tryBelow bound maxTries t
  below_lt t positive := tryBelow_lt positive maxTries t

end Twister

end LSystem
