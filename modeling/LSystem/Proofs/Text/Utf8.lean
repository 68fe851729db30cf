import LSystem.Text.Utf8
import Mathlib.Data.List.Basic

/-! # Texts and their bytes

Decoding takes back the bytes of a text and refuses all others. A character that is begun owes the
bytes that complete it, and these are the other bytes of its code point. -/

namespace LSystem.Text.Utf8

/-- The bytes of a text. -/
def encode (cs : List Char) : List UInt8 := cs.flatMap String.utf8EncodeChar

/-! ## Bytes that are owed -/

namespace Pending

/-- Whether a byte may come next, by its value. -/
def Admits (p : Pending) (b : Nat) : Prop := p.low ≤ b ∧ b ≤ p.high

instance (p : Pending) (b : Nat) : Decidable (p.Admits b) := inferInstanceAs (Decidable (_ ∧ _))

/-- The bits that have been read once a byte has come. -/
def codeWith (p : Pending) (b : Nat) : Nat := 64 * p.code + (b - 0x80)

/-- After the next byte any continuation byte may come. -/
def next (p : Pending) (b : Nat) : Pending :=
  { p with owed := p.owed - 1, low := 0x80, high := 0xBF, code := p.codeWith b }

/-- The values of the bytes that are owed, and the code point that they complete. -/
inductive Completes : Pending → List Nat → Nat → Prop where
  | last {p : Pending} {b : Nat} : p.owed ≤ 1 → p.Admits b → Completes p [b] (p.codeWith b)
  | more {p : Pending} {b : Nat} {rest : List Nat} {n : Nat} :
      1 < p.owed → p.Admits b → Completes (p.next b) rest n → Completes p (b :: rest) n

section

variable {owed low high code first n : Nat} {byte : UInt8} {rest : List Nat}

theorem completes_one_iff :
    Completes ⟨1, low, high, code, first, byte⟩ rest n ↔
      ∃ b, (low ≤ b ∧ b ≤ high) ∧ rest = [b] ∧ n = 64 * code + (b - 0x80) := by
  constructor
  · intro h
    cases h with
    | last _ hadmits => exact ⟨_, hadmits, rfl, rfl⟩
    | more howed => exact absurd howed (Nat.lt_irrefl 1)
  · rintro ⟨b, hadmits, rfl, hn⟩
    rw [hn]
    exact .last (Nat.le_refl 1) hadmits

theorem completes_more_iff :
    Completes ⟨owed + 2, low, high, code, first, byte⟩ rest n ↔
      ∃ b, (low ≤ b ∧ b ≤ high) ∧ ∃ rest', rest = b :: rest' ∧
        Completes ⟨owed + 1, 0x80, 0xBF, 64 * code + (b - 0x80), first, byte⟩ rest' n := by
  constructor
  · intro h
    cases h with
    | last howed => exact absurd howed (Nat.not_le.mpr (by simp))
    | more _ hadmits hrest => exact ⟨_, hadmits, _, rfl, hrest⟩
  · rintro ⟨b, hadmits, rest', rfl, hrest⟩
    exact .more (by simp) hadmits hrest

end

end Pending

theorem decodeFrom_some_cons (position : Nat) (p : Pending) (read : List Char) (byte : UInt8)
    (rest : List UInt8) :
    decodeFrom position (some p) read (byte :: rest) =
      if p.Admits byte.toNat then
        if p.owed ≤ 1 then
          decodeFrom (position + 1) none (Char.ofNat (p.codeWith byte.toNat) :: read) rest
        else decodeFrom (position + 1) (some (p.next byte.toNat)) read rest
      else .error ⟨p.first, position - 1, p.byte, .continuation⟩ := rfl

/-- Decoding goes on from a begun character exactly if the bytes that are owed come next. -/
theorem decodeFrom_some_eq_ok_iff {position : Nat} {p : Pending} {read cs : List Char}
    {bytes : List UInt8} :
    decodeFrom position (some p) read bytes = .ok cs ↔
      ∃ tail n rest, bytes = tail ++ rest ∧ p.Completes (tail.map UInt8.toNat) n ∧
        decodeFrom (position + tail.length) none (Char.ofNat n :: read) rest = .ok cs := by
  induction bytes generalizing position p with
  | nil =>
      constructor
      · intro h
        cases h
      · rintro ⟨tail, n, rest, hbytes, hcompletes, -⟩
        rw [(List.append_eq_nil_iff.mp hbytes.symm).1] at hcompletes
        cases hcompletes
  | cons byte bytes ih =>
      rw [decodeFrom_some_cons]
      constructor
      · intro h
        split at h
        · rename_i hadmits
          split at h
          · rename_i howed
            exact ⟨[byte], _, bytes, rfl, .last howed hadmits, h⟩
          · rename_i howed
            obtain ⟨tail, n, rest, rfl, hcompletes, h⟩ := ih.mp h
            refine ⟨byte :: tail, n, rest, rfl, .more (by omega) hadmits hcompletes, ?_⟩
            rwa [List.length_cons, Nat.add_comm tail.length, ← Nat.add_assoc]
        · cases h
      · rintro ⟨tail, n, rest, hbytes, hcompletes, h⟩
        cases tail with
        | nil => cases hcompletes
        | cons first tail =>
            cases hbytes
            rw [List.map_cons] at hcompletes
            generalize hvalues : tail.map UInt8.toNat = values at hcompletes
            cases hcompletes with
            | last howed hadmits =>
                obtain rfl := List.map_eq_nil_iff.mp hvalues
                rw [if_pos hadmits, if_pos howed]
                exact h
            | more howed hadmits hcompletes =>
                rw [if_pos hadmits, if_neg (Nat.not_le.mpr howed)]
                refine ih.mpr ⟨tail, n, rest, rfl, hvalues ▸ hcompletes, ?_⟩
                rwa [List.length_cons, Nat.add_comm tail.length, ← Nat.add_assoc] at h

/-! ## The bytes of a code point -/

/-- The values of the bytes of a code point. -/
def codeBytes (n : Nat) : List Nat :=
  if n < 0x80 then [n]
  else if n < 0x800 then [n / 64 + 0xC0, n % 64 + 0x80]
  else if n < 0x10000 then [n / 4096 + 0xE0, n / 64 % 64 + 0x80, n % 64 + 0x80]
  else [n / 262144 + 0xF0, n / 4096 % 64 + 0x80, n / 64 % 64 + 0x80, n % 64 + 0x80]

theorem map_toNat_utf8EncodeChar (c : Char) :
    (String.utf8EncodeChar c).map UInt8.toNat = codeBytes c.toNat := by
  have hc : c.toNat < 0xD800 ∨ 0xDFFF < c.toNat ∧ c.toNat < 0x110000 := c.valid
  have hval : c.val.toNat = c.toNat := rfl
  simp only [String.utf8EncodeChar, codeBytes, hval, ← Nat.lt_succ_iff]
  split_ifs
  all_goals
    simp only [List.map_cons, List.map_nil, UInt8.toNat_ofNat', List.cons.injEq, and_true]
    omega

section CodeBytes

variable {n b first : Nat} {byte : UInt8} {rest : List Nat}

theorem codeBytes_eq_one_iff (hb : b < 0x80) : codeBytes n = b :: rest ↔ n = b ∧ rest = [] := by
  unfold codeBytes
  constructor
  · intro h
    split_ifs at h <;> cases h <;> first | omega | exact ⟨rfl, rfl⟩
  · rintro ⟨rfl, rfl⟩
    rw [if_pos hb]

theorem codeBytes_ne (hb : 0x80 ≤ b ∧ b < 0xC2 ∨ 0xF5 ≤ b) :
    ¬ (n.isValidChar ∧ codeBytes n = b :: rest) := by
  rintro ⟨hvalid, h⟩
  have hn : n < 0xD800 ∨ 0xDFFF < n ∧ n < 0x110000 := hvalid
  unfold codeBytes at h
  split_ifs at h <;> cases h <;> omega

theorem codeBytes_eq_two_iff (hb : 0xC2 ≤ b ∧ b < 0xE0) :
    n.isValidChar ∧ codeBytes n = b :: rest ↔
      Pending.Completes ⟨1, 0x80, 0xBF, b - 0xC0, first, byte⟩ rest n := by
  rw [Pending.completes_one_iff, codeBytes]
  constructor
  · rintro ⟨-, h⟩
    split_ifs at h <;> cases h
    · omega
    · exact ⟨_, by omega, rfl, by omega⟩
    · omega
    · omega
  · rintro ⟨x, hx, rfl, hn⟩
    refine ⟨.inl (by omega), ?_⟩
    rw [if_neg (by omega), if_pos (by omega)]
    simp only [List.cons.injEq, and_true]
    omega

theorem codeBytes_eq_three_iff (hb : 0xE0 ≤ b ∧ b < 0xF0) :
    n.isValidChar ∧ codeBytes n = b :: rest ↔
      Pending.Completes ⟨2, if b = 0xE0 then 0xA0 else 0x80, if b = 0xED then 0x9F else 0xBF,
        b - 0xE0, first, byte⟩ rest n := by
  simp only [Pending.completes_more_iff, Pending.completes_one_iff, Nat.reduceAdd, codeBytes]
  constructor
  · rintro ⟨hvalid, h⟩
    have hn : n < 0xD800 ∨ 0xDFFF < n ∧ n < 0x110000 := hvalid
    split_ifs at h <;> cases h
    · omega
    · omega
    · exact ⟨_, by split <;> split <;> omega, _, rfl, _, by omega, rfl, by omega⟩
    · omega
  · rintro ⟨x, hx, _, rfl, y, hy, rfl, hn⟩
    have hx' : 0x80 ≤ x ∧ x ≤ 0xBF ∧ (b = 0xE0 → 0xA0 ≤ x) ∧ (b = 0xED → x ≤ 0x9F) := by
      revert hx
      split <;> split <;> omega
    refine ⟨show n < 0xD800 ∨ 0xDFFF < n ∧ n < 0x110000 by omega, ?_⟩
    rw [if_neg (by omega), if_neg (by omega), if_pos (by omega)]
    simp only [List.cons.injEq, and_true]
    omega

theorem codeBytes_eq_four_iff (hb : 0xF0 ≤ b ∧ b < 0xF5) :
    n.isValidChar ∧ codeBytes n = b :: rest ↔
      Pending.Completes ⟨3, if b = 0xF0 then 0x90 else 0x80, if b = 0xF4 then 0x8F else 0xBF,
        b - 0xF0, first, byte⟩ rest n := by
  simp only [Pending.completes_more_iff, Pending.completes_one_iff, Nat.reduceAdd, codeBytes]
  constructor
  · rintro ⟨hvalid, h⟩
    have hn : n < 0xD800 ∨ 0xDFFF < n ∧ n < 0x110000 := hvalid
    split_ifs at h <;> cases h
    · omega
    · omega
    · omega
    · exact ⟨_, by split <;> split <;> omega, _, rfl, _, by omega, _, rfl, _, by omega, rfl,
        by omega⟩
  · rintro ⟨x, hx, _, rfl, y, hy, _, rfl, z, hz, rfl, hn⟩
    have hx' : 0x80 ≤ x ∧ x ≤ 0xBF ∧ (b = 0xF0 → 0x90 ≤ x) ∧ (b = 0xF4 → x ≤ 0x8F) := by
      revert hx
      split <;> split <;> omega
    refine ⟨show n < 0xD800 ∨ 0xDFFF < n ∧ n < 0x110000 by omega, ?_⟩
    rw [if_neg (by omega), if_neg (by omega), if_neg (by omega)]
    simp only [List.cons.injEq, and_true]
    omega

end CodeBytes

/-! ## The first byte -/

theorem toNat_ofNat {n : Nat} (h : n.isValidChar) : (Char.ofNat n).toNat = n := by
  rw [Char.ofNat, dif_pos h]
  rfl

/-- What the first byte of a code point says of the others. -/
theorem codeBytes_eq_cons_iff (position : Nat) {n : Nat} {byte : UInt8} {rest : List Nat} :
    n.isValidChar ∧ codeBytes n = byte.toNat :: rest ↔
      n.isValidChar ∧ lead position byte = .whole (Char.ofNat n) ∧ rest = [] ∨
        ∃ p, lead position byte = .longer p ∧ p.Completes rest n := by
  by_cases hone : byte.toNat < 0x80
  · have hlead : lead position byte = .whole (Char.ofNat byte.toNat) := if_pos hone
    have hvalid : byte.toNat.isValidChar := .inl (by omega)
    have hsame : n.isValidChar → (Char.ofNat byte.toNat = Char.ofNat n ↔ n = byte.toNat) := by
      intro hn
      rw [← Char.toNat_inj, toNat_ofNat hvalid, toNat_ofNat hn, eq_comm]
    simp +contextual [codeBytes_eq_one_iff hone, hlead, hsame]
  by_cases htwo : 0xC2 ≤ byte.toNat ∧ byte.toNat < 0xE0
  · have hlead : lead position byte =
        .longer ⟨1, 0x80, 0xBF, byte.toNat - 0xC0, position, byte⟩ := by
      simp only [lead]
      rw [if_neg hone, if_neg (by omega), if_pos htwo.2]
    simpa [hlead] using codeBytes_eq_two_iff htwo
  by_cases hthree : 0xE0 ≤ byte.toNat ∧ byte.toNat < 0xF0
  · have hlead : lead position byte =
        .longer ⟨2, if byte.toNat = 0xE0 then 0xA0 else 0x80,
          if byte.toNat = 0xED then 0x9F else 0xBF, byte.toNat - 0xE0, position, byte⟩ := by
      simp only [lead]
      rw [if_neg hone, if_neg (by omega), if_neg (by omega), if_pos hthree.2]
    simpa [hlead] using codeBytes_eq_three_iff hthree
  by_cases hfour : 0xF0 ≤ byte.toNat ∧ byte.toNat < 0xF5
  · have hlead : lead position byte =
        .longer ⟨3, if byte.toNat = 0xF0 then 0x90 else 0x80,
          if byte.toNat = 0xF4 then 0x8F else 0xBF, byte.toNat - 0xF0, position, byte⟩ := by
      simp only [lead]
      rw [if_neg hone, if_neg (by omega), if_neg (by omega), if_neg (by omega), if_pos hfour.2]
    simpa [hlead] using codeBytes_eq_four_iff hfour
  · have hlead : lead position byte = .invalid := by
      simp only [lead]
      by_cases hlow : byte.toNat < 0xC2
      · rw [if_neg hone, if_pos hlow]
      · rw [if_neg hone, if_neg hlow, if_neg (by omega), if_neg (by omega), if_neg (by omega)]
    have hnone : ¬ (n.isValidChar ∧ codeBytes n = byte.toNat :: rest) := codeBytes_ne (by omega)
    simpa [hlead] using hnone

/-- A character has one byte, or begins with one that owes the others. -/
theorem utf8EncodeChar_eq_cons_iff (position : Nat) {c : Char} {byte : UInt8} {tail : List UInt8} :
    String.utf8EncodeChar c = byte :: tail ↔
      lead position byte = .whole c ∧ tail = [] ∨
        ∃ p, lead position byte = .longer p ∧ p.Completes (tail.map UInt8.toNat) c.toNat := by
  have hvalid : c.toNat.isValidChar := c.valid
  have hiff : c.toNat.isValidChar ∧ codeBytes c.toNat = byte.toNat :: tail.map UInt8.toNat ↔ _ :=
    codeBytes_eq_cons_iff position
  have hinjective : Function.Injective (List.map UInt8.toNat) :=
    List.map_injective_iff.mpr (fun _ _ => UInt8.toNat_inj.mp)
  rw [← hinjective.eq_iff, map_toNat_utf8EncodeChar, List.map_cons]
  simpa [hvalid] using hiff

/-- A begun character is completed by the other bytes of a character, and by no others. -/
theorem completes_iff_of_lead {position n : Nat} {byte : UInt8} {p : Pending} {tail : List UInt8}
    (h : lead position byte = .longer p) :
    p.Completes (tail.map UInt8.toNat) n ↔
      ∃ c : Char, c.toNat = n ∧ String.utf8EncodeChar c = byte :: tail := by
  have hlonger : ∀ c : Char, String.utf8EncodeChar c = byte :: tail ↔
      p.Completes (tail.map UInt8.toNat) c.toNat := by
    intro c
    rw [utf8EncodeChar_eq_cons_iff position]
    simp [h]
  constructor
  · intro hcompletes
    have hvalid : n.isValidChar :=
      ((codeBytes_eq_cons_iff position).mpr (.inr ⟨p, h, hcompletes⟩)).1
    refine ⟨Char.ofNat n, toNat_ofNat hvalid, (hlonger _).mpr ?_⟩
    rwa [toNat_ofNat hvalid]
  · rintro ⟨c, rfl, hc⟩
    exact (hlonger c).mp hc

/-! ## Whole texts -/

/-- Decoding takes the bytes of one character after the other. -/
theorem decodeFrom_cons_eq_ok_iff {position : Nat} {read cs : List Char} {byte : UInt8}
    {bytes : List UInt8} :
    decodeFrom position none read (byte :: bytes) = .ok cs ↔
      ∃ c tail rest, bytes = tail ++ rest ∧ String.utf8EncodeChar c = byte :: tail ∧
        decodeFrom (position + 1 + tail.length) none (c :: read) rest = .ok cs := by
  rw [decodeFrom]
  cases hlead : lead position byte with
  | whole c =>
      simp only [utf8EncodeChar_eq_cons_iff position, hlead, Lead.whole.injEq, reduceCtorEq,
        false_and, exists_false, or_false]
      constructor
      · intro h
        exact ⟨c, [], bytes, rfl, ⟨rfl, rfl⟩, h⟩
      · rintro ⟨_, _, rest, rfl, ⟨rfl, rfl⟩, h⟩
        exact h
  | longer p =>
      simp only [decodeFrom_some_eq_ok_iff, completes_iff_of_lead hlead]
      constructor
      · rintro ⟨tail, _, rest, rfl, ⟨c, rfl, hc⟩, h⟩
        rw [Char.ofNat_toNat] at h
        exact ⟨c, tail, rest, rfl, hc, h⟩
      · rintro ⟨c, tail, rest, rfl, hc, h⟩
        refine ⟨tail, _, rest, rfl, ⟨c, rfl, hc⟩, ?_⟩
        rwa [Char.ofNat_toNat]
  | invalid =>
      simp [utf8EncodeChar_eq_cons_iff position, hlead]

theorem encode_cons (c : Char) (cs : List Char) :
    encode (c :: cs) = String.utf8EncodeChar c ++ encode cs := rfl

theorem encode_eq_nil_iff {cs : List Char} : encode cs = [] ↔ cs = [] := by
  cases cs with
  | nil => simp [encode]
  | cons c cs => simp [encode_cons, String.utf8EncodeChar_ne_nil]

theorem decodeFrom_none_eq_ok_iff {position : Nat} {read cs : List Char} {bytes : List UInt8} :
    decodeFrom position none read bytes = .ok cs ↔
      ∃ text, encode text = bytes ∧ cs = read.reverse ++ text := by
  induction hlength : bytes.length using Nat.strongRecOn generalizing position read bytes with
  | ind n ih =>
      cases bytes with
      | nil =>
          simp only [decodeFrom, Except.ok.injEq, encode_eq_nil_iff, exists_eq_left,
            List.append_nil]
          exact eq_comm
      | cons byte bytes =>
          have hshorter : ∀ tail rest, bytes = tail ++ rest → rest.length < n := by
            rintro tail rest rfl
            simp only [List.length_cons, List.length_append] at hlength
            omega
          rw [decodeFrom_cons_eq_ok_iff]
          constructor
          · rintro ⟨c, tail, rest, hbytes, hc, h⟩
            obtain ⟨text, rfl, rfl⟩ := (ih _ (hshorter tail rest hbytes) rfl).mp h
            exact ⟨c :: text, by simp [encode_cons, hc, hbytes], by simp⟩
          · rintro ⟨text, htext, rfl⟩
            obtain ⟨c, text, rfl⟩ := List.exists_cons_of_ne_nil
              (fun hnil => List.cons_ne_nil _ _ (htext.symm.trans (encode_eq_nil_iff.mpr hnil)))
            obtain ⟨first, tail, hc⟩ := List.exists_cons_of_ne_nil (String.utf8EncodeChar_ne_nil (c := c))
            rw [encode_cons, hc] at htext
            cases htext
            refine ⟨c, tail, encode text, rfl, hc, (ih _ (hshorter tail _ rfl) rfl).mpr ?_⟩
            exact ⟨text, rfl, by simp⟩

/-- Decoding undoes encoding, and no other bytes are decoded. -/
theorem decode_eq_ok_iff {bytes : List UInt8} {cs : List Char} :
    decode bytes = .ok cs ↔ encode cs = bytes := by
  rw [decode, decodeFrom_none_eq_ok_iff]
  simp

end LSystem.Text.Utf8
