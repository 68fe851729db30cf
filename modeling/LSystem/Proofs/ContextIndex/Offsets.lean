import LSystem.Config.Reader
import LSystem.Proofs.ContextIndex.Keys
import LSystem.Proofs.Levels.Derivations
import LSystem.Proofs.Text.Offsets
import LSystem.Session

/-! # Keys with offsets of no use

A key whose offset points nowhere makes no rule, and the index is as if the key were not there. It
is only an offset with too many digits that keeps an index from being built, and nothing else can go
wrong with an expansion. -/

namespace LSystem

/-! ## Keys by their offsets -/

/-- A key of several tokens begins with an offset of so many digits, more than are read. -/
def HasLongOffset (key : String) (digits : Nat) : Prop :=
  Text.digitLimit < digits ∧ ∃ offset first others center,
    Text.words key = offset :: first :: others ∧ Text.IsOffset offset digits center

/-- A key of several tokens begins with no offset, or with one that is neither a place of the window
nor the place just before it. -/
def HasUselessOffset (key : String) : Prop :=
  ∃ offset first others, Text.words key = offset :: first :: others ∧
    ∀ digits center, Text.IsOffset offset digits center →
      ¬ (-1 ≤ center ∧ center < (first :: others).length)

/-- A key of several tokens begins with an offset that can be read and is a place of the window or the
place just before it. -/
def HasWindow (key : String) (center : Int) (first : Token) (others : List Token) : Prop :=
  ∃ offset, Text.words key = offset :: first :: others ∧
    (∃ digits ≤ Text.digitLimit, Text.IsOffset offset digits center) ∧
    -1 ≤ center ∧ center < (first :: others).length

namespace KeyReading

theorem overlong?_eq_some_iff {reading : KeyReading} {overlong : Text.Overlong} :
    reading.overlong? = some overlong ↔ reading = .overlong overlong := by
  cases reading <;> simp [overlong?]

/-- A key that makes no rule and is not too long to be read is no window either. -/
theorem isWindow_of_rule?_eq_none {reading : KeyReading} {alternatives : Alternatives}
    (h : reading.rule? alternatives = none) : reading.isWindow = false := by
  cases reading with
  | window center first others => cases h
  | blank | token | noOffset | outside | overlong => rfl

end KeyReading

/-- What a key is read as, by its tokens and by how the first of several is written. -/
inductive Reads (key : String) : KeyReading → Prop where
  | blank : Text.words key = [] → Reads key .blank
  | token {token : Token} : Text.words key = [token] → Reads key (.token token)
  | window {offset first : Token} {others : List Token} {digits : Nat} {center : Int} :
      Text.words key = offset :: first :: others → Text.IsOffset offset digits center →
      digits ≤ Text.digitLimit → -1 ≤ center ∧ center < (first :: others).length →
      Reads key (.window center first others)
  | noOffset {offset first : Token} {others : List Token} :
      Text.words key = offset :: first :: others →
      (∀ digits center, ¬ Text.IsOffset offset digits center) → Reads key .noOffset
  | outside {offset first : Token} {others : List Token} {digits : Nat} {center : Int} :
      Text.words key = offset :: first :: others → Text.IsOffset offset digits center →
      digits ≤ Text.digitLimit → ¬ (-1 ≤ center ∧ center < (first :: others).length) →
      Reads key (.outside center)
  | overlong {offset first : Token} {others : List Token} {overlong : Text.Overlong}
      {center : Int} :
      Text.words key = offset :: first :: others →
      Text.IsOffset offset overlong.digits center → Text.digitLimit < overlong.digits →
      Reads key (.overlong overlong)

theorem reads_readKey (key : String) : Reads key (readKey key) := by
  unfold readKey
  split
  · exact .blank ‹_›
  · exact .token ‹_›
  · rename_i offset first others hwords
    split
    · rename_i hoffset
      exact .noOffset hwords (Text.offset?_eq_none_iff.mp hoffset)
    · rename_i hoffset
      obtain ⟨hlong, center, hcenter⟩ := Text.offset?_eq_error_iff.mp hoffset
      exact .overlong hwords hcenter hlong
    · rename_i hoffset
      obtain ⟨digits, hshort, hcenter⟩ := Text.offset?_eq_ok_iff.mp hoffset
      split
      · exact .window hwords hcenter hshort ‹_›
      · exact .outside hwords hcenter hshort ‹_›

theorem readKey_eq_iff {key : String} {reading : KeyReading} :
    readKey key = reading ↔ Reads key reading := by
  constructor
  · rintro rfl
    exact reads_readKey key
  · intro h
    cases h with
    | blank hwords => simp only [readKey, hwords]
    | token hwords => simp only [readKey, hwords]
    | window hwords hoffset hshort hcenter =>
        simp only [readKey, hwords, Text.offset?_eq_ok_iff.mpr ⟨_, hshort, hoffset⟩]
        rw [if_pos hcenter]
    | noOffset hwords hoffset => simp only [readKey, hwords, Text.offset?_eq_none_iff.mpr hoffset]
    | outside hwords hoffset hshort hcenter =>
        simp only [readKey, hwords, Text.offset?_eq_ok_iff.mpr ⟨_, hshort, hoffset⟩]
        rw [if_neg hcenter]
    | overlong hwords hoffset hlong =>
        simp only [readKey, hwords, Text.offset?_eq_error_iff.mpr ⟨hlong, _, hoffset⟩]

theorem readKey_eq_overlong_iff {key : String} {overlong : Text.Overlong} :
    readKey key = .overlong overlong ↔ HasLongOffset key overlong.digits := by
  rw [readKey_eq_iff]
  constructor
  · intro h
    cases h with
    | overlong hwords hoffset hlong => exact ⟨hlong, _, _, _, _, hwords, hoffset⟩
  · rintro ⟨hlong, offset, first, others, center, hwords, hoffset⟩
    exact .overlong hwords hoffset hlong

theorem readKey_eq_window_iff {key : String} {center : Int} {first : Token}
    {others : List Token} :
    readKey key = .window center first others ↔ HasWindow key center first others := by
  rw [readKey_eq_iff]
  constructor
  · intro h
    cases h with
    | window hwords hoffset hshort hcenter => exact ⟨_, hwords, ⟨_, hshort, hoffset⟩, hcenter⟩
  · rintro ⟨offset, hwords, ⟨digits, hshort, hoffset⟩, hcenter⟩
    exact .window hwords hoffset hshort hcenter

theorem overlong?_eq_some_iff {key : String} {digits : Nat} :
    (readKey key).overlong? = some ⟨digits⟩ ↔ HasLongOffset key digits :=
  KeyReading.overlong?_eq_some_iff.trans readKey_eq_overlong_iff

theorem overlong?_eq_none_iff {key : String} :
    (readKey key).overlong? = none ↔ ∀ digits, ¬ HasLongOffset key digits := by
  rw [Option.eq_none_iff_forall_ne_some]
  constructor
  · intro h digits hlong
    exact h _ (overlong?_eq_some_iff.mpr hlong)
  · rintro h ⟨digits⟩ hoverlong
    exact h digits (overlong?_eq_some_iff.mp hoverlong)

/-- A key with an offset of no use makes no rule. -/
theorem HasUselessOffset.rule?_eq_none {key : String} (h : HasUselessOffset key)
    (alternatives : Alternatives) : (readKey key).rule? alternatives = none := by
  obtain ⟨offset, first, others, hwords, huseless⟩ := h
  simp only [readKey, hwords]
  cases hoffset : Text.offset? offset with
  | none => rfl
  | some reading =>
      cases reading with
      | error overlong => rfl
      | ok center =>
          obtain ⟨digits, -, hcenter⟩ := Text.offset?_eq_ok_iff.mp hoffset
          simp only [if_neg (huseless digits center hcenter)]
          rfl

/-! ## Keys left out -/

/-- The table without a key. -/
def Table.without {α : Type u} (t : Table α) (key : String) : Table α :=
  ⟨t.entries.filter (fun entry => entry.1 ≠ key), t.nodup.sublist (List.filter_sublist.map _)⟩

namespace Grammar

def without (g : Grammar) (key : String) : Grammar := { g with rules := g.rules.without key }

theorem productive_without (g : Grammar) (key : String) :
    (g.without key).productive = g.productive.filter (fun entry => entry.1 ≠ key) := by
  simp only [productive, without, Table.without, List.filter_filter, Bool.and_comm]

theorem filterMap_productive_without {g : Grammar} {key : String}
    {f : String × Alternatives → Option α} (h : ∀ alternatives, f (key, alternatives) = none) :
    (g.without key).productive.filterMap f = g.productive.filterMap f := by
  rw [productive_without, List.filterMap_filter]
  apply List.filterMap_congr
  rintro ⟨k, alternatives⟩ _
  by_cases hkey : k = key
  · subst hkey
    simp [h]
  · simp [hkey]

/-- What has no rule and no fault to show for itself can be left out. -/
theorem ofGrammar_without {g : Grammar} {key : String}
    (hrule : ∀ alternatives, (readKey key).rule? alternatives = none)
    (hread : (readKey key).overlong? = none) :
    ContextIndex.ofGrammar (g.without key) = ContextIndex.ofGrammar g := by
  have hwindow : (readKey key).isWindow = false :=
    KeyReading.isWindow_of_rule?_eq_none (hrule [])
  have hoverlong : (g.without key).productive.findSome? (fun entry => (readKey entry.1).overlong?) =
      g.productive.findSome? (fun entry => (readKey entry.1).overlong?) := by
    rw [← List.head?_filterMap, ← List.head?_filterMap,
      filterMap_productive_without (fun _ => hread)]
  have hwindows : (g.without key).productive.any (fun entry => (readKey entry.1).isWindow) =
      g.productive.any (fun entry => (readKey entry.1).isWindow) := by
    rw [productive_without, List.any_filter]
    congr 1
    funext entry
    by_cases hkey : entry.1 = key
    · simp [hkey, hwindow]
    · simp [hkey]
  rw [ContextIndex.ofGrammar_eq, ContextIndex.ofGrammar_eq, hoverlong, hwindows,
    filterMap_productive_without (fun alternatives => hrule alternatives)]
  rfl

/-! ## Grammars that can be expanded -/

theorem findSome?_productiveKeys (g : Grammar) (f : String → Option α) :
    g.productiveKeys.findSome? f = g.productive.findSome? (fun entry => f entry.1) := by
  rw [productiveKeys, List.findSome?_map]
  rfl

theorem exists_ofGrammar_iff (g : Grammar) :
    (∃ index, ContextIndex.ofGrammar g = .ok index) ↔
      ∀ key ∈ g.productiveKeys, ∀ digits, ¬ HasLongOffset key digits := by
  simp only [← overlong?_eq_none_iff, ← List.findSome?_eq_none_iff]
  rw [ContextIndex.ofGrammar_eq, findSome?_productiveKeys]
  cases g.productive.findSome? (fun entry => (readKey entry.1).overlong?) <;> simp

/-- The first long offset among the keys keeps an index from being built. -/
theorem ofGrammar_eq_error_iff {g : Grammar} {digits : Nat} :
    ContextIndex.ofGrammar g = .error ⟨digits⟩ ↔
      ∃ before key after, g.productiveKeys = before ++ key :: after ∧ HasLongOffset key digits ∧
        ∀ other ∈ before, ∀ digits, ¬ HasLongOffset other digits := by
  have hfirst : g.productiveKeys.findSome? (fun key => (readKey key).overlong?) = some ⟨digits⟩ ↔
      ∃ before key after, g.productiveKeys = before ++ key :: after ∧ HasLongOffset key digits ∧
        ∀ other ∈ before, ∀ digits, ¬ HasLongOffset other digits := by
    simp only [List.findSome?_eq_some_iff, overlong?_eq_some_iff, overlong?_eq_none_iff]
  rw [← hfirst, findSome?_productiveKeys, ContextIndex.ofGrammar_eq]
  cases g.productive.findSome? (fun entry => (readKey entry.1).overlong?) <;> simp

/-- An expander is made with this seed, and for each level it gives a word that derives from the
start word in as many steps. -/
def Expands (g : Grammar) (seed : Int) (process : Twister) : Prop :=
  ∃ made, (SeededExpander.create g (some seed) process).1 = .ok made ∧ made.seed = seed ∧
    ∀ n : Nat, ∃ word words, (made.expander.request (.int n)).1 = .ok word ∧
      words.length = n ∧ made.expander.system.Chain g.start words ∧
      (g.start :: words).getLast? = some word

theorem create_eq (g : Grammar) (seed : Int) (process : Twister) :
    (SeededExpander.create g (some seed) process).1 =
      (ContextIndex.ofGrammar g).map
        (fun index => ⟨seed, .ofSystem ⟨g, index⟩ (Twister.ofSeed seed)⟩) := by
  rw [SeededExpander.create, System.ofGrammar]
  cases ContextIndex.ofGrammar g <;> rfl

theorem expands_of_ok {g : Grammar} {index : ContextIndex}
    (h : ContextIndex.ofGrammar g = .ok index) (seed : Int) (process : Twister) :
    g.Expands seed process := by
  let system : System := ⟨g, index⟩
  let fresh : Expander Twister := .ofSystem system (.ofSeed seed)
  refine ⟨⟨seed, fresh⟩, ?_, rfl, ?_⟩
  · rw [create_eq, h]
    rfl
  · intro n
    obtain ⟨words, hlength, hlevels, hchain⟩ := Expander.exists_chain_growBy n fresh
    refine ⟨(fresh.level n).1, words, rfl, hlength, hchain, ?_⟩
    have hword := Expander.getElem?_levels (Expander.growBy n fresh) (n := n) (by
      rw [Expander.cached_growBy_fresh rfl]
      exact Nat.lt_succ_self n)
    rw [hlevels, Expander.levels_ofSystem, List.singleton_append,
      Expander.wordAt_growBy rfl (Nat.le_refl n)] at hword
    rw [List.getLast?_eq_getElem?, List.length_cons, hlength, Nat.add_sub_cancel]
    exact hword

/-- A grammar can be expanded, to any level, unless a key that has alternatives begins with an
offset of too many digits. The first such key is the one that is to blame. Any other key with an
offset of no use may as well be missing. -/
theorem expands_iff (g : Grammar) (seed : Int) (process : Twister) :
    (g.Expands seed process ↔ ∀ key ∈ g.productiveKeys, ∀ digits, ¬ HasLongOffset key digits) ∧
    (∀ digits, (SeededExpander.create g (some seed) process).1 = .error ⟨digits⟩ ↔
      ∃ before key after, g.productiveKeys = before ++ key :: after ∧ HasLongOffset key digits ∧
        ∀ other ∈ before, ∀ digits, ¬ HasLongOffset other digits) ∧
    ∀ key, HasUselessOffset key → (∀ digits, ¬ HasLongOffset key digits) →
      ContextIndex.ofGrammar (g.without key) = ContextIndex.ofGrammar g := by
  refine ⟨?expands, ?blame, ?dropped⟩
  case expands =>
    rw [← exists_ofGrammar_iff]
    constructor
    · rintro ⟨made, hmade, -⟩
      rw [create_eq] at hmade
      cases hindex : ContextIndex.ofGrammar g with
      | ok index => exact ⟨index, rfl⟩
      | error overlong =>
          rw [hindex] at hmade
          cases hmade
    · rintro ⟨index, hindex⟩
      exact expands_of_ok hindex seed process
  case blame =>
    intro digits
    rw [← ofGrammar_eq_error_iff, create_eq]
    cases ContextIndex.ofGrammar g <;> simp [Except.map]
  case dropped =>
    intro key huseless hshort
    exact ofGrammar_without huseless.rule?_eq_none (overlong?_eq_none_iff.mpr hshort)

/-- The digits of a power of ten. -/
def roundDigits (zeros : Nat) : List Char := '1' :: List.replicate zeros '0'

theorem isDigit_roundDigits (zeros : Nat) : ∀ d ∈ roundDigits zeros, d.isDigit = true := by
  intro d hd
  rcases List.mem_cons.mp hd with rfl | hd
  · rfl
  · rw [List.eq_of_mem_replicate hd]
    rfl

theorem isOffset_roundDigits (zeros : Nat) :
    Text.IsOffset (String.ofList (roundDigits zeros)) (zeros + 1) (10 ^ zeros : Nat) := by
  have hoffset := Text.IsOffset.mk .missing (List.cons_ne_nil _ _) (isDigit_roundDigits zeros)
  simpa [roundDigits, Nat.ofDigitChars_cons, Nat.ofDigitChars_replicate_zero] using hoffset

/-- A key whose offset is a power of ten, outside the window of one token. -/
def farKey (zeros : Nat) : String := String.ofList (roundDigits zeros) ++ " a"

theorem words_farKey (zeros : Nat) :
    Text.words (farKey zeros) = [String.ofList (roundDigits zeros), "a"] := by
  have hblank : " a" = String.singleton ' ' ++ "a" := rfl
  have hoffset : Text.IsWord (String.ofList (roundDigits zeros)) :=
    Text.isWord_of_isDigit (List.cons_ne_nil _ _) (isDigit_roundDigits zeros)
  rw [farKey, hblank, ← String.append_assoc, Text.words_append_blank rfl,
    Text.words_of_isWord hoffset]
  rfl

theorem hasUselessOffset_farKey (zeros : Nat) : HasUselessOffset (farKey zeros) := by
  refine ⟨_, _, _, words_farKey zeros, ?_⟩
  intro digits center hoffset
  obtain ⟨-, rfl⟩ := hoffset.unique (isOffset_roundDigits zeros)
  have hpositive : 0 < 10 ^ zeros := Nat.pow_pos (by decide)
  rintro ⟨-, hcenter⟩
  rw [List.length_singleton, Int.ofNat_lt] at hcenter
  exact absurd hcenter (Nat.not_lt.mpr hpositive)

theorem hasLongOffset_farKey {zeros : Nat} (h : Text.digitLimit ≤ zeros) :
    HasLongOffset (farKey zeros) (zeros + 1) :=
  ⟨Nat.lt_succ_of_le h, _, _, _, _, words_farKey zeros, isOffset_roundDigits zeros⟩

/-- A configuration with such a key as its only rule. -/
def farAway (zeros : Nat) : Json :=
  .object [("axiom", .string "a"), ("rules", .object [(farKey zeros, .array [.string "b"])])]

/-- The configuration is accepted and the offset is of no use, but with one digit more than are read
it keeps every expander from being made. -/
theorem not_expands_farAway :
    HasUselessOffset (farKey 4300) ∧ ∃ config, Config.read (farAway 4300) = .ok config ∧
      farKey 4300 ∈ config.grammar.productiveKeys ∧
      ∀ seed process, ¬ config.grammar.Expands seed process ∧
        (SeededExpander.create config.grammar (some seed) process).1 = .error ⟨4301⟩ := by
  let g : Grammar := ⟨["a"], .ofList [(farKey 4300, [["b"]])], [], defaultName⟩
  have hkeys : g.productiveKeys = [farKey 4300] := rfl
  have herror : ContextIndex.ofGrammar g = .error ⟨4301⟩ := by
    apply ofGrammar_eq_error_iff.mpr
    refine ⟨[], farKey 4300, [], hkeys, hasLongOffset_farKey (Nat.le_refl _), ?_⟩
    exact fun other hother => absurd hother List.not_mem_nil
  have hread : Config.read (farAway 4300) = .ok ⟨g, none, 0⟩ := rfl
  refine ⟨hasUselessOffset_farKey 4300, _, hread, ?_, ?_⟩
  · rw [hkeys]
    exact List.mem_singleton_self _
  · intro seed process
    have hcreate : (SeededExpander.create g (some seed) process).1 = .error ⟨4301⟩ := by
      rw [create_eq, herror]
      rfl
    refine ⟨?_, hcreate⟩
    rintro ⟨made, hmade, -⟩
    rw [hcreate] at hmade
    cases hmade

end Grammar

end LSystem
