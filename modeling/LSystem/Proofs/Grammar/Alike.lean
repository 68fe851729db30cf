import LSystem.Grammar
import Mathlib.Data.List.Nodup
import Mathlib.Data.List.Perm.Subperm

/-! # Grammars that are alike

Grammars are alike whatever the order of their tables, but a hash goes by the entries in order. So
alike grammars have the same hash if their keys come in the same order, and only then can they be
sure to have it. -/

namespace LSystem

/-! ## Tables as mappings -/

namespace Table

variable {α : Type u}

/-- The keys in the order of their entries. -/
def keys (t : Table α) : List String := t.entries.map (·.1)

theorem lookup_eq_some_iff_mem {entries : List (String × α)} (h : (entries.map (·.1)).Nodup)
    {key : String} {value : α} : entries.lookup key = some value ↔ (key, value) ∈ entries := by
  induction entries with
  | nil => simp
  | cons entry rest ih =>
      obtain ⟨k, v⟩ := entry
      rw [List.map_cons, List.nodup_cons] at h
      rw [lookup_cons_eq, List.mem_cons]
      by_cases hkey : key = k
      · subst hkey
        have hfresh : (key, value) ∉ rest := fun hmem => h.1 (List.mem_map.mpr ⟨_, hmem, rfl⟩)
        simp [hfresh, eq_comm]
      · simp [hkey, ih h.2]

theorem get?_eq_some_iff {t : Table α} {key : String} {value : α} :
    t.get? key = some value ↔ (key, value) ∈ t.entries :=
  lookup_eq_some_iff_mem t.nodup

theorem nodup_entries (t : Table α) : t.entries.Nodup := t.nodup.of_map

/-- Tables with the same values for all keys hold the same entries. -/
theorem perm_of_get?_eq {s t : Table α} (h : ∀ key, s.get? key = t.get? key) :
    s.entries.Perm t.entries := by
  apply (List.perm_ext_iff_of_nodup s.nodup_entries t.nodup_entries).mpr
  rintro ⟨key, value⟩
  rw [← get?_eq_some_iff, ← get?_eq_some_iff, h]

theorem get?_eq_of_perm {s t : Table α} (h : s.entries.Perm t.entries) (key : String) :
    s.get? key = t.get? key := by
  apply Option.ext
  intro value
  rw [get?_eq_some_iff, get?_eq_some_iff, h.mem_iff]

theorem sameMapping_iff [BEq α] [LawfulBEq α] {s t : Table α} :
    s.sameMapping t = true ↔ ∀ key, s.get? key = t.get? key := by
  rw [sameMapping, Bool.and_eq_true, beq_iff_eq, List.all_eq_true]
  constructor
  · rintro ⟨hsize, hentries⟩
    have hsubset : s.entries ⊆ t.entries := by
      intro entry hentry
      exact get?_eq_some_iff.mp (beq_iff_eq.mp (hentries entry hentry))
    have hperm : s.entries.Perm t.entries :=
      (s.nodup_entries.subperm hsubset).perm_of_length_le (Nat.le_of_eq hsize.symm)
    exact get?_eq_of_perm hperm
  · intro h
    have hperm := perm_of_get?_eq h
    refine ⟨hperm.length_eq, ?_⟩
    intro entry hentry
    rw [beq_iff_eq, get?_eq_some_iff]
    exact hperm.subset hentry

/-- A table is made of its keys and their values. -/
theorem entries_eq_filterMap_keys (t : Table α) :
    t.entries = t.keys.filterMap (fun key => (t.get? key).map (fun value => (key, value))) := by
  rw [keys, List.filterMap_map]
  refine (List.filterMap_some.symm.trans (List.filterMap_congr ?_))
  intro entry hentry
  have hvalue : t.get? entry.1 = some entry.2 := get?_eq_some_iff.mpr hentry
  rw [Function.comp_apply, hvalue, Option.map_some]

theorem eq_iff {s t : Table α} :
    s = t ↔ s.keys = t.keys ∧ ∀ key, s.get? key = t.get? key := by
  constructor
  · rintro rfl
    exact ⟨rfl, fun _ => rfl⟩
  · rintro ⟨hkeys, hvalues⟩
    apply Table.ext
    rw [entries_eq_filterMap_keys s, entries_eq_filterMap_keys t, hkeys]
    simp only [hvalues]

end Table

/-! ## Hashes -/

namespace Grammar

/-- What the hash of a grammar is computed from. The table counts as a list of its entries. -/
structure HashedFields where
  start : Word
  entries : List (String × Alternatives)
  contextRules : List ContextRule
  name : String
deriving DecidableEq

def hashedFields (g : Grammar) : HashedFields :=
  ⟨g.start, g.rules.entries, g.contextRules, g.name⟩

theorem hashedFields_inj {a b : Grammar} : a.hashedFields = b.hashedFields ↔ a = b := by
  obtain ⟨start, rules, contextRules, name⟩ := a
  obtain ⟨start', rules', contextRules', name'⟩ := b
  have hrules : rules.entries = rules'.entries ↔ rules = rules' := ⟨Table.ext, fun h => h ▸ rfl⟩
  simp [hashedFields, hrules]

theorem alike_iff {a b : Grammar} :
    a.alike b = true ↔ a.start = b.start ∧ (∀ key, a.rules.get? key = b.rules.get? key) ∧
      a.contextRules = b.contextRules ∧ a.name = b.name := by
  simp only [alike, Bool.and_eq_true, beq_iff_eq, Table.sameMapping_iff, and_assoc]

/-- Alike grammars differ in the order of their keys or not at all. -/
theorem eq_iff_of_alike {a b : Grammar} (h : a.alike b = true) :
    a = b ↔ a.rules.keys = b.rules.keys := by
  obtain ⟨hstart, hvalues, hcontextRules, hname⟩ := alike_iff.mp h
  constructor
  · rintro rfl
    rfl
  · intro hkeys
    have hrules : a.rules = b.rules := Table.eq_iff.mpr ⟨hkeys, hvalues⟩
    obtain ⟨start, rules, contextRules, name⟩ := a
    simp only at hstart hrules hcontextRules hname
    rw [hstart, hrules, hcontextRules, hname]

theorem alike_self (g : Grammar) : g.alike g = true :=
  alike_iff.mpr ⟨rfl, fun _ => rfl, rfl, rfl⟩

theorem distinctCount_eq (a b : Grammar) : a.distinctCount b = if a = b then 1 else 2 := by
  rw [distinctCount]
  by_cases h : a = b
  · subst h
    simp [alike_self]
  · simp [h]

/-- The number of members of a set of two grammars. The set takes two grammars for one if they have
the same hash and are alike. -/
def setSize {η : Type} [DecidableEq η] (hash : HashedFields → η) (a b : Grammar) : Nat :=
  if hash a.hashedFields = hash b.hashedFields ∧ a.alike b = true then 1 else 2

/-- Alike grammars have the same hash, however it is computed, exactly if their keys come in the
same order. A set of both has one member then. It has two if they are not alike, and for any hash
that keeps different fields apart it also has two if only the order is different. -/
theorem hash_spec (a b : Grammar) :
    (a.alike b = true ↔ a.start = b.start ∧ (∀ key, a.rules.get? key = b.rules.get? key) ∧
      a.contextRules = b.contextRules ∧ a.name = b.name) ∧
    (a.alike b = true →
      ((∀ {η : Type} (hash : HashedFields → η), hash a.hashedFields = hash b.hashedFields) ↔
        a.rules.keys = b.rules.keys)) ∧
    (∀ {η : Type} [DecidableEq η] (hash : HashedFields → η),
      (a.alike b = true → a.rules.keys = b.rules.keys → setSize hash a b = 1) ∧
      (a.alike b = false → setSize hash a b = 2) ∧
      ((hash a.hashedFields = hash b.hashedFields → a.hashedFields = b.hashedFields) →
        setSize hash a b = a.distinctCount b)) ∧
    (a.distinctCount b = 1 ↔ a.alike b = true ∧ a.rules.keys = b.rules.keys) := by
  refine ⟨alike_iff, ?hash, ?size, ?count⟩
  case hash =>
    intro halike
    rw [← eq_iff_of_alike halike]
    constructor
    · intro h
      exact hashedFields_inj.mp (h id)
    · rintro rfl η hash
      rfl
  case size =>
    intro η _ hash
    refine ⟨?_, ?_, ?_⟩
    · intro halike hkeys
      obtain rfl := (eq_iff_of_alike halike).mpr hkeys
      exact if_pos ⟨rfl, halike⟩
    · intro hdifferent
      simp [setSize, hdifferent]
    · intro hfaithful
      rw [distinctCount_eq, setSize]
      apply if_congr _ rfl rfl
      constructor
      · rintro ⟨hhash, -⟩
        exact hashedFields_inj.mp (hfaithful hhash)
      · rintro rfl
        exact ⟨rfl, a.alike_self⟩
  case count =>
    rw [distinctCount_eq]
    constructor
    · intro hcount
      have hsame : a = b := by
        by_contra hne
        simp [hne] at hcount
      subst hsame
      exact ⟨a.alike_self, rfl⟩
    · rintro ⟨halike, hkeys⟩
      rw [if_pos ((eq_iff_of_alike halike).mpr hkeys)]

/-- Two rules, and the same two the other way round. -/
def forward : Grammar where
  start := ["A"]
  rules := .ofList [("A", [["x"]]), ("B", [["y"]])]
  contextRules := []
  name := defaultName

def backward : Grammar :=
  { forward with rules := .ofList [("B", [["y"]]), ("A", [["x"]])] }

/-- Grammars may be alike and yet be two members of a set. -/
theorem alike_forward_backward :
    forward.alike backward = true ∧ forward.hashedFields ≠ backward.hashedFields ∧
      setSize id forward backward = 2 ∧ forward.distinctCount backward = 2 := by
  decide

end Grammar

end LSystem
