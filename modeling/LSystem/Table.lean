/-!
Tables from texts to values. Each key has the place of its first entry and the value of its last one.
-/

namespace LSystem

/-- Enters a value, in place if the key is there already, else at the end. -/
def enter {α : Type u} (key : String) (value : α) : List (String × α) → List (String × α)
  | [] => [(key, value)]
  | (k, v) :: rest => if k = key then (k, value) :: rest else (k, v) :: enter key value rest

theorem mem_keys_enter {α : Type u} {key : String} {value : α} {entries : List (String × α)}
    {k : String} :
    k ∈ (enter key value entries).map (·.1) ↔ k = key ∨ k ∈ entries.map (·.1) := by
  induction entries with
  | nil => simp [enter]
  | cons entry rest ih =>
      unfold enter
      split
      · rename_i h
        subst h
        simp
      · simp only [List.map_cons, List.mem_cons, ih]
        exact or_left_comm

theorem nodup_keys_enter {α : Type u} {key : String} {value : α} {entries : List (String × α)}
    (h : (entries.map (·.1)).Nodup) : ((enter key value entries).map (·.1)).Nodup := by
  induction entries with
  | nil => simp [enter]
  | cons entry rest ih =>
      unfold enter
      rw [List.map_cons, List.nodup_cons] at h
      split
      · simpa using h
      · rename_i hk
        rw [List.map_cons, List.nodup_cons]
        refine ⟨fun hm => ?_, ih h.2⟩
        rcases mem_keys_enter.1 hm with hm | hm
        · exact hk hm
        · exact h.1 hm

theorem lookup_cons_eq {α : Type u} (k : String) (entry : String × α)
    (entries : List (String × α)) :
    (entry :: entries).lookup k = if k = entry.1 then some entry.2 else entries.lookup k := by
  obtain ⟨a, value⟩ := entry
  by_cases h : k = a
  · simp [h]
  · have hb : (k == a) = false := by simpa using h
    simp [List.lookup_cons, hb, h]

theorem enter_of_not_mem {α : Type u} {key : String} {value : α} {entries : List (String × α)}
    (h : key ∉ entries.map (·.1)) : enter key value entries = entries ++ [(key, value)] := by
  induction entries with
  | nil => rfl
  | cons entry rest ih =>
      rw [List.map_cons, List.mem_cons, not_or] at h
      rw [enter, if_neg (Ne.symm h.1), ih h.2, List.cons_append]

/-- An ordered table: no key is entered twice. -/
structure Table (α : Type u) where
  entries : List (String × α)
  nodup : (entries.map (·.1)).Nodup

namespace Table

variable {α : Type u} {β : Type v}

def empty : Table α := ⟨[], List.nodup_nil⟩

def insert (t : Table α) (key : String) (value : α) : Table α :=
  ⟨enter key value t.entries, nodup_keys_enter t.nodup⟩

/-- Enters pairs one after the other. -/
def ofList (pairs : List (String × α)) : Table α :=
  pairs.foldl (fun t pair => t.insert pair.1 pair.2) empty

def get? (t : Table α) (key : String) : Option α := t.entries.lookup key

def size (t : Table α) : Nat := t.entries.length

theorem entries_foldl_insert (pairs : List (String × α)) (t : Table α)
    (h : ((t.entries ++ pairs).map (·.1)).Nodup) :
    (pairs.foldl (fun t pair => t.insert pair.1 pair.2) t).entries = t.entries ++ pairs := by
  induction pairs generalizing t with
  | nil => simp
  | cons pair pairs ih =>
      have hfresh : pair.1 ∉ t.entries.map (·.1) := by
        rw [List.map_append, List.nodup_append] at h
        exact fun hm => h.2.2 _ hm _ (by simp) rfl
      have hentries : (t.insert pair.1 pair.2).entries = t.entries ++ [pair] :=
        enter_of_not_mem hfresh
      rw [List.foldl_cons, ih _ (by simpa [hentries] using h), hentries]
      simp

/-- Pairs without a repeated key are the entries of their table. -/
theorem entries_ofList {pairs : List (String × α)} (h : (pairs.map (·.1)).Nodup) :
    (ofList pairs).entries = pairs := by
  simpa [ofList, empty] using entries_foldl_insert pairs empty (by simpa [empty] using h)

/-- Two tables are the same mapping if they hold the same entries in any order. -/
def sameMapping [BEq α] (s t : Table α) : Bool :=
  s.size == t.size && s.entries.all (fun entry => t.get? entry.1 == some entry.2)

@[ext] theorem ext {s t : Table α} (h : s.entries = t.entries) : s = t := by
  cases s; cases t; cases h; rfl

instance [DecidableEq α] : DecidableEq (Table α) := fun s t =>
  decidable_of_iff (s.entries = t.entries) ⟨ext, fun h => h ▸ rfl⟩

end Table

end LSystem
