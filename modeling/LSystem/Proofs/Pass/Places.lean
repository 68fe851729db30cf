import LSystem.Pass
import Mathlib.Data.List.Basic

/-! # A pass place by place

A pass comes to each place in a state that the places before it have led to, and writes one block
there. -/

namespace LSystem

variable {σ : Type u}

theorem rewriteSites_append (choose : Chooser σ) (sites more : List Site) (state : σ) :
    rewriteSites choose (sites ++ more) state =
      ((rewriteSites choose sites state).1 ++
          (rewriteSites choose more (rewriteSites choose sites state).2).1,
        (rewriteSites choose more (rewriteSites choose sites state).2).2) := by
  induction sites generalizing state with
  | nil => rfl
  | cons site sites ih => simp only [List.cons_append, rewriteSites_cons, ih, List.append_assoc]

/-- The state in which a pass comes to a place. -/
def stateAt (choose : Chooser σ) (sites : List Site) (state : σ) (p : Nat) : σ :=
  (rewriteSites choose (sites.take p) state).2

/-- The block that a pass writes for a place. -/
def blockAt (choose : Chooser σ) (sites : List Site) (state : σ) (p : Nat) : Option Word :=
  sites[p]?.map
    (fun site => (choose site.token site.candidates (stateAt choose sites state p)).1)

theorem rewriteSites_take_succ (choose : Chooser σ) {sites : List Site} (state : σ) {p : Nat}
    {site : Site} (hsite : sites[p]? = some site) :
    rewriteSites choose (sites.take (p + 1)) state =
      ((rewriteSites choose (sites.take p) state).1 ++
          (choose site.token site.candidates (stateAt choose sites state p)).1,
        (choose site.token site.candidates (stateAt choose sites state p)).2) := by
  rw [List.take_add_one, hsite, rewriteSites_append, stateAt]
  simp [rewriteSites_cons]

theorem stateAt_length (choose : Chooser σ) (sites : List Site) (state : σ) :
    stateAt choose sites state sites.length = (rewriteSites choose sites state).2 := by
  rw [stateAt, List.take_length]

/-- What a pass has written before a place is the blocks of the places before it. -/
theorem rewriteSites_take (choose : Chooser σ) (sites : List Site) (state : σ) (p : Nat) :
    (rewriteSites choose (sites.take p) state).1 =
      ((List.range p).filterMap (blockAt choose sites state)).flatten := by
  induction p with
  | zero => simp
  | succ p ih =>
      rw [List.range_succ, List.filterMap_append, List.flatten_append, ← ih]
      cases hsite : sites[p]? with
      | none => simp [List.take_add_one, blockAt, hsite]
      | some site =>
          rw [rewriteSites_take_succ choose state hsite]
          simp [blockAt, hsite]

end LSystem
