import LSystem.Proofs.Levels.Growth

/-! # Systems that see the same sites

All that a run takes from its system are the start word and the sites of words. -/

namespace LSystem.Expander

variable {σ : Type u}

/-- The same levels and dice, with another system to go on by. -/
def withSystem (e : Expander σ) (s : System) : Expander σ := { e with system := s }

theorem ofSystem_withSystem {s s' : System} (h : s'.grammar.start = s.grammar.start) (source : σ) :
    (ofSystem s source).withSystem s' = ofSystem s' source := by
  rw [ofSystem, ofSystem, h]
  rfl

variable [RandomSource σ] {s s' : System}

theorem grow_withSystem {e : Expander σ} (h : s'.sites e.newest = e.system.sites e.newest) :
    (e.withSystem s').grow = e.grow.withSystem s' := by
  simp only [withSystem, grow, System.rewrite, h]

/-- It is enough that the sites of the words that a run comes to are the same. -/
theorem growBy_withSystem {e : Expander σ} {n : Nat}
    (h : ∀ k < n, s'.sites (growBy k e).newest = e.system.sites (growBy k e).newest) :
    growBy n (e.withSystem s') = (growBy n e).withSystem s' := by
  induction n with
  | zero => rfl
  | succ n ih =>
      rw [growBy_succ, growBy_succ, ih (fun k hk => h k (Nat.lt_succ_of_lt hk))]
      apply grow_withSystem
      rw [system_growBy, h n (Nat.lt_succ_self n)]

/-- A request for a level has the same answer, and leaves the same levels and dice, if the levels
below it have the same sites. -/
theorem level_withSystem_of_levels (hstart : s'.grammar.start = s.grammar.start) (source : σ)
    (n : Nat) (h : ∀ k < n, s'.sites ((ofSystem s source).level k).1 =
      s.sites ((ofSystem s source).level k).1) :
    (ofSystem s' source).level n =
      (((ofSystem s source).level n).1, ((ofSystem s source).level n).2.withSystem s') := by
  have hfresh : ((ofSystem s source).withSystem s').cached = 1 := rfl
  have hgrow : growBy n ((ofSystem s source).withSystem s') =
      (growBy n (ofSystem s source)).withSystem s' := by
    apply growBy_withSystem
    intro k hk
    rw [newest_growBy (cached_ofSystem s source)]
    exact h k hk
  rw [← ofSystem_withSystem hstart, level, level, reach_fresh hfresh,
    reach_fresh (cached_ofSystem s source), hgrow]
  rfl

/-- A request for a level has the same answer, and leaves the same levels and dice. -/
theorem level_withSystem (hstart : s'.grammar.start = s.grammar.start)
    (h : ∀ word, s'.sites word = s.sites word) (source : σ) (n : Nat) :
    (ofSystem s' source).level n =
      (((ofSystem s source).level n).1, ((ofSystem s source).level n).2.withSystem s') :=
  level_withSystem_of_levels hstart source n (fun _ _ => h _)

end LSystem.Expander
