import LSystem.Expander
import LSystem.Random.Scripted

/-! # The sites of a pass

A word has one site for each of its tokens, and a chooser is shown them in order, each once,
whatever it picks. -/

namespace LSystem

theorem Grammar.map_token_sites (g : Grammar) (word : Word) :
    (g.sites word).map Site.token = word := by
  simp [sites, Function.comp_def]

theorem ContextIndex.map_token_sites (index : ContextIndex) (word : Word) :
    (index.sites word).map Site.token = word := by
  apply List.ext_getElem <;> simp [sites]

theorem System.map_token_sites (s : System) (word : Word) :
    (s.sites word).map Site.token = word := by
  unfold sites
  split
  · exact s.grammar.map_token_sites word
  · exact s.index.map_token_sites word

@[simp] theorem System.length_sites (s : System) (word : Word) :
    (s.sites word).length = word.length := by
  simpa using congrArg List.length (s.map_token_sites word)

/-- The token of a site is the one at its place. -/
theorem System.getElem?_word {s : System} {word : Word} {i : Nat} {site : Site}
    (hsite : (s.sites word)[i]? = some site) : word[i]? = some site.token := by
  have htoken := congrArg (·[i]?) (s.map_token_sites word)
  simpa [hsite] using htoken.symm

theorem rewriteSites_recording (choose : Chooser σ) (sites : List Site) (state : σ)
    (seen : Array Site) :
    rewriteSites choose.recording sites (state, seen) =
      ((rewriteSites choose sites state).1,
        ((rewriteSites choose sites state).2, seen ++ sites)) := by
  induction sites generalizing state seen with
  | nil => simp
  | cons site rest ih =>
      rw [rewriteSites_cons, rewriteSites_cons]
      simp only [Chooser.recording]
      rw [ih]
      simp

end LSystem
