import Mathlib.Data.List.SplitBy
import Mathlib.Tactic.Common
import ProseMath.Text.Basic

/-!
# Runs of characters

A relation between neighbours cuts a text into runs: two neighbours stay together where they are
related, and a new run begins where they are not. `Cut` says this run by run, each with the text
behind it, so that a text can be followed from one run to the next.

* `cut_splitBy`: the runs of a text.
* `Cut.left`, `Cut.right`: some of the runs are runs of the text that they make up.
* `Cut.splitBy_flatten`: a text is cut in one way only.
-/

namespace ProseMath.Text

variable {r : Char → Char → Bool}

/-- Runs of related neighbours. The last character of a run and the first one behind it are not
related. -/
inductive Cut (r : Char → Char → Bool) : List Text → Prop
  | nil : Cut r []
  | cons {run : Text} {rest : List Text} (hSome : run ≠ [])
    (hChain : run.IsChain fun a b => r a b)
    (hEnd : ∀ a ∈ run.getLast?, ∀ b ∈ rest.flatten.head?, r a b = false) (hRest : Cut r rest) :
    Cut r (run :: rest)

theorem cut_splitBy (r : Char → Char → Bool) (t : Text) : Cut r (t.splitBy r) := by
  obtain ⟨_, hNil, hChains, hEnds⟩ := List.splitBy_eq_iff.mp (Eq.refl (t.splitBy r))
  generalize t.splitBy r = runs at hNil hChains hEnds
  induction runs with
  | nil => exact .nil
  | cons run rest ih =>
    obtain ⟨hChain, hChains⟩ := List.forall_mem_cons.mp hChains
    rw [List.mem_cons, not_or] at hNil
    refine .cons (Ne.symm hNil.1) hChain ?_ (ih hNil.2 hChains hEnds.tail)
    intro a ha b hb
    cases rest with
    | nil => cases hb
    | cons next rest =>
      obtain ⟨⟨hRun, hNext, hApart⟩, _⟩ := List.isChain_cons_cons.mp hEnds
      rw [List.getLast?_eq_some_getLast hRun] at ha
      rw [List.flatten_cons, List.head?_append_of_ne_nil _ hNext,
        List.head?_eq_some_head hNext] at hb
      cases ha
      cases hb
      exact hApart

namespace Cut

variable {a b : List Text}

theorem left (h : Cut r (a ++ b)) : Cut r a := by
  induction a with
  | nil => exact .nil
  | cons run a ih =>
    rw [List.cons_append] at h
    cases h with
    | cons hSome hChain hEnd hRest =>
      refine .cons hSome hChain ?_ (ih hRest)
      intro c hc d hd
      apply hEnd c hc d
      rw [List.flatten_append, List.head?_append, hd]
      rfl

theorem right (h : Cut r (a ++ b)) : Cut r b := by
  induction a with
  | nil => exact h
  | cons run a ih =>
    cases h with
    | cons _ _ _ hRest => exact ih hRest

/-- A text has no other runs. -/
theorem splitBy_flatten (h : Cut r a) : a.flatten.splitBy r = a := by
  induction h with
  | nil => rfl
  | cons hSome hChain hEnd _ ih =>
    rw [List.flatten_cons, List.splitBy_append hEnd, List.splitBy_of_isChain hSome hChain, ih]
    rfl

end Cut

end ProseMath.Text
