import Mathlib

/-!
# Acyclic relations

A relation is acyclic if no path leads from a point back to itself. Giving a point a new edge keeps
it so, unless the other end of the edge already leads back to the point (`Acyclic.repoint`). On a
finite type an acyclic relation is well-founded, so that following its edges comes to an end.
-/

namespace Graph

open Relation

variable {α : Type*} {r s : α → α → Prop}

/-- No path leads from a point to itself. -/
def Acyclic (r : α → α → Prop) : Prop := ∀ a, ¬ TransGen r a a

theorem Acyclic.mono (h : Acyclic r) (hs : ∀ a b, s a b → r a b) : Acyclic s :=
  fun a ha => h a (TransGen.mono hs a a ha)

section Repoint

variable {u t : α}

/-- From `t`, which does not lead to `u`, a new edge at `u` leads nowhere new. -/
theorem reaches_of_repoint (hs : ∀ a b, s a b → r a b ∨ (a = u ∧ b = t))
    (hut : ¬ ReflTransGen r t u) {b : α} (h : ReflTransGen s t b) : ReflTransGen r t b := by
  induction h with
  | refl => exact .refl
  | tail _ hab ih =>
    rcases hs _ _ hab with hab | ⟨rfl, -⟩
    · exact ih.tail hab
    · exact absurd ih hut

/-- A path with the new edge is one without it, or passes through `u` and then through `t`. -/
theorem path_of_repoint (hs : ∀ a b, s a b → r a b ∨ (a = u ∧ b = t)) {a b : α}
    (h : TransGen s a b) : TransGen r a b ∨ (ReflTransGen s a u ∧ ReflTransGen s t b) := by
  induction h with
  | single hab =>
    rcases hs _ _ hab with hab | ⟨rfl, rfl⟩
    · exact .inl (.single hab)
    · exact .inr ⟨.refl, .refl⟩
  | tail hac hcb ih =>
    rcases ih with ih | ⟨hau, htc⟩
    · rcases hs _ _ hcb with hcb' | ⟨rfl, rfl⟩
      · exact .inl (ih.tail hcb')
      · exact .inr ⟨hac.to_reflTransGen, .refl⟩
    · exact .inr ⟨hau, htc.tail hcb⟩

/-- A new edge from `u` to `t` closes no cycle if `t` does not lead to `u`. -/
theorem Acyclic.repoint (h : Acyclic r) (hs : ∀ a b, s a b → r a b ∨ (a = u ∧ b = t))
    (hut : ¬ ReflTransGen r t u) : Acyclic s := by
  intro a ha
  rcases path_of_repoint hs ha with ha | ⟨hau, hta⟩
  · exact h a ha
  · exact hut (reaches_of_repoint hs hut (hta.trans hau))

end Repoint

/-- On a finite type, following the edges of an acyclic relation comes to an end. -/
theorem Acyclic.wellFounded [Finite α] (h : Acyclic r) : WellFounded fun a b => r b a := by
  have hirrefl : Std.Irrefl fun a b => TransGen r b a := ⟨h⟩
  have htrans : IsTrans α fun a b => TransGen r b a := ⟨fun a b c hab hbc => hbc.trans hab⟩
  refine Subrelation.wf (r := fun a b => TransGen r b a) (fun hab => .single hab) ?_
  exact Finite.wellFounded_of_trans_of_irrefl _

end Graph
