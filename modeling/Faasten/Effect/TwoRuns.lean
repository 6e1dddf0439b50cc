import Mathlib
import Faasten.Effect.Prog

/-!
# Two runs

Two programs are run, each on a state of its own. Of such a pair of runs one can say more than of
each run by itself: that a part of the state has no influence on the result.

* `Passes I m s`: a run passes through a state with `I`. If the operations of the run keep `I`, it
  ends in one (`Passes.keep`);
* `Together`: the two runs end in results that belong together, or both pass through states that
  are related by `V`, where the comparison is broken off. This is closed under sequencing
  (`Together.bind`) and under catching exceptions (`Together.attempt`).
-/

namespace Effect

namespace Handler

variable {S : Sig} {σ ε α α' β β' γ : Type} (H : Handler S σ)

/-! ### The states of a run -/

/-- A run of `m` from `s` passes through a state with `I`: it starts in one, or one of its operations
leads to one. -/
def Passes (I : σ → Prop) : Prog S ε α → σ → Prop
  | .pure _, s => I s
  | .raise _, s => I s
  | .op o k, s => I s ∨ Passes I (k (H.perform o s).1) (H.perform o s).2

variable {H} {I : σ → Prop} {m : Prog S ε α} {s t : σ}

theorem Passes.of_start (hs : I s) : H.Passes I m s := by
  cases m with
  | pure a => exact hs
  | raise e => exact hs
  | op o k => exact .inl hs

theorem Passes.of_end (ht : I (H.exec m s).2) : H.Passes I m s := by
  induction m generalizing s with
  | pure a => exact ht
  | raise e => exact ht
  | op o k ih => exact .inr (ih _ ht)

theorem Passes.mono {J : σ → Prop} (hIJ : ∀ s, I s → J s) (h : H.Passes I m s) :
    H.Passes J m s := by
  induction m generalizing s with
  | pure a => exact hIJ _ h
  | raise e => exact hIJ _ h
  | op o k ih => exact h.imp (hIJ _) (ih _)

theorem Passes.bind_left {f : α → Prog S ε β} (h : H.Passes I m s) : H.Passes I (m >>= f) s := by
  change H.Passes I (m.bind f) s
  induction m generalizing s with
  | pure a => exact .of_start h
  | raise e => exact h
  | op o k ih => exact h.imp id (ih _)

theorem Passes.bind_right {f : α → Prog S ε β} {a : α} (hx : H.exec m s = (.ok a, t))
    (h : H.Passes I (f a) t) : H.Passes I (m >>= f) s := by
  change H.Passes I (m.bind f) s
  induction m generalizing s with
  | pure b => cases hx; exact h
  | raise e => cases hx
  | op o k ih => exact .inr (ih _ hx)

theorem Passes.attempt (c : ε → Option γ) (h : H.Passes I m s) : H.Passes I (m.attempt c) s := by
  induction m generalizing s with
  | pure a => exact h
  | raise e =>
    unfold Prog.attempt
    cases c e <;> exact h
  | op o k ih => exact h.imp id (ih _)

section Keep

variable {G : σ → S.Op → Prop} {J : σ → Prop}

/-- An invariant of the run holds in the states that it passes through. -/
theorem Passes.and_invariant (hJ : ∀ s o, G s o → J s → J (H.perform o s).2)
    (hm : H.Always G s m) (hs : J s) (h : H.Passes I m s) : H.Passes (fun t => I t ∧ J t) m s := by
  induction m generalizing s with
  | pure a => exact ⟨h, hs⟩
  | raise e => exact ⟨h, hs⟩
  | op o k ih =>
    obtain ⟨ho, hk⟩ := always_op.1 hm
    rcases h with h | h
    · exact .inl ⟨h, hs⟩
    · exact .inr (ih _ hk (hJ s o ho hs) h)

/-- What the operations keep, and what holds somewhere on the way, holds in the end. -/
theorem Passes.keep (hI : ∀ s o, G s o → I s → I (H.perform o s).2)
    (hm : H.Always G s m) (h : H.Passes I m s) : I (H.exec m s).2 := by
  induction m generalizing s with
  | pure a => exact h
  | raise e => exact h
  | op o k ih =>
    obtain ⟨ho, hk⟩ := always_op.1 hm
    rcases h with hs | h
    · exact hk.invariant hI (hI s o ho hs)
    · exact ih _ hk h

end Keep

/-! ### Pairs of runs -/

/-- The results of two runs belong together: values by `R`, or the same exception with states
related by `E`. -/
def Matches (R : α → β → σ → σ → Prop) (E : σ → σ → Prop) :
    Except ε α × σ → Except ε β × σ → Prop
  | (.ok a, t), (.ok b, t') => R a b t t'
  | (.error e, t), (.error e', t') => e = e' ∧ E t t'
  | _, _ => False

variable (H)

/-- Two runs end in results that belong together, or pass through states that are related by `V`. -/
def Together (V : σ → σ → Prop) (R : α → β → σ → σ → Prop) (E : σ → σ → Prop)
    (m : Prog S ε α) (m' : Prog S ε β) (s s' : σ) : Prop :=
  Matches R E (H.exec m s) (H.exec m' s') ∨
    ∃ t t', V t t' ∧ H.Passes (· = t) m s ∧ H.Passes (· = t') m' s'

variable {H} {V : σ → σ → Prop} {E : σ → σ → Prop} {R : α → β → σ → σ → Prop}
  {m' : Prog S ε β} {s' : σ}

theorem Together.pure {a : α} {b : β} (h : R a b s s') :
    H.Together V R E (Pure.pure a : Prog S ε α) (Pure.pure b) s s' := .inl h

theorem Together.raise {e : ε} (h : E s s') :
    H.Together V R E (.raise e : Prog S ε α) (.raise e : Prog S ε β) s s' := .inl ⟨rfl, h⟩

/-- Both runs end in states that are related by `V`. -/
theorem Together.part (h : V (H.exec m s).2 (H.exec m' s').2) : H.Together V R E m m' s s' :=
  .inr ⟨_, _, h, .of_end rfl, .of_end rfl⟩

/-- Sequencing: the continuations are compared where the first parts end together. -/
theorem Together.bind {R' : α' → β' → σ → σ → Prop} {f : α → Prog S ε α'} {f' : β → Prog S ε β'}
    (hm : H.Together V R E m m' s s')
    (hf : ∀ a b t t', R a b t t' → H.Together V R' E (f a) (f' b) t t') :
    H.Together V R' E (m >>= f) (m' >>= f') s s' := by
  rcases hm with hm | ⟨t, t', hV, ht, ht'⟩
  · unfold Together
    rcases hx : H.exec m s with ⟨e | a, t⟩ <;> rcases hx' : H.exec m' s' with ⟨e' | b, t'⟩ <;>
      rw [hx, hx'] at hm
    · rw [exec_bind_error H hx, exec_bind_error H hx']
      exact .inl hm
    · exact hm.elim
    · exact hm.elim
    · rw [exec_bind_ok H hx, exec_bind_ok H hx']
      rcases hf a b t t' hm with hr | ⟨u, u', hV, hu, hu'⟩
      · exact .inl hr
      · exact .inr ⟨u, u', hV, .bind_right hx hu, .bind_right hx' hu'⟩
  · exact .inr ⟨t, t', hV, ht.bind_left, ht'.bind_left⟩

/-- Catching exceptions. -/
theorem Together.attempt {c : ε → Option γ} {R' : Except γ α → Except γ β → σ → σ → Prop}
    (hm : H.Together V R E m m' s s') (hok : ∀ a b t t', R a b t t' → R' (.ok a) (.ok b) t t')
    (herr : ∀ x t t', E t t' → R' (.error x) (.error x) t t') :
    H.Together V R' E (m.attempt c) (m'.attempt c) s s' := by
  rcases hm with hm | ⟨t, t', hV, ht, ht'⟩
  · refine .inl ?_
    rw [exec_attempt, exec_attempt]
    rcases hx : H.exec m s with ⟨e | a, t⟩ <;> rcases hx' : H.exec m' s' with ⟨e' | b, t'⟩ <;>
      rw [hx, hx'] at hm
    · obtain ⟨rfl, hE⟩ := hm
      simp only [caught]
      cases c e with
      | none => exact ⟨rfl, hE⟩
      | some x => exact herr x t t' hE
    · exact hm.elim
    · exact hm.elim
    · exact hok a b t t' hm
  · exact .inr ⟨t, t', hV, ht.attempt c, ht'.attempt c⟩

end Handler

end Effect
