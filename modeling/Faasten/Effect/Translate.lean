import Mathlib
import Faasten.Effect.Concurrent

/-!
# Programs over a lower interface

`Prog.translate f` puts an operation of a lower interface in the place of each operation of a program,
and reads its result back. If this is right for single operations (`Handler.Simulates`), it is right for
whole runs (`exec_translate`), and for processes that share a state under every schedule
(`Pool.Shows.run`).
-/

namespace Effect

/-- For each operation one of a lower interface, and how its result is read back. -/
abbrev Translation (T S : Sig) := (o : T.Op) → (o' : S.Op) × (S.Res o' → T.Res o)

variable {S T : Sig} {ε α ι L σ τ : Type} (f : Translation T S)

/-- The program over the lower interface. -/
def Prog.translate : Prog T ε α → Prog S ε α
  | .pure a => .pure a
  | .raise e => .raise e
  | .op o k => .op (f o).1 fun r => (k ((f o).2 r)).translate

/-- Each operation gives the same result on both levels, and keeps the states related. -/
def Handler.Simulates (H : Handler T σ) (H' : Handler S τ) (R : σ → τ → Prop) : Prop :=
  ∀ o s t, R s t → (f o).2 (H'.perform (f o).1 t).1 = (H.perform o s).1 ∧
    R (H.perform o s).2 (H'.perform (f o).1 t).2

variable {f}

/-- A run on the lower level has the same result, and the states stay related. -/
theorem Handler.Simulates.exec {H : Handler T σ} {H' : Handler S τ} {R : σ → τ → Prop}
    (h : Handler.Simulates f H H' R) (m : Prog T ε α) {s : σ} {t : τ} (hst : R s t) :
    (H'.exec (m.translate f) t).1 = (H.exec m s).1 ∧
      R (H.exec m s).2 (H'.exec (m.translate f) t).2 := by
  induction m generalizing s t with
  | pure a => exact ⟨rfl, hst⟩
  | raise e => exact ⟨rfl, hst⟩
  | op o k ih =>
    obtain ⟨hresult, hstate⟩ := h o s t hst
    have hrun := ih (H.perform o s).1 hstate
    rw [← hresult] at hrun
    rw [show H.exec (.op o k) s = H.exec (k (H.perform o s).1) (H.perform o s).2 from rfl, ← hresult]
    exact hrun

/-! ### Processes -/

variable (f) in
/-- The same for the operations of processes; the local states are the same on both levels. -/
def Machine.Simulates (M : Machine T ι L σ) (M' : Machine S ι L τ) (R : σ → τ → Prop) : Prop :=
  ∀ i o l s t, R s t → (f o).2 (M'.perform i (f o).1 l t).1 = (M.perform i o l s).1 ∧
    (M'.perform i (f o).1 l t).2.1 = (M.perform i o l s).2.1 ∧
    R (M.perform i o l s).2.2 (M'.perform i (f o).1 l t).2.2

variable (f) in
/-- The pool over the lower interface shows the other one. -/
structure Pool.Shows (R : σ → τ → Prop) (p : Pool T ε α ι L σ) (p' : Pool S ε α ι L τ) : Prop where
  shared : R p.shared p'.shared
  loc : p'.loc = p.loc
  prog : p'.prog = fun i => (p.prog i).translate f

namespace Pool.Shows

variable [DecidableEq ι] {M : Machine T ι L σ} {M' : Machine S ι L τ} {R : σ → τ → Prop}
  {p : Pool T ε α ι L σ} {p' : Pool S ε α ι L τ}

/-- One step of a process. -/
theorem advance (hM : Machine.Simulates f M M' R) (h : Pool.Shows f R p p') (i : ι) :
    Pool.Shows f R (p.advance M i) (p'.advance M' i) := by
  obtain ⟨shared, loc, prog⟩ := p
  obtain ⟨shared', loc', prog'⟩ := p'
  obtain ⟨hshared, hloc, hprog⟩ := h
  dsimp only at hshared hloc hprog
  subst hloc hprog
  unfold Pool.advance
  dsimp only
  cases hi : prog i with
  | pure a => exact ⟨hshared, rfl, rfl⟩
  | raise e => exact ⟨hshared, rfl, rfl⟩
  | op o k =>
    obtain ⟨hresult, hloc, hshared'⟩ := hM i o (loc' i) shared shared' hshared
    refine ⟨hshared', ?_, ?_⟩
    · show Function.update loc' i _ = Function.update loc' i _
      rw [hloc]
    · funext j
      show Function.update (fun i => (prog i).translate f) i _ j =
        (Function.update prog i _ j).translate f
      by_cases hj : j = i
      · subst hj
        rw [Function.update_self, Function.update_self, ← hresult]
      · rw [Function.update_of_ne hj, Function.update_of_ne hj]

/-- Every schedule. -/
theorem run (hM : Machine.Simulates f M M' R) (h : Pool.Shows f R p p') (schedule : List ι) :
    Pool.Shows f R (p.run M schedule) (p'.run M' schedule) := by
  induction schedule generalizing p p' with
  | nil => exact h
  | cons i is ih => exact ih (h.advance hM i)

end Pool.Shows

end Effect
