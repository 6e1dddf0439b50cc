import Mathlib
import Faasten.Effect.Prog

/-!
# Programs made of basic ones

`Composed B m` says that the program `m` is put together from basic programs, those with `B`, by sequencing
and by catching exceptions. What holds of the basic programs, and is closed under these two, holds of `m` by
induction. So one walk through a program serves for any number of such properties.
-/

namespace Effect

variable {S : Sig} {ε σ α β γ : Type} {B : (α : Type) → Prog S ε α → Prop}

/-- The programs that are put together from those with `B`. -/
inductive Composed (B : (α : Type) → Prog S ε α → Prop) : {α : Type} → Prog S ε α → Prop
  | pure {α : Type} (a : α) : Composed B (Pure.pure a : Prog S ε α)
  | raise {α : Type} (e : ε) : Composed B (.raise e : Prog S ε α)
  | basic {α : Type} {m : Prog S ε α} (h : B α m) : Composed B m
  | bind {α β : Type} {m : Prog S ε β} {f : β → Prog S ε α} (hm : Composed B m)
      (hf : ∀ b, Composed B (f b)) : Composed B (m >>= f)
  | attempt {α γ : Type} {m : Prog S ε α} (h : ε → Option γ) (hm : Composed B m) :
      Composed B (m.attempt h)

/-- If the operations of the basic programs meet `G` in every state, so do those of the others. -/
theorem Composed.always {H : Handler S σ} {G : σ → S.Op → Prop}
    (hB : ∀ {α : Type} {m : Prog S ε α} (s : σ), B α m → H.Always G s m) {m : Prog S ε α}
    (h : Composed B m) (s : σ) : H.Always G s m := by
  induction h generalizing s with
  | pure a => exact .pure a s
  | raise e => exact .raise e s
  | basic h => exact hB s h
  | bind _ _ ihm ihf => exact (ihm s).bind fun b t _ => ihf b t
  | attempt c _ ih => exact (ih s).attempt c

end Effect
