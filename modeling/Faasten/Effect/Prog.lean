import Mathlib

/-!
# Programs over an interface of operations

A program is a tree of operations of an interface `S`: it returns a value, raises an exception, or
performs an operation and continues with its result. The tree says nothing about the state; a
`Handler` does. Keeping the two apart allows one text of a program to be run to its end on a state
(`exec`) and, by other means, to be interleaved with other programs one operation at a time.

* `Sig`, `Prog`, the monad structure and `Prog.attempt`, which catches some of the exceptions;
* `Handler` and `exec`, with one equation per constructor and `exec_bind`, `exec_attempt`;
* `trace`, the operations that a run performs, and `Always G s m`: each of them meets `G` in the
  state it finds. This is closed under sequencing, where the continuation may use what the first
  part returned (`Always.bind`); what the operations keep, the run keeps (`Always.invariant`,
  `Always.rel`).
-/

namespace Effect

/-- An interface: its operations and the result type of each. -/
structure Sig where
  Op : Type
  Res : Op → Type

/-- Programs over the interface `S` that raise exceptions of type `ε`. -/
inductive Prog (S : Sig) (ε α : Type)
  | pure (a : α)
  | raise (e : ε)
  | op (o : S.Op) (k : S.Res o → Prog S ε α)

namespace Prog

variable {S : Sig} {ε α β γ : Type}

/-- Sequencing. An exception skips what follows. -/
def bind : Prog S ε α → (α → Prog S ε β) → Prog S ε β
  | .pure a, f => f a
  | .raise e, _ => .raise e
  | .op o k, f => .op o fun r => (k r).bind f

instance : Monad (Prog S ε) where
  pure := Prog.pure
  bind := Prog.bind

theorem bind_pure' (m : Prog S ε α) : m.bind .pure = m := by
  induction m with
  | pure a => rfl
  | raise e => rfl
  | op o k ih => exact congrArg (Prog.op o) (funext ih)

theorem bind_bind (m : Prog S ε α) (f : α → Prog S ε β) (g : β → Prog S ε γ) :
    (m.bind f).bind g = m.bind fun a => (f a).bind g := by
  induction m with
  | pure a => rfl
  | raise e => rfl
  | op o k ih => exact congrArg (Prog.op o) (funext ih)

instance : LawfulMonad (Prog S ε) :=
  LawfulMonad.mk' (Prog S ε) (fun m => bind_pure' m) (fun _ _ => rfl) bind_bind

/-- A single operation as a program. -/
def call (o : S.Op) : Prog S ε (S.Res o) := .op o .pure

/-- Run `m` and turn the exceptions selected by `h` into values; the others stay exceptions. -/
def attempt (h : ε → Option γ) : Prog S ε α → Prog S ε (Except γ α)
  | .pure a => .pure (.ok a)
  | .raise e =>
      match h e with
      | some c => .pure (.error c)
      | none => .raise e
  | .op o k => .op o fun r => (k r).attempt h

end Prog

/-- What each operation does to a state of type `σ`. -/
structure Handler (S : Sig) (σ : Type) where
  perform : (o : S.Op) → σ → S.Res o × σ

namespace Handler

variable {S : Sig} {σ ε α β γ : Type} (H : Handler S σ)

/-- Run a program to its end. The state is kept also when an exception ends the run. -/
def exec : Prog S ε α → σ → Except ε α × σ
  | .pure a, s => (.ok a, s)
  | .raise e, s => (.error e, s)
  | .op o k, s => exec (k (H.perform o s).1) (H.perform o s).2

@[simp] theorem exec_pure (a : α) (s : σ) : H.exec (pure a : Prog S ε α) s = (.ok a, s) := rfl

@[simp] theorem exec_raise (e : ε) (s : σ) :
    H.exec (.raise e : Prog S ε α) s = (.error e, s) := rfl

@[simp] theorem exec_call (o : S.Op) (s : σ) :
    H.exec (.call o : Prog S ε (S.Res o)) s = (.ok (H.perform o s).1, (H.perform o s).2) := rfl

/-- A run of `m >>= f` is a run of `m` followed by one of `f`, unless `m` raises. -/
theorem exec_bind (m : Prog S ε α) (f : α → Prog S ε β) (s : σ) :
    H.exec (m >>= f) s =
      match H.exec m s with
      | (.ok a, t) => H.exec (f a) t
      | (.error e, t) => (.error e, t) := by
  change H.exec (m.bind f) s = _
  induction m generalizing s with
  | pure a => rfl
  | raise e => rfl
  | op o k ih => exact ih _ _

theorem exec_bind_ok {m : Prog S ε α} {f : α → Prog S ε β} {s t : σ} {a : α}
    (h : H.exec m s = (.ok a, t)) : H.exec (m >>= f) s = H.exec (f a) t := by
  rw [exec_bind, h]

theorem exec_bind_error {m : Prog S ε α} {f : α → Prog S ε β} {s t : σ} {e : ε}
    (h : H.exec m s = (.error e, t)) : H.exec (m >>= f) s = (.error e, t) := by
  rw [exec_bind, h]

/-- The result of `attempt` on the result of the program under it. -/
def caught (h : ε → Option γ) : Except ε α → Except ε (Except γ α)
  | .ok a => .ok (.ok a)
  | .error e =>
      match h e with
      | some c => .ok (.error c)
      | none => .error e

theorem exec_attempt (h : ε → Option γ) (m : Prog S ε α) (s : σ) :
    H.exec (m.attempt h) s = (caught h (H.exec m s).1, (H.exec m s).2) := by
  induction m generalizing s with
  | pure a => rfl
  | raise e =>
    unfold Prog.attempt
    cases he : h e <;> simp [exec, caught, he]
  | op o k ih => exact ih _ _

/-! ### The operations of a run -/

/-- The operations that a run performs, each with the state it finds. -/
def trace : Prog S ε α → σ → List (σ × S.Op)
  | .pure _, _ => []
  | .raise _, _ => []
  | .op o k, s => (s, o) :: trace (k (H.perform o s).1) (H.perform o s).2

/-- What follows the operations of `m` in a run of `m >>= f`. -/
def traceAfter (f : α → Prog S ε β) : Except ε α × σ → List (σ × S.Op)
  | (.ok a, t) => H.trace (f a) t
  | (.error _, _) => []

theorem trace_bind (m : Prog S ε α) (f : α → Prog S ε β) (s : σ) :
    H.trace (m >>= f) s = H.trace m s ++ H.traceAfter f (H.exec m s) := by
  change H.trace (m.bind f) s = _
  induction m generalizing s with
  | pure a => rfl
  | raise e => rfl
  | op o k ih => exact congrArg ((s, o) :: ·) (ih _ _)

/-- The operations of a continuation are operations of the whole run. -/
theorem mem_trace_bind_ok {m : Prog S ε α} {f : α → Prog S ε β} {s t : σ} {a : α}
    {x : σ × S.Op} (h : H.exec m s = (.ok a, t)) (hx : x ∈ H.trace (f a) t) :
    x ∈ H.trace (m >>= f) s := by
  rw [trace_bind, h]
  exact List.mem_append_right _ hx

theorem mem_trace_bind_left {m : Prog S ε α} {f : α → Prog S ε β} {s : σ} {x : σ × S.Op}
    (hx : x ∈ H.trace m s) : x ∈ H.trace (m >>= f) s := by
  rw [trace_bind]
  exact List.mem_append_left _ hx

theorem trace_attempt (h : ε → Option γ) (m : Prog S ε α) (s : σ) :
    H.trace (m.attempt h) s = H.trace m s := by
  induction m generalizing s with
  | pure a => rfl
  | raise e =>
    unfold Prog.attempt
    cases h e <;> rfl
  | op o k ih => exact congrArg ((s, o) :: ·) (ih _ _)

/-- Every operation that a run of `m` from `s` performs meets `G` in the state it finds. -/
def Always (G : σ → S.Op → Prop) (s : σ) (m : Prog S ε α) : Prop :=
  ∀ x ∈ H.trace m s, G x.1 x.2

variable {H} {G : σ → S.Op → Prop}

theorem Always.pure (a : α) (s : σ) : H.Always G s (Pure.pure a : Prog S ε α) := by
  rintro x ⟨⟩

theorem Always.raise (e : ε) (s : σ) : H.Always G s (.raise e : Prog S ε α) := by
  rintro x ⟨⟩

theorem always_op {o : S.Op} {k : S.Res o → Prog S ε α} {s : σ} :
    H.Always G s (.op o k) ↔ G s o ∧ H.Always G (H.perform o s).2 (k (H.perform o s).1) :=
  List.forall_mem_cons

theorem Always.call {o : S.Op} {s : σ} (h : G s o) :
    H.Always G s (.call o : Prog S ε (S.Res o)) := always_op.2 ⟨h, Always.pure _ _⟩

/-- Sequencing: the continuation starts where `m` ended, knowing what `m` returned. -/
theorem Always.bind {m : Prog S ε α} {f : α → Prog S ε β} {s : σ} (hm : H.Always G s m)
    (hf : ∀ a t, H.exec m s = (.ok a, t) → H.Always G t (f a)) : H.Always G s (m >>= f) := by
  intro x hx
  rw [trace_bind, List.mem_append] at hx
  rcases hx with hx | hx
  · exact hm x hx
  · rcases hr : H.exec m s with ⟨e | a, t⟩
    · rw [hr] at hx; cases hx
    · rw [hr] at hx; exact hf a t hr x hx

theorem Always.attempt {m : Prog S ε α} {s : σ} (h : ε → Option γ) (hm : H.Always G s m) :
    H.Always G s (m.attempt h) := by
  unfold Always at hm ⊢
  rw [trace_attempt]; exact hm

theorem Always.mono {G' : σ → S.Op → Prop} (hG : ∀ s o, G s o → G' s o) {m : Prog S ε α} {s : σ}
    (hm : H.Always G s m) : H.Always G' s m := fun x hx => hG _ _ (hm x hx)

/-- An invariant that the operations keep holds whenever one is performed. -/
theorem Always.and_invariant {I : σ → Prop} (hI : ∀ s o, G s o → I s → I (H.perform o s).2)
    {m : Prog S ε α} {s : σ} (hm : H.Always G s m) (hs : I s) :
    H.Always (fun s o => I s ∧ G s o) s m := by
  induction m generalizing s with
  | pure a => exact Always.pure a s
  | raise e => exact Always.raise e s
  | op o k ih =>
    obtain ⟨ho, hk⟩ := always_op.1 hm
    exact always_op.2 ⟨⟨hs, ho⟩, ih _ hk (hI s o ho hs)⟩

/-- What every operation does along a reflexive and transitive relation, the run does. -/
theorem Always.rel {R : σ → σ → Prop} [Std.Refl R] [IsTrans σ R]
    (hR : ∀ s o, G s o → R s (H.perform o s).2) {m : Prog S ε α} {s : σ}
    (hm : H.Always G s m) : R s (H.exec m s).2 := by
  induction m generalizing s with
  | pure a => exact Std.Refl.refl s
  | raise e => exact Std.Refl.refl s
  | op o k ih =>
    obtain ⟨ho, hk⟩ := always_op.1 hm
    exact IsTrans.trans _ _ _ (hR s o ho) (ih _ hk)

/-- An invariant that the operations keep is kept by the run. -/
theorem Always.invariant {I : σ → Prop} (hI : ∀ s o, G s o → I s → I (H.perform o s).2)
    {m : Prog S ε α} {s : σ} (hm : H.Always G s m) (hs : I s) : I (H.exec m s).2 := by
  induction m generalizing s with
  | pure a => exact hs
  | raise e => exact hs
  | op o k ih =>
    obtain ⟨ho, hk⟩ := always_op.1 hm
    exact ih _ hk (hI s o ho hs)

end Handler

end Effect
