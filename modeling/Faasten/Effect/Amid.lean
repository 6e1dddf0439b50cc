import Mathlib
import Faasten.Effect.Interpret

/-!
# A program amid others

A program runs while others change the state as well. What the others do is a relation `E` on states, and
before each operation of the program they may make one move of `E`. The run records the operations of the
program as pairs of the states around them, its *steps*: what an observer can see of the program at any
moment is in the steps, and what the others did lies between them.

* `Handler.Amid`, the runs, and `amid_bind` for sequencing;
* `Amid.invariant`: what the others and the steps keep, the run keeps;
* `Amid.spared`: what the others happen to do between the steps may be assumed of all their moves;
* `Amid.alone`: a program that works on a part of the state which the others leave alone ends as it would
  by itself;
* `Amid.of_exec`: nothing has to happen between the steps.
-/

namespace Effect

namespace Handler

variable {S : Sig} {σ ε α β L : Type} (H : Handler S σ)

/-- The program runs from `s` to `t` amid moves of `E`, by these steps and with this result. -/
def Amid (E : σ → σ → Prop) : Prog S ε α → σ → List (σ × σ) → Except ε α → σ → Prop
  | .pure a, s, es, r, t => es = [] ∧ r = .ok a ∧ t = s
  | .raise e, s, es, r, t => es = [] ∧ r = .error e ∧ t = s
  | .op o k, s, es, r, t => ∃ s' es', E s s' ∧ es = (s', (H.perform o s').2) :: es' ∧
      Amid E (k (H.perform o s').1) (H.perform o s').2 es' r t

/-- Every move between the steps is one of `P`. -/
def Spared (P : σ → σ → Prop) : σ → List (σ × σ) → Prop
  | _, [] => True
  | s, e :: es => P s e.1 ∧ Spared P e.2 es

/-- The steps of a run that nobody disturbs. -/
def steps : Prog S ε α → σ → List (σ × σ)
  | .pure _, _ => []
  | .raise _, _ => []
  | .op o k, s => (s, (H.perform o s).2) :: steps (k (H.perform o s).1) (H.perform o s).2

variable {H} {E P : σ → σ → Prop} {m : Prog S ε α} {s t : σ} {es : List (σ × σ)} {r : Except ε α}

/-- A run of `m >>= f` is one of `m` that raises an exception, or one of `m` and one of `f`. -/
theorem amid_bind {f : α → Prog S ε β} {r : Except ε β} :
    H.Amid E (m >>= f) s es r t ↔
      (∃ e, r = .error e ∧ H.Amid E m s es (.error e) t) ∨
      ∃ a u es₁ es₂, es = es₁ ++ es₂ ∧ H.Amid E m s es₁ (.ok a) u ∧ H.Amid E (f a) u es₂ r t := by
  change H.Amid E (m.bind f) s es r t ↔ _
  induction m generalizing s es with
  | pure a =>
    constructor
    · intro h
      exact .inr ⟨a, s, [], es, rfl, ⟨rfl, rfl, rfl⟩, h⟩
    · rintro (⟨e, -, -, he, -⟩ | ⟨b, u, es₁, es₂, rfl, ⟨rfl, hb, rfl⟩, h⟩)
      · cases he
      · cases hb
        exact h
  | raise e =>
    constructor
    · rintro ⟨rfl, rfl, rfl⟩
      exact .inl ⟨e, rfl, rfl, rfl, rfl⟩
    · rintro (⟨e', rfl, rfl, he, rfl⟩ | ⟨b, u, es₁, es₂, -, ⟨-, hb, -⟩, -⟩)
      · cases he
        exact ⟨rfl, rfl, rfl⟩
      · cases hb
  | op o k ih =>
    constructor
    · rintro ⟨s', es', hE, rfl, h⟩
      obtain ⟨e, rfl, he⟩ | ⟨a, u, es₁, es₂, rfl, h₁, h₂⟩ := (ih _).1 h
      · exact .inl ⟨e, rfl, s', es', hE, rfl, he⟩
      · exact .inr ⟨a, u, _ :: es₁, es₂, rfl, ⟨s', es₁, hE, rfl, h₁⟩, h₂⟩
    · rintro (⟨e, rfl, s', es', hE, rfl, h⟩ | ⟨a, u, es₁, es₂, rfl, ⟨s', es', hE, rfl, h₁⟩, h₂⟩)
      · exact ⟨s', es', hE, rfl, (ih _).2 (.inl ⟨e, rfl, h⟩)⟩
      · exact ⟨s', es' ++ es₂, hE, rfl, (ih _).2 (.inr ⟨a, u, es', es₂, rfl, h₁, h₂⟩)⟩

/-- What the others and the steps keep, the run keeps. -/
theorem Amid.invariant {I : σ → Prop} (h : H.Amid E m s es r t) (hE : ∀ s s', E s s' → I s → I s')
    (hes : ∀ e ∈ es, I e.1 → I e.2) (hs : I s) : I t := by
  induction m generalizing s es with
  | pure a =>
    obtain ⟨-, -, rfl⟩ := h
    exact hs
  | raise e =>
    obtain ⟨-, -, rfl⟩ := h
    exact hs
  | op o k ih =>
    obtain ⟨s', es', hs', rfl, h⟩ := h
    obtain ⟨he, hes⟩ := List.forall_mem_cons.1 hes
    exact ih _ h hes (he (hE _ _ hs' hs))

/-- Others that do less. -/
theorem Amid.mono {E' : σ → σ → Prop} (h : H.Amid E m s es r t) (hE : ∀ s s', E s s' → E' s s') :
    H.Amid E' m s es r t := by
  induction m generalizing s es with
  | pure a => exact h
  | raise e => exact h
  | op o k ih =>
    obtain ⟨s', es', hs, rfl, h⟩ := h
    exact ⟨s', es', hE _ _ hs, rfl, ih _ h⟩

/-- What holds of the moves between the steps may be assumed of all moves. -/
theorem Amid.spared (h : H.Amid E m s es r t) (hP : Spared P s es) :
    H.Amid (fun s s' => E s s' ∧ P s s') m s es r t := by
  induction m generalizing s es with
  | pure a => exact h
  | raise e => exact h
  | op o k ih =>
    obtain ⟨s', es', hs, rfl, h⟩ := h
    exact ⟨s', es', ⟨hs, hP.1⟩, rfl, ih _ h hP.2⟩

/-- What each operation of the program does, each step does. -/
theorem Amid.steps {O : S.Op → Prop} {G : σ × σ → Prop} (h : H.Amid E m s es r t) (hm : m.Only O)
    (hG : ∀ o, O o → ∀ s, G (s, (H.perform o s).2)) : ∀ e ∈ es, G e := by
  induction m generalizing s es with
  | pure a =>
    obtain ⟨rfl, -⟩ := h
    exact List.forall_mem_nil _
  | raise e =>
    obtain ⟨rfl, -⟩ := h
    exact List.forall_mem_nil _
  | op o k ih =>
    obtain ⟨s', es', -, rfl, h⟩ := h
    exact List.forall_mem_cons.2 ⟨hG o hm.1 s', ih _ h (hm.2 _)⟩

/-- The operations of the program work on a part of the state alone, and the others leave it alone. -/
theorem Amid.alone {O : S.Op → Prop} {p : σ → L} (h : H.Amid E m s es r t) (hm : m.Only O)
    (hE : ∀ s s', E s s' → p s' = p s)
    (hO : ∀ o, O o → ∀ s s', p s = p s' →
      (H.perform o s).1 = (H.perform o s').1 ∧ p (H.perform o s).2 = p (H.perform o s').2)
    {s₀ : σ} (hs : p s = p s₀) :
    r = (H.exec m s₀).1 ∧ p t = p (H.exec m s₀).2 := by
  induction m generalizing s es s₀ with
  | pure a =>
    obtain ⟨-, rfl, rfl⟩ := h
    exact ⟨rfl, hs⟩
  | raise e =>
    obtain ⟨-, rfl, rfl⟩ := h
    exact ⟨rfl, hs⟩
  | op o k ih =>
    obtain ⟨s', es', hs', rfl, h⟩ := h
    obtain ⟨hres, hpart⟩ := hO o hm.1 s' s₀ ((hE _ _ hs').trans hs)
    rw [hres] at h
    exact ih _ h (hm.2 _) hpart

/-- A run that nobody disturbs. -/
theorem Amid.of_exec (hE : ∀ s, E s s) (m : Prog S ε α) (s : σ) :
    H.Amid E m s (H.steps m s) (H.exec m s).1 (H.exec m s).2 := by
  induction m generalizing s with
  | pure a => exact ⟨rfl, rfl, rfl⟩
  | raise e => exact ⟨rfl, rfl, rfl⟩
  | op o k ih => exact ⟨s, _, hE s, rfl, ih _ _⟩

/-- Nothing happens between the steps of a run that nobody disturbs. -/
theorem spared_steps (hP : ∀ s, P s s) (m : Prog S ε α) (s : σ) : Spared P s (H.steps m s) := by
  induction m generalizing s with
  | pure a => trivial
  | raise e => trivial
  | op o k ih => exact ⟨hP s, ih _ _⟩

end Handler

end Effect
