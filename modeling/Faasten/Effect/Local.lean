import Mathlib
import Faasten.Effect.Concurrent

/-!
# What a program does to a state of its own

Often a program works on a state that nobody else touches, beside one that everybody does. A `Locale`
says what each operation may give and do, seen from the first alone. What is proved of a program in
this way holds whatever others do to the rest, before each of its operations.

* `Locale.Outcome`, how a program may end;
* `Locale.Meets`: each operation of the program meets a commitment, and its end a condition, with one
  rule per way of building programs;
* `Locale.outcome_exec`: a run on the whole state is one of the outcomes;
* `Locale.Meets.steady`: a program that meets its commitments is steady in every discipline that asks no
  more of it.
-/

namespace Effect

/-- What each operation may give and do, seen from a local state: its result, and the state after it. -/
abbrev Locale (S : Sig) (L : Type) := (o : S.Op) → L → S.Res o → L → Prop

namespace Locale

variable {S : Sig} {ε α β γ L σ : Type} (P : Locale S L)

/-- How a program may end. -/
def Outcome : Prog S ε α → L → Except ε α → L → Prop
  | .pure a, t, r, t' => r = .ok a ∧ t' = t
  | .raise e, t, r, t' => r = .error e ∧ t' = t
  | .op o k, t, r, t' => ∃ x t₁, P o t x t₁ ∧ Outcome (k x) t₁ r t'

/-- Each operation of the program meets `G`, and its end meets `Q`. -/
def Meets (G : S.Op → L → Prop) (Q : Except ε α → L → Prop) : Prog S ε α → L → Prop
  | .pure a, t => Q (.ok a) t
  | .raise e, t => Q (.error e) t
  | .op o k, t => G o t ∧ ∀ x t', P o t x t' → Meets G Q (k x) t'

variable {P} {G G' : S.Op → L → Prop} {Q : Except ε α → L → Prop} {t t' : L}

theorem Meets.pure {a : α} (h : Q (.ok a) t) : P.Meets G Q (Pure.pure a : Prog S ε α) t := h

theorem Meets.raise {e : ε} (h : Q (.error e) t) : P.Meets G Q (.raise e : Prog S ε α) t := h

/-- The rule of an operation. -/
theorem Meets.call {o : S.Op} {Q : Except ε (S.Res o) → L → Prop} (hg : G o t)
    (h : ∀ x t', P o t x t' → Q (.ok x) t') : P.Meets G Q (.call o : Prog S ε (S.Res o)) t :=
  ⟨hg, h⟩

/-- An operation, and what follows it. -/
theorem Meets.call_bind {o : S.Op} {f : S.Res o → Prog S ε α} (hg : G o t)
    (h : ∀ x t', P o t x t' → P.Meets G Q (f x) t') : P.Meets G Q (Prog.call o >>= f) t := ⟨hg, h⟩

/-- Sequencing: what follows starts where the first part ends. -/
theorem Meets.bind {B : Except ε β → L → Prop} {m : Prog S ε β} {f : β → Prog S ε α}
    (hm : P.Meets G B m t) (hf : ∀ a t', B (.ok a) t' → P.Meets G Q (f a) t')
    (he : ∀ e t', B (.error e) t' → Q (.error e) t') : P.Meets G Q (m >>= f) t := by
  change P.Meets G Q (m.bind f) t
  induction m generalizing t with
  | pure a => exact hf a t hm
  | raise e => exact he e t hm
  | op o k ih => exact ⟨hm.1, fun x t' hx => ih x (hm.2 x t' hx)⟩

/-- Catching exceptions changes nothing but the result. -/
theorem Meets.attempt {m : Prog S ε α} {h : ε → Option γ} {Q : Except ε (Except γ α) → L → Prop}
    (hm : P.Meets G (fun r => Q (Handler.caught h r)) m t) : P.Meets G Q (m.attempt h) t := by
  induction m generalizing t with
  | pure a => exact hm
  | raise e =>
    unfold Prog.attempt
    change Q (Handler.caught h (.error e)) t at hm
    cases he : h e with
    | none =>
      simp only [Handler.caught, he] at hm
      exact hm
    | some c =>
      simp only [Handler.caught, he] at hm
      exact hm
  | op o k ih => exact ⟨hm.1, fun x t' hx => ih x (hm.2 x t' hx)⟩

/-- Weaker commitments and a weaker end. -/
theorem Meets.mono {Q' : Except ε α → L → Prop} {m : Prog S ε α} (hm : P.Meets G Q m t)
    (hG : ∀ o t, G o t → G' o t) (hQ : ∀ r t, Q r t → Q' r t) : P.Meets G' Q' m t := by
  induction m generalizing t with
  | pure a => exact hQ _ _ hm
  | raise e => exact hQ _ _ hm
  | op o k ih => exact ⟨hG o t hm.1, fun x t' hx => ih x (hm.2 x t' hx)⟩

/-! ### Outcomes -/

/-- What is met by a program holds of each of its outcomes. -/
theorem Meets.outcome {m : Prog S ε α} {r : Except ε α} (hm : P.Meets G Q m t)
    (h : P.Outcome m t r t') : Q r t' := by
  induction m generalizing t with
  | pure a =>
    obtain ⟨rfl, rfl⟩ := h
    exact hm
  | raise e =>
    obtain ⟨rfl, rfl⟩ := h
    exact hm
  | op o k ih =>
    obtain ⟨x, t₁, hx, h⟩ := h
    exact ih x (hm.2 x t₁ hx) h

/-- An outcome of `m >>= f` that is a value comes from a value of `m`. -/
theorem Outcome.bind_ok {m : Prog S ε β} {f : β → Prog S ε α} {a : α}
    (h : P.Outcome (m >>= f) t (.ok a) t') :
    ∃ b t₁, P.Outcome m t (.ok b) t₁ ∧ P.Outcome (f b) t₁ (.ok a) t' := by
  change P.Outcome (m.bind f) t (.ok a) t' at h
  induction m generalizing t with
  | pure b => exact ⟨b, t, ⟨rfl, rfl⟩, h⟩
  | raise e => cases h.1
  | op o k ih =>
    obtain ⟨x, t₁, hx, h⟩ := h
    obtain ⟨b, t₂, hb, hf⟩ := ih x h
    exact ⟨b, t₂, ⟨x, t₁, hx, hb⟩, hf⟩

/-- An exception of `m >>= f` comes from one of the two. -/
theorem Outcome.bind_error {m : Prog S ε β} {f : β → Prog S ε α} {e : ε}
    (h : P.Outcome (m >>= f) t (.error e) t') :
    P.Outcome m t (.error e) t' ∨
      ∃ b t₁, P.Outcome m t (.ok b) t₁ ∧ P.Outcome (f b) t₁ (.error e) t' := by
  change P.Outcome (m.bind f) t (.error e) t' at h
  induction m generalizing t with
  | pure b => exact .inr ⟨b, t, ⟨rfl, rfl⟩, h⟩
  | raise e' =>
    obtain ⟨heq, rfl⟩ := h
    cases heq
    exact .inl ⟨rfl, rfl⟩
  | op o k ih =>
    obtain ⟨x, t₁, hx, h⟩ := h
    rcases ih x h with hm | ⟨b, t₂, hb, hf⟩
    · exact .inl ⟨x, t₁, hx, hm⟩
    · exact .inr ⟨b, t₂, ⟨x, t₁, hx, hb⟩, hf⟩

/-- Catching exceptions changes nothing but the result. -/
theorem Outcome.attempt {m : Prog S ε α} {h : ε → Option γ} {r : Except ε (Except γ α)}
    (ho : P.Outcome (m.attempt h) t r t') :
    ∃ r', P.Outcome m t r' t' ∧ r = Handler.caught h r' := by
  induction m generalizing t with
  | pure a =>
    obtain ⟨rfl, rfl⟩ := ho
    exact ⟨.ok a, ⟨rfl, rfl⟩, rfl⟩
  | raise e =>
    refine ⟨.error e, ?_⟩
    unfold Prog.attempt at ho
    cases he : h e with
    | none =>
      rw [he] at ho
      obtain ⟨rfl, rfl⟩ := ho
      exact ⟨⟨rfl, rfl⟩, by simp [Handler.caught, he]⟩
    | some c =>
      rw [he] at ho
      obtain ⟨rfl, rfl⟩ := ho
      exact ⟨⟨rfl, rfl⟩, by simp [Handler.caught, he]⟩
  | op o k ih =>
    obtain ⟨x, t₁, hx, ho⟩ := ho
    obtain ⟨r', hr', heq⟩ := ih x ho
    exact ⟨r', ⟨x, t₁, hx, hr'⟩, heq⟩

/-- A run on a state that the local one is a part of is one of the outcomes. -/
theorem outcome_exec (H : Handler S σ) (part : σ → L) {I : σ → Prop}
    (hI : ∀ o s, I s → I (H.perform o s).2)
    (hP : ∀ o s, I s → P o (part s) (H.perform o s).1 (part (H.perform o s).2)) (m : Prog S ε α)
    {s : σ} (hs : I s) : P.Outcome m (part s) (H.exec m s).1 (part (H.exec m s).2) := by
  induction m generalizing s with
  | pure a => exact ⟨rfl, rfl⟩
  | raise e => exact ⟨rfl, rfl⟩
  | op o k ih => exact ⟨_, _, hP o s hs, ih _ (hI o s hs)⟩

/-! ### Disciplines -/

/-- A program that meets its commitments is steady in a discipline that asks no more of it. -/
theorem Meets.steady {ι : Type} {M : Machine S ι L σ} {D : Discipline M} {i : ι}
    (hP : ∀ o t s, D.inv s → D.own i t s → P o t (M.perform i o t s).1 (M.perform i o t s).2.1)
    (hG : ∀ o t s, D.inv s → D.own i t s → G o t → D.guar i o t s) {m : Prog S ε α} {s : σ}
    (hm : P.Meets G Q m t) : D.Steady i (fun r t _ => Q r t) m t s := by
  induction m generalizing t s with
  | pure a => exact fun s' _ => hm
  | raise e => exact fun s' _ => hm
  | op o k ih =>
    intro s' hs
    exact ⟨hG o t s' hs.inv hs.own hm.1, ih _ (hm.2 _ _ (hP o t s' hs.inv hs.own))⟩

/-- The end of a steady program is one of its outcomes. -/
theorem steady_outcome {ι : Type} {M : Machine S ι L σ} {D : Discipline M} {i : ι}
    (hP : ∀ o t s, D.inv s → D.own i t s → P o t (M.perform i o t s).1 (M.perform i o t s).2.1)
    {Q : Except ε α → L → σ → Prop} {m : Prog S ε α} {s : σ} (hm : D.Steady i Q m t s) :
    D.Steady i (fun r t' s' => Q r t' s' ∧ P.Outcome m t r t') m t s := by
  induction m generalizing t s with
  | pure a => exact fun s' hs => ⟨hm s' hs, rfl, rfl⟩
  | raise e => exact fun s' hs => ⟨hm s' hs, rfl, rfl⟩
  | op o k ih =>
    intro s' hs
    obtain ⟨hg, hk⟩ := hm s' hs
    refine ⟨hg, (ih _ hk).mono fun r t' s'' _ _ h => ⟨h.1, ?_⟩⟩
    exact ⟨_, _, hP o t s' hs.inv hs.own, h.2⟩

end Locale

end Effect
