import Mathlib
import Faasten.Effect.Prog

/-!
# Programs that share a state

A `Pool` holds a shared state and, for each process of the index type `ι`, a local state and the
program that it has still to run. A schedule is a list of processes; each in turn performs its next
operation (`Pool.advance`, `Pool.run`). The number of processes is arbitrary, and a process that has
not been scheduled has not begun.

Reasoning is by assumption and commitment. A `Discipline` says, for each process, what each of its
operations is committed to (`guar`) and how the others may change the shared state in the meantime
(`env`); the shared state keeps `inv`, and each process keeps `own`.

* `Steady D i Q m t s`: from local state `t` and shared state `s`, whatever the others do before and
  between the operations of `m`, each operation meets its commitment, and the end meets `Q`;
* the rules `Steady.pure`, `Steady.op`, `Steady.bind`, `Steady.attempt`;
* `Prog.Final P`: after an operation that meets `P` the program is at its end; `Pool.run_final` says
  what this means for a run;
* `Discipline.Holds.run`: a pool of steady programs stays one under every schedule.
-/

namespace Effect

/-! ### The last operation of a program -/

namespace Prog

variable {S : Sig} {ε α β : Type} (P : (o : S.Op) → S.Res o → Prop)

/-- After an operation that meets `P`, the program is at its end. -/
def Final : Prog S ε α → Prop
  | .pure _ => True
  | .raise _ => True
  | .op o k => ∀ r, (P o r ∧ ∃ a, k r = .pure a) ∨ (¬P o r ∧ Final (k r))

/-- The program performs no operation that meets `P`. -/
def Avoids : Prog S ε α → Prop
  | .pure _ => True
  | .raise _ => True
  | .op o k => ∀ r, ¬P o r ∧ Avoids (k r)

variable {P}

theorem Avoids.call {o : S.Op} (h : ∀ r, ¬P o r) : (call o : Prog S ε (S.Res o)).Avoids P :=
  fun r => ⟨h r, trivial⟩

theorem Avoids.bind {m : Prog S ε β} {f : β → Prog S ε α} (hm : m.Avoids P)
    (hf : ∀ a, (f a).Avoids P) : (m >>= f).Avoids P := by
  change (m.bind f).Avoids P
  induction m with
  | pure a => exact hf a
  | raise e => trivial
  | op o k ih => exact fun r => ⟨(hm r).1, ih r (hm r).2⟩

theorem Avoids.mono {P' : (o : S.Op) → S.Res o → Prop} {m : Prog S ε α}
    (h : ∀ o r, P' o r → P o r) (hm : m.Avoids P) : m.Avoids P' := by
  induction m with
  | pure a => trivial
  | raise e => trivial
  | op o k ih => exact fun r => ⟨fun hr => (hm r).1 (h o r hr), ih r (hm r).2⟩

theorem Final.of_avoids_bind {m : Prog S ε β} {f : β → Prog S ε α} (hm : m.Avoids P)
    (hf : ∀ a, (f a).Final P) : (m >>= f).Final P := by
  change (m.bind f).Final P
  induction m with
  | pure a => exact hf a
  | raise e => trivial
  | op o k ih => exact fun r => .inr ⟨(hm r).1, ih r (hm r).2⟩

theorem Final.map {m : Prog S ε β} (g : β → α) (hm : m.Final P) :
    (m >>= fun a => Pure.pure (g a)).Final P := by
  change (m.bind fun a => .pure (g a)).Final P
  induction m with
  | pure a => trivial
  | raise e => trivial
  | op o k ih =>
    intro r
    rcases hm r with ⟨hr, a, ha⟩ | ⟨hr, hk⟩
    · refine .inl ⟨hr, g a, ?_⟩
      change (k r).bind _ = _
      rw [ha]
      rfl
    · exact .inr ⟨hr, ih r hk⟩

end Prog

/-! ### Pools -/

/-- What an operation of a process does to its local state and to the shared one. -/
structure Machine (S : Sig) (ι L σ : Type) where
  perform : ι → (o : S.Op) → L → σ → S.Res o × L × σ

/-- Processes on a shared state, each with a local state and what it has still to run. -/
structure Pool (S : Sig) (ε α ι L σ : Type) where
  shared : σ
  loc : ι → L
  prog : ι → Prog S ε α

namespace Pool

variable {S : Sig} {ε α ι L σ : Type} [DecidableEq ι] (M : Machine S ι L σ)

/-- Process `i` performs its next operation, if there is one. -/
def advance (p : Pool S ε α ι L σ) (i : ι) : Pool S ε α ι L σ :=
  match p.prog i with
  | .op o k =>
      { shared := (M.perform i o (p.loc i) p.shared).2.2
        loc := Function.update p.loc i (M.perform i o (p.loc i) p.shared).2.1
        prog := Function.update p.prog i (k (M.perform i o (p.loc i) p.shared).1) }
  | _ => p

/-- The processes of the schedule move, one after the other. -/
def run (p : Pool S ε α ι L σ) (schedule : List ι) : Pool S ε α ι L σ :=
  schedule.foldl (advance M) p

@[simp] theorem run_nil (p : Pool S ε α ι L σ) : p.run M [] = p := rfl

theorem run_cons (p : Pool S ε α ι L σ) (i : ι) (is : List ι) :
    p.run M (i :: is) = (p.advance M i).run M is := rfl

theorem run_append (p : Pool S ε α ι L σ) (is js : List ι) :
    p.run M (is ++ js) = (p.run M is).run M js := List.foldl_append

/-- A step either does nothing or performs one operation. -/
theorem advance_cases (p : Pool S ε α ι L σ) (i : ι) :
    p.advance M i = p ∨ ∃ o k, p.prog i = .op o k ∧
      p.advance M i =
        { shared := (M.perform i o (p.loc i) p.shared).2.2
          loc := Function.update p.loc i (M.perform i o (p.loc i) p.shared).2.1
          prog := Function.update p.prog i (k (M.perform i o (p.loc i) p.shared).1) } := by
  unfold advance
  cases hm : p.prog i with
  | pure a => exact .inl rfl
  | raise e => exact .inl rfl
  | op o k => exact .inr ⟨o, k, rfl, rfl⟩

/-- A process that has ended does not move. -/
theorem advance_pure {p : Pool S ε α ι L σ} {i : ι} {a : α} (h : p.prog i = .pure a) (j : ι) :
    (p.advance M j).prog i = .pure a ∧ (p.advance M j).loc i = p.loc i := by
  obtain hp | ⟨o, k, ho, hp⟩ := p.advance_cases M j
  · rw [hp]
    exact ⟨h, rfl⟩
  · have hij : i ≠ j := by
      rintro rfl
      rw [h] at ho
      cases ho
    rw [hp]
    exact ⟨(Function.update_of_ne hij _ _).trans h, Function.update_of_ne hij _ _⟩

theorem run_pure {p : Pool S ε α ι L σ} {i : ι} {a : α} (h : p.prog i = .pure a) (js : List ι) :
    (p.run M js).prog i = .pure a ∧ (p.run M js).loc i = p.loc i := by
  induction js generalizing p with
  | nil => exact ⟨h, rfl⟩
  | cons j js ih =>
    obtain ⟨hj, hl⟩ := advance_pure M h j
    obtain ⟨hjs, hls⟩ := ih hj
    exact ⟨hjs, hls.trans hl⟩

/-- Process `i` has ended once `C` holds, if its own operations make `C` hold only where they are its
last ones, and those of the others never do. -/
theorem run_final {P : (o : S.Op) → S.Res o → Prop} {C : σ → Prop} {i : ι}
    (hself : ∀ o t s, C (M.perform i o t s).2.2 → C s ∨ P o (M.perform i o t s).1)
    (hother : ∀ j o t s, j ≠ i → C (M.perform j o t s).2.2 → C s) {p : Pool S ε α ι L σ}
    (hf : (p.prog i).Final P) (hc : C p.shared → ∃ a, p.prog i = .pure a) (js : List ι)
    (h : C (p.run M js).shared) : ∃ a, (p.run M js).prog i = .pure a := by
  induction js generalizing p with
  | nil => exact hc h
  | cons j js ih =>
    suffices hstep : ((p.advance M j).prog i).Final P ∧
        (C (p.advance M j).shared → ∃ a, (p.advance M j).prog i = .pure a) from
      ih hstep.1 hstep.2 h
    obtain hp | ⟨o, k, ho, hp⟩ := p.advance_cases M j
    · rw [hp]
      exact ⟨hf, hc⟩
    · rw [hp]
      by_cases hij : i = j
      · subst hij
        have hnot : ¬C p.shared := by
          intro hC
          obtain ⟨a, ha⟩ := hc hC
          rw [ha] at ho
          cases ho
        rw [ho] at hf
        simp only [Function.update_self]
        rcases hf (M.perform i o (p.loc i) p.shared).1 with ⟨-, a, ha⟩ | ⟨hP, hk⟩
        · exact ⟨by rw [ha]; trivial, fun _ => ⟨a, ha⟩⟩
        · exact ⟨hk, fun hC => absurd (hself _ _ _ hC) (not_or.2 ⟨hnot, hP⟩)⟩
      · simp only [Function.update_of_ne hij]
        exact ⟨hf, fun hC => hc (hother j _ _ _ (Ne.symm hij) hC)⟩

end Pool

/-- The commitments of the processes of a machine, and what follows from them. -/
structure Discipline {S : Sig} {ι L σ : Type} (M : Machine S ι L σ) where
  /-- an invariant of the shared state -/
  inv : σ → Prop
  /-- an invariant of each process -/
  own : ι → L → σ → Prop
  /-- what is asked of an operation in the state it finds -/
  guar : ι → S.Op → L → σ → Prop
  /-- how the other processes may change the shared state -/
  env : ι → σ → σ → Prop
  env_refl : ∀ i s, env i s s
  env_trans : ∀ {i s s' s''}, env i s s' → env i s' s'' → env i s s''
  inv_step : ∀ {i o t s}, inv s → own i t s → guar i o t s → inv (M.perform i o t s).2.2
  own_step : ∀ {i o t s}, inv s → own i t s → guar i o t s →
    own i (M.perform i o t s).2.1 (M.perform i o t s).2.2
  env_step : ∀ {i j o t s}, j ≠ i → inv s → own i t s → guar i o t s →
    env j s (M.perform i o t s).2.2
  own_env : ∀ {i t s s'}, inv s → inv s' → own i t s → env i s s' → own i t s'

namespace Discipline

variable {S : Sig} {ε α β γ ι L σ : Type} {M : Machine S ι L σ} (D : Discipline M)

/-- A state of the shared state in which process `i` may find it later. -/
structure Later (i : ι) (t : L) (s s' : σ) : Prop where
  env : D.env i s s'
  inv : D.inv s'
  own : D.own i t s'

/-- Each operation of the program meets its commitment and its end meets `Q`, whatever the other
processes do in the meantime. -/
def Steady (i : ι) (Q : Except ε α → L → σ → Prop) : Prog S ε α → L → σ → Prop
  | .pure a, t, s => ∀ s', D.Later i t s s' → Q (.ok a) t s'
  | .raise e, t, s => ∀ s', D.Later i t s s' → Q (.error e) t s'
  | .op o k, t, s => ∀ s', D.Later i t s s' → D.guar i o t s' ∧
      Steady i Q (k (M.perform i o t s').1) (M.perform i o t s').2.1 (M.perform i o t s').2.2

variable {D} {i : ι} {Q : Except ε α → L → σ → Prop} {t : L} {s s' s'' : σ}

theorem Later.trans (h : D.Later i t s s') (h' : D.Later i t s' s'') : D.Later i t s s'' :=
  ⟨D.env_trans h.env h'.env, h'.inv, h'.own⟩

theorem Later.refl (hi : D.inv s) (ho : D.own i t s) : D.Later i t s s := ⟨D.env_refl i s, hi, ho⟩

/-- What is steady stays so while the others move. -/
theorem Steady.later {m : Prog S ε α} (h : D.Steady i Q m t s) (hs : D.Later i t s s') :
    D.Steady i Q m t s' := by
  cases m with
  | pure a => exact fun s'' h' => h s'' (hs.trans h')
  | raise e => exact fun s'' h' => h s'' (hs.trans h')
  | op o k => exact fun s'' h' => h s'' (hs.trans h')

theorem Steady.pure {a : α} (h : ∀ s', D.Later i t s s' → Q (.ok a) t s') :
    D.Steady i Q (Pure.pure a : Prog S ε α) t s := h

theorem Steady.raise {e : ε} (h : ∀ s', D.Later i t s s' → Q (.error e) t s') :
    D.Steady i Q (.raise e : Prog S ε α) t s := h

/-- The rule of an operation. -/
theorem Steady.call_bind {o : S.Op} {f : S.Res o → Prog S ε α}
    (h : ∀ s', D.Later i t s s' → D.guar i o t s' ∧
      D.Steady i Q (f (M.perform i o t s').1) (M.perform i o t s').2.1 (M.perform i o t s').2.2) :
    D.Steady i Q (Prog.call o >>= f) t s := h

/-- Sequencing: what follows starts where the first part ends. -/
theorem Steady.bind {m : Prog S ε β} {f : β → Prog S ε α} {B : Except ε β → L → σ → Prop}
    (hi : D.inv s) (ho : D.own i t s) (hm : D.Steady i B m t s)
    (hf : ∀ a t' s', D.inv s' → D.own i t' s' → B (.ok a) t' s' → D.Steady i Q (f a) t' s')
    (he : ∀ e t' s', D.inv s' → D.own i t' s' → B (.error e) t' s' → Q (.error e) t' s') :
    D.Steady i Q (m >>= f) t s := by
  change D.Steady i Q (m.bind f) t s
  induction m generalizing t s with
  | pure a => exact hf a t s hi ho (hm s (.refl hi ho))
  | raise e => exact fun s' hs => he e t s' hs.inv hs.own (hm s' hs)
  | op o k ih =>
    intro s' hs
    obtain ⟨hg, hk⟩ := hm s' hs
    exact ⟨hg, ih _ (D.inv_step hs.inv hs.own hg) (D.own_step hs.inv hs.own hg) hk⟩

/-- A program followed by a function on its result. -/
theorem Steady.map {m : Prog S ε β} {B : Except ε β → L → σ → Prop} (g : β → α)
    (hm : D.Steady i B m t s) :
    D.Steady i (fun r t s => ∃ r', r = r'.map g ∧ B r' t s) (m >>= fun a => Pure.pure (g a)) t s := by
  change D.Steady i _ (m.bind fun a => .pure (g a)) t s
  induction m generalizing t s with
  | pure a => exact fun s' hs => ⟨.ok a, rfl, hm s' hs⟩
  | raise e => exact fun s' hs => ⟨.error e, rfl, hm s' hs⟩
  | op o k ih =>
    intro s' hs
    obtain ⟨hg, hk⟩ := hm s' hs
    exact ⟨hg, ih _ hk⟩

/-- Catching exceptions changes nothing but the result. -/
theorem Steady.attempt {m : Prog S ε α} {h : ε → Option γ}
    {Q : Except ε (Except γ α) → L → σ → Prop}
    (hm : D.Steady i (fun r => Q (Handler.caught h r)) m t s) :
    D.Steady i Q (m.attempt h) t s := by
  induction m generalizing t s with
  | pure a => exact hm
  | raise e =>
    unfold Prog.attempt
    cases he : h e with
    | none =>
      refine Steady.raise fun s' hs => ?_
      simpa only [Handler.caught, he] using hm s' hs
    | some c =>
      refine Steady.pure fun s' hs => ?_
      simpa only [Handler.caught, he] using hm s' hs
  | op o k ih =>
    intro s' hs
    obtain ⟨hg, hk⟩ := hm s' hs
    exact ⟨hg, ih _ hk⟩

/-- A weaker end. -/
theorem Steady.mono {m : Prog S ε α} {Q' : Except ε α → L → σ → Prop}
    (hm : D.Steady i Q m t s) (h : ∀ r t s, D.inv s → D.own i t s → Q r t s → Q' r t s) :
    D.Steady i Q' m t s := by
  induction m generalizing t s with
  | pure a => exact fun s' hs => h _ _ _ hs.inv hs.own (hm s' hs)
  | raise e => exact fun s' hs => h _ _ _ hs.inv hs.own (hm s' hs)
  | op o k ih =>
    intro s' hs
    obtain ⟨hg, hk⟩ := hm s' hs
    exact ⟨hg, ih _ hk⟩

/-- What the environment and every operation that meets its commitment do along a reflexive and
transitive relation, the program does. -/
theorem Steady.rel {R : σ → σ → Prop} [Std.Refl R] [IsTrans σ R]
    (henv : ∀ {i s s'}, D.env i s s' → R s s')
    (hstep : ∀ {i o t s}, D.inv s → D.guar i o t s → R s (M.perform i o t s).2.2)
    {m : Prog S ε α} (hm : D.Steady i Q m t s) :
    D.Steady i (fun r t' s' => Q r t' s' ∧ R s s') m t s := by
  suffices h : ∀ s₁, R s s₁ → D.Steady i Q m t s₁ →
      D.Steady i (fun r t' s' => Q r t' s' ∧ R s s') m t s₁ from h s (Std.Refl.refl s) hm
  clear hm
  intro s₁ hs₁ hm
  induction m generalizing t s₁ with
  | pure a => exact fun s' hs => ⟨hm s' hs, IsTrans.trans _ _ _ hs₁ (henv hs.env)⟩
  | raise e => exact fun s' hs => ⟨hm s' hs, IsTrans.trans _ _ _ hs₁ (henv hs.env)⟩
  | op o k ih =>
    intro s' hs
    obtain ⟨hg, hk⟩ := hm s' hs
    exact ⟨hg, ih _ _ (IsTrans.trans _ _ _ hs₁
      (IsTrans.trans _ _ _ (henv hs.env) (hstep hs.inv hg))) hk⟩

/-! ### Pools -/

/-- Every process of the pool is steady. -/
structure Holds (D : Discipline M) (Q : ι → Except ε α → L → σ → Prop)
    (p : Pool S ε α ι L σ) : Prop where
  inv : D.inv p.shared
  own : ∀ i, D.own i (p.loc i) p.shared
  steady : ∀ i, D.Steady i (Q i) (p.prog i) (p.loc i) p.shared

namespace Holds

variable {Q : ι → Except ε α → L → σ → Prop} {p : Pool S ε α ι L σ}

theorem later (h : D.Holds Q p) (i : ι) : D.Later i (p.loc i) p.shared p.shared :=
  .refl h.inv (h.own i)

/-- The next operation of a process meets its commitment. -/
theorem guar (h : D.Holds Q p) {i : ι} {o : S.Op} {k : S.Res o → Prog S ε α}
    (hp : p.prog i = .op o k) : D.guar i o (p.loc i) p.shared := by
  have := h.steady i
  rw [hp] at this
  exact (this _ (h.later i)).1

theorem ok (h : D.Holds Q p) {i : ι} {a : α} (hp : p.prog i = .pure a) :
    Q i (.ok a) (p.loc i) p.shared := by
  have := h.steady i
  rw [hp] at this
  exact this _ (h.later i)

theorem error (h : D.Holds Q p) {i : ι} {e : ε} (hp : p.prog i = .raise e) :
    Q i (.error e) (p.loc i) p.shared := by
  have := h.steady i
  rw [hp] at this
  exact this _ (h.later i)

variable [DecidableEq ι]

/-- One step of one process. -/
theorem advance (h : D.Holds Q p) (i : ι) : D.Holds Q (p.advance M i) := by
  obtain hp | ⟨o, k, ho, hp⟩ := p.advance_cases M i
  · rw [hp]
    exact h
  · have hst := h.steady i
    rw [ho] at hst
    obtain ⟨hg, hk⟩ := hst _ (h.later i)
    have hinv := D.inv_step h.inv (h.own i) hg
    -- the other processes see a step of their environment
    have hother : ∀ j, j ≠ i → D.Later j (p.loc j) p.shared (M.perform i o (p.loc i) p.shared).2.2 := by
      intro j hj
      have henv := D.env_step hj h.inv (h.own i) hg
      exact ⟨henv, hinv, D.own_env h.inv hinv (h.own j) henv⟩
    rw [hp]
    refine ⟨hinv, fun j => ?_, fun j => ?_⟩
    · by_cases hj : j = i
      · subst hj
        simpa only [Function.update_self] using D.own_step h.inv (h.own j) hg
      · simpa only [Function.update_of_ne hj] using (hother j hj).own
    · by_cases hj : j = i
      · subst hj
        simpa only [Function.update_self] using hk
      · simpa only [Function.update_of_ne hj] using (h.steady j).later (hother j hj)

/-- **A pool of steady programs stays one under every schedule.** -/
theorem run (h : D.Holds Q p) (schedule : List ι) : D.Holds Q (p.run M schedule) := by
  induction schedule generalizing p with
  | nil => exact h
  | cons i is ih => exact ih (h.advance i)

/-- What every operation that meets its commitment does along a reflexive and transitive relation,
every schedule does. -/
theorem run_rel {R : σ → σ → Prop} [Std.Refl R] [IsTrans σ R]
    (hstep : ∀ {i o t s}, D.inv s → D.guar i o t s → R s (M.perform i o t s).2.2)
    (h : D.Holds Q p) (schedule : List ι) : R p.shared (p.run M schedule).shared := by
  induction schedule generalizing p with
  | nil => exact Std.Refl.refl _
  | cons i is ih =>
    refine IsTrans.trans _ _ _ ?_ (ih (h.advance i))
    obtain hp | ⟨o, k, ho, hp⟩ := p.advance_cases M i
    · rw [hp]
      exact Std.Refl.refl _
    · rw [hp]
      exact hstep h.inv (h.guar ho)

end Holds

end Discipline

end Effect
