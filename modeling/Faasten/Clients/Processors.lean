import Mathlib
import Faasten.Clients.References

/-!
# Processors that share a store

`Safe` says of a program of a processor that it keeps to the discipline of `Integrity.discipline`,
whatever other processors do in the meantime, and what its result refers to; with a condition `ok` it
also says that the program does not panic when `ok` holds. This module has the rules for it, and what
it says of the operations on the thread and on the outside.
-/

namespace Faasten

open Std Effect

namespace Integrity

variable {ι α β : Type} {w₀ : World} {ok : Prop} {i : ι} {t : Thread} {s s' : Shared ι}

/-- How a program that started in `s` may end. -/
def Ends (ok : Prop) (s : Shared ι) (R : α → Shared ι → Prop) (r : Except Raised α)
    (s' : Shared ι) : Prop :=
  Grow s s' ∧ match r with
    | .ok a => R a s'
    | .error e => ok → e ≠ .panic

/-- The program keeps to the discipline, its result meets `R`, and if `ok` it does not panic. -/
def Safe (w₀ : World) (ok : Prop) (i : ι) (R : α → Shared ι → Prop) (m : M α) (t : Thread)
    (s : Shared ι) : Prop :=
  (discipline w₀).Steady i (fun r _ s' => Ends ok s R r s') m t s

/-! ### Rules -/

section Rules

variable {R R' : α → Shared ι → Prop}

theorem Later.grow (h : (discipline w₀).Later i t s s') : Grow s s' := Env.toGrow h.env

theorem Safe.pure {a : α} (h : ∀ s', Grow s s' → R a s') : Safe w₀ ok i R (pure a) t s :=
  Discipline.Steady.pure fun s' hs => ⟨Later.grow hs, h s' (Later.grow hs)⟩

theorem Safe.raise {e : Raised} (h : ok → e ≠ .panic) : Safe w₀ ok i R (.raise e : M α) t s :=
  Discipline.Steady.raise fun _ hs => ⟨Later.grow hs, h⟩

theorem Safe.throwFs {e : FsError} : Safe w₀ ok i R (throwFs e : M α) t s :=
  .raise fun _ h => by cases h

theorem Safe.mono {m : M α} (hm : Safe w₀ ok i R m t s)
    (h : ∀ a s', Grow s s' → R a s' → R' a s') : Safe w₀ ok i R' m t s := by
  refine Discipline.Steady.mono hm fun r _ s' _ _ hr => ⟨hr.1, ?_⟩
  cases r with
  | ok a => exact h a s' hr.1 hr.2
  | error e => exact hr.2

/-- A later start is as good. -/
theorem Safe.from_later {m : M α} (hs : Grow s s') (hm : Safe w₀ ok i R m t s') :
    (discipline w₀).Steady i (fun r _ s'' => Ends ok s R r s'') m t s' :=
  Discipline.Steady.mono hm fun _ _ _ _ _ hr => ⟨hs.trans hr.1, hr.2⟩

theorem Safe.bind {B : β → Shared ι → Prop} {m : M β} {f : β → M α} (hi : Inv w₀ s)
    (ht : Tables t s) (hm : Safe w₀ ok i B m t s)
    (hf : ∀ a t' s', Inv w₀ s' → Tables t' s' → Grow s s' → B a s' → Safe w₀ ok i R (f a) t' s') :
    Safe w₀ ok i R (m >>= f) t s := by
  refine Discipline.Steady.bind hi ht hm (fun a t' s' hi' ht' hB => ?_) fun e t' s' _ _ he => he
  exact (hf a t' s' hi' ht' hB.1 hB.2).from_later hB.1

/-- A program followed by a function on its result. -/
theorem Safe.map {B : β → Shared ι → Prop} {m : M β} (g : β → α) (hm : Safe w₀ ok i B m t s)
    (hg : ∀ b s', Grow s s' → B b s' → R (g b) s') :
    Safe w₀ ok i R (do return g (← m)) t s := by
  refine (Discipline.Steady.map g hm).mono fun r _ s' _ _ hr => ?_
  obtain ⟨r', rfl, hgrow, hr'⟩ := hr
  cases r' with
  | ok b => exact ⟨hgrow, hg b s' hgrow hr'⟩
  | error e => exact ⟨hgrow, hr'⟩

/-- The result of a fallible function as a value. -/
theorem Safe.result {m : M α} (hm : Safe w₀ ok i R m t s) :
    Safe w₀ ok i (fun r s' => ∀ a, r = .ok a → R a s') (result m) t s := by
  refine Discipline.Steady.attempt (Discipline.Steady.mono hm fun r _ s' _ _ hr => ⟨hr.1, ?_⟩)
  cases r with
  | ok a =>
    rintro _ ⟨⟩
    exact hr.2
  | error e =>
    cases e with
    | err e => exact fun a ha => by cases ha
    | panic => exact hr.2
    | diverge => exact hr.2

/-- A single operation. -/
theorem Safe.call {o : Op} {R : Op.Res o → Shared ι → Prop}
    (hg : ∀ s', Grow s s' → Inv w₀ s' → Tables t s' → Env i s s' → Guar i o s')
    (hR : ∀ s' s'', Grow s s' → Inv w₀ s' → Tables t s' → Grow s' s'' →
      Env i ((clients ι).perform i o t s').2.2 s'' → R ((clients ι).perform i o t s').1 s'') :
    Safe w₀ ok i R (.call (S := monitor) o : M (Op.Res o)) t s := by
  refine Discipline.Steady.call_bind (f := .pure) fun s₁ h₁ => ?_
  have hguar := hg s₁ (Later.grow h₁) h₁.inv h₁.own h₁.env
  refine ⟨hguar, Discipline.Steady.pure fun s₂ h₂ => ?_⟩
  have hgrow : Grow s₁ s₂ := (step h₁.inv hguar).2.1.trans (Later.grow h₂)
  exact ⟨(Later.grow h₁).trans hgrow, hR s₁ s₂ (Later.grow h₁) h₁.inv h₁.own hgrow h₂.env⟩

theorem Safe.unwrap {a : Option α} (hsome : ∀ b, a = some b → ∀ s', Grow s s' → R b s')
    (hnone : ok → a ≠ none) : Safe w₀ ok i R (unwrap a) t s := by
  cases a with
  | none => exact .raise fun h => absurd rfl (hnone h)
  | some b => exact .pure (hsome b rfl)

/-- A message field that is there, or else the message is not well formed. -/
theorem Safe.unwrap' {a : Option α} (h : ok → a ≠ none) :
    Safe w₀ ok i (fun b _ => a = some b) (Faasten.unwrap a) t s :=
  .unwrap (fun _ h _ _ => h) h

theorem Safe.ite {c : Prop} [Decidable c] {m n : M α} (hm : c → Safe w₀ ok i R m t s)
    (hn : ¬c → Safe w₀ ok i R n t s) : Safe w₀ ok i R (if c then m else n) t s := by
  split_ifs with h
  · exact hm h
  · exact hn h

/-- A program of whose result nothing is said. -/
theorem Safe.trivial {m : M α} (hm : Safe w₀ ok i R m t s) :
    Safe w₀ ok i (fun _ _ => True) m t s := hm.mono fun _ _ _ _ => True.intro

end Rules

/-! ### The thread and the outside -/

section Thread

theorem safe_thread : Safe w₀ ok i (fun r s => Tables r s) thread t s :=
  .call (fun _ _ _ _ _ => True.intro) fun _ _ _ _ ht hs _ => ht.grow hs

theorem safe_setThread {t' : Thread} (h : Tables t' s) :
    Safe w₀ ok i (fun _ _ => True) (setThread t') t s :=
  .call (fun _ hs _ _ _ => h.grow hs) fun _ _ _ _ _ _ _ => True.intro

theorem safe_inspect {f : Thread → α} (hi : Inv w₀ s) (ht : Tables t s) :
    Safe w₀ ok i (fun a s => ∃ r, Tables r s ∧ a = f r) (inspect f) t s :=
  .bind hi ht safe_thread fun r _ _ _ _ _ hr => .pure fun _ hs => ⟨r, hr.grow hs, rfl⟩

theorem safe_amend {f : Thread → Thread} (hi : Inv w₀ s) (ht : Tables t s)
    (hf : ∀ r s', Grow s s' → Tables r s' → Tables (f r) s') :
    Safe w₀ ok i (fun _ _ => True) (amend f) t s :=
  .bind hi ht safe_thread fun r _ s' _ _ hs hr => safe_setThread (hf r s' hs hr)

theorem safe_withCurrentLabel {m : Access Buckle α} {P : α → Prop} (hi : Inv w₀ s)
    (ht : Tables t s) (hm : ∀ l, ∃ b l', m.run l = some (b, l') ∧ P b) :
    Safe w₀ ok i (fun b _ => P b) (withCurrentLabel m) t s := by
  refine .bind hi ht safe_thread fun r t' s' hi' ht' _ hr => ?_
  obtain ⟨b, l, hb, hP⟩ := hm r.currentLabel
  rw [hb]
  exact .bind hi' ht' (safe_setThread ⟨hr.dents, hr.blobs⟩) fun _ _ _ _ _ _ _ => .pure fun _ _ => hP

theorem safe_getPrivilege (hi : Inv w₀ s) (ht : Tables t s) :
    Safe w₀ ok i (fun _ _ => True) getPrivilege t s := (safe_inspect hi ht).trivial

theorem safe_getCurrentLabel (hi : Inv w₀ s) (ht : Tables t s) :
    Safe w₀ ok i (fun _ _ => True) getCurrentLabel t s :=
  safe_withCurrentLabel hi ht fun _ => ⟨_, _, rfl, True.intro⟩

theorem safe_dent (hi : Inv w₀ s) (ht : Tables t s) (fd : ℕ) :
    Safe w₀ ok i (fun e s => ∀ x, e = some x → Refers s x) (dent fd) t s := by
  refine (safe_inspect hi ht).mono fun e s' _ he x hx => ?_
  obtain ⟨r, hr, rfl⟩ := he
  exact hr.dents fd x hx

theorem safe_newDent (hi : Inv w₀ s) (ht : Tables t s) {e : DirEntry} (he : Refers s e) :
    Safe w₀ ok i (fun _ _ => True) (newDent e) t s := by
  refine .bind hi ht (safe_inspect hi ht) fun n t₁ s₁ hi₁ ht₁ hs₁ _ => ?_
  refine .bind hi₁ ht₁ (safe_amend hi₁ ht₁ fun r s' hs hr => ⟨fun fd x hx => ?_, hr.blobs⟩)
    fun _ _ _ _ _ _ _ => .pure fun _ _ => True.intro
  by_cases hfd : fd = r.maxDentId
  · subst hfd
    simp only [Thread.addDent_dents, Function.update_self, Option.some.injEq] at hx
    exact hx ▸ (hs₁.trans hs).refers e he
  · rw [Thread.addDent_dents, Function.update_of_ne hfd] at hx
    exact hr.dents fd x hx

theorem safe_newBlobId (hi : Inv w₀ s) (ht : Tables t s) :
    Safe w₀ ok i (fun _ _ => True) newBlobId t s :=
  .bind hi ht (safe_inspect hi ht) fun _ _ _ hi₁ ht₁ _ _ =>
    .bind hi₁ ht₁ (safe_amend hi₁ ht₁ fun _ _ _ hr => ⟨hr.dents, hr.blobs⟩)
      fun _ _ _ _ _ _ _ => .pure fun _ _ => True.intro

theorem Tables.putBlob (h : Tables t s) {fd : ℕ} {b : OpenBlob}
    (hb : Saved s.world.blobstore b.name) : Tables (t.putBlob fd b) s := by
  refine ⟨h.dents, fun fd' b' hb' => ?_⟩
  by_cases hfd : fd' = fd
  · subst hfd
    simp only [Thread.putBlob_blobs, Function.update_self, Option.some.injEq] at hb'
    exact hb' ▸ hb
  · rw [Thread.putBlob_blobs, Function.update_of_ne hfd] at hb'
    exact h.blobs fd' b' hb'

theorem safe_putBlob (hi : Inv w₀ s) (ht : Tables t s) {fd : ℕ} {b : OpenBlob}
    (hb : Saved s.world.blobstore b.name) :
    Safe w₀ ok i (fun _ _ => True) (amend (·.putBlob fd b)) t s :=
  safe_amend hi ht fun _ _ hs hr => hr.putBlob (hs.saved _ hb)

/-- File operations of the host succeed. -/
def Files (w : World) : Prop := ∀ k, ∃ n, w.io.get k = .ok (n + 1)

theorem safe_nextIo : Safe (ι := ι) w₀ ok i (fun r _ => Files w₀ → ∃ n, r = .ok (n + 1)) nextIo t s :=
  .call (fun _ _ _ _ _ => True.intro) fun _ _ _ hi _ _ _ hw => hi.files hw 0

theorem safe_host : Safe (ι := ι) w₀ ok i (fun r _ => r = w₀.host) host t s :=
  .call (fun _ _ _ _ _ => True.intro) fun _ _ _ hi _ _ _ => hi.host

theorem safe_schedConn : Safe (ι := ι) w₀ ok i (fun r _ => r = w₀.schedConn) schedConn t s :=
  .call (fun _ _ _ _ _ => True.intro) fun _ _ _ hi _ _ _ => hi.conn

theorem safe_schedWrite (m : LabeledInvoke) :
    Safe (ι := ι) w₀ ok i (fun _ _ => True) (schedWrite m) t s :=
  .call (fun _ _ _ _ _ => True.intro) fun _ _ _ _ _ _ _ => True.intro

theorem safe_schedRead :
    Safe (ι := ι) w₀ ok i (fun r _ => ∃ ms, r = w₀.host.schedRead ms) schedRead t s :=
  .call (fun _ _ _ _ _ => True.intro) fun s' _ _ hi _ _ _ =>
    ⟨s'.world.invokes, congrArg (fun h => Host.schedRead h s'.world.invokes) hi.host⟩

theorem safe_httpRequest (q : HttpRequest) :
    Safe (ι := ι) w₀ ok i (fun r _ => ∃ qs, r = w₀.host.http qs) (httpRequest q) t s :=
  .call (fun _ _ _ _ _ => True.intro) fun _ _ _ hi _ _ _ =>
    ⟨_, congrArg (fun h => Host.http h _) hi.host⟩

end Thread

end Integrity

end Faasten
