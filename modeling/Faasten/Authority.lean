import Mathlib
import Faasten.DcLabels
import Faasten.System

/-!
# No privilege is forged

Privilege enters the system when a user logs in, and with the gates and services of the initial
store. From there it moves: into tokens by delegation, into gates and services when they are created
or updated, into messages when a gate is invoked, as the conjunction of the privileges along its
redirects, and into the thread that takes up the task.

`Within A w` says that the component `A` implies every privilege in the world `w`. Operations keep
it as long as the thread takes on no privilege beyond `A` (`Permits.within`). The authority of a run
is the conjunction of the users authenticated so far and of the privileges of the initial store;
`no_privilege_forged` is the invariant over all runs.
-/

namespace Faasten

open Std Effect

/-- The privilege of the gate or service that is stored. -/
def Stored.privilege? : Stored → Option Component
  | .reserved => none
  | .object o => o.privilege?

/-- The privileges of the gates and services of a store. -/
def Store.privileges (s : Store) : List Component :=
  (List.range (2 ^ 64)).filterMap fun n => (s (.ofNat n)).bind (·.privilege?)

theorem Store.mem_privileges {s : Store} {u : Uid} {o : Object} {q : Component}
    (hu : s u = some (.object o)) (hq : o.privilege? = some q) : q ∈ s.privileges := by
  refine List.mem_filterMap.2 ⟨u.toNat, List.mem_range.2 u.toNat_lt, ?_⟩
  rw [UInt64.ofNat_toNat, hu]
  exact hq

section Authority

variable [LabelCrate]

/-- The conjunction of a list of components. -/
def conj : List Component → Component
  | [] => .dcTrue
  | c :: cs => LabelCrate.and c (conj cs)

theorem conj_implies [LawfulConj] {c : Component} {cs : List Component} (h : c ∈ cs) :
    implies (conj cs) c := by
  induction h with
  | head cs => exact LawfulConj.and_implies_left _ _
  | tail d _ ih => exact LawfulConj.implies_trans (LawfulConj.and_implies_right _ _) ih

/-- A longer conjunction is a stronger one. -/
theorem conj_append_implies [LawfulConj] (ds cs : List Component) :
    implies (conj (ds ++ cs)) (conj cs) := by
  induction ds with
  | nil => exact LawfulConj.implies_refl _
  | cons d ds ih => exact LawfulConj.implies_trans (LawfulConj.and_implies_right _ _) ih

/-- Every privilege in the world is implied by `A`. -/
structure Within (A : Component) (w : World) : Prop where
  thread : implies A w.privilege
  stored : ∀ u o q, w.store u = some (.object o) → o.privilege? = some q → implies A q
  sent : ∀ m ∈ w.invokes, ∀ q, m.gatePrivilege.bind (·.into) = some q → implies A q

variable [LawfulConj] {A B : Component} {P : Policy} {w : World} {op : Op}

theorem Within.mono (h : Within A w) (hAB : implies B A) : Within B w where
  thread := LawfulConj.implies_trans hAB h.thread
  stored u o q hu hq := LawfulConj.implies_trans hAB (h.stored u o q hu hq)
  sent m hm q hq := LawfulConj.implies_trans hAB (h.sent m hm q hq)

/-- What is gathered from privileges that `A` implies is implied by `A`. -/
theorem Gathered.within {S : Component → Prop} (hS : ∀ q, S q → implies A q) {q : Component}
    (h : Gathered S q) : implies A q := by
  induction h with
  | start => exact LawfulConj.implies_true _
  | and ha hq ih => exact LawfulConj.implies_and ih (hS _ hq)

omit [LawfulConj] in
theorem Within.put (h : Within A w) {u : Uid} {v : Stored}
    (hv : ∀ q, v.privilege? = some q → implies A q) :
    Within A { w with store := w.store.put u v } where
  thread := h.thread
  stored x o q hx hq := by
    rcases Store.of_put hx with ⟨rfl, rfl⟩ | hx
    · exact hv q hq
    · exact h.stored x o q hx hq
  sent := h.sent

theorem Stores.within {u : Uid} {o : Object} (ho : Stores P w u o) (h : Within A w) :
    Within A { w with store := w.store.put u (.object o) } :=
  h.put fun q hq => LawfulConj.implies_trans h.thread (ho.delegated q hq)

/-- One operation keeps the privileges within `A`, if the policy lets the thread take on none beyond
`A`. -/
theorem Permits.within (hP : ∀ q, P.assumes q → implies A q)
    (hinv : ∀ w m, P.invokes w m → Invocation w m) (h : Permits P w op) (hw : Within A w) :
    Within A (perform op w).2 := by
  cases op with
  | setThread t =>
    refine ⟨?_, hw.stored, hw.sent⟩
    rcases h.privilege with hp | hp
    · exact hp ▸ hw.thread
    · exact hP _ hp
  | put u v =>
    obtain ⟨o, rfl, ho⟩ := h
    exact ho.within hw
  | add u v =>
    rw [perform_add]
    split_ifs
    · cases h
      exact hw.put nofun
    · exact hw
  | cas u e v =>
    rw [perform_cas]
    split_ifs with hst
    · obtain ⟨o, rfl, ho⟩ := h hst
      exact ho.within hw
    · exact hw
  | schedWrite m =>
    rw [perform_schedWrite]
    split_ifs
    · refine ⟨hw.thread, hw.stored, fun m' hm' q hq => ?_⟩
      rcases List.mem_append.1 hm' with hm' | hm'
      · exact hw.sent m' hm' q hq
      · obtain rfl := List.mem_singleton.1 hm'
        obtain ⟨q', hq', hg⟩ := (hinv w _ h).privilege
        rw [hq', Option.bind_some, Pb.into_ofComponent] at hq
        cases hq
        refine hg.within ?_
        rintro q ⟨u, g, hu, rfl⟩
        exact hw.stored u _ _ hu rfl
    · exact hw
  | _ => exact ⟨hw.thread, hw.stored, hw.sent⟩

/-- The same, seen from another thread. -/
theorem Permits.within_other (hP : ∀ q, P.assumes q → implies A q)
    (hinv : ∀ w m, P.invokes w m → Invocation w m) {t : Thread} (h : Permits P w op)
    (hw : Within A w) (ht : Within A (w.withThread t)) : Within A ((perform op w).2.withThread t) :=
  ⟨ht.thread, (h.within hP hinv hw).stored, (h.within hP hinv hw).sent⟩

namespace Sys

/-- The first state: nobody has logged in, and no thread has a privilege. The store is any. -/
structure Initial (s : Sys) : Prop where
  tokens : s.tokens = []
  authenticated : s.authenticated = []
  invokes : s.world.invokes = []
  privilege : ∀ i, (s.threads i).privilege = .dcTrue

/-- What authority there is: the users authenticated so far, and what the store began with. -/
def authority (s₀ s : Sys) : Component := conj (s.authenticated ++ s₀.world.store.privileges)

/-- Every privilege of the system is implied by `A`. -/
structure Covered (A : Component) (s : Sys) : Prop where
  views : ∀ i, Within A (s.view i)
  tokens : ∀ c ∈ s.tokens, implies A c

/-- An enabled event takes on only privilege that the authority after it implies. -/
theorem Acts.within {s : Sys} {i : ℕ} {e : Event} {P : Policy} (hA : s.Acts i e P)
    (he : e.Enabled s) (hs : Covered A s) (hlogin : ∀ c ∈ authenticates e, implies A c) :
    (∀ q, P.assumes q → implies A q) ∧ ∀ w m, P.invokes w m → Invocation w m := by
  have hstart : ∀ {p : Component}, implies A p → P = startPolicy p →
      (∀ q, P.assumes q → implies A q) ∧ ∀ w m, P.invokes w m → Invocation w m := by
    rintro p hp rfl
    refine ⟨?_, fun _ _ => id⟩
    rintro q (rfl | rfl)
    · exact hp
    · exact LawfulConj.implies_true _
  cases e with
  | login n user => exact hstart (hlogin _ (List.mem_singleton.2 rfl)) hA
  | delegate n login request =>
    obtain ⟨q, rfl, rfl | ⟨-, hq⟩⟩ := hA
    · exact hstart (LawfulConj.implies_true _) rfl
    · exact hstart (LawfulConj.implies_trans (hs.tokens _ he) hq) rfl
  | invoke n login gatePath label blobs payload headers =>
    refine hstart ?_ hA
    cases login with
    | none => exact LawfulConj.implies_true _
    | some c => exact hs.tokens c (he c rfl)
  | task m =>
    obtain ⟨q, rfl, rfl | hq⟩ := hA
    · exact hstart (LawfulConj.implies_true _) rfl
    · exact hstart ((hs.views i).sent m he q hq) rfl
  | syscall n sc =>
    cases hA
    exact ⟨fun _ => False.elim, fun _ _ => id⟩

/-- The subject of a token that is issued is within the authority. -/
theorem issued_within {s : Sys} {i : ℕ} {e : Event} (he : e.Enabled s) (hs : Covered A s)
    (hlogin : ∀ c ∈ authenticates e, implies A c) {c : Component}
    (hc : c ∈ issued (exec (program e) (s.view i)).1) : implies A c := by
  rcases hx : exec (program e) (s.view i) with ⟨_ | _ | c', w'⟩
  · rw [hx] at hc; cases hc
  · rw [hx] at hc; cases hc
  · rw [hx] at hc
    obtain rfl := List.mem_singleton.1 hc
    cases e with
    | login n user =>
      obtain ⟨sub, w₁, h₁, h₂⟩ := exec_bind_eq_ok hx
      obtain ⟨_, w₂, -, h₃⟩ := exec_bind_eq_ok h₁
      cases h₃; cases h₂
      exact hlogin _ (List.mem_singleton.2 rfl)
    | delegate n login request =>
      exact LawfulConj.implies_trans (hs.tokens _ he) (delegate_ok hx).2
    | invoke | task | syscall =>
      obtain ⟨_, w₁, -, h₂⟩ := exec_bind_eq_ok hx
      cases h₂

/-- One step keeps everything within an authority that covers the user it logs in. -/
theorem covered_step {s : Sys} {i : ℕ} {e : Event} (he : e.Enabled s) (hs : Covered A s)
    (hlogin : ∀ c ∈ authenticates e, implies A c) : Covered A (s.step i e) := by
  obtain ⟨P, hA, hP⟩ := step_obeys s i e
  obtain ⟨hass, hinv⟩ := Acts.within hA he hs hlogin
  refine ⟨invariant_step hP (fun w op hp hw => hp.within hass hinv hw)
    (fun w op t hp hw ht => hp.within_other hass hinv hw ht) hs.views, fun c hc => ?_⟩
  rcases List.mem_append.1 hc with hc | hc
  · exact issued_within he hs hlogin hc
  · exact hs.tokens c hc

theorem Covered.mono {s : Sys} (hs : Covered A s) (h : implies B A) : Covered B s :=
  ⟨fun i => (hs.views i).mono h, fun c hc => LawfulConj.implies_trans h (hs.tokens c hc)⟩

/-- **No privilege is forged.** In every state that the system can reach, by any interleaving of
logins, delegations, invocations, tasks and syscalls of any threads, every privilege is implied by
the conjunction of the users authenticated so far and the privileges of the initial store: the
privilege each thread acts with, that of each stored gate and service, that which each message asks
a worker to install, and the subject of each token. -/
theorem no_privilege_forged {s₀ s : Sys} (h₀ : s₀.Initial) (h : Run (fun _ _ _ => True) s₀ s) :
    (∀ i, implies (authority s₀ s) (s.threads i).privilege) ∧
    (∀ u o q, s.world.store u = some (.object o) → o.privilege? = some q →
      implies (authority s₀ s) q) ∧
    (∀ m ∈ s.world.invokes, ∀ q, m.gatePrivilege.bind (·.into) = some q →
      implies (authority s₀ s) q) ∧
    ∀ c ∈ s.tokens, implies (authority s₀ s) c := by
  have hcov : Covered (authority s₀ s) s := by
    induction h with
    | start =>
      refine ⟨fun i => ⟨?_, fun u o q hu hq => ?_, ?_⟩, ?_⟩
      · exact (h₀.privilege i).symm ▸ LawfulConj.implies_true _
      · exact conj_implies (List.mem_append_right _ (Store.mem_privileges hu hq))
      · rintro m hm
        simp [view, World.withThread, h₀.invokes] at hm
      · rintro c hc
        simp [h₀.tokens] at hc
    | @step s h i e he _ ih =>
      have hup : implies (authority s₀ (s.step i e)) (authority s₀ s) := by
        unfold authority
        rw [step, List.append_assoc]
        exact conj_append_implies _ _
      exact covered_step he (ih.mono hup) fun c hc =>
        conj_implies (List.mem_append_left _ (List.mem_append_left _ hc))
  exact ⟨fun i => (hcov.views i).thread, (hcov.views 0).stored, (hcov.views 0).sent, hcov.tokens⟩

end Sys

end Authority

namespace FirstLogin

open scoped Dc

/-- A system on an initialized store that nobody has logged in to. -/
def system : Sys where
  world := .quiet (.idle publicLabel) (Store.empty.put FS.rootRef (.encode FS.emptyRoot))
  threads _ := .idle publicLabel

/-- The system after `alice` has logged in. -/
def loggedIn : Sys := system.step 0 (.login 1 "alice")

/-- The token that `alice` gets is within the authority that her login brings. -/
theorem token_within_authority :
    loggedIn.tokens = [.single ["princeton.edu", "alice"]] ∧
      ∀ c ∈ loggedIn.tokens, implies (Sys.authority system loggedIn) c := by
  have hinit : system.Initial := ⟨rfl, rfl, rfl, fun _ => rfl⟩
  exact ⟨by decide, (Sys.no_privilege_forged hinit
    (.step .start 0 (.login 1 "alice") trivial trivial)).2.2.2⟩

end FirstLogin

end Faasten
