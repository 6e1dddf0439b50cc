import Mathlib
import Faasten.Authority

/-!
# The invoker that a guest is told of

`run` tells the guest who invoked it by a list of principals, the first of each clause of the
invoker's privilege. That is right for a conjunction of single principals (`Component.Simple`), and
the source says that every privilege should be one. Nothing checks it: `delegate`, and the creation
of gates and services, only ask that the new privilege is implied by one that is held, and a
principal implies every disjunction it is part of.

`reported_invokers_genuine` is the invariant over the runs in which every privilege that is asked
for, and granted, is simple. `Disjunction.reported_as_alice` is a run in which one is not.
-/

namespace Faasten

open Std Effect SyscallProcessor

/-- A conjunction of single principals. -/
def Component.Simple : Component → Prop
  | .dcFalse => False
  | .dcFormula cs => ∀ c ∈ cs, ∃ p, c = .newFromVec [p]

theorem Component.simple_dcTrue : Component.dcTrue.Simple := fun c hc => by simp at hc

theorem Component.simple_single (p : Principal) : (Component.single p).Simple := by
  intro c hc
  rw [ExtTreeSet.mem_ofList, List.contains_iff_mem, List.mem_singleton] at hc
  exact ⟨p, hc⟩

theorem toList_newFromVec_singleton (p : Principal) :
    (Clause.newFromVec [p]).principals.toList = [p] := rfl

/-! ### Building the list -/

section Report

variable [LabelCrate]

theorem Component.Simple.and [LawfulFormula] {a b : Component} (ha : a.Simple) (hb : b.Simple) :
    (LabelCrate.and a b).Simple := by
  cases a with
  | dcFalse => exact ha.elim
  | dcFormula cs =>
    cases b with
    | dcFalse => exact hb.elim
    | dcFormula ds =>
      obtain ⟨es, he, hmem⟩ := LawfulFormula.and_formula cs ds
      rw [he]
      intro c hc
      exact (hmem c hc).elim (ha c) (hb c)

theorem Gathered.simple [LawfulFormula] {S : Component → Prop} (hS : ∀ q, S q → q.Simple)
    {q : Component} (h : Gathered S q) : q.Simple := by
  induction h with
  | start => exact Component.simple_dcTrue
  | and _ hq ih => exact ih.and (hS _ hq)

omit [LabelCrate] in
theorem exec_firstPrincipals {cs : List Clause} (hcs : ∀ c ∈ cs, ∃ p, c = .newFromVec [p])
    (w : World) :
    ∃ ps, exec (firstPrincipals cs) w = (.ok ps, w) ∧ ∀ p ∈ ps, .newFromVec [p] ∈ cs := by
  induction cs with
  | nil => exact ⟨[], rfl, nofun⟩
  | cons c cs ih =>
    obtain ⟨ps, hps, hmem⟩ := ih fun c hc => hcs c (List.mem_cons_of_mem _ hc)
    obtain ⟨p, rfl⟩ := hcs c List.mem_cons_self
    refine ⟨p :: ps, ?_, ?_⟩
    · unfold firstPrincipals
      rw [toList_newFromVec_singleton, List.head?_cons, exec_bind_ok (exec_unwrap_some p w),
        exec_bind_ok hps]
      rfl
    · rintro p' hp'
      rcases List.mem_cons.1 hp' with rfl | hp'
      · exact List.mem_cons_self
      · exact List.mem_cons_of_mem _ (hmem p' hp')

/-- For a simple privilege the list is built, and names only principals that the privilege
implies. -/
theorem exec_invokerPrincipalList [LawfulFormula] {c : Component} (hc : c.Simple) (w : World) :
    ∃ ps, exec (invokerPrincipalList c) w = (.ok ps, w) ∧ ∀ p ∈ ps, implies c (.single p) := by
  cases c with
  | dcFalse => exact hc.elim
  | dcFormula cs =>
    have hcs : ∀ c ∈ cs.toList, ∃ p, c = .newFromVec [p] :=
      fun c h => hc c (ExtTreeSet.mem_toList.1 h)
    obtain ⟨ps, hps, hmem⟩ := exec_firstPrincipals hcs w
    exact ⟨ps, hps, fun p hp => LawfulFormula.implies_clause (ExtTreeSet.mem_toList.1 (hmem p hp))⟩

omit [LabelCrate] in
theorem exec_insertBlobs (bs : List (String × OpenBlob)) (w : World) :
    ∃ fds w', exec (insertBlobs bs) w = (.ok fds, w') := by
  induction bs generalizing w with
  | nil => exact ⟨[], w, rfl⟩
  | cons b bs ih =>
    obtain ⟨k, b⟩ := b
    obtain ⟨fds, w', h⟩ := ih
      { w with toThread := w.toThread.nextBlob.putBlob w.maxBlobId b }
    refine ⟨(k, w.maxBlobId) :: fds, w', ?_⟩
    unfold insertBlobs
    rw [exec_bind_ok (exec_newBlobId w), exec_bind_ok (exec_amend _ _), exec_bind_ok h]
    rfl

theorem exec_request [LawfulFormula] {c : Component} (hc : c.Simple) (payload : Bytes)
    (blobs : List (String × OpenBlob)) (headers : ExtTreeMap String String compare) (w : World) :
    ∃ r w', exec (request payload blobs headers c) w = (.ok r, w') ∧
      ∀ p ∈ r.invoker, implies c (.single p) := by
  obtain ⟨fds, w', hb⟩ := exec_insertBlobs blobs w
  obtain ⟨ps, hps, hmem⟩ := exec_invokerPrincipalList hc w'
  refine ⟨⟨payload, fds, headers, ps⟩, w', ?_, hmem⟩
  unfold request
  rw [exec_bind_ok hb, exec_bind_ok hps]
  rfl

/-! ### The invariant -/

/-- Every privilege in the world is simple. -/
structure Plain (w : World) : Prop where
  thread : w.privilege.Simple
  stored : ∀ u o q, w.store u = some (.object o) → o.privilege? = some q → q.Simple
  sent : ∀ m ∈ w.invokes, (∀ q, m.gatePrivilege.bind (·.into) = some q → q.Simple) ∧
    ∃ c, m.invoker.bind (·.into) = some c ∧ c.Simple

variable {P : Policy} {w : World} {op : Op}

omit [LabelCrate] in
theorem Plain.put (h : Plain w) {u : Uid} {v : Stored}
    (hv : ∀ q, v.privilege? = some q → q.Simple) : Plain { w with store := w.store.put u v } where
  thread := h.thread
  stored x o q hx hq := by
    rcases Store.of_put hx with ⟨rfl, rfl⟩ | hx
    · exact hv q hq
    · exact h.stored x o q hx hq
  sent := h.sent

/-- One operation keeps the privileges simple, if the policy lets only simple ones be taken on and
stored. -/
theorem Permits.plain [LawfulFormula] (hass : ∀ q, P.assumes q → q.Simple)
    (hinv : ∀ w m, P.invokes w m → Invocation w m)
    (hst : ∀ u o, Stores P w u o → ∀ q, o.privilege? = some q → q.Simple)
    (h : Permits P w op) (hw : Plain w) : Plain (perform op w).2 := by
  cases op with
  | setThread t =>
    refine ⟨?_, hw.stored, hw.sent⟩
    rcases h.privilege with hp | hp
    · exact hp ▸ hw.thread
    · exact hass _ hp
  | put u v =>
    obtain ⟨o, rfl, ho⟩ := h
    exact hw.put (hst u o ho)
  | add u v =>
    rw [perform_add]
    split_ifs
    · cases h
      exact hw.put nofun
    · exact hw
  | cas u e v =>
    rw [perform_cas]
    split_ifs with hc
    · obtain ⟨o, rfl, ho⟩ := h hc
      exact hw.put (hst u o ho)
    · exact hw
  | schedWrite m =>
    rw [perform_schedWrite]
    split_ifs
    · refine ⟨hw.thread, hw.stored, fun m' hm' => ?_⟩
      rcases List.mem_append.1 hm' with hm' | hm'
      · exact hw.sent m' hm'
      · obtain rfl := List.mem_singleton.1 hm'
        have hm := hinv w _ h
        refine ⟨fun q hq => ?_, w.privilege, by simp [hm.invoker], hw.thread⟩
        obtain ⟨q', hq', hg⟩ := hm.privilege
        rw [hq', Option.bind_some, Pb.into_ofComponent] at hq
        cases hq
        refine hg.simple ?_
        rintro q ⟨u, g, hu, rfl⟩
        exact hw.stored u _ _ hu rfl
    · exact hw
  | _ => exact ⟨hw.thread, hw.stored, hw.sent⟩

/-- What a syscall stores is simple, if what it asks for and is granted is. -/
theorem Stores.simple {w₀ : World} {sc : Pb.Syscall}
    (hsc : ∀ q, sc.privilege? = some q → implies w₀.privilege q → q.Simple) (hw : Plain w)
    (hp : w.privilege = w₀.privilege) {u : Uid} {o : Object} (h : Stores (syscallPolicy w₀ sc) w u o)
    {q : Component} (hq : o.privilege? = some q) : q.Simple := by
  have hdel : implies w₀.privilege q := hp ▸ h.delegated q hq
  rcases h.place with ⟨-, hj⟩ | ⟨old, hold, -, hj⟩
  · rcases hj.privilege q hq with hn | hs
    · cases hn
    · exact hsc q hs hdel
  · rcases hj.privilege q hq with ho | hs
    · exact hw.stored u old q hold ho
    · exact hsc q hs hdel

namespace Sys

/-- The privilege that an event asks for, if it is granted, is simple. -/
def AsksSimple (s : Sys) (i : ℕ) : Event → Prop
  | .delegate _ login request =>
      ∀ q, App.parseSecrecy request.component = some q → implies login q → q.Simple
  | .syscall _ sc => ∀ q, sc.privilege? = some q → implies (s.view i).privilege q → q.Simple
  | _ => True

/-- Every privilege of the system is simple. -/
structure AllPlain (s : Sys) : Prop where
  views : ∀ i, Plain (s.view i)
  tokens : ∀ c ∈ s.tokens, c.Simple

/-- A program that acts with a simple privilege keeps everything plain. -/
theorem plain_start [LawfulFormula] {s : Sys} {i : ℕ} {e : Event} {p : Component}
    (hP : Obeys (startPolicy p) (s.view i) (program e)) (hp : p.Simple)
    (h : ∀ j, Plain (s.view j)) (j : ℕ) : Plain ((s.step i e).view j) := by
  have hass : ∀ q, (startPolicy p).assumes q → q.Simple := by
    rintro q (rfl | rfl)
    · exact hp
    · exact Component.simple_dcTrue
  have hst : ∀ w u o, Stores (startPolicy p) w u o → ∀ q, o.privilege? = some q → q.Simple := by
    intro w u o ho q hq
    rcases ho.place with ⟨-, hj⟩ | ⟨old, -, -, hj⟩
    · exact hj.2.1 q hq ▸ hp
    · exact hj.2.1 q hq ▸ hp
  refine invariant_step hP (fun w op hop hw => hop.plain hass (fun _ _ => id) (hst w) hw)
    (fun w op t hop hw ht => ?_) h j
  have hw' := hop.plain hass (fun _ _ => id) (hst w) hw
  exact ⟨ht.thread, hw'.stored, hw'.sent⟩

/-- A syscall that asks only for simple privileges keeps everything plain. -/
theorem plain_syscall [LawfulFormula] {s : Sys} {i n : ℕ} {sc : Pb.Syscall}
    (hok : s.AsksSimple i (.syscall n sc)) (h : ∀ j, Plain (s.view j)) (j : ℕ) :
    Plain ((s.step i (.syscall n sc)).view j) := by
  have hP : Obeys (syscallPolicy (s.view i) sc) (s.view i) (program (.syscall n sc)) :=
    (obeys_doSyscall n sc).bind fun _ _ _ => .pure _
  -- the privilege of the thread stays what it was when the syscall was made
  have hG := Handler.Always.and_invariant
    (I := fun w : World => w.privilege = (s.view i).privilege)
    (fun w op hp hw => (Permits.privilege_eq (fun _ => id) hp).trans hw) hP rfl
  have hstep : ∀ w op, w.privilege = (s.view i).privilege ∧
      Permits (syscallPolicy (s.view i) sc) w op → Plain w → Plain (perform op w).2 :=
    fun w op hop hw => hop.2.plain (fun _ => False.elim) (fun _ _ => id)
      (fun u o ho q hq => ho.simple hok hw hop.1 hq) hw
  refine invariant_step hG hstep (fun w op t hop hw ht => ?_) h j
  exact ⟨ht.thread, (hstep w op hop hw).stored, (hstep w op hop hw).sent⟩

/-- The subject of a token that is issued is simple. -/
theorem issued_simple {s : Sys} {i : ℕ} {e : Event} (hok : s.AsksSimple i e) {c : Component}
    (hc : c ∈ issued (exec (program e) (s.view i)).1) : c.Simple := by
  rcases hx : exec (program e) (s.view i) with ⟨_ | _ | c', w'⟩
  · rw [hx] at hc; cases hc
  · rw [hx] at hc; cases hc
  · rw [hx] at hc
    obtain rfl := List.mem_singleton.1 hc
    cases e with
    | login n user =>
      obtain ⟨sub, w₁, h₁, h₂⟩ := exec_bind_eq_ok hx
      obtain ⟨_, w₂, -, h₃⟩ := exec_bind_eq_ok h₁
      cases h₃; cases h₂
      exact Component.simple_single _
    | delegate n login request => exact hok _ (delegate_ok hx).1 (delegate_ok hx).2
    | invoke | task | syscall =>
      obtain ⟨_, w₁, -, h₂⟩ := exec_bind_eq_ok hx
      cases h₂

theorem allPlain_step [LawfulFormula] {s : Sys} {i : ℕ} {e : Event} (he : e.Enabled s)
    (hok : s.AsksSimple i e) (hs : AllPlain s) : AllPlain (s.step i e) := by
  refine ⟨fun j => ?_, fun c hc => ?_⟩
  · obtain ⟨P, hA, hP⟩ := step_obeys s i e
    cases e with
    | login n user =>
      cases hA
      exact plain_start hP (Component.simple_single _) hs.views j
    | delegate n login request =>
      obtain ⟨q, rfl, rfl | ⟨hq, hi⟩⟩ := hA
      · exact plain_start hP Component.simple_dcTrue hs.views j
      · exact plain_start hP (hok q hq hi) hs.views j
    | invoke n login gatePath label blobs payload headers =>
      cases hA
      refine plain_start hP ?_ hs.views j
      cases login with
      | none => exact Component.simple_dcTrue
      | some c => exact hs.tokens c (he c rfl)
    | task m =>
      obtain ⟨q, rfl, rfl | hq⟩ := hA
      · exact plain_start hP Component.simple_dcTrue hs.views j
      · exact plain_start hP (((hs.views i).sent m he).1 q hq) hs.views j
    | syscall n sc => exact plain_syscall hok hs.views j
  · rcases List.mem_append.1 hc with hc | hc
    · exact issued_simple hok hc
    · exact hs.tokens c hc

/-- Privileges stay simple in a run that asks only for simple ones. -/
theorem allPlain_of_run [LawfulFormula] {s₀ s : Sys} (h₀ : s₀.Initial)
    (hstore : ∀ u o q, s₀.world.store u = some (.object o) → o.privilege? = some q → q.Simple)
    (h : Run AsksSimple s₀ s) : AllPlain s := by
  induction h with
  | start =>
    refine ⟨fun i => ⟨(h₀.privilege i).symm ▸ Component.simple_dcTrue, hstore, ?_⟩, ?_⟩
    · rintro m hm
      simp [view, World.withThread, h₀.invokes] at hm
    · rintro c hc
      simp [h₀.tokens] at hc
  | step _ i e he hok ih => exact allPlain_step he hok ih

/-- **Reported invokers are genuine** in every run where each privilege that is asked for and
granted, and each one of the initial store, is a conjunction of single principals. For every message
that was sent to the scheduler, the request to its guest is built without a panic, and every
principal that it reports is implied by the privilege of the invoker. -/
theorem reported_invokers_genuine [LawfulFormula] {s₀ s : Sys} (h₀ : s₀.Initial)
    (hstore : ∀ u o q, s₀.world.store u = some (.object o) → o.privilege? = some q → q.Simple)
    (h : Run AsksSimple s₀ s) {m : LabeledInvoke} (hm : m ∈ s.world.invokes) :
    ∃ c, m.invoker.bind (·.into) = some c ∧ ∀ payload blobs headers w, ∃ r w',
      exec (request payload blobs headers c) w = (.ok r, w') ∧
        ∀ p ∈ r.invoker, implies c (.single p) := by
  obtain ⟨-, c, hc, hsimple⟩ := ((allPlain_of_run h₀ hstore h).views 0).sent m hm
  exact ⟨c, hc, fun payload blobs headers w => exec_request hsimple payload blobs headers w⟩

end Sys

end Report

/-! ### A disjunction reported as one of its principals

`alice` logs in, has a token for `alice|bob` issued to whoever should act for either, and that token
is used to invoke a gate. The guest is told that `alice` invoked it. -/

namespace Disjunction

open scoped Dc

/-- A public directory with a gate that anyone may invoke. -/
def store : Store :=
  (Store.empty.put 0 (.encode
    (⟨publicLabel, ⟨.ofList [("g", DirEntry.gate 1)]⟩⟩ : Labeled Directory))).put
    1 (.encode (⟨publicLabel, .direct
      { privilege := .dcTrue, invokerIntegrityClearance := .dcTrue, declassify := .dcTrue
        function := { memory := 128, appImage := "a", runtimeImage := "r", kernel := "k" } }⟩ :
      Labeled Gate))

/-- Nobody has logged in. -/
def system : Sys where
  world := .quiet (.idle publicLabel) store
  threads _ := .idle publicLabel

/-- The principal of `alice`. -/
def alice : Principal := ["princeton.edu", "alice"]

/-- A privilege that `alice` and `bob` both imply. -/
def aliceOrBob : Component := .formula [.newFromVec [alice, ["princeton.edu", "bob"]]]

/-- `alice` has logged in. -/
def loggedIn : Sys := system.step 0 (.login 1 "alice")

/-- A token for `alice|bob` has been issued. -/
def delegated : Sys :=
  loggedIn.step 0 (.delegate 1 (.single alice)
    { component := "princeton.edu/alice|princeton.edu/bob", bootstrap := false, clearance := none })

/-- The gate has been invoked with that token. -/
def invoked : Sys := delegated.step 0 (.invoke 1 (some aliceOrBob) ":g" none ∅ [] ∅)

/-- The invoker that a worker reports to the guest of the first message. -/
def reported (s : Sys) : Option (List Principal) :=
  s.world.invokes.head?.bind fun m => (exec (processTask m) (s.view 1)).1.toOption.map (·.invoker)

theorem store_simple (u : Uid) (o : Object) (q : Component)
    (hu : system.world.store u = some (.object o)) (hq : o.privilege? = some q) : q.Simple := by
  rcases Store.of_put hu with ⟨rfl, h⟩ | hu
  · cases h; cases hq
    exact Component.simple_dcTrue
  · rcases Store.of_put hu with ⟨rfl, h⟩ | hu
    · cases h; cases hq
    · cases hu

/-- With her own token `alice` is reported, and rightly so. -/
theorem alice_reported_genuine :
    ∃ m ∈ (loggedIn.step 0 (.invoke 1 (some (.single alice)) ":g" none ∅ [] ∅)).world.invokes,
      ∃ c, m.invoker.bind (·.into) = some c ∧ ∀ payload blobs headers w, ∃ r w',
        exec (request payload blobs headers c) w = (.ok r, w') ∧
          ∀ p ∈ r.invoker, implies c (.single p) := by
  obtain ⟨m, hm⟩ := List.exists_mem_of_ne_nil
    (loggedIn.step 0 (.invoke 1 (some (.single alice)) ":g" none ∅ [] ∅)).world.invokes (by decide)
  have hinit : system.Initial := ⟨rfl, rfl, rfl, fun _ => rfl⟩
  refine ⟨m, hm, ?_⟩
  refine Sys.reported_invokers_genuine hinit store_simple (.step (.step .start 0
    (.login 1 "alice") trivial trivial) 0 (.invoke 1 (some (.single alice)) ":g" none ∅ [] ∅)
    (fun c hc => ?_) trivial) hm
  cases hc
  decide

/-- With the token for `alice|bob` it is `alice` who is reported, although the privilege of the
invoker does not imply her. -/
theorem reported_as_alice :
    Sys.Run (fun _ _ _ => True) system invoked ∧
      invoked.world.invokes.map (·.invoker.bind (·.into)) = [some aliceOrBob] ∧
      reported invoked = some [alice] ∧ ¬ implies aliceOrBob (.single alice) := by
  refine ⟨.step (.step (.step .start 0 (.login 1 "alice") trivial trivial) 0
    (.delegate 1 (.single alice) _) ?_ trivial) 0
    (.invoke 1 (some aliceOrBob) ":g" none ∅ [] ∅) ?_ trivial, by decide, by decide, by decide⟩
  · change Component.single alice ∈ loggedIn.tokens
    decide
  · rintro c ⟨⟩
    change aliceOrBob ∈ delegated.tokens
    decide

end Disjunction

end Faasten
