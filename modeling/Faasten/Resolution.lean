import Mathlib
import Faasten.DcLabels
import Faasten.Gateway
import Faasten.Monitor.Syscalls

/-!
# What a chain of redirects grants

A chain leads from a gate, redirect by redirect, to a direct gate. `to_invokable` gathers what the gates
of the chain grant and ask for, and taints the thread with each of their labels.

* `exec_toInvokable` is the induction along the chain;
* `exec_dentInvoke_chain` and `exec_prepareLabeledInvoke_chain` say what the two callers make of it: both
  refuse when some clearance on the chain is not implied, and otherwise send the same message;
* `chain_accumulated` puts this together;
* `declassify_survives_iff`: of the declassification rights, the direct gate's own are left out.
-/

namespace Faasten

open Std Effect SyscallProcessor

/-- The clearance a gate asks for. -/
def Gate.invokerIntegrityClearance : Gate → Component
  | .direct g => g.invokerIntegrityClearance
  | .redirect g => g.invokerIntegrityClearance

/-- What a gate may declassify. -/
def Gate.declassify : Gate → Component
  | .direct g => g.declassify
  | .redirect g => g.declassify

/-- From the gate `u` the redirects lead through the gates `gs`, the first of them `u` itself, to the
direct gate `d`. -/
inductive Chain (store : Store) : Uid → List (Labeled Gate) → DirectGate → Prop
  | direct {u : Uid} {l : Buckle} {d : DirectGate}
      (hu : store u = some (.encode (⟨l, .direct d⟩ : Labeled Gate))) :
      Chain store u [⟨l, .direct d⟩] d
  | redirect {u : Uid} {l : Buckle} {g : RedirectGate} {gs : List (Labeled Gate)} {d : DirectGate}
      (hu : store u = some (.encode (⟨l, .redirect g⟩ : Labeled Gate)))
      (h : Chain store g.gate gs d) : Chain store u (⟨l, .redirect g⟩ :: gs) d

theorem Chain.ne_nil {store : Store} {u : Uid} {gs : List (Labeled Gate)} {d : DirectGate}
    (h : Chain store u gs d) : gs ≠ [] := by
  cases h <;> simp

/-- At the end of the chain is the direct gate. -/
theorem Chain.eq_append {store : Store} {u : Uid} {gs : List (Labeled Gate)} {d : DirectGate}
    (h : Chain store u gs d) : ∃ l, gs = gs.dropLast ++ [⟨l, .direct d⟩] := by
  induction h with
  | @direct u l d hu => exact ⟨l, rfl⟩
  | @redirect u l g gs d hu h ih =>
    obtain ⟨l', hl'⟩ := ih
    refine ⟨l', ?_⟩
    rw [List.dropLast_cons_of_ne_nil h.ne_nil, List.cons_append, ← hl']

/-- The messages that a run writes to the scheduler, or tries to. -/
def submitted {α : Type} (m : M α) (w : World) : List LabeledInvoke :=
  (handler.trace m w).filterMap fun x =>
    match x.2 with
    | .schedWrite msg => some msg
    | _ => none

section Accumulated

variable [LabelCrate]

/-- The conjunction of components. -/
def conjunction (cs : List Component) : Component := cs.foldl LabelCrate.and .dcTrue

/-- The label of a thread that has read the gates. -/
def joined (l : Buckle) (gs : List (Labeled Gate)) : Buckle := gs.foldl (fun l g => lub g.label l) l

/-- What the gates grant together. -/
def granted (gs : List (Labeled Gate)) : Component := conjunction (gs.map (·.data.privilege))

/-- What the gates ask for together. -/
def demanded (gs : List (Labeled Gate)) : Component :=
  conjunction (gs.map (·.data.invokerIntegrityClearance))

/-- Some clearance on the chain is not implied by the privilege. -/
def Refused (p : Component) (gs : List (Labeled Gate)) : Prop :=
  ∃ g ∈ gs, ¬ implies p g.data.invokerIntegrityClearance

/-- The message for an invocation along a chain. -/
def World.dispatched (w : World) (gs : List (Labeled Gate)) (d : DirectGate) (sync : Bool)
    (payload : Bytes) (headers blobs : ExtTreeMap String String compare) : LabeledInvoke where
  function := some d.function
  label := some (.ofBuckle (joined w.currentLabel gs))
  gatePrivilege := some (.ofComponent (granted gs))
  payload
  blobs
  headers
  sync
  invoker := some (.ofComponent w.privilege)

theorem implies_foldl_and [LawfulConj] (p a : Component) (cs : List Component) :
    implies p (cs.foldl LabelCrate.and a) ↔ implies p a ∧ ∀ c ∈ cs, implies p c := by
  induction cs generalizing a with
  | nil => simp
  | cons c cs ih =>
    rw [List.foldl_cons, ih, List.forall_mem_cons, ← and_assoc]
    refine and_congr_left fun _ => ⟨fun h => ⟨?_, ?_⟩, fun h => LawfulConj.implies_and h.1 h.2⟩
    · exact LawfulConj.implies_trans h (LawfulConj.and_implies_left a c)
    · exact LawfulConj.implies_trans h (LawfulConj.and_implies_right a c)

/-- All that is demanded together is implied exactly when each clearance is. -/
theorem implies_demanded [LawfulConj] (p : Component) (gs : List (Labeled Gate)) :
    implies p (demanded gs) ↔ ¬ Refused p gs := by
  unfold demanded conjunction Refused
  rw [implies_foldl_and]
  simp [LawfulConj.implies_true]

/-- All that is granted together is implied exactly when each privilege is. -/
theorem implies_granted [LawfulConj] (p : Component) (gs : List (Labeled Gate)) :
    implies p (granted gs) ↔ ∀ g ∈ gs, implies p g.data.privilege := by
  unfold granted conjunction
  rw [implies_foldl_and]
  simp [LawfulConj.implies_true]

/-- The label after the chain is the least to which the label before and those of all gates flow. -/
theorem joined_flows_iff [LawfulCrate] (l l' : Buckle) (gs : List (Labeled Gate)) :
    canFlowTo (joined l gs) l' ↔ canFlowTo l l' ∧ ∀ g ∈ gs, canFlowTo g.label l' := by
  unfold joined
  induction gs generalizing l with
  | nil => simp
  | cons g gs ih =>
    rw [List.foldl_cons, ih, List.forall_mem_cons, ← and_assoc]
    refine and_congr_left fun _ => ⟨fun h => ⟨?_, ?_⟩, fun h => LawfulCrate.lub_flow h.2 h.1⟩
    · exact LawfulCrate.flow_trans (LawfulCrate.flow_lub_right g.label l) h
    · exact LawfulCrate.flow_trans (LawfulCrate.flow_lub_left g.label l) h

variable {w : World} {u : Uid} {gs : List (Labeled Gate)} {d : DirectGate} {rounds : ℕ}

/-- The loop of `to_invokable` along a chain whose first gate has just been read. The induction is on
the chain; the label and the accumulators are those at the gate that the loop has come to. -/
theorem exec_toInvokableLoop (h : Chain w.store u gs d) (hr : gs.length ≤ rounds)
    (a b c : Component) :
    ∃ r, exec (ObjectRef.read Gate u >>= fun g => Gate.toInvokableLoop rounds g a b c) w =
        (.ok r, w.relabel (joined w.currentLabel gs)) ∧
      r.function = d.function ∧
      r.privilege = (gs.map (·.data.privilege)).foldl LabelCrate.and a ∧
      r.invokerIntegrityClearance =
        (gs.map (·.data.invokerIntegrityClearance)).foldl LabelCrate.and c ∧
      r.declassify = (gs.dropLast.map (·.data.declassify)).foldl LabelCrate.and b := by
  generalize hs : w.store = store at h
  induction h generalizing w rounds a b c with
  | @direct u l d hu =>
    obtain ⟨n, rfl⟩ := Nat.exists_eq_add_of_le' hr
    rw [exec_bind_ok (ObjectRef.exec_read_encode (hs ▸ hu))]
    exact ⟨_, rfl, rfl, rfl, rfl, rfl⟩
  | @redirect u l g gs d hu h ih =>
    rw [List.length_cons] at hr
    obtain ⟨n, rfl⟩ := Nat.exists_eq_add_of_le' (le_of_add_le_right hr)
    obtain ⟨r, hexec, hf, hp, hc, hd⟩ := ih (w := w.relabel (lub l w.currentLabel))
      (show gs.length ≤ n by omega) (LabelCrate.and a g.privilege) (LabelCrate.and b g.declassify)
      (LabelCrate.and c g.invokerIntegrityClearance) hs
    refine ⟨r, ?_, hf, hp, hc, ?_⟩
    rotate_left
    · rw [List.dropLast_cons_of_ne_nil h.ne_nil]
      exact hd
    rw [exec_bind_ok (ObjectRef.exec_read_encode (hs ▸ hu))]
    exact hexec

/-- **Resolution gathers the whole chain.** -/
theorem exec_toInvokable (h : Chain w.store u gs d) (hr : gs.length ≤ rounds) :
    ∃ r, exec (Gate.toInvokable rounds u) w = (.ok r, w.relabel (joined w.currentLabel gs)) ∧
      r.function = d.function ∧ r.privilege = granted gs ∧
      r.invokerIntegrityClearance = demanded gs ∧
      r.declassify = conjunction (gs.dropLast.map (·.data.declassify)) :=
  exec_toInvokableLoop h hr .dcTrue .dcTrue .dcTrue

/-- The component is the conjunction of these, up to equivalence. -/
def Conjoins (c : Component) (cs : List Component) : Prop :=
  ∀ p, implies p c ↔ ∀ x ∈ cs, implies p x

/-- **When declassification rights survive resolution.** What `to_invokable` returns may declassify what
the redirects of the chain may together. That is what all its gates may if and only if it covers what the
direct gate at the end may. -/
theorem declassify_survives_iff [LawfulConj] (h : Chain w.store u gs d) (hr : gs.length ≤ rounds) :
    ∃ r, exec (Gate.toInvokable rounds u) w = (.ok r, w.relabel (joined w.currentLabel gs)) ∧
      Conjoins r.declassify (gs.dropLast.map (·.data.declassify)) ∧
      (Conjoins r.declassify (gs.map (·.data.declassify)) ↔
        implies (conjunction (gs.dropLast.map (·.data.declassify))) d.declassify) := by
  obtain ⟨r, hexec, -, -, -, hd⟩ := exec_toInvokable h hr
  have hredirects : Conjoins r.declassify (gs.dropLast.map (·.data.declassify)) := by
    intro p
    rw [hd, conjunction, implies_foldl_and]
    simp [LawfulConj.implies_true]
  refine ⟨r, hexec, hredirects, ?_⟩
  obtain ⟨l, hgs⟩ := h.eq_append
  have hall : ∀ p, (∀ x ∈ gs.map (·.data.declassify), implies p x) ↔
      implies p r.declassify ∧ implies p d.declassify := by
    intro p
    rw [hredirects p]
    conv_lhs => rw [hgs]
    simp [or_imp, forall_and, Gate.declassify]
  rw [← hd]
  constructor
  · intro hconj
    exact ((hall _).1 ((hconj _).1 (LawfulConj.implies_refl _))).2
  · intro hlast p
    rw [hall p]
    exact ⟨fun hp => ⟨hp, LawfulConj.implies_trans hp hlast⟩, fun hp => hp.1⟩

end Accumulated

/-! ### What is submitted -/

section Submitted

variable {α β : Type} {w w' : World}

theorem submitted_bind_ok {m : M α} {f : α → M β} {a : α} (h : exec m w = (.ok a, w')) :
    submitted (m >>= f) w = submitted m w ++ submitted (f a) w' := by
  unfold submitted
  rw [handler.trace_bind, List.filterMap_append, show handler.exec m w = _ from h]
  rfl

/-- A message and nothing after it. -/
theorem submitted_schedWrite_bind {f : Bool → M α} (msg : LabeledInvoke)
    (hf : ∀ b w', submitted (f b) w' = []) : submitted (schedWrite msg >>= f) w = [msg] := by
  obtain ⟨b, w', hexec⟩ : ∃ b w', exec (schedWrite msg) w = (.ok b, w') := ⟨_, _, rfl⟩
  rw [submitted_bind_ok hexec, hf]
  rfl

/-- What a program makes of its result submits nothing. -/
theorem submitted_map (g : α → β) (m : M α) :
    submitted (m >>= fun a => pure (g a)) w = submitted m w := by
  unfold submitted
  rw [handler.trace_bind, List.filterMap_append]
  rcases handler.exec m w with ⟨e | a, w'⟩ <;> exact List.append_nil _

theorem submitted_eq_nil {m : M α}
    (h : ∀ x ∈ handler.trace m w, ∀ msg, x.2 ≠ .schedWrite msg) : submitted m w = [] := by
  unfold submitted
  rw [List.filterMap_eq_nil_iff]
  intro x hx
  split
  · next msg hmsg => exact absurd hmsg (h x hx msg)
  · rfl

variable [LabelCrate]

/-- The policy under which nothing is submitted and everything else is free. -/
def silent : Policy where
  lowers _ _ := True
  assumes _ := True
  holds _ _ := True
  stores _ _ _ _ := True
  invokes _ _ := False
  sends _ _ := True

theorem Obeys.submitted_eq_nil {m : M α} (h : Obeys silent w m) : submitted m w = [] := by
  refine Faasten.submitted_eq_nil fun x hx msg heq => ?_
  have := h x hx
  rw [heq] at this
  exact this

end Submitted

/-! ### The two callers -/

section Callers

variable [LabelCrate] [LawfulConj] {w w₀ : World} {u : Uid} {gs : List (Labeled Gate)}
  {d : DirectGate} {rounds : ℕ}

/-- `dent_invoke` on a gate that is refused: nothing happens beyond the taint. -/
theorem exec_invokeGate_refused (h : Chain w.store u gs d) (hr : gs.length ≤ rounds)
    (href : Refused w.privilege gs) (sync toblob : Bool) (payload : Bytes)
    (parameters : ExtTreeMap String String compare) :
    exec (invokeGate rounds u sync payload toblob parameters) w =
      (.ok {}, w.relabel (joined w.currentLabel gs)) := by
  obtain ⟨r, hexec, -, -, hc, -⟩ := exec_toInvokable h hr
  have hno : ¬ implies w.privilege r.invokerIntegrityClearance := by
    rw [hc, implies_demanded]
    exact not_not.2 href
  unfold invokeGate
  rw [exec_bind_ok hexec, exec_bind_ok (exec_getPrivilege _), World.relabel_privilege, if_neg hno]
  rfl

theorem submitted_invokeGate_refused (h : Chain w.store u gs d) (hr : gs.length ≤ rounds)
    (href : Refused w.privilege gs) (sync toblob : Bool) (payload : Bytes)
    (parameters : ExtTreeMap String String compare) :
    submitted (invokeGate rounds u sync payload toblob parameters) w = [] := by
  obtain ⟨r, hexec, -, -, hc, -⟩ := exec_toInvokable h hr
  have hno : ¬ implies w.privilege r.invokerIntegrityClearance := by
    rw [hc, implies_demanded]
    exact not_not.2 href
  unfold invokeGate
  rw [submitted_bind_ok hexec, (obeys_toInvokable rounds u).submitted_eq_nil, List.nil_append,
    submitted_bind_ok (exec_getPrivilege _), World.relabel_privilege, if_neg hno]
  rfl

/-- `dent_invoke` on a gate that is not refused: one message is submitted. -/
theorem submitted_invokeGate (h : Chain w.store u gs d) (hr : gs.length ≤ rounds)
    (href : ¬ Refused w.privilege gs) (hconn : w.schedConn = true) (sync toblob : Bool)
    (payload : Bytes) (parameters : ExtTreeMap String String compare) :
    submitted (invokeGate rounds u sync payload toblob parameters) w =
      [w.dispatched gs d sync payload parameters ∅] := by
  obtain ⟨r, hexec, hf, hp, hc, -⟩ := exec_toInvokable h hr
  have hyes : implies w.privilege r.invokerIntegrityClearance := by
    rwa [hc, implies_demanded]
  have hquiet : submitted (Gate.toInvokable rounds u) w = [] :=
    (obeys_toInvokable rounds u).submitted_eq_nil
  unfold invokeGate
  rw [submitted_bind_ok hexec, hquiet, List.nil_append, submitted_bind_ok (exec_getPrivilege _),
    World.relabel_privilege, if_pos hyes, submitted_bind_ok (exec_schedConn _),
    World.relabel_schedConn, hconn, if_pos rfl, submitted_bind_ok (exec_getCurrentLabel _),
    submitted_bind_ok (exec_getPrivilege _)]
  simp only [hf, hp]
  rw [submitted_schedWrite_bind]
  · rfl
  · intro b w'
    apply Obeys.submitted_eq_nil
    cases b
    · exact .pure _
    · cases sync
      · exact .pure _
      · refine .bind_ok (exec_schedRead w') (.call trivial) ?_
        rcases w'.host.schedRead w'.invokes with _ | res
        · exact .pure _
        · exact obeys_receive toblob res

/-- The gateway's check of a gate at the end of a path. -/
theorem exec_resolveGate_chain {path : Path} (hread : exec (FS.readPath rounds path) w₀ =
      (.ok (.gate u), w)) (h : Chain w.store u gs d) (hr : gs.length ≤ rounds) :
    (Refused w.privilege gs → exec (resolveGateWithClearanceCheck rounds path) w₀ =
        (.error (.err (.gateError .cannotInvoke)), w.relabel (joined w.currentLabel gs))) ∧
      (¬ Refused w.privilege gs → exec (resolveGateWithClearanceCheck rounds path) w₀ =
        (.ok (d.function, granted gs), w.relabel (joined w.currentLabel gs))) := by
  obtain ⟨r, hexec, hf, hp, hc, -⟩ := exec_toInvokable h hr
  unfold resolveGateWithClearanceCheck
  rw [exec_bind_ok hread]
  simp only
  rw [exec_bind_ok hexec, exec_bind_ok (exec_getPrivilege _), World.relabel_privilege, hc, hf, hp]
  constructor
  · intro href
    rw [if_neg (by rw [implies_demanded]; exact not_not.2 href)]
    rfl
  · intro href
    rw [if_pos (by rwa [implies_demanded])]
    rfl

/-- The gateway refuses the same invocations, and prepares the same message. -/
theorem exec_prepareLabeledInvoke_chain {gatePath : String} {path : Path} {w₁ : World}
    (hparse : exec (Path.parse gatePath) w₁ = (.ok (some path), w₀))
    (hread : exec (FS.readPath rounds path) w₀ = (.ok (.gate u), w)) (h : Chain w.store u gs d)
    (hr : gs.length ≤ rounds) (blobs : ExtTreeMap String String compare) (payload : Bytes)
    (headers : ExtTreeMap String String compare) :
    (Refused w.privilege gs →
        exec (prepareLabeledInvoke rounds gatePath blobs payload headers) w₁ =
          (.ok (.error (.fsError (.gateError .cannotInvoke))),
            w.relabel (joined w.currentLabel gs))) ∧
      (¬ Refused w.privilege gs →
        exec (prepareLabeledInvoke rounds gatePath blobs payload headers) w₁ =
          (.ok (.ok (w.dispatched gs d true payload headers blobs)),
            w.relabel (joined w.currentLabel gs))) := by
  obtain ⟨hno, hyes⟩ := exec_resolveGate_chain hread h hr
  unfold prepareLabeledInvoke
  rw [exec_bind_ok hparse]
  simp only
  constructor
  · intro href
    rw [exec_bind_ok (show exec (result (resolveGateWithClearanceCheck rounds path)) w₀ = _ by
      rw [exec_result, hno href]; rfl)]
    rfl
  · intro href
    rw [exec_bind_ok (show exec (result (resolveGateWithClearanceCheck rounds path)) w₀ = _ by
      rw [exec_result, hyes href]; rfl)]
    rfl

/-- **What a chain of redirects grants.** `to_invokable` returns the function of the direct gate, with
the conjunction of the privileges and of the clearances of the whole chain, and leaves the thread with
the join of its label and the labels of the whole chain. `dent_invoke` and the gateway both refuse exactly when the caller's
privilege fails to imply some clearance on the chain; otherwise both send the same message, but for
what the caller passes along. -/
theorem chain_accumulated [LawfulCrate] (h : Chain w.store u gs d) (hr : gs.length ≤ rounds) :
    (∃ r, exec (Gate.toInvokable rounds u) w = (.ok r, w.relabel (joined w.currentLabel gs)) ∧
      r.function = d.function ∧ r.privilege = granted gs ∧
      r.invokerIntegrityClearance = demanded gs) ∧
    (∀ p, implies p (granted gs) ↔ ∀ g ∈ gs, implies p g.data.privilege) ∧
    (∀ p, implies p (demanded gs) ↔ ∀ g ∈ gs, implies p g.data.invokerIntegrityClearance) ∧
    (∀ l, canFlowTo (joined w.currentLabel gs) l ↔
      canFlowTo w.currentLabel l ∧ ∀ g ∈ gs, canFlowTo g.label l) ∧
    (∀ fd sync payload toblob parameters, w.dents fd = some (.gate u) → w.schedConn = true →
      (Refused w.privilege gs →
        exec (dentInvoke rounds fd sync payload toblob parameters) w =
            (.ok ({} : Delivered).reply, w.relabel (joined w.currentLabel gs)) ∧
          submitted (dentInvoke rounds fd sync payload toblob parameters) w = []) ∧
      (¬ Refused w.privilege gs →
        submitted (dentInvoke rounds fd sync payload toblob parameters) w =
          [w.dispatched gs d sync payload parameters ∅])) ∧
    ∀ gatePath path blobs payload headers w₀ w₁,
      exec (Path.parse gatePath) w₁ = (.ok (some path), w₀) →
      exec (FS.readPath rounds path) w₀ = (.ok (.gate u), w) →
      (Refused w.privilege gs →
        exec (prepareLabeledInvoke rounds gatePath blobs payload headers) w₁ =
          (.ok (.error (.fsError (.gateError .cannotInvoke))),
            w.relabel (joined w.currentLabel gs))) ∧
      (¬ Refused w.privilege gs →
        exec (prepareLabeledInvoke rounds gatePath blobs payload headers) w₁ =
          (.ok (.ok (w.dispatched gs d true payload headers blobs)),
            w.relabel (joined w.currentLabel gs))) := by
  obtain ⟨r, hexec, hf, hp, hc, -⟩ := exec_toInvokable h hr
  refine ⟨⟨r, hexec, hf, hp, hc⟩, fun p => implies_granted p gs, fun p => ?_,
    fun l => joined_flows_iff _ l gs, fun fd sync payload toblob parameters hfd hconn => ⟨?_, ?_⟩,
    fun gatePath path blobs payload headers w₀ w₁ hparse hread =>
      exec_prepareLabeledInvoke_chain hparse hread h hr blobs payload headers⟩
  · rw [implies_demanded]
    simp [Refused]
  · intro href
    unfold dentInvoke
    constructor
    · rw [exec_bind_ok (exec_dent fd w), hfd]
      simp only
      rw [exec_bind_ok (exec_invokeGate_refused h hr href sync toblob payload parameters)]
      rfl
    · rw [submitted_bind_ok (exec_dent fd w), hfd]
      simp only [submitted_map]
      rw [submitted_invokeGate_refused h hr href]
      rfl
  · intro href
    unfold dentInvoke
    rw [submitted_bind_ok (exec_dent fd w), hfd]
    simp only [submitted_map]
    rw [submitted_invokeGate h hr href hconn]
    rfl

end Callers

end Faasten

namespace Faasten.Delegation

open Std
open scoped Dc

/-- The privilege of bob, who may invoke the first gate. -/
def bob : Component := .single ["bob"]

/-- What bob's gate grants. -/
def carol : Component := .single ["carol"]

/-- The function at the end. -/
def mailer : DirectGate where
  privilege := .single ["mailer"]
  invokerIntegrityClearance := .dcTrue
  declassify := .dcTrue
  function := ⟨1, "mailer", "python", "kernel"⟩

/-- A gate for bob that leads to the gate of the mailer. -/
def forBob : RedirectGate where
  privilege := carol
  invokerIntegrityClearance := bob
  declassify := .dcTrue
  gate := 2

/-- The gates of the chain. -/
def gates : List (Labeled Gate) := [⟨⟨carol, .dcTrue⟩, .redirect forBob⟩, ⟨publicLabel, .direct mailer⟩]

/-- A store with the two gates. -/
def store : Store :=
  (Store.empty.put 1 (.encode (⟨⟨carol, .dcTrue⟩, .redirect forBob⟩ : Labeled Gate))).put 2
    (.encode (⟨publicLabel, .direct mailer⟩ : Labeled Gate))

theorem store_chain : Chain store 1 gates mailer :=
  .redirect (Store.put_of_ne _ _ (by decide)) (.direct (Store.put_self _ _ _))

/-- A thread with some privilege that has bob's gate open. -/
def thread (p : Component) : World :=
  .quiet { Thread.idle publicLabel with privilege := p, dents := fun _ => some (.gate 1) } store

/-- What bob's invocation asks the scheduler for. -/
def request : LabeledInvoke where
  function := some mailer.function
  label := some (.ofBuckle ⟨carol, .dcTrue⟩)
  gatePrivilege := some (.ofComponent (LabelCrate.and carol mailer.privilege))
  payload := []
  blobs := ∅
  headers := ∅
  sync := true
  invoker := some (.ofComponent bob)

/-- bob invokes the mailer through his gate, with both privileges and the label of his gate; carol is
refused. -/
theorem bob_dispatched :
    submitted (SyscallProcessor.dentInvoke 2 0 true [] false ∅) (thread bob) = [request] ∧
      submitted (SyscallProcessor.dentInvoke 2 0 true [] false ∅) (thread carol) = [] := by
  have hlen : gates.length ≤ 2 := le_rfl
  obtain ⟨-, -, -, -, hbob, -⟩ := chain_accumulated (w := thread bob) store_chain hlen
  obtain ⟨-, -, -, -, hcarol, -⟩ := chain_accumulated (w := thread carol) store_chain hlen
  constructor
  · have hsame : (thread bob).dispatched gates mailer true [] ∅ ∅ = request := by decide +kernel
    rw [← hsame]
    exact (hbob 0 true [] false ∅ rfl rfl).2 (by unfold Refused; decide +kernel)
  · exact ((hcarol 0 true [] false ∅ rfl rfl).1 (by unfold Refused; decide +kernel)).2

/-! ### A direct gate with rights of its own -/

/-- The gate of the mailer, were it to declassify for carol. -/
def reader : DirectGate := { mailer with declassify := carol }

/-- A store with this gate and nothing else. -/
def readerStore : Store := Store.empty.put 2 (.encode (⟨publicLabel, .direct reader⟩ : Labeled Gate))

theorem readerStore_chain : Chain readerStore 2 [⟨publicLabel, .direct reader⟩] reader :=
  .direct (Store.put_self _ _ _)

/-- The mailer has no rights of its own, and so bob's chain keeps all of its rights. -/
theorem mailer_survives : ∃ r w', exec (Gate.toInvokable 2 1) (thread bob) = (.ok r, w') ∧
    Conjoins r.declassify (gates.map (·.data.declassify)) := by
  have hlen : gates.length ≤ 2 := le_rfl
  obtain ⟨r, hexec, -, hiff⟩ := declassify_survives_iff (w := thread bob) store_chain hlen
  exact ⟨r, _, hexec, hiff.2 (by decide +kernel)⟩

/-- Resolving the gate alone loses its right to declassify for carol. -/
theorem reader_loses : ∃ r w',
    exec (Gate.toInvokable 1 2) (.quiet (.idle publicLabel) readerStore) = (.ok r, w') ∧
      r.declassify = .dcTrue ∧
      ¬ Conjoins r.declassify ([⟨publicLabel, .direct reader⟩].map
        fun g : Labeled Gate => g.data.declassify) := by
  refine ⟨_, _, rfl, rfl, fun h => ?_⟩
  have hall := (h .dcTrue).1 (LawfulConj.implies_refl _)
  have hcarol : implies .dcTrue carol = true := hall carol (List.mem_singleton.2 rfl)
  exact absurd hcarol (by decide +kernel)

end Faasten.Delegation
