import Mathlib
import Faasten.Resolution
import Faasten.Sched.Server
import Faasten.Syscall.Storing
import Faasten.Worker.Tasks

/-!
# The answer to a synchronous invocation

The `TaskReturn` that `dent_invoke` waits for is written by the scheduler when its queue is full, by a
worker when it could not run the task, or by the monitor of the callee. Only the last one has a payload.

* `exec_invokeGate_answered`: up to the answer, an invocation taints the caller with the gates of the chain
  and sends one message;
* `exec_receive_none`, `exec_receive_data`, `exec_receive_blob`: what becomes of it;
* `invoke_answered_iff`: when the reply is that of the callee's success or failure;
* `failure_panics`: the answers without payload take the caller down.
-/

namespace Faasten

open Std Effect SyscallProcessor

/-- The label of a `TaskReturn`; a missing one is public. An incomplete one has no meaning. -/
def TaskReturn.returnedLabel [LabelCrate] (res : TaskReturn) : Option Buckle :=
  res.label.elim (some publicLabel) (·.into)

variable [LabelCrate]

/-- A synchronous invocation of the gate `u` that is answered with `res`: the redirects from the gate lead to
the direct gate `d`, the caller meets their clearances, the message for the callee can be written to the
scheduler, and `res` is read from it. -/
structure Answered (w : World) (u : Uid) (gs : List (Labeled Gate)) (d : DirectGate) (payload : Bytes)
    (parameters : ExtTreeMap String String compare) (res : TaskReturn) : Prop where
  chain : Chain w.store u gs d
  cleared : implies w.privilege (demanded gs)
  conn : w.schedConn = true
  written : w.host.schedWrite w.invokes (w.dispatched gs d true payload parameters ∅) = true
  read : w.host.schedRead (w.invokes ++ [w.dispatched gs d true payload parameters ∅]) = some res

/-- The world of the caller when the answer arrives. -/
def World.asking (w : World) (gs : List (Labeled Gate)) (d : DirectGate) (payload : Bytes)
    (parameters : ExtTreeMap String String compare) : World :=
  { w.relabel (joined w.currentLabel gs) with
    invokes := w.invokes ++ [w.dispatched gs d true payload parameters ∅] }

variable {w : World} {u : Uid} {gs : List (Labeled Gate)} {d : DirectGate} {payload : Bytes}
  {parameters : ExtTreeMap String String compare} {res : TaskReturn} {rounds : ℕ} {toblob : Bool}

theorem exec_invokeGate_answered (h : Answered w u gs d payload parameters res)
    (hr : gs.length ≤ rounds) :
    exec (invokeGate rounds u true payload toblob parameters) w =
      exec (receive toblob res) (w.asking gs d payload parameters) := by
  obtain ⟨r, hexec, hf, hp, hc, -⟩ := exec_toInvokable h.chain hr
  have hyes : implies w.privilege r.invokerIntegrityClearance := by
    rw [hc]
    exact h.cleared
  unfold invokeGate
  rw [exec_bind_ok hexec, exec_bind_ok (exec_getPrivilege _), World.relabel_privilege, if_pos hyes,
    exec_bind_ok (exec_schedConn _), World.relabel_schedConn, h.conn, if_pos rfl,
    exec_bind_ok (exec_getCurrentLabel _), exec_bind_ok (exec_getPrivilege _)]
  simp only [hf, hp]
  have hwrite : exec (schedWrite (w.dispatched gs d true payload parameters ∅))
      (w.relabel (joined w.currentLabel gs)) = (.ok true, w.asking gs d payload parameters) := by
    rw [exec_schedWrite, World.relabel_host, World.relabel_invokes, if_pos h.written]
    rfl
  refine (exec_bind_ok hwrite).trans ?_
  simp only [if_true]
  rw [exec_bind_ok (exec_schedRead _)]
  have hread : w.host.schedRead (w.asking gs d payload parameters).invokes = some res := h.read
  rw [show (w.asking gs d payload parameters).host = w.host from rfl, hread]

/-! ### What becomes of the answer -/

theorem exec_labelOrPublic {l : Buckle} (hl : res.returnedLabel = some l) :
    exec (labelOrPublic res.label) w = (.ok l, w) := by
  unfold TaskReturn.returnedLabel at hl
  rcases hres : res.label with _ | bl
  · rw [hres] at hl; cases hl; rfl
  · rw [hres] at hl
    change bl.into = some l at hl
    simp only [labelOrPublic, hl, exec_unwrap_some]

theorem exec_labelOrPublic_none (hl : res.returnedLabel = none) :
    exec (labelOrPublic res.label) w = (.error .panic, w) := by
  unfold TaskReturn.returnedLabel at hl
  rcases hres : res.label with _ | bl
  · rw [hres] at hl; cases hl
  · rw [hres] at hl
    change bl.into = none at hl
    simp only [labelOrPublic, hl, exec_unwrap_none]

/-- An answer without a payload makes the monitor of the caller panic. -/
theorem exec_receive_none {l : Buckle} (hl : res.returnedLabel = some l) (hp : res.payload = none) :
    exec (receive toblob res) w = (.error .panic, w.relabel (lub w.currentLabel l)) := by
  unfold receive
  rw [exec_bind_ok (exec_labelOrPublic hl), exec_bind_ok (exec_taintWithLabel l w), hp,
    exec_bind_error (exec_unwrap_none _)]

theorem exec_receive_data {l : Buckle} {p : Pb.Response} (hl : res.returnedLabel = some l)
    (hp : res.payload = some p) :
    exec (receive false res) w = (.ok { data := p.body }, w.relabel (lub w.currentLabel l)) := by
  unfold receive
  rw [exec_bind_ok (exec_labelOrPublic hl), exec_bind_ok (exec_taintWithLabel l w), hp,
    exec_bind_ok (exec_unwrap_some p _)]
  rfl

theorem exec_receive_blob {l : Buckle} {p : Pb.Response} (hl : res.returnedLabel = some l)
    (hp : res.payload = some p) (hio : Storable w.io (p.body.getD [])) :
    ∃ b io blobstore, exec (receive true res) w = (.ok { blobFd := some w.maxBlobId },
      { w.relabel (lub w.currentLabel l) with
        toThread := (w.relabel (lub w.currentLabel l)).nextBlob.putBlob w.maxBlobId b, io, blobstore }) := by
  obtain ⟨b, io, blobstore, hblob⟩ := exec_storeExpect (w := w.relabel (lub w.currentLabel l)) hio
  refine ⟨b, io, blobstore, ?_⟩
  unfold receive toBlob
  rw [exec_bind_ok (exec_labelOrPublic hl), exec_bind_ok (exec_taintWithLabel l w), hp,
    exec_bind_ok (exec_unwrap_some p _)]
  simp only [if_true, bind_assoc]
  rw [exec_bind_ok hblob]
  rfl

/-- The blob cannot be stored. -/
theorem exec_receive_unstored {l : Buckle} {p : Pb.Response} (hl : res.returnedLabel = some l)
    (hp : res.payload = some p) (hio : ¬Storable w.io (p.body.getD [])) :
    ∃ w', exec (receive true res) w = (.error .panic, w') := by
  have hpanic := storeExpect_panics (w := w.relabel (lub w.currentLabel l)) hio
  rcases hstore : exec (Blobstore.storeExpect (p.body.getD [])) (w.relabel (lub w.currentLabel l))
    with ⟨e | b, w'⟩
  · rw [hstore] at hpanic
    cases hpanic
    refine ⟨w', ?_⟩
    unfold receive toBlob
    rw [exec_bind_ok (exec_labelOrPublic hl), exec_bind_ok (exec_taintWithLabel l w), hp,
      exec_bind_ok (exec_unwrap_some p _)]
    simp only [if_true, bind_assoc]
    rw [exec_bind_error hstore]
  · rw [hstore] at hpanic
    cases hpanic

theorem exec_receive_unlabeled (hl : res.returnedLabel = none) :
    exec (receive toblob res) w = (.error .panic, w) := by
  unfold receive
  rw [exec_bind_error (exec_labelOrPublic_none hl)]

/-! ### The reply to the caller -/

theorem exec_dentInvoke_answered {fd : ℕ} (hfd : w.dents fd = some (.gate u))
    (h : Answered w u gs d payload parameters res) (hr : gs.length ≤ rounds) :
    exec (doSyscall rounds (.dentInvoke fd true payload toblob parameters)) w =
      exec (receive toblob res >>= fun d => pure (.sent d.reply)) (w.asking gs d payload parameters) := by
  change exec (dentInvoke rounds fd true payload toblob parameters >>= fun r => pure (Outcome.sent r)) w = _
  unfold dentInvoke
  rw [bind_assoc, exec_bind_ok (exec_dent fd w), hfd]
  dsimp only
  rw [bind_assoc, exec_bind, exec_bind, exec_invokeGate_answered h hr]
  rfl

/-- The reply tells the success or failure of the callee, the caller is tainted with the returned label, and
its tables are unchanged, but for the blob of a success. -/
def Reported (w : World) (gs : List (Labeled Gate)) (res : TaskReturn) (r : Except Raised Outcome)
    (w' : World) : Prop :=
  ∃ success fd data headers l, r = .ok (.sent (.dentInvokeResult success fd data headers)) ∧
    (success = true ↔ res.code = .success) ∧ res.returnedLabel = some l ∧
    w'.currentLabel = lub (joined w.currentLabel gs) l ∧ w'.dents = w.dents ∧
    (res.code ≠ .success → w'.blobs = w.blobs)

/-- **The reply tells the success or failure of the callee if and only if the answer has a payload, and its
code is that of a success exactly when there is something to deliver**: the caller asked for a blob, which
the host can store, or the payload has a body. -/
theorem invoke_answered_iff {fd : ℕ} (hfd : w.dents fd = some (.gate u))
    (h : Answered w u gs d payload parameters res) (hr : gs.length ≤ rounds) :
    Reported w gs res (exec (doSyscall rounds (.dentInvoke fd true payload toblob parameters)) w).1
        (exec (doSyscall rounds (.dentInvoke fd true payload toblob parameters)) w).2 ↔
      res.returnedLabel ≠ none ∧ ∃ p, res.payload = some p ∧
        (res.code = .success ↔ toblob = true ∨ p.body ≠ none) ∧
        (toblob = true → Storable w.io (p.body.getD [])) := by
  rw [exec_dentInvoke_answered hfd h hr]
  rcases hl : res.returnedLabel with _ | l
  · rw [exec_bind_error (exec_receive_unlabeled hl)]
    refine iff_of_false ?_ (by simp)
    rintro ⟨success, fd, data, headers, l, ⟨⟩, -⟩
  rcases hp : res.payload with _ | p
  · rw [exec_bind_error (exec_receive_none hl hp)]
    refine iff_of_false ?_ (by simp)
    rintro ⟨success, fd, data, headers, l, ⟨⟩, -⟩
  cases toblob with
  | false =>
    rw [exec_bind_ok (exec_receive_data hl hp)]
    have hsuccess : (Delivered.mk none p.body ∅).reply =
        .dentInvokeResult p.body.isSome none p.body ∅ := by simp [Delivered.reply]
    constructor
    · rintro ⟨success, fd, data, headers, l', hreply, hcode, -⟩
      rw [exec_pure, hsuccess] at hreply
      cases hreply
      refine ⟨by simp, p, rfl, hcode.symm.trans ?_, nofun⟩
      simp [Option.isSome_iff_ne_none]
    · rintro ⟨-, p', ⟨⟩, hcode, -⟩
      refine ⟨p.body.isSome, none, p.body, ∅, l, by rw [exec_pure, hsuccess], ?_, hl, rfl, rfl,
        fun _ => rfl⟩
      rw [hcode]
      simp [Option.isSome_iff_ne_none]
  | true =>
    by_cases hio : Storable w.io (p.body.getD [])
    rotate_left
    · obtain ⟨w', hreceive⟩ :=
        exec_receive_unstored (w := w.asking gs d payload parameters) hl hp hio
      rw [exec_bind_error hreceive]
      refine iff_of_false ?_ ?_
      · rintro ⟨success, fd, data, headers, l, ⟨⟩, -⟩
      · rintro ⟨-, p', ⟨⟩, -, hstore⟩
        exact hio (hstore rfl)
    obtain ⟨b, io, blobstore, hreceive⟩ :=
      exec_receive_blob (w := w.asking gs d payload parameters) hl hp hio
    rw [exec_bind_ok hreceive]
    constructor
    · rintro ⟨success, fd, data, headers, l', hreply, hcode, -⟩
      cases hreply
      exact ⟨by simp, p, rfl, by simpa [Delivered.reply] using hcode.symm, fun _ => hio⟩
    · rintro ⟨-, p', ⟨⟩, hcode, -⟩
      have hok : res.code = .success := hcode.2 (.inl rfl)
      exact ⟨true, some w.maxBlobId, none, ∅, l, rfl, by simp [hok], hl, rfl, rfl, fun hne =>
        absurd hok hne⟩

/-- **A failing callee takes the caller down**: whatever the scheduler or a worker answers in place of the
callee has no payload. -/
theorem failure_panics {fd : ℕ} (hfd : w.dents fd = some (.gate u)) (hr : gs.length ≤ rounds)
    (hres : res = Sched.Server.queueFull ∨ ∃ code l, res = Worker.failure code l)
    (h : Answered w u gs d payload parameters res) :
    (exec (doSyscall rounds (.dentInvoke fd true payload toblob parameters)) w).1 = .error .panic := by
  have hanswer : (∃ l, res.returnedLabel = some l) ∧ res.payload = none := by
    rcases hres with rfl | ⟨code, l, rfl⟩
    · exact ⟨⟨_, Pb.into_ofBuckle _⟩, rfl⟩
    · exact ⟨⟨_, Pb.into_ofBuckle _⟩, rfl⟩
  obtain ⟨⟨l, hl⟩, hp⟩ := hanswer
  rw [exec_dentInvoke_answered hfd h hr, exec_bind_error (exec_receive_none hl hp)]

end Faasten

/-! ### A full queue -/

namespace Faasten.FullQueue

open Delegation SyscallProcessor
open scoped Dc

/-- The world of bob, who has the gate of `Delegation` open, when the scheduler answers `res`. -/
def world (res : TaskReturn) : World where
  __ := Delegation.thread bob
  host := { Host.mute with schedRead := fun _ => some res }

theorem world_answered (res : TaskReturn) : Answered (world res) 1 gates mailer [] ∅ res where
  chain := Delegation.store_chain
  cleared := show implies bob (demanded gates) by decide +kernel
  conn := rfl
  written := rfl
  read := rfl

/-- The answer of a callee that ran. -/
def success : TaskReturn where
  code := .success
  payload := some ⟨some [1], 200⟩
  label := some (.ofBuckle ⟨carol, .dcTrue⟩)

/-- The success of the mailer is reported. -/
theorem success_reported :
    Reported (world success) gates success
      (exec (doSyscall 2 (.dentInvoke 0 true [] false ∅)) (world success)).1
      (exec (doSyscall 2 (.dentInvoke 0 true [] false ∅)) (world success)).2 := by
  have hr : gates.length ≤ 2 := le_rfl
  refine (invoke_answered_iff rfl (world_answered success) hr).2 ⟨?_, ?_⟩
  · rw [show success.returnedLabel = some _ from Pb.into_ofBuckle ⟨carol, .dcTrue⟩]
    exact Option.some_ne_none _
  · exact ⟨_, rfl, by decide, nofun⟩

/-- When the queue of the scheduler is full, bob's monitor panics. -/
theorem full_queue_panics :
    Answered (world Sched.Server.queueFull) 1 gates mailer [] ∅ Sched.Server.queueFull ∧
    (exec (doSyscall 2 (.dentInvoke 0 true [] false ∅)) (world Sched.Server.queueFull)).1 =
      .error .panic ∧
    ¬Reported (world Sched.Server.queueFull) gates Sched.Server.queueFull
      (exec (doSyscall 2 (.dentInvoke 0 true [] false ∅)) (world Sched.Server.queueFull)).1
      (exec (doSyscall 2 (.dentInvoke 0 true [] false ∅)) (world Sched.Server.queueFull)).2 := by
  have hr : gates.length ≤ 2 := le_rfl
  have hpanic : (exec (doSyscall 2 (.dentInvoke 0 true [] false ∅))
      (world Sched.Server.queueFull)).1 = .error .panic :=
    failure_panics rfl hr (.inl rfl) (world_answered Sched.Server.queueFull)
  refine ⟨world_answered _, hpanic, ?_⟩
  rintro ⟨success, fd, data, headers, l, hreply, -⟩
  rw [hpanic] at hreply
  cases hreply

end Faasten.FullQueue
