import Mathlib
import Faasten.Syscall.Run
import Faasten.Worker.ResourceManager

/-!
# A worker thread

`Worker::wait_and_process` of `worker.rs`: a worker thread asks the scheduler for a task, gets a VM for
it, makes up to five attempts to run the task in the VM, gives the VM back, and sends the result.

* `tasks` is the interface that it works with: the scheduler, the local resource manager behind its lock,
  the VM, and the processor that serves the guest in it. A VM that was run remembers the label at the end
  of the run (`Vm.after`);
* `serveTask` is what stands behind the operation `run`, as a program of the monitor;
* `Worker.processTask` is the arm of a task, and `Worker.attempts` its inner loop.
-/

namespace Faasten

open Std Effect

/-- What `sched::rpc::get` returns. -/
inductive TaskResponse
  | failed
  | terminate
  | processTask (taskId : String) (labeledInvoke : Option LabeledInvoke)
  | unknown

/-- What a worker thread calls on. -/
inductive TaskOp
  | get
  | tryAllocate (f : Function) (payloadLabel : Buckle)
  | getCurrentLabel
  | launch (vm : Vm)
  | run (invoke : LabeledInvoke) (label : Buckle) (privilege : Component) (vm : Vm)
  | release (vm : Vm)
  | delete (vm : Vm)
  | finish (taskId : String) (result : TaskReturn)

/-- The result type of each operation. An allocation may not come to an end; a run ends in a result, in
an error, or with the thread, and leaves a label. -/
def TaskOp.Res : TaskOp → Type
  | .get => TaskResponse
  | .tryAllocate _ _ => Option (Option Vm)
  | .getCurrentLabel => Buckle
  | .launch _ => Option Vm
  | .run _ _ _ _ => Except Raised (Option TaskReturn) × Buckle
  | .release _ => Unit
  | .delete _ => Unit
  | .finish _ _ => Unit

/-- The interface of a worker thread. -/
def tasks : Sig := ⟨TaskOp, TaskOp.Res⟩

/-- Programs of a worker thread. -/
abbrev T := Prog tasks Raised

/-- Whether `local_path_string` gives the paths of the images, and does not panic. -/
def Function.hasPaths (f : Function) : Bool :=
  Blobstore.splitsAtTwo f.kernel && Blobstore.splitsAtTwo f.appImage &&
    Blobstore.splitsAtTwo f.runtimeImage

namespace Worker

/-- `sched::rpc::get` -/
def get : T TaskResponse := .call (S := tasks) .get

/-- `Worker::try_allocate` -/
def tryAllocate (f : Function) (payloadLabel : Buckle) : T (Option (Option Vm)) :=
  .call (S := tasks) (.tryAllocate f payloadLabel)

/-- `fs::utils::get_current_label` -/
def getCurrentLabel : T Buckle := .call (S := tasks) .getCurrentLabel

/-- `Vm::launch`; `none` is an error. -/
def launch (vm : Vm) : T (Option Vm) := .call (S := tasks) (.launch vm)

/-- The processor of a task, from the opening of its blobs to the end of `run`. -/
def run (invoke : LabeledInvoke) (label : Buckle) (privilege : Component) (vm : Vm) :
    T (Except Raised (Option TaskReturn) × Buckle) :=
  .call (S := tasks) (.run invoke label privilege vm)

/-- `ResourceManager::release` -/
def release (vm : Vm) : T Unit := .call (S := tasks) (.release vm)

/-- `ResourceManager::delete` -/
def delete (vm : Vm) : T Unit := .call (S := tasks) (.delete vm)

/-- `sched::rpc::finish`; an error is only logged. -/
def finish (taskId : String) (result : TaskReturn) : T Unit :=
  .call (S := tasks) (.finish taskId result)

/-- `unwrap` -/
def unwrap {α : Type} : Option α → T α
  | some a => pure a
  | none => .raise .panic

/-- The loop of attempts, after `cnt` of them. -/
def attempts (invoke : LabeledInvoke) (label : Buckle) (privilege : Component) :
    ℕ → ℕ → Vm → TaskReturn → T TaskReturn
  | 0, _, _, _ => .raise .diverge
  | n + 1, cnt, vm, ret =>
      if vm.function.hasPaths then do
        match ← launch vm with
        -- the `continue` of a failed launch: the number of attempts is not looked at
        | none => attempts invoke label privilege n (cnt + 1) vm ret
        | some vm =>
            let (result, left) ← run invoke label privilege vm
            match result with
            | .error e => .raise e
            | .ok (some result) => do
                release (vm.after left)
                return result
            | .ok none =>
                if cnt + 1 = 5 then do
                  delete (vm.after left)
                  return if vm.handle then ret else { ret with code := .launchFailed }
                else attempts invoke label privilege n (cnt + 1) (vm.after left) ret
      else .raise .panic

/-- A reply without a payload, under the current label. -/
def failure (code : ReturnCode) (label : Buckle) : TaskReturn where
  code
  payload := none
  label := some (.ofBuckle label)

/-- The arm of a task. -/
def processTask (rounds : ℕ) (taskId : String) (invoke : LabeledInvoke) : T Unit := do
  let label ← unwrap (invoke.label.bind (·.into))
  let privilege ← unwrap (invoke.gatePrivilege.bind (·.into))
  let f ← unwrap invoke.function
  match ← tryAllocate f label with
  | none => .raise .diverge
  | some (some vm) =>
      let ret := failure .processRequestFailed (← getCurrentLabel)
      let ret ← attempts invoke label privilege rounds 0 vm ret
      finish taskId ret
  | some none =>
      let ret := failure .resourceExhausted (← getCurrentLabel)
      finish taskId ret

/-- `Worker::wait_and_process` -/
def waitAndProcess (rounds : ℕ) : ℕ → T Unit
  | 0 => .raise .diverge
  | n + 1 => do
      match ← get with
      | .terminate => return ()
      | .processTask taskId (some invoke) => do
          processTask rounds taskId invoke
          waitAndProcess rounds n
      | _ => waitAndProcess rounds n

end Worker

variable [LabelCrate]

/-- One run of a task: open its blobs, set up a processor, send the request, serve the guest. -/
def serveTask (rounds n : ℕ) (guest : Request → Guest) (invoke : LabeledInvoke) (label : Buckle)
    (privilege : Component) : M (Option TaskReturn) := do
  let blobs ← openBlobs invoke.blobs.toList
  SyscallProcessor.new label privilege
  let invoker ← unwrap (← unwrap invoke.invoker).into
  let request ← SyscallProcessor.request invoke.payload blobs invoke.headers invoker
  SyscallProcessor.loop rounds (guest request) n []

theorem loop_success {rounds n : ℕ} {guest : Guest} {replies : List Pb.Reply} {w w' : World}
    {ret : TaskReturn}
    (h : exec (SyscallProcessor.loop rounds guest n replies) w = (.ok (some ret), w')) :
    ret.code = .success := by
  induction n generalizing replies w with
  | zero => cases h
  | succ n ih =>
    unfold SyscallProcessor.loop at h
    rcases hg : guest replies with _ | sc
    · rw [hg] at h
      cases h
    · rw [hg] at h
      obtain ⟨outcome, w₁, hsys, h⟩ := exec_bind_eq_ok h
      cases outcome with
      | sent reply => exact ih h
      | returned result =>
        cases h
        -- Only the arm of a response returns a result.
        cases sc with
        | response r =>
          cases hsys
          rfl
        | _ =>
          obtain ⟨reply, w₂, -, hsent⟩ := exec_bind_eq_ok hsys
          cases hsent

/-- What a processor returns is a success. -/
theorem serveTask_success {rounds n : ℕ} {guest : Request → Guest} {invoke : LabeledInvoke}
    {label : Buckle} {privilege : Component} {w w' : World} {ret : TaskReturn}
    (h : exec (serveTask rounds n guest invoke label privilege) w = (.ok (some ret), w')) :
    ret.code = .success := by
  obtain ⟨_, _, -, h⟩ := exec_bind_eq_ok h
  obtain ⟨_, _, -, h⟩ := exec_bind_eq_ok h
  obtain ⟨_, _, -, h⟩ := exec_bind_eq_ok h
  obtain ⟨_, _, -, h⟩ := exec_bind_eq_ok h
  obtain ⟨_, _, -, h⟩ := exec_bind_eq_ok h
  exact loop_success h

end Faasten
