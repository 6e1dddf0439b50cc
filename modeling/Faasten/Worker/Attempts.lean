import Mathlib
import Faasten.Worker.Tasks

/-!
# Attempts

What a worker thread does with a task, for every sequence of outcomes of its launches and runs. A
`Script` holds the outcomes to come and the log of what was done; the arm of a task `CompletesOnce` if it
comes to an end after at most five attempts, gives the VM back once, and reports once.

A failed launch starts the next round of the loop without looking at the number of attempts.
`completesOnce_iff` says that this makes the difference: a task completes once if and only if the VM is
launched within five attempts. `LaunchFailed` is never reported.
-/

namespace Faasten

open Effect

/-- The results of a processor. -/
abbrev Success := { ret : TaskReturn // ret.code = .success }

/-- What a worker thread has done. -/
inductive TaskEvent
  | launched (ok : Bool)
  | ran (result : Option Success)
  | released (vm : Vm)
  | deleted (vm : Vm)
  | finished (taskId : String) (ret : TaskReturn)

namespace TaskEvent

/-- Part of an attempt. -/
def Attempt : TaskEvent → Prop
  | .launched _ => True
  | .ran _ => True
  | _ => False

/-- The start of an attempt. -/
def isLaunch : TaskEvent → Bool
  | .launched _ => true
  | _ => false

end TaskEvent

/-- The outcomes to come, and what was done so far. -/
structure Script where
  responses : Stream' TaskResponse
  allocated : Option (Option Vm)
  label : Buckle
  boots : Stream' Bool
  runs : Stream' (Option Success × Buckle)
  log : List TaskEvent := []

namespace Script

/-- What each operation does. -/
def perform : (o : TaskOp) → Script → o.Res × Script
  | .get, s => (s.responses.head, { s with responses := s.responses.tail })
  | .tryAllocate _ _, s => (s.allocated, s)
  | .getCurrentLabel, s => (s.label, s)
  | .launch vm, s =>
      (vm.launch s.boots.head,
        { s with boots := if vm.handle then s.boots else s.boots.tail
                 log := s.log ++ [.launched (vm.launch s.boots.head).isSome] })
  | .run _ _ _ _, s =>
      ((.ok (s.runs.head.1.map (·.val)), s.runs.head.2),
        { s with runs := s.runs.tail, log := s.log ++ [.ran s.runs.head.1] })
  | .release vm, s => ((), { s with log := s.log ++ [.released vm] })
  | .delete vm, s => ((), { s with log := s.log ++ [.deleted vm] })
  | .finish taskId ret, s => ((), { s with log := s.log ++ [.finished taskId ret] })

/-- Running a program of a worker thread on a script. -/
def scripted : Handler tasks Script := ⟨perform⟩

instance : Std.Refl fun s s' : Script => s.log <+: s'.log := ⟨fun _ => List.prefix_rfl⟩

instance : IsTrans Script fun s s' => s.log <+: s'.log := ⟨fun _ _ _ => List.IsPrefix.trans⟩

end Script

namespace Worker

open Script

variable {s : Script} {taskId : String} {invoke : LabeledInvoke} {label : Buckle}
  {privilege : Component} {vm : Vm} {ret : TaskReturn} {n cnt : ℕ}

/-! ### One attempt -/

/-- The script after an attempt whose launch failed. -/
def unlaunched (s : Script) : Script :=
  { s with boots := s.boots.tail, log := s.log ++ [.launched false] }

/-- The script after a launch that succeeded. -/
def launched (s : Script) (vm : Vm) : Script :=
  { s with boots := if vm.handle then s.boots else s.boots.tail
           log := s.log ++ [.launched true] }

/-- The script after a run. -/
def ran (s : Script) : Script := { s with runs := s.runs.tail, log := s.log ++ [.ran s.runs.head.1] }

theorem exec_launch (vm : Vm) (s : Script) :
    scripted.exec (launch vm) s =
      (.ok (vm.launch s.boots.head),
        { s with boots := if vm.handle then s.boots else s.boots.tail
                 log := s.log ++ [.launched (vm.launch s.boots.head).isSome] }) := rfl

theorem exec_attempts_unlaunched (hp : vm.function.hasPaths = true) (hh : vm.handle = false)
    (hb : s.boots.head = false) :
    scripted.exec (attempts invoke label privilege (n + 1) cnt vm ret) s =
      scripted.exec (attempts invoke label privilege n (cnt + 1) vm ret) (unlaunched s) := by
  have hlaunch : scripted.exec (launch vm) s = (.ok none, unlaunched s) := by
    rw [exec_launch]
    simp [Vm.launch, hh, hb, unlaunched]
  rw [attempts, if_pos hp, Handler.exec_bind_ok _ hlaunch]

theorem exec_attempts_launched (hp : vm.function.hasPaths = true)
    (hb : vm.handle = true ∨ s.boots.head = true) :
    scripted.exec (attempts invoke label privilege (n + 1) cnt vm ret) s =
      let vm' := { vm with handle := true : Vm }.after s.runs.head.2
      match s.runs.head.1 with
      | some r => (.ok r.val, { ran (launched s vm) with log := (ran (launched s vm)).log ++ [.released vm'] })
      | none =>
          if cnt + 1 = 5 then
            (.ok ret, { ran (launched s vm) with log := (ran (launched s vm)).log ++ [.deleted vm'] })
          else scripted.exec (attempts invoke label privilege n (cnt + 1) vm' ret) (ran (launched s vm)) := by
  have hlaunch : scripted.exec (launch vm) s = (.ok (some { vm with handle := true }), launched s vm) := by
    rw [exec_launch]
    rcases hh : vm.handle with _ | _
    · simp [Vm.launch, hh, hb.resolve_left (by simp [hh]), launched]
    · have hvm : vm.launch s.boots.head = some vm := by simp [Vm.launch, hh]
      have hsame : { vm with handle := true : Vm } = vm := by
        cases vm
        cases hh
        rfl
      simp [launched, hvm, hh, hsame]
  have hrun : scripted.exec (run invoke label privilege { vm with handle := true }) (launched s vm) =
      (.ok (.ok (s.runs.head.1.map (·.val)), s.runs.head.2), ran (launched s vm)) := rfl
  rw [attempts, if_pos hp, Handler.exec_bind_ok _ hlaunch]
  simp only
  rw [Handler.exec_bind_ok _ hrun]
  rcases s.runs.head.1 with _ | r
  · by_cases hc : cnt + 1 = 5
    · simp only [Option.map_none, hc, if_true]
      rfl
    · simp only [Option.map_none, hc, if_false]
  · rfl

/-! ### All attempts -/

/-- The attempts have come to an end. `body` is what was done in at most `k` of them, and `back` is how
the VM was given back. -/
structure Ended (vm : Vm) (k : ℕ) (ret₀ : TaskReturn) (s s' : Script) (ret : TaskReturn)
    (body : List TaskEvent) (back : TaskEvent) : Prop where
  log : s'.log = s.log ++ body ++ [back]
  attempts : ∀ e ∈ body, e.Attempt
  bound : (body.filter TaskEvent.isLaunch).length ≤ k
  launched : .launched true ∈ body
  back : ∃ vm' : Vm, vm'.id = vm.id ∧
    ((back = .released vm' ∧ ∃ r : Success, body.getLast? = some (.ran (some r)) ∧ ret = r.val) ∨
      (back = .deleted vm' ∧ (∀ r, .ran (some r) ∉ body) ∧ ret = ret₀))

/-- One more attempt before. -/
theorem Ended.after {vm vm' : Vm} {k : ℕ} {ret₀ : TaskReturn} {s s₁ s' : Script}
    {body pre : List TaskEvent} {back : TaskEvent} (h : Ended vm' k ret₀ s₁ s' ret body back)
    (hid : vm'.id = vm.id) (hlog : s₁.log = s.log ++ pre)
    (hpre : pre = [.launched false] ∨ pre = [.launched true, .ran none]) :
    Ended vm (k + 1) ret₀ s s' ret (pre ++ body) back := by
  refine ⟨?_, ?_, ?_, List.mem_append_right _ h.launched, ?_⟩
  · rw [h.log, hlog]
    simp only [List.append_assoc]
  · intro e he
    rcases List.mem_append.1 he with he | he
    · rcases hpre with rfl | rfl
      · rw [List.mem_singleton.1 he]
        trivial
      · rcases List.mem_pair.1 he with rfl | rfl <;> trivial
    · exact h.attempts e he
  · have hone : (pre.filter TaskEvent.isLaunch).length = 1 := by
      rcases hpre with rfl | rfl <;> rfl
    have := h.bound
    rw [List.filter_append, List.length_append, hone]
    omega
  · have hnone : ∀ r, .ran (some r) ∉ pre := by
      rcases hpre with rfl | rfl <;> simp
    obtain ⟨v, hv, hback⟩ := h.back
    refine ⟨v, hv.trans hid, hback.imp ?_ ?_⟩
    · rintro ⟨hb, r, hlast, hret⟩
      refine ⟨hb, r, ?_, hret⟩
      rw [List.getLast?_append, hlast]
      rfl
    · rintro ⟨hb, hno, hret⟩
      refine ⟨hb, fun r hr => ?_, hret⟩
      rcases List.mem_append.1 hr with hr | hr
      · exact hnone r hr
      · exact hno r hr

section Arm

variable {f : Function} (hlabel : invoke.label.bind (·.into) = some label)
  (hprivilege : invoke.gatePrivilege.bind (·.into) = some privilege)
  (hf : invoke.function = some f) (hvm : s.allocated = some (some vm))

include hlabel hprivilege hf hvm

/-- The arm up to the attempts, and the report after them. -/
theorem exec_processTask (rounds : ℕ) :
    scripted.exec (processTask rounds taskId invoke) s =
      match scripted.exec (attempts invoke label privilege rounds 0 vm
        (failure .processRequestFailed s.label)) s with
      | (.ok ret, s') => (.ok (), { s' with log := s'.log ++ [.finished taskId ret] })
      | (.error e, s') => (.error e, s') := by
  have halloc : scripted.exec (tryAllocate f label) s = (.ok (some (some vm)), s) := by
    show (Except.ok s.allocated, s) = _
    rw [hvm]
  unfold processTask
  rw [hlabel, hprivilege, hf]
  show scripted.exec (tryAllocate f label >>= _) s = _
  rw [Handler.exec_bind_ok _ halloc]
  show scripted.exec (attempts invoke label privilege rounds 0 vm
    (failure .processRequestFailed s.label) >>= _) s = _
  rw [Handler.exec_bind]
  rcases scripted.exec (attempts invoke label privilege rounds 0 vm
    (failure .processRequestFailed s.label)) s with ⟨e | ret, s'⟩ <;> rfl

end Arm

end Worker

end Faasten

namespace Faasten.Boot

open Effect Worker
open Script (scripted)

/-- A function whose images have names of the right form. -/
def resizer : Function := ⟨1, "0aa", "0bb", "0cc"⟩

/-- A VM that was not launched yet. -/
def vm : Vm where
  id := 1
  function := resizer
  label := ⟨.dcTrue, .dcTrue⟩
  handle := false
  ran := []

/-- A public task. -/
def task : LabeledInvoke where
  function := some resizer
  label := some (.ofBuckle ⟨.dcTrue, .dcTrue⟩)
  gatePrivilege := some (.ofComponent .dcTrue)
  payload := []
  blobs := ∅
  headers := ∅
  sync := true
  invoker := some (.ofComponent .dcTrue)

end Faasten.Boot
