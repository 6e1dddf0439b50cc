import Mathlib
import Faasten.Worker.Isolation
import Faasten.Worker.Reuse

/-!
# The tasks that share a VM

On a worker machine any number of worker threads share one resource manager, and with it the VMs that
their tasks have left in the cache. `try_allocate` compares the label of a cached VM with that of the
payload; but no line of the source ever sets the label of a VM after `Vm::new`, so it stays public, and
the comparison holds for every payload.

* `machine` is such a machine: the threads are programs (`Worker.waitAndProcess`), each at a bench of its
  own, and an operation on VMs works on the shared manager; `events` remembers who got which VM, and which
  VMs were released after what;
* `Recorded`, the invariant: what is cached has been released, and is filed under its function;
* `tasks_bounded`: the tasks that ran in a VM are bounded by the payload that it is handed out for, in
  every run in which the payloads for a function never fall below the labels at which earlier tasks for it
  ended.
-/

namespace Faasten

open Effect

variable [LabelCrate]

/-- What happens to the VMs of a machine: `try_allocate` has decided for a task, or a VM was released. -/
inductive VmEvent
  | allocated (f : Function) (payloadLabel : Buckle) (vm : Option Vm)
  | released (vm : Vm)
  deriving DecidableEq

/-- The resource manager, the number of passes for each of its evictions, and what has happened. -/
structure Fleet where
  rm : ResourceManager
  passes : Stream' ℕ
  events : List VmEvent := []

/-- What the operations of a worker thread do at its bench, and to the manager that all of them share. -/
def machine (rounds n : ℕ) (ι : Type) : Machine tasks ι Bench Fleet where
  perform _ o b s :=
    match o with
    | .tryAllocate f payloadLabel =>
        match s.rm.tryAllocate s.passes.head f payloadLabel with
        | none => (none, b, { s with passes := s.passes.tail })
        | some (vm, rm) =>
            (some vm, b, { rm
                           passes := s.passes.tail
                           events := s.events ++ [.allocated f payloadLabel vm] })
    | .release vm =>
        ((), b, { s with rm := s.rm.release vm, events := s.events ++ [.released vm] })
    | .delete vm => ((), b, { s with rm := s.rm.delete vm })
    | o => ((Bench.perform rounds n o b).1, (Bench.perform rounds n o b).2, s)

/-- A machine with this much memory. Thread `i` works at the bench `benches i`, and looks at so many
responses of the scheduler. -/
def workers (rounds : ℕ) {ι : Type} (totalMem : ℕ) (passes : Stream' ℕ) (benches : ι → Bench)
    (responses : ι → ℕ) : Pool tasks Raised Unit ι Bench Fleet where
  shared := { rm := .new totalMem, passes }
  loc := benches
  prog i := Worker.waitAndProcess rounds (responses i)

namespace VmEvent

/-- A VM is handed out for a payload whose label bounds all that has run in it. -/
def Bounded : VmEvent → Prop
  | .allocated _ payloadLabel (some vm) => ∀ left ∈ vm.ran, canFlowTo left payloadLabel
  | _ => True

/-- The payload of a later task for the function of a VM is not below the labels at which the tasks that
ran in the VM ended. -/
def Ascends : VmEvent → VmEvent → Prop
  | .released vm, .allocated f payloadLabel _ =>
      vm.function = f → ∀ left ∈ vm.ran, canFlowTo left payloadLabel
  | _, _ => True

end VmEvent

/-! ### What is cached -/

namespace ResourceManager

variable {rm rm' : ResourceManager} {f : Function} {passes : ℕ} {payloadLabel : Buckle}

/-- `new_vm` adds nothing to the cache. -/
theorem newVm_cached (hfiled : Cache.Filed rm.cache) {vm : Option Vm}
    (h : rm.newVm passes f = some (vm, rm')) :
    Cache.Filed rm'.cache ∧ (∀ v ∈ Cache.vms rm'.cache, v ∈ Cache.vms rm.cache) ∧
      ∀ v ∈ vm, v.ran = [] := by
  obtain ⟨gone, hperm, hfiled', -, -, -, hnew⟩ := newVm_spec hfiled h
  refine ⟨hfiled', fun v hv => ?_, fun v hv => ?_⟩
  · exact hperm.symm.subset (List.mem_append_left gone hv)
  · rw [(hnew v hv).1]
    rfl

/-- `try_allocate` hands out a VM that was cached for the function, or a new one. -/
theorem tryAllocate_cached (hfiled : Cache.Filed rm.cache) {vm : Option Vm}
    (h : rm.tryAllocate passes f payloadLabel = some (vm, rm')) :
    Cache.Filed rm'.cache ∧ (∀ v ∈ Cache.vms rm'.cache, v ∈ Cache.vms rm.cache) ∧
      ∀ v ∈ vm, v.ran = [] ∨ v.function = f ∧ v ∈ Cache.vms rm.cache := by
  rcases hget : rm.getCachedVm f with ⟨cached, rm₁⟩
  obtain ⟨hperm, hfiled₁, hown, -, -, -⟩ := getCachedVm_spec hfiled hget
  have hsub : ∀ v ∈ Cache.vms rm₁.cache, v ∈ Cache.vms rm.cache := fun v hv =>
    hperm.subset (List.mem_append_left _ hv)
  unfold tryAllocate at h
  rw [hget] at h
  cases cached with
  | none =>
    obtain ⟨hfiled', hsub', hnew⟩ := newVm_cached hfiled₁ h
    exact ⟨hfiled', fun v hv => hsub v (hsub' v hv), fun v hv => .inl (hnew v hv)⟩
  | some cached =>
    have hcached : cached ∈ Cache.vms rm.cache :=
      hperm.subset (List.mem_append_right _ (by simp))
    simp only at h
    split_ifs at h with hflow
    · cases h
      refine ⟨hfiled₁, hsub, fun v hv => .inr ?_⟩
      cases hv
      exact ⟨hown cached rfl, hcached⟩
    · -- it is put back, and nothing else is added
      obtain ⟨hback, hfiled₂, -⟩ := release_spec hfiled₁ cached
      obtain ⟨hfiled', hsub', hnew⟩ := newVm_cached hfiled₂ h
      refine ⟨hfiled', fun v hv => ?_, fun v hv => .inl (hnew v hv)⟩
      rcases List.mem_cons.1 (hback.subset (hsub' v hv)) with rfl | hv
      · exact hcached
      · exact hsub v hv

end ResourceManager

/-! ### Runs of the machine -/

/-- What is cached was released as it is, and is filed under its function. If the payloads ascend, then
every VM has been handed out to a task whose payload bounds what ran in it. -/
structure Fleet.Recorded (s : Fleet) : Prop where
  filed : Cache.Filed s.rm.cache
  released : ∀ vm ∈ Cache.vms s.rm.cache, .released vm ∈ s.events
  bounded : s.events.Pairwise VmEvent.Ascends → ∀ e ∈ s.events, e.Bounded

section Runs

variable {rounds n : ℕ} {ι : Type} {s : Fleet}

/-- One operation of one thread. -/
theorem Fleet.Recorded.perform (h : s.Recorded) (i : ι) (o : TaskOp) (b : Bench) :
    ((machine rounds n ι).perform i o b s).2.2.Recorded := by
  cases o with
  | tryAllocate f payloadLabel =>
    unfold machine
    simp only
    split
    · exact ⟨h.filed, h.released, h.bounded⟩
    · next vm rm htry =>
      obtain ⟨hfiled, hsub, hvm⟩ := ResourceManager.tryAllocate_cached h.filed htry
      refine ⟨hfiled, fun v hv => List.mem_append_left _ (h.released v (hsub v hv)), ?_⟩
      intro hasc e he
      obtain ⟨hasc, -, hlast⟩ := List.pairwise_append.1 hasc
      rcases List.mem_append.1 he with he | he
      · exact h.bounded hasc e he
      · rw [List.mem_singleton.1 he]
        cases vm with
        | none => trivial
        | some v =>
          rcases hvm v rfl with hnew | ⟨hf, hv⟩
          · show ∀ left ∈ v.ran, _
            rw [hnew]
            nofun
          · -- it has been released, and this task comes later
            exact hlast _ (h.released v hv) _ (List.mem_singleton_self _) hf
  | release vm =>
    obtain ⟨hperm, hfiled, -⟩ := ResourceManager.release_spec h.filed vm
    refine ⟨hfiled, fun v hv => ?_, fun hasc e he => ?_⟩
    · rcases List.mem_cons.1 (hperm.subset hv) with rfl | hv
      · exact List.mem_append_right _ (List.mem_singleton_self _)
      · exact List.mem_append_left _ (h.released v hv)
    · rcases List.mem_append.1 he with he | he
      · exact h.bounded (List.pairwise_append.1 hasc).1 e he
      · rw [List.mem_singleton.1 he]
        trivial
  | delete vm => exact ⟨h.filed, h.released, h.bounded⟩
  | _ => exact h

/-- Any number of operations, in any order. -/
theorem Fleet.Recorded.run [DecidableEq ι] {p : Pool tasks Raised Unit ι Bench Fleet}
    (h : p.shared.Recorded) (schedule : List ι) :
    (p.run (machine rounds n ι) schedule).shared.Recorded := by
  induction schedule generalizing p with
  | nil => exact h
  | cons i schedule ih =>
    rw [Pool.run_cons]
    refine ih ?_
    obtain hp | ⟨o, k, -, hp⟩ := p.advance_cases (machine rounds n ι) i
    · rw [hp]
      exact h
    · rw [hp]
      exact h.perform i o (p.loc i)

/-- **Tasks that share a VM**: on every machine, under every schedule, if the payloads for a function
never fall below the labels at which earlier tasks ended in the VMs of the function, then whoever is
handed a VM has a payload that bounds all that ran in it. -/
theorem tasks_bounded [DecidableEq ι] (rounds n totalMem : ℕ) (passes : Stream' ℕ) (benches : ι → Bench)
    (responses : ι → ℕ) (schedule : List ι)
    (hasc : ((workers rounds totalMem passes benches responses).run (machine rounds n ι)
      schedule).shared.events.Pairwise VmEvent.Ascends) :
    ∀ e ∈ ((workers rounds totalMem passes benches responses).run (machine rounds n ι)
      schedule).shared.events, e.Bounded := by
  have hstart : (workers rounds totalMem passes benches responses).shared.Recorded := by
    refine ⟨nofun, nofun, fun _ => nofun⟩
  exact (hstart.run schedule).bounded hasc

end Runs

end Faasten

/-! ### The VM of another user -/

namespace Faasten.Leftover

open Effect Bench
open scoped Dc

/-- Two tasks come in, one after the other. -/
def twoTasks (first second : LabeledInvoke) : Bench :=
  { responsive with responses := fun k =>
      if k = 0 then .processTask "1" (some first)
      else if k = 1 then .processTask "2" (some second) else .terminate }

/-- What has happened to the VMs of a machine with one worker thread, when the second task has a VM. -/
def events (first second : LabeledInvoke) : List VmEvent :=
  ((workers 5 1 (.const 0) (fun _ : Unit => twoTasks first second) (fun _ => 3)).run
    (machine 5 1 Unit) (List.replicate 9 ())).shared.events

/-- The function of the tasks. -/
def function : Function := ⟨1, "0aa", "0bb", "0cc"⟩

/-- The VM in which the task of `bob` has run. Its label says that it is public. -/
def bobsVm : Vm := ⟨1, function, publicLabel, true, [lub publicLabel bobs]⟩

theorem events_eq {second : Buckle} (h : second = bobs ∨ second = publicLabel) :
    events (tainting bobs) (tainting second) =
      [.allocated function bobs (some (.new 1 function)), .released bobsVm,
        .allocated function second (some bobsVm)] := by
  rcases h with rfl | rfl <;> decide +kernel

/-- The next task of `bob` gets the VM of the first, and may. -/
theorem bob_again :
    events (tainting bobs) (tainting bobs) =
        [.allocated function bobs (some (.new 1 function)), .released bobsVm,
          .allocated function bobs (some bobsVm)] ∧
      ∀ e ∈ events (tainting bobs) (tainting bobs), e.Bounded := by
  refine ⟨events_eq (.inl rfl), tasks_bounded 5 1 1 (.const 0)
    (fun _ : Unit => twoTasks (tainting bobs) (tainting bobs)) (fun _ => 3) (List.replicate 9 ()) ?_⟩
  change (events (tainting bobs) (tainting bobs)).Pairwise VmEvent.Ascends
  rw [events_eq (.inl rfl)]
  have hflow : canFlowTo (lub publicLabel bobs) bobs = true := by decide
  simp [VmEvent.Ascends, bobsVm, hflow]

/-- **A public task gets the VM in which the task of `bob` has run.** -/
theorem public_after_bob :
    .allocated function publicLabel (some bobsVm) ∈ events (tainting bobs) (tainting publicLabel) ∧
      ¬∀ e ∈ events (tainting bobs) (tainting publicLabel), e.Bounded := by
  have hmem : .allocated function publicLabel (some bobsVm) ∈
      events (tainting bobs) (tainting publicLabel) := by
    rw [events_eq (.inr rfl)]
    simp
  refine ⟨hmem, fun h => ?_⟩
  have hflow : canFlowTo (lub publicLabel bobs) publicLabel = true :=
    h _ hmem _ (List.mem_singleton_self _)
  exact absurd hflow (by decide)

end Faasten.Leftover
