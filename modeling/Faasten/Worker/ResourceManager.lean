import Mathlib
import Faasten.Buckle
import Faasten.Fs.Object

/-!
# The local resource manager

`ResourceManager` of `resource_manager.rs` and `Vm` of `vm.rs`: each worker machine has one manager,
shared by its worker threads behind a lock. Idle VMs are cached per function, the last released
first; memory is reserved when a VM is created and given back when it is deleted or evicted.

* The `HashMap` of the cache is an association list without repeated keys; its order stands for the
  unspecified order of iteration. One pass of `dummy_evict` takes one VM from every list, in
  whatever order.
* `reports` are the `ResourceInfo`s sent to the scheduler so far.
* `ran` is not part of the source: it remembers the labels at which runs in this VM ended.
* `dummy_evict` takes the number of its passes as an argument; `none` means that it has not come to
  an end with them.
-/

namespace Faasten

/-- `vm::Vm`. The handle is there once the VM has been launched. -/
structure Vm where
  id : ℕ
  function : Function
  label : Buckle
  handle : Bool
  ran : List Buckle
  deriving DecidableEq

/-- `Vm::new` -/
def Vm.new [LabelCrate] (id : ℕ) (function : Function) : Vm where
  id
  function
  label := publicLabel
  handle := false
  ran := []

/-- `Vm::launch`, given whether the process can be started and connects; `none` is an error. -/
def Vm.launch (vm : Vm) (boots : Bool) : Option Vm :=
  if vm.handle then some vm
  else if boots then some { vm with handle := true }
  else none

/-- The VM after a run in it ended with this label. -/
def Vm.after (vm : Vm) (label : Buckle) : Vm := { vm with ran := vm.ran ++ [label] }

/-- The idle VMs of each function. -/
abbrev Cache := AList fun _ : Function => List Vm

/-- `rpc::ResourceInfo` -/
structure ResourceInfo where
  stats : List (Function × ℕ)
  totalMem : ℕ
  freeMem : ℕ
  deriving DecidableEq

/-- `ResourceManager` -/
structure ResourceManager where
  cache : Cache := ∅
  totalNumVms : ℕ := 0
  totalMem : ℕ
  freeMem : ℕ
  reports : List ResourceInfo := []

namespace ResourceManager

/-- `ResourceManager::new`, on a machine with this much memory; `set_total_mem` gives such a manager
again. -/
def new (totalMem : ℕ) : ResourceManager where
  totalMem
  freeMem := totalMem

variable (rm : ResourceManager)

/-- `update_scheduler` -/
def updateScheduler : ResourceManager :=
  { rm with
    reports := rm.reports ++ [{ stats := rm.cache.entries.map fun e => (e.1, e.2.length)
                                totalMem := rm.totalMem
                                freeMem := rm.freeMem }] }

/-- `get_cached_vm` -/
def getCachedVm (f : Function) : Option Vm × ResourceManager :=
  match rm.cache.lookup f with
  | none => (none, rm.updateScheduler)
  | some l =>
      (l.getLast?, { rm with cache := rm.cache.insert f l.dropLast : ResourceManager }.updateScheduler)

/-- `release` -/
def release (vm : Vm) : ResourceManager :=
  match rm.cache.lookup vm.function with
  | some l =>
      { rm with cache := rm.cache.insert vm.function (l ++ [vm]) : ResourceManager }.updateScheduler
  | none =>
      { rm with cache := rm.cache.insert vm.function [vm] : ResourceManager }.updateScheduler

/-- `delete` -/
def delete (vm : Vm) : ResourceManager :=
  { rm with freeMem := rm.freeMem + vm.function.memory : ResourceManager }.updateScheduler

end ResourceManager

/-- The cache after one pass of `dummy_evict`: one VM less in every list. -/
def Cache.evict (c : Cache) : Cache where
  entries := c.entries.map fun e => ⟨e.1, e.2.dropLast⟩
  nodupKeys := by
    have h := c.nodupKeys
    unfold List.NodupKeys List.keys at h ⊢
    rwa [List.map_map]

/-- The VMs that one pass of `dummy_evict` drops. -/
def Cache.evictees (c : Cache) : List Vm := c.entries.filterMap (·.2.getLast?)

/-- The memory of a list of VMs. -/
def memoryOf (vms : List Vm) : ℕ := (vms.map (·.function.memory)).sum

namespace ResourceManager

variable (rm : ResourceManager)

/-- The loop of `dummy_evict`. -/
def evictLoop (mem : ℕ) : ℕ → ℕ → ResourceManager → Option ResourceManager
  | passes, freed, rm =>
      if freed < mem then
        match passes with
        | 0 => none
        | passes + 1 =>
            let memory := memoryOf (Cache.evictees rm.cache)
            evictLoop mem passes (freed + memory)
              { rm with cache := Cache.evict rm.cache, freeMem := rm.freeMem + memory }
      else some rm

/-- `dummy_evict` -/
def dummyEvict (passes mem : ℕ) : Option (Bool × ResourceManager) :=
  if rm.totalMem < mem then some (false, rm)
  else (rm.evictLoop mem passes 0).map fun rm => (true, rm)

/-- The condition of `try_allocate_memory`: there is enough free memory, or there is after
eviction. -/
def makeRoom (passes memory : ℕ) : Option (Bool × ResourceManager) :=
  if memory ≤ rm.freeMem then some (true, rm) else rm.dummyEvict passes memory

/-- `try_allocate_memory` -/
def tryAllocateMemory (passes memory : ℕ) : Option (Bool × ResourceManager) := do
  let (room, rm) ← rm.makeRoom passes memory
  if room then
    return (true, { rm with freeMem := rm.freeMem - memory, totalNumVms := rm.totalNumVms + 1 })
  else return (false, rm)

variable [LabelCrate]

/-- `new_vm` -/
def newVm (passes : ℕ) (f : Function) : Option (Option Vm × ResourceManager) := do
  let (room, rm) ← rm.tryAllocateMemory passes f.memory
  if room then return (some (Vm.new rm.totalNumVms f), rm.updateScheduler)
  else return (none, rm.updateScheduler)

/-- `Worker::try_allocate`, which holds the lock throughout. -/
def tryAllocate (passes : ℕ) (f : Function) (payloadLabel : Buckle) :
    Option (Option Vm × ResourceManager) :=
  match rm.getCachedVm f with
  | (some vm, rm) =>
      if canFlowTo vm.label payloadLabel then some (some vm, rm)
      else (rm.release vm).newVm passes f
  | (none, rm) => rm.newVm passes f

end ResourceManager

/-! ### The cached VMs as one list -/

namespace Cache

variable {c : Cache} {f : Function} {l : List Vm}

/-- All cached VMs. -/
def vms (c : Cache) : List Vm := c.entries.flatMap (·.2)

/-- The list of a function and the rest of the cache. -/
theorem split (h : c.lookup f = some l) :
    ∃ rest, (vms c).Perm (l ++ rest) ∧ ∀ l', vms (c.insert f l') = l' ++ rest := by
  have hmem : f ∈ c.entries.keys := List.dlookup_isSome.1 (by
    rw [AList.lookup] at h
    rw [h]; rfl)
  obtain ⟨b, l₁, l₂, hf, hentries, herase⟩ := List.exists_of_kerase hmem
  have hb : b = l := by
    rw [AList.lookup, hentries, List.dlookup_append, List.dlookup_eq_none.2 hf] at h
    simpa using h
  subst hb
  refine ⟨(l₁ ++ l₂).flatMap (·.2), ?_, fun l' => ?_⟩
  · unfold vms
    rw [hentries]
    simp only [List.flatMap_append, List.flatMap_cons]
    exact List.perm_append_comm_assoc _ _ _
  · unfold vms
    rw [AList.entries_insert, herase]
    rfl

theorem vms_insert_new (h : c.lookup f = none) (l : List Vm) :
    vms (c.insert f l) = l ++ vms c := by
  unfold vms
  rw [AList.entries_insert, List.kerase_of_notMem_keys (List.dlookup_eq_none.1 h)]
  rfl

/-- A pass of `dummy_evict` splits the cached VMs. -/
theorem evict_perm (c : Cache) : (vms c).Perm (vms (evict c) ++ evictees c) := by
  have hall : ∀ es : List (Sigma fun _ : Function => List Vm),
      (es.flatMap (·.2)).Perm ((es.map fun e => (⟨e.1, e.2.dropLast⟩ : Sigma fun _ : Function =>
        List Vm)).flatMap (·.2) ++ es.filterMap (·.2.getLast?)) := by
    intro es
    induction es with
    | nil => exact .refl _
    | cons e es ih =>
      rcases hl : e.2.getLast? with _ | vm
      · have hnil : e.2 = [] := List.getLast?_eq_none_iff.1 hl
        simpa [hl, hnil] using ih
      · have hsplit : e.2 = e.2.dropLast ++ [vm] := by
          rw [List.dropLast_append_getLast? vm hl]
        simp only [List.flatMap_cons, List.map_cons, List.filterMap_cons, hl]
        refine (List.Perm.append_left e.2 ih).trans ?_
        rw [hsplit]
        simp only [List.dropLast_concat, List.append_assoc, List.singleton_append]
        exact List.Perm.append_left _ List.perm_middle.symm
  exact hall c.entries

theorem lookup_evict (c : Cache) (f : Function) :
    (evict c).lookup f = (c.lookup f).map List.dropLast := by
  obtain ⟨es, hes⟩ := c
  unfold evict AList.lookup
  simp only
  clear hes
  induction es with
  | nil => rfl
  | cons e es ih =>
    obtain ⟨g, l⟩ := e
    by_cases hg : f = g
    · subst hg; simp
    · simp [List.dlookup_cons_ne, hg, ih]

end Cache

end Faasten
