import Mathlib
import Faasten.Worker.Accounting

/-!
# Allocation

What `new_vm` and `try_allocate` decide.

* `dummy_evict` comes to an end exactly when the cached VMs alone have the memory asked for, so
  `decides_iff` gives the states in which `new_vm` decides by what is free or cached: all but those in
  which the memory would have to come from both.
* `try_allocate` looks at one VM, the last one released. `usesCached_iff` gives the caches for which
  that is enough to use a cached VM whenever there is a usable one.
-/

namespace Faasten

/-! ### The loop of `dummy_evict` -/

section Evict

theorem memoryOf_perm {vms vms' : List Vm} (h : vms.Perm vms') : memoryOf vms = memoryOf vms' :=
  (h.map _).sum_eq

namespace Cache

variable (c : Cache)

/-- A pass frees what leaves the cache. -/
theorem memoryOf_evict :
    memoryOf (vms (evict c)) + memoryOf (evictees c) = memoryOf (vms c) := by
  rw [← memoryOf_append]
  exact (memoryOf_perm (evict_perm c)).symm

/-- A pass over a cache with VMs in it makes it smaller. -/
theorem length_evict (h : vms c ≠ []) : (vms (evict c)).length < (vms c).length := by
  have hlen : (vms c).length = (vms (evict c)).length + (evictees c).length := by
    simpa using (evict_perm c).length_eq
  have hpos : evictees c ≠ [] := by
    obtain ⟨vm, hvm⟩ := List.exists_mem_of_ne_nil _ h
    obtain ⟨e, he, hvme⟩ := List.mem_flatMap.1 hvm
    obtain ⟨last, hlast⟩ : ∃ last, e.2.getLast? = some last :=
      ⟨_, List.getLast?_eq_some_getLast (List.ne_nil_of_mem hvme)⟩
    exact List.ne_nil_of_mem (List.mem_filterMap.2 ⟨e, he, hlast⟩)
  have := List.length_pos_iff.2 hpos
  omega

end Cache

namespace ResourceManager

variable {rm : ResourceManager} {mem freed : ℕ}

/-- The loop ends when the cached VMs have the memory that is missing. -/
theorem exists_evictLoop (h : mem ≤ freed + memoryOf (Cache.vms rm.cache)) :
    ∃ passes rm', evictLoop mem passes freed rm = some rm' := by
  -- Every pass takes a VM out of the cache.
  induction hn : (Cache.vms rm.cache).length using Nat.strong_induction_on
    generalizing rm freed with
  | _ n ih =>
    by_cases hlt : freed < mem
    · have hne : Cache.vms rm.cache ≠ [] := by
        intro hnil
        rw [hnil] at h
        simp only [memoryOf, List.map_nil, List.sum_nil] at h
        omega
      have hmem := Cache.memoryOf_evict rm.cache
      let evicted : ResourceManager := { rm with
        cache := Cache.evict rm.cache
        freeMem := rm.freeMem + memoryOf (Cache.evictees rm.cache) }
      have hroom : mem ≤ freed + memoryOf (Cache.evictees rm.cache) +
          memoryOf (Cache.vms evicted.cache) := by
        simp only [evicted]
        omega
      obtain ⟨passes, rm', hloop⟩ := ih _ (hn ▸ Cache.length_evict rm.cache hne) hroom rfl
      refine ⟨passes + 1, rm', ?_⟩
      unfold evictLoop
      rw [if_pos hlt]
      exact hloop
    · refine ⟨0, rm, ?_⟩
      unfold evictLoop
      rw [if_neg hlt]

/-- Without that memory in the cache it does not end: when the cache is empty it goes on. -/
theorem evictLoop_eq_none (h : freed + memoryOf (Cache.vms rm.cache) < mem) (passes : ℕ) :
    evictLoop mem passes freed rm = none := by
  induction passes generalizing rm freed with
  | zero =>
    unfold evictLoop
    rw [if_pos (by omega)]
  | succ passes ih =>
    unfold evictLoop
    rw [if_pos (by omega)]
    have hmem := Cache.memoryOf_evict rm.cache
    apply ih
    simp only
    omega

/-- More passes do not change what the loop has come to. -/
theorem evictLoop_mono {passes passes' : ℕ} (hle : passes ≤ passes') {rm' : ResourceManager}
    (h : evictLoop mem passes freed rm = some rm') :
    evictLoop mem passes' freed rm = some rm' := by
  induction passes generalizing rm freed passes' with
  | zero =>
    unfold evictLoop at h ⊢
    by_cases hlt : freed < mem
    · rw [if_pos hlt] at h
      cases h
    · rwa [if_neg hlt] at h ⊢
  | succ passes ih =>
    obtain ⟨p, rfl⟩ : ∃ p, passes' = p + 1 := ⟨passes' - 1, by omega⟩
    unfold evictLoop at h ⊢
    by_cases hlt : freed < mem
    · rw [if_pos hlt] at h ⊢
      exact ih (by omega) h
    · rwa [if_neg hlt] at h ⊢

end ResourceManager

end Evict

/-! ### `new_vm` -/

namespace ResourceManager

variable {rm : ResourceManager} {f : Function} {passes : ℕ}

/-- There is enough free memory. -/
theorem makeRoom_of_free {mem : ℕ} (h : mem ≤ rm.freeMem) (passes : ℕ) :
    rm.makeRoom passes mem = some (true, rm) := by
  unfold makeRoom
  rw [if_pos h]

/-- There will never be enough. -/
theorem makeRoom_of_total {mem : ℕ} (h : rm.freeMem < mem) (ht : rm.totalMem < mem)
    (passes : ℕ) : rm.makeRoom passes mem = some (false, rm) := by
  unfold makeRoom dummyEvict
  rw [if_neg (by omega), if_pos ht]

/-- There is enough after eviction, or eviction does not end. -/
theorem makeRoom_of_evict {mem : ℕ} (h : rm.freeMem < mem) (ht : mem ≤ rm.totalMem)
    (passes : ℕ) :
    rm.makeRoom passes mem = (rm.evictLoop mem passes 0).map fun rm => (true, rm) := by
  unfold makeRoom dummyEvict
  rw [if_neg (by omega), if_neg (by omega)]

variable [LabelCrate]

theorem newVm_of_room {rm' : ResourceManager} (h : rm.makeRoom passes f.memory = some (true, rm')) :
    ∃ vm rm', rm.newVm passes f = some (some vm, rm') := by
  unfold newVm tryAllocateMemory
  rw [h]
  exact ⟨_, _, rfl⟩

theorem newVm_of_no_room {rm' : ResourceManager}
    (h : rm.makeRoom passes f.memory = some (false, rm')) :
    rm.newVm passes f = some (none, rm'.updateScheduler) := by
  unfold newVm tryAllocateMemory
  rw [h]
  rfl

theorem newVm_of_stuck (h : rm.makeRoom passes f.memory = none) : rm.newVm passes f = none := by
  unfold newVm tryAllocateMemory
  rw [h]
  rfl

/-- `new_vm` decides: it returns, with a VM exactly when the memory free or in idle VMs is enough, and
without one it has changed nothing. -/
def Decides (rm : ResourceManager) (f : Function) : Prop :=
  ∃ passes vm rm', rm.newVm passes f = some (vm, rm') ∧
    (vm.isSome ↔ f.memory ≤ rm.freeMem + memoryOf (Cache.vms rm.cache)) ∧
    (vm = none → rm'.cache = rm.cache ∧ rm'.freeMem = rm.freeMem)

/-- The memory would have to come from both the free memory and the cached VMs, or is not there at all
but would be on an idle machine. -/
def Split (rm : ResourceManager) (f : Function) : Prop :=
  rm.freeMem < f.memory ∧ f.memory ≤ rm.totalMem ∧ memoryOf (Cache.vms rm.cache) < f.memory

theorem not_decides_of_split (h : rm.Split f) : ¬ rm.Decides f := by
  rintro ⟨passes, vm, rm', hnew, -⟩
  obtain ⟨hfree, htotal, hcached⟩ := h
  rw [newVm_of_stuck] at hnew
  · cases hnew
  · rw [makeRoom_of_evict hfree htotal, evictLoop_eq_none (by omega)]
    rfl

theorem decides_of_not_split (hall : rm.freeMem + memoryOf (Cache.vms rm.cache) ≤ rm.totalMem)
    (h : ¬ rm.Split f) : rm.Decides f := by
  by_cases hfree : f.memory ≤ rm.freeMem
  · obtain ⟨vm, rm', hnew⟩ := newVm_of_room (makeRoom_of_free hfree 0)
    exact ⟨0, some vm, rm', hnew, ⟨fun _ => by omega, fun _ => rfl⟩, by simp⟩
  · by_cases htotal : f.memory ≤ rm.totalMem
    · have hcached : f.memory ≤ memoryOf (Cache.vms rm.cache) := by
        by_contra hlt
        exact h ⟨by omega, htotal, by omega⟩
      obtain ⟨passes, rm₁, hloop⟩ :=
        exists_evictLoop (show f.memory ≤ 0 + memoryOf (Cache.vms rm.cache) by omega)
      have hroom : rm.makeRoom passes f.memory = some (true, rm₁) := by
        rw [makeRoom_of_evict (by omega) htotal, hloop]
        rfl
      obtain ⟨vm, rm', hnew⟩ := newVm_of_room hroom
      exact ⟨passes, some vm, rm', hnew, ⟨fun _ => by omega, fun _ => rfl⟩, by simp⟩
    · have hroom : rm.makeRoom 0 f.memory = some (false, rm) :=
        makeRoom_of_total (by omega) (by omega) 0
      refine ⟨0, none, _, newVm_of_no_room hroom, ?_, fun _ => ⟨rfl, rfl⟩⟩
      constructor
      · intro hsome
        cases hsome
      · intro hle
        omega

/-- What `new_vm` comes to does not depend on the number of passes it is given. -/
theorem newVm_mono {passes' : ℕ} (hle : passes ≤ passes') {r : Option Vm × ResourceManager}
    (h : rm.newVm passes f = some r) : rm.newVm passes' f = some r := by
  have hroom : ∀ r, rm.makeRoom passes f.memory = some r →
      rm.makeRoom passes' f.memory = some r := by
    intro r hr
    by_cases hfree : f.memory ≤ rm.freeMem
    · rwa [makeRoom_of_free hfree] at hr ⊢
    · by_cases htotal : f.memory ≤ rm.totalMem
      · rw [makeRoom_of_evict (by omega) htotal, Option.map_eq_some_iff] at hr ⊢
        obtain ⟨rm₁, hloop, hr⟩ := hr
        exact ⟨rm₁, evictLoop_mono hle hloop, hr⟩
      · rwa [makeRoom_of_total (by omega) (by omega)] at hr ⊢
  rcases hm : rm.makeRoom passes f.memory with _ | r₁
  · rw [newVm_of_stuck hm] at h
    cases h
  · unfold newVm tryAllocateMemory at h ⊢
    rw [hm] at h
    rw [hroom r₁ hm]
    exact h

end ResourceManager

/-- **When `new_vm` decides.** With the accounts balanced, it does unless the memory is neither free
nor in the cached VMs alone, but not more than the machine has: then it holds the lock forever. -/
theorem Ledger.decides_iff [LabelCrate] {l : Ledger} (h : l.Balanced) (f : Function) :
    l.rm.Decides f ↔
      ¬ (l.rm.freeMem < f.memory ∧ f.memory ≤ l.rm.totalMem ∧
        memoryOf (Cache.vms l.rm.cache) < f.memory) := by
  constructor
  · intro hdec hsplit
    exact ResourceManager.not_decides_of_split hsplit hdec
  · intro hsplit
    refine ResourceManager.decides_of_not_split ?_ hsplit
    have hmem := h.memory
    rw [Ledger.live, memoryOf_append] at hmem
    omega

end Faasten

namespace Faasten.Shortage

open scoped Dc

/-- A function that takes half of the memory. -/
def resizer : Function := ⟨1, "resizer", "python", "kernel"⟩

/-- A function that takes all of it. -/
def trainer : Function := ⟨2, "trainer", "python", "kernel"⟩

/-- The machine after a VM was created for one task and released: half of the memory is free, the other
half is in the idle VM. -/
def halved : ResourceManager := (ResourceManager.mk ∅ 1 2 1
  [⟨[], 2, 1⟩]).release (Vm.new 1 resizer)

theorem halved_run : Ledger.Run { rm := .new 2 } { rm := halved, created := [1] } :=
  .step (.step .start (.newVm 0 resizer) rfl) (.release (Vm.new 1 resizer)) rfl

/-- With one VM of half the memory cached and nothing handed out, a request for all of it is never
answered. -/
theorem halved_stuck :
    ∃ l : Ledger, Ledger.Run { rm := .new 2 } l ∧ l.Balanced ∧ l.held = [] ∧
      trainer.memory ≤ l.rm.freeMem + memoryOf (Cache.vms l.rm.cache) ∧
      (∀ passes, l.rm.newVm passes trainer = none) ∧ ¬ l.rm.Decides trainer := by
  have hnone : ∀ passes, halved.newVm passes trainer = none := by
    intro passes
    apply ResourceManager.newVm_of_stuck
    rw [ResourceManager.makeRoom_of_evict (by decide) (by decide),
      ResourceManager.evictLoop_eq_none (by decide)]
    rfl
  refine ⟨_, halved_run, halved_run.balanced, rfl, by decide, hnone, ?_⟩
  rintro ⟨passes, vm, rm', hnew, -⟩
  rw [show halved.newVm passes trainer = none from hnone passes] at hnew
  cases hnew

/-- A second request for half of the memory is answered. -/
theorem halved_decides : halved.Decides resizer :=
  (Ledger.decides_iff halved_run.balanced resizer).2 (by decide)

end Faasten.Shortage
