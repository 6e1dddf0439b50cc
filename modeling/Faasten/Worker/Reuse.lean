import Mathlib
import Faasten.Worker.Allocation

/-!
# Reuse of cached VMs

`try_allocate` takes the VM released last from the list of the function, and puts it back when it is too
tainted for the payload; then it asks for a new VM. `UsesCached` is what the use of tainted, cached VMs
is meant to be, and `usesCached_iff` says for which caches one look at the end of the list gives it.
-/

namespace Faasten

namespace ResourceManager

variable {rm rm' : ResourceManager} {f : Function} {passes : ℕ}

/-! ### What `new_vm` leaves in the cache -/

/-- The cache stays as it is, unless the free memory is too small. -/
theorem makeRoom_kept {mem : ℕ} {room : Bool} (h : rm.makeRoom passes mem = some (room, rm')) :
    rm' = rm ∨ rm.freeMem < mem ∧ room = true := by
  by_cases hfree : mem ≤ rm.freeMem
  · rw [makeRoom_of_free hfree] at h
    cases h
    exact .inl rfl
  · by_cases htotal : mem ≤ rm.totalMem
    · rw [makeRoom_of_evict (by omega) htotal, Option.map_eq_some_iff] at h
      obtain ⟨rm₁, -, hr⟩ := h
      cases hr
      exact .inr ⟨by omega, rfl⟩
    · rw [makeRoom_of_total (by omega) (by omega)] at h
      cases h
      exact .inl rfl

variable [LabelCrate]

/-- `new_vm` makes a VM with the next number, or none. -/
theorem newVm_cases {vm : Option Vm} (h : rm.newVm passes f = some (vm, rm')) :
    ∃ rm₁, rm'.cache = rm₁.cache ∧
      (rm.makeRoom passes f.memory = some (true, rm₁) ∧
          vm = some (Vm.new rm'.totalNumVms f) ∧ rm'.totalNumVms = rm₁.totalNumVms + 1 ∨
        rm.makeRoom passes f.memory = some (false, rm₁) ∧ vm = none ∧
          rm'.totalNumVms = rm₁.totalNumVms) := by
  unfold newVm tryAllocateMemory at h
  rcases hroom : rm.makeRoom passes f.memory with _ | ⟨room, rm₁⟩
  · rw [hroom] at h
    cases h
  · rw [hroom] at h
    refine ⟨rm₁, ?_⟩
    cases room with
    | true =>
      cases h
      exact ⟨rfl, .inl ⟨rfl, rfl, rfl⟩⟩
    | false =>
      cases h
      exact ⟨rfl, .inr ⟨rfl, rfl, rfl⟩⟩

/-- What `new_vm` hands out is new, and it drops idle VMs only for the memory of a new one. -/
theorem newVm_kept (hfiled : Cache.Filed rm.cache) {vm : Option Vm}
    (h : rm.newVm passes f = some (vm, rm')) :
    (∀ v ∈ vm, v = Vm.new rm'.totalNumVms f ∧ rm'.totalNumVms = rm.totalNumVms + 1) ∧
      (rm'.cache = rm.cache ∨
        rm.freeMem < f.memory ∧ rm'.totalNumVms = rm.totalNumVms + 1) := by
  obtain ⟨rm₁, hcache, ⟨hroom, rfl, hnum⟩ | ⟨hroom, rfl, hnum⟩⟩ := newVm_cases h
  · obtain ⟨-, -, -, -, -, -, hsame⟩ := makeRoom_spec hfiled hroom
    rw [hsame] at hnum
    refine ⟨?_, ?_⟩
    · rintro v hv
      cases hv
      exact ⟨rfl, hnum⟩
    · rcases makeRoom_kept hroom with rfl | ⟨hfree, -⟩
      · exact .inl hcache
      · exact .inr ⟨hfree, hnum⟩
  · refine ⟨by simp, ?_⟩
    rcases makeRoom_kept hroom with rfl | ⟨-, hfalse⟩
    · exact .inl hcache
    · cases hfalse

/-! ### `try_allocate` -/

variable {payloadLabel : Buckle}

/-- The VM that was released last among those that are idle for a function. -/
def lastReleased (rm : ResourceManager) (f : Function) : Option Vm :=
  (rm.cache.lookup f).bind List.getLast?

/-- A VM that is idle for the function and not too tainted for the payload. -/
def Usable (rm : ResourceManager) (f : Function) (payloadLabel : Buckle) (vm : Vm) : Prop :=
  ∃ vms, rm.cache.lookup f = some vms ∧ vm ∈ vms ∧ canFlowTo vm.label payloadLabel = true

/-- A usable cached VM is used, one that is too tainted is not, and the others stay cached. That no VM
is created shows in the number of VMs created so far. -/
structure UsesCached (rm : ResourceManager) (f : Function) (payloadLabel : Buckle) : Prop where
  uses : (∃ vm, rm.Usable f payloadLabel vm) → ∀ passes, ∃ vm rm',
    rm.tryAllocate passes f payloadLabel = some (some vm, rm') ∧ rm.Usable f payloadLabel vm ∧
      rm'.totalNumVms = rm.totalNumVms
  clean : ∀ passes vm rm', rm.tryAllocate passes f payloadLabel = some (some vm, rm') →
    rm.Usable f payloadLabel vm ∧ rm'.totalNumVms = rm.totalNumVms ∨
      vm = Vm.new rm'.totalNumVms f ∧ rm'.totalNumVms = rm.totalNumVms + 1
  kept : ∀ passes vm rm', rm.tryAllocate passes f payloadLabel = some (vm, rm') →
    (∃ v, vm = some v ∧ rm'.totalNumVms = rm.totalNumVms ∧
        (v :: Cache.vms rm'.cache).Perm (Cache.vms rm.cache)) ∨
      (Cache.vms rm'.cache).Perm (Cache.vms rm.cache) ∨
      rm.freeMem < f.memory ∧ rm'.totalNumVms = rm.totalNumVms + 1

/-- `try_allocate` hands out the VM released last, or does what `new_vm` does with the same VMs. -/
theorem tryAllocate_cases (hfiled : Cache.Filed rm.cache) (f : Function) (payloadLabel : Buckle)
    (passes : ℕ) :
    (∃ vm rm', rm.lastReleased f = some vm ∧ rm.Usable f payloadLabel vm ∧
        rm.tryAllocate passes f payloadLabel = some (some vm, rm') ∧
        rm'.totalNumVms = rm.totalNumVms ∧
        (vm :: Cache.vms rm'.cache).Perm (Cache.vms rm.cache)) ∨
      (∀ vm, rm.lastReleased f = some vm → ¬ canFlowTo vm.label payloadLabel = true) ∧
        ∃ rm₁ : ResourceManager, rm.tryAllocate passes f payloadLabel = rm₁.newVm passes f ∧
          Cache.Filed rm₁.cache ∧ rm₁.freeMem = rm.freeMem ∧
          rm₁.totalNumVms = rm.totalNumVms ∧
          (Cache.vms rm₁.cache).Perm (Cache.vms rm.cache) := by
  rcases hget : rm.getCachedVm f with ⟨vm, rm₁⟩
  obtain ⟨hperm, hfiled₁, hown, hfree, -, hnum⟩ := getCachedVm_spec hfiled hget
  have hlast : rm.lastReleased f = vm := by
    unfold getCachedVm at hget
    unfold lastReleased
    rcases hl : rm.cache.lookup f with _ | vms
    · rw [hl] at hget
      exact (Prod.mk.inj hget).1
    · rw [hl] at hget
      exact (Prod.mk.inj hget).1
  unfold tryAllocate
  rw [hget]
  cases vm with
  | none =>
    exact .inr ⟨by simp [hlast], rm₁, rfl, hfiled₁, hfree, hnum, by simpa using hperm⟩
  | some vm =>
    have hswap : (vm :: Cache.vms rm₁.cache).Perm (Cache.vms rm.cache) :=
      (List.perm_append_singleton vm _).symm.trans hperm
    by_cases hflow : canFlowTo vm.label payloadLabel = true
    · refine .inl ⟨vm, rm₁, hlast, ?_, by simp [hflow], hnum, hswap⟩
      obtain ⟨vms, hl, hvm⟩ := Option.bind_eq_some_iff.1 hlast
      exact ⟨vms, hl, List.mem_of_getLast? hvm, hflow⟩
    · refine .inr ⟨?_, rm₁.release vm, by simp [hflow], ?_⟩
      · intro v hv
        rw [hlast] at hv
        cases hv
        exact hflow
      · obtain ⟨hback, hfiled₂, hfree₂, -, hnum₂⟩ := release_spec hfiled₁ vm
        exact ⟨hfiled₂, hfree₂.trans hfree, hnum₂.trans hnum, hback.trans hswap⟩

theorem tryAllocate_clean (hfiled : Cache.Filed rm.cache) {vm : Vm}
    (h : rm.tryAllocate passes f payloadLabel = some (some vm, rm')) :
    rm.Usable f payloadLabel vm ∧ rm'.totalNumVms = rm.totalNumVms ∨
      vm = Vm.new rm'.totalNumVms f ∧ rm'.totalNumVms = rm.totalNumVms + 1 := by
  rcases tryAllocate_cases hfiled f payloadLabel passes with
    ⟨v, rm₁, -, husable, heq, hnum, -⟩ | ⟨-, rm₁, heq, hfiled₁, -, hnum, -⟩
  · rw [heq] at h
    cases h
    exact .inl ⟨husable, hnum⟩
  · rw [heq] at h
    obtain ⟨hv, hnum'⟩ := (newVm_kept hfiled₁ h).1 vm rfl
    exact .inr ⟨hv, hnum'.trans (by rw [hnum])⟩

theorem tryAllocate_kept (hfiled : Cache.Filed rm.cache) {vm : Option Vm}
    (h : rm.tryAllocate passes f payloadLabel = some (vm, rm')) :
    (∃ v, vm = some v ∧ rm'.totalNumVms = rm.totalNumVms ∧
        (v :: Cache.vms rm'.cache).Perm (Cache.vms rm.cache)) ∨
      (Cache.vms rm'.cache).Perm (Cache.vms rm.cache) ∨
      rm.freeMem < f.memory ∧ rm'.totalNumVms = rm.totalNumVms + 1 := by
  rcases tryAllocate_cases hfiled f payloadLabel passes with
    ⟨v, rm₁, -, -, heq, hnum, hperm⟩ | ⟨-, rm₁, heq, hfiled₁, hfree, hnum, hperm⟩
  · rw [heq] at h
    cases h
    exact .inl ⟨v, rfl, hnum, hperm⟩
  · rw [heq] at h
    rcases (newVm_kept hfiled₁ h).2 with hcache | ⟨hmem, hnum'⟩
    · exact .inr (.inl (hcache ▸ hperm))
    · exact .inr (.inr ⟨hfree ▸ hmem, hnum'.trans (by rw [hnum])⟩)

/-- **When a usable cached VM is used**: when there is none, or the VM released last is one. -/
theorem usesCached_iff (hfiled : Cache.Filed rm.cache) :
    rm.UsesCached f payloadLabel ↔
      ((∃ vm, rm.Usable f payloadLabel vm) →
        ∃ vm, rm.lastReleased f = some vm ∧ canFlowTo vm.label payloadLabel = true) := by
  constructor
  · intro h husable
    obtain ⟨vm, rm', heq, -, hnum⟩ := h.uses husable 0
    rcases tryAllocate_cases hfiled f payloadLabel 0 with
      ⟨v, -, hlast, ⟨-, -, -, hflow⟩, -⟩ | ⟨-, rm₁, heq', hfiled₁, -, hnum₁, -⟩
    · exact ⟨v, hlast, hflow⟩
    · -- A VM from `new_vm` is one more.
      rw [heq'] at heq
      have := ((newVm_kept hfiled₁ heq).1 vm rfl).2
      omega
  · intro h
    refine ⟨fun husable passes => ?_, fun _ _ _ => tryAllocate_clean hfiled,
      fun _ _ _ => tryAllocate_kept hfiled⟩
    obtain ⟨v, hlast, hflow⟩ := h husable
    rcases tryAllocate_cases hfiled f payloadLabel passes with
      ⟨v, rm', -, husable', heq, hnum, -⟩ | ⟨hno, -⟩
    · exact ⟨v, rm', heq, husable', hnum⟩
    · exact absurd hflow (hno v hlast)

end ResourceManager

end Faasten

namespace Faasten.Stack

open scoped Dc
open Shortage (resizer)

/-- What alice alone may read. -/
def secret : Buckle := ⟨.single ["alice"], .dcTrue⟩

/-- Two VMs of one function are idle: the public one was released first, the one with the secret in it
last. -/
def stacked : ResourceManager :=
  (ResourceManager.release
    { cache := ∅, totalNumVms := 2, totalMem := 3, freeMem := 1,
      reports := [⟨[], 3, 2⟩, ⟨[], 3, 1⟩] } (Vm.new 1 resizer)).release
    { Vm.new 2 resizer with label := secret }

theorem stacked_run : Ledger.Run { rm := .new 3 } { rm := stacked, created := [2, 1] } :=
  .step (.step (.step (.step (.step .start (.newVm 0 resizer) rfl)
    (.newVm 0 resizer) rfl)
    (.touch (Vm.new 2 resizer) { Vm.new 2 resizer with label := secret }) rfl)
    (.release (Vm.new 1 resizer)) rfl)
    (.release { Vm.new 2 resizer with label := secret }) rfl

theorem stacked_usable :
    stacked.Usable resizer publicLabel (Vm.new 1 resizer) :=
  ⟨[Vm.new 1 resizer, { Vm.new 2 resizer with label := secret }], rfl, by decide,
    by decide⟩

/-- The public VM is idle, and a third one is created for a public payload. -/
theorem stacked_unused :
    ∃ l : Ledger, Ledger.Run { rm := .new 3 } l ∧ Cache.Filed l.rm.cache ∧
      (∃ vm, l.rm.Usable resizer publicLabel vm) ∧
      (∃ rm', l.rm.tryAllocate 0 resizer publicLabel =
        some (some (Vm.new 3 resizer), rm')) ∧
      ¬ l.rm.UsesCached resizer publicLabel := by
  have hnew : ∃ rm', stacked.tryAllocate 0 resizer publicLabel =
      some (some (Vm.new 3 resizer), rm') ∧ rm'.totalNumVms = 3 := ⟨_, rfl, rfl⟩
  obtain ⟨rm', hnew, hnum⟩ := hnew
  refine ⟨_, stacked_run, stacked_run.balanced.filed, ⟨_, stacked_usable⟩, ⟨rm', hnew⟩, ?_⟩
  intro h
  obtain ⟨vm, rm'', heq, -, hsame⟩ := h.uses ⟨_, stacked_usable⟩ 0
  have hpair := Option.some.inj (hnew.symm.trans heq)
  have hrm : rm' = rm'' := congrArg Prod.snd hpair
  rw [← hrm, hnum] at hsame
  exact absurd hsame (by decide)

/-- For a payload that may carry the secret the VM released last is used. -/
theorem stacked_used : stacked.UsesCached resizer secret :=
  (ResourceManager.usesCached_iff stacked_run.balanced.filed).2 fun _ =>
    ⟨{ Vm.new 2 resizer with label := secret }, rfl, by decide⟩

end Faasten.Stack
