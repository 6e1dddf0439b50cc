import Mathlib
import Faasten.DcLabels
import Faasten.Worker.ResourceManager

/-!
# Memory accounting

The memory of a worker machine is free, or belongs to a cached VM, or to a VM that a worker thread
holds. A `Ledger` is a manager with the VMs handed out by it; `Ledger.step` is one call, where only a
VM that was handed out can be given back. What a holder does to a VM in between keeps its id and its
function.

`Balanced` is the invariant, and `Ledger.balanced_of_run` says that every sequence of calls keeps
it.
-/

namespace Faasten

variable [LabelCrate]

/-- A manager, the VMs it has handed out, and the ids of all VMs it has created. -/
structure Ledger where
  rm : ResourceManager
  held : List Vm := []
  created : List ℕ := []

/-- A call, or what a holder does to a VM. -/
inductive LedgerOp
  | newVm (passes : ℕ) (f : Function)
  | getCachedVm (f : Function)
  | release (vm : Vm)
  | delete (vm : Vm)
  | touch (vm vm' : Vm)

namespace Ledger

/-- Hand out a VM, if there is one. -/
def hand (l : Ledger) (rm : ResourceManager) : Option Vm → Ledger
  | some vm => { l with rm, held := vm :: l.held }
  | none => { l with rm }

/-- One call; `none` stands for one that is not allowed, or does not return. -/
def step (l : Ledger) : LedgerOp → Option Ledger
  | .newVm passes f =>
      (l.rm.newVm passes f).map fun (vm, rm) =>
        { l.hand rm vm with created := vm.toList.map (·.id) ++ l.created }
  | .getCachedVm f =>
      let (vm, rm) := l.rm.getCachedVm f
      some (l.hand rm vm)
  | .release vm =>
      if vm ∈ l.held then some { l with rm := l.rm.release vm, held := l.held.erase vm } else none
  | .delete vm =>
      if vm ∈ l.held then some { l with rm := l.rm.delete vm, held := l.held.erase vm } else none
  | .touch vm vm' =>
      if vm ∈ l.held ∧ vm'.id = vm.id ∧ vm'.function = vm.function then
        some { l with held := vm' :: l.held.erase vm }
      else none

/-- The ledgers that a sequence of calls reaches. -/
inductive Run (l₀ : Ledger) : Ledger → Prop
  | start : Run l₀ l₀
  | step {l l' : Ledger} (h : Run l₀ l) (op : LedgerOp) (hs : l.step op = some l') : Run l₀ l'

/-- The VMs that exist. -/
def live (l : Ledger) : List Vm := l.rm.cache.vms ++ l.held

/-- All memory is accounted for, and all VMs are in one place, under their function. -/
structure Balanced (l : Ledger) : Prop where
  memory : l.rm.freeMem + memoryOf l.live = l.rm.totalMem
  created : l.created.Nodup
  numbered : ∀ id ∈ l.created, id ≤ l.rm.totalNumVms
  live_created : ∀ vm ∈ l.live, vm.id ∈ l.created
  live_nodup : (l.live.map (·.id)).Nodup
  filed : ∀ f vms, l.rm.cache.lookup f = some vms → ∀ vm ∈ vms, vm.function = f

end Ledger

/-! ### What the calls move -/

/-- What identifies a VM for the accounts. -/
def tags (vms : List Vm) : List (ℕ × Function) := vms.map fun vm => (vm.id, vm.function)

omit [LabelCrate] in
theorem memoryOf_eq_tags (vms : List Vm) :
    memoryOf vms = ((tags vms).map (·.2.memory)).sum := by
  simp [memoryOf, tags, Function.comp_def]

omit [LabelCrate] in
theorem ids_eq_tags (vms : List Vm) : vms.map (·.id) = (tags vms).map (·.1) := by
  simp [tags, Function.comp_def]

omit [LabelCrate] in
@[simp] theorem tags_append (vms vms' : List Vm) : tags (vms ++ vms') = tags vms ++ tags vms' :=
  List.map_append

omit [LabelCrate] in
theorem memoryOf_append (vms vms' : List Vm) :
    memoryOf (vms ++ vms') = memoryOf vms + memoryOf vms' := by
  simp [memoryOf]

namespace Cache

variable {c : Cache}

/-- Every cached VM is in the list of its function. -/
def Filed (c : Cache) : Prop := ∀ f vms, c.lookup f = some vms → ∀ vm ∈ vms, vm.function = f

omit [LabelCrate] in
theorem Filed.insert (h : Filed c) {f : Function} {vms : List Vm}
    (hvms : ∀ vm ∈ vms, vm.function = f) : Filed (c.insert f vms) := by
  intro g vms' hlookup
  by_cases hg : g = f
  · subst hg
    rw [AList.lookup_insert, Option.some.injEq] at hlookup
    rw [← hlookup]
    exact hvms
  · rw [AList.lookup_insert_ne hg] at hlookup
    exact h g vms' hlookup

omit [LabelCrate] in
theorem Filed.evict (h : Filed c) : Filed (evict c) := by
  intro f vms hlookup vm hvm
  rw [lookup_evict, Option.map_eq_some_iff] at hlookup
  obtain ⟨vms₀, hlookup, rfl⟩ := hlookup
  exact h f vms₀ hlookup vm (List.dropLast_subset _ hvm)

end Cache

namespace ResourceManager

variable {rm rm' : ResourceManager} {f : Function} {passes mem : ℕ}

omit [LabelCrate] in
/-- `get_cached_vm` moves a VM out of the cache. -/
theorem getCachedVm_spec (hfiled : Cache.Filed rm.cache) {vm : Option Vm}
    (h : rm.getCachedVm f = (vm, rm')) :
    (Cache.vms rm'.cache ++ vm.toList).Perm (Cache.vms rm.cache) ∧ Cache.Filed rm'.cache ∧
      (∀ v ∈ vm, v.function = f) ∧ rm'.freeMem = rm.freeMem ∧ rm'.totalMem = rm.totalMem ∧
      rm'.totalNumVms = rm.totalNumVms := by
  unfold getCachedVm at h
  rcases hl : rm.cache.lookup f with _ | vms
  · rw [hl] at h
    obtain ⟨rfl, rfl⟩ := Prod.mk.inj h
    exact ⟨by simp [updateScheduler], hfiled, by simp, rfl, rfl, rfl⟩
  · rw [hl] at h
    obtain ⟨rfl, rfl⟩ := Prod.mk.inj h
    obtain ⟨rest, hperm, hinsert⟩ := Cache.split hl
    have hown : ∀ v ∈ vms, v.function = f := hfiled f vms hl
    refine ⟨?_, hfiled.insert fun v hv => hown v (List.dropLast_subset _ hv), ?_, rfl, rfl, rfl⟩
    · have hvms : (vms.dropLast ++ vms.getLast?.toList) = vms := by
        rcases hlast : vms.getLast? with _ | v
        · simp [List.getLast?_eq_none_iff.1 hlast]
        · simpa using List.dropLast_append_getLast? v hlast
      show (Cache.vms (rm.cache.insert f vms.dropLast) ++ vms.getLast?.toList).Perm _
      rw [hinsert]
      refine .trans ?_ hperm.symm
      conv_rhs => rw [← hvms]
      rw [List.append_assoc, List.append_assoc]
      exact List.Perm.append_left _ List.perm_append_comm
    · intro v hv
      exact hown v (List.mem_of_getLast? hv)

omit [LabelCrate] in
/-- `release` moves a VM into the cache. -/
theorem release_spec (hfiled : Cache.Filed rm.cache) (vm : Vm) :
    (Cache.vms (rm.release vm).cache).Perm (vm :: Cache.vms rm.cache) ∧
      Cache.Filed (rm.release vm).cache ∧ (rm.release vm).freeMem = rm.freeMem ∧
      (rm.release vm).totalMem = rm.totalMem ∧ (rm.release vm).totalNumVms = rm.totalNumVms := by
  unfold release
  rcases hl : rm.cache.lookup vm.function with _ | vms
  · refine ⟨?_, hfiled.insert (by simp), rfl, rfl, rfl⟩
    show (Cache.vms (rm.cache.insert vm.function [vm])).Perm _
    rw [Cache.vms_insert_new hl]
    exact .refl _
  · obtain ⟨rest, hperm, hinsert⟩ := Cache.split hl
    refine ⟨?_, hfiled.insert ?_, rfl, rfl, rfl⟩
    · show (Cache.vms (rm.cache.insert vm.function (vms ++ [vm]))).Perm _
      rw [hinsert, List.append_assoc, List.singleton_append]
      exact List.perm_middle.trans (hperm.symm.cons vm)
    · intro v hv
      rcases List.mem_append.1 hv with hv | hv
      · exact hfiled _ _ hl v hv
      · rw [List.mem_singleton.1 hv]

omit [LabelCrate] in
/-- The loop of `dummy_evict` turns cached VMs into free memory, at least as much as it is after. -/
theorem evictLoop_spec (hfiled : Cache.Filed rm.cache) {freed : ℕ}
    (h : evictLoop mem passes freed rm = some rm') :
    ∃ gone, (Cache.vms rm.cache).Perm (Cache.vms rm'.cache ++ gone) ∧ Cache.Filed rm'.cache ∧
      rm'.freeMem = rm.freeMem + memoryOf gone ∧ mem ≤ freed + memoryOf gone ∧
      rm'.totalMem = rm.totalMem ∧ rm'.totalNumVms = rm.totalNumVms := by
  induction passes generalizing freed rm with
  | zero =>
    unfold evictLoop at h
    by_cases hlt : freed < mem
    · rw [if_pos hlt] at h
      cases h
    · rw [if_neg hlt] at h
      cases h
      exact ⟨[], by simp, hfiled, by simp [memoryOf], by omega, rfl, rfl⟩
  | succ passes ih =>
    unfold evictLoop at h
    by_cases hlt : freed < mem
    · rw [if_pos hlt] at h
      obtain ⟨gone, hperm, hfiled', hfree, hmem, htotal, hnum⟩ := ih hfiled.evict h
      refine ⟨gone ++ Cache.evictees rm.cache, ?_, hfiled', ?_, ?_, htotal, hnum⟩
      · rw [← List.append_assoc]
        exact (Cache.evict_perm _).trans (hperm.append_right _)
      · rw [hfree, memoryOf_append]
        simp only
        omega
      · rw [memoryOf_append]
        omega
    · rw [if_neg hlt] at h
      cases h
      exact ⟨[], by simp, hfiled, by simp [memoryOf], by omega, rfl, rfl⟩

omit [LabelCrate] in
/-- Room is made by eviction only, and it is enough. -/
theorem makeRoom_spec (hfiled : Cache.Filed rm.cache) {room : Bool}
    (h : rm.makeRoom passes mem = some (room, rm')) :
    ∃ gone, (Cache.vms rm.cache).Perm (Cache.vms rm'.cache ++ gone) ∧ Cache.Filed rm'.cache ∧
      rm'.freeMem = rm.freeMem + memoryOf gone ∧ (room = true → mem ≤ rm'.freeMem) ∧
      rm'.totalMem = rm.totalMem ∧ rm'.totalNumVms = rm.totalNumVms := by
  have hsame : ∃ gone, (Cache.vms rm.cache).Perm (Cache.vms rm.cache ++ gone) ∧
      Cache.Filed rm.cache ∧ rm.freeMem = rm.freeMem + memoryOf gone :=
    ⟨[], by simp, hfiled, by simp [memoryOf]⟩
  unfold makeRoom at h
  by_cases hfree : mem ≤ rm.freeMem
  · rw [if_pos hfree, Option.some.injEq, Prod.mk.injEq] at h
    obtain ⟨-, rfl⟩ := h
    obtain ⟨gone, hperm, hf, hmem⟩ := hsame
    exact ⟨gone, hperm, hf, hmem, fun _ => hfree, rfl, rfl⟩
  · rw [if_neg hfree] at h
    unfold dummyEvict at h
    by_cases htotal : rm.totalMem < mem
    · rw [if_pos htotal, Option.some.injEq, Prod.mk.injEq] at h
      obtain ⟨rfl, rfl⟩ := h
      obtain ⟨gone, hperm, hf, hmem⟩ := hsame
      exact ⟨gone, hperm, hf, hmem, fun hr => absurd hr (by decide), rfl, rfl⟩
    · rw [if_neg htotal, Option.map_eq_some_iff] at h
      obtain ⟨rm₁, hloop, hr⟩ := h
      obtain ⟨rfl, rfl⟩ := Prod.mk.inj hr
      obtain ⟨gone, hperm, hf, hmem, henough, ht, hn⟩ := evictLoop_spec hfiled hloop
      exact ⟨gone, hperm, hf, hmem, fun _ => (by omega), ht, hn⟩

/-- `new_vm` pays for the VM with free memory, after some eviction, and numbers it afresh. -/
theorem newVm_spec (hfiled : Cache.Filed rm.cache) {vm : Option Vm}
    (h : rm.newVm passes f = some (vm, rm')) :
    ∃ gone, (Cache.vms rm.cache).Perm (Cache.vms rm'.cache ++ gone) ∧ Cache.Filed rm'.cache ∧
      rm'.freeMem + memoryOf vm.toList = rm.freeMem + memoryOf gone ∧
      rm'.totalMem = rm.totalMem ∧ rm.totalNumVms ≤ rm'.totalNumVms ∧
      ∀ v ∈ vm, v = Vm.new rm'.totalNumVms f ∧ rm.totalNumVms < rm'.totalNumVms := by
  unfold newVm tryAllocateMemory at h
  simp only [Option.bind_eq_bind, Option.bind_eq_some_iff, Prod.exists] at h
  obtain ⟨room', rm₂, ⟨room, rm₁, hroom, h₂⟩, h⟩ := h
  obtain ⟨gone, hperm, hf, hmem, henough, ht, hn⟩ := makeRoom_spec hfiled hroom
  refine ⟨gone, ?_⟩
  cases room with
  | false =>
    simp only [Bool.false_eq_true, if_false, Option.pure_def, Option.some.injEq,
      Prod.mk.injEq] at h₂
    obtain ⟨rfl, rfl⟩ := h₂
    simp only [Bool.false_eq_true, if_false, Option.pure_def, Option.some.injEq,
      Prod.mk.injEq] at h
    obtain ⟨rfl, rfl⟩ := h
    exact ⟨hperm, hf, by simp [updateScheduler, memoryOf, hmem], ht, hn.ge, by simp⟩
  | true =>
    simp only [if_true, Option.pure_def, Option.some.injEq, Prod.mk.injEq] at h₂
    obtain ⟨rfl, rfl⟩ := h₂
    simp only [if_true, Option.pure_def, Option.some.injEq, Prod.mk.injEq] at h
    obtain ⟨rfl, rfl⟩ := h
    have hroom := henough rfl
    refine ⟨hperm, hf, ?_, ht, ?_, ?_⟩
    · simp only [updateScheduler, memoryOf, Option.toList_some, List.map_cons, List.map_nil,
        List.sum_cons, List.sum_nil, Vm.new]
      unfold memoryOf at hmem
      omega
    · simp only [updateScheduler]
      omega
    · intro v hv
      obtain rfl : _ = v := Option.some.inj hv
      refine ⟨rfl, ?_⟩
      simp only [updateScheduler]
      omega

end ResourceManager

/-! ### The invariant -/

namespace Ledger

variable {l l' : Ledger}

omit [LabelCrate] in
/-- The accounts stay balanced when the live VMs change by those that are gone and those that are
new, and the free memory by the difference. -/
theorem Balanced.moved (h : l.Balanced) (gone new : List (ℕ × Function))
    (hlive : (tags l'.live ++ gone).Perm (new ++ tags l.live))
    (hfree : l'.rm.freeMem + (new.map (·.2.memory)).sum =
      l.rm.freeMem + (gone.map (·.2.memory)).sum)
    (htotal : l'.rm.totalMem = l.rm.totalMem) (hcreated : l'.created = new.map (·.1) ++ l.created)
    (hnum : l.rm.totalNumVms ≤ l'.rm.totalNumVms) (hnew : (new.map (·.1)).Nodup)
    (hafter : ∀ id ∈ new.map (·.1), l.rm.totalNumVms < id ∧ id ≤ l'.rm.totalNumVms)
    (hfiled : Cache.Filed l'.rm.cache) : l'.Balanced := by
  have hfresh : (new.map (·.1) ++ l.created).Nodup := by
    refine List.Nodup.append hnew h.created fun id hid hold => ?_
    have := (hafter id hid).1
    have := h.numbered id hold
    omega
  have hids : (l'.live.map (·.id) ++ gone.map (·.1)).Perm
      (new.map (·.1) ++ l.live.map (·.id)) := by
    have := hlive.map Prod.fst
    rwa [List.map_append, List.map_append, ← ids_eq_tags, ← ids_eq_tags] at this
  have hmem : memoryOf l'.live + (gone.map (·.2.memory)).sum =
      (new.map (·.2.memory)).sum + memoryOf l.live := by
    have := (hlive.map fun t => t.2.memory).sum_eq
    rwa [List.map_append, List.map_append, List.sum_append, List.sum_append, ← memoryOf_eq_tags,
      ← memoryOf_eq_tags] at this
  refine ⟨?_, hcreated ▸ hfresh, ?_, ?_, ?_, hfiled⟩
  · have := h.memory
    omega
  · intro id hid
    rw [hcreated] at hid
    rcases List.mem_append.1 hid with hid | hid
    · exact (hafter id hid).2
    · exact (h.numbered id hid).trans hnum
  · intro vm hvm
    rw [hcreated, List.mem_append]
    have hid : vm.id ∈ new.map (·.1) ++ l.live.map (·.id) :=
      hids.subset (List.mem_append_left _ (List.mem_map_of_mem hvm))
    rcases List.mem_append.1 hid with hid | hid
    · exact .inl hid
    · obtain ⟨vm₀, hvm₀, heq⟩ := List.mem_map.1 hid
      exact .inr (heq ▸ h.live_created vm₀ hvm₀)
  · have hall : (new.map (·.1) ++ l.live.map (·.id)).Nodup := by
      refine List.Nodup.append hnew h.live_nodup fun id hid hold => ?_
      obtain ⟨vm, hvm, rfl⟩ := List.mem_map.1 hold
      exact (List.nodup_append.1 hfresh).2.2 _ hid _ (h.live_created vm hvm) rfl
    exact (List.nodup_append.1 (hids.nodup_iff.2 hall)).1

omit [LabelCrate] in
/-- The accounts stay balanced when VMs only change places. -/
theorem Balanced.rearranged (h : l.Balanced) (hlive : (tags l'.live).Perm (tags l.live))
    (hfree : l'.rm.freeMem = l.rm.freeMem) (htotal : l'.rm.totalMem = l.rm.totalMem)
    (hcreated : l'.created = l.created) (hnum : l'.rm.totalNumVms = l.rm.totalNumVms)
    (hfiled : Cache.Filed l'.rm.cache) : l'.Balanced :=
  h.moved [] [] (by simpa using hlive) (by simpa using hfree) htotal
    (by simpa using hcreated) hnum.ge (by simp) (by simp) hfiled

omit [LabelCrate] in
theorem tags_erase {vms : List Vm} {vm : Vm} (h : vm ∈ vms) :
    (tags vms).Perm (tags [vm] ++ tags (vms.erase vm)) :=
  (List.perm_cons_erase h).map _

/-- **One call keeps the accounts balanced.** -/
theorem Balanced.step (h : l.Balanced) {op : LedgerOp} (hs : l.step op = some l') :
    l'.Balanced := by
  cases op with
  | newVm passes f =>
    simp only [Ledger.step, Option.map_eq_some_iff, Prod.exists] at hs
    obtain ⟨vm, rm', hnew, rfl⟩ := hs
    obtain ⟨gone, hperm, hfiled, hfree, htotal, hnum, hfresh⟩ :=
      ResourceManager.newVm_spec h.filed hnew
    cases vm with
    | none =>
      refine h.moved (tags gone) [] ?_ ?_ htotal rfl hnum (by simp) (by simp)
        hfiled
      · simp only [hand, live, tags_append, List.nil_append]
        refine .trans ?_ ((hperm.map _).append_right _).symm
        rw [show List.map _ (Cache.vms rm'.cache ++ gone) = _ from tags_append _ _,
          List.append_assoc, List.append_assoc]
        exact List.Perm.append_left _ List.perm_append_comm
      · rw [← memoryOf_eq_tags]
        simpa [hand, memoryOf] using hfree
    | some vm =>
      obtain ⟨hvm, hlt⟩ := hfresh vm rfl
      refine h.moved (tags gone) (tags [vm]) ?_ ?_ htotal rfl hnum (by simp [tags])
        ?_ hfiled
      · simp only [hand, live, tags_append]
        have hcache := (hperm.map fun vm => (vm.id, vm.function)).append_right (tags l.held)
        rw [show List.map _ (Cache.vms rm'.cache ++ gone) = _ from tags_append _ _] at hcache
        refine .trans ?_ (hcache.symm.append_left _)
        show (tags (Cache.vms rm'.cache) ++ (tags [vm] ++ tags l.held) ++ tags gone).Perm _
        simp only [List.append_assoc]
        refine (List.perm_append_comm_assoc _ _ _).trans (List.Perm.append_left _ ?_)
        exact List.Perm.append_left _ List.perm_append_comm
      · rw [← memoryOf_eq_tags, ← memoryOf_eq_tags]
        exact hfree
      · simp only [tags, List.map_cons, List.map_nil, List.mem_singleton, hand]
        rintro id rfl
        rw [hvm]
        exact ⟨hlt, le_rfl⟩
  | getCachedVm f =>
    rcases hget : l.rm.getCachedVm f with ⟨vm, rm'⟩
    simp only [Ledger.step, hget, Option.some.injEq] at hs
    subst hs
    obtain ⟨hperm, hfiled, -, hfree, htotal, hnum⟩ :=
      ResourceManager.getCachedVm_spec h.filed hget
    cases vm with
    | none =>
      refine h.rearranged ?_ hfree htotal rfl hnum hfiled
      simp only [hand, live]
      exact List.Perm.map _ (List.Perm.append_right _ (by simpa using hperm))
    | some vm =>
      refine h.rearranged ?_ hfree htotal rfl hnum hfiled
      simp only [hand, live]
      refine List.Perm.map _ (.trans ?_ (hperm.append_right _))
      rw [Option.toList_some, List.append_assoc]
      rfl
  | release vm =>
    simp only [Ledger.step] at hs
    by_cases hheld : vm ∈ l.held
    · rw [if_pos hheld, Option.some.injEq] at hs
      subst hs
      obtain ⟨hperm, hfiled, hfree, htotal, hnum⟩ := ResourceManager.release_spec h.filed vm
      refine h.rearranged ?_ hfree htotal rfl hnum hfiled
      simp only [live]
      refine List.Perm.map _ ((hperm.append_right _).trans ?_)
      rw [List.cons_append]
      exact List.perm_middle.symm.trans ((List.perm_cons_erase hheld).symm.append_left _)
    · rw [if_neg hheld] at hs
      cases hs
  | delete vm =>
    simp only [Ledger.step] at hs
    by_cases hheld : vm ∈ l.held
    · rw [if_pos hheld, Option.some.injEq] at hs
      subst hs
      refine h.moved (tags [vm]) [] ?_ ?_ rfl rfl le_rfl (by simp) (by simp)
        h.filed
      · simp only [live, tags_append, List.nil_append, List.append_assoc]
        refine List.Perm.append_left _ ?_
        exact List.perm_append_comm.trans (tags_erase hheld).symm
      · simp [ResourceManager.delete, ResourceManager.updateScheduler, tags]
    · rw [if_neg hheld] at hs
      cases hs
  | touch vm vm' =>
    simp only [Ledger.step] at hs
    by_cases hheld : vm ∈ l.held ∧ vm'.id = vm.id ∧ vm'.function = vm.function
    · rw [if_pos hheld, Option.some.injEq] at hs
      subst hs
      obtain ⟨hmem, hid, hf⟩ := hheld
      refine h.rearranged ?_ rfl rfl rfl rfl h.filed
      simp only [live, tags_append]
      refine List.Perm.append_left _ (.trans ?_ (tags_erase hmem).symm)
      simp [tags, hid, hf]
    · rw [if_neg hheld] at hs
      cases hs

omit [LabelCrate] in
/-- A new manager is balanced. -/
theorem balanced_new (totalMem : ℕ) : Balanced { rm := .new totalMem } := by
  refine ⟨?_, by simp, by simp, ?_, ?_, ?_⟩ <;>
    simp [live, Cache.vms, memoryOf, ResourceManager.new]

theorem Run.balanced {totalMem : ℕ} (h : Run { rm := .new totalMem } l) : l.Balanced := by
  induction h with
  | start => exact balanced_new totalMem
  | step _ op hs ih => exact ih.step hs

/-- **Every sequence of calls keeps the accounts balanced**, and a call takes no more memory than is
free when it takes it. -/
theorem accounts_balanced {totalMem : ℕ} (h : Run { rm := .new totalMem } l) :
    l.rm.freeMem + memoryOf (Cache.vms l.rm.cache) + memoryOf l.held = l.rm.totalMem ∧
      (∀ passes (f : Function) rm', l.rm.makeRoom passes f.memory = some (true, rm') →
        f.memory ≤ rm'.freeMem) ∧
      l.created.Nodup ∧ (∀ vm ∈ l.live, vm.id ∈ l.created) ∧ (l.live.map (·.id)).Nodup ∧
      ∀ f vms, l.rm.cache.lookup f = some vms → ∀ vm ∈ vms, vm.function = f := by
  have hbal := h.balanced
  refine ⟨?_, ?_, hbal.created, hbal.live_created, hbal.live_nodup, hbal.filed⟩
  · have := hbal.memory
    rw [live, memoryOf_append] at this
    omega
  · intro passes f rm' hroom
    obtain ⟨-, -, -, -, henough, -⟩ := ResourceManager.makeRoom_spec hbal.filed hroom
    exact henough rfl

end Ledger

end Faasten

namespace Faasten.Eviction

open scoped Dc

/-- A function that takes all the memory. -/
def resizer : Function := ⟨1, "resizer", "python", "kernel"⟩

/-- Another one. -/
def mailer : Function := ⟨1, "mailer", "python", "kernel"⟩

/-- A VM is created for one function and released, and then evicted to make room for the other. -/
theorem evicted_balanced :
    ∃ l : Ledger, l.held = [Vm.new 2 mailer] ∧ l.rm.totalMem = 1 ∧
      l.rm.freeMem + memoryOf (Cache.vms l.rm.cache) + memoryOf l.held = l.rm.totalMem := by
  obtain ⟨l, hrun, hheld, htotal⟩ : ∃ l, Ledger.Run { rm := .new 1 } l ∧
      l.held = [Vm.new 2 mailer] ∧ l.rm.totalMem = 1 :=
    ⟨_, .step (.step (.step .start (.newVm 0 resizer) rfl) (.release (Vm.new 1 resizer)) rfl)
      (.newVm 1 mailer) rfl, rfl, rfl⟩
  exact ⟨l, hheld, htotal, (Ledger.accounts_balanced hrun).1⟩

end Faasten.Eviction
