import Mathlib
import Faasten.DcLabels
import Faasten.Monitor.Syscalls

/-!
# Write confinement

What a run does to an object that is already stored: its kind and its label stay, and each operation
that changes it does so at a moment when the current label may flow to the label of the object under
the privilege of the thread.

`doSyscall_confined` states this of every syscall, in every world: the moments are the operations of
the run, with the world that each of them finds (`Handler.trace`).
-/

namespace Faasten

open Std Effect

/-- The object under `u` has this kind and label. -/
def World.Heads (w : World) (u : Uid) (kind : DentKind) (label : Option Buckle) : Prop :=
  ∃ o, w.store u = some (.object o) ∧ o.kind = kind ∧ o.label? = label

/-- The operation `x.2`, performed in the world `x.1`, changes what is stored under `u`. -/
def Writes (x : World × Op) (u : Uid) : Prop := (perform x.2 x.1).2.store u ≠ x.1.store u

/-- A run changes what is stored only through one of its operations. -/
theorem exists_write_of_ne {α : Type} {m : M α} {w : World} {u : Uid}
    (h : (exec m w).2.store u ≠ w.store u) :
    ∃ x ∈ handler.trace m w, Writes x u := by
  by_contra hno
  simp only [Writes, not_exists, not_and, not_not] at hno
  refine h ?_
  have hall : handler.Always (fun w o => (perform o w).2.store u = w.store u) w m := hno
  exact hall.invariant (I := fun w' : World => w'.store u = w.store u)
    (fun s o ho hs => Eq.trans ho hs) rfl

section Confinement

variable [LabelCrate]

section Step

variable {P : Policy} {w : World} {op : Op} {u : Uid} {kind : DentKind} {label : Option Buckle}

/-- A permitted write to a place that holds an object, seen from any place. -/
theorem Stores.put_heads {v : Uid} {o : Object} (h : Stores P w v o)
    (hu : w.Heads u kind label) :
    ({ w with store := w.store.put v (.object o) } : World).Heads u kind label ∧
      (w.store.put v (.object o) u ≠ w.store u →
        ∀ l, label = some l → canFlowToWithPrivilege w.currentLabel l w.privilege) := by
  obtain ⟨ob, hob, rfl, rfl⟩ := hu
  by_cases hv : u = v
  · subst hv
    rcases h.place with ⟨hvac, -⟩ | ⟨old, hold, hrep, -⟩
    · exact absurd hob (hvac ob)
    · cases hob.symm.trans hold
      exact ⟨⟨o, Store.put_self .., hrep.kind, hrep.label⟩, fun _ => hrep.flows⟩
  · rw [Store.put_of_ne _ _ hv]
    exact ⟨⟨ob, (Store.put_of_ne _ _ hv).trans hob, rfl, rfl⟩, fun h => absurd rfl h⟩

/-- One operation: the object keeps its kind and label, and is changed only where the label may
flow. -/
theorem Permits.heads (h : Permits P w op) (hu : w.Heads u kind label) :
    (perform op w).2.Heads u kind label ∧
      ((perform op w).2.store u ≠ w.store u →
        ∀ l, label = some l → canFlowToWithPrivilege w.currentLabel l w.privilege) := by
  cases op with
  | put v st =>
    obtain ⟨o, rfl, ho⟩ := h
    exact ho.put_heads hu
  | cas v e st =>
    rw [perform_cas]
    split_ifs with hst
    · obtain ⟨o, rfl, ho⟩ := h hst
      exact ho.put_heads hu
    · exact ⟨hu, fun h => absurd rfl h⟩
  | add v st =>
    obtain ⟨ob, hob, hk, hl⟩ := hu
    rw [perform_add]
    split_ifs with hv
    · have huv : u ≠ v := fun h => by simp [← h, hob] at hv
      refine ⟨⟨ob, (Store.put_of_ne _ _ huv).trans hob, hk, hl⟩, fun h => absurd ?_ h⟩
      exact Store.put_of_ne _ _ huv
    · exact ⟨⟨ob, hob, hk, hl⟩, fun h => absurd rfl h⟩
  | schedWrite m =>
    rw [perform_schedWrite]
    split_ifs <;> exact ⟨hu, fun h => absurd rfl h⟩
  | _ => exact ⟨hu, fun h => absurd rfl h⟩

/-- No operation under a policy without privileges to assume changes the privilege. -/
theorem Permits.privilege_eq (hP : ∀ q, ¬ P.assumes q) (h : Permits P w op) :
    (perform op w).2.privilege = w.privilege := by
  cases op with
  | setThread t => exact h.privilege.resolve_right (hP _)
  | add v st => rw [perform_add]; split_ifs <;> rfl
  | cas v e st => rw [perform_cas]; split_ifs <;> rfl
  | schedWrite m => rw [perform_schedWrite]; split_ifs <;> rfl
  | _ => rfl

end Step

open SyscallProcessor in
/-- **Write confinement.** For every syscall, and every labeled object stored before it: the object
is still stored, with the same kind and label; if it is not the same, then some operation of the
run wrote it; and each operation that writes it does so at a moment when the current label may flow
to the label of the object under the privilege the thread came with. -/
theorem doSyscall_confined (rounds : ℕ) (sc : Pb.Syscall) (w : World) (u : Uid) (o : Object)
    (l : Buckle) (ho : w.store u = some (.object o)) (hl : o.label? = some l) :
    (∃ o', (exec (doSyscall rounds sc) w).2.store u = some (.object o') ∧ o'.kind = o.kind ∧
      o'.label? = some l) ∧
    ((exec (doSyscall rounds sc) w).2.store u ≠ w.store u →
      ∃ x ∈ handler.trace (doSyscall rounds sc) w, Writes x u) ∧
    ∀ x ∈ handler.trace (doSyscall rounds sc) w, Writes x u →
      canFlowToWithPrivilege x.1.currentLabel l w.privilege := by
  have hobeys := obeys_doSyscall rounds (w := w) sc
  have hu : w.Heads u o.kind (some l) := ⟨o, ho, rfl, hl⟩
  refine ⟨?_, exists_write_of_ne, ?_⟩
  · exact hobeys.invariant (I := fun w' => w'.Heads u o.kind (some l))
      (fun s op hp hs => (Permits.heads hp hs).1) hu
  · have hkeep := Handler.Always.and_invariant
      (I := fun w' => w'.Heads u o.kind (some l) ∧ w'.privilege = w.privilege)
      (fun s op hp hs => ⟨(Permits.heads hp hs.1).1,
        (Permits.privilege_eq (fun _ => id) hp).trans hs.2⟩) hobeys ⟨hu, rfl⟩
    intro x hx hw
    obtain ⟨⟨hheads, hpriv⟩, hperm⟩ := hkeep x hx
    exact hpriv ▸ (Permits.heads hperm hheads).2 hw l rfl

end Confinement

namespace FileWrite

open scoped Dc

/-- A thread that has a public file open as 3. -/
def world : World :=
  .quiet { Thread.idle publicLabel with dents := fun fd => if fd = 3 then some (.file 7) else none }
    (Store.empty.put 7 (.encode (⟨publicLabel, []⟩ : Labeled File)))

/-- A write to the file changes it, and is confined. -/
theorem write_confined :
    (exec (SyscallProcessor.doSyscall 0 (.dentUpdate 3 (some (.file [1])))) world).2.store 7 =
      some (.encode (⟨publicLabel, [1]⟩ : Labeled File)) ∧
    ∀ x ∈ handler.trace (SyscallProcessor.doSyscall 0 (.dentUpdate 3 (some (.file [1])))) world,
      Writes x 7 → canFlowToWithPrivilege x.1.currentLabel publicLabel world.privilege :=
  ⟨by decide, (doSyscall_confined 0 (.dentUpdate 3 (some (.file [1]))) world 7
    (.file ⟨publicLabel, []⟩) publicLabel rfl rfl).2.2⟩

end FileWrite

end Faasten
