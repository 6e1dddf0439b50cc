import Mathlib
import Faasten.DcLabels
import Faasten.Monitor.Confinement

/-!
# The floating label over runs

A thread makes one syscall after another; between them other threads change what it shares with
them, in any way (`ThreadRun`). The label of the thread drifts: each read raises it, and it is
lowered by the thread's own privilege when the task returns, and by the privilege of a service when
the thread invokes one.

The latter is the one place where the label is lowered by a privilege that need not be the
thread's. In a run that invokes only services whose privilege the thread holds itself
(`OwnPrivilege`), no label is laundered: `label_flows_along_run`.
-/

namespace Faasten

open Std Effect SyscallProcessor

section Runs

variable [LabelCrate]

/-- A run of one thread, whose syscalls all meet `Ok` in the world they are made in. -/
inductive ThreadRun (Ok : World → Pb.Syscall → Prop) (w₀ : World) : World → Prop
  | start : ThreadRun Ok w₀ w₀
  | syscall {w : World} (h : ThreadRun Ok w₀ w) (rounds : ℕ) (sc : Pb.Syscall) (hok : Ok w sc) :
      ThreadRun Ok w₀ (exec (doSyscall rounds sc) w).2
  | others {w w' : World} (h : ThreadRun Ok w₀ w) (ht : w'.toThread = w.toThread) :
      ThreadRun Ok w₀ w'

/-- If the syscall invokes a service that lets the thread invoke it, then the thread itself holds
the privilege of the service. -/
def OwnPrivilege (w : World) (sc : Pb.Syscall) : Prop :=
  ∀ s, sc.Invokes w s → implies w.privilege s.data.invokerIntegrityClearance →
    implies w.privilege s.data.privilege

/-- The privilege of a thread does not change in a syscall. -/
theorem doSyscall_privilege (rounds : ℕ) (sc : Pb.Syscall) (w : World) :
    (exec (doSyscall rounds sc) w).2.privilege = w.privilege :=
  (obeys_doSyscall rounds sc).invariant (I := fun w' : World => w'.privilege = w.privilege)
    (fun _ _ hp hs => (Permits.privilege_eq (fun _ => id) hp).trans hs) rfl

section Drift

variable [LawfulCrate] {P : Policy} {p : Component}

/-- The labels of two worlds are related by moves that the privilege `p` covers. -/
def Drifts (p : Component) (w w' : World) : Prop :=
  Relation.ReflTransGen (Flow.Drift p) w.currentLabel w'.currentLabel

instance : Std.Refl (Drifts p) := ⟨fun _ => .refl⟩

instance : IsTrans World (Drifts p) := ⟨fun _ _ _ => .trans⟩

theorem LabelMove.drift {lowers : Buckle → Buckle → Prop}
    (hl : ∀ l l', lowers l l' → ∃ q, Flow.Covers Buckle p q ∧ l' = downgrade l q) {l l' : Buckle}
    (h : LabelMove lowers l l') : Relation.ReflTransGen (Flow.Drift p) l l' := by
  cases h with
  | keep => exact .refl
  | taintLeft l' => exact .single (.raise (LawfulCrate.flow_lub_right l' l))
  | taintRight l' => exact .single (.raise (LawfulCrate.flow_lub_left l l'))
  | lower h =>
    obtain ⟨q, hq, rfl⟩ := hl _ _ h
    exact .single (.lower l hq)

/-- One operation, under a policy that lowers labels only with privileges that `p` covers. -/
theorem Permits.drifts
    (hl : ∀ l l', P.lowers l l' → ∃ q, Flow.Covers Buckle p q ∧ l' = downgrade l q) {w : World}
    {op : Op} (h : Permits P w op) : Drifts p w (perform op w).2 := by
  cases op with
  | setThread t => exact h.label.drift hl
  | add v st => rw [perform_add]; split_ifs <;> exact .refl
  | cas v e st => rw [perform_cas]; split_ifs <;> exact .refl
  | schedWrite m => rw [perform_schedWrite]; split_ifs <;> exact .refl
  | _ => exact .refl

/-- A syscall that meets `OwnPrivilege` lowers the label only by the thread's own privilege. -/
theorem doSyscall_drifts (rounds : ℕ) {sc : Pb.Syscall} {w : World}
    (hok : OwnPrivilege w sc) : Drifts w.privilege w (exec (doSyscall rounds sc) w).2 := by
  refine Handler.Always.rel (fun s op hp => Permits.drifts ?_ hp) (obeys_doSyscall rounds sc)
  rintro l l' ⟨q, hq, rfl⟩
  cases hq with
  | response h => exact ⟨_, .refl _, rfl⟩
  | service h hc => exact ⟨_, .of_implies (hok _ h hc), rfl⟩

/-- **No label is laundered** in a run that invokes only services whose privilege the thread holds
itself: whatever the syscalls and whatever other threads do, the label at the start flows to the
label at the end under the thread's own privilege, which is the same throughout. -/
theorem label_flows_along_run {w₀ w : World} (h : ThreadRun OwnPrivilege w₀ w) :
    canFlowToWithPrivilege w₀.currentLabel w.currentLabel w₀.privilege ∧
      w.privilege = w₀.privilege := by
  have hdrift : Drifts w₀.privilege w₀ w ∧ w.privilege = w₀.privilege := by
    induction h with
    | start => exact ⟨.refl, rfl⟩
    | syscall h rounds sc hok ih =>
      obtain ⟨ih, hp⟩ := ih
      exact ⟨ih.trans (hp ▸ doSyscall_drifts rounds hok), (doSyscall_privilege ..).trans hp⟩
    | others h ht ih =>
      unfold Drifts at ih ⊢
      rw [ht]; exact ih
  exact ⟨Flow.flowsUnder_of_drift hdrift.1, hdrift.2⟩

end Drift

end Runs

/-! ### A service that launders a label

A function without any privilege reads a secret of `bob`, and then invokes a service that anyone may
invoke and that has the privilege of `bob`. Afterwards its label is public. -/

namespace Laundering

open scoped Dc

/-- A public directory with a service of `bob` and a secret of `bob`. -/
def store : Store :=
  ((Store.empty.put 0 (.encode (⟨publicLabel, ⟨.ofList
      [("svc", DirEntry.service 1), ("secret", DirEntry.file 2)]⟩⟩ : Labeled Directory))).put
    1 (.encode (⟨publicLabel,
      { privilege := .single ["bob"], invokerIntegrityClearance := .dcTrue, taint := publicLabel
        url := "u", verb := .get, headers := ∅ }⟩ : Labeled Service))).put
    2 (.encode (⟨⟨.single ["bob"], .dcTrue⟩, [1]⟩ : Labeled File))

/-- The function starts, public and without privilege. -/
def start : World := (exec (new publicLabel .dcTrue) (.quiet (.idle publicLabel) store)).2

/-- It has opened the service as 1 and the secret as 2. -/
def opened : World :=
  (exec (doSyscall 1 (.dentOpen 0 (some (.name "secret"))))
    (exec (doSyscall 1 (.dentOpen 0 (some (.name "svc")))) start).2).2

/-- It has read the secret. -/
def tainted : World := (exec (doSyscall 1 (.dentRead 2)) opened).2

/-- Up to here the run meets the condition, and the label is sound. -/
theorem label_flows_to_tainted :
    canFlowToWithPrivilege start.currentLabel tainted.currentLabel start.privilege ∧
      tainted.privilege = start.privilege := by
  have hown : ∀ {w : World} {sc : Pb.Syscall}, (∀ s, ¬ sc.Invokes w s) → OwnPrivilege w sc :=
    fun h s hs => absurd hs (h s)
  refine label_flows_along_run (.syscall (.syscall (.syscall .start 1 _ (hown ?_)) 1 _ (hown ?_))
    1 _ (hown ?_))
  all_goals
    rintro s ⟨_, _, _, _, _, _, h, _⟩
    cases h

/-- Invoking the service takes the label from secret to public: it does not flow to what it becomes
under the privilege of the function, which is none. -/
theorem service_launders_label :
    ThreadRun (fun _ _ => True) start tainted ∧
      ¬ canFlowToWithPrivilege tainted.currentLabel
        (exec (doSyscall 1 (.dentInvoke 1 false [] false ∅)) tainted).2.currentLabel
        tainted.privilege :=
  ⟨.syscall (.syscall (.syscall .start 1 _ trivial) 1 _ trivial) 1 _ trivial, by decide⟩

end Laundering

end Faasten
