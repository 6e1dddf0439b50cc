import Mathlib
import Faasten.DcLabels
import Faasten.Facets

/-!
# The label calls of a guest

A guest asks for its current label, raises it with `TaintWithLabel`, and lowers its secrecy with
`Declassify`.

* `taint_paths_disagree`: the arm of `TaintWithLabel` borrows the label exclusively while a shared borrow
  of it is live, and panics on every label; no other access to the label does;
* `exec_declassifyCall`: the reply to `Declassify` is the lowered label, and the current label stays;
* `told_iff`: what `GetCurrentLabel` returns is the label of the last successful reply, throughout a
  sequence of these calls, if and only if none of them changes the label.
-/

namespace Faasten

open Std Effect SyscallProcessor

variable [LabelCrate]

/-! ### The borrows of the label -/

/-- The two ways to taint complete, and leave and return the join. -/
def TaintsAgree (rounds : ℕ) (w : World) (l : Buckle) : Prop :=
  exec (taintWithLabel l) w = (.ok (lub w.currentLabel l), w.relabel (lub w.currentLabel l)) ∧
  exec (doSyscall rounds (.taintWithLabel (.ofBuckle l))) w =
    (.ok (.sent (.buckle (.ofBuckle (lub w.currentLabel l)))), w.relabel (lub w.currentLabel l))

/-- The arm of `TaintWithLabel`: the shared borrow of the right-hand side is live when the left-hand side
asks for an exclusive one. -/
theorem exec_taintCall (rounds : ℕ) (w : World) (l : Buckle) :
    exec (doSyscall rounds (.taintWithLabel (.ofBuckle l))) w = (.error .panic, w) := by
  have hlabel : exec (unwrap (Pb.Buckle.ofBuckle l).into) w = (.ok l, w) := by
    rw [Pb.into_ofBuckle]
    rfl
  change exec (taint (.ofBuckle l) >>= fun r => pure (Outcome.sent r)) w = _
  unfold taint
  rw [bind_assoc, exec_bind_ok hlabel, bind_assoc]
  exact exec_bind_error (exec_withCurrentLabel_none rfl)

/-- **The two ways to taint agree on no label**: the one of the syscall panics, the one of `fs::utils`
returns the join. The other functions that access the label never ask for conflicting borrows. -/
theorem taint_paths_disagree (rounds : ℕ) (w : World) (l : Buckle) :
    ¬TaintsAgree rounds w l ∧
    exec (doSyscall rounds (.taintWithLabel (.ofBuckle l))) w = (.error .panic, w) ∧
    exec (taintWithLabel l) w = (.ok (lub w.currentLabel l), w.relabel (lub w.currentLabel l)) ∧
    (∀ (T : Type) (o : Labeled T),
      exec o.unlabel w = (.ok o.data, w.relabel (lub o.label w.currentLabel))) ∧
    (∀ (T R : Type) (o : Labeled T) (f : T → R × T), exec (o.modify f) w =
      (if canFlowToWithPrivilege (lub o.label w.currentLabel) o.label w.privilege
        then .ok ((f o.data).1, { o with data := (f o.data).2 })
        else .error (.err (.labelError .cannotWrite)), w.relabel (lub o.label w.currentLabel))) ∧
    (∀ (u : Uid) (d : FacetedDirectory), w.store u = some (.encode d) →
      exec (FacetedDirectory.list u l) w = (.ok (d.visible l), w.relabel (lub w.currentLabel l))) ∧
    (∀ t : Component, exec (declassify t) w =
      (.ok (if implies (LabelCrate.and t w.privilege) w.currentLabel.secrecy
        then .ok ⟨t, w.currentLabel.integrity⟩ else .error w.currentLabel), w)) ∧
    ∀ p : Component, exec (declassifyWith p) w =
      (.ok (downgrade w.currentLabel p), w.relabel (downgrade w.currentLabel p)) := by
  refine ⟨fun h => ?_, exec_taintCall rounds w l, exec_taintWithLabel l w, fun T o => o.exec_unlabel w,
    fun T R o f => ?_, fun u d hd => exec_list hd l, fun t => exec_declassify t w,
    fun p => exec_declassifyWith p w⟩
  · have hreply := h.2
    rw [exec_taintCall] at hreply
    cases hreply
  · rw [Labeled.exec_modify]
    split_ifs <;> rfl

/-! ### Sequences of label calls -/

/-- A call that is to change the label. -/
inductive LabelCall
  | taint (l : Buckle)
  | declassify (target : Component)

/-- Its message. -/
def LabelCall.syscall : LabelCall → Pb.Syscall
  | .taint l => .taintWithLabel (.ofBuckle l)
  | .declassify target => .declassify (.ofComponent target)

/-- The label that the call is to report, at a current label and under a privilege; `none` is a refusal. -/
def LabelCall.reported (p : Component) (current : Buckle) : LabelCall → Option Buckle
  | .taint l => some (lub current l)
  | .declassify target =>
      if implies (LabelCrate.and target p) current.secrecy then some ⟨target, current.integrity⟩
      else none

/-- The reply that reports it. -/
def LabelCall.reply (label : Option Buckle) : LabelCall → Pb.Reply
  | .taint _ => label.elim (.maybeBuckle none) fun l => .buckle (.ofBuckle l)
  | .declassify _ => .maybeBuckle (label.map .ofBuckle)

/-- Throughout the calls, `GetCurrentLabel` returns the label of the last successful reply, at first `last`;
each call replies as it should at the label that `last` is. -/
def Told (rounds : ℕ) : List LabelCall → World → Buckle → Prop
  | [], w, last => exec (doSyscall rounds .getCurrentLabel) w = (.ok (.sent (.buckle (.ofBuckle last))), w)
  | c :: cs, w, last =>
      exec (doSyscall rounds .getCurrentLabel) w = (.ok (.sent (.buckle (.ofBuckle last))), w) ∧
      ∃ w', exec (doSyscall rounds c.syscall) w =
          (.ok (.sent (c.reply (c.reported w.privilege last))), w') ∧
        Told rounds cs w' ((c.reported w.privilege last).getD last)

/-- The call is a `Declassify` that is refused, or asks for the secrecy that the label has. -/
def LabelCall.Idle (p : Component) (current : Buckle) : LabelCall → Prop
  | .taint _ => False
  | .declassify target => implies (LabelCrate.and target p) current.secrecy → target = current.secrecy

/-- `Declassify` replies with the label it should, and leaves everything as it is. -/
theorem exec_declassifyCall (rounds : ℕ) (w : World) (target : Component) :
    exec (doSyscall rounds (LabelCall.declassify target).syscall) w =
      (.ok (.sent ((LabelCall.declassify target).reply
        ((LabelCall.declassify target).reported w.privilege w.currentLabel))), w) := by
  have hcomponent : exec (unwrap (Pb.Component.ofComponent target).into) w = (.ok target, w) := by
    rw [Pb.into_ofComponent]
    rfl
  change exec (serve rounds (.declassify (.ofComponent target)) >>= fun r => pure (Outcome.sent r)) w = _
  unfold serve
  simp only [bind_assoc]
  rw [exec_bind_ok hcomponent, exec_bind_ok (exec_declassify target w)]
  simp only [LabelCall.reply, LabelCall.reported]
  split_ifs <;> rfl

theorem told_current {rounds : ℕ} {cs : List LabelCall} {w : World} {last : Buckle}
    (h : Told rounds cs w last) : last = w.currentLabel := by
  have hget : exec (doSyscall rounds .getCurrentLabel) w = (.ok (.sent (.buckle (.ofBuckle last))), w) := by
    cases cs with
    | nil => exact h
    | cons c cs => exact h.1
  have hcurrent : exec (doSyscall rounds .getCurrentLabel) w =
      (.ok (.sent (.buckle (.ofBuckle w.currentLabel))), w) := rfl
  have heq : Pb.Buckle.ofBuckle w.currentLabel = .ofBuckle last := by
    have hreply := hcurrent.symm.trans hget
    injection hreply with hreply
    injection hreply with hreply
    injection hreply with hreply
    injection hreply
  have hinto := congrArg Pb.Buckle.into heq
  simpa using hinto.symm

/-- **Throughout a sequence of label calls the current label is that of the last successful reply if and
only if each of them is an idle `Declassify`**: refused, or to the secrecy that the label has. -/
theorem told_iff (rounds : ℕ) (w : World) (cs : List LabelCall) :
    Told rounds cs w w.currentLabel ↔ ∀ c ∈ cs, c.Idle w.privilege w.currentLabel := by
  induction cs with
  | nil => exact iff_of_true rfl (by simp)
  | cons c cs ih =>
    rw [List.forall_mem_cons, ← ih]
    cases c with
    | taint l =>
      refine iff_of_false ?_ (by simp [LabelCall.Idle])
      rintro ⟨-, w', hreply, -⟩
      rw [show (LabelCall.taint l).syscall = .taintWithLabel (.ofBuckle l) from rfl,
        exec_taintCall] at hreply
      cases hreply
    | declassify target =>
      have hreply := exec_declassifyCall rounds w target
      constructor
      · rintro ⟨-, w', hreply', hrest⟩
        cases hreply.symm.trans hreply'
        have hlast := told_current hrest
        refine ⟨fun himplies => ?_, by rwa [hlast] at hrest⟩
        rw [LabelCall.reported, if_pos himplies] at hlast
        exact congrArg Buckle.secrecy hlast
      · rintro ⟨hidle, hrest⟩
        refine ⟨rfl, w, hreply, ?_⟩
        have hlast : ((LabelCall.declassify target).reported w.privilege w.currentLabel).getD
            w.currentLabel = w.currentLabel := by
          simp only [LabelCall.reported]
          split_ifs with himplies
          · rw [Option.getD_some, hidle himplies]
          · rfl
        rwa [hlast]

end Faasten

/-! ### A guest that declassifies -/

namespace Faasten.Declassification

open SyscallProcessor
open scoped Dc

/-- The privilege of bob, and his secret. -/
def bob : Component := .single ["bob"]

/-- A thread of bob that has read his secret. -/
def world : World :=
  .quiet { Thread.idle ⟨bob, .dcTrue⟩ with privilege := bob } .empty

/-- On the public label, too, the arm of `TaintWithLabel` panics. -/
theorem public_taint_panics :
    (exec (doSyscall 0 (.taintWithLabel (.ofBuckle publicLabel)))
      (.quiet (.idle publicLabel) .empty)).1 = .error .panic ∧
    ¬TaintsAgree 0 (.quiet (.idle publicLabel) .empty) publicLabel := by
  have hpanic := exec_taintCall 0 (.quiet (.idle publicLabel) .empty) publicLabel
  refine ⟨by rw [hpanic], fun h => ?_⟩
  cases hpanic.symm.trans h.2

/-- bob's monitor replies that his label is public, and then that it is still secret. -/
theorem reply_not_stored :
    exec (doSyscall 0 (.declassify (.ofComponent .dcTrue))) world =
      (.ok (.sent (.maybeBuckle (some (.ofBuckle publicLabel)))), world) ∧
    exec (doSyscall 0 .getCurrentLabel) world =
      (.ok (.sent (.buckle (.ofBuckle ⟨bob, .dcTrue⟩))), world) ∧
    ¬Told 0 [.declassify .dcTrue] world world.currentLabel := by
  have hreply := exec_declassifyCall 0 world .dcTrue
  have hlabel : (LabelCall.declassify .dcTrue).reported world.privilege world.currentLabel =
      some publicLabel := by decide +kernel
  refine ⟨?_, rfl, ?_⟩
  · rw [hlabel] at hreply
    exact hreply
  · rintro ⟨-, w', hcall, hrest⟩
    cases hreply.symm.trans hcall
    have hcurrent := told_current hrest
    rw [hlabel, Option.getD_some] at hcurrent
    have hsecrecy : (Component.dcTrue) = bob := congrArg Buckle.secrecy hcurrent
    exact absurd hsecrecy (by decide)

end Faasten.Declassification
