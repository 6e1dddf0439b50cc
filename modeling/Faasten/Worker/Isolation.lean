import Mathlib
import Faasten.DcLabels
import Faasten.Effect.Concurrent
import Faasten.Worker.Tasks

/-!
# Isolation of tasks

A worker thread takes up one task after the other, and its label and its privilege stay from task to
task. `SyscallProcessor::new` sets both, but the replies for tasks that could not be run are built
outside of it, with whatever label the thread still has.

A `Bench` is a worker thread at work: its world, what others will do to the shared part of it, and how
the allocation, the VMs and the guests will behave. `Between` are the states that a thread can be in
between two tasks. `isolated_iff` says for which tasks the reply does not depend on this state: for all
but those for which no VM was allocated, or all five attempts failed.
-/

namespace Faasten

open Effect

/-! ### A thread among others -/

/-- What others do to the shared part of the world, which does not depend on this thread. -/
def World.stir (w : World) (others : World → World) : World :=
  (others (w.withThread (.idle ⟨.dcTrue, .dcTrue⟩))).withThread w.toThread

theorem World.withThread_stir (w : World) (t : Thread) (others : World → World) :
    (w.withThread t).stir others = (w.stir others).withThread t := rfl

/-- Operations of the monitor, before each of which others may act. -/
def among : Handler monitor (World × Stream' (World → World)) where
  perform o s := ((perform o (s.1.stir s.2.head)).1, (perform o (s.1.stir s.2.head)).2, s.2.tail)

/-- The operations on the state of the thread, and those that read it. -/
def Op.OfThread : Op → Prop
  | .thread => True
  | .setThread _ => True
  | .http _ => True
  | _ => False

theorem perform_withThread {o : Op} (h : ¬ o.OfThread) (w : World) (t : Thread) :
    perform o (w.withThread t) = ((perform o w).1, (perform o w).2.withThread t) := by
  cases o with
  | thread => exact absurd trivial h
  | setThread t => exact absurd trivial h
  | http r => exact absurd trivial h
  | add uid v =>
    unfold perform
    simp only [World.withThread_store]
    split <;> rfl
  | cas uid expected v =>
    by_cases hc : w.store uid = expected
    · have hc' : (w.withThread t).store uid = expected := hc
      simp only [perform, if_pos hc, if_pos hc']
      rfl
    · have hc' : ¬ (w.withThread t).store uid = expected := hc
      simp only [perform, if_neg hc, if_neg hc']
      rfl
  | schedWrite m =>
    by_cases hc : w.host.schedWrite w.invokes m = true
    · have hc' : (w.withThread t).host.schedWrite (w.withThread t).invokes m = true := hc
      simp only [perform, if_pos hc, if_pos hc']
      rfl
    · have hc' : ¬ (w.withThread t).host.schedWrite (w.withThread t).invokes m = true := hc
      simp only [perform, if_neg hc, if_neg hc']
  | _ => rfl

/-- A program that does not touch the state of the thread does the same in any state of it. -/
theorem among_withThread {α : Type} {m : M α} (h : m.Avoids fun o _ => Op.OfThread o) (w : World)
    (others : Stream' (World → World)) (t : Thread) :
    among.exec m (w.withThread t, others) =
      ((among.exec m (w, others)).1, (among.exec m (w, others)).2.1.withThread t,
        (among.exec m (w, others)).2.2) := by
  induction m generalizing w others with
  | pure a => rfl
  | raise e => rfl
  | op o k ih =>
    have hstep := perform_withThread (h (perform o (w.stir others.head)).1).1 (w.stir others.head) t
    show among.exec (k (perform o ((w.withThread t).stir others.head)).1)
      ((perform o ((w.withThread t).stir others.head)).2, others.tail) = _
    rw [World.withThread_stir, hstep]
    exact ih _ (h _).2 _ _

theorem avoids_openBlobs (bs : List (String × String)) :
    (openBlobs bs).Avoids fun o _ => Op.OfThread o := by
  have hunwrap : ∀ {α : Type} (a : Option α), (unwrap a : M α).Avoids fun o _ => Op.OfThread o := by
    intro α a
    cases a <;> trivial
  have hopen : ∀ name, (Blobstore.openExpect name).Avoids fun o _ => Op.OfThread o := by
    intro name
    unfold Blobstore.openExpect
    split_ifs
    · refine .bind (.call fun _ h => h) fun r => ?_
      cases r with
      | ok n => exact .bind (.call fun _ h => h) fun c => .bind (hunwrap c) fun _ => trivial
      | error e => trivial
    · trivial
  induction bs with
  | nil => trivial
  | cons b bs ih =>
    obtain ⟨k, b⟩ := b
    exact .bind (hopen b) fun _ => .bind ih fun _ => trivial

variable [LabelCrate]

/-- A new processor has forgotten the state of the thread. -/
theorem among_new (label : Buckle) (privilege : Component) (w : World)
    (others : Stream' (World → World)) (t t' : Thread) :
    among.exec (SyscallProcessor.new label privilege) (w.withThread t, others) =
      among.exec (SyscallProcessor.new label privilege) (w.withThread t', others) := rfl

/-- Serving a task depends on the state of the thread only if it fails. -/
theorem among_serveTask (rounds n : ℕ) (guest : Request → Guest) (invoke : LabeledInvoke)
    (label : Buckle) (privilege : Component) (w : World) (others : Stream' (World → World))
    (t t' : Thread) :
    among.exec (serveTask rounds n guest invoke label privilege) (w.withThread t, others) =
        among.exec (serveTask rounds n guest invoke label privilege) (w.withThread t', others) ∨
      ∃ e, (among.exec (serveTask rounds n guest invoke label privilege)
          (w.withThread t, others)).1 = .error e ∧
        (among.exec (serveTask rounds n guest invoke label privilege)
          (w.withThread t', others)).1 = .error e := by
  have hopen := among_withThread (avoids_openBlobs invoke.blobs.toList) w others
  unfold serveTask
  rcases hr : (among.exec (openBlobs invoke.blobs.toList) (w, others)).1 with e | blobs
  · refine .inr ⟨e, ?_, ?_⟩
    · rw [among.exec_bind_error ((hopen t).trans (by rw [hr]))]
    · rw [among.exec_bind_error ((hopen t').trans (by rw [hr]))]
  · refine .inl ?_
    rw [among.exec_bind_ok ((hopen t).trans (by rw [hr])),
      among.exec_bind_ok ((hopen t').trans (by rw [hr])), among.exec_bind, among_new _ _ _ _ t t',
      ← among.exec_bind]

/-! ### A thread at work -/

/-- A worker thread, and how everything around it will behave. -/
structure Bench where
  world : World
  others : Stream' (World → World)
  responses : Stream' TaskResponse
  allocated : Stream' (Option (Option Vm))
  boots : Stream' Bool
  guests : Stream' (Request → Guest)
  finished : List (String × TaskReturn) := []

namespace Bench

/-- The same with another state of the thread. -/
def withThread (s : Bench) (t : Thread) : Bench := { s with world := s.world.withThread t }

/-- The run of a task: how it ends, the world then, and what others will still do. -/
def serve (rounds n : ℕ) (invoke : LabeledInvoke) (label : Buckle) (privilege : Component)
    (s : Bench) : Except Raised (Option TaskReturn) × World × Stream' (World → World) :=
  among.exec (serveTask rounds n s.guests.head invoke label privilege) (s.world, s.others)

/-- What each operation does. -/
def perform (rounds n : ℕ) : (o : TaskOp) → Bench → o.Res × Bench
  | .get, s => (s.responses.head, { s with responses := s.responses.tail })
  | .tryAllocate _ _, s => (s.allocated.head, { s with allocated := s.allocated.tail })
  | .getCurrentLabel, s => (s.world.currentLabel, s)
  | .launch vm, s =>
      (vm.launch s.boots.head, { s with boots := if vm.handle then s.boots else s.boots.tail })
  | .run invoke label privilege _, s =>
      (((s.serve rounds n invoke label privilege).1,
          (s.serve rounds n invoke label privilege).2.1.currentLabel),
        { s with world := (s.serve rounds n invoke label privilege).2.1
                 others := (s.serve rounds n invoke label privilege).2.2
                 guests := s.guests.tail })
  | .release _, s => ((), s)
  | .delete _, s => ((), s)
  | .finish taskId ret, s => ((), { s with finished := s.finished ++ [(taskId, ret)] })

/-- Running a program of a worker thread at a bench. -/
def working (rounds n : ℕ) : Handler tasks Bench := ⟨perform rounds n⟩

/-- The bench after an allocation. -/
def afterAllocation (s : Bench) : Bench := { s with allocated := s.allocated.tail }

/-- Five attempts are made, and all of them fail, though the VM is launched in one of them. `k` attempts
are left. -/
def Exhausted (rounds n : ℕ) (invoke : LabeledInvoke) (label : Buckle) (privilege : Component) :
    ℕ → Vm → Bench → Prop
  | 0, vm, _ => vm.handle = true
  | k + 1, vm, s =>
      match perform rounds n (.launch vm) s with
      | (none, s) => Exhausted rounds n invoke label privilege k vm s
      | (some vm, s) =>
          (s.serve rounds n invoke label privilege).1 = .ok none ∧
            Exhausted rounds n invoke label privilege k
              (vm.after (s.serve rounds n invoke label privilege).2.1.currentLabel)
              (perform rounds n (.run invoke label privilege vm) s).2

/-- The task is not run to its end: no VM is allocated, or all attempts fail. -/
def GivesUp (rounds n : ℕ) (invoke : LabeledInvoke) (s : Bench) : Prop :=
  ∃ label privilege f, invoke.label.bind (·.into) = some label ∧
    invoke.gatePrivilege.bind (·.into) = some privilege ∧ invoke.function = some f ∧
    (s.allocated.head = some none ∨ ∃ vm, s.allocated.head = some (some vm) ∧
      vm.function.hasPaths = true ∧
      Exhausted rounds n invoke label privilege 5 vm s.afterAllocation)

/-- The states of a worker thread between two tasks. It starts with the public label and no privilege,
and comes from one to the next by working on a task, in any world and with any behaviour of the VMs. -/
inductive Between (rounds n : ℕ) : Thread → Prop
  | start : Between rounds n (.idle publicLabel)
  | task {t : Thread} (h : Between rounds n t) (s s' : Bench) (k : ℕ) (taskId : String)
      (invoke : LabeledInvoke)
      (hs : (working rounds n).exec (Worker.processTask k taskId invoke) (s.withThread t) =
        (.ok (), s')) : Between rounds n s'.world.toThread

/-- The replies after a task. -/
def replies (rounds n k : ℕ) (taskId : String) (invoke : LabeledInvoke) (s : Bench) :
    List (String × TaskReturn) :=
  ((working rounds n).exec (Worker.processTask k taskId invoke) s).2.finished

/-- The replies for a task do not depend on the tasks before it. -/
def Isolated (rounds n : ℕ) (taskId : String) (invoke : LabeledInvoke) (s : Bench) : Prop :=
  ∀ k t t', Between rounds n t → Between rounds n t' →
    replies rounds n k taskId invoke (s.withThread t) =
      replies rounds n k taskId invoke (s.withThread t')

/-! ### The attempts in two states of the thread -/

section Attempts

open Worker

variable {rounds n : ℕ} {taskId : String} {invoke : LabeledInvoke} {label : Buckle}
  {privilege : Component} {vm : Vm} {ret ret' : TaskReturn} {m cnt : ℕ} {s : Bench} {t t' : Thread}

omit [LabelCrate] in
theorem launch_handle {b : Bool} {vm' : Vm} (h : vm.launch b = some vm') :
    vm'.handle = true ∧ vm'.function = vm.function := by
  unfold Vm.launch at h
  by_cases hh : vm.handle = true
  · rw [if_pos hh] at h
    cases h
    exact ⟨hh, rfl⟩
  · rw [if_neg hh] at h
    by_cases hb : b = true
    · rw [if_pos hb] at h
      cases h
      exact ⟨rfl, rfl⟩
    · rw [if_neg hb] at h
      cases h

/-- The bench after a launch. -/
def afterLaunch (s : Bench) (vm : Vm) : Bench :=
  { s with boots := if vm.handle then s.boots else s.boots.tail }

/-- The bench after a run. -/
def afterRun (rounds n : ℕ) (invoke : LabeledInvoke) (label : Buckle) (privilege : Component)
    (s : Bench) : Bench :=
  { s with world := (s.serve rounds n invoke label privilege).2.1
           others := (s.serve rounds n invoke label privilege).2.2
           guests := s.guests.tail }

theorem exec_attempts_unlaunched (hp : vm.function.hasPaths = true)
    (hl : vm.launch s.boots.head = none) :
    (working rounds n).exec (attempts invoke label privilege (m + 1) cnt vm ret) s =
      (working rounds n).exec (attempts invoke label privilege m (cnt + 1) vm ret)
        (s.afterLaunch vm) := by
  have hexec : (working rounds n).exec (launch vm) s = (.ok none, s.afterLaunch vm) := by
    rw [← hl]
    rfl
  rw [attempts, if_pos hp, Handler.exec_bind_ok _ hexec]

theorem exec_attempts_launched (hp : vm.function.hasPaths = true) {vm' : Vm}
    (hl : vm.launch s.boots.head = some vm') :
    (working rounds n).exec (attempts invoke label privilege (m + 1) cnt vm ret) s =
      match ((s.afterLaunch vm).serve rounds n invoke label privilege).1 with
      | .error e => (.error e, (s.afterLaunch vm).afterRun rounds n invoke label privilege)
      | .ok (some r) => (.ok r, (s.afterLaunch vm).afterRun rounds n invoke label privilege)
      | .ok none =>
          if cnt + 1 = 5 then
            (.ok ret, (s.afterLaunch vm).afterRun rounds n invoke label privilege)
          else (working rounds n).exec (attempts invoke label privilege m (cnt + 1)
            (vm'.after ((s.afterLaunch vm).serve rounds n invoke label privilege).2.1.currentLabel)
              ret) ((s.afterLaunch vm).afterRun rounds n invoke label privilege) := by
  have hexec : (working rounds n).exec (launch vm) s = (.ok (some vm'), s.afterLaunch vm) := by
    rw [← hl]
    rfl
  have hrun : (working rounds n).exec (run invoke label privilege vm') (s.afterLaunch vm) =
      (.ok (((s.afterLaunch vm).serve rounds n invoke label privilege).1,
        ((s.afterLaunch vm).serve rounds n invoke label privilege).2.1.currentLabel),
        (s.afterLaunch vm).afterRun rounds n invoke label privilege) := rfl
  rw [attempts, if_pos hp, Handler.exec_bind_ok _ hexec]
  simp only
  rw [Handler.exec_bind_ok _ hrun]
  rcases ((s.afterLaunch vm).serve rounds n invoke label privilege).1 with e | _ | r
  · rfl
  · by_cases hc : cnt + 1 = 5
    · simp only [hc, if_true, (launch_handle hl).1]
      rfl
    · simp only [hc, if_false]
  · rfl

theorem exec_attempts_pathless (hp : ¬ vm.function.hasPaths = true) :
    (working rounds n).exec (attempts invoke label privilege (m + 1) cnt vm ret) s =
      (.error .panic, s) := by
  rw [attempts, if_neg hp]
  rfl

/-- Five attempts that fail, one attempt unfolded. -/
theorem exhausted_unlaunched {k : ℕ} (hl : vm.launch s.boots.head = none) :
    Exhausted rounds n invoke label privilege (k + 1) vm s ↔
      Exhausted rounds n invoke label privilege k vm (s.afterLaunch vm) := by
  have hperform : perform rounds n (.launch vm) s = (none, s.afterLaunch vm) := by
    rw [← hl]
    rfl
  rw [Exhausted, hperform]

theorem exhausted_launched {k : ℕ} {vm' : Vm} (hl : vm.launch s.boots.head = some vm') :
    Exhausted rounds n invoke label privilege (k + 1) vm s ↔
      ((s.afterLaunch vm).serve rounds n invoke label privilege).1 = .ok none ∧
        Exhausted rounds n invoke label privilege k
          (vm'.after ((s.afterLaunch vm).serve rounds n invoke label privilege).2.1.currentLabel)
          ((s.afterLaunch vm).afterRun rounds n invoke label privilege) := by
  have hperform : perform rounds n (.launch vm) s = (some vm', s.afterLaunch vm) := by
    rw [← hl]
    rfl
  rw [Exhausted, hperform]
  rfl

/-- The attempts, in two states of the thread: they end with the same error, or with the same result, or
all of them have failed. -/
theorem attempts_cases (rounds n : ℕ) (invoke : LabeledInvoke) (label : Buckle) (privilege : Component)
    (ret ret' : TaskReturn) (m cnt : ℕ) (vm : Vm) (s : Bench) (t t' : Thread) :
    (∃ e, ((working rounds n).exec (attempts invoke label privilege m cnt vm ret)
          (s.withThread t)).1 = .error e ∧
        ((working rounds n).exec (attempts invoke label privilege m cnt vm ret')
          (s.withThread t')).1 = .error e) ∨
      (∃ r, ((working rounds n).exec (attempts invoke label privilege m cnt vm ret)
          (s.withThread t)).1 = .ok r ∧
        ((working rounds n).exec (attempts invoke label privilege m cnt vm ret')
          (s.withThread t')).1 = .ok r) ∨
      vm.function.hasPaths = true ∧ cnt < 5 ∧
        Exhausted rounds n invoke label privilege (5 - cnt) vm (s.withThread t) := by
  induction m generalizing cnt vm s t t' with
  | zero => exact .inl ⟨.diverge, rfl, rfl⟩
  | succ m ih =>
    by_cases hp : vm.function.hasPaths = true
    · rcases hl : vm.launch s.boots.head with _ | vm'
      · rw [exec_attempts_unlaunched hp (s := s.withThread t) hl,
          exec_attempts_unlaunched hp (s := s.withThread t') hl]
        refine (ih (cnt + 1) vm (s.afterLaunch vm) t t').imp id (Or.imp id ?_)
        rintro ⟨-, hcnt, hex⟩
        refine ⟨hp, by omega, ?_⟩
        rw [show 5 - cnt = 5 - (cnt + 1) + 1 by omega]
        exact (exhausted_unlaunched (s := s.withThread t) hl).2 hex
      · obtain ⟨hhandle, hfunction⟩ := launch_handle hl
        rw [exec_attempts_launched hp (s := s.withThread t) hl,
          exec_attempts_launched hp (s := s.withThread t') hl]
        rcases among_serveTask rounds n s.guests.head invoke label privilege s.world s.others t t' with
          hsame | ⟨e, he, he'⟩
        · -- From here on the two benches are the same.
          have hserve : ((s.withThread t').afterLaunch vm).serve rounds n invoke label privilege =
              ((s.withThread t).afterLaunch vm).serve rounds n invoke label privilege := hsame.symm
          have hafter : ((s.withThread t').afterLaunch vm).afterRun rounds n invoke label privilege =
              ((s.withThread t).afterLaunch vm).afterRun rounds n invoke label privilege := by
            unfold afterRun
            rw [hserve]
            rfl
          rw [hafter, hserve]
          have hex : Exhausted rounds n invoke label privilege (4 - cnt + 1) vm (s.withThread t) ↔
              _ := exhausted_launched hl
          generalize hs₁ : (s.withThread t).afterLaunch vm = s₁ at hex ⊢
          rcases hr : (s₁.serve rounds n invoke label privilege).1 with e | _ | r
          · exact .inl ⟨e, rfl, rfl⟩
          · by_cases hc : cnt + 1 = 5
            · refine .inr (.inr ⟨hp, by omega, ?_⟩)
              rw [show 5 - cnt = 4 - cnt + 1 by omega]
              refine hex.2 ⟨hr, ?_⟩
              rw [show 4 - cnt = 0 by omega]
              exact hhandle
            · simp only [hc, if_false]
              have hrest := ih (cnt + 1)
                (vm'.after (s₁.serve rounds n invoke label privilege).2.1.currentLabel)
                (s₁.afterRun rounds n invoke label privilege)
                (s₁.afterRun rounds n invoke label privilege).world.toThread
                (s₁.afterRun rounds n invoke label privilege).world.toThread
              refine hrest.imp id (Or.imp id ?_)
              rintro ⟨-, hcnt, hmore⟩
              refine ⟨hp, by omega, ?_⟩
              rw [show 5 - cnt = 4 - cnt + 1 by omega]
              refine hex.2 ⟨hr, ?_⟩
              rw [show 4 - cnt = 5 - (cnt + 1) by omega]
              exact hmore
          · exact .inr (.inl ⟨r, rfl, rfl⟩)
        · refine .inl ⟨e, ?_, ?_⟩
          · rw [show (((s.withThread t).afterLaunch vm).serve rounds n invoke label privilege).1 =
              .error e from he]
          · rw [show (((s.withThread t').afterLaunch vm).serve rounds n invoke label privilege).1 =
              .error e from he']
    · rw [exec_attempts_pathless hp, exec_attempts_pathless hp]
      exact .inl ⟨.panic, rfl, rfl⟩

/-- When all five attempts fail, the reply is the one that was prepared before. -/
theorem exec_attempts_exhausted (hp : vm.function.hasPaths = true) (hcnt : cnt < 5)
    (hm : 5 - cnt ≤ m) (h : Exhausted rounds n invoke label privilege (5 - cnt) vm s) :
    ((working rounds n).exec (attempts invoke label privilege m cnt vm ret) s).1 = .ok ret := by
  induction m generalizing cnt vm s with
  | zero => omega
  | succ m ih =>
    rw [show 5 - cnt = 4 - cnt + 1 by omega] at h
    rcases hl : vm.launch s.boots.head with _ | vm'
    · rw [exhausted_unlaunched hl] at h
      rw [exec_attempts_unlaunched hp hl]
      by_cases hc : cnt + 1 = 5
      · -- No attempt is left, and the VM was never launched.
        rw [show 4 - cnt = 0 by omega] at h
        have hh : vm.handle = true := h
        simp [Vm.launch, hh] at hl
      · exact ih hp (by omega) (by omega) (by rwa [show 5 - (cnt + 1) = 4 - cnt by omega])
    · rw [exhausted_launched hl] at h
      rw [exec_attempts_launched hp hl, h.1]
      by_cases hc : cnt + 1 = 5
      · simp only [hc, if_true]
      · simp only [hc, if_false]
        refine ih ?_ (by omega) (by omega) (by rw [show 5 - (cnt + 1) = 4 - cnt by omega]; exact h.2)
        rw [show (vm'.after _).function = vm.function from (launch_handle hl).2]
        exact hp

/-- Whether the attempts fail does not depend on the state of the thread. -/
theorem Exhausted.withThread {k : ℕ} (t' : Thread)
    (h : Exhausted rounds n invoke label privilege k vm (s.withThread t)) :
    Exhausted rounds n invoke label privilege k vm (s.withThread t') := by
  induction k generalizing vm s t t' with
  | zero => exact h
  | succ k ih =>
    rcases hl : vm.launch s.boots.head with _ | vm'
    · rw [exhausted_unlaunched (s := s.withThread t) hl] at h
      rw [exhausted_unlaunched (s := s.withThread t') hl]
      exact ih (s := s.afterLaunch vm) t' h
    · rw [exhausted_launched (s := s.withThread t) hl] at h
      rw [exhausted_launched (s := s.withThread t') hl]
      rcases among_serveTask rounds n s.guests.head invoke label privilege s.world s.others t t' with
        hsame | ⟨e, he, -⟩
      · have hserve : ((s.withThread t').afterLaunch vm).serve rounds n invoke label privilege =
            ((s.withThread t).afterLaunch vm).serve rounds n invoke label privilege := hsame.symm
        have hafter : ((s.withThread t').afterLaunch vm).afterRun rounds n invoke label privilege =
            ((s.withThread t).afterLaunch vm).afterRun rounds n invoke label privilege := by
          unfold afterRun
          rw [hserve]
          rfl
        rw [hserve, hafter]
        exact h
      · rw [show (((s.withThread t).afterLaunch vm).serve rounds n invoke label privilege).1 =
          .error e from he] at h
        cases h.1

/-- The attempts send no reply. -/
theorem finished_attempts (m cnt : ℕ) (vm : Vm) (s : Bench) :
    ((working rounds n).exec (attempts invoke label privilege m cnt vm ret) s).2.finished =
      s.finished := by
  induction m generalizing cnt vm s with
  | zero => rfl
  | succ m ih =>
    by_cases hp : vm.function.hasPaths = true
    · rcases hl : vm.launch s.boots.head with _ | vm'
      · rw [exec_attempts_unlaunched hp hl]
        exact ih (cnt + 1) vm (s.afterLaunch vm)
      · rw [exec_attempts_launched hp hl]
        rcases ((s.afterLaunch vm).serve rounds n invoke label privilege).1 with e | _ | r
        · rfl
        · by_cases hc : cnt + 1 = 5
          · simp only [hc, if_true]
            rfl
          · simp only [hc, if_false]
            exact ih _ _ _
        · rfl
    · rw [exec_attempts_pathless hp]

end Attempts

/-! ### Whole tasks -/

section Tasks

open Worker

variable {rounds n : ℕ} {taskId : String} {invoke : LabeledInvoke} {label : Buckle}
  {privilege : Component} {f : Function} {s : Bench}

section Arm

variable (hlabel : invoke.label.bind (·.into) = some label)
  (hprivilege : invoke.gatePrivilege.bind (·.into) = some privilege)
  (hf : invoke.function = some f)

include hlabel hprivilege hf

/-- Without a VM there is one reply, under the label that the thread has. -/
theorem replies_exhausted (k : ℕ) (hvm : s.allocated.head = some none) :
    replies rounds n k taskId invoke s =
      s.finished ++ [(taskId, failure .resourceExhausted s.world.currentLabel)] := by
  have halloc : (working rounds n).exec (tryAllocate f label) s =
      (.ok (some none), s.afterAllocation) := by
    rw [← hvm]
    rfl
  unfold replies Worker.processTask
  rw [hlabel, hprivilege, hf]
  show ((working rounds n).exec (tryAllocate f label >>= _) s).2.finished = _
  rw [Handler.exec_bind_ok _ halloc]
  rfl

/-- An allocation that does not end. -/
theorem replies_blocked (k : ℕ) (hvm : s.allocated.head = none) :
    replies rounds n k taskId invoke s = s.finished := by
  have halloc : (working rounds n).exec (tryAllocate f label) s =
      (.ok none, s.afterAllocation) := by
    rw [← hvm]
    rfl
  unfold replies Worker.processTask
  rw [hlabel, hprivilege, hf]
  show ((working rounds n).exec (tryAllocate f label >>= _) s).2.finished = _
  rw [Handler.exec_bind_ok _ halloc]
  rfl

/-- The reply for what the attempts come to. -/
def sent (taskId : String) : Except Raised TaskReturn → List (String × TaskReturn)
  | .ok ret => [(taskId, ret)]
  | .error _ => []

/-- With a VM the attempts are made. -/
theorem exec_processTask (k : ℕ) {vm : Vm} (hvm : s.allocated.head = some (some vm)) :
    (working rounds n).exec (Worker.processTask k taskId invoke) s =
      (working rounds n).exec (attempts invoke label privilege k 0 vm
        (failure .processRequestFailed s.world.currentLabel) >>= Worker.finish taskId)
          s.afterAllocation := by
  have halloc : (working rounds n).exec (tryAllocate f label) s =
      (.ok (some (some vm)), s.afterAllocation) := by
    rw [← hvm]
    rfl
  unfold Worker.processTask
  rw [hlabel, hprivilege, hf]
  show (working rounds n).exec (tryAllocate f label >>= _) s = _
  rw [Handler.exec_bind_ok _ halloc]
  rfl

/-- With a VM there is a reply when the attempts end. -/
theorem replies_attempts (k : ℕ) {vm : Vm} (hvm : s.allocated.head = some (some vm)) :
    replies rounds n k taskId invoke s = s.finished ++
      sent taskId ((working rounds n).exec (attempts invoke label privilege k 0 vm
        (failure .processRequestFailed s.world.currentLabel)) s.afterAllocation).1 := by
  have hfin : ((working rounds n).exec (attempts invoke label privilege k 0 vm
      (failure .processRequestFailed s.world.currentLabel))
        s.afterAllocation).2.finished = s.finished :=
    finished_attempts k 0 vm _
  unfold replies
  rw [exec_processTask hlabel hprivilege hf k hvm, Handler.exec_bind]
  generalize (working rounds n).exec (attempts invoke label privilege k 0 vm
    (failure .processRequestFailed s.world.currentLabel))
      s.afterAllocation = r at hfin
  obtain ⟨e | ret, s'⟩ := r
  · simpa [sent] using hfin
  · show s'.finished ++ [(taskId, ret)] = _
    rw [hfin]
    rfl

end Arm

/-- A task that is not given up gets the same reply in all states of the thread. -/
theorem replies_eq_of_not_givesUp (h : ¬ s.GivesUp rounds n invoke) (k : ℕ) (t t' : Thread) :
    replies rounds n k taskId invoke (s.withThread t) =
      replies rounds n k taskId invoke (s.withThread t') := by
  rcases hlabel : invoke.label.bind (·.into) with _ | label
  · unfold replies Worker.processTask
    rw [hlabel]
    rfl
  rcases hprivilege : invoke.gatePrivilege.bind (·.into) with _ | privilege
  · unfold replies Worker.processTask
    rw [hlabel, hprivilege]
    rfl
  rcases hf : invoke.function with _ | f
  · unfold replies Worker.processTask
    rw [hlabel, hprivilege, hf]
    rfl
  rcases hvm : s.allocated.head with _ | _ | vm
  · rw [replies_blocked (s := s.withThread t) hlabel hprivilege hf k hvm,
      replies_blocked (s := s.withThread t') hlabel hprivilege hf k hvm]
    rfl
  · exact absurd ⟨label, privilege, f, hlabel, hprivilege, hf, .inl hvm⟩ h
  · rw [replies_attempts (s := s.withThread t) hlabel hprivilege hf k hvm,
      replies_attempts (s := s.withThread t') hlabel hprivilege hf k hvm]
    show s.finished ++ sent taskId ((working rounds n).exec (attempts invoke label privilege k 0 vm
        (failure .processRequestFailed t.currentLabel)) (s.afterAllocation.withThread t)).1 =
      s.finished ++ sent taskId ((working rounds n).exec (attempts invoke label privilege k 0 vm
        (failure .processRequestFailed t'.currentLabel)) (s.afterAllocation.withThread t')).1
    rcases attempts_cases rounds n invoke label privilege
      (failure .processRequestFailed t.currentLabel) (failure .processRequestFailed t'.currentLabel)
      k 0 vm s.afterAllocation t t' with ⟨e, he, he'⟩ | ⟨r, hr, hr'⟩ | ⟨hp, -, hex⟩
    · rw [he, he']
    · rw [hr, hr']
    · refine absurd ⟨label, privilege, f, hlabel, hprivilege, hf, .inr ⟨vm, hvm, hp, ?_⟩⟩ h
      exact hex.withThread s.world.toThread

/-- A task that is given up is answered under the label that the thread has. -/
theorem replies_of_givesUp (taskId : String) (h : s.GivesUp rounds n invoke) (t : Thread) :
    ∃ code, replies rounds n 5 taskId invoke (s.withThread t) =
      s.finished ++ [(taskId, failure code t.currentLabel)] := by
  obtain ⟨label, privilege, f, hlabel, hprivilege, hf, hvm | ⟨vm, hvm, hp, hex⟩⟩ := h
  · exact ⟨_, replies_exhausted (s := s.withThread t) hlabel hprivilege hf 5 hvm⟩
  · refine ⟨.processRequestFailed, ?_⟩
    rw [replies_attempts (s := s.withThread t) hlabel hprivilege hf 5 hvm]
    have hex' : Exhausted rounds n invoke label privilege (5 - 0) vm
        (s.withThread t).afterAllocation :=
      Exhausted.withThread (s := s.afterAllocation) (t := s.world.toThread) t hex
    rw [exec_attempts_exhausted hp (by omega) (by omega) hex']
    rfl

end Tasks

/-! ### Histories -/

section Histories

variable {rounds n : ℕ}

/-- A task that takes a label and responds. -/
def tainting (l : Buckle) : LabeledInvoke where
  function := some ⟨1, "0aa", "0bb", "0cc"⟩
  label := some (.ofBuckle l)
  gatePrivilege := some (.ofComponent .dcTrue)
  payload := []
  blobs := ∅
  headers := ∅
  sync := false
  invoker := some (.ofComponent .dcTrue)

/-- A bench at which it is given a VM that was launched before, and its guest responds at once. -/
def responsive : Bench where
  world := .quiet (.idle publicLabel) .empty
  others := .const id
  responses := .const .terminate
  allocated := .const (some (some ⟨1, ⟨1, "0aa", "0bb", "0cc"⟩, publicLabel, true, []⟩))
  boots := .const true
  guests := .const fun _ _ => some (.response ⟨none, 200⟩)

/-- It leaves its label to the thread. -/
theorem tainting_leaves (l : Buckle) (t : Thread) :
    ∃ s', (working rounds (n + 1)).exec (Worker.processTask 1 "1" (tainting l))
        (responsive.withThread t) = (.ok (), s') ∧
      s'.world.currentLabel = downgrade (lub publicLabel l) .dcTrue := by
  have hlabel : (tainting l).label.bind (·.into) = some l := Pb.into_ofBuckle l
  have hpaths : Function.hasPaths ⟨1, "0aa", "0bb", "0cc"⟩ = true := by decide
  rw [exec_processTask (f := ⟨1, "0aa", "0bb", "0cc"⟩) (s := responsive.withThread t) hlabel rfl rfl
    1 rfl, Handler.exec_bind, exec_attempts_launched hpaths rfl]
  exact ⟨_, rfl, rfl⟩

/-- A thread can be left with another label than the public one. -/
theorem exists_between [LawfulCrate] (hsecret : ∃ l, ¬ canFlowTo l publicLabel) :
    ∃ t, Between rounds (n + 1) t ∧ t.currentLabel ≠ publicLabel := by
  obtain ⟨l, hl⟩ := hsecret
  obtain ⟨s', hs, hlabel⟩ := @tainting_leaves _ rounds n l (.idle publicLabel)
  refine ⟨_, .task .start responsive s' 1 "1" (tainting l) hs, fun hpublic => hl ?_⟩
  have hflow : canFlowToWithPrivilege l (downgrade (lub publicLabel l) .dcTrue) .dcTrue :=
    LawfulCrate.priv_trans (LawfulCrate.priv_of_flow (LawfulCrate.flow_lub_right publicLabel l))
      (LawfulCrate.priv_downgrade _ _)
  rw [← hlabel, hpublic] at hflow
  exact LawfulCrate.flow_of_priv_true hflow

/-- **When a task is isolated** from the tasks that its thread worked on before: if and only if it is not
given up. The reply that no VM could be had, and the one that all attempts failed, show the label that
the last task left to the thread. -/
theorem isolated_iff [LawfulCrate] (hsecret : ∃ l, ¬ canFlowTo l publicLabel) (taskId : String)
    (invoke : LabeledInvoke) (s : Bench) :
    s.Isolated rounds (n + 1) taskId invoke ↔ ¬ s.GivesUp rounds (n + 1) invoke := by
  constructor
  · intro h hgives
    obtain ⟨t, ht, hne⟩ := @exists_between _ rounds n _ hsecret
    have hsame := h 5 (.idle publicLabel) t .start ht
    obtain ⟨code, hcode⟩ := replies_of_givesUp taskId hgives (.idle publicLabel)
    obtain ⟨code', hcode'⟩ := replies_of_givesUp taskId hgives t
    rw [hcode, hcode'] at hsame
    have hret := (Prod.mk.inj (List.cons.inj (List.append_cancel_left hsame)).1).2
    have hwire : Pb.Buckle.ofBuckle publicLabel = Pb.Buckle.ofBuckle t.currentLabel :=
      Option.some.inj (congrArg TaskReturn.label hret)
    have hlabel := congrArg Pb.Buckle.into hwire
    rw [Pb.into_ofBuckle, Pb.into_ofBuckle] at hlabel
    exact hne (Option.some.inj hlabel).symm
  · intro h k t t' _ _
    exact replies_eq_of_not_givesUp h k t t'

end Histories

end Bench

end Faasten

/-!
### After the task of another user

A thread runs a task with a label of `bob`. The next task is public, and no VM can be had for it.
-/

namespace Faasten.Leftover

open Effect Bench Worker
open scoped Dc

/-- The label of the first task. -/
def bobs : Buckle := ⟨.single ["bob"], .dcTrue⟩

/-- The second task is public. -/
def task : LabeledInvoke := tainting publicLabel

/-- A bench at which no VM is allocated. -/
def starved : Bench := { responsive with allocated := .const (some none) }

/-- A task that is run to its end is isolated. -/
theorem responsive_isolated : responsive.Isolated 1 1 "2" task :=
  (isolated_iff ⟨bobs, by decide⟩ "2" task responsive).2 <| by
    rintro ⟨label, privilege, f, hlabel, hprivilege, -, hvm | ⟨vm, hvm, -, hex⟩⟩
    · cases hvm
    · cases hlabel
      cases hprivilege
      cases hvm
      exact absurd hex.1 (by decide)

/-- **The refused task shows the label of `bob`**, or the public one, by who came before. -/
theorem starved_not_isolated : ¬ starved.Isolated 1 1 "2" task := by
  intro h
  obtain ⟨s', hs, hlabel⟩ := @tainting_leaves _ 1 0 bobs (.idle publicLabel)
  have hsame := h 5 (.idle publicLabel) _ .start (.task .start responsive s' 1 "1" (tainting bobs) hs)
  rw [replies_exhausted (f := ⟨1, "0aa", "0bb", "0cc"⟩)
      (s := starved.withThread (.idle publicLabel)) rfl rfl rfl 5 rfl,
    replies_exhausted (f := ⟨1, "0aa", "0bb", "0cc"⟩)
      (s := starved.withThread s'.world.toThread) rfl rfl rfl 5 rfl] at hsame
  have hcurrent : (starved.withThread s'.world.toThread).world.currentLabel =
      downgrade (lub publicLabel bobs) .dcTrue := hlabel
  rw [hcurrent] at hsame
  have hcodes : ([] : List (String × TaskReturn)) ++
        [("2", failure .resourceExhausted publicLabel)] ≠
      [] ++ [("2", failure .resourceExhausted (downgrade (lub publicLabel bobs) .dcTrue))] := by
    decide
  exact hcodes hsame

end Faasten.Leftover
