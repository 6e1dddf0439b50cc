import Mathlib
import Faasten.Sched.Answers

/-!
# Every task is delivered, in turn

A task that `serve` has accepted passes through fixed places (`Place.Next`): the queue, `schedule`, the
connection of one worker, the worker, and the `FinishTask` that comes back. `Server.Moves` is what a step
can do to the tasks: it moves one of them to its next place, or none. So no task is lost, none is given
out twice, and none goes back (`Server.Run.task_kept`), whether or not somebody waits for its result.

`Server.pending` are the tasks that have not been given to a worker. They are a queue to the very end:
tasks leave it in the order in which they came (`Server.Run.served_in_order`).

Both are about runs in which no asynchronous invocation finds the queue full; the frame that is written
then would be read in the place of another, and a task could be lost with it.
-/

namespace Faasten.Sched

/-! ### One step -/

/-- Where a task comes next. -/
inductive Place.Next : Place → Place → Prop
  | accept : Next .nowhere .queued
  | recv : Next .queued .held
  | dispatch (c : Conn) : Next .held (.sent c)
  | read (c : Conn) : Next (.sent c) (.running c)
  | send (c : Conn) : Next (.running c) (.finishing c)
  | finish (c : Conn) : Next (.finishing c) .finished

theorem Place.Next.ne {p q : Place} (h : p.Next q) : p ≠ q := by
  cases h <;> simp

theorem Place.Next.ne_nowhere {p q : Place} (h : p.Next q) : q ≠ .nowhere := by
  cases h <;> simp

/-- The task `u` goes from `p` to `q`. A task that comes from nowhere is new. -/
structure Server.Shifts (s s' : Server) (u : Uuid) (p q : Place) : Prop where
  next : p.Next q
  fresh : p = .nowhere → u ∉ s.issued ∧ u ∈ s'.issued
  leaves : p ≠ .nowhere → (s.tasksAt p).Perm (u :: s'.tasksAt p)
  arrives : (s'.tasksAt q).Perm (u :: s.tasksAt q)
  others : ∀ r, r ≠ p → r ≠ q → s'.tasksAt r = s.tasksAt r

/-- One task goes to its next place, or none does. -/
def Server.Moves (s s' : Server) : Prop :=
  s.issued ⊆ s'.issued ∧ ((∀ p, s'.tasksAt p = s.tasksAt p) ∨ ∃ u p q, s.Shifts s' u p q)

variable {s s' : Server} {c : Conn} {u : Uuid}

/-- A change that concerns no task, and then a step. -/
theorem Server.Moves.after {s₁ : Server} (h : s₁.Moves s') (htasks : ∀ p, s₁.tasksAt p = s.tasksAt p)
    (hissued : s₁.issued = s.issued) : s.Moves s' := by
  refine ⟨hissued ▸ h.1, h.2.imp (fun hp p => (hp p).trans (htasks p)) ?_⟩
  rintro ⟨u, p, q, hnext, hfresh, hleaves, harrives, hothers⟩
  refine ⟨u, p, q, hnext, hissued ▸ hfresh, fun hp => htasks p ▸ hleaves hp, htasks q ▸ harrives, ?_⟩
  exact fun r hr hr' => (hothers r hr hr').trans (htasks r)

theorem Server.Moves.none (htasks : ∀ p, s'.tasksAt p = s.tasksAt p) (hissued : s'.issued = s.issued) :
    s.Moves s' := ⟨hissued ▸ List.Subset.refl _, .inl htasks⟩

/-- A frame without a task. -/
theorem Server.tasksAt_write {frame : Frame} (hid : frame.taskId = none) (p : Place) :
    (s.write c frame).tasksAt p = s.tasksAt p := by
  cases p with
  | sent c' => by_cases hc : c' = c <;> simp [Server.tasksAt, Server.write, hc, hid]
  | _ => rfl

/-- A request without a task, taken from the inbox. -/
theorem Server.tasksAt_pop {req : Request} {rest : List Request} (hin : s.inbox c = req :: rest)
    (hid : req.taskId = none) (p : Place) :
    Server.tasksAt { s with inbox := Function.update s.inbox c rest } p = s.tasksAt p := by
  cases p with
  | finishing c' => by_cases hc : c' = c <;> simp [Server.tasksAt, hc, hin, hid]
  | _ => rfl

theorem Server.send_moves {req : Request} (hs : s.send c req = some s') : s.Moves s' := by
  obtain ⟨-, tasks, rfl, ⟨hid, rfl⟩ | ⟨taskId, hid, hmem, rfl⟩⟩ := Server.send_cases hs
  · refine .none (fun p => ?_) rfl
    cases p with
    | running c' => by_cases hc : c' = c <;> simp [Server.tasksAt, hc]
    | finishing c' => by_cases hc : c' = c <;> simp [Server.tasksAt, hc, hid]
    | _ => rfl
  · refine ⟨List.Subset.refl _, .inr ⟨taskId, .running c, .finishing c, .send c, ?_, ?_, ?_, ?_⟩⟩
    · simp
    · intro _
      simpa [Server.tasksAt] using List.perm_cons_erase hmem
    · simp [Server.tasksAt, hid, List.perm_append_singleton]
    · intro r hr hr'
      cases r with
      | running c' => simp [Server.tasksAt, show c' ≠ c from fun hc => hr (hc ▸ rfl)]
      | finishing c' => simp [Server.tasksAt, show c' ≠ c from fun hc => hr' (hc ▸ rfl)]
      | _ => rfl

/-- What is read is what is expected, so that a task in it is taken over. -/
theorem Server.read_moves (hstep : s.InStep) (hs : s.read c = some s') : s.Moves s' := by
  rcases hstep c with hnil | ⟨frame, hout, hreading⟩
  · simp [Server.read, hnil] at hs
  · simp only [Server.read, hreading, hout, Option.some.injEq] at hs
    subst hs
    cases hid : frame.taskId with
    | none =>
      refine .none (fun p => ?_) rfl
      cases p with
      | sent c' => by_cases hc : c' = c <;> simp [Server.tasksAt, hc, hout, hid]
      | running c' =>
        by_cases hc : c' = c
        · subst hc
          simp only [Server.tasksAt, Function.update_self]
          split
          · rename_i taskId r
            cases hid
          · rfl
        · simp [Server.tasksAt, hc]
      | _ => rfl
    | some taskId =>
      obtain ⟨r, rfl⟩ : ∃ r, frame = .response (.processTask taskId r) := by
        unfold Frame.taskId at hid
        split at hid
        · cases hid
          exact ⟨_, rfl⟩
        · cases hid
      refine ⟨List.Subset.refl _, .inr ⟨taskId, .sent c, .running c, .read c, ?_, ?_, ?_, ?_⟩⟩
      · simp
      · simp [Server.tasksAt, hout, Frame.taskId]
      · simp [Server.tasksAt, Frame.kind]
      · intro r hr hr'
        cases r with
        | sent c' => simp [Server.tasksAt, show c' ≠ c from fun hc => hr (hc ▸ rfl)]
        | running c' => simp [Server.tasksAt, show c' ≠ c from fun hc => hr' (hc ▸ rfl)]
        | _ => rfl

theorem Server.register_moves (hs : s.register c = some s') : s.Moves s' := by
  unfold Server.register at hs
  split at hs
  · cases hs
    exact .none (fun p => by cases p <;> rfl) rfl
  · cases hs

theorem Server.recv_moves (hs : s.recv = some s') : s.Moves s' := by
  unfold Server.recv at hs
  split at hs
  · rename_i task queue hwaiting hqueue
    cases hs
    refine ⟨List.Subset.refl _, .inr ⟨task.1, .queued, .held, .recv, ?_, ?_, ?_, ?_⟩⟩
    · simp
    · simp [Server.tasksAt, hqueue]
    · simp [Server.tasksAt, hwaiting, Scheduling.taskId]
    · intro r hr hr'
      cases r with
      | queued => exact absurd rfl hr
      | held => exact absurd rfl hr'
      | _ => rfl
  · cases hs

theorem Server.find_moves {next : Option Node} (hs : s.find next = some s') : s.Moves s' := by
  unfold Server.find at hs
  split at hs
  · rename_i task hholding
    split at hs
    · cases hs
    · split at hs
      · cases hs
        refine .none (fun p => ?_) rfl
        cases p with
        | held => simp [Server.tasksAt, hholding, Scheduling.taskId]
        | _ => rfl
      · cases hs
        exact .none (fun p => by cases p <;> rfl) rfl
      · cases hs
  · cases hs

/-- A write that fails leaves the task with `schedule`. -/
theorem Server.dispatch_moves {succeeds : Bool} (hs : s.dispatch succeeds = some s') :
    s.Moves s' := by
  unfold Server.dispatch at hs
  split at hs
  · rename_i task worker hdispatching
    split at hs
    · cases hs
      refine ⟨List.Subset.refl _,
        .inr ⟨task.1, .held, .sent worker.conn, .dispatch worker.conn, ?_, ?_, ?_, ?_⟩⟩
      · simp
      · simp [Server.tasksAt, Server.write, hdispatching, Scheduling.taskId]
      · simp [Server.tasksAt, Server.write, Frame.taskId, List.perm_append_singleton]
      · intro r hr hr'
        cases r with
        | held => exact absurd rfl hr
        | sent c' =>
          simp [Server.tasksAt, Server.write, show c' ≠ worker.conn from fun hc => hr' (hc ▸ rfl)]
        | _ => rfl
    · cases hs
      refine .none (fun p => ?_) rfl
      cases p with
      | held => simp [Server.tasksAt, hdispatching, Scheduling.taskId]
      | _ => rfl
  · cases hs

/-- The task of a `FinishTask` is finished, whether or not somebody waits for it. -/
theorem Server.finishTask_moves {taskId : Uuid} {result : TaskReturn} {rest : List Request}
    (hin : s.inbox c = .finishTask taskId result :: rest) :
    s.Moves (Server.finishTask { s with inbox := Function.update s.inbox c rest } taskId result) := by
  have htasks : ∀ p, (Server.finishTask { s with inbox := Function.update s.inbox c rest }
      taskId result).tasksAt p = Server.tasksAt { s with
        inbox := Function.update s.inbox c rest
        finished := s.finished ++ [(taskId, result)] } p := by
    intro p
    unfold Server.finishTask
    dsimp only
    split_ifs
    · rfl
    · split
      · exact (Server.tasksAt_write rfl p).trans (by cases p <;> rfl)
      · rfl
  have hissued : (Server.finishTask { s with inbox := Function.update s.inbox c rest }
      taskId result).issued = s.issued := by
    unfold Server.finishTask
    dsimp only
    split_ifs
    · rfl
    · split <;> rfl
  refine ⟨by rw [hissued]; exact List.Subset.refl _,
    .inr ⟨taskId, .finishing c, .finished, .finish c, by simp, ?_, ?_, ?_⟩⟩
  · intro _
    rw [htasks]
    simp [Server.tasksAt, hin, Request.taskId]
  · rw [htasks]
    simp [Server.tasksAt, List.perm_append_singleton]
  · intro r hr hr'
    rw [htasks]
    cases r with
    | finishing c' => simp [Server.tasksAt, show c' ≠ c from fun hc => hr (hc ▸ rfl)]
    | finished => exact absurd rfl hr'
    | _ => rfl

/-- A worker that is told to end is idle, and has no task. -/
theorem Server.tasksAt_dropResource (ip : ℕ) :
    (∀ p, (s.dropResource ip).tasksAt p = s.tasksAt p) ∧ (s.dropResource ip).issued = s.issued := by
  have hfold : ∀ (workers : List Worker) (s : Server),
      (∀ p, (workers.foldl (fun s w => s.write w.conn (.response .terminate)) s).tasksAt p =
        s.tasksAt p) ∧
      (workers.foldl (fun s w => s.write w.conn (.response .terminate)) s).issued = s.issued := by
    intro workers
    induction workers with
    | nil => exact fun s => ⟨fun _ => rfl, rfl⟩
    | cons w workers ih =>
      intro s
      obtain ⟨htasks, hissued⟩ := ih (s.write w.conn (.response .terminate))
      exact ⟨fun p => (htasks p).trans (Server.tasksAt_write rfl p), hissued⟩
  obtain ⟨htasks, hissued⟩ := hfold (s.manager.remove ip).1 { s with manager := (s.manager.remove ip).2 }
  exact ⟨fun p => (htasks p).trans (by cases p <;> rfl), hissued⟩

section Serve

variable [LabelCrate]

/-- A task that is turned away does not count. -/
theorem Server.labeledInvoke_moves {uuid : Uuid} {full : Bool} {r : LabeledInvoke}
    (hs : s.labeledInvoke c uuid full r = some s') : s.Moves s' := by
  obtain ⟨⟨-, hfresh, -⟩, hcases⟩ := Server.labeledInvoke_cases hs
  have hqueue : ∀ s' : Server, (∀ p, p ≠ .queued → s'.tasksAt p = s.tasksAt p) →
      s'.tasksAt .queued = s.tasksAt .queued ++ [uuid] → s'.issued = uuid :: s.issued →
      s.Moves s' := by
    intro s' hother hq hissued
    refine ⟨hissued ▸ List.subset_cons_self _ _,
      .inr ⟨uuid, .nowhere, .queued, .accept, ?_, by simp, ?_, fun r _ hr => hother r hr⟩⟩
    · intro _
      exact ⟨hfresh, by rw [hissued]; simp⟩
    · rw [hq]
      exact List.perm_append_singleton _ _
  rcases hcases with ⟨-, rfl⟩ | ⟨-, -, rfl⟩ | ⟨-, -, rfl⟩
  · refine ⟨List.subset_cons_self _ _, .inl fun p => ?_⟩
    exact (Server.tasksAt_write rfl p).trans (by cases p <;> rfl)
  · refine hqueue _ (fun p hp => ?_) (by simp [Server.tasksAt]) rfl
    cases p with
    | queued => exact absurd rfl hp
    | _ => rfl
  · refine hqueue _ (fun p hp => ?_) (by simp [Server.tasksAt]) rfl
    cases p with
    | queued => exact absurd rfl hp
    | _ => rfl

/-- A round of `serve`. -/
theorem Server.serve_moves {uuid : Uuid} {full : Bool} (hs : s.serve c uuid full = some s') :
    s.Moves s' := by
  rcases hthread : s.threads c with _ | u | _
  · rcases hin : s.inbox c with _ | ⟨req, rest⟩
    · simp [Server.serve, hthread, hin] at hs
    · unfold Server.serve at hs
      simp only [hthread, hin] at hs
      have hpop := fun hid : req.taskId = none => Server.tasksAt_pop hin hid
      cases req with
      | ping =>
        cases hs
        exact .none (fun p => (Server.tasksAt_write rfl p).trans (hpop rfl p)) rfl
      | getTask =>
        cases hs
        exact .none (fun p => Eq.trans (by cases p <;> rfl) (hpop rfl p)) rfl
      | finishTask taskId result =>
        cases hs
        exact Server.finishTask_moves hin
      | labeledInvoke r => exact (Server.labeledInvoke_moves hs).after (hpop rfl) rfl
      | updateResource info =>
        cases info with
        | none =>
          cases hs
          exact .none (hpop rfl) rfl
        | some info =>
          cases hs
          exact .none (fun p => Eq.trans (by cases p <;> rfl) (hpop rfl p)) rfl
      | dropResource =>
        cases hs
        obtain ⟨htasks, hissued⟩ := Server.tasksAt_dropResource
          (s := { s with inbox := Function.update s.inbox c rest }) (s.addr c).ip
        refine .none (fun p => Eq.trans ?_ ((htasks p).trans (hpop rfl p))) hissued
        cases p <;> rfl
      | terminateAll =>
        cases hs
        exact .none (hpop rfl) rfl
  · simp [Server.serve, hthread] at hs
  · simp [Server.serve, hthread] at hs

/-- **What a step can do to the tasks.** -/
theorem Server.step_moves {e : Event} (hstep : s.InStep) (hs : s.step e = some s') : s.Moves s' := by
  cases e with
  | serve conn uuid full => exact Server.serve_moves hs
  | register conn => exact Server.register_moves hs
  | recv => exact Server.recv_moves hs
  | find next => exact Server.find_moves hs
  | dispatch succeeds => exact Server.dispatch_moves hs
  | send conn req => exact Server.send_moves hs
  | read conn => exact Server.read_moves hstep hs

end Serve

/-! ### Tasks that have not been given to a worker -/

/-- The task that `schedule` has taken from the queue. -/
def Scheduling.task : Scheduling → Option Task
  | .waiting => none
  | .holding task => some task
  | .dispatching task _ => some task

/-- The tasks that wait for a worker, in the order in which they came. -/
def Server.pending (s : Server) : List Task := s.scheduling.task.toList ++ s.queue

/-- New tasks come behind the others, and a task that is given to a worker is the first. -/
def Server.Advances (s s' : Server) : Prop :=
  (∃ new, s'.pending = s.pending ++ new) ∨
    ∃ task c, s.pending = task :: s'.pending ∧ task.1 ∈ s'.tasksAt (.sent c)

theorem Server.Advances.same (h : s'.pending = s.pending) : s.Advances s' :=
  .inl ⟨[], by rw [h, List.append_nil]⟩

theorem Server.pending_dropResource (ip : ℕ) : (s.dropResource ip).pending = s.pending := by
  have hfold : ∀ (workers : List Worker) (s : Server),
      (workers.foldl (fun s w => s.write w.conn (.response .terminate)) s).pending = s.pending := by
    intro workers
    induction workers with
    | nil => exact fun _ => rfl
    | cons w workers ih => exact fun s => ih (s.write w.conn (.response .terminate))
  exact hfold (s.manager.remove ip).1 { s with manager := (s.manager.remove ip).2 }

section Serve

variable [LabelCrate]

theorem Server.serve_advances {uuid : Uuid} {full : Bool} (hs : s.serve c uuid full = some s') :
    s.Advances s' := by
  rcases hthread : s.threads c with _ | u | _
  · rcases hin : s.inbox c with _ | ⟨req, rest⟩
    · simp [Server.serve, hthread, hin] at hs
    · unfold Server.serve at hs
      simp only [hthread, hin] at hs
      cases req with
      | labeledInvoke r =>
        obtain ⟨-, hcases⟩ := Server.labeledInvoke_cases hs
        rcases hcases with ⟨-, rfl⟩ | ⟨-, -, rfl⟩ | ⟨-, -, rfl⟩
        · exact .same rfl
        · exact .inl ⟨[(uuid, r)], (List.append_assoc ..).symm⟩
        · exact .inl ⟨[(uuid, r)], (List.append_assoc ..).symm⟩
      | finishTask taskId result =>
        cases hs
        refine .same ?_
        unfold Server.finishTask
        dsimp only
        split_ifs
        · rfl
        · split <;> rfl
      | updateResource info =>
        cases info with
        | none =>
          cases hs
          exact .same rfl
        | some info =>
          cases hs
          exact .same rfl
      | dropResource =>
        cases hs
        exact .same (Server.pending_dropResource (s.addr c).ip)
      | ping =>
        cases hs
        exact .same rfl
      | getTask =>
        cases hs
        exact .same rfl
      | terminateAll =>
        cases hs
        exact .same rfl
  · simp [Server.serve, hthread] at hs
  · simp [Server.serve, hthread] at hs

/-- What a step can do to the tasks that wait. -/
theorem Server.step_advances {e : Event} (hs : s.step e = some s') : s.Advances s' := by
  cases e with
  | serve conn uuid full => exact Server.serve_advances hs
  | register conn =>
    change s.register conn = some s' at hs
    unfold Server.register at hs
    split at hs
    · cases hs
      exact .same rfl
    · cases hs
  | recv =>
    change s.recv = some s' at hs
    unfold Server.recv at hs
    split at hs
    · rename_i task queue hwaiting hqueue
      cases hs
      exact .same (by simp [Server.pending, hwaiting, hqueue, Scheduling.task])
    · cases hs
  | find next =>
    change s.find next = some s' at hs
    unfold Server.find at hs
    split at hs
    · rename_i task hholding
      split at hs
      · cases hs
      · split at hs
        · cases hs
          exact .same (by simp [Server.pending, hholding, Scheduling.task])
        · cases hs
          exact .same rfl
        · cases hs
    · cases hs
  | dispatch succeeds =>
    change s.dispatch succeeds = some s' at hs
    unfold Server.dispatch at hs
    split at hs
    · rename_i task worker hdispatching
      split at hs
      · cases hs
        refine .inr ⟨task, worker.conn, ?_, ?_⟩
        · simp [Server.pending, Server.write, hdispatching, Scheduling.task]
        · simp [Server.tasksAt, Server.write, Frame.taskId]
      · cases hs
        exact .same (by simp [Server.pending, hdispatching, Scheduling.task])
    · cases hs
  | send conn req =>
    obtain ⟨-, tasks, rfl, -⟩ := Server.send_cases hs
    exact .same rfl
  | read conn =>
    obtain ⟨frame, rest, tasks, -, rfl, -⟩ := Server.read_cases hs
    exact .same rfl

end Serve

/-! ### Runs -/

/-- Every task is at its place, once, and nowhere else; one that is at some place was issued. -/
structure Located (s : Server) (place : Uuid → Place) : Prop where
  count : ∀ p u, (s.tasksAt p).count u = if place u = p ∧ p ≠ .nowhere then 1 else 0
  issued : ∀ u, place u ≠ .nowhere → u ∈ s.issued

variable {place : Uuid → Place} {p q : Place}

theorem Located.place_eq (h : Located s place) (hu : u ∈ s.tasksAt p) :
    place u = p ∧ p ≠ .nowhere := by
  have hpos := List.count_pos_iff.2 hu
  rw [h.count] at hpos
  by_contra hne
  rw [if_neg hne] at hpos
  omega

/-- One task goes to its next place, or none does. -/
theorem Located.step (h : Located s place) (hmoves : s.Moves s') :
    ∃ place', Located s' place' ∧ ∀ u, place' u = place u ∨ (place u).Next (place' u) := by
  obtain ⟨hissued, hsame | ⟨u, p, q, hnext, hfresh, hleaves, harrives, hothers⟩⟩ := hmoves
  · refine ⟨place, ⟨fun p u => ?_, fun u hu => hissued (h.issued u hu)⟩, fun _ => .inl rfl⟩
    rw [hsame]
    exact h.count p u
  · have hplace : place u = p := by
      by_cases hp : p = .nowhere
      · by_contra hne
        exact (hfresh hp).1 (h.issued u (hp ▸ hne))
      · exact (h.place_eq ((hleaves hp).symm.subset (List.mem_cons_self ..))).1
    refine ⟨Function.update place u q, ⟨fun r v => ?_, fun v hv => ?_⟩, fun v => ?_⟩
    · by_cases hrq : r = q
      · -- the place that it comes to
        subst hrq
        rw [harrives.count_eq, List.count_cons, h.count]
        by_cases hv : v = u
        · subst hv
          simp [hplace, hnext.ne, hnext.ne_nowhere]
        · simp [Function.update_of_ne hv, Ne.symm hv]
      · by_cases hrp : r = p
        · -- the place that it leaves
          subst hrp
          by_cases hp : r = .nowhere
          · subst hp
            simp [Server.tasksAt]
          · have hcount := (hleaves hp).count_eq v
            rw [h.count, List.count_cons] at hcount
            by_cases hv : v = u
            · subst hv
              simp only [hplace, hp, beq_self_eq_true, if_true, ne_eq, not_false_eq_true, and_self]
                at hcount
              rw [Function.update_self, if_neg (fun hq => hrq hq.1.symm)]
              omega
            · rw [Function.update_of_ne hv]
              simpa [Ne.symm hv] using hcount.symm
        · rw [hothers r hrp hrq, h.count]
          by_cases hv : v = u
          · subst hv
            rw [Function.update_self, if_neg (fun hr => hrp (hr.1.symm.trans hplace)),
              if_neg (fun hr => hrq hr.1.symm)]
          · rw [Function.update_of_ne hv]
    · by_cases hvu : v = u
      · subst hvu
        by_cases hp : p = .nowhere
        · exact (hfresh hp).2
        · exact hissued (h.issued v (hplace ▸ hp))
      · rw [Function.update_of_ne hvu] at hv
        exact hissued (h.issued v hv)
    · by_cases hv : v = u
      · subst hv
        rw [Function.update_self, hplace]
        exact .inr hnext
      · exact .inl (Function.update_of_ne hv ..)

/-- `q` comes after `p`, or is `p`. -/
def Place.Leads : Place → Place → Prop := Relation.ReflTransGen Place.Next

theorem Place.Leads.ne_nowhere (h : p.Leads q) (hp : p ≠ .nowhere) : q ≠ .nowhere := by
  induction h with
  | refl => exact hp
  | tail _ hnext _ => exact hnext.ne_nowhere

/-- What has become of the tasks of `s` in `s'`: they have gone forward, and those that waited first have
been given to a worker. -/
structure Progress (s s' : Server) (place place' : Uuid → Place) : Prop where
  located : Located s' place'
  leads : ∀ u, (place u).Leads (place' u)
  order : ∃ k new, s'.pending = s.pending.drop k ++ new ∧
    ∀ task ∈ s.pending.take k, ∃ c, (Place.sent c).Leads (place' task.1)

theorem Progress.start (h : Located s place) : Progress s s place place :=
  ⟨h, fun _ => .refl, 0, [], by simp, by simp⟩

/-- One step more. -/
theorem Progress.step {s'' : Server} {place' : Uuid → Place} (h : Progress s s' place place')
    (hmoves : s'.Moves s'') (hadvances : s'.Advances s'') :
    ∃ place'', Progress s s'' place place'' := by
  obtain ⟨place'', hlocated, hnext⟩ := h.located.step hmoves
  have hleads : ∀ u, (place' u).Leads (place'' u) := by
    intro u
    rcases hnext u with heq | hnext
    · rw [heq]
      exact .refl
    · exact .single hnext
  obtain ⟨k, new, hpending, hgiven⟩ := h.order
  refine ⟨place'', hlocated, fun u => (h.leads u).trans (hleads u), ?_⟩
  have hstill : ∀ task ∈ s.pending.take k, ∃ c, (Place.sent c).Leads (place'' task.1) := by
    intro task htask
    obtain ⟨c, hc⟩ := hgiven task htask
    exact ⟨c, hc.trans (hleads task.1)⟩
  rcases hadvances with ⟨more, hmore⟩ | ⟨task, c, hfirst, hsent⟩
  · exact ⟨k, new ++ more, by rw [hmore, hpending, List.append_assoc], hstill⟩
  · rw [hpending] at hfirst
    rcases hdrop : s.pending.drop k with _ | ⟨first, rest⟩
    · -- the task came after `s`
      rw [hdrop, List.nil_append] at hfirst
      exact ⟨k, s''.pending, by rw [hdrop, List.nil_append], hstill⟩
    · rw [hdrop, List.cons_append, List.cons.injEq] at hfirst
      obtain ⟨rfl, hrest⟩ := hfirst
      have hget : s.pending[k]? = some first := by
        rw [← List.head?_drop, hdrop]
        rfl
      refine ⟨k + 1, new, ?_, fun task htask => ?_⟩
      · rw [← hrest, ← List.drop_drop, hdrop]
        rfl
      · rw [List.take_add_one, hget, List.mem_append] at htask
        rcases htask with htask | htask
        · exact hstill task htask
        · obtain rfl : task = first := by simpa using htask
          refine ⟨c, ?_⟩
          rw [(hlocated.place_eq hsent).1]
          exact .refl

theorem located_start (addr : Conn → SocketAddr) (capacity : ℕ) :
    Located { addr, capacity } fun _ => .nowhere := by
  refine ⟨fun p u => ?_, fun u hu => absurd rfl hu⟩
  have hnil : Server.tasksAt { addr, capacity } p = [] := by cases p <;> rfl
  rw [hnil, if_neg (fun h => h.2 h.1.symm)]
  rfl

section Run

variable [LabelCrate] {addr : Conn → SocketAddr} {capacity : ℕ}

/-- One run after another. -/
theorem Server.Run.trans {ok : Server → Event → Prop} {s₀ : Server} (h : Server.Run ok s₀ s)
    (h' : Server.Run ok s s') : Server.Run ok s₀ s' := by
  induction h' with
  | start => exact h
  | step _ e hok hs ih => exact .step ih e hok hs

/-- What a run makes of the tasks. -/
theorem Server.Run.progress (hrun : Server.Run Server.QueuesAsync { addr, capacity } s)
    (h : Located s place) (hlater : Server.Run Server.QueuesAsync s s') :
    ∃ place', Progress s s' place place' := by
  induction hlater with
  | start => exact ⟨place, .start h⟩
  | step hbefore e hok hs ih =>
    obtain ⟨place', hprogress⟩ := ih
    have hstep := (hrun.trans hbefore).inStep
    exact hprogress.step (Server.step_moves hstep hs) (Server.step_advances hs)

theorem Server.Run.located (hrun : Server.Run Server.QueuesAsync { addr, capacity } s) :
    ∃ place, Located s place := by
  obtain ⟨place, hprogress⟩ := Server.Run.progress .start (located_start addr capacity) hrun
  exact ⟨place, hprogress.located⟩

/-- **No task is lost and none is given out twice**, as long as no asynchronous invocation finds the queue
full: a task that is somewhere is in exactly one place ever after, once, and goes through its places
without a way back; so the worker that it is given to is the only one. -/
theorem Server.Run.task_kept (hrun : Server.Run Server.QueuesAsync { addr, capacity } s)
    (hlater : Server.Run Server.QueuesAsync s s') (hu : u ∈ s.tasksAt p) :
    ∃ q, p.Leads q ∧ ∀ r, (s'.tasksAt r).count u = if r = q then 1 else 0 := by
  obtain ⟨place, hlocated⟩ := hrun.located
  obtain ⟨hplace, hp⟩ := hlocated.place_eq hu
  obtain ⟨place', hprogress⟩ := hrun.progress hlocated hlater
  have hleads := hprogress.leads u
  rw [hplace] at hleads
  refine ⟨place' u, hleads, fun r => ?_⟩
  rw [hprogress.located.count]
  by_cases hr : r = place' u
  · rw [if_pos hr, if_pos ⟨hr.symm, hr ▸ hleads.ne_nowhere hp⟩]
  · rw [if_neg hr, if_neg fun h => hr h.1.symm]

/-- **First come, first served**, under the same condition: of the tasks that wait for a worker, in the queue
or with `schedule`, some are given to workers, and these are the ones that came first; the others stay in
their order, before those that come later. -/
theorem Server.Run.served_in_order (hrun : Server.Run Server.QueuesAsync { addr, capacity } s)
    (hlater : Server.Run Server.QueuesAsync s s') :
    ∃ k new, s'.pending = s.pending.drop k ++ new ∧
      ∀ task ∈ s.pending.take k, ∃ c q, (Place.sent c).Leads q ∧
        ∀ r, (s'.tasksAt r).count task.1 = if r = q then 1 else 0 := by
  obtain ⟨place, hlocated⟩ := hrun.located
  obtain ⟨place', hprogress⟩ := hrun.progress hlocated hlater
  obtain ⟨k, new, hpending, hgiven⟩ := hprogress.order
  refine ⟨k, new, hpending, fun task htask => ?_⟩
  obtain ⟨c, hc⟩ := hgiven task htask
  refine ⟨c, place' task.1, hc, fun r => ?_⟩
  rw [hprogress.located.count]
  by_cases hr : r = place' task.1
  · rw [if_pos hr, if_pos ⟨hr.symm, hr ▸ hc.ne_nowhere (by simp)⟩]
  · rw [if_neg hr, if_neg fun h => hr h.1.symm]

end Run

end Faasten.Sched

namespace Faasten.Sched.Delivered

open scoped Dc
open Unsolicited

/-- A scheduler whose queue has room for two tasks. -/
def room : Server where
  addr c := ⟨c, 1024⟩
  capacity := 2

/-- Gateway 3 invokes a function twice without waiting for it. -/
def submission : List Event :=
  [.send 3 (.labeledInvoke (invocation false)), .send 3 (.labeledInvoke (invocation false)),
    .serve 3 1 false, .serve 3 2 false]

/-- Worker 7 asks for a task, and is given one. -/
def delivery : List Event :=
  [.send 7 .getTask, .serve 7 0 false, .recv, .find (some ⟨7⟩), .dispatch true]

/-- Both tasks are in the queue. -/
def submitted : Server := (submission.foldlM Server.step room).get rfl

/-- The first one is on its way to the worker. -/
def delivered : Server := (delivery.foldlM Server.step submitted).get rfl

theorem run_submitted : Server.Run Server.QueuesAsync room submitted := by
  have hevents : submission.foldlM Server.step room = some submitted := (Option.some_get _).symm
  exact .of_events (by simp [submission, Server.QueuesAsync]) hevents

theorem run_delivered : Server.Run Server.QueuesAsync submitted delivered := by
  have hevents : delivery.foldlM Server.step submitted = some delivered := (Option.some_get _).symm
  exact .of_events (by simp [delivery, Server.QueuesAsync]) hevents

/-- The second task is still somewhere, once. -/
theorem second_kept :
    ∃ q, Place.queued.Leads q ∧ ∀ r, (delivered.tasksAt r).count 2 = if r = q then 1 else 0 :=
  run_submitted.task_kept run_delivered (by decide)

/-- It is the first one that has been given to the worker. -/
theorem first_served :
    ∃ k new, delivered.pending = submitted.pending.drop k ++ new ∧
      ∀ task ∈ submitted.pending.take k, ∃ c q, (Place.sent c).Leads q ∧
        ∀ r, (delivered.tasksAt r).count task.1 = if r = q then 1 else 0 :=
  run_submitted.served_in_order run_delivered

end Faasten.Sched.Delivered
