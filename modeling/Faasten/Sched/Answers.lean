import Mathlib
import Faasten.DcLabels
import Faasten.Sched.Framing

/-!
# Synchronous invocations are answered once

A task that was accepted is in one place at a time: in the queue, with `schedule`, on its way to a
worker, with the worker, or on its way back in a `FinishTask`. So its `FinishTask` is processed at
most once. The peer that waits for it is in `wait_list`, unless its thread has not come to register
it yet: a `FinishTask` that is processed before finds nobody to answer. `Server.Run.answered_once`
is about the runs where this does not happen.
-/

namespace Faasten.Sched

/-- No `FinishTask` is processed for a task whose submitter is still to be registered. -/
def Server.RegistersFirst (s : Server) : Event → Prop
  | .serve conn _ _ => ∀ taskId result rest, s.inbox conn = .finishTask taskId result :: rest →
      ∀ c, s.threads c ≠ .registering taskId
  | _ => True

/-! ### The place of a task -/

/-- Where a task can be. -/
inductive Place
  | nowhere
  | queued
  | held
  | sent (conn : Conn)
  | running (conn : Conn)
  | finishing (conn : Conn)
  | finished
  deriving DecidableEq

/-- The tasks at a place. -/
def Server.tasksAt (s : Server) : Place → List Uuid
  | .nowhere => []
  | .queued => s.queue.map Prod.fst
  | .held => s.scheduling.taskId.toList
  | .sent conn => (s.outbox conn).filterMap Frame.taskId
  | .running conn => (s.peers conn).tasks
  | .finishing conn => (s.inbox conn).filterMap Request.taskId
  | .finished => s.finished.map Prod.fst

/-- Every task is at its place, once, and has a uuid that was issued. -/
structure Tracked (s : Server) (place : Uuid → Place) : Prop where
  nodup : ∀ p, (s.tasksAt p).Nodup
  at_place : ∀ p, ∀ u ∈ s.tasksAt p, place u = p
  issued : ∀ u, place u ≠ .nowhere → u ∈ s.issued
  nonzero : ∀ u ∈ s.issued, u ≠ 0

variable {s s' : Server} {place : Uuid → Place} {u : Uuid} {c : Conn}

/-- A step that moves no task, but may lose some. -/
theorem Tracked.less (h : Tracked s place) (htasks : ∀ p, (s'.tasksAt p).Sublist (s.tasksAt p))
    (hissued : s.issued ⊆ s'.issued) (hnonzero : ∀ u ∈ s'.issued, u ≠ 0) : Tracked s' place where
  nodup p := (htasks p).nodup (h.nodup p)
  at_place p u hu := h.at_place p u ((htasks p).subset hu)
  issued u hu := hissued (h.issued u hu)
  nonzero := hnonzero

/-- A step that moves no task. -/
theorem Tracked.same (h : Tracked s place) (htasks : ∀ p, s'.tasksAt p = s.tasksAt p)
    (hissued : s.issued ⊆ s'.issued) (hnonzero : ∀ u ∈ s'.issued, u ≠ 0) : Tracked s' place :=
  h.less (fun p => htasks p ▸ List.Sublist.refl _) hissued hnonzero

/-- A step that moves one task. -/
theorem Tracked.move (h : Tracked s place) {p q : Place} (hp : place u = p) (hpq : p ≠ q)
    (hfrom : (s'.tasksAt p).Sublist (s.tasksAt p) ∧ u ∉ s'.tasksAt p)
    (hto : (s'.tasksAt q).Perm (u :: s.tasksAt q))
    (hother : ∀ r, r ≠ p → r ≠ q → s'.tasksAt r = s.tasksAt r) (hissued : s.issued ⊆ s'.issued)
    (hu : u ∈ s'.issued) (hnonzero : ∀ u ∈ s'.issued, u ≠ 0) :
    Tracked s' (Function.update place u q) := by
  have hnot : ∀ r, r ≠ p → u ∉ s.tasksAt r := fun r hr hmem =>
    hr ((h.at_place r u hmem).symm.trans hp)
  refine ⟨fun r => ?_, fun r v hv => ?_, fun v hv => ?_, hnonzero⟩
  · by_cases hrq : r = q
    · subst hrq
      exact hto.nodup_iff.2 (List.nodup_cons.2 ⟨hnot r hpq.symm, h.nodup r⟩)
    · by_cases hrp : r = p
      · subst hrp
        exact hfrom.1.nodup (h.nodup r)
      · exact hother r hrp hrq ▸ h.nodup r
  · by_cases hvu : v = u
    · subst hvu
      rw [Function.update_self]
      by_contra hrq
      by_cases hrp : r = p
      · subst hrp
        exact hfrom.2 hv
      · exact hnot r hrp (hother r hrp (Ne.symm hrq) ▸ hv)
    · rw [Function.update_of_ne hvu]
      by_cases hrq : r = q
      · subst hrq
        exact h.at_place r v ((List.mem_cons.1 (hto.subset hv)).resolve_left hvu)
      · by_cases hrp : r = p
        · subst hrp
          exact h.at_place r v (hfrom.1.subset hv)
        · exact h.at_place r v (hother r hrp hrq ▸ hv)
  · by_cases hvu : v = u
    · rw [hvu]
      exact hu
    · rw [Function.update_of_ne hvu] at hv
      exact hissued (h.issued v hv)

/-! ### The peers that wait -/

/-- Every accepted invocation that is not finished has its submitter registered, or about to be; and
every one that is finished was answered once. -/
structure Waiters (s : Server) (place : Uuid → Place) : Prop where
  unique : (s.accepted.map Prod.fst).Nodup
  accepted_issued : ∀ u c, (u, c) ∈ s.accepted → u ∈ s.issued
  registered : ∀ u c, s.manager.waitList u = some c → (u, c) ∈ s.accepted
  registering : ∀ u c, s.threads c = .registering u → (u, c) ∈ s.accepted
  answers_finished : ∀ a ∈ s.answers, place a.1 = .finished
  pending : ∀ u c, (u, c) ∈ s.accepted → place u ≠ .finished →
    s.manager.waitList u = some c ∨ s.threads c = .registering u
  answered : ∀ u c, (u, c) ∈ s.accepted → place u = .finished →
    s.manager.waitList u = none ∧ (∀ c', s.threads c' ≠ .registering u) ∧
      ∃ r, (u, r) ∈ s.finished ∧ s.answers.filter (·.1 = u) = [(u, c, r)]

/-- A step that does not concern the peers that wait. -/
theorem Waiters.same (h : Waiters s place) {place' : Uuid → Place}
    (hplace : ∀ u, place' u = .finished ↔ place u = .finished) (haccepted : s'.accepted = s.accepted)
    (hissued : s.issued ⊆ s'.issued) (hwait : s'.manager.waitList = s.manager.waitList)
    (hthreads : ∀ c u, s'.threads c = .registering u ↔ s.threads c = .registering u)
    (hfinished : s'.finished = s.finished) (hanswers : s'.answers = s.answers) :
    Waiters s' place' where
  unique := haccepted ▸ h.unique
  accepted_issued u c hu := hissued (h.accepted_issued u c (haccepted ▸ hu))
  registered u c hu := haccepted ▸ h.registered u c (hwait ▸ hu)
  registering u c hu := haccepted ▸ h.registering u c ((hthreads c u).1 hu)
  answers_finished a ha := (hplace _).2 (h.answers_finished a (hanswers ▸ ha))
  pending u c hu hp := by
    rw [hwait, hthreads]
    exact h.pending u c (haccepted ▸ hu) fun hf => hp ((hplace u).2 hf)
  answered u c hu hp := by
    obtain ⟨hnone, hthread, r, hr, hfilter⟩ :=
      h.answered u c (haccepted ▸ hu) ((hplace u).1 hp)
    refine ⟨hwait ▸ hnone, fun c' hc' => hthread c' ((hthreads c' u).1 hc'), r, ?_, ?_⟩
    · rw [hfinished]
      exact hr
    · rw [hanswers]
      exact hfilter

/-- A task that moves between places before it is finished. -/
theorem update_finished_iff {q : Place} (hold : place u ≠ .finished) (hq : q ≠ .finished) (v : Uuid) :
    Function.update place u q v = .finished ↔ place v = .finished := by
  by_cases hv : v = u
  · subst hv
    simp [hold, hq]
  · rw [Function.update_of_ne hv]

/-- Both invariants. -/
def Accounted (s : Server) : Prop := ∃ place, Tracked s place ∧ Waiters s place

/-! ### The steps of the peers -/

theorem Accounted.send (h : Accounted s) {req : Request} (hs : s.send c req = some s') :
    Accounted s' := by
  obtain ⟨place, htracked, hwaiters⟩ := h
  obtain ⟨-, tasks, rfl, ⟨hid, rfl⟩ | ⟨taskId, hid, hmem, rfl⟩⟩ := Server.send_cases hs
  · refine ⟨place, htracked.same (fun p => ?_) (List.Subset.refl _) htracked.nonzero,
      hwaiters.same (fun _ => Iff.rfl) rfl (List.Subset.refl _) rfl (fun _ _ => Iff.rfl) rfl rfl⟩
    cases p with
    | running c' => by_cases hc : c' = c <;> simp [Server.tasksAt, hc]
    | finishing c' => by_cases hc : c' = c <;> simp [Server.tasksAt, hc, hid]
    | _ => rfl
  · -- The task goes back with the request.
    have hplace := htracked.at_place (.running c) taskId hmem
    refine ⟨_, htracked.move hplace (q := .finishing c) (by simp) ?_ ?_ (fun r hr hr' => ?_)
      (List.Subset.refl _) (htracked.issued taskId (by rw [hplace]; simp)) htracked.nonzero,
      hwaiters.same (update_finished_iff (by rw [hplace]; simp) (by simp)) rfl
        (List.Subset.refl _) rfl (fun _ _ => Iff.rfl) rfl rfl⟩
    · simp only [Server.tasksAt, Function.update_self]
      exact ⟨List.erase_sublist, (htracked.nodup (.running c)).not_mem_erase⟩
    · simp [Server.tasksAt, hid, List.perm_append_singleton]
    · cases r with
      | running c' => simp [Server.tasksAt, show c' ≠ c from fun hc => hr (hc ▸ rfl)]
      | finishing c' => simp [Server.tasksAt, show c' ≠ c from fun hc => hr' (hc ▸ rfl)]
      | _ => rfl

theorem Accounted.read (h : Accounted s) (hs : s.read c = some s') : Accounted s' := by
  obtain ⟨place, htracked, hwaiters⟩ := h
  obtain ⟨frame, rest, tasks, hout, rfl, htasks⟩ := Server.read_cases hs
  have hrest : ((rest.filterMap Frame.taskId).Sublist (s.tasksAt (.sent c))) := by
    simp only [Server.tasksAt, hout]
    exact (List.sublist_cons_self frame rest).filterMap _
  rcases htasks with rfl | ⟨taskId, hid, rfl⟩
  · -- Nothing is learnt; a task in the frame is lost.
    refine ⟨place, htracked.less (fun p => ?_) (List.Subset.refl _) htracked.nonzero,
      hwaiters.same (fun _ => Iff.rfl) rfl (List.Subset.refl _) rfl (fun _ _ => Iff.rfl) rfl rfl⟩
    cases p with
    | sent c' =>
      by_cases hc : c' = c
      · subst hc
        simpa [Server.tasksAt] using hrest
      · simp [Server.tasksAt, hc]
    | running c' => by_cases hc : c' = c <;> simp [Server.tasksAt, hc]
    | _ => exact List.Sublist.refl _
  · have hmem : taskId ∈ s.tasksAt (.sent c) := by simp [Server.tasksAt, hout, hid]
    have hplace := htracked.at_place (.sent c) taskId hmem
    refine ⟨_, htracked.move hplace (q := .running c) (by simp) ?_ ?_ (fun r hr hr' => ?_)
      (List.Subset.refl _) (htracked.issued taskId (by rw [hplace]; simp)) htracked.nonzero,
      hwaiters.same (update_finished_iff (by rw [hplace]; simp) (by simp)) rfl
        (List.Subset.refl _) rfl (fun _ _ => Iff.rfl) rfl rfl⟩
    · have hnodup := htracked.nodup (.sent c)
      simp only [Server.tasksAt, hout, List.filterMap_cons, hid] at hnodup
      simp only [Server.tasksAt, Function.update_self]
      exact ⟨hrest, (List.nodup_cons.1 hnodup).1⟩
    · simp [Server.tasksAt]
    · cases r with
      | sent c' => simp [Server.tasksAt, show c' ≠ c from fun hc => hr (hc ▸ rfl)]
      | running c' => simp [Server.tasksAt, show c' ≠ c from fun hc => hr' (hc ▸ rfl)]
      | _ => rfl

/-! ### The steps of `schedule` -/

theorem Accounted.recv (h : Accounted s) (hs : s.recv = some s') : Accounted s' := by
  obtain ⟨place, htracked, hwaiters⟩ := h
  unfold Server.recv at hs
  split at hs
  · rename_i task queue hwaiting hqueue
    cases hs
    have hplace := htracked.at_place .queued task.1 (by simp [Server.tasksAt, hqueue])
    refine ⟨_, htracked.move hplace (q := .held) (by simp) ?_ ?_ (fun r hr hr' => ?_)
      (List.Subset.refl _) (htracked.issued task.1 (by rw [hplace]; simp)) htracked.nonzero,
      hwaiters.same (update_finished_iff (by rw [hplace]; simp) (by simp)) rfl
        (List.Subset.refl _) rfl (fun _ _ => Iff.rfl) rfl rfl⟩
    · have hnodup := htracked.nodup .queued
      simp only [Server.tasksAt, hqueue, List.map_cons] at hnodup ⊢
      exact ⟨List.sublist_cons_self _ _, (List.nodup_cons.1 hnodup).1⟩
    · simp [Server.tasksAt, hwaiting, Scheduling.taskId]
    · cases r with
      | queued => exact absurd rfl hr
      | held => exact absurd rfl hr'
      | _ => rfl
  · cases hs

theorem Accounted.find (h : Accounted s) {next : Option Node} (hs : s.find next = some s') :
    Accounted s' := by
  obtain ⟨place, htracked, hwaiters⟩ := h
  have hsame : s'.scheduling.taskId = s.scheduling.taskId ∧ ∃ manager scheduling,
      s' = { s with manager, scheduling } ∧ manager.waitList = s.manager.waitList := by
    unfold Server.find at hs
    split at hs
    · rename_i task hholding
      split at hs
      · cases hs
      · split at hs
        · rename_i hfind
          cases hs
          exact ⟨by simp [hholding, Scheduling.taskId], _, _, rfl, findIdle_waitList hfind⟩
        · rename_i hfind
          cases hs
          exact ⟨rfl, _, _, rfl, findIdle_waitList hfind⟩
        · cases hs
    · cases hs
  obtain ⟨htask, manager, scheduling, rfl, hwait⟩ := hsame
  refine ⟨place, htracked.same (fun p => ?_) (List.Subset.refl _) htracked.nonzero,
    hwaiters.same (fun _ => Iff.rfl) rfl (List.Subset.refl _) hwait (fun _ _ => Iff.rfl) rfl rfl⟩
  cases p with
  | held => simp only [Server.tasksAt, htask]
  | _ => rfl

theorem Accounted.dispatch (h : Accounted s) {succeeds : Bool}
    (hs : s.dispatch succeeds = some s') : Accounted s' := by
  obtain ⟨place, htracked, hwaiters⟩ := h
  unfold Server.dispatch at hs
  split at hs
  · rename_i task worker hdispatching
    split at hs
    · cases hs
      have hplace := htracked.at_place .held task.1 (by
        simp [Server.tasksAt, hdispatching, Scheduling.taskId])
      refine ⟨_, htracked.move hplace (q := .sent worker.conn) (by simp) ?_ ?_ (fun r hr hr' => ?_)
        (List.Subset.refl _) (htracked.issued task.1 (by rw [hplace]; simp)) htracked.nonzero,
        hwaiters.same (update_finished_iff (by rw [hplace]; simp) (by simp)) rfl
          (List.Subset.refl _) rfl (fun _ _ => Iff.rfl) rfl rfl⟩
      · simp [Server.tasksAt, Server.write, Scheduling.taskId]
      · simp [Server.tasksAt, Server.write, Frame.taskId, List.perm_append_singleton]
      · cases r with
        | held => exact absurd rfl hr
        | sent c' =>
          simp [Server.tasksAt, Server.write, show c' ≠ worker.conn from fun hc => hr' (hc ▸ rfl)]
        | _ => rfl
    · cases hs
      refine ⟨place, htracked.same (fun p => ?_) (List.Subset.refl _) htracked.nonzero,
        hwaiters.same (fun _ => Iff.rfl) rfl (List.Subset.refl _) rfl (fun _ _ => Iff.rfl) rfl rfl⟩
      cases p with
      | held => simp [Server.tasksAt, hdispatching, Scheduling.taskId]
      | _ => rfl
  · cases hs

/-! ### The steps of `serve` -/

theorem Accounted.register (h : Accounted s) (hs : s.register c = some s') : Accounted s' := by
  obtain ⟨place, htracked, hwaiters⟩ := h
  unfold Server.register at hs
  split at hs
  · rename_i uuid hthread
    cases hs
    have hmem := hwaiters.registering uuid c hthread
    -- The entry of another task is untouched, and so is the thread of another connection.
    refine ⟨place, htracked.same (fun p => by cases p <;> rfl) (List.Subset.refl _)
      htracked.nonzero, hwaiters.unique, hwaiters.accepted_issued, fun u c' hu => ?_,
      fun u c' hu => ?_, hwaiters.answers_finished, fun u c' hu hp => ?_, fun u c' hu hp => ?_⟩
    · by_cases hne : u = uuid
      · subst hne
        rw [← show c = c' by simpa using hu]
        exact hmem
      · exact hwaiters.registered u c' (by simpa [hne] using hu)
    · by_cases hc : c' = c
      · subst hc
        simp at hu
      · exact hwaiters.registering u c' (by simpa [hc] using hu)
    · by_cases hne : u = uuid
      · subst hne
        left
        have : c' = c := by
          have hnodup := hwaiters.unique
          exact (congrArg Prod.snd (List.inj_on_of_nodup_map hnodup hu hmem rfl))
        simp [this]
      · rcases hwaiters.pending u c' hu hp with hw | ht
        · exact .inl (by simpa [hne] using hw)
        · by_cases hc : c' = c
          · subst hc
            rw [hthread] at ht
            cases ht
            exact absurd rfl hne
          · exact .inr (by simpa [hc] using ht)
    · obtain ⟨hnone, hno, r, hr, hfilter⟩ := hwaiters.answered u c' hu hp
      have hne : u ≠ uuid := by
        rintro rfl
        exact hno c hthread
      refine ⟨by simpa [hne] using hnone, fun c'' => ?_, r, hr, hfilter⟩
      by_cases hc : c'' = c
      · subst hc
        simp
      · simpa [hc] using hno c''
  · cases hs

/-- A request without a task, taken from the inbox. -/
theorem Tracked.pop (h : Tracked s place) {req : Request} {rest : List Request}
    (hin : s.inbox c = req :: rest) :
    Tracked { s with inbox := Function.update s.inbox c rest } place := by
  refine h.less (fun p => ?_) (List.Subset.refl _) h.nonzero
  cases p with
  | finishing c' =>
    by_cases hc : c' = c
    · subst hc
      simp only [Server.tasksAt, Function.update_self, hin]
      exact (List.sublist_cons_self req rest).filterMap _
    · simp [Server.tasksAt, hc]
  | _ => exact List.Sublist.refl _

theorem Accounted.pop (h : Accounted s) {req : Request} {rest : List Request}
    (hin : s.inbox c = req :: rest) :
    Accounted { s with inbox := Function.update s.inbox c rest } := by
  obtain ⟨place, htracked, hwaiters⟩ := h
  exact ⟨place, htracked.pop hin, hwaiters.same (fun _ => Iff.rfl) rfl (List.Subset.refl _) rfl
    (fun _ _ => Iff.rfl) rfl rfl⟩

/-- A frame without a task. -/
theorem Tracked.write (h : Tracked s place) {frame : Frame} (hid : frame.taskId = none) (c : Conn) :
    Tracked (s.write c frame) place := by
  refine h.same (fun p => ?_) (List.Subset.refl _) h.nonzero
  cases p with
  | sent c' => by_cases hc : c' = c <;> simp [Server.tasksAt, Server.write, hc, hid]
  | _ => rfl

theorem Accounted.write (h : Accounted s) {frame : Frame} (hid : frame.taskId = none) (c : Conn) :
    Accounted (s.write c frame) := by
  obtain ⟨place, htracked, hwaiters⟩ := h
  exact ⟨place, htracked.write hid c, hwaiters.same (fun _ => Iff.rfl) rfl (List.Subset.refl _) rfl
    (fun _ _ => Iff.rfl) rfl rfl⟩

/-- Only the list of waiting peers matters of the manager. -/
theorem Accounted.manager (h : Accounted s) {manager : ResourceManager}
    (hwait : manager.waitList = s.manager.waitList) : Accounted { s with manager } := by
  obtain ⟨place, htracked, hwaiters⟩ := h
  exact ⟨place, htracked.same (fun p => by cases p <;> rfl) (List.Subset.refl _) htracked.nonzero,
    hwaiters.same (fun _ => Iff.rfl) rfl (List.Subset.refl _) hwait (fun _ _ => Iff.rfl) rfl rfl⟩

theorem Accounted.dropResource (h : Accounted s) (ip : ℕ) : Accounted (s.dropResource ip) := by
  have hfold : ∀ (workers : List Worker) (s : Server), Accounted s →
      Accounted (workers.foldl (fun s w => s.write w.conn (.response .terminate)) s) := by
    intro workers
    induction workers with
    | nil => exact fun _ h => h
    | cons w workers ih => exact fun s h => ih _ (h.write rfl w.conn)
  exact hfold _ _ (h.manager rfl)

/-- The task of a `FinishTask` is finished, whatever becomes of its result. -/
theorem Tracked.finish (h : Tracked s place) {taskId : Uuid} {result : TaskReturn}
    {rest : List Request} (hin : s.inbox c = .finishTask taskId result :: rest) :
    Tracked { s with inbox := Function.update s.inbox c rest,
                     finished := s.finished ++ [(taskId, result)] }
      (Function.update place taskId .finished) := by
  have hmem : taskId ∈ s.tasksAt (.finishing c) := by simp [Server.tasksAt, hin, Request.taskId]
  have hplace := h.at_place _ taskId hmem
  refine h.move hplace (by simp) ?_ ?_ (fun r hr hr' => ?_) (List.Subset.refl _)
    (h.issued taskId (by rw [hplace]; simp)) h.nonzero
  · have hnodup := h.nodup (.finishing c)
    simp only [Server.tasksAt, hin, List.filterMap_cons, Request.taskId] at hnodup
    simp only [Server.tasksAt, Function.update_self, hin, List.filterMap_cons, Request.taskId]
    exact ⟨List.sublist_cons_self _ _, (List.nodup_cons.1 hnodup).1⟩
  · simp [Server.tasksAt, List.perm_append_singleton]
  · cases r with
    | finishing c' => simp [Server.tasksAt, show c' ≠ c from fun hc => hr (hc ▸ rfl)]
    | finished => exact absurd rfl hr'
    | _ => rfl

/-- **A `FinishTask` is answered**, if the submitter of its task is registered. -/
theorem Accounted.finish (h : Accounted s) {taskId : Uuid} {result : TaskReturn}
    {rest : List Request} (hin : s.inbox c = .finishTask taskId result :: rest)
    (hok : ∀ c', s.threads c' ≠ .registering taskId) :
    Accounted (Server.finishTask { s with inbox := Function.update s.inbox c rest }
      taskId result) := by
  obtain ⟨place, htracked, hwaiters⟩ := h
  have hfinish := htracked.finish hin
  have hplace : place taskId = .finishing c :=
    htracked.at_place _ taskId (by simp [Server.tasksAt, hin, Request.taskId])
  have hnonzero : taskId ≠ 0 :=
    htracked.nonzero _ (htracked.issued taskId (by rw [hplace]; simp))
  have hunanswered : ∀ a ∈ s.answers, a.1 ≠ taskId := by
    intro a ha heq
    have := hwaiters.answers_finished a ha
    rw [heq, hplace] at this
    cases this
  have hfilter : s.answers.filter (·.1 = taskId) = [] :=
    List.filter_eq_nil_iff.2 fun a ha => by simpa using hunanswered a ha
  have hother : ∀ u, u ≠ taskId → Function.update place taskId .finished u = place u :=
    fun u hu => Function.update_of_ne hu _ _
  unfold Server.finishTask
  dsimp only
  rw [if_neg hnonzero]
  rcases hwait : s.manager.waitList taskId with _ | conn
  · -- The task was not to be waited for.
    have hnot : ∀ c', (taskId, c') ∉ s.accepted := by
      intro c' hmem
      rcases hwaiters.pending taskId c' hmem (by rw [hplace]; simp) with hw | ht
      · rw [hwait] at hw
        cases hw
      · exact hok c' ht
    refine ⟨_, hfinish, hwaiters.unique, hwaiters.accepted_issued, hwaiters.registered,
      hwaiters.registering, fun a ha => ?_, fun u c' hu hp => ?_, fun u c' hu hp => ?_⟩
    · rw [hother _ (hunanswered a ha)]
      exact hwaiters.answers_finished a ha
    · have hne : u ≠ taskId := fun heq => hnot c' (heq ▸ hu)
      exact hwaiters.pending u c' hu (hother u hne ▸ hp)
    · have hne : u ≠ taskId := fun heq => hnot c' (heq ▸ hu)
      obtain ⟨hnone, hno, r, hr, hf⟩ := hwaiters.answered u c' hu (hother u hne ▸ hp)
      exact ⟨hnone, hno, r, List.mem_append_left _ hr, hf⟩
  · have hmem := hwaiters.registered taskId conn hwait
    refine ⟨Function.update place taskId .finished, Tracked.write ?_ rfl conn, hwaiters.unique,
      hwaiters.accepted_issued, fun u c' hu => ?_, hwaiters.registering, fun a ha => ?_,
      fun u c' hu hp => ?_, fun u c' hu hp => ?_⟩
    · exact hfinish.same (fun p => by cases p <;> rfl) (List.Subset.refl _) hfinish.nonzero
    · by_cases hne : u = taskId
      · subst hne
        simp [Server.write] at hu
      · exact hwaiters.registered u c' (by simpa [Server.write, hne] using hu)
    · simp only [Server.write, List.mem_append, List.mem_singleton] at ha
      rcases ha with ha | rfl
      · rw [hother _ (hunanswered a ha)]
        exact hwaiters.answers_finished a ha
      · simp
    · have hne : u ≠ taskId := by
        rintro rfl
        simp at hp
      simpa [Server.write, hne] using hwaiters.pending u c' hu (hother u hne ▸ hp)
    · by_cases hne : u = taskId
      · subst hne
        have hc : c' = conn :=
          congrArg Prod.snd (List.inj_on_of_nodup_map hwaiters.unique hu hmem rfl)
        subst hc
        refine ⟨by simp [Server.write], hok, result, by simp [Server.write], ?_⟩
        simp [Server.write, List.filter_append, hfilter]
      · obtain ⟨hnone, hno, r, hr, hf⟩ := hwaiters.answered u c' hu (hother u hne ▸ hp)
        refine ⟨by simpa [Server.write, hne] using hnone, hno, r, List.mem_append_left _ hr, ?_⟩
        simp [Server.write, List.filter_append, hf, Ne.symm hne]

section Serve

variable [LabelCrate]

theorem Accounted.labeledInvoke (h : Accounted s) {uuid : Uuid} {full : Bool} {r : LabeledInvoke}
    (hthread : s.threads c = .ready) (hs : s.labeledInvoke c uuid full r = some s') :
    Accounted s' := by
  obtain ⟨⟨hzero, hfresh, -⟩, hcases⟩ := Server.labeledInvoke_cases hs
  obtain ⟨place, htracked, hwaiters⟩ := h
  have hnonzero : ∀ u ∈ uuid :: s.issued, u ≠ 0 := by
    intro u hu
    rcases List.mem_cons.1 hu with rfl | hu
    · exact hzero
    · exact htracked.nonzero u hu
  have hplace : place uuid = .nowhere := by
    by_contra hne
    exact hfresh (htracked.issued uuid hne)
  have hqueue : ∀ s'' : Server, (∀ p, p ≠ .queued → s''.tasksAt p = s.tasksAt p) →
      s''.tasksAt .queued = s.tasksAt .queued ++ [uuid] → s''.issued = uuid :: s.issued →
      Tracked s'' (Function.update place uuid .queued) := by
    intro s'' hsame hq hissued
    refine htracked.move hplace (by simp) ?_ ?_ (fun p _ hp => hsame p hp) ?_ ?_ ?_
    · exact ⟨List.Sublist.refl _, by simp [Server.tasksAt]⟩
    · rw [hq]
      exact List.perm_append_singleton _ _
    · rw [hissued]
      exact List.subset_cons_self _ _
    · simp [hissued]
    · rw [hissued]
      exact hnonzero
  have hfinished : ∀ u, Function.update place uuid .queued u = .finished ↔ place u = .finished :=
    update_finished_iff (by rw [hplace]; simp) (by simp)
  rcases hcases with ⟨-, rfl⟩ | ⟨-, -, rfl⟩ | ⟨-, -, rfl⟩
  · refine Accounted.write ⟨place, htracked.same (fun p => by cases p <;> rfl)
      (List.subset_cons_self _ _) hnonzero, ?_⟩ rfl c
    exact hwaiters.same (fun _ => Iff.rfl) rfl (List.subset_cons_self _ _) rfl
      (fun _ _ => Iff.rfl) rfl rfl
  · refine ⟨_, hqueue _ (fun p hp => ?_) (by simp [Server.tasksAt]) rfl,
      hwaiters.same hfinished rfl (List.subset_cons_self _ _) rfl (fun _ _ => Iff.rfl) rfl rfl⟩
    cases p with
    | queued => exact absurd rfl hp
    | _ => rfl
  · refine ⟨_, hqueue _ (fun p hp => ?_) (by simp [Server.tasksAt]) rfl, ?_⟩
    · cases p with
      | queued => exact absurd rfl hp
      | _ => rfl
    · -- The new task is pending; the thread was not about to register any other.
      have hthreads : ∀ c' u, u ≠ uuid →
          (Function.update s.threads c (.registering uuid) c' = .registering u ↔
            s.threads c' = .registering u) := by
        intro c' u hu
        by_cases hc : c' = c
        · subst hc
          simp [hthread, Ne.symm hu]
        · simp [hc]
      have hne : ∀ u c', (u, c') ∈ s.accepted → u ≠ uuid := by
        rintro u c' hu rfl
        exact hfresh (hwaiters.accepted_issued u c' hu)
      refine ⟨?_, fun u c' hu => ?_, fun u c' hu => ?_, fun u c' hu => ?_, fun a ha => ?_,
        fun u c' hu hp => ?_, fun u c' hu hp => ?_⟩
      · refine List.nodup_cons.2 ⟨fun hmem => ?_, hwaiters.unique⟩
        obtain ⟨⟨u, c'⟩, hu, rfl⟩ := List.mem_map.1 hmem
        exact hne u c' hu rfl
      · rcases List.mem_cons.1 hu with heq | hu
        · rw [(Prod.mk.inj heq).1]
          simp
        · exact List.mem_cons_of_mem _ (hwaiters.accepted_issued u c' hu)
      · exact List.mem_cons_of_mem _ (hwaiters.registered u c' hu)
      · by_cases hu' : u = uuid
        · subst hu'
          have hc : c' = c := by
            by_contra hc
            have := hwaiters.registering u c' (by simpa [hc] using hu)
            exact hne u c' this rfl
          simp [hc]
        · exact List.mem_cons_of_mem _ (hwaiters.registering u c' ((hthreads c' u hu').1 hu))
      · rw [hfinished]
        exact hwaiters.answers_finished a ha
      · rcases List.mem_cons.1 hu with heq | hu
        · obtain ⟨rfl, rfl⟩ := Prod.mk.inj heq
          exact .inr (by simp)
        · rw [ne_eq, hfinished] at hp
          exact (hwaiters.pending u c' hu hp).imp id (hthreads c' u (hne u c' hu)).2
      · rw [hfinished] at hp
        rcases List.mem_cons.1 hu with heq | hu
        · rw [(Prod.mk.inj heq).1, hplace] at hp
          cases hp
        · obtain ⟨hnone, hno, r, hr, hf⟩ := hwaiters.answered u c' hu hp
          exact ⟨hnone, fun c'' hc'' => hno c'' ((hthreads c'' u (hne u c' hu)).1 hc''), r, hr, hf⟩

/-- **A round of `serve`** that does not finish a task before its submitter is registered. -/
theorem Accounted.serve (h : Accounted s) {uuid : Uuid} {full : Bool}
    (hok : s.RegistersFirst (.serve c uuid full)) (hs : s.serve c uuid full = some s') :
    Accounted s' := by
  rcases hthread : s.threads c with _ | u | _
  · rcases hin : s.inbox c with _ | ⟨req, rest⟩
    · simp [Server.serve, hthread, hin] at hs
    · have hpop := h.pop hin
      unfold Server.serve at hs
      simp only [hthread, hin] at hs
      cases req with
      | ping =>
        cases hs
        exact hpop.write rfl c
      | getTask =>
        cases hs
        exact hpop.manager (ResourceManager.waitList_addIdle ..)
      | finishTask taskId result =>
        cases hs
        exact h.finish hin (hok taskId result rest hin)
      | labeledInvoke r => exact hpop.labeledInvoke hthread hs
      | updateResource info =>
        cases info with
        | none =>
          cases hs
          exact hpop
        | some info =>
          cases hs
          exact hpop.manager (ResourceManager.waitList_update ..)
      | dropResource =>
        cases hs
        obtain ⟨place, htracked, hwaiters⟩ := hpop.dropResource (s.addr c).ip
        refine ⟨place, htracked.same (fun p => by cases p <;> rfl) (List.Subset.refl _)
          htracked.nonzero, hwaiters.same (fun _ => Iff.rfl) rfl (List.Subset.refl _) rfl
          (fun c' u => ?_) rfl rfl⟩
        by_cases hc : c' = c
        · subst hc
          have hready := (Server.terminate_frame (s.manager.remove (s.addr c').ip).1
            { s with inbox := Function.update s.inbox c' rest,
                     manager := (s.manager.remove (s.addr c').ip).2 }).2.2
          simp [Server.dropResource, hready, hthread]
        · simp [hc]
      | terminateAll =>
        cases hs
        exact hpop
  · simp [Server.serve, hthread] at hs
  · simp [Server.serve, hthread] at hs

/-- **One step keeps account of the tasks and of the peers that wait for them.** -/
theorem Accounted.step (h : Accounted s) {e : Event} (hok : s.RegistersFirst e)
    (hs : s.step e = some s') : Accounted s' := by
  cases e with
  | serve conn uuid full => exact h.serve hok hs
  | register conn => exact h.register hs
  | recv => exact h.recv hs
  | find next => exact h.find hs
  | dispatch succeeds => exact h.dispatch hs
  | send conn req => exact h.send hs
  | read conn => exact h.read hs

omit [LabelCrate] in
theorem accounted_start (addr : Conn → SocketAddr) (capacity : ℕ) : Accounted { addr, capacity } := by
  refine ⟨fun _ => .nowhere, ⟨fun p => ?_, fun p u hu => ?_, by simp, by simp⟩, ?_⟩
  · cases p <;> simp [Server.tasksAt, Scheduling.taskId]
  · cases p <;> simp [Server.tasksAt, Scheduling.taskId] at hu
  · refine ⟨by simp, by simp, by simp, by simp, by simp, by simp, by simp⟩

/-- **Synchronous invocations are answered exactly once**, as long as no `FinishTask` is processed
before the submitter of its task is registered: the result that was processed for an accepted
invocation was written once, to the connection that submitted it, which no longer waits. -/
theorem Server.Run.answered_once {addr : Conn → SocketAddr} {capacity : ℕ}
    (hrun : Server.Run Server.RegistersFirst { addr, capacity } s) (haccepted : (u, c) ∈ s.accepted)
    {r : TaskReturn} (hfinished : (u, r) ∈ s.finished) :
    s.answers.filter (·.1 = u) = [(u, c, r)] ∧ s.manager.waitList u = none := by
  obtain ⟨place, htracked, hwaiters⟩ := hrun.invariant (accounted_start addr capacity)
    fun s s' e h hok hs => h.step hok hs
  have hplace : place u = .finished :=
    htracked.at_place .finished u (List.mem_map_of_mem hfinished)
  obtain ⟨hnone, -, r', hr', hfilter⟩ := hwaiters.answered u c haccepted hplace
  have hnodup : (s.finished.map Prod.fst).Nodup := htracked.nodup .finished
  have heq : r' = r := congrArg Prod.snd (List.inj_on_of_nodup_map hnodup hr' hfinished rfl)
  exact ⟨heq ▸ hfilter, hnone⟩

end Serve

end Faasten.Sched

namespace Faasten.Sched.Overtaken

open scoped Dc
open Unsolicited

/-- The result of the task. -/
def result : TaskReturn where
  code := .success
  payload := none
  label := some (.ofBuckle publicLabel)

/-- Worker 7 waits for a task, gateway 3 invokes a function and waits for it, and the task is given
to the worker. -/
def submission : List Event :=
  [.send 7 .getTask, .serve 7 0 false, .send 3 (.labeledInvoke (invocation true)),
    .serve 3 1 false, .recv, .find (some ⟨7⟩), .dispatch true, .read 7]

/-- The worker finishes the task, and this is processed. -/
def completion : List Event := [.send 7 (.finishTask 1 result), .serve 7 0 false]

/-- The result is processed before the gateway is registered: it is never written, and the gateway
waits forever. -/
theorem result_lost :
    ∃ s, Server.Run (fun _ _ => True) scheduler s ∧ (1, 3) ∈ s.accepted ∧
      (1, result) ∈ s.finished ∧ s.answers = [] ∧ s.outbox 3 = [] ∧
      s.manager.waitList 1 = some 3 := by
  obtain ⟨s, hafter, hs⟩ : ∃ s, after (submission ++ completion ++ [.register 3]) = some s ∧
      (s.accepted = [(1, 3)] ∧ s.finished = [(1, result)] ∧ s.answers = [] ∧ s.outbox 3 = [] ∧
        s.manager.waitList 1 = some 3) :=
    ⟨_, rfl, rfl, rfl, rfl, rfl, rfl⟩
  refine ⟨s, Server.Run.of_events (fun _ _ _ => trivial) hafter, ?_⟩
  obtain ⟨haccepted, hfinished, hrest⟩ := hs
  exact ⟨by simp [haccepted], by simp [hfinished], hrest⟩

/-- When the gateway is registered first, the result is written to it. -/
theorem result_written :
    ∃ s : Server, s.outbox 3 = [.taskReturn result] ∧
      s.answers.filter (·.1 = 1) = [(1, 3, result)] ∧ s.manager.waitList 1 = none := by
  obtain ⟨s, hrun, hs⟩ : ∃ s, Server.Run Server.RegistersFirst scheduler s ∧
      (s.accepted = [(1, 3)] ∧ s.finished = [(1, result)] ∧
        s.outbox 3 = [.taskReturn result]) := by
    refine ⟨_, .step (.step (.step (.step (.step (.step (.step (.step (.step (.step (.step .start
      (.send 7 .getTask) trivial rfl) (.serve 7 0 false) (fun _ _ _ h => by cases h) rfl)
      (.send 3 (.labeledInvoke (invocation true))) trivial rfl)
      (.serve 3 1 false) (fun _ _ _ h => by cases h) rfl) (.register 3) trivial rfl)
      .recv trivial rfl) (.find (some ⟨7⟩)) trivial rfl) (.dispatch true) trivial rfl)
      (.read 7) trivial rfl) (.send 7 (.finishTask 1 result)) trivial rfl)
      (.serve 7 0 false) ?_ rfl, rfl, rfl, rfl⟩
    intro taskId res rest _ c hc
    -- All threads are ready.
    change Function.update (Function.update (fun _ => Thread.ready) 3 (.registering 1)) 3 .ready c =
      .registering taskId at hc
    by_cases hne : c = 3
    · simp [hne] at hc
    · simp [hne] at hc
  obtain ⟨haccepted, hfinished, hout⟩ := hs
  exact ⟨s, hout, hrun.answered_once (by simp [haccepted]) (by simp [hfinished])⟩

end Faasten.Sched.Overtaken
