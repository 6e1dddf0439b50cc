import Mathlib
import Faasten.Message
import Faasten.Sched.Bookkeeping

/-!
# The scheduler and its peers

The server of `sched/rpc_server.rs` (one thread per connection, `serve`), the thread of
`sched/mod.rs` that hands tasks to workers (`schedule`), and the peers at the other end of the
connections, which follow `sched/rpc.rs`: workers, gateways and local resource managers.

* Every step is atomic as far as the source makes it so: `serve` handles a request while it holds the
  lock, except that an accepted synchronous invocation is put into the queue first and registered in
  `wait_list` later (`Thread.registering`). `schedule` takes a task, finds a worker under the lock,
  and writes to its stream afterwards.
* `inbox` and `outbox` are the messages on their way from and to a peer. A frame carries no tag: a
  peer reads the next one as the type it expects.
* A peer sends only while it does not wait for a frame, and finishes only tasks it was given.
* What `try_send` returns is an argument, within what the queue allows; a queue of capacity 0 takes a
  task only while `schedule` waits for one. Uuids are fresh and not nil.
* `issued`, `accepted`, `finished` and `answers` are not part of the source: the uuids so far, the
  accepted synchronous invocations with their connection, the `FinishTask`s that were processed, and
  the results that were written for them.
-/

namespace Faasten.Sched

/-- `message Response`, as far as the scheduler sends it. -/
inductive Response
  | processTask (taskId : Uuid) (labeledInvoke : LabeledInvoke)
  | terminate
  | pong
  deriving DecidableEq

/-- What is written to a connection. -/
inductive Frame
  | response (r : Response)
  | taskReturn (ret : TaskReturn)
  deriving DecidableEq

/-- The type that a frame is read as. -/
inductive Kind
  | response
  | taskReturn
  deriving DecidableEq

/-- The type of a frame. -/
def Frame.kind : Frame → Kind
  | .response _ => .response
  | .taskReturn _ => .taskReturn

/-- `message Request`. The resource information is there if it can be deserialized. -/
inductive Request
  | getTask
  | finishTask (taskId : Uuid) (result : TaskReturn)
  | labeledInvoke (r : LabeledInvoke)
  | updateResource (info : Option ResourceInfo)
  | dropResource
  | terminateAll
  | ping
  deriving DecidableEq

/-- What a peer reads after it has sent a request. -/
def Request.reply : Request → Option Kind
  | .getTask => some .response
  | .ping => some .response
  | .labeledInvoke r => if r.sync then some .taskReturn else none
  | _ => none

/-- `Task::Invoke` -/
abbrev Task := Uuid × LabeledInvoke

/-- Where the thread of a connection is. -/
inductive Thread
  | ready
  | registering (uuid : Uuid)
  | closed
  deriving DecidableEq

/-- Where the thread of `schedule` is. -/
inductive Scheduling
  | waiting
  | holding (task : Task)
  | dispatching (task : Task) (worker : Worker)
  deriving DecidableEq

/-- The other end of a connection: what it reads next, and the tasks it has not finished. -/
structure Peer where
  reading : Option Kind := none
  tasks : List Uuid := []

/-- The scheduler, its connections and its peers. -/
structure Server where
  addr : Conn → SocketAddr
  capacity : ℕ
  manager : ResourceManager := {}
  queue : List Task := []
  scheduling : Scheduling := .waiting
  threads : Conn → Thread := fun _ => .ready
  inbox : Conn → List Request := fun _ => []
  outbox : Conn → List Frame := fun _ => []
  peers : Conn → Peer := fun _ => {}
  issued : List Uuid := []
  accepted : List (Uuid × Conn) := []
  finished : List (Uuid × TaskReturn) := []
  answers : List (Uuid × Conn × TaskReturn) := []

namespace Server

variable (s : Server)

/-- Write a frame to a connection. -/
def write (conn : Conn) (frame : Frame) : Server :=
  { s with outbox := Function.update s.outbox conn (s.outbox conn ++ [frame]) }

/-- Whether `try_send` may find the queue full, or not full. -/
def Sends (full : Bool) : Prop :=
  if full then s.capacity ≤ s.queue.length
  else if s.capacity = 0 then s.queue = [] ∧ s.scheduling = .waiting
  else s.queue.length < s.capacity

instance (full : Bool) : Decidable (s.Sends full) :=
  inferInstanceAs (Decidable (if full then s.capacity ≤ s.queue.length
    else if s.capacity = 0 then s.queue = [] ∧ s.scheduling = .waiting
    else s.queue.length < s.capacity))

/-- `serve`, `FinishTask` -/
def finishTask (taskId : Uuid) (result : TaskReturn) : Server :=
  let s := { s with finished := s.finished ++ [(taskId, result)] }
  if taskId = 0 then s
  else
    match s.manager.waitList taskId with
    | some conn =>
        let manager :=
          { s.manager with waitList := Function.update s.manager.waitList taskId none }
        let answers := s.answers ++ [(taskId, conn, result)]
        { s with manager, answers : Server }.write conn (.taskReturn result)
    | none => s

/-- What is written when the queue is full. -/
def queueFull [LabelCrate] : TaskReturn where
  code := .queueFull
  payload := none
  label := some (.ofBuckle publicLabel)

/-- `serve`, `LabeledInvoke` -/
def labeledInvoke [LabelCrate] (conn : Conn) (uuid : Uuid) (full : Bool) (r : LabeledInvoke) :
    Option Server :=
  if uuid = 0 ∨ uuid ∈ s.issued ∨ ¬ s.Sends full then none
  else
    let s := { s with issued := uuid :: s.issued }
    if full then some (s.write conn (.taskReturn queueFull))
    else
      let s := { s with queue := s.queue ++ [(uuid, r)] }
      if r.sync then
        some { s with
          accepted := (uuid, conn) :: s.accepted
          threads := Function.update s.threads conn (.registering uuid) }
      else some s

/-- `serve`, `DropResource`: the idle workers of the node are terminated. -/
def dropResource (ip : ℕ) : Server :=
  let (workers, manager) := s.manager.remove ip
  workers.foldl (fun s w => s.write w.conn (.response .terminate)) { s with manager }

/-- One round of `serve`. -/
def serve [LabelCrate] (conn : Conn) (uuid : Uuid) (full : Bool) : Option Server :=
  match s.threads conn, s.inbox conn with
  | .ready, req :: rest =>
      let s := { s with inbox := Function.update s.inbox conn rest }
      match req with
      | .ping => some (s.write conn (.response .pong))
      | .getTask => some { s with manager := s.manager.addIdle (s.addr conn) conn }
      | .finishTask taskId result => some (s.finishTask taskId result)
      | .labeledInvoke r => s.labeledInvoke conn uuid full r
      | .updateResource (some info) =>
          some { s with manager := s.manager.update (s.addr conn).ip info }
      | .updateResource none => some s
      | .dropResource =>
          let s := s.dropResource (s.addr conn).ip
          some { s with threads := Function.update s.threads conn .closed }
      | .terminateAll => some s
  | _, _ => none

/-- The second critical section of a synchronous `LabeledInvoke`. -/
def register (conn : Conn) : Option Server :=
  match s.threads conn with
  | .registering uuid =>
      some { s with
        manager :=
          { s.manager with waitList := Function.update s.manager.waitList uuid (some conn) }
        threads := Function.update s.threads conn .ready }
  | _ => none

/-- `schedule`, `queue_rx.recv()` -/
def recv : Option Server :=
  match s.scheduling, s.queue with
  | .waiting, task :: queue => some { s with queue, scheduling := .holding task }
  | _, _ => none

/-- `schedule`, one call of `find_idle`. Without a worker it is called again after a notification. -/
def find (next : Option Node) : Option Server :=
  match s.scheduling with
  | .holding task =>
      match task.2.function with
      | none => none
      | some f =>
          match s.manager.findIdle f next with
          | some (some worker, manager) =>
              some { s with manager, scheduling := .dispatching task worker }
          | some (none, manager) => some { s with manager }
          | none => none
  | _ => none

/-- `schedule`, the write to the worker, which fails if the stream is broken. -/
def dispatch (succeeds : Bool) : Option Server :=
  match s.scheduling with
  | .dispatching task worker =>
      if succeeds then
        let s := { s with scheduling := .waiting }
        some (s.write worker.conn (.response (.processTask task.1 task.2)))
      else some { s with scheduling := .holding task }
  | _ => none

/-- A peer sends a request. -/
def send (conn : Conn) (req : Request) : Option Server :=
  let peer := s.peers conn
  let sent (tasks : List Uuid) : Server :=
    { s with
      inbox := Function.update s.inbox conn (s.inbox conn ++ [req])
      peers := Function.update s.peers conn { reading := req.reply, tasks } }
  if peer.reading = none then
    match req with
    | .finishTask taskId _ =>
        if taskId ∈ peer.tasks then some (sent (peer.tasks.erase taskId)) else none
    | _ => some (sent peer.tasks)
  else none

/-- A peer reads a frame. If it is not of the expected type, the peer has learnt nothing. -/
def read (conn : Conn) : Option Server :=
  let peer := s.peers conn
  match peer.reading, s.outbox conn with
  | some kind, frame :: rest =>
      let tasks :=
        match kind, frame with
        | .response, .response (.processTask taskId _) => taskId :: peer.tasks
        | _, _ => peer.tasks
      some { s with
        outbox := Function.update s.outbox conn rest
        peers := Function.update s.peers conn { reading := none, tasks } }
  | _, _ => none

end Server

/-- The task that a frame carries. -/
def Frame.taskId : Frame → Option Uuid
  | .response (.processTask taskId _) => some taskId
  | _ => none

/-- The task that a request finishes. -/
def Request.taskId : Request → Option Uuid
  | .finishTask taskId _ => some taskId
  | _ => none

/-- The task that `schedule` has taken. -/
def Scheduling.taskId : Scheduling → Option Uuid
  | .waiting => none
  | .holding task => some task.1
  | .dispatching task _ => some task.1

/-! ### What the steps of the peers do -/

namespace Server

variable {s s' : Server} {c : Conn}

theorem send_cases {req : Request} (hs : s.send c req = some s') :
    (s.peers c).reading = none ∧ ∃ tasks,
      s' = { s with
        inbox := Function.update s.inbox c (s.inbox c ++ [req])
        peers := Function.update s.peers c { reading := req.reply, tasks } } ∧
      ((req.taskId = none ∧ tasks = (s.peers c).tasks) ∨
        ∃ u, req.taskId = some u ∧ u ∈ (s.peers c).tasks ∧ tasks = (s.peers c).tasks.erase u) := by
  unfold send at hs
  dsimp only at hs
  by_cases hr : (s.peers c).reading = none
  · rw [if_pos hr] at hs
    refine ⟨hr, ?_⟩
    cases req with
    | finishTask taskId result =>
      by_cases hmem : taskId ∈ (s.peers c).tasks
      · simp only [if_pos hmem] at hs
        exact ⟨_, (Option.some.inj hs).symm, .inr ⟨taskId, rfl, hmem, rfl⟩⟩
      · simp only [if_neg hmem] at hs
        cases hs
    | _ => exact ⟨_, (Option.some.inj hs).symm, .inl ⟨rfl, rfl⟩⟩
  · rw [if_neg hr] at hs
    cases hs

theorem read_cases (hs : s.read c = some s') :
    ∃ frame rest tasks, s.outbox c = frame :: rest ∧
      s' = { s with
        outbox := Function.update s.outbox c rest
        peers := Function.update s.peers c { reading := none, tasks } } ∧
      (tasks = (s.peers c).tasks ∨
        ∃ u, frame.taskId = some u ∧ tasks = u :: (s.peers c).tasks) := by
  unfold read at hs
  rcases hr : (s.peers c).reading with _ | kind
  · simp [hr] at hs
  · rcases hout : s.outbox c with _ | ⟨frame, rest⟩
    · simp [hr, hout] at hs
    · simp only [hr, hout, Option.some.injEq] at hs
      refine ⟨frame, rest, _, rfl, hs.symm, ?_⟩
      split
      · exact .inr ⟨_, rfl, rfl⟩
      · exact .inl rfl

end Server

/-- A step of one of the parties. -/
inductive Event
  | serve (conn : Conn) (uuid : Uuid) (full : Bool)
  | register (conn : Conn)
  | recv
  | find (next : Option Node)
  | dispatch (succeeds : Bool)
  | send (conn : Conn) (req : Request)
  | read (conn : Conn)

namespace Server

variable [LabelCrate]

/-- One step; `none` if it is not possible. -/
def step (s : Server) : Event → Option Server
  | .serve conn uuid full => s.serve conn uuid full
  | .register conn => s.register conn
  | .recv => s.recv
  | .find next => s.find next
  | .dispatch succeeds => s.dispatch succeeds
  | .send conn req => s.send conn req
  | .read conn => s.read conn

/-- The states that steps lead to, where each of them meets a condition. -/
inductive Run (ok : Server → Event → Prop) (s₀ : Server) : Server → Prop
  | start : Run ok s₀ s₀
  | step {s s' : Server} (hrun : Run ok s₀ s) (e : Event) (hok : ok s e)
      (hs : s.step e = some s') : Run ok s₀ s'

/-- An invariant that every step keeps holds in every state of a run. -/
theorem Run.invariant {ok : Server → Event → Prop} {s₀ s : Server} {P : Server → Prop}
    (hrun : Run ok s₀ s) (h₀ : P s₀)
    (hstep : ∀ s s' e, P s → ok s e → s.step e = some s' → P s') : P s := by
  induction hrun with
  | start => exact h₀
  | step _ e hok hs ih => exact hstep _ _ e ih hok hs

/-- Events one after another are a run. -/
theorem Run.of_events {ok : Server → Event → Prop} {s₀ s : Server} {es : List Event}
    (hok : ∀ s, ∀ e ∈ es, ok s e) (h : es.foldlM Server.step s₀ = some s) : Run ok s₀ s := by
  induction es using List.reverseRecOn generalizing s with
  | nil =>
    cases h
    exact .start
  | append_singleton es e ih =>
    rw [List.foldlM_append, Option.bind_eq_bind, Option.bind_eq_some_iff] at h
    obtain ⟨s₁, h₁, h₂⟩ := h
    have hs : s₁.step e = some s := by simpa using h₂
    exact .step (ih (fun s e he => hok s e (by simp [he])) h₁) e (hok s₁ e (by simp)) hs

end Server

end Faasten.Sched
