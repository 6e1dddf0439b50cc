import Mathlib
import Faasten.DcLabels
import Faasten.Sched.Server

/-!
# Frames and the reads that expect them

A connection carries requests with two types of replies, without tags. It stays in step when every
frame on it is the only one, and of the type that the peer reads next.

For the proof, each connection has a `Slot`: the one place where the reply that its peer waits for is
in the making. `Slot.Describes` says what everything that concerns the connection looks like then,
and every step moves at most the slots of the connections it serves. The exception is an asynchronous
invocation that finds the queue full: `serve` writes a frame that nobody waits for.
-/

namespace Faasten.Sched

/-- Every frame on a connection is the only one, and the peer reads one of its type. -/
def Server.InStep (s : Server) : Prop :=
  ∀ c, s.outbox c = [] ∨ ∃ frame, s.outbox c = [frame] ∧ (s.peers c).reading = some frame.kind

/-- No asynchronous invocation finds the queue full. -/
def Server.QueuesAsync (s : Server) : Event → Prop
  | .serve conn _ full =>
      ∀ r rest, s.inbox conn = .labeledInvoke r :: rest → full = true → r.sync = true
  | _ => True

/-! ### Slots -/

/-- Where the reply that a peer waits for is in the making. -/
inductive Slot
  | free
  | asked (req : Request)
  | registering (uuid : Uuid)
  | waiting (uuid : Uuid)
  | idle
  | found
  | lost (kind : Kind)
  | answered (frame : Frame)
  deriving DecidableEq

namespace Slot

/-- What the peer reads next. -/
@[simp] def reading : Slot → Option Kind
  | .free => none
  | .asked req => req.reply
  | .registering _ => some .taskReturn
  | .waiting _ => some .taskReturn
  | .idle => some .response
  | .found => some .response
  | .lost kind => some kind
  | .answered frame => some frame.kind

/-- The request that has not been served. -/
@[simp] def requests : Slot → List Request
  | .asked req => [req]
  | _ => []

/-- The frame that has not been read. -/
@[simp] def frames : Slot → List Frame
  | .answered frame => [frame]
  | _ => []

/-- The uuid that the thread is about to register. -/
@[simp] def uuid : Slot → Option Uuid
  | .registering uuid => some uuid
  | _ => none

/-- How often the worker waits for a task. -/
@[simp] def idles : Slot → ℕ
  | .idle => 1
  | _ => 0

/-- Whether a task is about to be written. -/
@[simp] def isFound : Slot → Bool
  | .found => true
  | _ => false

/-- The task whose result the peer waits for. -/
@[simp] def awaited : Slot → Option Uuid
  | .waiting uuid => some uuid
  | _ => none

variable {σ : Slot} {u : Uuid}

theorem eq_registering (h : σ.uuid = some u) : σ = .registering u := by
  cases σ <;> simp_all

theorem eq_waiting (h : σ.awaited = some u) : σ = .waiting u := by
  cases σ <;> simp_all

theorem eq_idle (h : 0 < σ.idles) : σ = .idle := by
  cases σ <;> simp_all

theorem eq_found (h : σ.isFound = true) : σ = .found := by
  cases σ <;> simp_all

end Slot

/-- The uuid that a thread is about to register. -/
def Thread.uuid : Thread → Option Uuid
  | .registering uuid => some uuid
  | _ => none

/-- The worker that a task is about to be written to. -/
def Scheduling.conn : Scheduling → Option Conn
  | .dispatching _ worker => some worker.conn
  | _ => none

/-- All that concerns a connection. -/
structure View where
  inbox : List Request
  outbox : List Frame
  reading : Option Kind
  uuid : Option Uuid
  idles : ℕ
  found : Bool
  waits : Uuid → Prop

/-- What concerns a connection in a state of the server. -/
def Server.view (s : Server) (c : Conn) : View where
  inbox := s.inbox c
  outbox := s.outbox c
  reading := (s.peers c).reading
  uuid := (s.threads c).uuid
  idles := Sched.waiting s.manager ⟨s.addr c, c⟩
  found := s.scheduling.conn == some c
  waits uuid := s.manager.waitList uuid = some c

/-- A connection whose reply is in this slot. Other requests on it expect no reply. -/
structure Slot.Describes (σ : Slot) (v : View) : Prop where
  inbox : ∃ quiet, v.inbox = quiet ++ σ.requests ∧ ∀ req ∈ quiet, req.reply = none
  outbox : v.outbox = σ.frames
  reading : v.reading = σ.reading
  uuid : v.uuid = σ.uuid
  idles : v.idles = σ.idles
  found : v.found = σ.isFound
  waits : ∀ uuid, v.waits uuid → σ.awaited = some uuid
  asked : ∀ req ∈ σ.requests, req.reply ≠ none

namespace Slot.Describes

variable {σ : Slot} {v : View} {req : Request} {rest : List Request}

/-- The next request of a connection expects no reply, or it is the one that does. -/
theorem pop (h : σ.Describes v) (hin : v.inbox = req :: rest) :
    (req.reply = none ∧ σ.Describes { v with inbox := rest }) ∨
      (σ = .asked req ∧ rest = [] ∧ req.reply ≠ none) := by
  obtain ⟨quiet, hquiet, hnone⟩ := h.inbox
  rw [hin] at hquiet
  cases quiet with
  | nil =>
    right
    cases σ with
    | asked req' =>
      obtain ⟨rfl, rfl⟩ := List.cons.inj hquiet
      exact ⟨rfl, rfl, h.asked _ (by simp)⟩
    | _ => cases hquiet
  | cons q quiet =>
    left
    obtain ⟨rfl, rfl⟩ := List.cons.inj hquiet
    refine ⟨hnone _ (by simp), ?_⟩
    exact { h with inbox := ⟨quiet, rfl, fun r hr => hnone r (List.mem_cons_of_mem _ hr)⟩ }

theorem eq_free (h : σ.Describes v) (hr : v.reading = none) : σ = .free := by
  rw [h.reading] at hr
  cases σ with
  | free => rfl
  | asked req => exact absurd hr (h.asked req (by simp))
  | _ => cases hr

theorem eq_answered (h : σ.Describes v) {frame : Frame} {rest : List Frame}
    (hout : v.outbox = frame :: rest) : σ = .answered frame ∧ rest = [] := by
  rw [h.outbox] at hout
  cases σ with
  | answered frame' =>
    obtain ⟨rfl, rfl⟩ := List.cons.inj hout
    exact ⟨rfl, rfl⟩
  | _ => cases hout

theorem outbox_eq (h : σ.Describes v) :
    v.outbox = [] ∨ ∃ frame, v.outbox = [frame] ∧ v.reading = some frame.kind := by
  rw [h.outbox, h.reading]
  cases σ with
  | answered frame => exact .inr ⟨frame, rfl, rfl⟩
  | _ => exact .inl rfl

/-! The moves of a slot: one lemma each. -/

variable {uuid : Uuid} {frame : Frame}

theorem tell (h : Slot.free.Describes v) (hreq : req.reply = none) :
    Slot.free.Describes { v with inbox := v.inbox ++ [req], reading := none } := by
  obtain ⟨quiet, hin, hquiet⟩ := h.inbox
  refine { h with inbox := ⟨quiet ++ [req], by simp [hin], fun r hr => ?_⟩, reading := rfl }
  rcases List.mem_append.1 hr with hr | hr
  · exact hquiet r hr
  · rw [List.mem_singleton.1 hr, hreq]

theorem ask (h : Slot.free.Describes v) (hreq : req.reply ≠ none) :
    (Slot.asked req).Describes { v with inbox := v.inbox ++ [req], reading := req.reply } := by
  obtain ⟨quiet, hin, hquiet⟩ := h.inbox
  exact { h with
    inbox := ⟨quiet, by simp [hin], hquiet⟩
    reading := rfl
    asked := by simpa using hreq }

theorem answer (h : (Slot.asked req).Describes v) (frame : Frame) (hkind : req.reply = some frame.kind) :
    (Slot.answered frame).Describes { v with inbox := [], outbox := v.outbox ++ [frame] } :=
  { h with
    inbox := ⟨[], rfl, by simp⟩
    outbox := by simp [h.outbox]
    reading := h.reading.trans hkind
    asked := by simp }

theorem accept (h : (Slot.asked req).Describes v) (uuid : Uuid) (hkind : req.reply = some .taskReturn) :
    (Slot.registering uuid).Describes { v with inbox := [], uuid := some uuid } :=
  { h with
    inbox := ⟨[], rfl, by simp⟩
    reading := h.reading.trans hkind
    uuid := rfl
    asked := by simp }

theorem register (h : (Slot.registering uuid).Describes v) (waits : Uuid → Prop)
    (hwaits : ∀ u, waits u → v.waits u ∨ u = uuid) :
    (Slot.waiting uuid).Describes { v with uuid := none, waits } := by
  refine { h with uuid := rfl, waits := fun u hu => ?_ }
  rcases hwaits u hu with hu | rfl
  · exact absurd (h.waits u hu) (by simp)
  · rfl

theorem finish (h : (Slot.waiting uuid).Describes v) {ret : TaskReturn} {waits : Uuid → Prop}
    (hwaits : ∀ u, waits u → v.waits u ∧ u ≠ uuid) :
    (Slot.answered (.taskReturn ret)).Describes
      { v with outbox := v.outbox ++ [.taskReturn ret], waits } := by
  refine { h with outbox := by simp [h.outbox], waits := fun u hu => ?_ }
  obtain ⟨hold, hne⟩ := hwaits u hu
  exact absurd (Option.some.inj (h.waits u hold)).symm hne

theorem wait (h : (Slot.asked req).Describes v) (hkind : req.reply = some .response) :
    Slot.idle.Describes { v with inbox := [], idles := v.idles + 1 } :=
  { h with
    inbox := ⟨[], rfl, by simp⟩
    reading := h.reading.trans hkind
    idles := by simp [h.idles]
    asked := by simp }

theorem find (h : Slot.idle.Describes v) : Slot.found.Describes { v with idles := 0, found := true } :=
  { h with idles := rfl, found := rfl }

theorem dispatch (h : Slot.found.Describes v) {r : Response} :
    (Slot.answered (.response r)).Describes
      { v with outbox := v.outbox ++ [.response r], found := false } :=
  { h with outbox := by simp [h.outbox], found := rfl }

theorem lose (h : Slot.found.Describes v) :
    (Slot.lost .response).Describes { v with found := false } :=
  { h with found := rfl }

theorem terminate (h : Slot.idle.Describes v) :
    (Slot.answered (.response .terminate)).Describes
      { v with outbox := v.outbox ++ [.response .terminate], idles := 0 } :=
  { h with outbox := by simp [h.outbox], idles := rfl }

theorem read (h : (Slot.answered frame).Describes v) :
    Slot.free.Describes { v with outbox := [], reading := none } :=
  { h with outbox := rfl, reading := rfl }

end Slot.Describes

/-- The manager is consistent, workers wait under their own address, and every connection is in the
state of its slot. -/
structure Framed (s : Server) (slot : Conn → Slot) : Prop where
  consistent : Consistent s.manager
  home : ∀ w, 0 < waiting s.manager w → w.addr = s.addr w.conn
  describes : ∀ c, (slot c).Describes (s.view c)

variable {s s' : Server} {slot : Conn → Slot} {c : Conn}

theorem Framed.outboxes (h : Framed s slot) : s.InStep := fun c => (h.describes c).outbox_eq

/-- A step that concerns one connection. -/
theorem Framed.move (h : Framed s slot) (c : Conn) {σ : Slot} (hcons : Consistent s'.manager)
    (hhome : ∀ w, 0 < waiting s'.manager w → w.addr = s'.addr w.conn)
    (hother : ∀ c', c' ≠ c → s'.view c' = s.view c') (hc : σ.Describes (s'.view c)) :
    Framed s' (Function.update slot c σ) := by
  refine ⟨hcons, hhome, fun c' => ?_⟩
  by_cases hc' : c' = c
  · subst hc'
    rwa [Function.update_self]
  · rw [Function.update_of_ne hc', hother c' hc']
    exact h.describes c'

/-- A step that concerns no connection. -/
theorem Framed.same (h : Framed s slot) (hcons : Consistent s'.manager)
    (hhome : ∀ w, 0 < waiting s'.manager w → w.addr = s'.addr w.conn)
    (hview : ∀ c, s'.view c = s.view c) : Framed s' slot :=
  ⟨hcons, hhome, fun c => hview c ▸ h.describes c⟩

theorem Server.view_write_self (s : Server) (c : Conn) (frame : Frame) :
    (s.write c frame).view c = { s.view c with outbox := (s.view c).outbox ++ [frame] } := by
  simp [Server.view, Server.write]

theorem Server.view_write_of_ne (s : Server) {c c' : Conn} (hne : c' ≠ c) (frame : Frame) :
    (s.write c frame).view c' = s.view c' := by
  simp [Server.view, Server.write, hne]

/-- The list of waiting peers plays no role for the rest of the manager. -/
theorem Consistent.waitList {rm : ResourceManager} (h : Consistent rm) (waitList : Uuid → Option Conn) :
    Consistent { rm with waitList } :=
  ⟨h.tidy, h.cached_known, h.idle_known, h.idle_home, h.idle_ne_nil⟩

/-! ### The steps of the peers -/

theorem Framed.send (h : Framed s slot) {req : Request} (hs : s.send c req = some s') :
    ∃ slot', Framed s' slot' := by
  obtain ⟨hr, tasks, rfl, -⟩ := Server.send_cases hs
  have hc := h.describes c
  have hfree := hc.eq_free hr
  rw [hfree] at hc
  have hview : ∀ c', c' ≠ c → Server.view { s with
      inbox := Function.update s.inbox c (s.inbox c ++ [req])
      peers := Function.update s.peers c { reading := req.reply, tasks } } c' = s.view c' := by
    intro c' hne
    simp [Server.view, hne]
  by_cases hreply : req.reply = none
  · refine ⟨_, h.move c (σ := .free) h.consistent h.home hview ?_⟩
    simpa [Server.view, hreply] using hc.tell hreply
  · refine ⟨_, h.move c (σ := .asked req) h.consistent h.home hview ?_⟩
    simpa [Server.view] using hc.ask hreply

theorem Framed.read (h : Framed s slot) (hs : s.read c = some s') :
    ∃ slot', Framed s' slot' := by
  obtain ⟨frame, rest, tasks, hout, rfl, -⟩ := Server.read_cases hs
  have hc := h.describes c
  obtain ⟨hσ, rfl⟩ := hc.eq_answered hout
  rw [hσ] at hc
  refine ⟨_, h.move c (σ := .free) h.consistent h.home (fun c' hne => ?_) ?_⟩
  · simp [Server.view, hne]
  · simpa [Server.view] using hc.read

/-! ### The steps of the scheduler -/

theorem Framed.register (h : Framed s slot) (hs : s.register c = some s') :
    ∃ slot', Framed s' slot' := by
  unfold Server.register at hs
  split at hs
  · rename_i uuid hthread
    cases hs
    have hc := h.describes c
    have hσ : slot c = .registering uuid := by
      have huuid := hc.uuid
      simp only [Server.view, hthread, Thread.uuid] at huuid
      exact Slot.eq_registering huuid.symm
    rw [hσ] at hc
    have hwaits : ∀ c' u, Function.update s.manager.waitList uuid (some c) u = some c' →
        s.manager.waitList u = some c' ∨ c = c' ∧ u = uuid := by
      intro c' u hu
      by_cases hne : u = uuid
      · subst hne
        exact .inr ⟨by simpa using hu, rfl⟩
      · exact .inl (by simpa [hne] using hu)
    refine ⟨Function.update slot c (.waiting uuid), h.consistent.waitList _, h.home,
      fun c' => ?_⟩
    by_cases hne : c' = c
    · subst hne
      rw [Function.update_self]
      have := hc.register (fun u => Function.update s.manager.waitList uuid (some c') u = some c')
        fun u hu => (hwaits c' u hu).imp id And.right
      simpa [Server.view, Thread.uuid, Sched.waiting] using this
    · rw [Function.update_of_ne hne]
      have hc' := h.describes c'
      refine { hc' with uuid := ?_, waits := fun u hu => ?_ }
      · have := hc'.uuid
        simpa [Server.view, hne] using this
      · refine hc'.waits u ((hwaits c' u hu).resolve_right ?_)
        rintro ⟨rfl, -⟩
        exact hne rfl
  · cases hs

theorem Framed.recv (h : Framed s slot) (hs : s.recv = some s') : Framed s' slot := by
  unfold Server.recv at hs
  split at hs
  · rename_i hwaiting _
    cases hs
    exact h.same h.consistent h.home fun c => by simp [Server.view, hwaiting, Scheduling.conn]
  · cases hs

theorem Framed.finishTask (h : Framed s slot) (taskId : Uuid) (result : TaskReturn) :
    ∃ slot', Framed (s.finishTask taskId result) slot' := by
  unfold Server.finishTask
  dsimp only
  split
  · exact ⟨slot, h.same h.consistent h.home fun c => rfl⟩
  · split
    · rename_i conn hconn
      have hc := h.describes conn
      have hσ : slot conn = .waiting taskId := Slot.eq_waiting (hc.waits taskId hconn)
      rw [hσ] at hc
      refine ⟨Function.update slot conn (.answered (.taskReturn result)),
        h.consistent.waitList _, h.home, fun c' => ?_⟩
      have hwaits : ∀ u, Function.update s.manager.waitList taskId none u = some c' →
          s.manager.waitList u = some c' ∧ u ≠ taskId := by
        intro u hu
        by_cases hne : u = taskId
        · subst hne
          simp at hu
        · exact ⟨by simpa [hne] using hu, hne⟩
      by_cases hne : c' = conn
      · subst hne
        rw [Function.update_self, Server.view_write_self]
        exact hc.finish hwaits
      · rw [Function.update_of_ne hne, Server.view_write_of_ne _ hne]
        have hc' := h.describes c'
        exact { hc' with waits := fun u hu => hc'.waits u (hwaits u hu).1 }
    · exact ⟨slot, h.same h.consistent h.home fun c => rfl⟩

theorem Framed.update (h : Framed s slot) (ip : ℕ) (info : ResourceInfo) :
    Framed { s with manager := s.manager.update ip info } slot := by
  refine ⟨h.consistent.update ip info, fun w hw => ?_, fun c => ?_⟩
  · rw [waiting_update] at hw
    exact h.home w hw
  · have hview : Server.view { s with manager := s.manager.update ip info } c = s.view c := by
      simp only [Server.view, waiting_update, ResourceManager.waitList_update]
    rw [hview]
    exact h.describes c

/-- Terminating workers writes one frame for each of them. -/
theorem Server.outbox_terminate (workers : List Worker) (s : Server) (c : Conn) :
    (workers.foldl (fun s w => s.write w.conn (.response .terminate)) s).outbox c =
      s.outbox c ++ List.replicate (workers.countP (·.conn = c)) (.response .terminate) := by
  induction workers generalizing s with
  | nil => simp
  | cons w workers ih =>
    rw [List.foldl_cons, ih, List.countP_cons]
    by_cases hw : w.conn = c
    · subst hw
      simp [Server.write, List.replicate_succ]
    · simp [Server.write, hw, Ne.symm hw]

theorem Server.view_terminate (workers : List Worker) (s : Server) (c : Conn) :
    (workers.foldl (fun s w => s.write w.conn (.response .terminate)) s).view c =
      { s.view c with outbox := s.outbox c ++
        List.replicate (workers.countP (·.conn = c)) (.response .terminate) } := by
  rw [← Server.outbox_terminate]
  induction workers generalizing s with
  | nil => rfl
  | cons w workers ih =>
    rw [List.foldl_cons, ih]
    rfl

/-- Nothing else changes. -/
theorem Server.terminate_frame (workers : List Worker) (s : Server) :
    (workers.foldl (fun s w => s.write w.conn (.response .terminate)) s).manager = s.manager ∧
      (workers.foldl (fun s w => s.write w.conn (.response .terminate)) s).addr = s.addr ∧
      (workers.foldl (fun s w => s.write w.conn (.response .terminate)) s).threads =
        s.threads := by
  induction workers generalizing s with
  | nil => exact ⟨rfl, rfl, rfl⟩
  | cons w workers ih => exact ih _

/-- Of the workers that wait under their own address, one is terminated for each connection that is
idle. -/
theorem Framed.countP_conn (h : Framed s slot) {workers : List Worker}
    (hworkers : ∀ w ∈ workers, 0 < waiting s.manager w) (c : Conn) :
    workers.countP (·.conn = c) = workers.count ⟨s.addr c, c⟩ := by
  refine List.countP_congr fun w hw => ?_
  have haddr := h.home w (hworkers w hw)
  constructor
  · intro hc
    have hc : w.conn = c := by simpa using hc
    obtain ⟨addr, conn⟩ := w
    simp_all
  · intro hc
    have hc : w = ⟨s.addr c, c⟩ := by simpa using hc
    simp [hc]

theorem Framed.dropResource (h : Framed s slot) (ip : ℕ) :
    ∃ slot', Framed (s.dropResource ip) slot' := by
  have hcount := fun w => waiting_remove h.consistent ip w
  have hworkers : ∀ w ∈ (s.manager.remove ip).1, 0 < waiting s.manager w := by
    intro w hw
    have := List.count_pos_iff.2 hw
    have := hcount w
    omega
  unfold Server.dropResource
  dsimp only
  obtain ⟨hmanager, haddr, -⟩ := Server.terminate_frame (s.manager.remove ip).1
    { s with manager := (s.manager.remove ip).2 }
  refine ⟨fun c => if ⟨s.addr c, c⟩ ∈ (s.manager.remove ip).1 then
    .answered (.response .terminate) else slot c, ?_, ?_, fun c => ?_⟩
  · rw [hmanager]
    exact h.consistent.remove ip
  · intro w hw
    rw [hmanager] at hw
    rw [haddr]
    change 0 < waiting (s.manager.remove ip).2 w at hw
    have := hcount w
    exact h.home w (by omega)
  · rw [Server.view_terminate, h.countP_conn hworkers]
    have hc := h.describes c
    have hidles : (s.view c).idles = waiting s.manager ⟨s.addr c, c⟩ := rfl
    have hle : (slot c).idles ≤ 1 := by cases slot c <;> simp
    have hcc := hcount ⟨s.addr c, c⟩
    have hσ := hc.idles
    by_cases hmem : (⟨s.addr c, c⟩ : Worker) ∈ (s.manager.remove ip).1
    · have hpos := List.count_pos_iff.2 hmem
      have hone : (s.manager.remove ip).1.count ⟨s.addr c, c⟩ = 1 := by omega
      have hidle : slot c = .idle := Slot.eq_idle (by omega)
      rw [if_pos hmem, hone]
      rw [hidle] at hc
      have hzero : waiting (s.manager.remove ip).2 ⟨s.addr c, c⟩ = 0 := by omega
      have := hc.terminate
      simp only [Server.view, List.replicate_one] at this ⊢
      rw [hzero]
      exact this
    · rw [if_neg hmem, List.count_eq_zero.2 hmem]
      have hsame : waiting (s.manager.remove ip).2 ⟨s.addr c, c⟩ =
          waiting s.manager ⟨s.addr c, c⟩ := by
        rw [List.count_eq_zero.2 hmem] at hcc
        omega
      simp only [Server.view, hsame, List.replicate_zero, List.append_nil] at hc ⊢
      exact hc

/-- Finding a worker takes an idle connection. -/
theorem Framed.find (h : Framed s slot) {next : Option Node} (hs : s.find next = some s') :
    ∃ slot', Framed s' slot' := by
  unfold Server.find at hs
  split at hs
  · rename_i task hholding
    split at hs
    · cases hs
    · rename_i f hf
      split at hs
      · rename_i worker manager hfind
        cases hs
        have hcount := fun w => waiting_findIdle h.consistent hfind w
        have hself := hcount worker
        simp only [Option.toList_some, List.count_singleton_self] at hself
        have haddr : worker.addr = s.addr worker.conn := h.home worker (by omega)
        have hworker : worker = ⟨s.addr worker.conn, worker.conn⟩ := by rw [← haddr]
        have hc := h.describes worker.conn
        have hidles := hc.idles
        simp only [Server.view, ← hworker] at hidles
        have hidle : slot worker.conn = .idle := Slot.eq_idle (by omega)
        rw [hidle] at hc hidles
        simp only [Slot.idles] at hidles
        have hwait : manager.waitList = s.manager.waitList := findIdle_waitList hfind
        refine ⟨_, h.move worker.conn (σ := .found) (h.consistent.findIdle hfind) (fun w hw => ?_)
          (fun c' hne => ?_) ?_⟩
        · change 0 < waiting manager w at hw
          have := hcount w
          exact h.home w (by omega)
        · have hother := hcount ⟨s.addr c', c'⟩
          have hnot : worker ≠ ⟨s.addr c', c'⟩ := fun hw => hne (by rw [hw])
          simp only [Option.toList_some, List.count_singleton, beq_iff_eq, hnot, if_false,
            Nat.add_zero] at hother
          simp [Server.view, hother, hwait, Scheduling.conn, hholding, Ne.symm hne]
        · have hzero : waiting manager ⟨s.addr worker.conn, worker.conn⟩ = 0 := by
            rw [← hworker]
            omega
          have := hc.find
          simpa [Server.view, hzero, hwait, Scheduling.conn] using this
      · rename_i manager hfind
        cases hs
        have hcount : ∀ w, waiting manager w = waiting s.manager w := fun w => by
          simpa using waiting_findIdle h.consistent hfind w
        have hwait : manager.waitList = s.manager.waitList := findIdle_waitList hfind
        refine ⟨slot, h.same (h.consistent.findIdle hfind) (fun w hw => ?_) fun c => ?_⟩
        · exact h.home w (hcount w ▸ hw)
        · simp [Server.view, hcount, hwait]
      · cases hs
  · cases hs

theorem Framed.dispatch (h : Framed s slot) {succeeds : Bool} (hs : s.dispatch succeeds = some s') :
    ∃ slot', Framed s' slot' := by
  unfold Server.dispatch at hs
  split at hs
  · rename_i task worker hdispatching
    have hc := h.describes worker.conn
    have hfound : slot worker.conn = .found := by
      have hfound := hc.found
      simp only [Server.view, hdispatching, Scheduling.conn, beq_self_eq_true] at hfound
      exact Slot.eq_found hfound.symm
    rw [hfound] at hc
    split at hs
    · cases hs
      refine ⟨_, h.move worker.conn (σ := .answered (.response (.processTask task.1 task.2)))
        h.consistent h.home (fun c' hne => ?_) ?_⟩
      · rw [Server.view_write_of_ne _ hne]
        simp [Server.view, hdispatching, Scheduling.conn, Ne.symm hne]
      · rw [Server.view_write_self]
        simpa [Server.view, Scheduling.conn] using hc.dispatch
    · cases hs
      refine ⟨_, h.move worker.conn (σ := .lost .response) h.consistent h.home (fun c' hne => ?_) ?_⟩
      · simp [Server.view, hdispatching, Scheduling.conn, Ne.symm hne]
      · simpa [Server.view, Scheduling.conn] using hc.lose
  · cases hs

/-! ### Serving a request -/

section Serve

variable [LabelCrate]

/-- What a `LabeledInvoke` can do: leave a note that the queue is full, or put the task into it; a
synchronous one is then registered. -/
theorem Server.labeledInvoke_cases {uuid : Uuid} {full : Bool} {r : LabeledInvoke}
    (hs : s.labeledInvoke c uuid full r = some s') :
    (uuid ≠ 0 ∧ uuid ∉ s.issued ∧ s.Sends full) ∧
      ((full = true ∧ s' = Server.write { s with issued := uuid :: s.issued } c
          (.taskReturn Server.queueFull)) ∨
        (full = false ∧ r.sync = false ∧
          s' = { s with issued := uuid :: s.issued, queue := s.queue ++ [(uuid, r)] }) ∨
        (full = false ∧ r.sync = true ∧ s' = { s with
          issued := uuid :: s.issued
          queue := s.queue ++ [(uuid, r)]
          accepted := (uuid, c) :: s.accepted
          threads := Function.update s.threads c (.registering uuid) })) := by
  unfold Server.labeledInvoke at hs
  split at hs
  · cases hs
  · rename_i hfresh
    push Not at hfresh
    refine ⟨hfresh, ?_⟩
    cases full with
    | true => exact .inl ⟨rfl, (Option.some.inj hs).symm⟩
    | false =>
      cases hsync : r.sync with
      | false =>
        simp only [hsync] at hs
        exact .inr (.inl ⟨rfl, rfl, (Option.some.inj hs).symm⟩)
      | true =>
        simp only [hsync] at hs
        exact .inr (.inr ⟨rfl, rfl, (Option.some.inj hs).symm⟩)

/-- A round of `serve` for a request that expects no reply. -/
theorem Framed.serve_quiet {uuid : Uuid} {full : Bool} {req : Request} {rest : List Request}
    (hrest : Framed { s with inbox := Function.update s.inbox c rest } slot)
    (hthread : s.threads c = .ready) (hin : s.inbox c = req :: rest) (hreply : req.reply = none)
    (hok : s.QueuesAsync (.serve c uuid full)) (hs : s.serve c uuid full = some s') :
    ∃ slot', Framed s' slot' := by
  unfold Server.serve at hs
  simp only [hthread, hin] at hs
  cases req with
  | ping => cases hreply
  | getTask => cases hreply
  | finishTask taskId result =>
    cases hs
    exact hrest.finishTask taskId result
  | labeledInvoke r =>
    have hsync : r.sync = false := by
      by_contra hne
      simp [Request.reply, hne] at hreply
    obtain ⟨-, hcases⟩ := Server.labeledInvoke_cases hs
    rcases hcases with ⟨rfl, -⟩ | ⟨-, -, rfl⟩ | ⟨-, htrue, -⟩
    · -- An unsolicited frame would be written here.
      rw [hok r rest hin rfl] at hsync
      cases hsync
    · exact ⟨slot, hrest.same hrest.consistent hrest.home fun c => rfl⟩
    · rw [hsync] at htrue
      cases htrue
  | updateResource info =>
    cases info with
    | none =>
      cases hs
      exact ⟨slot, hrest⟩
    | some info =>
      cases hs
      exact ⟨slot, hrest.update (s.addr c).ip info⟩
  | dropResource =>
    cases hs
    obtain ⟨slot', hdrop⟩ := hrest.dropResource (s.addr c).ip
    refine ⟨slot', hdrop.same hdrop.consistent hdrop.home fun c' => ?_⟩
    -- The thread has nothing to register, before and after it is closed.
    by_cases hne : c' = c
    · subst hne
      have hready := (Server.terminate_frame (s.manager.remove (s.addr c').ip).1
        { s with inbox := Function.update s.inbox c' rest,
                 manager := (s.manager.remove (s.addr c').ip).2 }).2.2
      simp only [Server.view, Server.dropResource, hready, hthread, Function.update_self,
        Thread.uuid]
    · simp only [Server.view, Function.update_of_ne hne]
  | terminateAll =>
    cases hs
    exact ⟨slot, hrest⟩

/-- A round of `serve` for the request whose reply the peer waits for. -/
theorem Framed.serve_asked (h : Framed s slot) {uuid : Uuid} {full : Bool} {req : Request}
    (hthread : s.threads c = .ready) (hin : s.inbox c = [req]) (hσ : slot c = .asked req)
    (hreply : req.reply ≠ none) (hs : s.serve c uuid full = some s') :
    ∃ slot', Framed s' slot' := by
  have hc := h.describes c
  rw [hσ] at hc
  unfold Server.serve at hs
  simp only [hthread, hin] at hs
  cases req with
  | ping =>
    cases hs
    refine ⟨_, h.move c (σ := .answered (.response .pong)) h.consistent h.home (fun c' hne => ?_) ?_⟩
    · rw [Server.view_write_of_ne _ hne]
      simp [Server.view, hne]
    · rw [Server.view_write_self]
      simpa [Server.view] using hc.answer (.response .pong) rfl
  | getTask =>
    cases hs
    refine ⟨_, h.move c (σ := .idle) (h.consistent.addIdle _ _) (fun w hw => ?_)
      (fun c' hne => ?_) ?_⟩
    · simp only [waiting_addIdle] at hw
      by_cases hw' : (⟨s.addr c, c⟩ : Worker) = w
      · rw [← hw']
      · exact h.home w (by simpa [hw'] using hw)
    · have hnot : (⟨s.addr c, c⟩ : Worker) ≠ ⟨s.addr c', c'⟩ := fun hw =>
        hne (Worker.mk.inj hw).2.symm
      simp [Server.view, hne, waiting_addIdle, hnot, ResourceManager.waitList_addIdle]
    · simpa [Server.view, waiting_addIdle, ResourceManager.waitList_addIdle] using hc.wait rfl
  | labeledInvoke r =>
    have hsync : r.sync = true := by
      by_contra hne
      exact hreply (by simp [Request.reply, hne])
    have hkind : (Request.labeledInvoke r).reply = some .taskReturn := by
      simp [Request.reply, hsync]
    obtain ⟨-, hcases⟩ := Server.labeledInvoke_cases hs
    rcases hcases with ⟨-, rfl⟩ | ⟨-, hfalse, -⟩ | ⟨-, -, rfl⟩
    · refine ⟨_, h.move c (σ := .answered (.taskReturn Server.queueFull)) h.consistent h.home
        (fun c' hne => ?_) ?_⟩
      · rw [Server.view_write_of_ne _ hne]
        simp [Server.view, hne]
      · rw [Server.view_write_self]
        simpa [Server.view] using hc.answer (.taskReturn Server.queueFull) hkind
    · rw [hsync] at hfalse
      cases hfalse
    · refine ⟨_, h.move c (σ := .registering uuid) h.consistent h.home (fun c' hne => ?_) ?_⟩
      · simp [Server.view, hne]
      · simpa [Server.view, Thread.uuid] using hc.accept uuid hkind
  | _ => exact absurd rfl hreply

/-- **A round of `serve`** that does not turn an asynchronous invocation away keeps all connections
in step. -/
theorem Framed.serve (h : Framed s slot) {uuid : Uuid} {full : Bool}
    (hok : s.QueuesAsync (.serve c uuid full)) (hs : s.serve c uuid full = some s') :
    ∃ slot', Framed s' slot' := by
  rcases hthread : s.threads c with _ | u | _
  · rcases hin : s.inbox c with _ | ⟨req, rest⟩
    · simp [Server.serve, hthread, hin] at hs
    · rcases (h.describes c).pop hin with ⟨hreply, hpop⟩ | ⟨hσ, rfl, hreply⟩
      · have hrest : Framed { s with inbox := Function.update s.inbox c rest } slot := by
          refine ⟨h.consistent, h.home, fun c' => ?_⟩
          by_cases hne : c' = c
          · subst hne
            simpa [Server.view] using hpop
          · have := h.describes c'
            simpa [Server.view, hne] using this
        exact hrest.serve_quiet hthread hin hreply hok hs
      · exact h.serve_asked hthread hin hσ hreply hs
  · simp [Server.serve, hthread] at hs
  · simp [Server.serve, hthread] at hs

/-- **One step keeps all connections in step.** -/
theorem Framed.step (h : Framed s slot) {e : Event} (hok : s.QueuesAsync e)
    (hs : s.step e = some s') : ∃ slot', Framed s' slot' := by
  cases e with
  | serve conn uuid full => exact h.serve hok hs
  | register conn => exact h.register hs
  | recv => exact ⟨slot, h.recv hs⟩
  | find next => exact h.find hs
  | dispatch succeeds => exact h.dispatch hs
  | send conn req => exact h.send hs
  | read conn => exact h.read hs

end Serve

/-- At the start nothing is on its way. -/
theorem framed_start (addr : Conn → SocketAddr) (capacity : ℕ) :
    Framed { addr, capacity } fun _ => .free := by
  refine ⟨.empty, fun w hw => ?_, fun c => ?_⟩
  · simp [waiting] at hw
  · refine ⟨⟨[], rfl, by simp⟩, rfl, rfl, rfl, ?_, rfl, ?_, by simp⟩
    · simp [Server.view, waiting]
    · simp [Server.view]

/-- **Connections never fall out of step** as long as no asynchronous invocation finds the queue
full: for every capacity and every order of steps, a frame on a connection is the only one there, and
the peer reads one of its type. -/
theorem Server.Run.inStep [LabelCrate] {addr : Conn → SocketAddr} {capacity : ℕ}
    (hrun : Server.Run Server.QueuesAsync { addr, capacity } s) : s.InStep := by
  obtain ⟨slot, h⟩ := hrun.invariant (P := fun s => ∃ slot, Framed s slot)
    ⟨_, framed_start addr capacity⟩ fun s s' e h hok hs => by
      obtain ⟨slot, h⟩ := h
      exact h.step hok hs
  exact h.outboxes

end Faasten.Sched

namespace Faasten.Sched.Unsolicited

open scoped Dc

/-- The function of the example. -/
def mailer : Function := ⟨1, "mailer", "python", "kernel"⟩

/-- An invocation of it. -/
def invocation (sync : Bool) : LabeledInvoke where
  function := some mailer
  label := some (.ofBuckle publicLabel)
  gatePrivilege := some (.ofComponent .dcTrue)
  payload := []
  blobs := ∅
  headers := ∅
  sync
  invoker := some (.ofComponent .dcTrue)

/-- A scheduler whose queue has room for one task. -/
def scheduler : Server where
  addr c := ⟨c, 1024⟩
  capacity := 1

/-- A worker invokes the function twice without waiting for it, which fills the queue, and then asks
for a task. -/
def events : List Event :=
  [.send 7 (.labeledInvoke (invocation false)), .send 7 (.labeledInvoke (invocation false)),
    .serve 7 1 false, .serve 7 2 true, .send 7 .getTask]

/-- What the scheduler has come to. -/
def after (es : List Event) : Option Server := es.foldlM Server.step scheduler

/-- The worker reads the note that the queue was full where it expects a task. -/
theorem worker_reads_wrong_frame :
    ∃ s, Server.Run (fun _ _ => True) scheduler s ∧
      s.outbox 7 = [.taskReturn Server.queueFull] ∧ (s.peers 7).reading = some .response ∧
      ¬ s.InStep := by
  obtain ⟨s, hafter, hout, hreading⟩ : ∃ s, after events = some s ∧
      s.outbox 7 = [.taskReturn Server.queueFull] ∧ (s.peers 7).reading = some .response :=
    ⟨_, rfl, rfl, rfl⟩
  refine ⟨s, Server.Run.of_events (fun _ _ _ => trivial) hafter, hout, hreading, fun hstep => ?_⟩
  rcases hstep 7 with hnil | ⟨frame, hframe, hkind⟩
  · rw [hout] at hnil
    cases hnil
  · rw [hout] at hframe
    obtain rfl := (List.cons.inj hframe).1
    rw [hreading] at hkind
    cases hkind

/-- With a synchronous second invocation the note is expected. -/
theorem note_expected :
    ∃ s : Server, s.outbox 7 = [.taskReturn Server.queueFull] ∧ s.InStep := by
  obtain ⟨s, hs, hout⟩ : ∃ s, Server.Run Server.QueuesAsync scheduler s ∧
      s.outbox 7 = [.taskReturn Server.queueFull] := by
    refine ⟨_, .step (.step (.step (.step .start
      (.send 7 (.labeledInvoke (invocation false))) trivial rfl)
      (.send 7 (.labeledInvoke (invocation true))) trivial rfl)
      (.serve 7 1 false) (fun _ _ _ h => by cases h) rfl)
      (.serve 7 2 true) (fun r rest h _ => ?_) rfl, rfl⟩
    cases h
    rfl
  exact ⟨s, hout, hs.inStep⟩

end Faasten.Sched.Unsolicited
