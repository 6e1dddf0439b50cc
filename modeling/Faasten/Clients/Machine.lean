import Mathlib
import Faasten.Effect.Concurrent
import Faasten.Fs.Operations

/-!
# Clients of one store

Threads of the monitor that share a world, interleaved one operation at a time. A process of the
index type `ι` is one invocation of a function, together with the thread state it starts with: a
thread that makes several calls is several invocations, each of which takes its first step after the
one before it has ended, and starts with the label that that one left.

Two things are recorded beside the world, and read by no operation:

* `log`, the accesses to the store, the last one first, each with the store it found;
* `owner`, which says for each uid that was reserved by an `add` who reserved it.

The second half has the rules for the functions that only touch the thread's own label, under any
discipline that asks nothing of them (`Calm`).
-/

namespace Faasten

open Std Effect

/-- One access to the store: who made it, what it was, and what the store held before. -/
structure StoreAccess (ι : Type) where
  client : ι
  op : Op
  before : Store

/-- The operations on the store. -/
def Op.onStore : Op → Bool
  | .get _ => true
  | .put _ _ => true
  | .add _ _ => true
  | .cas _ _ _ => true
  | _ => false

/-- What the invocations share, and the record of what they did. -/
structure Shared (ι : Type) where
  world : World
  owner : Uid → Option ι
  log : List (StoreAccess ι)

namespace Shared

variable {ι : Type}

/-- A world on which nothing has been done yet. -/
def start (w : World) : Shared ι where
  world := w
  owner _ := none
  log := []

/-- The backing store. -/
def store (s : Shared ι) : Store := s.world.store

@[simp] theorem start_store (w : World) : (start w : Shared ι).store = w.store := rfl

/-- The owners after `i` performed `o`. -/
def ownerAfter (s : Shared ι) (i : ι) : Op → Uid → Option ι
  | .add u _ => if s.store u = none then Function.update s.owner u (some i) else s.owner
  | _ => s.owner

/-- The record after `i` performed `o`. -/
def logAfter (s : Shared ι) (i : ι) (o : Op) : List (StoreAccess ι) :=
  if o.onStore then ⟨i, o, s.store⟩ :: s.log else s.log

/-- The shared state after `i` performed `o`, which made the world `w`. No thread is left in it. -/
def after (s : Shared ι) (i : ι) (o : Op) (w : World) : Shared ι where
  world := w.withThread s.world.toThread
  owner := s.ownerAfter i o
  log := s.logAfter i o

end Shared

/-- The invocations as processes on the shared world. -/
def clients (ι : Type) : Machine monitor ι Thread (Shared ι) where
  perform i o t s :=
    ((perform o (s.world.withThread t)).1, (perform o (s.world.withThread t)).2.toThread,
      s.after i o (perform o (s.world.withThread t)).2)

/-! ### The effect of each operation -/

section Effects

variable {ι : Type} (i : ι) (t : Thread) (s : Shared ι)

@[simp] theorem clients_thread : (clients ι).perform i .thread t s = (t, t, s) := rfl

@[simp] theorem clients_setThread (t' : Thread) :
    (clients ι).perform i (.setThread t') t s = ((), t', s) := rfl

/-- The shared state after an access that leaves the store as it is. -/
def Shared.accessed (o : Op) : Shared ι := { s with log := ⟨i, o, s.store⟩ :: s.log }

/-- The shared state after an access that writes to the store. -/
def Shared.written (o : Op) (u : Uid) (v : Stored) : Shared ι :=
  { s with world := { s.world with store := s.store.put u v }
           log := ⟨i, o, s.store⟩ :: s.log }

/-- The shared state after `i` reserved `u`. -/
def Shared.claimed (u : Uid) (v : Stored) : Shared ι :=
  { s with world := { s.world with store := s.store.put u v }
           owner := Function.update s.owner u (some i)
           log := ⟨i, .add u v, s.store⟩ :: s.log }

@[simp] theorem Shared.accessed_store (o : Op) : (s.accessed i o).store = s.store := rfl

@[simp] theorem Shared.accessed_owner (o : Op) : (s.accessed i o).owner = s.owner := rfl

@[simp] theorem Shared.accessed_log (o : Op) :
    (s.accessed i o).log = ⟨i, o, s.store⟩ :: s.log := rfl

@[simp] theorem Shared.written_store (o : Op) (u : Uid) (v : Stored) :
    (s.written i o u v).store = s.store.put u v := rfl

@[simp] theorem Shared.written_owner (o : Op) (u : Uid) (v : Stored) :
    (s.written i o u v).owner = s.owner := rfl

@[simp] theorem Shared.written_log (o : Op) (u : Uid) (v : Stored) :
    (s.written i o u v).log = ⟨i, o, s.store⟩ :: s.log := rfl

@[simp] theorem Shared.claimed_store (u : Uid) (v : Stored) :
    (s.claimed i u v).store = s.store.put u v := rfl

@[simp] theorem Shared.claimed_owner (u : Uid) (v : Stored) :
    (s.claimed i u v).owner = Function.update s.owner u (some i) := rfl

@[simp] theorem Shared.claimed_log (u : Uid) (v : Stored) :
    (s.claimed i u v).log = ⟨i, .add u v, s.store⟩ :: s.log := rfl

@[simp] theorem clients_get (u : Uid) :
    (clients ι).perform i (.get u) t s = (s.store u, t, s.accessed i (.get u)) := rfl

@[simp] theorem clients_put (u : Uid) (v : Stored) :
    (clients ι).perform i (.put u v) t s = ((), t, s.written i (.put u v) u v) := rfl

theorem clients_add (u : Uid) (v : Stored) :
    (clients ι).perform i (.add u v) t s =
      if s.store u = none then (true, t, s.claimed i u v)
      else (false, t, s.accessed i (.add u v)) := by
  simp only [clients, perform, Shared.after, Shared.ownerAfter, Shared.logAfter, Op.onStore,
    World.withThread_store]
  change _ = if s.world.store u = none then _ else _
  cases h : s.world.store u with
  | none =>
    simp only [Shared.store, h, if_true]
    rfl
  | some x =>
    simp only [Shared.store, h, if_false, reduceCtorEq]
    rfl

theorem clients_cas (u : Uid) (x : Option Stored) (v : Stored) :
    (clients ι).perform i (.cas u x v) t s =
      if s.store u = x then (.ok (), t, s.written i (.cas u x v) u v)
      else (.error (s.store u), t, s.accessed i (.cas u x v)) := by
  change _ = if s.world.store u = x then _ else _
  by_cases h : s.world.store u = x
  · simp only [clients, perform, Shared.after, World.withThread_store, h, if_true]
    rfl
  · simp only [clients, perform, Shared.after, World.withThread_store, h, if_false]
    rfl

end Effects

/-! ### Rules -/

section Rules

variable {ι α β : Type} {D : Discipline (clients ι)} {i : ι} {t : Thread} {s : Shared ι}
  {Q : Except Raised α → Thread → Shared ι → Prop}

/-- The discipline asks nothing of an operation that only reads, or that changes the label. -/
structure Calm (D : Discipline (clients ι)) : Prop where
  thread : ∀ i t s, D.guar i .thread t s
  relabel : ∀ i t s l, D.guar i (.setThread { t with currentLabel := l }) t s
  get : ∀ i u t s, D.guar i (.get u) t s
  rand : ∀ i t s, D.guar i .rand t s

theorem steady_thread (hD : Calm D) {f : Thread → M α} (h : D.Steady i Q (f t) t s) :
    D.Steady i Q (thread >>= f) t s :=
  Discipline.Steady.call_bind fun s' hs => ⟨hD.thread i t s', h.later hs⟩

theorem steady_setThread {t' : Thread} {f : Unit → M α}
    (hg : ∀ s', D.Later i t s s' → D.guar i (.setThread t') t s')
    (h : D.Steady i Q (f ()) t' s) : D.Steady i Q (setThread t' >>= f) t s :=
  Discipline.Steady.call_bind fun s' hs =>
    ⟨hg s' hs, h.later ⟨hs.env, hs.inv, D.own_step (o := .setThread t') hs.inv hs.own (hg s' hs)⟩⟩

theorem steady_get {u : Uid} (hD : Calm D) {f : Option Stored → M α}
    (h : ∀ s', D.Later i t s s' → D.Steady i Q (f (s'.store u)) t (s'.accessed i (.get u))) :
    D.Steady i Q (Storage.get u >>= f) t s :=
  Discipline.Steady.call_bind fun s' hs => ⟨hD.get i u t s', h s' hs⟩

theorem steady_objectGet {T : Type} [Codec T] {u : Uid} (hD : Calm D) {f : Option T → M α}
    (h : ∀ s', D.Later i t s s' →
      D.Steady i Q (f ((s'.store u).bind Stored.decode)) t (s'.accessed i (.get u))) :
    D.Steady i Q (ObjectRef.get T u >>= f) t s := steady_get hD h

theorem steady_put {u : Uid} {v : Stored} {f : Unit → M α}
    (h : ∀ s', D.Later i t s s' → D.guar i (.put u v) t s' ∧
      D.Steady i Q (f ()) t (s'.written i (.put u v) u v)) :
    D.Steady i Q (Storage.put u v >>= f) t s := Discipline.Steady.call_bind h

theorem steady_add {u : Uid} {v : Stored} {f : Bool → M α}
    (hg : ∀ s', D.Later i t s s' → D.guar i (.add u v) t s')
    (hnew : ∀ s', D.Later i t s s' → s'.store u = none →
      D.Steady i Q (f true) t (s'.claimed i u v))
    (hold : ∀ s', D.Later i t s s' → s'.store u ≠ none →
      D.Steady i Q (f false) t (s'.accessed i (.add u v))) :
    D.Steady i Q (Storage.add u v >>= f) t s := by
  refine Discipline.Steady.call_bind fun s' hs => ⟨hg s' hs, ?_⟩
  rw [clients_add]
  split_ifs with hu
  · exact hnew s' hs hu
  · exact hold s' hs hu

theorem steady_cas {u : Uid} {x : Option Stored} {v : Stored}
    {f : Except (Option Stored) Unit → M α}
    (hg : ∀ s', D.Later i t s s' → D.guar i (.cas u x v) t s')
    (hswap : ∀ s', D.Later i t s s' → s'.store u = x →
      D.Steady i Q (f (.ok ())) t (s'.written i (.cas u x v) u v))
    (hfail : ∀ s', D.Later i t s s' → s'.store u ≠ x →
      D.Steady i Q (f (.error (s'.store u))) t (s'.accessed i (.cas u x v))) :
    D.Steady i Q (Storage.cas u x v >>= f) t s := by
  refine Discipline.Steady.call_bind fun s' hs => ⟨hg s' hs, ?_⟩
  rw [clients_cas]
  split_ifs with hu
  · exact hswap s' hs hu
  · exact hfail s' hs hu

theorem steady_objectCas {T : Type} [Codec T] {u : Uid} {x : Option T} {v : T}
    {f : Except (Option T) Unit → M α}
    (hg : ∀ s', D.Later i t s s' → D.guar i (.cas u (x.map .encode) (.encode v)) t s')
    (hswap : ∀ s', D.Later i t s s' → s'.store u = x.map .encode →
      D.Steady i Q (f (.ok ())) t (s'.written i (.cas u (x.map .encode) (.encode v)) u (.encode v)))
    (hfail : ∀ s', D.Later i t s s' → s'.store u ≠ x.map .encode →
      D.Steady i Q (f (.error ((s'.store u).bind Stored.decode))) t
        (s'.accessed i (.cas u (x.map .encode) (.encode v)))) :
    D.Steady i Q (ObjectRef.cas u x v >>= f) t s := by
  rw [ObjectRef.cas, bind_assoc]
  exact steady_cas hg hswap hfail

/-- The label of a thread, changed. -/
def Thread.relabel (t : Thread) (l : Buckle) : Thread := { t with currentLabel := l }

theorem steady_withCurrentLabel (hD : Calm D) {m : Access Buckle β} {f : β → M α} {b : β}
    {l : Buckle} (hm : m.run t.currentLabel = some (b, l))
    (h : D.Steady i Q (f b) (t.relabel l) s) : D.Steady i Q (withCurrentLabel m >>= f) t s := by
  rw [withCurrentLabel, bind_assoc]
  refine steady_thread hD ?_
  simp only [hm]
  exact steady_setThread (f := fun _ => f b) (fun s' _ => hD.relabel i t s' l) h

theorem steady_getPrivilege (hD : Calm D) {f : Component → M α}
    (h : D.Steady i Q (f t.privilege) t s) : D.Steady i Q (getPrivilege >>= f) t s :=
  steady_thread hD h

theorem steady_getCurrentLabel (hD : Calm D) {f : Buckle → M α}
    (h : D.Steady i Q (f t.currentLabel) t s) : D.Steady i Q (getCurrentLabel >>= f) t s :=
  steady_withCurrentLabel hD rfl h

theorem steady_unwrap {a : Option β} {f : β → M α}
    (hsome : ∀ b, a = some b → D.Steady i Q (f b) t s)
    (hnone : a = none → ∀ s', D.Later i t s s' → Q (.error .panic) t s') :
    D.Steady i Q (unwrap a >>= f) t s := by
  cases a with
  | none => exact hnone rfl
  | some b => exact hsome b rfl

variable [LabelCrate]

theorem steady_unlabel {T : Type} (hD : Calm D) {o : Labeled T} {f : T → M α}
    (h : D.Steady i Q (f o.data) (t.relabel (lub o.label t.currentLabel)) s) :
    D.Steady i Q (o.unlabel >>= f) t s := steady_withCurrentLabel hD rfl h

theorem steady_write {T : Type} (hD : Calm D) {o : Labeled T} {v : T} {f : Labeled T → M α}
    (hok : canFlowToWithPrivilege t.currentLabel o.label t.privilege →
      D.Steady i Q (f { o with data := v }) t s)
    (herr : ¬canFlowToWithPrivilege t.currentLabel o.label t.privilege →
      ∀ s', D.Later i t s s' → Q (.error (.err (.labelError .cannotWrite))) t s') :
    D.Steady i Q (o.write v >>= f) t s := by
  rw [Labeled.write, bind_assoc]
  refine steady_getCurrentLabel hD ?_
  rw [bind_assoc]
  refine steady_getPrivilege hD ?_
  change D.Steady i Q ((if canFlowToWithPrivilege t.currentLabel o.label t.privilege then
    pure { o with data := v } else throwFs (.labelError .cannotWrite)) >>= f) t s
  split_ifs with hf
  · exact hok hf
  · exact herr hf

theorem steady_modify {T R : Type} (hD : Calm D) {o : Labeled T} {g : T → R × T}
    {f : R × Labeled T → M α}
    (hok : canFlowToWithPrivilege (lub o.label t.currentLabel) o.label t.privilege →
      D.Steady i Q (f ((g o.data).1, { o with data := (g o.data).2 }))
        (t.relabel (lub o.label t.currentLabel)) s)
    (herr : ¬canFlowToWithPrivilege (lub o.label t.currentLabel) o.label t.privilege →
      ∀ s', D.Later i (t.relabel (lub o.label t.currentLabel)) s s' →
        Q (.error (.err (.labelError .cannotWrite))) (t.relabel (lub o.label t.currentLabel)) s') :
    D.Steady i Q (o.modify g >>= f) t s := by
  rw [Labeled.modify, bind_assoc]
  refine steady_withCurrentLabel hD rfl ?_
  rw [bind_assoc]
  refine steady_getCurrentLabel hD ?_
  rw [bind_assoc]
  refine steady_getPrivilege hD ?_
  change D.Steady i Q ((if canFlowToWithPrivilege (lub o.label t.currentLabel) o.label t.privilege
    then pure ((g o.data).1, { o with data := (g o.data).2 })
    else throwFs (.labelError .cannotWrite)) >>= f) _ s
  split_ifs with hf
  · exact hok hf
  · exact herr hf

end Rules

end Faasten
