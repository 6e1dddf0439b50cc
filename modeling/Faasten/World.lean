import Mathlib
import Faasten.Effect.Prog
import Faasten.Message

/-!
# The state a monitor thread works on

`Thread` is what one thread owns: the thread-locals `CURRENT_LABEL` and `PRIVILEGE` and the fields
of its `SyscallProcessor`. `World` adds what it shares with others: the backing store, the
blobstore, and the connection to the scheduler.

What the code takes from outside is part of the state too, as an arbitrary value:

* `rand` is the stream of values of `rand::random()`;
* `io` is the stream of results of the host's file operations, an error with its text or a number
  of bytes beyond which a read or write is cut short;
* `Host` holds the functions of third-party code and the answers of the scheduler and of external
  endpoints, each a function of everything sent so far on this connection.

`Op` lists the ways in which a program touches this state, and `perform` what each does. Programs
over them are the monad `M`. A Rust function that returns `Err(e)` raises `.err e`; a panic raises
`.panic`; a loop is given a number of rounds, and raises `.diverge` when it has used them all.
-/

namespace Faasten

open Std Effect

/-- `blobstore::Blob`: an open blob. Its file never changes, so its content is part of it. -/
structure OpenBlob where
  name : String
  content : Bytes
  deriving DecidableEq

/-- `blobstore::NewBlob`: the bytes hashed so far, their number, and the bytes in the file. -/
structure NewBlob where
  digest : Bytes := []
  len : ℕ := 0
  file : Bytes := []
  deriving DecidableEq

/-- Code and machines outside the repository. -/
structure Host where
  /-- `strfmt::strfmt` -/
  strfmt : String → ExtTreeMap String String compare → Option String
  /-- whether `reqwest` can build a request to this url -/
  validUrl : String → Bool
  /-- whether `HeaderName::from_bytes` and `HeaderValue::from_bytes` accept a header -/
  validHeader : String → String → Bool
  /-- the hexadecimal digest that names a blob -/
  digestHex : Bytes → String
  /-- whether the next message can be written to the scheduler -/
  schedWrite : List LabeledInvoke → LabeledInvoke → Bool
  /-- the answer read from the scheduler after these messages, if one can be read -/
  schedRead : List LabeledInvoke → Option TaskReturn
  /-- the answer to the last of these requests, if there is one -/
  http : List HttpRequest → Option HttpResponse

/-- The thread-locals of a thread and the tables of its processor. -/
structure Thread where
  currentLabel : Buckle
  privilege : Component
  dents : ℕ → Option DirEntry
  blobs : ℕ → Option OpenBlob
  createBlobs : ℕ → Option NewBlob
  maxDentId : ℕ
  maxBlobId : ℕ

/-- The backing store. -/
abbrev Store := Uid → Option Stored

/-- The store that holds nothing. -/
def Store.empty : Store := fun _ => none

/-- `put`: overwrite what the store holds under a uid. -/
def Store.put (s : Store) (uid : Uid) (v : Stored) : Store := Function.update s uid (some v)

@[simp] theorem Store.put_self (s : Store) (u : Uid) (v : Stored) : s.put u v u = some v :=
  Function.update_self u _ s

@[simp] theorem Store.put_of_ne (s : Store) {u u' : Uid} (v : Stored) (h : u' ≠ u) :
    s.put u v u' = s u' := Function.update_of_ne h _ s

/-- An object found after a `put` is the one that was put, or was there before. -/
theorem Store.of_put {s : Store} {u x : Uid} {v : Stored} {o : Object}
    (h : s.put u v x = some (.object o)) : (x = u ∧ v = .object o) ∨ s x = some (.object o) := by
  by_cases hx : x = u
  · subst hx
    rw [put_self] at h
    exact .inl ⟨rfl, Option.some.inj h⟩
  · rw [put_of_ne _ _ hx] at h
    exact .inr h

@[simp] theorem Store.put_put (s : Store) (u : Uid) (v v' : Stored) :
    (s.put u v).put u v' = s.put u v' := Function.update_idem _ _ s

/-- Everything a thread works on. `requests` pairs each request with the label at its sending. -/
structure World extends Thread where
  store : Store
  blobstore : String → Option Bytes
  rand : Stream' Uid
  io : Stream' (Except Bytes ℕ)
  schedConn : Bool
  invokes : List LabeledInvoke
  requests : List (HttpRequest × Buckle)
  host : Host

/-- A host that formats nothing, and where no answer ever comes. -/
def Host.mute : Host where
  strfmt url _ := some url
  validUrl _ := true
  validHeader _ _ := true
  digestHex _ := ""
  schedWrite _ _ := true
  schedRead _ := none
  http _ := none

/-- A thread on a store, with nothing sent and nobody to answer. -/
def World.quiet (t : Thread) (store : Store) : World where
  toThread := t
  store
  blobstore _ := none
  rand n := .ofNat (100 + n)
  io _ := .ok 0
  schedConn := true
  invokes := []
  requests := []
  host := .mute

/-- A thread that serves no guest. -/
def Thread.idle (label : Buckle) : Thread where
  currentLabel := label
  privilege := .dcTrue
  dents _ := none
  blobs _ := none
  createBlobs _ := none
  maxDentId := 0
  maxBlobId := 0

/-- The world with another current label. -/
@[simps -fullyApplied]
def World.relabel (w : World) (l : Buckle) : World := { w with currentLabel := l }

@[simp] theorem World.relabel_relabel (w : World) (l l' : Buckle) :
    (w.relabel l).relabel l' = w.relabel l' := rfl

/-- The world with the state of another thread in it. -/
def World.withThread (w : World) (t : Thread) : World := { w with toThread := t }

@[simp] theorem World.withThread_toThread (w : World) (t : Thread) :
    (w.withThread t).toThread = t := rfl

@[simp] theorem World.withThread_store (w : World) (t : Thread) :
    (w.withThread t).store = w.store := rfl

/-! ### Operations -/

/-- The operations of a monitor thread. -/
inductive Op
  | thread
  | setThread (t : Thread)
  | get (uid : Uid)
  | put (uid : Uid) (v : Stored)
  | add (uid : Uid) (v : Stored)
  | cas (uid : Uid) (expected : Option Stored) (v : Stored)
  | rand
  | io
  | blobGet (name : String)
  | blobPut (name : String) (content : Bytes)
  | host
  | schedConn
  | schedWrite (m : LabeledInvoke)
  | schedRead
  | http (r : HttpRequest)

/-- The result type of each operation. -/
def Op.Res : Op → Type
  | .thread => Thread
  | .setThread _ => Unit
  | .get _ => Option Stored
  | .put _ _ => Unit
  | .add _ _ => Bool
  | .cas _ _ _ => Except (Option Stored) Unit
  | .rand => Uid
  | .io => Except Bytes ℕ
  | .blobGet _ => Option Bytes
  | .blobPut _ _ => Unit
  | .host => Host
  | .schedConn => Bool
  | .schedWrite _ => Bool
  | .schedRead => Option TaskReturn
  | .http _ => Option HttpResponse

/-- The interface of the monitor. -/
def monitor : Sig := ⟨Op, Op.Res⟩

/-- What an operation does. The operations on the store are those of `fs/lmdb.rs` and
`fs/tikv.rs`, each of them atomic. -/
def perform : (o : Op) → World → o.Res × World
  | .thread, w => (w.toThread, w)
  | .setThread t, w => ((), { w with toThread := t })
  | .get uid, w => (w.store uid, w)
  | .put uid v, w => ((), { w with store := w.store.put uid v })
  | .add uid v, w =>
      match w.store uid with
      | none => (true, { w with store := w.store.put uid v })
      | some _ => (false, w)
  | .cas uid expected v, w =>
      if w.store uid = expected then (.ok (), { w with store := w.store.put uid v })
      else (.error (w.store uid), w)
  | .rand, w => (w.rand.head, { w with rand := w.rand.tail })
  | .io, w => (w.io.head, { w with io := w.io.tail })
  | .blobGet name, w => (w.blobstore name, w)
  | .blobPut name content, w =>
      ((), { w with blobstore := Function.update w.blobstore name (some content) })
  | .host, w => (w.host, w)
  | .schedConn, w => (w.schedConn, w)
  | .schedWrite m, w =>
      if w.host.schedWrite w.invokes m then (true, { w with invokes := w.invokes ++ [m] })
      else (false, w)
  | .schedRead, w => (w.host.schedRead w.invokes, w)
  | .http r, w =>
      (w.host.http (w.requests.map Prod.fst ++ [r]),
        { w with requests := w.requests ++ [(r, w.currentLabel)] })

/-! The world after an operation that does not always change it. -/

theorem perform_add (w : World) (uid : Uid) (v : Stored) :
    (perform (.add uid v) w).2 =
      if w.store uid = none then { w with store := w.store.put uid v } else w := by
  cases h : w.store uid <;> simp only [perform, h] <;> rfl

theorem perform_cas (w : World) (uid : Uid) (e : Option Stored) (v : Stored) :
    (perform (.cas uid e v) w).2 =
      if w.store uid = e then { w with store := w.store.put uid v } else w := by
  simp only [perform]
  split_ifs <;> rfl

theorem perform_schedWrite (w : World) (m : LabeledInvoke) :
    (perform (.schedWrite m) w).2 =
      if w.host.schedWrite w.invokes m then { w with invokes := w.invokes ++ [m] } else w := by
  simp only [perform]
  split_ifs <;> rfl

/-- Running a program of the monitor on a world. -/
def handler : Handler monitor World := ⟨perform⟩

/-! ### The monad of the monitor -/

/-- `fs::LabelError`, as far as it is used. -/
inductive LabelError
  | cannotWrite
  deriving DecidableEq

/-- `fs::PrivilegeError`. -/
inductive PrivilegeError
  | cannotDelegate
  deriving DecidableEq

/-- `fs::GateError`, as far as it is used. -/
inductive GateError
  | cannotInvoke
  deriving DecidableEq

/-- `fs::FsError`, as far as it is used. -/
inductive FsError
  | badPath
  | notADir
  | notAFile
  | notABlob
  | notAGate
  | notAService
  | labelError (e : LabelError)
  | privilegeError (e : PrivilegeError)
  | gateError (e : GateError)
  | nameExists
  | invalidFd
  deriving DecidableEq

/-- How a program can end without a value. -/
inductive Raised
  | err (e : FsError)
  | panic
  | diverge
  deriving DecidableEq

/-- Programs of the monitor. -/
abbrev M := Prog monitor Raised

/-- Run a program on a world. -/
def exec {α : Type} (m : M α) (w : World) : Except Raised α × World := handler.exec m w

/-- The thread-locals and the tables of the processor. -/
def thread : M Thread := .call (S := monitor) .thread

/-- Set the thread-locals and the tables of the processor. -/
def setThread (t : Thread) : M Unit := .call (S := monitor) (.setThread t)

namespace Storage

/-- `storage.get` -/
def get (uid : Uid) : M (Option Stored) := .call (S := monitor) (.get uid)

/-- `storage.put` -/
def put (uid : Uid) (v : Stored) : M Unit := .call (S := monitor) (.put uid v)

/-- `storage.add` -/
def add (uid : Uid) (v : Stored) : M Bool := .call (S := monitor) (.add uid v)

/-- `storage.cas` -/
def cas (uid : Uid) (expected : Option Stored) (v : Stored) : M (Except (Option Stored) Unit) :=
  .call (S := monitor) (.cas uid expected v)

end Storage

/-- `rand::random()` -/
def random : M Uid := .call (S := monitor) .rand

/-- The result of the next file operation of the host. -/
def nextIo : M (Except Bytes ℕ) := .call (S := monitor) .io

/-- The file at the path of a blob. -/
def blobGet (name : String) : M (Option Bytes) := .call (S := monitor) (.blobGet name)

/-- Move a file to the path of a blob. -/
def blobPut (name : String) (content : Bytes) : M Unit := .call (S := monitor) (.blobPut name content)

/-- The code and machines outside. -/
def host : M Host := .call (S := monitor) .host

/-- Whether there is a connection to the scheduler. -/
def schedConn : M Bool := .call (S := monitor) .schedConn

/-- Write a message to the scheduler. -/
def schedWrite (m : LabeledInvoke) : M Bool := .call (S := monitor) (.schedWrite m)

/-- Read an answer of the scheduler. -/
def schedRead : M (Option TaskReturn) := .call (S := monitor) .schedRead

/-- Send a request to an external endpoint. -/
def httpRequest (r : HttpRequest) : M (Option HttpResponse) := .call (S := monitor) (.http r)

/-- `Err(e)?` -/
def throwFs {α : Type} (e : FsError) : M α := .raise (.err e)

/-- A panic of the thread. -/
def panic {α : Type} : M α := .raise .panic

/-- A loop that has used all its rounds. -/
def diverge {α : Type} : M α := .raise .diverge

/-- `unwrap`, `expect`: panic on `None`. -/
def unwrap {α : Type} : Option α → M α
  | some a => pure a
  | none => panic

/-- The `Result` of a function as a value. -/
def result {α : Type} (m : M α) : M (Except FsError α) :=
  m.attempt fun
    | .err e => some e
    | _ => none

section Exec

variable {α β : Type} (w : World) (uid : Uid) (v : Stored)

@[simp] theorem exec_pure (a : α) : exec (pure a : M α) w = (.ok a, w) := rfl

theorem exec_bind (m : M α) (f : α → M β) :
    exec (m >>= f) w =
      match exec m w with
      | (.ok a, w') => exec (f a) w'
      | (.error e, w') => (.error e, w') := by
  refine (handler.exec_bind m f w).trans ?_
  unfold exec
  rcases handler.exec m w with ⟨e | a, w'⟩ <;> rfl

theorem exec_bind_ok {m : M α} {f : α → M β} {w w' : World} {a : α}
    (h : exec m w = (.ok a, w')) : exec (m >>= f) w = exec (f a) w' := handler.exec_bind_ok h

theorem exec_bind_error {m : M α} {f : α → M β} {w w' : World} {e : Raised}
    (h : exec m w = (.error e, w')) : exec (m >>= f) w = (.error e, w') :=
  handler.exec_bind_error h

/-- A run that returns a value runs both parts to a value. -/
theorem exec_bind_eq_ok {m : M α} {f : α → M β} {w w'' : World} {b : β}
    (h : exec (m >>= f) w = (.ok b, w'')) :
    ∃ a w', exec m w = (.ok a, w') ∧ exec (f a) w' = (.ok b, w'') := by
  rcases hm : exec m w with ⟨e | a, w'⟩
  · rw [exec_bind_error hm] at h; cases h
  · rw [exec_bind_ok hm] at h; exact ⟨a, w', rfl, h⟩

@[simp] theorem exec_thread : exec thread w = (.ok w.toThread, w) := rfl

@[simp] theorem exec_setThread (t : Thread) :
    exec (setThread t) w = (.ok (), { w with toThread := t }) := rfl

@[simp] theorem exec_get : exec (Storage.get uid) w = (.ok (w.store uid), w) := rfl

@[simp] theorem exec_put :
    exec (Storage.put uid v) w = (.ok (), { w with store := w.store.put uid v }) := rfl

theorem exec_add :
    exec (Storage.add uid v) w =
      if w.store uid = none then (.ok true, { w with store := w.store.put uid v })
      else (.ok false, w) := by
  change (Except.ok (perform (.add uid v) w).1, (perform (.add uid v) w).2) = _
  cases h : w.store uid <;> simp only [perform, h] <;> rfl

theorem exec_cas (expected : Option Stored) :
    exec (Storage.cas uid expected v) w =
      if w.store uid = expected then (.ok (.ok ()), { w with store := w.store.put uid v })
      else (.ok (.error (w.store uid)), w) := by
  change (Except.ok (perform (.cas uid expected v) w).1, (perform (.cas uid expected v) w).2) = _
  simp only [perform]
  split_ifs <;> rfl

@[simp] theorem exec_random :
    exec random w = (.ok w.rand.head, { w with rand := w.rand.tail }) := rfl

@[simp] theorem exec_nextIo : exec nextIo w = (.ok w.io.head, { w with io := w.io.tail }) := rfl

@[simp] theorem exec_blobGet (name : String) : exec (blobGet name) w = (.ok (w.blobstore name), w) :=
  rfl

@[simp] theorem exec_blobPut (name : String) (content : Bytes) :
    exec (blobPut name content) w =
      (.ok (), { w with blobstore := Function.update w.blobstore name (some content) }) := rfl

@[simp] theorem exec_host : exec host w = (.ok w.host, w) := rfl

@[simp] theorem exec_schedConn : exec schedConn w = (.ok w.schedConn, w) := rfl

theorem exec_schedWrite (m : LabeledInvoke) :
    exec (schedWrite m) w =
      if w.host.schedWrite w.invokes m then (.ok true, { w with invokes := w.invokes ++ [m] })
      else (.ok false, w) := by
  change (Except.ok (perform (.schedWrite m) w).1, (perform (.schedWrite m) w).2) = _
  simp only [perform]
  split_ifs <;> rfl

@[simp] theorem exec_schedRead :
    exec schedRead w = (.ok (w.host.schedRead w.invokes), w) := rfl

@[simp] theorem exec_httpRequest (r : HttpRequest) :
    exec (httpRequest r) w =
      (.ok (w.host.http (w.requests.map Prod.fst ++ [r])),
        { w with requests := w.requests ++ [(r, w.currentLabel)] }) := rfl

end Exec

/-- The result of `result m` from the result of `m`. -/
def asResult {α : Type} : Except Raised α → Except Raised (Except FsError α)
  | .ok a => .ok (.ok a)
  | .error (.err e) => .ok (.error e)
  | .error e => .error e

theorem exec_result {α : Type} (m : M α) (w : World) :
    exec (result m) w = (asResult (exec m w).1, (exec m w).2) := by
  refine (handler.exec_attempt _ m w).trans (Prod.ext ?_ rfl)
  change Handler.caught _ (handler.exec m w).1 = asResult (handler.exec m w).1
  rcases (handler.exec m w).1 with e | a
  · cases e <;> rfl
  · rfl

theorem result_ok {α : Type} {m : M α} {w w' : World} {a : α}
    (h : exec (result m) w = (.ok (.ok a), w')) : exec m w = (.ok a, w') := by
  rw [exec_result] at h
  rcases hm : exec m w with ⟨e | b, w₁⟩
  · rw [hm] at h
    cases e <;> simp [asResult] at h
  · rw [hm] at h
    cases h; rfl

@[simp] theorem exec_panic {α : Type} (w : World) : exec (panic : M α) w = (.error .panic, w) :=
  rfl

@[simp] theorem exec_diverge {α : Type} (w : World) :
    exec (diverge : M α) w = (.error .diverge, w) := rfl

@[simp] theorem exec_unwrap_some {α : Type} (a : α) (w : World) :
    exec (unwrap (some a)) w = (.ok a, w) := rfl

theorem unwrap_ok {α : Type} {a : Option α} {b : α} {w w' : World}
    (h : exec (unwrap a) w = (.ok b, w')) : a = some b ∧ w' = w := by
  cases a with
  | none => cases h
  | some a => cases h; exact ⟨rfl, rfl⟩

@[simp] theorem exec_unwrap_none {α : Type} (w : World) :
    exec (unwrap (none : Option α)) w = (.error .panic, w) := rfl

end Faasten
