import Mathlib
import Faasten.Effect.Interpret
import Faasten.Syscall.Descriptors

/-!
# The Python runtime

The part of `runtimes/python3/syscalls.py` that keeps descriptors and reads blobs. A script of the guest
sends syscalls and reads the replies to them, and may raise exceptions. `answer` is the processor at the
other end: a script that is served by it gets the reply to each syscall before it goes on. A syscall that
makes the processor panic is never answered.

* `Directory.openAt`, `BlobEntry.get` and `createBlob`, the context managers: what a `with` statement does
  with a body under it;
* `Blob`, an open blob with the offset of the guest, and its `read` and `seek`.

The numbers of a message are unsigned and of 64 bits: a message with a larger one cannot be made.
-/

namespace Faasten

open Effect

namespace Python

/-- The exceptions of a script. -/
inductive PyError
  | openError
  | noSuchBlob
  | createBlobError
  | readBlobError
  | valueError
  | raised (name : String)
  deriving DecidableEq

/-- The interface of a script. -/
def cloudCalls : Sig := ⟨Pb.Syscall, fun _ => Pb.Reply⟩

/-- Scripts of the guest. -/
abbrev Script := Prog cloudCalls PyError

/-- `_send` and `_recv` -/
def send (sc : Pb.Syscall) : Script Pb.Reply := .call (S := cloudCalls) sc

/-- `raise` -/
def throwPy {α : Type} (e : PyError) : Script α := .raise e

/-- The processor, as a script sees it. After a `Response` the guest is gone. -/
def answer [LabelCrate] (rounds : ℕ) (sc : Pb.Syscall) : M Pb.Reply := do
  match ← SyscallProcessor.doSyscall rounds sc with
  | .sent reply => return reply
  | .returned _ => panic

/-- Run a script to its end, with the processor at the other end. -/
def play [LabelCrate] {α : Type} (rounds : ℕ) (m : Script α) (w : World) :
    Except Raised (Except PyError α) × World := exec (m.served (answer rounds)) w

section Play

variable [LabelCrate] {α β : Type} {rounds : ℕ} {w w' : World} {sc : Pb.Syscall}

@[simp] theorem play_pure (a : α) (w : World) :
    play rounds (pure a) w = (.ok (.ok a), w) := rfl

@[simp] theorem play_throwPy (e : PyError) (w : World) :
    play rounds (throwPy e : Script α) w = (.ok (.error e), w) := rfl

/-- A reply is what a syscall sends. -/
theorem answer_ok {reply : Pb.Reply} :
    exec (answer rounds sc) w = (.ok reply, w') ↔
      exec (SyscallProcessor.doSyscall rounds sc) w = (.ok (.sent reply), w') := by
  constructor
  · intro h
    obtain ⟨o, w₁, hdo, h⟩ := exec_bind_eq_ok h
    cases o with
    | sent reply' =>
      cases h
      exact hdo
    | returned res => cases h
  · intro h
    exact exec_bind_ok h

/-- What follows a syscall goes on with the reply. -/
theorem play_send {reply : Pb.Reply} (h : exec (answer rounds sc) w = (.ok reply, w'))
    (f : Pb.Reply → Script α) : play rounds (send sc >>= f) w = play rounds (f reply) w' :=
  Handler.exec_served_bind_ok (Handler.exec_served_call h)

theorem send_ok {f : Pb.Reply → Script α} {r : Except PyError α}
    (h : play rounds (send sc >>= f) w = (.ok r, w')) :
    ∃ reply w₁, exec (answer rounds sc) w = (.ok reply, w₁) ∧
      play rounds (f reply) w₁ = (.ok r, w') := Handler.served_call_bind h

theorem play_bind_ok {m : Script α} {f : α → Script β} {a : α}
    (h : play rounds m w = (.ok (.ok a), w')) :
    play rounds (m >>= f) w = play rounds (f a) w' := Handler.exec_served_bind_ok h

theorem play_bind_eq_ok {m : Script α} {f : α → Script β} {r : Except PyError β}
    (h : play rounds (m >>= f) w = (.ok r, w')) :
    (∃ a w₁, play rounds m w = (.ok (.ok a), w₁) ∧ play rounds (f a) w₁ = (.ok r, w')) ∨
      ∃ e, play rounds m w = (.ok (.error e), w') ∧ r = .error e := Handler.served_bind_ok h

/-- What each reply does along a reflexive and transitive relation, the script does. -/
theorem play_rel {P : Pb.Syscall → Prop} {R : World → World → Prop} [Std.Refl R] [IsTrans World R]
    (hR : ∀ {sc reply w w'}, P sc → exec (answer rounds sc) w = (.ok reply, w') → R w w')
    {m : Script α} (hm : m.Only P) {r : Except PyError α} (h : play rounds m w = (.ok r, w')) :
    R w w' := by
  have hop : ∀ sc : cloudCalls.Op, P sc → ∀ s reply t,
      handler.exec (answer rounds sc) s = (.ok reply, t) → R s t :=
    fun sc hsc s reply t hanswer => hR hsc hanswer
  exact hm.served_rel hop h

end Play

/-! ### Context managers -/

/-- The loop of `Directory.open_at`. -/
def openPath : ℕ → DentKind → List String → Script (ℕ × DentKind)
  | curDent, curKind, [] => return (curDent, curKind)
  | curDent, _, component :: path => do
      match ← send (.dentOpen curDent (some (.name component))) with
      | .dentOpenResult true fd kind => openPath fd kind path
      | _ => throwPy .openError

/-- `with dir.open_at(path) as entry: body(entry)`. An exception of the body skips what follows it. -/
def Directory.openAt {α : Type} (dir : ℕ) (path : List String) (body : ℕ → DentKind → Script α) :
    Script α := do
  let (curDent, curKind) ← openPath dir .dentDirectory path
  let a ← body curDent curKind
  let _ ← send (.dentClose curDent)
  return a

/-- `class Blob` -/
structure Blob where
  fd : ℕ
  length : ℕ
  offset : ℕ := 0
  deriving DecidableEq

/-- `with entry.get() as blob: body(blob)` -/
def BlobEntry.get {α : Type} (entry : ℕ) (body : Blob → Script α) : Script α := do
  match ← send (.dentGetBlob entry) with
  | .blobResult true fd length _ => body { fd, length }
  | _ => throwPy .noSuchBlob

/-- `with create_blob(size) as newblob: body(newblob)`. At the end the request that created the blob is
sent once more. -/
def createBlob {α : Type} (size : Option ℕ) (body : ℕ → Script α) : Script α := do
  let req := Pb.Syscall.blobCreate size
  match ← send req with
  | .blobResult true fd _ _ =>
      let a ← body fd
      let _ ← send req
      return a
  | _ => throwPy .createBlobError

/-! ### Reading a blob -/

/-- A number that fits into a field of a message. -/
def uint64 (n : ℕ) : Script ℕ := if n < 2 ^ 64 then return n else throwPy .valueError

/-- A field that may be left out. -/
def optionalUint64 : Option ℕ → Script (Option ℕ)
  | some n => do return some (← uint64 n)
  | none => return none

/-- `Blob._blob_read` -/
def Blob.blobRead (blob : Blob) (length : Option ℕ) : Script Bytes := do
  let offset ← uint64 blob.offset
  let length ← optionalUint64 length
  match ← send (.blobRead blob.fd (some offset) length) with
  | .blobResult true _ _ data => return data.getD []
  | _ => throwPy .readBlobError

/-- The loop of `Blob.read(size)`, with `size` bytes to go and `buf` read already. -/
def Blob.readLoop (blob : Blob) (size : ℕ) (buf : Bytes) : Script (Bytes × Blob) :=
  if 0 < size then do
    let data ← blob.blobRead (some size)
    if data.length = 0 then return (buf, blob)
    else
      let blob := { blob with offset := blob.offset + data.length }
      blob.readLoop (size - data.length) (buf ++ data)
  else return (buf, blob)
termination_by size

/-- `Blob.read`: the data, and the blob with its new offset. -/
def Blob.read (blob : Blob) : Option ℤ → Script (Bytes × Blob)
  | none => do
      let data ← blob.blobRead none
      return (data, { blob with offset := blob.offset + data.length })
  | some size => blob.readLoop size.toNat []

end Python

end Faasten
