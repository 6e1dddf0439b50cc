import Mathlib
import Faasten.World

/-!
# The tables of a processor and the blobstore

A `SyscallProcessor` keeps three tables under increasing descriptors: `dents` for directory entries,
`blobs` for open blobs and `create_blobs` for blobs being written. The functions here are the
accesses to them that `syscall_server.rs` makes, and the operations of `blobstore/mod.rs`.
-/

namespace Faasten

/-- Read from the thread's tables. -/
def inspect {α : Type} (f : Thread → α) : M α := do return f (← thread)

/-- Change the thread's tables. -/
def amend (f : Thread → Thread) : M Unit := do setThread (f (← thread))

@[simp] theorem exec_inspect {α : Type} (f : Thread → α) (w : World) :
    exec (inspect f) w = (.ok (f w.toThread), w) := rfl

@[simp] theorem exec_amend (f : Thread → Thread) (w : World) :
    exec (amend f) w = (.ok (), { w with toThread := f w.toThread }) := rfl

namespace Thread

variable (t : Thread)

/-- `dents.insert(max_dent_id, entry)` and one more descriptor used. -/
@[simps -fullyApplied]
def addDent (entry : DirEntry) : Thread :=
  { t with dents := Function.update t.dents t.maxDentId (some entry)
           maxDentId := t.maxDentId + 1 }

/-- `dents.remove(fd)` -/
@[simps -fullyApplied]
def closeDent (fd : ℕ) : Thread := { t with dents := Function.update t.dents fd none }

/-- `max_blob_id += 1` -/
@[simps -fullyApplied]
def nextBlob : Thread := { t with maxBlobId := t.maxBlobId + 1 }

/-- `blobs.insert(fd, blob)` -/
@[simps -fullyApplied]
def putBlob (fd : ℕ) (blob : OpenBlob) : Thread :=
  { t with blobs := Function.update t.blobs fd (some blob) }

/-- `blobs.remove(fd)` -/
@[simps -fullyApplied]
def closeBlob (fd : ℕ) : Thread := { t with blobs := Function.update t.blobs fd none }

/-- `create_blobs.insert(fd, newblob)` -/
@[simps -fullyApplied]
def putNewBlob (fd : ℕ) (blob : NewBlob) : Thread :=
  { t with createBlobs := Function.update t.createBlobs fd (some blob) }

/-- `create_blobs.remove(fd)` -/
@[simps -fullyApplied]
def closeNewBlob (fd : ℕ) : Thread :=
  { t with createBlobs := Function.update t.createBlobs fd none }

end Thread

/-- `dents.get(fd)` -/
def dent (fd : ℕ) : M (Option DirEntry) := inspect (·.dents fd)

/-- Put an entry under a new descriptor. -/
def newDent (entry : DirEntry) : M ℕ := do
  let resId ← inspect (·.maxDentId)
  amend (·.addDent entry)
  return resId

/-- A new descriptor for a blob. -/
def newBlobId : M ℕ := do
  let blobId ← inspect (·.maxBlobId)
  amend (·.nextBlob)
  return blobId

@[simp] theorem exec_dent (fd : ℕ) (w : World) : exec (dent fd) w = (.ok (w.dents fd), w) := rfl

@[simp] theorem exec_newDent (entry : DirEntry) (w : World) :
    exec (newDent entry) w =
      (.ok w.maxDentId, { w with toThread := w.toThread.addDent entry }) := rfl

@[simp] theorem exec_newBlobId (w : World) :
    exec newBlobId w = (.ok w.maxBlobId, { w with toThread := w.toThread.nextBlob }) := rfl

/-! ### The blobstore -/

namespace Blobstore

/-- `Blobstore::create` -/
def create : M (Except Bytes NewBlob) := do
  match ← nextIo with
  | .ok _ => return .ok {}
  | .error e => return .error e

/-- Whether `name.split_at(2)` is possible: byte 2 is a character boundary of `name`. -/
def splitsAtTwo (name : String) : Bool :=
  match name.toList with
  | [] => false
  | [c] => c.utf8Size = 2
  | c :: d :: _ => c.utf8Size = 2 ∨ (c.utf8Size = 1 ∧ d.utf8Size = 1)

/-- `Blobstore::open(name).expect(…)`; the file may be missing, or the host may fail to open it. -/
def openExpect (name : String) : M OpenBlob := do
  if splitsAtTwo name then
    match ← nextIo with
    | .ok _ =>
        let content ← unwrap (← blobGet name)
        return ⟨name, content⟩
    | .error _ => panic
  else panic

/-- `Blobstore::save`: move the file to the path its digest gives, and make it read-only. -/
def save (newBlob : NewBlob) : M (Except Bytes OpenBlob) := do
  let name := (← host).digestHex newBlob.digest
  match ← nextIo with
  | .error e => return .error e
  | .ok _ =>
      blobPut name newBlob.file
      match ← nextIo with
      | .error e => return .error e
      | .ok _ =>
          match ← nextIo with
          | .error e => return .error e
          | .ok _ => return .ok ⟨name, newBlob.file⟩

end Blobstore

/-- The blob after `n` bytes of `bytes` reached its file. -/
def NewBlob.append (b : NewBlob) (bytes : Bytes) (n : ℕ) : NewBlob :=
  { digest := b.digest ++ bytes.take n
    len := b.len + (bytes.take n).length
    file := b.file ++ bytes.take n }

/-- `NewBlob::write`: the blob and the number of bytes written. -/
def NewBlob.write (b : NewBlob) (bytes : Bytes) : M (Except Bytes (ℕ × NewBlob)) := do
  match ← nextIo with
  | .error e => return .error e
  | .ok n => return .ok ((bytes.take n).length, b.append bytes n)

/-- The loop of `write_all(bytes).expect(…)`: a write of no bytes is an error. Every other round
writes at least one byte, so that `bytes.length` rounds are enough. -/
def NewBlob.writeAllLoop : ℕ → NewBlob → Bytes → M NewBlob
  | _, b, [] => return b
  | 0, _, _ :: _ => panic
  | k + 1, b, bytes@(_ :: _) => do
      match ← b.write bytes with
      | .error _ => panic
      | .ok (0, _) => panic
      | .ok (n, b) => NewBlob.writeAllLoop k b (bytes.drop n)

/-- `write_all(bytes).expect(…)` -/
def NewBlob.writeAll (b : NewBlob) (bytes : Bytes) : M NewBlob :=
  b.writeAllLoop bytes.length bytes

/-- `Blob::read_at` into a buffer of `length` bytes. -/
def OpenBlob.readAt (b : OpenBlob) (offset length : ℕ) : M (Except Bytes Bytes) := do
  match ← nextIo with
  | .error e => return .error e
  | .ok n => return .ok (((b.content.drop offset).take length).take n)

/-- `Blob::len().expect(…)` -/
def OpenBlob.lenExpect (b : OpenBlob) : M ℕ := do
  match ← nextIo with
  | .error _ => panic
  | .ok _ => return b.content.length

/-- Create a blob with this content, or panic. -/
def Blobstore.storeExpect (content : Bytes) : M OpenBlob := do
  match ← Blobstore.create with
  | .error _ => panic
  | .ok newBlob =>
      let newBlob ← newBlob.writeAll content
      match ← Blobstore.save newBlob with
      | .error _ => panic
      | .ok blob => return blob

end Faasten
