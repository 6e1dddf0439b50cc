import Mathlib
import Faasten.Clients.Survival
import Faasten.Prepare.Program

/-!
# Images

`localfile2blob` stores an image in the blobstore and gives the name that its digest has. It fails if the file
is not there or a file operation fails, and does nothing else than write to the blobstore.
-/

namespace Faasten

open Std Effect Integrity

variable {α : Type} {w w' : World}

/-- The name of the blob that holds an image. -/
def imageName (h : Host) (files : String → Option Bytes) (localPath : String) : String :=
  h.digestHex ((files localPath).getD [])

theorem imageName_of_digest {g h : Host} {files : String → Option Bytes} (hdigest : g.digestHex = h.digestHex)
    (path : String) : imageName g files path = imageName h files path := by
  unfold imageName
  rw [hdigest]

/-- Programs leave the host as it is, and use up results of file operations one by one. -/
theorem exec_outside (m : M α) (w : World) :
    (exec m w).2.host = w.host ∧ (Files w → Files (exec m w).2) := by
  have hall : handler.Always (fun _ _ => True) w m := fun _ _ => trivial
  refine hall.invariant (I := fun w' : World => w'.host = w.host ∧ (Files w → Files w')) ?_ ⟨rfl, id⟩
  intro v op _ hv
  cases op with
  | io => exact ⟨hv.1, fun hw k => hv.2 hw (k + 1)⟩
  | add u x => rw [show (handler.perform (.add u x) v).2 = _ from perform_add v u x]; split_ifs <;> exact hv
  | cas u e x => rw [show (handler.perform (.cas u e x) v).2 = _ from perform_cas v u e x]; split_ifs <;> exact hv
  | schedWrite m =>
    rw [show (handler.perform (.schedWrite m) v).2 = _ from perform_schedWrite v m]
    split_ifs <;> exact hv
  | _ => exact hv

/-- What `write_all` has written is all of it, and so is what it has hashed. -/
theorem writeAllLoop_ok {k : ℕ} {b b' : NewBlob} {bytes : Bytes}
    (h : exec (NewBlob.writeAllLoop k b bytes) w = (.ok b', w')) :
    b'.digest = b.digest ++ bytes ∧ ∃ io, w' = { w with io } := by
  induction k generalizing w b bytes with
  | zero =>
    rcases bytes with _ | ⟨x, xs⟩
    · cases h
      exact ⟨(List.append_nil _).symm, _, rfl⟩
    · cases h
  | succ k ih =>
    rcases bytes with _ | ⟨x, xs⟩
    · cases h
      exact ⟨(List.append_nil _).symm, _, rfl⟩
    unfold NewBlob.writeAllLoop NewBlob.write at h
    rw [bind_assoc, exec_bind_ok (exec_nextIo w)] at h
    rcases hio : w.io.head with e | _ | n <;> rw [hio] at h
    · cases h
    · cases h
    · obtain ⟨hdigest, io, rfl⟩ := ih h
      refine ⟨?_, io, rfl⟩
      have hwhole := List.prefix_iff_eq_append.1 (List.take_prefix (n + 1) (x :: xs))
      rw [hdigest, show (b.append (x :: xs) (n + 1)).digest = b.digest ++ (x :: xs).take (n + 1) from rfl,
        List.append_assoc, hwhole]

theorem save_ok {b : NewBlob} {blob : OpenBlob} (h : exec (Blobstore.save b) w = (.ok (.ok blob), w')) :
    blob.name = w.host.digestHex b.digest ∧ ∃ io blobstore, w' = { w with io, blobstore } := by
  unfold Blobstore.save at h
  rw [exec_bind_ok (exec_host w), exec_bind_ok (exec_nextIo w)] at h
  split at h
  · cases h
  rw [exec_bind_ok (exec_blobPut _ _ _), exec_bind_ok (exec_nextIo _)] at h
  split at h
  · cases h
  rw [exec_bind_ok (exec_nextIo _)] at h
  split at h
  · cases h
  cases h
  exact ⟨rfl, _, _, rfl⟩

theorem localfile2blob_ok {files : String → Option Bytes} {path name : String}
    (h : exec (localfile2blob files path) w = (.ok name, w')) :
    files path ≠ none ∧ name = imageName w.host files path ∧ ∃ io blobstore, w' = { w with io, blobstore } := by
  unfold localfile2blob at h
  rw [exec_bind_ok (exec_nextIo w)] at h
  split at h
  · cases h
  obtain ⟨buf, w₁, hbuf, h⟩ := exec_bind_eq_ok h
  obtain ⟨hfile, rfl⟩ := unwrap_ok hbuf
  obtain ⟨r, w₂, hcreate, h⟩ := exec_bind_eq_ok h
  unfold Blobstore.create at hcreate
  rw [exec_bind_ok (exec_nextIo _)] at hcreate
  split at hcreate <;> cases hcreate
  · dsimp only at h
    rw [exec_bind_ok (exec_nextIo _)] at h
    split at h
    · cases h
    obtain ⟨b, w₃, hwrite, h⟩ := exec_bind_eq_ok h
    obtain ⟨hdigest, io, rfl⟩ := writeAllLoop_ok hwrite
    obtain ⟨r, w₄, hsave, h⟩ := exec_bind_eq_ok h
    split at h
    · cases h
    cases h
    obtain ⟨hname, io', blobstore, rfl⟩ := save_ok hsave
    refine ⟨by simp [hfile], ?_, io', blobstore, rfl⟩
    rw [hname, hdigest]
    simp [imageName, hfile]
  · cases h

/-- An image that is there is stored, if every file operation succeeds. -/
theorem exec_localfile2blob {files : String → Option Bytes} {path : String} (hw : Files w)
    (hfile : files path ≠ none) : ∃ io blobstore,
    exec (localfile2blob files path) w = (.ok (imageName w.host files path), { w with io, blobstore }) := by
  obtain ⟨buf, hbuf⟩ := Option.ne_none_iff_exists'.1 hfile
  suffices hok : ∃ name w', exec (localfile2blob files path) w = (.ok name, w') by
    obtain ⟨name, w', hx⟩ := hok
    obtain ⟨-, rfl, io, blobstore, rfl⟩ := localfile2blob_ok hx
    exact ⟨io, blobstore, hx⟩
  obtain ⟨n₀, h₀⟩ : ∃ n, w.io.head = .ok n := hw.working 0
  obtain ⟨n₁, h₁⟩ : ∃ n, w.io.tail.head = .ok n := hw.working 1
  obtain ⟨n₂, h₂⟩ : ∃ n, w.io.tail.tail.head = .ok n := hw.working 2
  obtain ⟨io, hio, hprogress⟩ := afterWrites_of_progress buf.length buf w.io.tail.tail.tail
    (fun k => hw (k + 3)) le_rfl
  obtain ⟨b, hb⟩ := (exec_writeAllLoop (w := { w with io := w.io.tail.tail.tail }) buf.length {} buf).1 io hio
  obtain ⟨blob, io', blobstore, hsave⟩ := exec_save_ok (w := { w with io })
    (fun k _ => (hprogress k).imp' _ fun _ hn => hn) b
  unfold localfile2blob
  rw [exec_bind_ok (exec_nextIo w), h₀]
  dsimp only
  rw [hbuf, exec_bind_ok (exec_unwrap_some _ _),
    exec_bind_ok (exec_create_ok (w := { w with io := w.io.tail }) h₁)]
  dsimp only
  rw [exec_bind_ok (exec_nextIo _), show ({ w with io := w.io.tail.tail } : World).io.head = .ok n₂ from h₂]
  dsimp only
  unfold NewBlob.writeAll
  rw [exec_bind_ok hb, exec_bind_ok hsave]
  exact ⟨_, _, rfl⟩

end Faasten
