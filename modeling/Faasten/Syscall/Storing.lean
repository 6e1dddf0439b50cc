import Mathlib
import Faasten.Syscall.Tables

/-!
# Storing a blob

To store a blob the monitor creates a file, writes all of the content, which takes as many writes as the
host makes of it, and moves the file to its place. `Storable` says of the results of the host's file
operations that each of these steps succeeds; `exec_storeExpect` and `storeExpect_panics` are the two
cases.
-/

namespace Faasten

open Std Effect

/-- The results of file operations. -/
abbrev Results := Stream' (Except Bytes ℕ)

/-- The results that are left after `write_all`, if every write succeeds and makes progress. -/
def afterWrites : ℕ → Bytes → Results → Option Results
  | _, [], io => some io
  | 0, _ :: _, _ => none
  | k + 1, x :: xs, io =>
      match io.head with
      | .ok (n + 1) => afterWrites k ((x :: xs).drop ((x :: xs).take (n + 1)).length) io.tail
      | _ => none

/-- The next results with which `save` succeeds: the move and the change of the permissions. -/
def Savable (io : Results) : Prop := ∀ k < 3, ∃ n, io.get k = .ok n

/-- The results with which a blob of this content can be stored. -/
def Storable (io : Results) (content : Bytes) : Prop :=
  (∃ n, io.head = .ok n) ∧ ∃ io', afterWrites content.length content io.tail = some io' ∧ Savable io'

variable {w : World}

theorem exec_create_ok {n : ℕ} (h : w.io.head = .ok n) :
    exec Blobstore.create w = (.ok (.ok {}), { w with io := w.io.tail }) := by
  unfold Blobstore.create
  rw [exec_bind_ok (exec_nextIo w), h]
  rfl

theorem exec_create_error {e : Bytes} (h : w.io.head = .error e) :
    exec Blobstore.create w = (.ok (.error e), { w with io := w.io.tail }) := by
  unfold Blobstore.create
  rw [exec_bind_ok (exec_nextIo w), h]
  rfl

/-- The induction is on the rounds; each of them drops what was written. -/
theorem exec_writeAllLoop (k : ℕ) (b : NewBlob) (bytes : Bytes) :
    (∀ io, afterWrites k bytes w.io = some io →
      ∃ b', exec (NewBlob.writeAllLoop k b bytes) w = (.ok b', { w with io })) ∧
    (afterWrites k bytes w.io = none →
      (exec (NewBlob.writeAllLoop k b bytes) w).1 = .error .panic) := by
  induction k generalizing w b bytes with
  | zero =>
    rcases bytes with _ | ⟨x, xs⟩
    · exact ⟨fun io h => by cases h; exact ⟨b, rfl⟩, nofun⟩
    · exact ⟨nofun, fun _ => rfl⟩
  | succ k ih =>
    rcases bytes with _ | ⟨x, xs⟩
    · exact ⟨fun io h => by cases h; exact ⟨b, rfl⟩, nofun⟩
    unfold afterWrites NewBlob.writeAllLoop NewBlob.write
    rcases hio : w.io.head with e | _ | n
    · refine ⟨nofun, fun _ => ?_⟩
      rw [bind_assoc, exec_bind_ok (exec_nextIo w), hio]
      rfl
    · refine ⟨nofun, fun _ => ?_⟩
      rw [bind_assoc, exec_bind_ok (exec_nextIo w), hio]
      rfl
    · rw [bind_assoc, exec_bind_ok (exec_nextIo w), hio]
      exact ih (w := { w with io := w.io.tail }) (b.append (x :: xs) (n + 1)) _

theorem exec_save_ok (h : Savable w.io) (b : NewBlob) :
    ∃ b' io blobstore, exec (Blobstore.save b) w = (.ok (.ok b'), { w with io, blobstore }) := by
  obtain ⟨n₀, h₀⟩ := h 0 (by omega)
  obtain ⟨n₁, h₁⟩ := h 1 (by omega)
  obtain ⟨n₂, h₂⟩ := h 2 (by omega)
  unfold Blobstore.save
  rw [exec_bind_ok (exec_host w), exec_bind_ok (exec_nextIo w), show w.io.head = _ from h₀]
  dsimp only
  rw [exec_bind_ok (exec_blobPut _ _ _), exec_bind_ok (exec_nextIo _), show w.io.tail.head = _ from h₁]
  dsimp only
  rw [exec_bind_ok (exec_nextIo _), show w.io.tail.tail.head = _ from h₂]
  exact ⟨_, _, _, rfl⟩

theorem exec_save_error (h : ¬Savable w.io) (b : NewBlob) :
    ∃ e w', exec (Blobstore.save b) w = (.ok (.error e), w') := by
  unfold Blobstore.save
  rw [exec_bind_ok (exec_host w), exec_bind_ok (exec_nextIo w)]
  rcases h₀ : w.io.head with e | n₀
  · exact ⟨e, _, rfl⟩
  dsimp only
  rw [exec_bind_ok (exec_blobPut _ _ _), exec_bind_ok (exec_nextIo _)]
  rcases h₁ : w.io.tail.head with e | n₁
  · exact ⟨e, _, rfl⟩
  dsimp only
  rw [exec_bind_ok (exec_nextIo _)]
  rcases h₂ : w.io.tail.tail.head with e | n₂
  · exact ⟨e, _, rfl⟩
  -- the three of them succeed
  refine absurd (fun k hk => ?_) h
  obtain rfl | rfl | rfl : k = 0 ∨ k = 1 ∨ k = 2 := by omega
  · exact ⟨n₀, h₀⟩
  · exact ⟨n₁, h₁⟩
  · exact ⟨n₂, h₂⟩

theorem exec_storeExpect {content : Bytes} (h : Storable w.io content) :
    ∃ b io blobstore, exec (Blobstore.storeExpect content) w = (.ok b, { w with io, blobstore }) := by
  obtain ⟨⟨n, hn⟩, io, hwrites, hsave⟩ := h
  obtain ⟨b, hwrite⟩ :=
    (exec_writeAllLoop (w := { w with io := w.io.tail }) content.length {} content).1 io hwrites
  obtain ⟨b', io', blobstore, hsaved⟩ := exec_save_ok (w := { w with io }) hsave b
  refine ⟨b', io', blobstore, ?_⟩
  unfold Blobstore.storeExpect NewBlob.writeAll
  rw [exec_bind_ok (exec_create_ok hn)]
  dsimp only
  rw [exec_bind_ok hwrite, exec_bind_ok hsaved]
  rfl

theorem storeExpect_panics {content : Bytes} (h : ¬Storable w.io content) :
    (exec (Blobstore.storeExpect content) w).1 = .error .panic := by
  unfold Blobstore.storeExpect NewBlob.writeAll
  rcases hn : w.io.head with e | n
  · rw [exec_bind_ok (exec_create_error hn)]
    rfl
  rw [exec_bind_ok (exec_create_ok hn)]
  dsimp only
  obtain ⟨hsome, hnone⟩ :=
    exec_writeAllLoop (w := { w with io := w.io.tail }) content.length {} content
  rcases hwrites : afterWrites content.length content w.io.tail with _ | io
  · rcases hexec : exec (NewBlob.writeAllLoop content.length {} content)
        { w with io := w.io.tail } with ⟨e | b, w'⟩
    · have hpanic := hnone hwrites
      rw [hexec] at hpanic
      rw [exec_bind_error hexec]
      cases hpanic
      rfl
    · have hpanic := hnone hwrites
      rw [hexec] at hpanic
      cases hpanic
  · obtain ⟨b, hwrite⟩ := hsome io hwrites
    have hsave : ¬Savable io := fun hsave => h ⟨⟨n, hn⟩, io, hwrites, hsave⟩
    obtain ⟨e, w', hsaved⟩ := exec_save_error (w := { w with io }) hsave b
    rw [exec_bind_ok hwrite, exec_bind_ok hsaved]
    rfl

end Faasten
