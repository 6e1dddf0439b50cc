import Mathlib
import Faasten.Syscall.Frames

/-!
# Handles

A processor gives its guest numbers for the directory entries and the blobs that it has open. The numbers
for entries come from one counter; those for blobs come from another one, which two tables share: a blob
that is being written and a blob that can be read have numbers of the same kind, and `BlobFinalize` moves
a number from the one table to the other.

* `Thread.handle`, what a descriptor for a blob denotes, and `Handle.Same`, that it is still the same blob;
* `Act`: a syscall with the reply to it, or the blobs of the task being given numbers at the start;
* `Act.dents` and `Act.blobs`, the descriptors that an act returns for the first time, and
  `Act.after`, how it changes what another one denotes;
* `Thread.Opens`: some descriptors have been opened, and no other one has been touched. Most acts do no
  more than that.
-/

namespace Faasten

open Std Effect SyscallProcessor

/-- Each descriptor that is in use has been given out, and no number is in both tables of blobs. -/
structure Thread.Separated (t : Thread) : Prop where
  dents : ∀ fd, t.dents fd ≠ none → fd < t.maxDentId
  createBlobs : ∀ fd, t.createBlobs fd ≠ none → fd < t.maxBlobId
  blobs : ∀ fd, t.blobs fd ≠ none → fd < t.maxBlobId
  disjoint : ∀ fd, t.createBlobs fd = none ∨ t.blobs fd = none

/-- What a descriptor for a blob denotes. -/
inductive Handle
  | writing (b : NewBlob)
  | reading (b : OpenBlob)
  deriving DecidableEq

namespace Handle

/-- A handle as it is when its descriptor is returned. -/
inductive Fresh : Handle → Prop
  | created : Fresh (.writing {})
  | opened (b : OpenBlob) : Fresh (.reading b)

/-- The second handle is to the same blob as the first: what has been written stays, and a blob that can be
read does not change. -/
def Same : Handle → Handle → Prop
  | .writing b, .writing b' => b.file <+: b'.file
  | .writing b, .reading b' => b.file <+: b'.content
  | .reading b, .reading b' => b = b'
  | .reading _, .writing _ => False

theorem Same.refl (x : Handle) : x.Same x := by
  cases x with
  | writing b => exact List.prefix_refl _
  | reading b => exact rfl

theorem Same.trans {x y z : Handle} (h : x.Same y) (h' : y.Same z) : x.Same z := by
  cases x with
  | writing b =>
    cases y with
    | writing b' =>
      cases z with
      | writing b'' => exact List.IsPrefix.trans h h'
      | reading b'' => exact List.IsPrefix.trans h h'
    | reading b' =>
      cases z with
      | writing b'' => exact h'.elim
      | reading b'' =>
        cases h'
        exact h
  | reading b =>
    cases y with
    | writing b' => exact h.elim
    | reading b' =>
      cases h
      exact h'

end Handle

/-- What a descriptor for a blob denotes. -/
def Thread.handle (t : Thread) (fd : ℕ) : Option Handle :=
  match t.createBlobs fd, t.blobs fd with
  | some b, _ => some (.writing b)
  | none, some b => some (.reading b)
  | none, none => none

/-! ### Events -/

/-- What a processor does for its guest: it gives numbers to the blobs of the task, or serves a syscall. -/
inductive Act
  | task (fds : List ℕ)
  | served (sc : Pb.Syscall) (reply : Pb.Reply)

namespace Act

/-- The descriptors of entries that are returned. -/
def dents : Act → List ℕ
  | .served (.dentOpen _ _) (.dentOpenResult true fd _) => [fd]
  | .served (.dentCreate _ _) (.dentResult true (some fd) _) => [fd]
  | _ => []

/-- The descriptors of blobs that are returned. -/
def blobs : Act → List ℕ
  | .task fds => fds
  | .served (.blobCreate _) (.blobResult true fd _ _) => [fd]
  | .served (.dentGetBlob _) (.blobResult true fd _ _) => [fd]
  | .served (.dentLsGate _) (.dentLsGateResult _ (some (.direct ⟨_, _, some f, _⟩))) =>
      [f.appImage, f.runtime, f.kernel]
  | .served (.dentInvoke _ _ _ _ _) (.dentInvokeResult _ (some fd) _ _) => [fd]
  | _ => []

/-- The descriptor of an entry is closed. -/
def closesDent : Act → ℕ → Bool
  | .served (.dentClose fd) _, fd' => fd' = fd
  | _, _ => false

/-- The descriptor of a blob is closed. When a blob cannot be saved, nothing is left of it. -/
def closesBlob : Act → ℕ → Bool
  | .served (.blobClose fd) _, fd' => fd' = fd
  | .served (.blobFinalize fd) (.blobResult false _ _ _), fd' => fd' = fd
  | _, _ => false

/-- What a descriptor denotes after an act that does not return it. -/
def after (h : Host) : Act → ℕ → Option Handle → Option Handle
  | .served (.blobWrite fd bytes) (.blobResult true _ len _), fd', some (.writing b) =>
      some (.writing (if fd' = fd then b.append bytes len else b))
  | .served (.blobFinalize fd) (.blobResult ok _ _ _), fd', some (.writing b) =>
      if fd' = fd then
        if ok then some (.reading ⟨h.digestHex b.digest, b.file⟩) else none
      else some (.writing b)
  | .served (.blobClose fd) _, fd', some (.reading b) =>
      if fd' = fd then none else some (.reading b)
  | _, _, x => x

/-- What an act may do to the descriptors of a thread. -/
structure Moves (h : Host) (e : Act) (t t' : Thread) : Prop where
  dentId : t.maxDentId ≤ t'.maxDentId
  blobId : t.maxBlobId ≤ t'.maxBlobId
  dents : ∀ fd ∈ e.dents, t.maxDentId ≤ fd ∧ fd < t'.maxDentId ∧ t'.dents fd ≠ none
  blobs : ∀ fd ∈ e.blobs, t.maxBlobId ≤ fd ∧ fd < t'.maxBlobId ∧
    ∃ x, t'.handle fd = some x ∧ x.Fresh
  dents_nodup : e.dents.Nodup
  blobs_nodup : e.blobs.Nodup
  dent : ∀ fd ∉ e.dents, t'.dents fd = if e.closesDent fd then none else t.dents fd
  handle : ∀ fd ∉ e.blobs, t'.handle fd = e.after h fd (t.handle fd)

end Act

/-! ### Opening -/

/-- The thread has opened these descriptors of entries and of blobs, and touched no other. -/
structure Thread.Opens (t : Thread) (ds bs : List ℕ) (t' : Thread) : Prop where
  dentId : t.maxDentId ≤ t'.maxDentId
  blobId : t.maxBlobId ≤ t'.maxBlobId
  dents : ∀ fd ∈ ds, t.maxDentId ≤ fd ∧ fd < t'.maxDentId ∧ t'.dents fd ≠ none
  blobs : ∀ fd ∈ bs, t.maxBlobId ≤ fd ∧ fd < t'.maxBlobId ∧ ∃ x, t'.handle fd = some x ∧ x.Fresh
  dents_nodup : ds.Nodup
  blobs_nodup : bs.Nodup
  dent : ∀ fd ∉ ds, t'.dents fd = t.dents fd
  tables : ∀ fd ∉ bs, t'.createBlobs fd = t.createBlobs fd ∧ t'.blobs fd = t.blobs fd
  separated : t.Separated → t'.Separated

namespace Thread

variable {t t' t'' : Thread} {ds ds' bs bs' : List ℕ} {fd : ℕ}

theorem handle_congr (h : t'.createBlobs fd = t.createBlobs fd ∧ t'.blobs fd = t.blobs fd) :
    t'.handle fd = t.handle fd := by
  unfold handle
  rw [h.1, h.2]

/-- A change of the label opens nothing. -/
theorem Relabeled.opens (h : t.Relabeled t') : t.Opens [] [] t' := by
  obtain ⟨l, rfl⟩ := h
  exact ⟨le_rfl, le_rfl, nofun, nofun, .nil, .nil, fun _ _ => rfl, fun _ _ => ⟨rfl, rfl⟩,
    fun hs => ⟨hs.dents, hs.createBlobs, hs.blobs, hs.disjoint⟩⟩

theorem nodup_append_of_lt {n : ℕ} {xs ys : List ℕ} (hx : xs.Nodup) (hy : ys.Nodup)
    (hlt : ∀ x ∈ xs, x < n) (hle : ∀ y ∈ ys, n ≤ y) : (xs ++ ys).Nodup :=
  List.nodup_append.2 ⟨hx, hy, fun x hxs y hys => by
    have := hlt x hxs
    have := hle y hys
    omega⟩

theorem Opens.trans (h : t.Opens ds bs t') (h' : t'.Opens ds' bs' t'') :
    t.Opens (ds ++ ds') (bs ++ bs') t'' := by
  have hdlt : ∀ fd ∈ ds, fd < t'.maxDentId := fun fd hfd => (h.dents fd hfd).2.1
  have hblt : ∀ fd ∈ bs, fd < t'.maxBlobId := fun fd hfd => (h.blobs fd hfd).2.1
  have hdle : ∀ fd ∈ ds', t'.maxDentId ≤ fd := fun fd hfd => (h'.dents fd hfd).1
  have hble : ∀ fd ∈ bs', t'.maxBlobId ≤ fd := fun fd hfd => (h'.blobs fd hfd).1
  have hd := h.dentId
  have hd' := h'.dentId
  have hb := h.blobId
  have hb' := h'.blobId
  refine ⟨by omega, by omega, fun fd hfd => ?_, fun fd hfd => ?_,
    nodup_append_of_lt h.dents_nodup h'.dents_nodup hdlt hdle,
    nodup_append_of_lt h.blobs_nodup h'.blobs_nodup hblt hble, fun fd hfd => ?_, fun fd hfd => ?_,
    fun hs => h'.separated (h.separated hs)⟩
  · rcases List.mem_append.1 hfd with hmem | hmem
    · obtain ⟨hle, hlt, hsome⟩ := h.dents fd hmem
      have hnot : fd ∉ ds' := fun hmem' => by
        have := hdle fd hmem'
        omega
      refine ⟨hle, by omega, ?_⟩
      rwa [h'.dent fd hnot]
    · obtain ⟨hle, hlt, hsome⟩ := h'.dents fd hmem
      exact ⟨by omega, hlt, hsome⟩
  · rcases List.mem_append.1 hfd with hmem | hmem
    · obtain ⟨hle, hlt, hsome⟩ := h.blobs fd hmem
      have hnot : fd ∉ bs' := fun hmem' => by
        have := hble fd hmem'
        omega
      refine ⟨hle, by omega, ?_⟩
      rwa [handle_congr (h'.tables fd hnot)]
    · obtain ⟨hle, hlt, hsome⟩ := h'.blobs fd hmem
      exact ⟨by omega, hlt, hsome⟩
  · rw [List.mem_append, not_or] at hfd
    rw [h'.dent fd hfd.2, h.dent fd hfd.1]
  · rw [List.mem_append, not_or] at hfd
    rw [(h'.tables fd hfd.2).1, (h'.tables fd hfd.2).2]
    exact h.tables fd hfd.1

/-- An entry under the next number. -/
theorem opens_addDent (t : Thread) (e : DirEntry) : t.Opens [t.maxDentId] [] (t.addDent e) := by
  refine ⟨Nat.le_succ _, le_rfl, fun fd hfd => ?_, nofun, List.nodup_singleton _, .nil,
    fun fd hfd => ?_, fun _ _ => ⟨rfl, rfl⟩, fun hs => ⟨fun fd hfd => ?_, hs.createBlobs, hs.blobs,
      hs.disjoint⟩⟩
  · rw [List.mem_singleton] at hfd
    subst hfd
    refine ⟨le_rfl, Nat.lt_succ_self _, ?_⟩
    simp
  · rw [List.mem_singleton] at hfd
    simp [hfd]
  · by_cases heq : fd = t.maxDentId
    · subst heq
      exact Nat.lt_succ_self _
    · rw [addDent_dents, Function.update_of_ne heq] at hfd
      exact Nat.lt_succ_of_lt (hs.dents fd hfd)

/-- A number for a blob has been given out: it is below the counter, and in neither table. -/
theorem Separated.unused (hs : t.Separated) :
    t.createBlobs t.maxBlobId = none ∧ t.blobs t.maxBlobId = none := by
  constructor
  · by_contra hne
    exact lt_irrefl _ (hs.createBlobs _ hne)
  · by_contra hne
    exact lt_irrefl _ (hs.blobs _ hne)

/-- A blob that can be read, under the next number. -/
theorem opens_putBlob (b : OpenBlob) (hs : t.Separated) (ht : t.nextBlob.Relabeled t') :
    t.Opens [] [t.maxBlobId] (t'.putBlob t.maxBlobId b) := by
  obtain ⟨l, rfl⟩ := ht
  refine ⟨le_rfl, Nat.le_succ _, nofun, fun fd hfd => ?_, .nil, List.nodup_singleton _,
    fun _ _ => rfl, fun fd hfd => ?_, fun _ => ⟨hs.dents, fun fd hfd => ?_, fun fd hfd => ?_,
      fun fd => ?_⟩⟩
  · rw [List.mem_singleton] at hfd
    subst hfd
    refine ⟨le_rfl, Nat.lt_succ_self _, .reading b, ?_, .opened b⟩
    simp [handle, hs.unused.1]
  · rw [List.mem_singleton] at hfd
    simp [hfd]
  · exact Nat.lt_succ_of_lt (hs.createBlobs fd hfd)
  · by_cases heq : fd = t.maxBlobId
    · subst heq
      exact Nat.lt_succ_self _
    · rw [putBlob_blobs, Function.update_of_ne heq] at hfd
      exact Nat.lt_succ_of_lt (hs.blobs fd hfd)
  · by_cases heq : fd = t.maxBlobId
    · subst heq
      exact .inl hs.unused.1
    · rw [putBlob_blobs, Function.update_of_ne heq]
      exact hs.disjoint fd

/-- A blob to be written, under the next number. -/
theorem opens_putNewBlob (hs : t.Separated) :
    t.Opens [] [t.maxBlobId] (t.nextBlob.putNewBlob t.maxBlobId {}) := by
  refine ⟨le_rfl, Nat.le_succ _, nofun, fun fd hfd => ?_, .nil, List.nodup_singleton _,
    fun _ _ => rfl, fun fd hfd => ?_, fun _ => ⟨hs.dents, fun fd hfd => ?_, fun fd hfd => ?_,
      fun fd => ?_⟩⟩
  · rw [List.mem_singleton] at hfd
    subst hfd
    refine ⟨le_rfl, Nat.lt_succ_self _, .writing {}, ?_, .created⟩
    simp [handle]
  · rw [List.mem_singleton] at hfd
    simp [hfd]
  · by_cases heq : fd = t.maxBlobId
    · subst heq
      exact Nat.lt_succ_self _
    · rw [putNewBlob_createBlobs, Function.update_of_ne heq] at hfd
      exact Nat.lt_succ_of_lt (hs.createBlobs fd hfd)
  · exact Nat.lt_succ_of_lt (hs.blobs fd hfd)
  · by_cases heq : fd = t.maxBlobId
    · subst heq
      exact .inr hs.unused.2
    · rw [putNewBlob_createBlobs, Function.update_of_ne heq]
      exact hs.disjoint fd

end Thread

/-- An act that opens descriptors, and does no more. -/
theorem Thread.Opens.moves {h : Host} {e : Act} {t t' : Thread} (ho : t.Opens e.dents e.blobs t')
    (hclose : ∀ fd, e.closesDent fd = false) (hafter : ∀ fd x, e.after h fd x = x) :
    e.Moves h t t' := by
  refine ⟨ho.dentId, ho.blobId, ho.dents, ho.blobs, ho.dents_nodup, ho.blobs_nodup, fun fd hfd => ?_,
    fun fd hfd => ?_⟩
  · rw [hclose fd, ho.dent fd hfd]
    rfl
  · rw [hafter, Thread.handle_congr (ho.tables fd hfd)]

end Faasten
