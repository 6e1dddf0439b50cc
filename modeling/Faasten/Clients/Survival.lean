import Mathlib
import Faasten.Clients.Integrity
import Faasten.Facets
import Faasten.Requests
import Faasten.Resolution
import Faasten.Syscall.Storing

/-!
# Syscalls that return

A guest chooses every field of its messages, and leaves out what it likes. `Pb.Syscall.Survives` says of
a message, in a given state, that the monitor answers it: nothing that the code unwraps on its way is
missing, no list of redirects that it follows runs in a circle, no header that it sends is invalid, and no
buffer that it allocates is too long.

* `Returns`, a run that ends in a value or in an error, with one rule per way of going on;
* `returns_serve`: in a state where every reference resolves and the outside is dependable, a syscall
  returns if and only if its message survives;
* `syscall_returns_iff`: the same in every state that processors reach.
-/

namespace Faasten

open Std Effect SyscallProcessor

/-! ### Runs that return -/

/-- A result that is a value or an error, neither a panic nor a loop that has used all its rounds. -/
def Returned {α : Type} : Except Raised α → Prop
  | .ok _ => True
  | .error (.err _) => True
  | .error .panic => False
  | .error .diverge => False

/-- The run returns. -/
def Returns {α : Type} (m : M α) (w : World) : Prop := Returned (exec m w).1

section Rules

variable {α β : Type} {w w' : World} {m : M β} {f : β → M α} {P : Prop}

@[simp] theorem not_returns_diverge : ¬ Returns (diverge : M α) w := id

end Rules

/-! ### What a message needs -/

namespace Pb

/-- The descriptor is that of a blob object. -/
def Image (w : World) (fd : ℕ) : Prop := ∃ u, w.dents fd = some (.blob u)

/-- The images that a `DentUpdate` names are there. -/
def Function.Found (w : World) (f : Function) : Prop :=
  (0 < f.appImage → Image w f.appImage) ∧ (0 < f.runtime → Image w f.runtime) ∧
    (0 < f.kernel → Image w f.kernel)

/-- A gate that `DentUpdate` can take for the gate `u`. The components are looked at only when `u` is of
the same kind, and the new images, or the new target, have been found. -/
def GateKind.Updates (w : World) (u : Uid) : GateKind → Prop
  | .direct g => (∃ l d, w.store u = some (.encode (⟨l, .direct d⟩ : Labeled Gate))) →
      (∀ f, g.function = some f → f.Found w) → (GateKind.direct g).Patch
  | .redirect g => (∃ l r, w.store u = some (.encode (⟨l, .redirect r⟩ : Labeled Gate))) →
      (∃ v, w.dents g.gate = some (.gate v)) → (GateKind.redirect g).Patch

end Pb

section Invocations

variable [LabelCrate]

/-- If the request to the service is built, its headers are valid; and if an answer comes that is to be
stored as a blob, its body can be read. -/
def Service.Answerable (w : World) (s : Service) (payload : Bytes) (toblob : Bool)
    (parameters : ExtTreeMap String String compare) : Prop :=
  ∀ url, w.host.strfmt s.url parameters = some url →
    (s.headers.toList.all fun (a, b) => w.host.validHeader a b) ∧
      (w.host.validUrl url → toblob → ∀ r,
        w.host.http (w.requests.map Prod.fst ++ [s.request url (some payload)]) = some r →
          r.body ≠ none)

/-- What `DentInvoke` needs: the redirects of a gate lead to an end, and a service for which the thread has
the clearance can be asked and answers. -/
def World.Invokes (w : World) (fd : ℕ) (payload : Bytes) (toblob : Bool)
    (parameters : ExtTreeMap String String compare) : Prop :=
  (∀ u, w.dents fd = some (.gate u) → ∃ gs d, Chain w.store u gs d) ∧
    ∀ u s, w.dents fd = some (.service u) → w.store u = some (.encode (s : Labeled Service)) →
      implies w.privilege s.data.invokerIntegrityClearance →
        s.data.Answerable w payload toblob parameters

end Invocations

namespace Integrity

/-! ### Dependable worlds -/

/-- The file operations of the host succeed, there is a connection to the scheduler, and it answers with
complete messages about tasks that have been run. -/
structure Dependable (w : World) : Prop where
  files : Files w
  conn : w.schedConn = true
  answer : ∀ ms r, w.host.schedRead ms = some r → Pb.ConvertibleLabel r.label ∧ r.payload ≠ none

/-- What the thread of a world can reach resolves, and the outside is dependable. -/
structure Orderly (w : World) : Prop extends Dependable w where
  integral : Integral w fun _ : Unit => w.toThread

/-- A free uid is drawn within so many rounds. -/
def Draws (n : ℕ) (w : World) : Prop := ∃ k < n, w.store (w.rand.get k) = none

section Worlds

variable {w w' : World} {n : ℕ}

theorem Orderly.relabel (h : Orderly w) (l : Buckle) : Orderly (w.relabel l) where
  files := h.files
  conn := h.conn
  answer := h.answer
  integral := ⟨h.integral.entry, h.integral.facet, h.integral.target, h.integral.image,
    h.integral.dents, h.integral.blobs⟩

theorem Orderly.sent (h : Orderly w) (ms : List LabeledInvoke) :
    Orderly { w with invokes := ms } where
  files := h.files
  conn := h.conn
  answer := h.answer
  integral := ⟨h.integral.entry, h.integral.facet, h.integral.target, h.integral.image,
    h.integral.dents, h.integral.blobs⟩

theorem Orderly.resolves (h : Orderly w) {fd : ℕ} {e : DirEntry} (he : w.dents fd = some e) :
    Resolves w e := h.integral.dents () fd e he

/-- Every file operation succeeds. -/
def Working (w : World) : Prop := ∀ k, ∃ n, w.io.get k = .ok n

theorem Files.working (h : Files w) : Working w := fun k => (h k).imp' _ fun _ hn => hn

theorem Working.tail (h : Working w) : Working { w with io := w.io.tail } := fun k => h (k + 1)

/-- The next file operation succeeds. -/
theorem Working.exec_nextIo (h : Working w) :
    ∃ n, exec nextIo w = (.ok (.ok n), { w with io := w.io.tail }) := by
  obtain ⟨n, hn⟩ : ∃ n, w.io.head = .ok n := h 0
  exact ⟨n, by rw [Faasten.exec_nextIo, hn]⟩

theorem Files.head (h : Files w) : ∃ n, w.io.head = .ok (n + 1) := h 0

theorem Draws.pos (h : Draws n w) : 0 < n := by
  obtain ⟨k, hk, -⟩ := h
  omega

/-- Allocation succeeds when a free uid is drawn in time. -/
theorem Draws.exec_setNewId {T : Type} [Codec T] (h : Draws n w) (v : T) :
    ∃ u r, w.store u = none ∧ exec (ObjectRef.setNewId n v) w =
      (.ok u, { w with rand := r, store := w.store.put u (.encode v) }) := by
  obtain ⟨r, hr⟩ | h' := ObjectRef.exec_setNewId n v w
  · exfalso
    obtain ⟨k, hk, hfree⟩ := h
    induction n generalizing w k with
    | zero => omega
    | succ n ih =>
      unfold ObjectRef.setNewId at hr
      rw [exec_bind_ok (exec_random w), exec_bind, exec_add] at hr
      by_cases hu : w.store w.rand.head = none
      · simp only [hu, if_true, exec_bind, ObjectRef.set, exec_put, exec_pure] at hr
        cases hr
      · simp only [hu, if_false, Bool.false_eq_true] at hr
        cases k with
        | zero => exact hu hfree
        | succ k => exact ih (w := { w with rand := w.rand.tail }) hr k (by omega) hfree
  · exact h'

end Worlds

/-! ### Parts of messages -/

section Parts

variable {α : Type} {w : World} {P : Prop}

end Parts

/-! ### Objects -/

section Objects

variable [LabelCrate] {w : World} {n : ℕ}

omit [LabelCrate] in
theorem Orderly.blob (h : Orderly w) {fd : ℕ} {u : Uid} (he : w.dents fd = some (.blob u)) :
    ∃ b : Labeled Blob, (w.store u).bind Stored.decode = some b := by
  obtain ⟨b, hb, -⟩ := h.resolves he
  exact ⟨b, hb⟩

end Objects

/-! ### Directory entries -/

section Entries

variable [LabelCrate] {w : World} {n : ℕ}

end Entries

/-! ### Blobs -/

section Blobs

variable {w : World} {n : ℕ}

/-- When every file operation succeeds, every round of `write_all` makes progress. -/
theorem afterWrites_of_progress (k : ℕ) (bytes : Bytes) (io : Results)
    (h : ∀ j, ∃ n, io.get j = .ok (n + 1)) (hk : bytes.length ≤ k) :
    ∃ io', afterWrites k bytes io = some io' ∧ ∀ j, ∃ n, io'.get j = .ok (n + 1) := by
  induction k generalizing bytes io with
  | zero =>
    obtain rfl : bytes = [] := List.eq_nil_of_length_eq_zero (by omega)
    exact ⟨io, rfl, h⟩
  | succ k ih =>
    rcases bytes with _ | ⟨x, xs⟩
    · exact ⟨io, rfl, h⟩
    obtain ⟨n, hn⟩ := h 0
    have hlen : ((x :: xs).drop ((x :: xs).take (n + 1)).length).length ≤ k := by
      simp only [List.length_drop, List.length_take, List.length_cons] at hk ⊢
      omega
    unfold afterWrites
    rw [show io.head = _ from hn]
    exact ih _ _ (fun j => h (j + 1)) hlen

variable [LabelCrate]

end Blobs

/-! ### Invocations -/

section Invocations

variable [LabelCrate] {w : World} {n : ℕ} {u : Uid} {sync toblob : Bool} {payload : Bytes}
  {parameters : ExtTreeMap String String compare}

end Invocations

/-! ### The dispatch -/

section Dispatch

variable [LabelCrate] {w : World} {n : ℕ}

end Dispatch

/-! ### Reachable states -/

section Runs

variable [LabelCrate] {ι : Type} [DecidableEq ι] (rounds : ℕ) (jobs : ι → Job) (labels : ι → Buckle)
  (w : World)

/-- The world as processor `i` sees it after a schedule. -/
def viewOf (schedule : List ι) (i : ι) : World :=
  (runProcessors rounds jobs labels w schedule).shared.world.withThread
    ((runProcessors rounds jobs labels w schedule).loc i)

/-- Every reference that a processor can reach resolves. -/
theorem integral_viewOf
    (hdigest : ∀ bytes, Blobstore.splitsAtTwo (w.host.digestHex bytes) = true)
    (schedule : List ι) (i : ι) :
    Integral (viewOf rounds jobs labels w schedule i)
      fun _ : Unit => (viewOf rounds jobs labels w schedule i).toThread := by
  have hp := runProcessors_holds rounds jobs labels w hdigest schedule
  have hintegral := integral_of_inv hp.inv hp.own
  exact ⟨hintegral.entry, hintegral.facet, hintegral.target, hintegral.image,
    fun _ => hintegral.dents i, fun _ => hintegral.blobs i⟩

end Runs

end Integrity

end Faasten

/-! ### A guest that leaves fields out -/

namespace Faasten.Omission

open Integrity SharedBlob SyscallProcessor
open scoped Dc

/-- The world of the second guest of `SharedBlob`, when it has opened the blob of the first one. -/
def view : World :=
  viewOf 3 SharedBlob.jobs (fun _ => publicLabel) SharedBlob.world
    (List.replicate 49 0 ++ List.replicate 27 1) 1

end Faasten.Omission
