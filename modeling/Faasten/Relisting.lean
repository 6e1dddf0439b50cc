import Mathlib
import Faasten.Clients.Survival
import Faasten.GateWrites
import Faasten.Mutations

/-!
# Creating a gate from its listing

`DentLsGate` answers with a gate as a message, and `DentCreate` takes a gate as a message. The images of the
function are descriptors in both, but not in the same table: the listing opens the images and gives their
descriptors among the blobs, and the creation looks for blob entries among the directory entries.
`relisted_iff` says what the two tables have to hold for a listed gate to be created again as it is.
-/

namespace Faasten

open Std Effect SyscallProcessor

/-- The message of a direct gate whose images have these descriptors. -/
def DirectGate.shown (dg : DirectGate) (appImage runtime kernel : ℕ) : Pb.DirectGate where
  privilege := some (.ofComponent dg.privilege)
  invokerIntegrityClearance := some (.ofComponent dg.invokerIntegrityClearance)
  declassify := some (.ofComponent dg.declassify)
  function := some { memory := dg.function.memory, appImage, runtime, kernel }

/-- The blob object under a descriptor of an entry. -/
def HoldsBlob (w : World) (fd : ℕ) (o : Labeled Blob) : Prop :=
  ∃ u, w.dents fd = some (.blob u) ∧ w.store u = some (.encode o)

/-- The world after some blobs have been opened. -/
def World.opening (w : World) (io : Stream' (Except Bytes ℕ)) (blobs : ℕ → Option OpenBlob)
    (n : ℕ) : World :=
  { w with io, toThread := { w.toThread with blobs, maxBlobId := w.maxBlobId + n } }

variable [LabelCrate] {rounds : ℕ} {w w' : World} {u : Uid} {dg : DirectGate}

/-- A `DentCreate` of the gate makes a new gate object, which holds the same gate. -/
def Recreated (rounds : ℕ) (w : World) (label : Option Pb.Buckle) (gate : Pb.GateKind) (l : Buckle)
    (dg : DirectGate) : Prop :=
  ∃ fd u w', exec (doSyscall rounds (.dentCreate label (some (.gate (some gate))))) w =
      (.ok (.sent (.dentResult true (some fd) none)), w') ∧
    w'.dents fd = some (.gate u) ∧ w.store u = none ∧
      w'.store u = some (.encode (⟨l, .direct dg⟩ : Labeled Gate))

/-- The numbers that the images get among the blobs are, among the entries, those of blob objects that hold
the same images, and what these taint the thread with leaves it able to write at the label. -/
def Coincides (w : World) (l : Buckle) (dg : DirectGate) : Prop :=
  ∃ a r k : Labeled Blob, HoldsBlob w w.maxBlobId a ∧ HoldsBlob w (w.maxBlobId + 1) r ∧
    HoldsBlob w (w.maxBlobId + 2) k ∧ a.data = dg.function.appImage ∧
      r.data = dg.function.runtimeImage ∧ k.data = dg.function.kernel ∧
        canFlowToWithPrivilege (lub k.label (lub r.label (lub a.label w.currentLabel))) l w.privilege

/-! ### The listing -/

omit [LabelCrate] in
theorem openImage_ok {name : String} {fd : ℕ} (h : exec (openImage name) w = (.ok fd, w')) :
    fd = w.maxBlobId ∧ ∃ io blobs, w' = w.opening io blobs 1 := by
  obtain ⟨n, w₁, hid, h⟩ := exec_bind_eq_ok h
  rw [exec_newBlobId] at hid
  cases hid
  obtain ⟨b, w₂, hopen, h⟩ := exec_bind_eq_ok h
  obtain ⟨_, w₃, hput, h⟩ := exec_bind_eq_ok h
  rw [exec_amend] at hput
  cases hput
  cases h
  refine ⟨rfl, ?_⟩
  unfold Blobstore.openExpect at hopen
  split_ifs at hopen
  · rw [exec_bind_ok (exec_nextIo _)] at hopen
    split at hopen
    · rw [exec_bind_ok (exec_blobGet _ _)] at hopen
      obtain ⟨content, w₄, hcontent, hopen⟩ := exec_bind_eq_ok hopen
      obtain ⟨-, rfl⟩ := unwrap_ok hcontent
      cases hopen
      exact ⟨_, _, rfl⟩
    · cases hopen
  · cases hopen

omit [LabelCrate] in
/-- The images of a direct gate get the next three descriptors. -/
theorem showGate_ok {kind : Pb.GateKind} (h : exec (showGate (.direct dg)) w = (.ok kind, w')) :
    kind = .direct (dg.shown w.maxBlobId (w.maxBlobId + 1) (w.maxBlobId + 2)) ∧
      ∃ io blobs, w' = w.opening io blobs 3 := by
  obtain ⟨a, w₁, ha, h⟩ := exec_bind_eq_ok h
  obtain ⟨r, w₂, hr, h⟩ := exec_bind_eq_ok h
  obtain ⟨k, w₃, hk, h⟩ := exec_bind_eq_ok h
  obtain ⟨rfl, io₁, blobs₁, rfl⟩ := openImage_ok ha
  obtain ⟨rfl, io₂, blobs₂, rfl⟩ := openImage_ok hr
  obtain ⟨rfl, io₃, blobs₃, rfl⟩ := openImage_ok hk
  cases h
  exact ⟨rfl, io₃, blobs₃, rfl⟩

/-- What a listing returns, and what it changes. -/
theorem dentLsGate_ok {fd : ℕ} {l : Buckle} {gate : Pb.GateKind} (hfd : w.dents fd = some (.gate u))
    (hu : w.store u = some (.encode (⟨l, .direct dg⟩ : Labeled Gate)))
    (h : exec (doSyscall rounds (.dentLsGate fd)) w =
      (.ok (.sent (.dentLsGateResult true (some gate))), w')) :
    gate = .direct (dg.shown w.maxBlobId (w.maxBlobId + 1) (w.maxBlobId + 2)) ∧
      ∃ io blobs, w' = (w.relabel (lub l w.currentLabel)).opening io blobs 3 := by
  obtain ⟨reply, w₁, hserve, heq⟩ := exec_bind_eq_ok h
  cases heq
  unfold serve dentLsGate at hserve
  rw [exec_bind_ok (exec_dent fd w), hfd] at hserve
  change exec (ObjectRef.read Gate u >>= _) w = _ at hserve
  rw [exec_bind_ok (ObjectRef.exec_read_encode hu)] at hserve
  obtain ⟨kind, w₂, hshow, hret⟩ := exec_bind_eq_ok hserve
  cases hret
  exact showGate_ok hshow

/-! ### The creation -/

omit [LabelCrate] in
theorem exec_imageOf {fd : ℕ} (h : w.dents fd = some (.blob u)) :
    exec (imageOf fd) w = (.ok u, w) := by
  unfold imageOf
  rw [exec_bind_ok (exec_dent fd w), h]
  rfl

omit [LabelCrate] in
theorem exec_component (p : Component) (w : World) :
    exec (component (some (.ofComponent p))) w = (.ok p, w) := by
  unfold component
  rw [exec_bind_ok (exec_unwrap_some _ w), Pb.into_ofComponent]
  rfl

omit [LabelCrate] in
theorem exec_componentOrTrue (p : Component) (w : World) :
    exec (componentOrTrue (some (.ofComponent p))) w = (.ok p, w) := by
  change exec (unwrap (Pb.Component.ofComponent p).into) w = _
  rw [Pb.into_ofComponent]
  rfl

/-- The gate of a message is the one that was shown, but for the images. -/
theorem exec_directGateOf_shown {n₀ n₁ n₂ : ℕ} {a r k : Labeled Blob} (ha : HoldsBlob w n₀ a)
    (hr : HoldsBlob w n₁ r) (hk : HoldsBlob w n₂ k) :
    exec (directGateOf (dg.shown n₀ n₁ n₂)) w =
      (.ok { dg with function := ⟨dg.function.memory, a.data, r.data, k.data⟩ },
        w.relabel (lub k.label (lub r.label (lub a.label w.currentLabel)))) := by
  obtain ⟨ua, hda, hsa⟩ := ha
  obtain ⟨ur, hdr, hsr⟩ := hr
  obtain ⟨uk, hdk, hsk⟩ := hk
  have hread : ∀ {v : Uid} {o : Labeled Blob} (l : Buckle), w.store v = some (.encode o) →
      exec (ObjectRef.read Blob v) (w.relabel l) = (.ok o.data, w.relabel (lub o.label l)) :=
    fun l hv => ObjectRef.exec_read_encode (w := w.relabel l) hv
  unfold directGateOf DirectGate.shown
  rw [exec_bind_ok (exec_unwrap_some _ w), exec_bind_ok (exec_imageOf hda),
    exec_bind_ok (exec_imageOf hdr), exec_bind_ok (exec_imageOf hdk),
    exec_bind_ok (ObjectRef.exec_read_encode hsa), exec_bind_ok (hread _ hsr),
    exec_bind_ok (hread _ hsk), exec_bind_ok (exec_component _ _),
    exec_bind_ok (exec_component _ _), exec_bind_ok (exec_componentOrTrue _ _)]
  rfl

/-- If there is such a gate, the descriptors are those of blob objects. -/
theorem holdsBlob_of_directGateOf {g : DirectGate} {n₀ n₁ n₂ : ℕ}
    (h : exec (directGateOf (dg.shown n₀ n₁ n₂)) w = (.ok g, w')) :
    ∃ a r k : Labeled Blob, HoldsBlob w n₀ a ∧ HoldsBlob w n₁ r ∧ HoldsBlob w n₂ k := by
  obtain ⟨f, w₀, hf, h₁⟩ := exec_bind_eq_ok h
  obtain ⟨hf, rfl⟩ := unwrap_ok hf
  cases hf
  obtain ⟨ua, w₁, hda, h₂⟩ := exec_bind_eq_ok h₁
  obtain ⟨ur, w₂, hdr, h₃⟩ := exec_bind_eq_ok h₂
  obtain ⟨uk, w₃, hdk, h₄⟩ := exec_bind_eq_ok h₃
  obtain ⟨_, w₄, hsa, h₅⟩ := exec_bind_eq_ok h₄
  obtain ⟨_, w₅, hsr, h₆⟩ := exec_bind_eq_ok h₅
  obtain ⟨_, w₆, hsk, -⟩ := exec_bind_eq_ok h₆
  obtain ⟨hda, rfl⟩ := imageOf_ok hda
  obtain ⟨hdr, rfl⟩ := imageOf_ok hdr
  obtain ⟨hdk, rfl⟩ := imageOf_ok hdk
  obtain ⟨a, ha, -, rfl⟩ := ObjectRef.read_ok hsa
  obtain ⟨r, hr, -, rfl⟩ := ObjectRef.read_ok hsr
  obtain ⟨k, hk, -, -⟩ := ObjectRef.read_ok hsk
  exact ⟨a, r, k, ⟨ua, hda, ha⟩, ⟨ur, hdr, hr⟩, ⟨uk, hdk, hk⟩⟩

/-- What a creation of a shown gate that succeeds leaves. -/
theorem create_shown_ok {label : Option Pb.Buckle} {l : Buckle} {n₀ n₁ n₂ fd : ℕ}
    (hl : Pb.labelAsked label = some l)
    (h : exec (doSyscall rounds (.dentCreate label
      (some (.gate (some (.direct (dg.shown n₀ n₁ n₂))))))) w =
        (.ok (.sent (.dentResult true (some fd) none)), w')) :
    ∃ a r k : Labeled Blob, HoldsBlob w n₀ a ∧ HoldsBlob w n₁ r ∧ HoldsBlob w n₂ k ∧
      canFlowToWithPrivilege (lub k.label (lub r.label (lub a.label w.currentLabel))) l w.privilege ∧
      ∃ u, w'.dents fd = some (.gate u) ∧ w'.store u = some (.encode (⟨l, .direct
        { dg with function := ⟨dg.function.memory, a.data, r.data, k.data⟩ }⟩ : Labeled Gate)) := by
  obtain ⟨reply, w₁, hserve, heq⟩ := exec_bind_eq_ok h
  cases heq
  obtain ⟨l', w₂, hconv, hcreate⟩ := exec_bind_eq_ok hserve
  obtain ⟨rfl, hasked⟩ := Mutations.convertLabel_ok hconv
  obtain rfl : l'.getD publicLabel = l := Option.some_injective _ (hasked.symm.trans hl)
  obtain ⟨e, w₃, hentry, hret⟩ := exec_bind_eq_ok (orFailure_ok hcreate)
  obtain ⟨g, w₄, hgate, hnew⟩ := exec_bind_eq_ok hentry
  obtain ⟨a, r, k, ha, hr, hk⟩ := holdsBlob_of_directGateOf hgate
  rw [exec_directGateOf_shown ha hr hk] at hgate
  cases hgate
  unfold FS.createDirectGate at hnew
  obtain ⟨_, w₅, hcheck, hnew₁⟩ := exec_bind_eq_ok hnew
  obtain ⟨hflow, rfl⟩ := checkCreate_ok hcheck
  obtain ⟨_, w₆, hpriv, hnew₂⟩ := exec_bind_eq_ok hnew₁
  obtain ⟨-, rfl⟩ := checkDelegate_ok hpriv
  obtain ⟨_, w₇, hdecl, hnew₃⟩ := exec_bind_eq_ok hnew₂
  obtain ⟨-, rfl⟩ := checkDelegate_ok hdecl
  obtain ⟨u, w₈, hset, hentry'⟩ := exec_bind_eq_ok hnew₃
  cases hentry'
  obtain ⟨-, rand, rfl⟩ := ObjectRef.setNewId_ok hset
  rw [exec_bind_ok (exec_newDent _ _)] at hret
  cases hret
  exact ⟨a, r, k, ha, hr, hk, hflow, u, Function.update_self .., Store.put_self ..⟩

/-- A creation of a shown gate, when its descriptors are those of blob objects. -/
theorem exec_create_shown {label : Option Pb.Buckle} {l : Buckle} {n₀ n₁ n₂ : ℕ} {a r k : Labeled Blob}
    (hl : Pb.labelAsked label = some l) (hpriv : implies w.privilege dg.privilege)
    (hdecl : implies w.privilege dg.declassify) (hdraws : Integrity.Draws rounds w)
    (ha : HoldsBlob w n₀ a) (hr : HoldsBlob w n₁ r) (hk : HoldsBlob w n₂ k)
    (hflow : canFlowToWithPrivilege (lub k.label (lub r.label (lub a.label w.currentLabel))) l
      w.privilege) :
    Recreated rounds w label (.direct (dg.shown n₀ n₁ n₂)) l
      { dg with function := ⟨dg.function.memory, a.data, r.data, k.data⟩ } := by
  obtain ⟨l', hconv, rfl⟩ : ∃ l', exec (convertLabel label) w = (.ok l', w) ∧
      l'.getD publicLabel = l := by
    cases label with
    | none => exact ⟨none, rfl, Option.some_injective _ hl⟩
    | some b =>
      refine ⟨some l, ?_, rfl⟩
      change exec (unwrap b.into >>= _) w = _
      rw [show b.into = some l from hl]
      rfl
  let w₁ := w.relabel (lub k.label (lub r.label (lub a.label w.currentLabel)))
  let g : DirectGate := { dg with function := ⟨dg.function.memory, a.data, r.data, k.data⟩ }
  have hdraws₁ : Integrity.Draws rounds w₁ := hdraws
  obtain ⟨u, rand, hfree, hset⟩ :=
    hdraws₁.exec_setNewId (⟨l'.getD publicLabel, .direct g⟩ : Labeled Gate)
  have hcreate : exec (createEntry rounds (.gate (some (.direct (dg.shown n₀ n₁ n₂))))
      (l'.getD publicLabel)) w =
        (.ok (.gate u), { w₁ with
          rand := rand
          store := w₁.store.put u
            (.encode (⟨l'.getD publicLabel, .direct g⟩ : Labeled Gate)) }) := by
    have hcheck := (FS.exec_checkCreate (l'.getD publicLabel) w₁).trans (if_pos hflow)
    have hp := (exec_checkDelegate dg.privilege w₁).trans (if_pos hpriv)
    have hd := (exec_checkDelegate dg.declassify w₁).trans (if_pos hdecl)
    unfold createEntry FS.createDirectGate
    rw [exec_bind_ok (exec_directGateOf_shown ha hr hk)]
    exact (exec_bind_ok hcheck).trans ((exec_bind_ok hp).trans ((exec_bind_ok hd).trans
      (exec_bind_ok hset)))
  generalize hw₂ : ({ w₁ with
    rand := rand
    store := w₁.store.put u (.encode (⟨l'.getD publicLabel, .direct g⟩ : Labeled Gate)) } : World) = w₂
      at hcreate
  have hstore : w₂.store u = some (.encode (⟨l'.getD publicLabel, .direct g⟩ : Labeled Gate)) := by
    rw [← hw₂]
    exact Store.put_self ..
  have hdent : exec (dentCreate rounds (.gate (some (.direct (dg.shown n₀ n₁ n₂)))) l') w =
      (.ok (.dentResult true (some w₂.maxDentId) none),
        w₂.withThread (w₂.toThread.addDent (.gate u))) := by
    unfold dentCreate
    exact (exec_bind_ok hcreate).trans (exec_bind_ok (exec_newDent _ w₂))
  have hserve : exec (serve rounds (.dentCreate label
      (some (.gate (some (.direct (dg.shown n₀ n₁ n₂))))))) w =
        (.ok (.dentResult true (some w₂.maxDentId) none),
          w₂.withThread (w₂.toThread.addDent (.gate u))) := by
    refine (exec_bind_ok hconv).trans ?_
    unfold orFailure
    rw [exec_bind, exec_result, hdent]
    rfl
  exact ⟨w₂.maxDentId, u, _, exec_bind_ok hserve, Function.update_self .., hfree, hstore⟩

/-- **When a listed gate can be created again.** The message of a listing, sent back in a `DentCreate`, makes
a gate with the same contents if and only if the descriptors that the listing has given to the images among
the blobs are, among the entries, those of blob objects with just these images. -/
theorem relisted_iff {fd : ℕ} {l l' : Buckle} {gate : Pb.GateKind} {label : Option Pb.Buckle}
    (hfd : w.dents fd = some (.gate u))
    (hu : w.store u = some (.encode (⟨l, .direct dg⟩ : Labeled Gate)))
    (hpriv : implies w.privilege dg.privilege) (hdecl : implies w.privilege dg.declassify)
    (hlist : exec (doSyscall rounds (.dentLsGate fd)) w =
      (.ok (.sent (.dentLsGateResult true (some gate))), w'))
    (hlabel : Pb.labelAsked label = some l') (hdraws : Integrity.Draws rounds w') :
    Recreated rounds w' label gate l' dg ↔ Coincides (w.relabel (lub l w.currentLabel)) l' dg := by
  obtain ⟨rfl, io, blobs, rfl⟩ := dentLsGate_ok hfd hu hlist
  constructor
  · rintro ⟨fd', u', w₂, hcreate, hfd', -, hu'⟩
    obtain ⟨a, r, k, ha, hr, hk, hflow, v, hv, hstore⟩ := create_shown_ok hlabel hcreate
    cases hfd'.symm.trans hv
    have hdata := encode_inj hu' hstore
    have hfun : dg.function = ⟨dg.function.memory, a.data, r.data, k.data⟩ := by
      have hgate := Gate.direct.inj (congrArg Labeled.data hdata)
      exact (congrArg DirectGate.function hgate).symm
    refine ⟨a, r, k, ha, hr, hk, ?_, ?_, ?_, hflow⟩
    · exact (congrArg Function.appImage hfun).symm
    · exact (congrArg Function.runtimeImage hfun).symm
    · exact (congrArg Function.kernel hfun).symm
  · rintro ⟨a, r, k, ha, hr, hk, hda, hdr, hdk, hflow⟩
    have h := exec_create_shown (w := (w.relabel (lub l w.currentLabel)).opening io blobs 3) hlabel
      hpriv hdecl hdraws ha hr hk hflow
    rw [hda, hdr, hdk] at h
    exact h

end Faasten

/-! ### A gate and its images -/

namespace Faasten.Relisting

open Effect SyscallProcessor
open scoped Dc

/-- The gate. -/
def dg : DirectGate where
  privilege := .dcTrue
  invokerIntegrityClearance := .dcTrue
  declassify := .dcTrue
  function := { memory := 128, appImage := "app", runtimeImage := "runtime", kernel := "kernel" }

/-- A public gate under uid 1, and blob objects for its images. -/
def store : Store :=
  (((Store.empty.put 1 (.encode (⟨publicLabel, .direct dg⟩ : Labeled Gate))).put
    11 (.encode (⟨publicLabel, "app"⟩ : Labeled Blob))).put
    12 (.encode (⟨publicLabel, "runtime"⟩ : Labeled Blob))).put
    13 (.encode (⟨publicLabel, "kernel"⟩ : Labeled Blob))

/-- A thread with these entries open, under descriptors from 0 on. -/
def world (entries : List DirEntry) : World :=
  { World.quiet { Thread.idle publicLabel with
      dents := fun fd => entries[fd]?
      maxDentId := entries.length
      maxBlobId := 1 } store with
    blobstore := fun _ => some []
    io := .const (.ok 1) }

/-- The gate is open under this descriptor, and listed. -/
def listed (entries : List DirEntry) (fd : ℕ) : World :=
  (exec (doSyscall 1 (.dentLsGate fd)) (world entries)).2

/-- The entries next to the gate are its images, in their order. -/
def matching : List DirEntry := [.directory 0, .blob 11, .blob 12, .blob 13, .gate 1]

theorem matching_recreated :
    Recreated 1 (listed matching 4) none (.direct (dg.shown 1 2 3)) publicLabel dg := by
  have hlist : exec (doSyscall 1 (.dentLsGate 4)) (world matching) =
      (.ok (.sent (.dentLsGateResult true (some (.direct (dg.shown 1 2 3))))), listed matching 4) :=
    Prod.ext (by decide +kernel) rfl
  have hu : (world matching).store 1 = some (.encode (⟨publicLabel, .direct dg⟩ : Labeled Gate)) := rfl
  have hlabel : Pb.labelAsked none = some publicLabel := rfl
  refine (relisted_iff rfl hu (by decide +kernel) (by decide +kernel) hlist hlabel
    ⟨0, by decide, by decide +kernel⟩).2 ?_
  refine ⟨⟨publicLabel, "app"⟩, ⟨publicLabel, "runtime"⟩, ⟨publicLabel, "kernel"⟩, ⟨11, rfl, rfl⟩,
    ⟨12, rfl, rfl⟩, ⟨13, rfl, rfl⟩, rfl, rfl, rfl, by decide +kernel⟩

/-- A new processor that has opened the gate: the descriptors of the images are no entries, and the creation
fails. With the images open in another order it makes another gate. -/
theorem not_recreated :
    (exec (doSyscall 1 (.dentLsGate 1)) (world [.directory 0, .gate 1])).1 =
        .ok (.sent (.dentLsGateResult true (some (.direct (dg.shown 1 2 3))))) ∧
      ¬ Recreated 1 (listed [.directory 0, .gate 1] 1) none (.direct (dg.shown 1 2 3)) publicLabel dg ∧
      (exec (doSyscall 1 (.dentCreate none (some (.gate (some (.direct (dg.shown 1 2 3)))))))
        (listed [.directory 0, .blob 13, .blob 12, .blob 11, .gate 1] 4)).2.store 100 =
          some (.encode (⟨publicLabel, .direct { dg with
            function := ⟨128, "kernel", "runtime", "app"⟩ }⟩ : Labeled Gate)) := by
  refine ⟨by decide +kernel, ?_, by decide +kernel⟩
  rintro ⟨fd, u, w', h, -⟩
  have hfails : (exec (doSyscall 1 (.dentCreate none (some (.gate (some (.direct (dg.shown 1 2 3)))))))
      (listed [.directory 0, .gate 1] 1)).1 = .ok (.sent (.dentResult false none none)) := by
    decide +kernel
  rw [h] at hfails
  cases hfails

end Faasten.Relisting
