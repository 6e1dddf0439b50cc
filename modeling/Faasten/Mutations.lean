import Mathlib
import Faasten.DcLabels
import Faasten.Syscall.Server

/-!
# Failed mutations

What `DentCreate`, `DentUpdate`, `DentLink` and `DentUnlink` leave behind when their reply says that they
failed. All but one of them check before they write: up to the last point at which they can fail they only
read, and reading raises the label and does nothing else (`Reads`, `Clean`). The exception is the
creation of a blob, which creates an empty object first, and then checks whether it may be written.
`failure_traceless_iff` says that this is the only trace there is.
-/

namespace Faasten

open Std Effect SyscallProcessor

namespace Mutations

variable {α β : Type} {T : Type}

/-! ### Programs that return no error -/

/-- The program never returns an error. -/
def Sure (m : M α) : Prop := ∀ w e w', exec m w ≠ (.error (.err e), w')

theorem sure_pure (a : α) : Sure (pure a : M α) := nofun

theorem Sure.bind {m : M α} {f : α → M β} (hm : Sure m) (hf : ∀ a, Sure (f a)) :
    Sure (m >>= f) := by
  intro w e w' h
  rcases hx : exec m w with ⟨e' | a, w₁⟩
  · rw [exec_bind_error hx] at h
    cases h
    exact hm w e w' hx
  · rw [exec_bind_ok hx] at h
    exact hf a w₁ e w' h

theorem sure_setNewId [Codec T] (n : ℕ) (v : T) : Sure (ObjectRef.setNewId n v) := by
  intro w e w' h
  obtain ⟨r, hr⟩ | ⟨u, r, -, hr⟩ := ObjectRef.exec_setNewId n v w
  · rw [hr] at h
    cases h
  · rw [hr] at h
    cases h

theorem sure_newDent (e : DirEntry) : Sure (newDent e) := by
  intro w e' w' h
  rw [exec_newDent] at h
  cases h

end Mutations

variable [LabelCrate]

/-- The worlds differ at most in the current label, which was raised. -/
def World.OnlyRaised (w w' : World) : Prop := ∃ l, canFlowTo w.currentLabel l ∧ w' = w.relabel l

namespace Mutations

section Raising

variable [LawfulCrate] {w w' w'' : World}

theorem onlyRaised_refl (w : World) : w.OnlyRaised w := ⟨_, LawfulCrate.flow_refl _, rfl⟩

theorem onlyRaised_trans (h : w.OnlyRaised w') (h' : w'.OnlyRaised w'') : w.OnlyRaised w'' := by
  obtain ⟨l, hl, rfl⟩ := h
  obtain ⟨l', hl', rfl⟩ := h'
  exact ⟨l', LawfulCrate.flow_trans hl hl', rfl⟩

theorem onlyRaised_lub (l : Buckle) (w : World) : w.OnlyRaised (w.relabel (lub l w.currentLabel)) :=
  ⟨_, LawfulCrate.flow_lub_right l w.currentLabel, rfl⟩

end Raising

/-! ### Programs that only read before they fail -/

variable {α β : Type} {T : Type}

/-- Whatever becomes of the program, it only raises the label. -/
def Reads (m : M α) : Prop := ∀ w : World, w.OnlyRaised (exec m w).2

/-- If the program returns an error, then it has only raised the label. -/
def Clean (m : M α) : Prop := ∀ (w : World) e w', exec m w = (.error (.err e), w') → w.OnlyRaised w'

theorem Reads.clean {m : M α} (hm : Reads m) : Clean m := fun w e w' h => by
  have hw := hm w
  rwa [h] at hw

theorem Sure.clean {m : M α} (hm : Sure m) : Clean m := fun w e w' h => absurd h (hm w e w')

/-- What cannot fail may follow what is clean. -/
theorem Clean.bind_sure {m : M α} {f : α → M β} (hm : Clean m) (hf : ∀ a, Sure (f a)) :
    Clean (m >>= f) := by
  intro w e w' h
  rcases hx : exec m w with ⟨e' | a, w₁⟩
  · rw [exec_bind_error hx] at h
    cases h
    exact hm w e w' hx
  · rw [exec_bind_ok hx] at h
    exact absurd h (hf a w₁ e w')

section Reading

variable [LawfulCrate]

theorem Reads.bind {m : M α} {f : α → M β} (hm : Reads m) (hf : ∀ a, Reads (f a)) :
    Reads (m >>= f) := by
  intro w
  have hw := hm w
  rcases hx : exec m w with ⟨e | a, w₁⟩
  · rw [hx] at hw
    rw [exec_bind_error hx]
    exact hw
  · rw [hx] at hw
    rw [exec_bind_ok hx]
    exact onlyRaised_trans hw (hf a w₁)

/-- What is clean may follow what only reads. -/
theorem Reads.bind_clean {m : M α} {f : α → M β} (hm : Reads m) (hf : ∀ a, Clean (f a)) :
    Clean (m >>= f) := by
  intro w e w' h
  have hw := hm w
  rcases hx : exec m w with ⟨e' | a, w₁⟩
  · rw [hx] at hw
    rw [exec_bind_error hx] at h
    cases h
    exact hw
  · rw [hx] at hw
    rw [exec_bind_ok hx] at h
    exact onlyRaised_trans hw (hf a w₁ e w' h)

/-! ### Reading -/

theorem reads_of_same {m : M α} (h : ∀ w, (exec m w).2 = w) : Reads m := fun w => by
  rw [h w]
  exact onlyRaised_refl w

theorem reads_pure (a : α) : Reads (pure a : M α) := reads_of_same fun _ => rfl

theorem reads_raise (e : Raised) : Reads (.raise e : M α) := reads_of_same fun _ => rfl

theorem reads_unwrap (a : Option α) : Reads (unwrap a) := by
  cases a with
  | none => exact reads_raise _
  | some a => exact reads_pure a

theorem reads_inspect (f : Thread → α) : Reads (inspect f) := reads_of_same fun _ => rfl

theorem reads_dent (fd : ℕ) : Reads (dent fd) := reads_inspect _

theorem reads_get [Codec T] (u : Uid) : Reads (ObjectRef.get T u) := reads_of_same fun _ => rfl

theorem reads_unlabel (o : Labeled T) : Reads o.unlabel := fun w => onlyRaised_lub o.label w

theorem reads_read [LabeledCodec T] (u : Uid) : Reads (ObjectRef.read T u) :=
  (reads_get u).bind fun _ => (reads_unwrap _).bind fun o => reads_unlabel o

theorem reads_checkDelegate (q : Component) : Reads (checkDelegate q) := reads_of_same fun w => by
  rw [exec_checkDelegate]
  split_ifs <;> rfl

theorem reads_checkCreate (l : Buckle) : Reads (FS.checkCreate l) := reads_of_same fun w => by
  rw [FS.exec_checkCreate]
  split_ifs <;> rfl

theorem reads_imageOf (fd : ℕ) : Reads (imageOf fd) := by
  refine (reads_dent fd).bind fun e => ?_
  split
  · exact reads_raise _
  · exact reads_pure _
  · exact reads_raise _

theorem reads_component (c : Option Pb.Component) : Reads (component c) :=
  (reads_unwrap _).bind fun _ => reads_unwrap _

theorem reads_componentOrTrue (c : Option Pb.Component) : Reads (componentOrTrue c) := by
  unfold componentOrTrue
  split
  · exact reads_unwrap _
  · exact reads_pure _

theorem reads_directGateOf (dg : Pb.DirectGate) : Reads (directGateOf dg) :=
  (reads_unwrap _).bind fun _ => (reads_imageOf _).bind fun _ => (reads_imageOf _).bind fun _ =>
    (reads_imageOf _).bind fun _ => (reads_read _).bind fun _ => (reads_read _).bind fun _ =>
      (reads_read _).bind fun _ => (reads_component _).bind fun _ => (reads_component _).bind fun _ =>
        (reads_componentOrTrue _).bind fun _ => reads_pure _

theorem reads_redirectGateOf (rd : Pb.RedirectGate) (u : Uid) : Reads (redirectGateOf rd u) :=
  (reads_component _).bind fun _ => (reads_component _).bind fun _ =>
    (reads_componentOrTrue _).bind fun _ => reads_pure _

theorem reads_serviceOf (s : Pb.Service) : Reads (serviceOf s) :=
  (reads_unwrap _).bind fun _ => (reads_unwrap _).bind fun _ => (reads_component _).bind fun _ =>
    (reads_component _).bind fun _ => reads_pure _

theorem reads_updateImage (fd : ℕ) (old : String) : Reads (updateImage fd old) := by
  unfold updateImage
  split_ifs
  · exact (reads_imageOf _).bind fun _ => reads_read _
  · exact reads_pure _

theorem reads_updateFunction (f : Option Pb.Function) (old : Function) :
    Reads (updateFunction f old) := by
  unfold updateFunction
  split
  · exact reads_pure _
  · exact (reads_updateImage _ _).bind fun _ => (reads_updateImage _ _).bind fun _ =>
      (reads_updateImage _ _).bind fun _ => reads_pure _

theorem reads_updateComponent (c : Option Pb.Component) (old : Component) :
    Reads (updateComponent c old) := by
  unfold updateComponent
  split
  · exact reads_unwrap _
  · exact reads_pure _

theorem reads_readGate (u : Uid) : Reads (readGate u) := by
  refine (reads_get u).bind fun e => ?_
  split
  · exact (reads_unlabel _).bind fun _ => reads_pure _
  · exact reads_pure _

/-! ### Writing -/

theorem clean_overwrite [LabeledCodec T] (u : Uid) (v : T) : Clean (ObjectRef.overwrite u v) := by
  intro w e w' h
  rcases ho : (w.store u).bind (Stored.decode (T := Labeled T)) with _ | o
  · rw [ObjectRef.exec_overwrite_none ho] at h
    cases h
  · rw [ObjectRef.exec_overwrite ho] at h
    split_ifs at h
    · cases h
    · cases h
      exact onlyRaised_refl w

theorem clean_createDirectGate (rounds : ℕ) (l : Buckle) (g : DirectGate) :
    Clean (FS.createDirectGate rounds l g) :=
  (reads_checkCreate l).bind_clean fun _ => (reads_checkDelegate _).bind_clean fun _ =>
    (reads_checkDelegate _).bind_clean fun _ =>
      ((sure_setNewId rounds _).bind fun _ => sure_pure _).clean

theorem clean_createRedirectGate (rounds : ℕ) (l : Buckle) (g : RedirectGate) :
    Clean (FS.createRedirectGate rounds l g) :=
  (reads_checkCreate l).bind_clean fun _ => (reads_checkDelegate _).bind_clean fun _ =>
    (reads_checkDelegate _).bind_clean fun _ =>
      ((sure_setNewId rounds _).bind fun _ => sure_pure _).clean

theorem clean_createService (rounds : ℕ) (l : Buckle) (s : Service) :
    Clean (FS.createService rounds l s) :=
  (reads_checkCreate l).bind_clean fun _ => (reads_checkDelegate _).bind_clean fun _ =>
    ((sure_setNewId rounds _).bind fun _ => sure_pure _).clean

/-- Every creator but that of blobs checks before it allocates. -/
theorem clean_createEntry (rounds : ℕ) {kind : Pb.CreateKind} (l : Buckle)
    (hblob : ∀ fd, kind ≠ .blob fd) : Clean (createEntry rounds kind l) := by
  cases kind with
  | directory => exact ((sure_setNewId rounds _).bind fun _ => sure_pure _).clean
  | file => exact ((sure_setNewId rounds _).bind fun _ => sure_pure _).clean
  | facetedDirectory => exact ((sure_setNewId rounds _).bind fun _ => sure_pure _).clean
  | gate k =>
    rcases k with _ | ⟨dg | rd⟩
    · exact (reads_raise _).clean
    · exact (reads_directGateOf dg).bind_clean fun _ => clean_createDirectGate rounds l _
    · refine (reads_dent _).bind_clean fun e => ?_
      split
      · exact (reads_redirectGateOf rd _).bind_clean fun _ => clean_createRedirectGate rounds l _
      · exact (reads_raise _).clean
  | service s => exact (reads_serviceOf s).bind_clean fun _ => clean_createService rounds l _
  | blob fd => exact absurd rfl (hblob fd)

theorem clean_updateGate (u : Uid) (kind : Pb.GateKind) : Clean (updateGate u kind) := by
  have replace (g : Gate) : Clean (Gate.replace u g) :=
    (reads_checkDelegate _).bind_clean fun _ => clean_overwrite u g
  cases kind with
  | direct dg =>
    refine (reads_readGate u).bind_clean fun g => ?_
    split
    · exact (reads_updateFunction _ _).bind_clean fun _ =>
        (reads_updateComponent _ _).bind_clean fun _ =>
          (reads_updateComponent _ _).bind_clean fun _ => replace _
    · exact (reads_raise _).clean
  | redirect rd =>
    refine (reads_readGate u).bind_clean fun g => ?_
    split
    · refine (reads_dent _).bind_clean fun e => ?_
      split
      · exact (reads_updateComponent _ _).bind_clean fun _ =>
          (reads_updateComponent _ _).bind_clean fun _ => replace _
      · exact (reads_raise _).clean
    · exact (reads_raise _).clean

theorem clean_updateEntry (fd : ℕ) (kind : Pb.UpdateKind) : Clean (updateEntry fd kind) := by
  cases kind with
  | file data =>
    refine (reads_dent fd).bind_clean fun e => ?_
    split
    · exact clean_overwrite _ _
    · exact (reads_raise _).clean
  | gate kind =>
    refine (reads_dent fd).bind_clean fun e => ?_
    split
    · exact clean_updateGate _ _
    · exact (reads_raise _).clean
  | service s =>
    refine (reads_dent fd).bind_clean fun e => ?_
    split
    · exact (reads_serviceOf s).bind_clean fun _ =>
        (reads_checkDelegate _).bind_clean fun _ => clean_overwrite _ _
    · exact (reads_raise _).clean
  | blob blobFd =>
    refine (reads_inspect _).bind_clean fun b => ?_
    split
    · exact (reads_raise _).clean
    · refine (reads_dent fd).bind_clean fun e => ?_
      split
      · exact clean_overwrite _ _
      · exact (reads_raise _).clean

/-- An update of a directory that returns an error, or finds nothing to do, has only read it. -/
theorem update_onlyRaised {rounds : ℕ} {u : Uid} {f : Directory → Bool × Directory} {skip : Bool}
    {w w' : World} {r : Except Raised Bool}
    (h : exec (ObjectRef.get (Labeled Directory) u >>= fun d => unwrap d >>= fun d =>
      Directory.updateLoop u f skip rounds d) w = (r, w')) (hr : r ≠ .ok true) :
    w.OnlyRaised w' := by
  rw [exec_bind_ok (ObjectRef.exec_get u w)] at h
  rcases ho : (w.store u).bind (Stored.decode (T := Labeled Directory)) with _ | d
  · rw [ho, exec_bind_error (exec_unwrap_none w)] at h
    cases h
    exact onlyRaised_refl w
  · rw [ho, exec_bind_ok (exec_unwrap_some d w)] at h
    cases rounds with
    | zero =>
      cases h
      exact onlyRaised_refl w
    | succ n =>
      rw [Directory.exec_updateLoop (decode_eq_some ho)] at h
      split_ifs at h
      · cases h
        exact onlyRaised_lub _ w
      · cases h
        exact absurd rfl hr
      · cases h
        exact onlyRaised_lub _ w

/-! ### The calls -/

omit [LawfulCrate] in
theorem sent_ok {rounds : ℕ} {sc : Pb.Syscall} {reply : Pb.Reply} {w w' : World}
    (h : exec (doSyscall rounds sc) w = (.ok (.sent reply), w')) :
    exec (serve rounds sc) w = (.ok reply, w') := by
  have hserve : exec (serve rounds sc >>= fun r => pure (Outcome.sent r)) w =
      (.ok (.sent reply), w') := by
    cases sc with
    | response r =>
      obtain ⟨_, _, -, h⟩ := exec_bind_eq_ok h
      cases h
    | _ => exact h
  obtain ⟨_, _, hx, h⟩ := exec_bind_eq_ok hserve
  cases h
  exact hx

omit [LabelCrate] [LawfulCrate] in
/-- The reply to a call that may fail is its own, or reports its error. -/
theorem orFailure_ok {m : M Pb.Reply} {reply : Pb.Reply} {w w' : World}
    (h : exec (orFailure m) w = (.ok reply, w')) :
    exec m w = (.ok reply, w') ∨ ∃ e, exec m w = (.error (.err e), w') := by
  obtain ⟨r, w₁, hx, h⟩ := exec_bind_eq_ok h
  rw [exec_result] at hx
  rcases hm : exec m w with ⟨e | a, w₂⟩
  · rw [hm] at hx
    cases e with
    | err e =>
      cases hx
      cases h
      exact .inr ⟨e, rfl⟩
    | panic => cases hx
    | diverge => cases hx
  · rw [hm] at hx
    cases hx
    cases h
    exact .inl rfl

omit [LawfulCrate] in
/-- A blob that cannot be created was created empty, unless there is nothing to put into it. -/
theorem createBlob_error {rounds fd : ℕ} {l : Buckle} {e : FsError} {w w' : World}
    (h : exec (createEntry rounds (.blob fd) l) w = (.error (.err e), w')) :
    (w.blobs fd = none ∧ w' = w) ∨
      (w.blobs fd ≠ none ∧ ¬canFlowToWithPrivilege w.currentLabel l w.privilege ∧
        ∃ u, w.store u = none ∧ w'.store u = some (.encode (⟨l, ""⟩ : Labeled Blob))) := by
  unfold createEntry at h
  rw [exec_bind_ok (exec_inspect _ w)] at h
  rcases hb : w.blobs fd with _ | blob
  · rw [hb] at h
    cases h
    exact .inl ⟨rfl, rfl⟩
  · refine .inr ⟨Option.some_ne_none _, ?_⟩
    rw [hb] at h
    unfold FS.createBlob ObjectRef.create at h
    obtain ⟨r, hr⟩ | ⟨u, r, hu, hr⟩ :=
      ObjectRef.exec_setNewId rounds (⟨l, default⟩ : Labeled Blob) w
    · rw [exec_bind_error hr] at h
      cases h
    · rw [exec_bind_ok hr] at h
      have hnew : ((w.store.put u (.encode (⟨l, default⟩ : Labeled Blob))) u).bind Stored.decode =
          some (⟨l, default⟩ : Labeled Blob) := by
        rw [Store.put_self, Option.bind_some, Stored.decode_encode]
      unfold Blob.replace at h
      rw [exec_bind, ObjectRef.exec_overwrite hnew] at h
      by_cases hf : canFlowToWithPrivilege w.currentLabel l w.privilege
      · rw [if_pos hf] at h
        cases h
      · rw [if_neg hf] at h
        cases h
        exact ⟨hf, u, hu, Store.put_self ..⟩

end Reading

end Mutations

/-- The calls that create or change something in the store. -/
def Pb.Syscall.mutates : Pb.Syscall → Bool
  | .dentCreate _ _ => true
  | .dentUpdate _ _ => true
  | .dentLink _ _ _ => true
  | .dentUnlink _ _ => true
  | _ => false

/-- The label that a `DentCreate` asks for, if it can be converted. -/
def Pb.labelAsked (label : Option Pb.Buckle) : Option Faasten.Buckle :=
  label.elim (some publicLabel) (·.into)

/-- The call creates a blob object, from an open blob, with a label that the current label may not flow
to. -/
def LeavesBlob (w : World) (sc : Pb.Syscall) : Prop :=
  ∃ label fd l, sc = .dentCreate label (some (.blob fd)) ∧ w.blobs fd ≠ none ∧
    Pb.labelAsked label = some l ∧ ¬canFlowToWithPrivilege w.currentLabel l w.privilege

namespace Mutations

variable {w w' : World}

theorem convertLabel_ok {label : Option Pb.Buckle} {l : Option Buckle}
    (h : exec (convertLabel label) w = (.ok l, w')) :
    w' = w ∧ Pb.labelAsked label = some (l.getD publicLabel) := by
  cases label with
  | none => cases h; exact ⟨rfl, rfl⟩
  | some b =>
    obtain ⟨l', w₁, hx, hret⟩ := exec_bind_eq_ok h
    obtain ⟨hl, rfl⟩ := unwrap_ok hx
    cases hret
    exact ⟨rfl, hl⟩

variable [LawfulCrate] {rounds : ℕ} {reply : Pb.Reply}

theorem create_traceless_iff {label : Option Pb.Buckle} {kind : Option Pb.CreateKind}
    (h : exec (create rounds label kind) w = (.ok reply, w')) (hfail : reply.success? = some false) :
    w.OnlyRaised w' ↔ ¬LeavesBlob w (.dentCreate label kind) := by
  obtain ⟨l, w₁, hl, hcreate⟩ := exec_bind_eq_ok h
  obtain ⟨rfl, hasked⟩ := convertLabel_ok hl
  cases kind with
  | none =>
    cases hcreate
    exact iff_of_true (onlyRaised_refl _) (by rintro ⟨_, _, _, ⟨⟩, -⟩)
  | some kind =>
    rcases orFailure_ok hcreate with hok | ⟨e, herror⟩
    · obtain ⟨entry, w₂, -, hret⟩ := exec_bind_eq_ok hok
      cases hret
      cases hfail
    · have herr : exec (createEntry rounds kind (l.getD publicLabel)) w₁ = (.error (.err e), w') := by
        unfold dentCreate at herror
        rcases hx : exec (createEntry rounds kind (l.getD publicLabel)) w₁ with ⟨e' | entry, w₂⟩
        · rw [exec_bind_error hx] at herror
          cases herror
          rfl
        · rw [exec_bind_ok hx] at herror
          cases herror
      by_cases hblob : ∃ fd, kind = .blob fd
      · obtain ⟨fd, rfl⟩ := hblob
        rcases createBlob_error herr with ⟨hnone, rfl⟩ | ⟨hopen, hflow, u, hu, hu'⟩
        · refine iff_of_true (onlyRaised_refl w') ?_
          rintro ⟨_, _, _, ⟨⟩, hopen, -⟩
          exact hopen hnone
        · refine iff_of_false ?_ fun hno => hno ⟨_, _, _, rfl, hopen, hasked, hflow⟩
          rintro ⟨l', -, rfl⟩
          rw [World.relabel_store, hu] at hu'
          cases hu'
      · refine iff_of_true (clean_createEntry rounds _ (fun fd hk => hblob ⟨fd, hk⟩) w₁ e w' herr) ?_
        rintro ⟨_, fd, _, ⟨⟩, -⟩
        exact hblob ⟨fd, rfl⟩

theorem update_traceless {fd : ℕ} {kind : Option Pb.UpdateKind}
    (h : exec (update fd kind) w = (.ok reply, w')) (hfail : reply.success? = some false) :
    w.OnlyRaised w' := by
  cases kind with
  | none =>
    cases h
    exact onlyRaised_refl w
  | some kind =>
    rcases orFailure_ok h with h | ⟨e, h⟩
    · obtain ⟨_, _, -, h⟩ := exec_bind_eq_ok h
      cases h
      cases hfail
    · unfold dentUpdate at h
      rcases hx : exec (updateEntry fd kind) w with ⟨e' | a, w₂⟩
      · rw [exec_bind_error hx] at h
        cases h
        exact clean_updateEntry fd kind w e w' hx
      · rw [exec_bind_ok hx] at h
        cases h

theorem link_traceless {dirFd targetFd : ℕ} {name : String}
    (h : exec (dentLink rounds dirFd name targetFd) w = (.ok reply, w'))
    (hfail : reply.success? = some false) : w.OnlyRaised w' := by
  unfold dentLink at h
  rw [exec_bind_ok (exec_dent _ w), exec_bind_ok (exec_dent _ w)] at h
  split at h
  · obtain ⟨r, w₁, hx, h⟩ := exec_bind_eq_ok h
    rw [exec_result] at hx
    rcases hm : exec (Directory.link rounds _ name _) w with ⟨e | b, w₂⟩
    · rw [hm] at hx
      cases e with
      | err e =>
        cases hx
        cases h
        exact update_onlyRaised hm nofun
      | panic => cases hx
      | diverge => cases hx
    · rw [hm] at hx
      cases hx
      cases h
      cases hfail
  · cases h
    exact onlyRaised_refl w

theorem unlink_traceless {fd : ℕ} {name : String}
    (h : exec (dentUnlink rounds fd name) w = (.ok reply, w'))
    (hfail : reply.success? = some false) : w.OnlyRaised w' := by
  unfold dentUnlink at h
  rw [exec_bind_ok (exec_dent _ w)] at h
  split at h
  · obtain ⟨r, w₁, hx, h⟩ := exec_bind_eq_ok h
    rw [exec_result] at hx
    rcases hm : exec (Directory.unlink rounds _ name) w with ⟨e | existed, w₂⟩
    · rw [hm] at hx
      cases e with
      | err e =>
        cases hx
        cases h
        exact update_onlyRaised hm nofun
      | panic => cases hx
      | diverge => cases hx
    · rw [hm] at hx
      cases hx
      cases h
      -- the name was not there, and nothing was written
      cases hfail
      exact update_onlyRaised hm nofun
  · cases h
    exact onlyRaised_refl w

end Mutations

open Mutations in
/-- **A mutation that fails leaves no trace if and only if it is not the creation of a blob object that
the thread may not write.** All that any other one has done when its reply says `success = false`, in any
state, is to raise the current label. -/
theorem failure_traceless_iff [LawfulCrate] {rounds : ℕ} {sc : Pb.Syscall} {reply : Pb.Reply}
    {w w' : World} (hsc : sc.mutates) (hx : exec (doSyscall rounds sc) w = (.ok (.sent reply), w'))
    (hfail : reply.success? = some false) : w.OnlyRaised w' ↔ ¬LeavesBlob w sc := by
  have hserve := sent_ok hx
  have hother : (∀ label kind, sc ≠ .dentCreate label kind) → ¬LeavesBlob w sc := by
    rintro hne ⟨label, fd, l, rfl, -⟩
    exact hne _ _ rfl
  cases sc with
  | dentCreate label kind => exact create_traceless_iff hserve hfail
  | dentUpdate fd kind =>
    refine iff_of_true (update_traceless hserve hfail) (hother fun _ _ h => ?_)
    cases h
  | dentLink dirFd name targetFd =>
    refine iff_of_true (link_traceless hserve hfail) (hother fun _ _ h => ?_)
    cases h
  | dentUnlink fd name =>
    refine iff_of_true (unlink_traceless hserve hfail) (hother fun _ _ h => ?_)
    cases h
  | _ => cases hsc

end Faasten

/-! ### An orphaned blob -/

namespace Faasten.OrphanBlob

open SyscallProcessor
open scoped Dc

/-- A thread that has read a secret of bob, and has a blob open as 1. -/
def world : World :=
  .quiet { Thread.idle ⟨.single ["bob"], .dcTrue⟩ with
    blobs := fun fd => if fd = 1 then some ⟨"image", [7]⟩ else none } .empty

/-- It wants a public blob object. -/
def call : Pb.Syscall := .dentCreate none (some (.blob 1))

/-- It does not get one, but there is an empty object in the store now. -/
theorem blob_left_behind :
    (exec (doSyscall 1 call) world).1 = .ok (.sent (.dentResult false none none)) ∧
      (exec (doSyscall 1 call) world).2.store 100 = some (.encode (⟨publicLabel, ""⟩ : Labeled Blob)) ∧
      ¬world.OnlyRaised (exec (doSyscall 1 call) world).2 := by
  refine ⟨by decide, by decide, ?_⟩
  rintro ⟨l, -, h⟩
  have hnew : (exec (doSyscall 1 call) world).2.store 100 ≠ none := by decide
  rw [h] at hnew
  exact hnew rfl

/-- The same call on a blob that is not open fails without a trace. -/
theorem closed_traceless :
    world.OnlyRaised (exec (doSyscall 1 (.dentCreate none (some (.blob 2)))) world).2 := by
  refine (@failure_traceless_iff _ _ 1 (.dentCreate none (some (.blob 2)))
    (.dentResult false none none) world _ rfl (Prod.ext ?_ rfl) rfl).2 ?_
  · decide
  · rintro ⟨_, _, _, ⟨⟩, hopen, -⟩
    exact hopen rfl

end Faasten.OrphanBlob
