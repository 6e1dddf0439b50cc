import Mathlib
import Faasten.Effect.Local
import Faasten.Syscall.Run

/-!
# What leaves the tables of a processor alone

`threadLocale` is the world as one thread sees it: its own state is its own, and everything else may be
anything at each operation. `Keeps` says of a program that it changes no more of the thread than its
label, and saves no blob. That is so for all functions of the file system, and for the parts of the
server that open nothing; with it the results about descriptors and about blobs need to look only at the
few functions that touch the tables.
-/

namespace Faasten

open Std Effect

/-- The operations as seen from the state of the thread, in worlds that satisfy `A`. -/
def threadLocale (A : World → Prop) : Locale monitor Thread := fun o t x t' =>
  ∃ w, A w ∧ (perform o (w.withThread t)).1 = x ∧ (perform o (w.withThread t)).2.toThread = t'

/-- The thread with another label. -/
def Thread.Relabeled (t t' : Thread) : Prop := ∃ l, t' = { t with currentLabel := l }

theorem Thread.Relabeled.refl (t : Thread) : t.Relabeled t := ⟨t.currentLabel, rfl⟩

theorem Thread.Relabeled.trans {t t' t'' : Thread} (h : t.Relabeled t') (h' : t'.Relabeled t'') :
    t.Relabeled t'' := by
  obtain ⟨l, rfl⟩ := h
  obtain ⟨l', rfl⟩ := h'
  exact ⟨l', rfl⟩

/-- An operation that changes no more of the thread than its label, and saves no blob. -/
def Op.Light : Op → Thread → Prop
  | .setThread t', t => t.Relabeled t'
  | .blobPut _ _, _ => False
  | _, _ => True

/-- Only one operation changes the thread. -/
theorem perform_toThread {o : Op} (ho : ∀ t, o ≠ .setThread t) (w : World) :
    (perform o w).2.toThread = w.toThread := by
  cases o with
  | setThread t => exact absurd rfl (ho t)
  | add u v =>
    rw [perform_add]
    split_ifs <;> rfl
  | cas u e v =>
    rw [perform_cas]
    split_ifs <;> rfl
  | schedWrite m =>
    rw [perform_schedWrite]
    split_ifs <;> rfl
  | _ => rfl

/-- No operation changes the code outside. -/
theorem perform_host (o : Op) (w : World) : (perform o w).2.host = w.host := by
  cases o with
  | add u v =>
    rw [perform_add]
    split_ifs <;> rfl
  | cas u e v =>
    rw [perform_cas]
    split_ifs <;> rfl
  | schedWrite m =>
    rw [perform_schedWrite]
    split_ifs <;> rfl
  | _ => rfl

/-- A run in a world is one of the outcomes that its thread can see. -/
theorem outcome_of_exec {α : Type} (m : M α) (w : World) :
    (threadLocale (·.host = w.host)).Outcome m w.toThread (exec m w).1 (exec m w).2.toThread :=
  Locale.outcome_exec handler World.toThread (fun o w' (hw : w'.host = w.host) =>
    (perform_host o w').trans hw) (fun _ w' hw => ⟨w', hw, rfl, rfl⟩) m rfl

section Rules

variable {α β : Type} {A : World → Prop}

variable (A) in
/-- The program changes no more of the thread than its label, and saves no blob. -/
def Keeps (m : M α) : Prop :=
  ∀ t, (threadLocale A).Meets Op.Light (fun _ t' => t.Relabeled t') m t

theorem Keeps.pure (a : α) : Keeps A (pure a : M α) := fun t => .refl t

theorem Keeps.raise (e : Raised) : Keeps A (.raise e : M α) := fun t => .refl t

theorem Keeps.bind {m : M β} {f : β → M α} (hm : Keeps A m) (hf : ∀ b, Keeps A (f b)) :
    Keeps A (m >>= f) := fun t =>
  (hm t).bind (fun b t' ht' => (hf b t').mono (fun _ _ h => h) fun _ _ h => ht'.trans h)
    fun _ _ h => h

theorem Keeps.result {m : M α} (hm : Keeps A m) : Keeps A (result m) := fun t => .attempt (hm t)

/-- An operation that is not the one on the thread. -/
theorem Keeps.call {o : Op} (ho : ∀ t, o.Light t) (hset : ∀ t, o ≠ .setThread t) :
    Keeps A (.call (S := monitor) o : M (Op.Res o)) := by
  refine fun t => .call (ho t) fun x t' ⟨w, _, _, ht'⟩ => ?_
  rw [← ht', perform_toThread hset]
  exact .refl t

theorem Keeps.unwrap (a : Option α) : Keeps A (unwrap a) := by
  cases a with
  | none => exact .raise _
  | some a => exact .pure a

theorem Keeps.throwFs (e : FsError) : Keeps A (throwFs e : M α) := .raise _

theorem Keeps.ite {c : Prop} [Decidable c] {m n : M α} (hm : Keeps A m) (hn : Keeps A n) :
    Keeps A (if c then m else n) := by
  split_ifs
  · exact hm
  · exact hn

/-- What the thread reads of itself is what it is. -/
theorem meets_thread {G : Op → Thread → Prop} {Q : Except Raised α → Thread → Prop} {t : Thread}
    {f : Thread → M α} (hG : G .thread t) (h : (threadLocale A).Meets G Q (f t) t) :
    (threadLocale A).Meets G Q (thread >>= f) t := by
  refine Locale.Meets.call_bind (S := monitor) (o := Op.thread) hG ?_
  rintro x t' ⟨w, -, rfl, rfl⟩
  exact h

theorem meets_setThread {G : Op → Thread → Prop} {Q : Except Raised α → Thread → Prop}
    {t t₁ : Thread} {f : Unit → M α} (hG : G (.setThread t₁) t)
    (h : (threadLocale A).Meets G Q (f ()) t₁) :
    (threadLocale A).Meets G Q (setThread t₁ >>= f) t := by
  refine Locale.Meets.call_bind (S := monitor) (o := Op.setThread t₁) hG ?_
  rintro x t' ⟨w, -, rfl, rfl⟩
  exact h

theorem keeps_withCurrentLabel (m : Access Buckle α) : Keeps A (withCurrentLabel m) := by
  intro t
  refine meets_thread trivial ?_
  split
  · exact meets_setThread ⟨_, rfl⟩ ⟨_, rfl⟩
  · exact .refl t

theorem keeps_inspect (f : Thread → α) : Keeps A (inspect f) := fun t =>
  meets_thread trivial (.refl t)

theorem keeps_dent (fd : ℕ) : Keeps A (dent fd) := keeps_inspect _

theorem keeps_getPrivilege : Keeps A getPrivilege := keeps_inspect _

theorem keeps_getCurrentLabel : Keeps A getCurrentLabel := keeps_withCurrentLabel _

theorem keeps_nextIo : Keeps A nextIo := .call (fun _ => trivial) nofun

theorem keeps_random : Keeps A random := .call (fun _ => trivial) nofun

theorem keeps_host : Keeps A host := .call (fun _ => trivial) nofun

theorem keeps_blobGet (name : String) : Keeps A (blobGet name) := .call (fun _ => trivial) nofun

theorem keeps_schedConn : Keeps A schedConn := .call (fun _ => trivial) nofun

theorem keeps_schedWrite (m : LabeledInvoke) : Keeps A (schedWrite m) :=
  .call (fun _ => trivial) nofun

theorem keeps_schedRead : Keeps A schedRead := .call (fun _ => trivial) nofun

theorem keeps_httpRequest (r : HttpRequest) : Keeps A (httpRequest r) :=
  .call (fun _ => trivial) nofun

theorem keeps_storageGet (u : Uid) : Keeps A (Storage.get u) := .call (fun _ => trivial) nofun

theorem keeps_storagePut (u : Uid) (v : Stored) : Keeps A (Storage.put u v) :=
  .call (fun _ => trivial) nofun

theorem keeps_storageAdd (u : Uid) (v : Stored) : Keeps A (Storage.add u v) :=
  .call (fun _ => trivial) nofun

theorem keeps_storageCas (u : Uid) (e : Option Stored) (v : Stored) :
    Keeps A (Storage.cas u e v) := .call (fun _ => trivial) nofun

end Rules

/-! ### The file system -/

section Fs

variable {A : World → Prop} {T R : Type}

section

variable [Codec T]

theorem keeps_get (u : Uid) : Keeps A (ObjectRef.get T u) := .bind (keeps_storageGet u) fun _ => .pure _

theorem keeps_set (u : Uid) (v : T) : Keeps A (ObjectRef.set u v) := keeps_storagePut u _

theorem keeps_setNewId (n : ℕ) (v : T) : Keeps A (ObjectRef.setNewId n v) := by
  induction n with
  | zero => exact .raise _
  | succ n ih =>
    refine .bind keeps_random fun u => .bind (keeps_storageAdd u _) fun added => ?_
    exact .ite (.bind (keeps_set u v) fun _ => .pure _) ih

theorem keeps_cas (u : Uid) (e : Option T) (v : T) : Keeps A (ObjectRef.cas u e v) := by
  refine .bind (keeps_storageCas u _ _) fun r => ?_
  split <;> exact .pure _

end

theorem keeps_checkDelegate [LabelCrate] (q : Component) : Keeps A (checkDelegate q) :=
  .bind keeps_getPrivilege fun _ => .ite (.pure _) (.throwFs _)

theorem keeps_checkCreate [LabelCrate] (l : Buckle) : Keeps A (FS.checkCreate l) :=
  .bind keeps_getCurrentLabel fun _ => .bind keeps_getPrivilege fun _ => .ite (.pure _) (.throwFs _)

variable [LabelCrate]

theorem keeps_write (o : Labeled T) (v : T) : Keeps A (o.write v) :=
  .bind keeps_getCurrentLabel fun _ => .bind keeps_getPrivilege fun _ => .ite (.pure _) (.throwFs _)

theorem keeps_modify (o : Labeled T) (f : T → R × T) : Keeps A (o.modify f) :=
  .bind (keeps_withCurrentLabel _) fun _ => .bind keeps_getCurrentLabel fun _ =>
    .bind keeps_getPrivilege fun _ => .ite (.pure _) (.throwFs _)

variable [LabeledCodec T]

theorem keeps_read (u : Uid) : Keeps A (ObjectRef.read T u) :=
  .bind (keeps_get u) fun _ => .bind (.unwrap _) fun _ => keeps_withCurrentLabel _

theorem keeps_overwrite (u : Uid) (v : T) : Keeps A (ObjectRef.overwrite u v) :=
  .bind (keeps_get u) fun _ => .bind (.unwrap _) fun o => .bind (keeps_write o v) fun _ => keeps_set u _

omit [LabelCrate] in
theorem keeps_create [Inhabited T] (n : ℕ) (l : Buckle) : Keeps A (ObjectRef.create T n l) :=
  keeps_setNewId n _

theorem keeps_updateLoop (self : Uid) (f : Directory → Bool × Directory) (skip : Bool) (n : ℕ)
    (d : Labeled Directory) : Keeps A (Directory.updateLoop self f skip n d) := by
  induction n generalizing d with
  | zero => exact .raise _
  | succ n ih =>
    refine .bind (keeps_modify d f) fun r => .ite (.pure _) (.bind (keeps_cas self _ _) fun r => ?_)
    split
    · exact ih _
    · exact .pure _

theorem keeps_link (n : ℕ) (self : Uid) (name : String) (e : DirEntry) :
    Keeps A (Directory.link n self name e) :=
  .bind (keeps_get self) fun _ => .bind (.unwrap _) fun _ => keeps_updateLoop self _ _ n _

theorem keeps_unlink (n : ℕ) (self : Uid) (name : String) : Keeps A (Directory.unlink n self name) :=
  .bind (keeps_get self) fun _ => .bind (.unwrap _) fun _ => keeps_updateLoop self _ _ n _

theorem keeps_list (self : Uid) : Keeps A (Directory.list self) :=
  .bind (keeps_read self) fun _ => .pure _

theorem keeps_toInvokableLoop (n : ℕ) (g : Gate) (a b c : Component) :
    Keeps A (Gate.toInvokableLoop n g a b c) := by
  induction n generalizing g a b c with
  | zero => exact .raise _
  | succ n ih =>
    cases g with
    | direct g => exact .pure _
    | redirect g => exact .bind (keeps_read _) fun g' => ih g' _ _ _

theorem keeps_toInvokable (n : ℕ) (self : Uid) : Keeps A (Gate.toInvokable n self) :=
  .bind (keeps_read self) fun g => keeps_toInvokableLoop n g _ _ _

omit [LabelCrate] in
theorem keeps_openLoop (n : ℕ) (self : Uid) (facet : Buckle) (k : ℕ)
    (d : Option FacetedDirectory) : Keeps A (FacetedDirectory.openLoop n self facet k d) := by
  induction k generalizing d with
  | zero => exact .raise _
  | succ k ih =>
    unfold FacetedDirectory.openLoop
    split
    · exact .pure _
    · refine .bind (keeps_setNewId n _) fun v => .bind (keeps_cas self _ _) fun r => ?_
      split
      · exact .pure _
      · exact ih _

omit [LabelCrate] in
theorem keeps_open (n : ℕ) (self : Uid) (facet : Buckle) :
    Keeps A (FacetedDirectory.open' n self facet) :=
  .bind (keeps_get self) fun _ => keeps_openLoop n self facet n _

theorem keeps_listFaceted (self : Uid) (clearance : Buckle) :
    Keeps A (FacetedDirectory.list self clearance) :=
  .bind (keeps_withCurrentLabel _) fun _ => .bind (keeps_get self) fun _ =>
    .bind (.unwrap _) fun _ => .pure _

theorem keeps_replaceGate (self : Uid) (g : Gate) : Keeps A (Gate.replace self g) :=
  .bind (keeps_checkDelegate _) fun _ => keeps_overwrite self g

theorem keeps_replaceService (self : Uid) (v : Service) : Keeps A (Service.replace self v) :=
  .bind (keeps_checkDelegate _) fun _ => keeps_overwrite self v

end Fs

/-! ### The server -/

section Server

open SyscallProcessor

variable {A : World → Prop}

theorem keeps_imageOf (fd : ℕ) : Keeps A (imageOf fd) := by
  refine .bind (keeps_dent fd) fun e => ?_
  split
  · exact .throwFs _
  · exact .pure _
  · exact .throwFs _

theorem keeps_component (c : Option Pb.Component) : Keeps A (component c) :=
  .bind (.unwrap _) fun _ => .unwrap _

theorem keeps_componentOrTrue (c : Option Pb.Component) : Keeps A (componentOrTrue c) := by
  cases c with
  | none => exact .pure _
  | some c => exact .unwrap _

theorem keeps_redirectGateOf (rd : Pb.RedirectGate) (u : Uid) : Keeps A (redirectGateOf rd u) :=
  .bind (keeps_component _) fun _ => .bind (keeps_component _) fun _ =>
    .bind (keeps_componentOrTrue _) fun _ => .pure _

theorem keeps_serviceOf (s : Pb.Service) : Keeps A (serviceOf s) :=
  .bind (.unwrap _) fun _ => .bind (.unwrap _) fun _ => .bind (keeps_component _) fun _ =>
    .bind (keeps_component _) fun _ => .pure _

theorem keeps_updateComponent (c : Option Pb.Component) (old : Component) :
    Keeps A (updateComponent c old) := by
  cases c with
  | none => exact .pure _
  | some c => exact .unwrap _

theorem keeps_convertLabel (l : Option Pb.Buckle) : Keeps A (convertLabel l) := by
  cases l with
  | none => exact .pure _
  | some l => exact .bind (.unwrap _) fun _ => .pure _

theorem keeps_httpSend (v : Service) (body : Option Bytes)
    (parameters : ExtTreeMap String String compare) : Keeps A (httpSend v body parameters) := by
  refine .bind keeps_host fun h => ?_
  split
  · exact .pure _
  · exact .ite (.ite (keeps_httpRequest _) (.pure _)) (.raise _)

theorem keeps_orFailure {m : M Pb.Reply} (hm : Keeps A m) : Keeps A (orFailure m) := by
  refine .bind hm.result fun r => ?_
  split <;> exact .pure _

theorem keeps_openExpect (name : String) : Keeps A (Blobstore.openExpect name) := by
  refine .ite (.bind keeps_nextIo fun r => ?_) (.raise _)
  split
  · exact .bind (keeps_blobGet name) fun _ => .bind (.unwrap _) fun _ => .pure _
  · exact .raise _

theorem keeps_blobstoreCreate : Keeps A Blobstore.create := by
  refine .bind keeps_nextIo fun r => ?_
  split <;> exact .pure _

theorem keeps_newBlobWrite (b : NewBlob) (bytes : Bytes) : Keeps A (b.write bytes) := by
  refine .bind keeps_nextIo fun r => ?_
  split <;> exact .pure _

theorem keeps_readAt (b : OpenBlob) (offset length : ℕ) : Keeps A (b.readAt offset length) := by
  refine .bind keeps_nextIo fun r => ?_
  split <;> exact .pure _

theorem keeps_lenExpect (b : OpenBlob) : Keeps A b.lenExpect := by
  refine .bind keeps_nextIo fun r => ?_
  split
  · exact .raise _
  · exact .pure _

variable [LabelCrate]

theorem keeps_labelOrPublic (l : Option Pb.Buckle) : Keeps A (labelOrPublic l) := by
  cases l with
  | none => exact .pure _
  | some l => exact .unwrap _

theorem keeps_directGateOf (dg : Pb.DirectGate) : Keeps A (directGateOf dg) :=
  .bind (.unwrap _) fun _ => .bind (keeps_imageOf _) fun _ => .bind (keeps_imageOf _) fun _ =>
    .bind (keeps_imageOf _) fun _ => .bind (keeps_read _) fun _ => .bind (keeps_read _) fun _ =>
    .bind (keeps_read _) fun _ => .bind (keeps_component _) fun _ =>
    .bind (keeps_component _) fun _ => .bind (keeps_componentOrTrue _) fun _ => .pure _

theorem keeps_createEntry (rounds : ℕ) (kind : Pb.CreateKind) (label : Buckle) :
    Keeps A (createEntry rounds kind label) := by
  unfold createEntry
  split
  · exact .bind (keeps_create rounds label) fun _ => .pure _
  · exact .bind (keeps_create rounds label) fun _ => .pure _
  · exact .bind (keeps_setNewId rounds _) fun _ => .pure _
  · exact .bind (keeps_directGateOf _) fun _ => .bind (keeps_checkCreate _) fun _ =>
      .bind (keeps_checkDelegate _) fun _ => .bind (keeps_checkDelegate _) fun _ =>
      .bind (keeps_setNewId rounds _) fun _ => .pure _
  · refine .bind (keeps_dent _) fun e => ?_
    split
    · exact .bind (keeps_redirectGateOf _ _) fun _ => .bind (keeps_checkCreate _) fun _ =>
        .bind (keeps_checkDelegate _) fun _ => .bind (keeps_checkDelegate _) fun _ =>
        .bind (keeps_setNewId rounds _) fun _ => .pure _
    · exact .throwFs _
  · exact .throwFs _
  · exact .bind (keeps_serviceOf _) fun _ => .bind (keeps_checkCreate _) fun _ =>
      .bind (keeps_checkDelegate _) fun _ => .bind (keeps_setNewId rounds _) fun _ => .pure _
  · refine .bind (keeps_inspect _) fun b => ?_
    split
    · exact .bind (keeps_create rounds label) fun _ => .bind (keeps_overwrite _ _) fun _ => .pure _
    · exact .throwFs _

theorem keeps_updateImage (fd : ℕ) (old : String) : Keeps A (updateImage fd old) :=
  .ite (.bind (keeps_imageOf fd) fun _ => keeps_read _) (.pure _)

theorem keeps_updateFunction (f : Option Pb.Function) (old : Function) :
    Keeps A (updateFunction f old) := by
  cases f with
  | none => exact .pure _
  | some f =>
    exact .bind (keeps_updateImage _ _) fun _ => .bind (keeps_updateImage _ _) fun _ =>
      .bind (keeps_updateImage _ _) fun _ => .pure _

theorem keeps_readGate (u : Uid) : Keeps A (readGate u) := by
  refine .bind (keeps_get u) fun e => ?_
  split
  · exact .bind (keeps_withCurrentLabel _) fun _ => .pure _
  · exact .pure _

theorem keeps_updateGate (u : Uid) (kind : Pb.GateKind) : Keeps A (updateGate u kind) := by
  cases kind with
  | direct dg =>
    refine .bind (keeps_readGate u) fun g => ?_
    split
    · exact .bind (keeps_updateFunction _ _) fun _ => .bind (keeps_updateComponent _ _) fun _ =>
        .bind (keeps_updateComponent _ _) fun _ => keeps_replaceGate u _
    · exact .throwFs _
  | redirect rd =>
    refine .bind (keeps_readGate u) fun g => ?_
    split
    · refine .bind (keeps_dent _) fun e => ?_
      split
      · exact .bind (keeps_updateComponent _ _) fun _ => .bind (keeps_updateComponent _ _) fun _ =>
          keeps_replaceGate u _
      · exact .throwFs _
    · exact .throwFs _

theorem keeps_updateEntry (fd : ℕ) (kind : Pb.UpdateKind) : Keeps A (updateEntry fd kind) := by
  cases kind with
  | file data =>
    refine .bind (keeps_dent fd) fun e => ?_
    split
    · exact keeps_overwrite _ _
    · exact .throwFs _
  | gate kind =>
    refine .bind (keeps_dent fd) fun e => ?_
    split
    · exact keeps_updateGate _ _
    · exact .throwFs _
  | service s =>
    refine .bind (keeps_dent fd) fun e => ?_
    split
    · exact .bind (keeps_serviceOf _) fun _ => keeps_replaceService _ _
    · exact .throwFs _
  | blob blobFd =>
    refine .bind (keeps_inspect _) fun b => ?_
    split
    · exact .throwFs _
    · refine .bind (keeps_dent fd) fun e => ?_
      split
      · exact keeps_overwrite _ _
      · exact .throwFs _

end Server

end Faasten
