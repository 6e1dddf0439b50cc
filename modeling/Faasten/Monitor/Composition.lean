import Mathlib
import Faasten.Clients.Typed
import Faasten.Effect.Composed
import Faasten.Gateway

/-!
# What the monitor is made of

The programs of the monitor get at the store by few functions only: those that read an object together with
its label, write one, make one, swap a directory, and look up facets. `Basic` lists them, with the operations
that leave the store alone. Every syscall is made of these (`composed_doSyscall`), and so is what the frontend
and the workers do (`composed_authenticateCas`, `composed_delegate`, `composed_init`, `composed_processTask`).
-/

namespace Faasten

open Std Effect SyscallProcessor

variable [LabelCrate]

/-- The functions by which programs get at the store, and the operations that leave it alone. -/
inductive Basic : (α : Type) → M α → Prop
  | own (o : Op) (h : o.onStore = false) : Basic o.Res (.call (S := monitor) o)
  | root : Basic Directory (FS.root >>= fun d => d.unlabel)
  | read {T : Type} [LabeledCodec T] {k : DentKind} [Integrity.Kinded (Labeled T) k] (u : Uid) :
      Basic T (ObjectRef.read T u)
  | readGate (u : Uid) : Basic (Option Gate) (readGate u)
  | overwrite {T : Type} [LabeledCodec T] {k : DentKind} [Integrity.Kinded (Labeled T) k] (u : Uid) (v : T) :
      Basic Unit (ObjectRef.overwrite u v)
  | setNewId {T : Type} [Codec T] (n : ℕ) (v : T) : Basic Uid (ObjectRef.setNewId n v)
  | update (n : ℕ) (u : Uid) (f : Directory → Bool × Directory) (skip : Bool) :
      Basic Bool (ObjectRef.get (Labeled Directory) u >>= fun d => unwrap d >>= fun d =>
        Directory.updateLoop u f skip n d)
  | openFacet (n : ℕ) (u : Uid) (facet : Buckle) : Basic Uid (FacetedDirectory.open' n u facet)
  | facets (u : Uid) : Basic (Option FacetedDirectory) (ObjectRef.get FacetedDirectory u)

variable {α β : Type}

theorem composed_unwrap (a : Option α) : Composed Basic (unwrap a) := by
  cases a with
  | none => exact .raise _
  | some a => exact .pure a

theorem composed_result {m : M α} (hm : Composed Basic m) : Composed Basic (Faasten.result m) :=
  hm.attempt _

/-! ### The thread and the outside -/

theorem composed_thread : Composed Basic thread := .basic (.own .thread rfl)

theorem composed_setThread (t : Thread) : Composed Basic (setThread t) := .basic (.own (.setThread t) rfl)

theorem composed_nextIo : Composed Basic nextIo := .basic (.own .io rfl)

theorem composed_blobGet (name : String) : Composed Basic (blobGet name) := .basic (.own (.blobGet name) rfl)

theorem composed_blobPut (name : String) (content : Bytes) : Composed Basic (blobPut name content) :=
  .basic (.own (.blobPut name content) rfl)

theorem composed_host : Composed Basic host := .basic (.own .host rfl)

theorem composed_schedConn : Composed Basic schedConn := .basic (.own .schedConn rfl)

theorem composed_schedWrite (m : LabeledInvoke) : Composed Basic (schedWrite m) :=
  .basic (.own (.schedWrite m) rfl)

theorem composed_schedRead : Composed Basic schedRead := .basic (.own .schedRead rfl)

theorem composed_httpRequest (r : HttpRequest) : Composed Basic (httpRequest r) := .basic (.own (.http r) rfl)

theorem composed_inspect (f : Thread → α) : Composed Basic (inspect f) := composed_thread.bind fun _ => .pure _

theorem composed_amend (f : Thread → Thread) : Composed Basic (amend f) :=
  composed_thread.bind fun _ => composed_setThread _

theorem composed_withCurrentLabel (m : Access Buckle β) : Composed Basic (withCurrentLabel m) := by
  refine composed_thread.bind fun t => ?_
  split
  · exact (composed_setThread _).bind fun _ => .pure _
  · exact .raise _

theorem composed_getCurrentLabel : Composed Basic getCurrentLabel := composed_withCurrentLabel _

theorem composed_getPrivilege : Composed Basic getPrivilege := composed_thread.bind fun _ => .pure _

theorem composed_setMyPrivilege (p : Component) : Composed Basic (setMyPrivilege p) :=
  composed_thread.bind fun _ => composed_setThread _

/-! ### The file system -/

section Fs

variable {T : Type}

theorem composed_read [LabeledCodec T] {k : DentKind} [Integrity.Kinded (Labeled T) k] (u : Uid) :
    Composed Basic (ObjectRef.read T u) := .basic (.read u)

theorem composed_readGate (u : Uid) : Composed Basic (readGate u) := .basic (.readGate u)

theorem composed_overwrite [LabeledCodec T] {k : DentKind} [Integrity.Kinded (Labeled T) k] (u : Uid) (v : T) :
    Composed Basic (ObjectRef.overwrite u v) := .basic (.overwrite u v)

theorem composed_setNewId [Codec T] (n : ℕ) (v : T) : Composed Basic (ObjectRef.setNewId n v) :=
  .basic (.setNewId n v)

theorem composed_link (n : ℕ) (u : Uid) (name : String) (entry : DirEntry) :
    Composed Basic (Directory.link n u name entry) := .basic (.update ..)

theorem composed_unlink (n : ℕ) (u : Uid) (name : String) : Composed Basic (Directory.unlink n u name) :=
  .basic (.update ..)

theorem composed_open (n : ℕ) (u : Uid) (facet : Buckle) : Composed Basic (FacetedDirectory.open' n u facet) :=
  .basic (.openFacet n u facet)

theorem composed_list (u : Uid) : Composed Basic (Directory.list u) :=
  (composed_read u).bind fun _ => .pure _

theorem composed_listFacets (u : Uid) (clearance : Buckle) :
    Composed Basic (FacetedDirectory.list u clearance) :=
  (composed_withCurrentLabel _).bind fun _ => Composed.bind (.basic (.facets u)) fun _ =>
    (composed_unwrap _).bind fun _ => .pure _

theorem composed_toInvokableLoop (n : ℕ) (g : Gate) (a b c : Component) :
    Composed Basic (Gate.toInvokableLoop n g a b c) := by
  induction n generalizing g a b c with
  | zero => exact .raise _
  | succ n ih =>
    cases g with
    | direct g => exact .pure _
    | redirect g => exact (composed_read _).bind fun g' => ih g' _ _ _

theorem composed_toInvokable (n : ℕ) (u : Uid) : Composed Basic (Gate.toInvokable n u) :=
  (composed_read u).bind fun g => composed_toInvokableLoop n g _ _ _

theorem composed_checkDelegate (q : Component) : Composed Basic (checkDelegate q) := by
  refine composed_getPrivilege.bind fun r => ?_
  split_ifs
  · exact .pure _
  · exact .raise _

theorem composed_checkCreate (x : Buckle) : Composed Basic (FS.checkCreate x) := by
  refine composed_getCurrentLabel.bind fun c => composed_getPrivilege.bind fun r => ?_
  split_ifs
  · exact .pure _
  · exact .raise _

theorem composed_replaceGate (u : Uid) (g : Gate) : Composed Basic (Gate.replace u g) :=
  (composed_checkDelegate _).bind fun _ => composed_overwrite u g

theorem composed_replaceService (u : Uid) (v : Service) : Composed Basic (Service.replace u v) :=
  (composed_checkDelegate _).bind fun _ => composed_overwrite u v

theorem composed_createObject [LabeledCodec T] [Inhabited T] (n : ℕ) (x : Buckle) :
    Composed Basic (ObjectRef.create T n x) := composed_setNewId n _

theorem composed_createBlob (n : ℕ) (x : Buckle) (name : String) : Composed Basic (FS.createBlob n x name) :=
  (composed_createObject n x).bind fun u => (composed_overwrite u name).bind fun _ => .pure _

theorem composed_createDirectGate (n : ℕ) (x : Buckle) (g : DirectGate) :
    Composed Basic (FS.createDirectGate n x g) :=
  (composed_checkCreate x).bind fun _ => (composed_checkDelegate _).bind fun _ =>
    (composed_checkDelegate _).bind fun _ => (composed_setNewId n _).bind fun _ => .pure _

theorem composed_createRedirectGate (n : ℕ) (x : Buckle) (g : RedirectGate) :
    Composed Basic (FS.createRedirectGate n x g) :=
  (composed_checkCreate x).bind fun _ => (composed_checkDelegate _).bind fun _ =>
    (composed_checkDelegate _).bind fun _ => (composed_setNewId n _).bind fun _ => .pure _

theorem composed_createService (n : ℕ) (x : Buckle) (v : Service) :
    Composed Basic (FS.createService n x v) :=
  (composed_checkCreate x).bind fun _ => (composed_checkDelegate _).bind fun _ =>
    (composed_setNewId n _).bind fun _ => .pure _

theorem composed_readPathLoop (n : ℕ) (path : Path) (cur : Option DirEntry) :
    Composed Basic (FS.readPathLoop n cur path) := by
  induction path generalizing cur with
  | nil =>
    cases cur with
    | none => exact .raise _
    | some e => exact .pure _
  | cons c path ih =>
    unfold FS.readPathLoop
    split
    · simp_all
    · rename_i h
      cases h
      exact (composed_list _).bind fun _ => ih _
    · rename_i h
      cases h
      exact (composed_open n _ _).bind fun _ => ih _
    · exact .raise _

theorem composed_readPath (n : ℕ) (path : Path) : Composed Basic (FS.readPath n path) := by
  unfold FS.readPath
  split
  · rw [← bind_assoc]
    exact Composed.bind (.basic .root) fun _ => composed_readPathLoop n _ _
  · exact .pure _

theorem composed_fsLink (n : ℕ) (path : Path) (name : String) (e : DirEntry) :
    Composed Basic (FS.link n path name e) := by
  refine (composed_readPath n path).bind fun d => ?_
  split
  · refine (composed_link n _ _ _).bind fun r => ?_
    split
    · exact .pure _
    · exact .raise _
  · exact .raise _

end Fs

/-! ### The tables and the blobstore -/

theorem composed_dent (fd : ℕ) : Composed Basic (dent fd) := composed_inspect _

theorem composed_newDent (e : DirEntry) : Composed Basic (newDent e) :=
  (composed_inspect _).bind fun _ => (composed_amend _).bind fun _ => .pure _

theorem composed_newBlobId : Composed Basic newBlobId :=
  (composed_inspect _).bind fun _ => (composed_amend _).bind fun _ => .pure _

theorem composed_create : Composed Basic Blobstore.create := by
  refine composed_nextIo.bind fun r => ?_
  split <;> exact .pure _

theorem composed_openExpect (name : String) : Composed Basic (Blobstore.openExpect name) := by
  unfold Blobstore.openExpect
  split_ifs
  · refine composed_nextIo.bind fun r => ?_
    split
    · exact (composed_blobGet name).bind fun _ => (composed_unwrap _).bind fun _ => .pure _
    · exact .raise _
  · exact .raise _

theorem composed_save (b : NewBlob) : Composed Basic (Blobstore.save b) := by
  refine composed_host.bind fun h => composed_nextIo.bind fun r => ?_
  split
  · exact .pure _
  · refine (composed_blobPut _ _).bind fun _ => composed_nextIo.bind fun r => ?_
    split
    · exact .pure _
    · refine composed_nextIo.bind fun r => ?_
      split <;> exact .pure _

theorem composed_write (b : NewBlob) (bytes : Bytes) : Composed Basic (b.write bytes) := by
  refine composed_nextIo.bind fun r => ?_
  split <;> exact .pure _

theorem composed_writeAllLoop (k : ℕ) (b : NewBlob) (bytes : Bytes) :
    Composed Basic (NewBlob.writeAllLoop k b bytes) := by
  induction k generalizing b bytes with
  | zero =>
    cases bytes with
    | nil => exact .pure _
    | cons => exact .raise _
  | succ k ih =>
    cases bytes with
    | nil => exact .pure _
    | cons c cs =>
      refine (composed_write b _).bind fun r => ?_
      split
      · exact .raise _
      · exact .raise _
      · exact ih _ _

theorem composed_storeExpect (content : Bytes) : Composed Basic (Blobstore.storeExpect content) := by
  refine composed_create.bind fun r => ?_
  split
  · exact .raise _
  · refine Composed.bind (composed_writeAllLoop _ _ _) fun b => (composed_save b).bind fun r => ?_
    split
    · exact .raise _
    · exact .pure _

theorem composed_toBlob (content : Bytes) : Composed Basic (toBlob content) :=
  (composed_storeExpect content).bind fun _ => composed_newBlobId.bind fun _ =>
    (composed_amend _).bind fun _ => .pure _

theorem composed_openImage (name : String) : Composed Basic (openImage name) :=
  composed_newBlobId.bind fun _ => (composed_openExpect name).bind fun _ =>
    (composed_amend _).bind fun _ => .pure _

theorem composed_showGate (g : Gate) : Composed Basic (showGate g) := by
  cases g with
  | direct g =>
    exact (composed_openImage _).bind fun _ => (composed_openImage _).bind fun _ =>
      (composed_openImage _).bind fun _ => .pure _
  | redirect g => exact .pure _

/-! ### What a message asks for -/

theorem composed_imageOf (fd : ℕ) : Composed Basic (imageOf fd) := by
  refine (composed_dent fd).bind fun e => ?_
  split
  · exact .raise _
  · exact .pure _
  · exact .raise _

theorem composed_component (c : Option Pb.Component) : Composed Basic (component c) :=
  (composed_unwrap _).bind fun _ => composed_unwrap _

theorem composed_componentOrTrue (c : Option Pb.Component) : Composed Basic (componentOrTrue c) := by
  cases c with
  | none => exact .pure _
  | some c => exact composed_unwrap _

theorem composed_updateComponent (c : Option Pb.Component) (old : Component) :
    Composed Basic (updateComponent c old) := by
  cases c with
  | none => exact .pure _
  | some c => exact composed_unwrap _

theorem composed_redirectGateOf (rd : Pb.RedirectGate) (u : Uid) : Composed Basic (redirectGateOf rd u) :=
  (composed_component _).bind fun _ => (composed_component _).bind fun _ =>
    (composed_componentOrTrue _).bind fun _ => .pure _

theorem composed_serviceOf (s : Pb.Service) : Composed Basic (serviceOf s) :=
  (composed_unwrap _).bind fun _ => (composed_unwrap _).bind fun _ => (composed_component _).bind fun _ =>
    (composed_component _).bind fun _ => .pure _

theorem composed_labelOrPublic (x : Option Pb.Buckle) : Composed Basic (labelOrPublic x) := by
  cases x with
  | none => exact .pure _
  | some x => exact composed_unwrap _

/-! ### Calls that read no object -/

theorem composed_receive (toblob : Bool) (res : TaskReturn) : Composed Basic (receive toblob res) := by
  refine (composed_labelOrPublic _).bind fun _ => (composed_withCurrentLabel _).bind fun _ =>
    (composed_unwrap _).bind fun payload => ?_
  split_ifs
  · exact (composed_toBlob _).bind fun _ => .pure _
  · exact .pure _

theorem composed_httpSend (s : Service) (body : Option Bytes)
    (parameters : ExtTreeMap String String compare) : Composed Basic (httpSend s body parameters) := by
  refine composed_host.bind fun h => ?_
  split
  · exact .pure _
  · split_ifs
    · exact composed_httpRequest _
    · exact .pure _
    · exact .raise _

theorem composed_orFailure {m : M Pb.Reply} (hm : Composed Basic m) : Composed Basic (orFailure m) := by
  refine (composed_result hm).bind fun r => ?_
  split <;> exact .pure _

theorem composed_blobCreate : Composed Basic blobCreate := by
  refine composed_create.bind fun r => ?_
  split
  · exact composed_newBlobId.bind fun _ => (composed_amend _).bind fun _ => .pure _
  · exact .pure _

theorem composed_blobWrite (fd : ℕ) (data : Bytes) : Composed Basic (blobWrite fd data) := by
  refine (composed_inspect _).bind fun b => ?_
  split
  · refine (composed_write _ _).bind fun r => ?_
    split
    · exact (composed_amend _).bind fun _ => .pure _
    · exact .pure _
  · exact .pure _

theorem composed_blobFinalize (fd : ℕ) : Composed Basic (blobFinalize fd) := by
  refine (composed_inspect _).bind fun b => ?_
  split
  · refine (composed_amend _).bind fun _ => (composed_save _).bind fun r => ?_
    split
    · exact (composed_amend _).bind fun _ => .pure _
    · exact .pure _
  · exact .pure _

theorem composed_blobRead (fd offset length : ℕ) : Composed Basic (blobRead fd offset length) := by
  refine (composed_inspect _).bind fun b => ?_
  split
  · split_ifs
    · refine Composed.bind (composed_nextIo.bind fun r => ?_) fun r => ?_
      · split <;> exact .pure _
      · split <;> exact .pure _
    · exact .raise _
  · exact .pure _

theorem composed_blobClose (fd : ℕ) : Composed Basic (blobClose fd) := by
  refine (composed_inspect _).bind fun b => ?_
  split
  · exact (composed_amend _).bind fun _ => .pure _
  · exact .pure _

/-! ### Calls that read objects -/

theorem composed_directGateOf (dg : Pb.DirectGate) : Composed Basic (directGateOf dg) :=
  (composed_unwrap _).bind fun _ => (composed_imageOf _).bind fun _ => (composed_imageOf _).bind fun _ =>
    (composed_imageOf _).bind fun _ => (composed_read _).bind fun _ => (composed_read _).bind fun _ =>
    (composed_read _).bind fun _ => (composed_component _).bind fun _ => (composed_component _).bind fun _ =>
    (composed_componentOrTrue _).bind fun _ => .pure _

theorem composed_updateImage (fd : ℕ) (old : String) : Composed Basic (updateImage fd old) := by
  unfold updateImage
  split_ifs
  · exact (composed_imageOf fd).bind fun _ => composed_read _
  · exact .pure _

theorem composed_updateFunction (f : Option Pb.Function) (old : Function) :
    Composed Basic (updateFunction f old) := by
  cases f with
  | none => exact .pure _
  | some f =>
    exact (composed_updateImage _ _).bind fun _ => (composed_updateImage _ _).bind fun _ =>
      (composed_updateImage _ _).bind fun _ => .pure _

theorem composed_updateGate (u : Uid) (kind : Pb.GateKind) : Composed Basic (updateGate u kind) := by
  cases kind with
  | direct dg =>
    refine (composed_readGate u).bind fun g => ?_
    split
    · exact (composed_updateFunction _ _).bind fun _ => (composed_updateComponent _ _).bind fun _ =>
        (composed_updateComponent _ _).bind fun _ => composed_replaceGate _ _
    · exact .raise _
  | redirect rd =>
    refine (composed_readGate u).bind fun g => ?_
    split
    · refine (composed_dent _).bind fun e => ?_
      split
      · exact (composed_updateComponent _ _).bind fun _ => (composed_updateComponent _ _).bind fun _ =>
          composed_replaceGate _ _
      · exact .raise _
    · exact .raise _

theorem composed_updateEntry (fd : ℕ) (kind : Pb.UpdateKind) : Composed Basic (updateEntry fd kind) := by
  cases kind with
  | file data =>
    refine (composed_dent fd).bind fun e => ?_
    split
    · exact composed_overwrite _ _
    · exact .raise _
  | gate kind =>
    refine (composed_dent fd).bind fun e => ?_
    split
    · exact composed_updateGate _ _
    · exact .raise _
  | service s =>
    refine (composed_dent fd).bind fun e => ?_
    split
    · exact (composed_serviceOf s).bind fun _ => composed_replaceService _ _
    · exact .raise _
  | blob blobFd =>
    refine (composed_inspect _).bind fun b => ?_
    split
    · exact .raise _
    · refine (composed_dent fd).bind fun e => ?_
      split
      · exact composed_overwrite _ _
      · exact .raise _

variable (rounds : ℕ)

theorem composed_createEntry (kind : Pb.CreateKind) (x : Buckle) :
    Composed Basic (createEntry rounds kind x) := by
  unfold createEntry
  split
  · exact (composed_createObject rounds x).bind fun _ => .pure _
  · exact (composed_createObject rounds x).bind fun _ => .pure _
  · exact (composed_setNewId rounds _).bind fun _ => .pure _
  · exact (composed_directGateOf _).bind fun _ => composed_createDirectGate _ _ _
  · refine (composed_dent _).bind fun e => ?_
    split
    · exact (composed_redirectGateOf _ _).bind fun _ => composed_createRedirectGate _ _ _
    · exact .raise _
  · exact .raise _
  · exact (composed_serviceOf _).bind fun _ => composed_createService _ _ _
  · refine (composed_inspect _).bind fun b => ?_
    split
    · exact composed_createBlob _ _ _
    · exact .raise _

theorem composed_openEntry (fd : ℕ) (entry : Pb.OpenEntry) : Composed Basic (openEntry rounds fd entry) := by
  refine (composed_dent fd).bind fun e => ?_
  split
  · refine (composed_list _).bind fun entries => ?_
    split
    · exact (composed_newDent _).bind fun _ => .pure _
    · exact .pure _
  · exact (composed_unwrap _).bind fun _ => (composed_open rounds _ _).bind fun _ =>
      (composed_newDent _).bind fun _ => .pure _
  · split
    · exact (composed_open rounds _ _).bind fun _ => (composed_newDent _).bind fun _ => .pure _
    · exact .pure _
  · exact .pure _

theorem composed_dentLink (fd : ℕ) (name : String) (target : ℕ) :
    Composed Basic (dentLink rounds fd name target) := by
  refine (composed_dent fd).bind fun base => (composed_dent target).bind fun e => ?_
  split
  · refine (composed_result (composed_link rounds _ _ _)).bind fun r => ?_
    split <;> exact .pure _
  · exact .pure _

theorem composed_dentUnlink (fd : ℕ) (name : String) : Composed Basic (dentUnlink rounds fd name) := by
  refine (composed_dent fd).bind fun base => ?_
  split
  · refine (composed_result (composed_unlink rounds _ _)).bind fun r => ?_
    split <;> exact .pure _
  · exact .pure _

theorem composed_invokeGate (u : Uid) (sync : Bool) (payload : Bytes) (toblob : Bool)
    (parameters : ExtTreeMap String String compare) :
    Composed Basic (invokeGate rounds u sync payload toblob parameters) := by
  refine (composed_toInvokable rounds u).bind fun g => composed_getPrivilege.bind fun q => ?_
  split
  · refine composed_schedConn.bind fun conn => ?_
    split
    · refine composed_getCurrentLabel.bind fun c => composed_getPrivilege.bind fun q =>
        (composed_schedWrite _).bind fun sent => ?_
      split
      · split
        · refine composed_schedRead.bind fun res => ?_
          split
          · exact composed_receive _ _
          · exact .pure _
        · exact .pure _
      · exact .pure _
    · exact .raise _
  · exact .pure _

theorem composed_invokeService (u : Uid) (payload : Bytes) (toblob : Bool)
    (parameters : ExtTreeMap String String compare) :
    Composed Basic (invokeService u payload toblob parameters) := by
  refine (composed_read u).bind fun s => composed_getPrivilege.bind fun q => ?_
  split
  · refine (composed_withCurrentLabel _).bind fun _ => (composed_httpSend _ _ _).bind fun r =>
      (composed_withCurrentLabel _).bind fun _ => ?_
    split
    · split
      · exact (composed_unwrap _).bind fun _ => (composed_toBlob _).bind fun _ => .pure _
      · exact .pure _
    · exact .pure _
  · exact .pure _

theorem composed_dentInvoke (fd : ℕ) (sync : Bool) (payload : Bytes) (toblob : Bool)
    (parameters : ExtTreeMap String String compare) :
    Composed Basic (dentInvoke rounds fd sync payload toblob parameters) := by
  refine (composed_dent fd).bind fun e => ?_
  split
  · exact (composed_invokeGate rounds _ _ _ _ _).bind fun _ => .pure _
  · exact (composed_invokeService _ _ _ _).bind fun _ => .pure _
  · exact .pure _

theorem composed_dentGetBlob (fd : ℕ) : Composed Basic (dentGetBlob fd) := by
  refine (composed_dent fd).bind fun e => ?_
  split
  · refine (composed_read _).bind fun name => (composed_openExpect name).bind fun blob =>
      composed_newBlobId.bind fun _ => Composed.bind (composed_nextIo.bind fun r => ?_) fun _ =>
      (composed_amend _).bind fun _ => .pure _
    split
    · exact .raise _
    · exact .pure _
  · exact .pure _

theorem composed_serve (sc : Pb.Syscall) : Composed Basic (serve rounds sc) := by
  cases sc with
  | response r => exact .raise _
  | buckleParse s => exact .pure _
  | getCurrentLabel => exact composed_getCurrentLabel.bind fun _ => .pure _
  | taintWithLabel x =>
    exact (composed_unwrap _).bind fun _ => (composed_withCurrentLabel _).bind fun _ => .pure _
  | declassify c =>
    refine (composed_unwrap _).bind fun c => Composed.bind
      (composed_getPrivilege.bind fun q => composed_withCurrentLabel _) fun r => ?_
    split <;> exact .pure _
  | subPrivilege s => exact .raise _
  | root => exact .pure _
  | dentOpen fd entry =>
    refine (composed_unwrap _).bind fun entry => (composed_openEntry rounds fd entry).bind fun r => ?_
    split <;> exact .pure _
  | dentClose fd => exact (composed_amend _).bind fun _ => .pure _
  | dentCreate label kind =>
    refine Composed.bind ?_ fun x => ?_
    · cases label with
      | none => exact .pure _
      | some label => exact (composed_unwrap _).bind fun _ => .pure _
    · cases kind with
      | none => exact .pure _
      | some kind =>
        exact composed_orFailure ((composed_createEntry rounds kind _).bind fun e =>
          (composed_newDent e).bind fun _ => .pure _)
  | dentUpdate fd kind =>
    cases kind with
    | none => exact .pure _
    | some kind => exact composed_orFailure ((composed_updateEntry fd kind).bind fun _ => .pure _)
  | dentRead fd =>
    refine (composed_dent fd).bind fun e => ?_
    split
    · exact (composed_read _).bind fun _ => .pure _
    · exact .pure _
  | dentList fd =>
    refine (composed_dent fd).bind fun e => ?_
    split
    · exact (composed_list _).bind fun _ => .pure _
    · exact .pure _
  | dentLsFaceted fd clearance =>
    refine (composed_labelOrPublic _).bind fun c => (composed_dent fd).bind fun e => ?_
    split
    · exact (composed_listFacets _ _).bind fun _ => .pure _
    · exact .pure _
  | dentLink dirFd name targetFd => exact composed_dentLink rounds dirFd name targetFd
  | dentUnlink fd name => exact composed_dentUnlink rounds fd name
  | dentInvoke fd sync payload toblob parameters => exact composed_dentInvoke rounds fd _ _ _ _
  | dentLsGate fd =>
    refine (composed_dent fd).bind fun e => ?_
    split
    · exact (composed_read _).bind fun g => (composed_showGate g).bind fun _ => .pure _
    · exact .pure _
  | dentGetBlob fd => exact composed_dentGetBlob fd
  | blobCreate size => exact composed_blobCreate
  | blobWrite fd data => exact composed_blobWrite fd data
  | blobFinalize fd => exact composed_blobFinalize fd
  | blobRead fd offset length => exact composed_blobRead fd _ _
  | blobClose fd => exact composed_blobClose fd

/-- **One syscall, walked through**: hidden objects have no influence on it, unless it taints the
thread with a hidden label. -/
theorem composed_doSyscall (sc : Pb.Syscall) : Composed Basic (doSyscall rounds sc) := by
  unfold doSyscall
  split
  · exact Composed.bind (composed_getPrivilege.bind fun q => (composed_withCurrentLabel _).bind fun _ =>
      .pure _) fun _ => .pure _
  · exact (composed_serve rounds _).bind fun _ => .pure _


/-! ### The frontend and the workers -/

theorem composed_parseComponent (c : List Char) : Composed Basic (Path.parseComponent c) := by
  unfold Path.parseComponent
  split_ifs
  · exact composed_getCurrentLabel.bind fun _ => .pure _
  · split <;> exact .pure _

theorem composed_parseComponents (cs : List (List Char)) : Composed Basic (Path.parseComponents cs) := by
  induction cs with
  | nil => exact .pure _
  | cons c cs ih =>
    refine (composed_parseComponent c).bind fun r => ?_
    split
    · exact .pure _
    · refine ih.bind fun r => ?_
      split <;> exact .pure _

theorem composed_parse (input : String) : Composed Basic (Path.parse input) := by
  unfold Path.parse
  split
  · exact .pure _
  · exact .pure _
  · refine Composed.bind (composed_getPrivilege.bind fun _ => .pure _) fun _ =>
      (composed_parseComponents _).bind fun r => ?_
    split <;> exact .pure _
  · exact composed_parseComponents _

theorem composed_dupFsutil (n : ℕ) (privilege clearance : Component) :
    Composed Basic (dupFsutil n privilege clearance) := by
  refine (composed_parse _).bind fun a => (composed_unwrap a).bind fun fsutil =>
    (composed_parse _).bind fun b => (composed_unwrap b).bind fun baseDir =>
    (composed_readPath n fsutil).bind fun e => ?_
  split
  · exact (composed_createRedirectGate n _ _).bind fun _ => composed_fsLink n _ _ _
  · exact .raise _

theorem composed_registerUserFsutil (n : ℕ) (user clearance : Component) :
    Composed Basic (registerUserFsutil n user clearance) :=
  (composed_setMyPrivilege _).bind fun _ => (composed_result (composed_dupFsutil n user clearance)).bind fun _ =>
    composed_setMyPrivilege _

theorem composed_authenticateCas (n : ℕ) (user : String) : Composed Basic (App.authenticateCas n user) :=
  (composed_registerUserFsutil n _ _).bind fun _ => .pure _

theorem composed_delegate (n : ℕ) (login : Component) (request : App.Delegate) :
    Composed Basic (App.delegate n login request) := by
  unfold App.delegate
  split
  · exact .pure _
  · split_ifs
    · split
      · exact .pure _
      · exact (composed_setMyPrivilege _).bind fun _ => (composed_registerUserFsutil n _ _).bind fun _ =>
          (composed_setMyPrivilege _).bind fun _ => .pure _
    · exact .pure _
    · exact .pure _

theorem composed_resolveGate (n : ℕ) (path : Path) :
    Composed Basic (resolveGateWithClearanceCheck n path) := by
  refine (composed_readPath n path).bind fun e => ?_
  split
  · refine (composed_toInvokable n _).bind fun g => composed_getPrivilege.bind fun p => ?_
    split_ifs
    · exact .pure _
    · exact .raise _
  · exact .raise _

theorem composed_waitForCompletion (m : LabeledInvoke) : Composed Basic (waitForCompletion m) := by
  refine (composed_schedWrite m).bind fun sent => ?_
  split_ifs
  · refine composed_schedRead.bind fun r => ?_
    split
    · exact .pure _
    · refine (composed_unwrap _).bind fun _ => (composed_unwrap _).bind fun _ =>
        composed_getCurrentLabel.bind fun _ => composed_getPrivilege.bind fun _ => ?_
      split_ifs <;> exact .pure _
  · exact .pure _

theorem composed_init (n : ℕ) (login : Option Component) (gatePath : String) (label : Option Buckle)
    (blobs : ExtTreeMap String String compare) (payload : Bytes)
    (headers : ExtTreeMap String String compare) :
    Composed Basic (init n login gatePath label blobs payload headers) := by
  refine Composed.bind ((composed_withCurrentLabel _).bind fun _ => (composed_setMyPrivilege _).bind fun _ => ?_)
    fun _ => Composed.bind ((composed_parse gatePath).bind fun path => ?_) fun r => ?_
  · cases label with
    | none => exact .pure _
    | some l => exact (composed_withCurrentLabel _).bind fun _ => .pure _
  · split
    · exact .pure _
    · refine (composed_result (composed_resolveGate n _)).bind fun r => ?_
      split
      · exact .pure _
      · exact composed_getCurrentLabel.bind fun _ => composed_getPrivilege.bind fun _ => .pure _
  · split
    · exact .pure _
    · exact composed_waitForCompletion _

theorem composed_openBlobs (bs : List (String × String)) : Composed Basic (openBlobs bs) := by
  induction bs with
  | nil => exact .pure _
  | cons b bs ih => exact (composed_openExpect _).bind fun _ => ih.bind fun _ => .pure _

theorem composed_insertBlobs (bs : List (String × OpenBlob)) : Composed Basic (insertBlobs bs) := by
  induction bs with
  | nil => exact .pure _
  | cons b bs ih =>
    exact composed_newBlobId.bind fun _ => (composed_amend _).bind fun _ => ih.bind fun _ => .pure _

theorem composed_firstPrincipals (cs : List Clause) : Composed Basic (firstPrincipals cs) := by
  induction cs with
  | nil => exact .pure _
  | cons c cs ih => exact (composed_unwrap _).bind fun _ => ih.bind fun _ => .pure _

theorem composed_processTask (m : LabeledInvoke) : Composed Basic (processTask m) := by
  refine (composed_unwrap _).bind fun _ => (composed_unwrap _).bind fun label =>
    (composed_unwrap _).bind fun _ => (composed_unwrap _).bind fun privilege =>
    (composed_openBlobs _).bind fun blobs => Composed.bind ?_ fun _ =>
    (composed_unwrap _).bind fun _ => (composed_unwrap _).bind fun invoker =>
    (composed_insertBlobs _).bind fun _ => Composed.bind ?_ fun _ => .pure _
  · exact (composed_withCurrentLabel _).bind fun _ => (composed_withCurrentLabel _).bind fun _ =>
      (composed_setMyPrivilege _).bind fun _ => composed_amend _
  · cases invoker with
    | dcFalse => exact .raise _
    | dcFormula cs => exact composed_firstPrincipals _

end Faasten
