import Mathlib
import Faasten.Fs.Operations
import Faasten.Syscall.Tables

/-!
# The syscall server

`SyscallProcessor` of `syscall_server.rs`: one function per CloudCall, the dispatch `doSyscall`, and
the loop `run` that serves one guest. `rounds` bounds the retry and redirect loops below.

A failed `Result` of `dent_create` and `dent_update` is logged and becomes a reply without success;
a panic ends the thread.
-/

namespace Faasten

open Std Effect

namespace SyscallProcessor

variable [LabelCrate] (rounds : ℕ)

/-- `SyscallProcessor::new` -/
def new (label : Buckle) (privilege : Component) : M Unit := do
  clearLabel
  let _ ← taintWithLabel label
  setMyPrivilege privilege
  amend fun t =>
    { t with dents := fun fd => if fd = 0 then some (.directory FS.rootRef) else none
             blobs := fun _ => none
             createBlobs := fun _ => none
             maxDentId := 1
             maxBlobId := 1 }

/-- `http_send`; `none` stands for an error. -/
def httpSend (service : Service) (body : Option Bytes)
    (parameters : ExtTreeMap String String compare) : M (Option HttpResponse) := do
  let h ← host
  match h.strfmt service.url parameters with
  | none => return none
  | some url =>
      if service.headers.toList.all fun (a, b) => h.validHeader a b then
        if h.validUrl url then
          httpRequest { url, verb := service.verb, headers := service.headers, body }
        else return none
      else panic

/-! ### Directory entries -/

/-- The entry that `dent_open` opens, under its new descriptor. -/
def openEntry (dirFd : ℕ) (entry : Pb.OpenEntry) : M (Option (ℕ × DentKind)) := do
  match ← dent dirFd, entry with
  | some (.directory baseDir), .name name =>
      match (← Directory.list baseDir)[name]? with
      | some dent => return some (← newDent dent, dent.kind)
      | none => return none
  | some (.facetedDirectory baseDir), .facet label =>
      let dir ← FacetedDirectory.open' rounds baseDir (← unwrap label.into)
      return some (← newDent (.directory dir), .dentDirectory)
  | some (.facetedDirectory baseDir), .name labelName =>
      match LabelCrate.parse labelName with
      | some label =>
          let dir ← FacetedDirectory.open' rounds baseDir label
          return some (← newDent (.directory dir), .dentDirectory)
      | none => return none
  | _, _ => return none

/-- `dent_open` -/
def dentOpen (dirFd : ℕ) (entry : Pb.OpenEntry) : M Pb.Reply := do
  match ← openEntry rounds dirFd entry with
  | some (fd, kind) => return .dentOpenResult true fd kind
  | none => return .dentOpenResult false 0 .dentDirectory

/-- `dent_close`: its result is dropped, and what is sent is the encoding of `()`. -/
def dentClose (fd : ℕ) : M Pb.Reply := do
  amend (·.closeDent fd)
  return .empty

/-- The blob object under a descriptor. -/
def imageOf (fd : ℕ) : M Uid := do
  match ← dent fd with
  | none => throwFs .invalidFd
  | some (.blob uid) => return uid
  | some _ => throwFs .notABlob

/-- A component that must be there. -/
def component (c : Option Pb.Component) : M Component := do unwrap (← unwrap c).into

/-- A component that defaults to `dc_true`. -/
def componentOrTrue : Option Pb.Component → M Component
  | some c => unwrap c.into
  | none => return .dcTrue

/-- The gate a `DentCreate` of a direct gate asks for. -/
def directGateOf (dg : Pb.DirectGate) : M DirectGate := do
  let function ← unwrap dg.function
  let appImage ← imageOf function.appImage
  let runtimeImage ← imageOf function.runtime
  let kernel ← imageOf function.kernel
  let appImage ← ObjectRef.read Blob appImage
  let runtimeImage ← ObjectRef.read Blob runtimeImage
  let kernel ← ObjectRef.read Blob kernel
  return { privilege := ← component dg.privilege
           invokerIntegrityClearance := ← component dg.invokerIntegrityClearance
           declassify := ← componentOrTrue dg.declassify
           function := { memory := function.memory, appImage, runtimeImage, kernel } }

/-- The gate a `DentCreate` of a redirect gate asks for, with the gate it leads to. -/
def redirectGateOf (rd : Pb.RedirectGate) (gate : Uid) : M RedirectGate := do
  return { privilege := ← component rd.privilege
           invokerIntegrityClearance := ← component rd.invokerIntegrityClearance
           declassify := ← componentOrTrue rd.declassify
           gate }

/-- The service a `DentCreate` or `DentUpdate` asks for. -/
def serviceOf (s : Pb.Service) : M Service := do
  return { taint := ← unwrap (← unwrap s.taint).into
           privilege := ← component s.privilege
           invokerIntegrityClearance := ← component s.invokerIntegrityClearance
           url := s.url
           verb := Pb.httpVerb s.verb
           headers := s.headers }

/-- The object that `dent_create` creates. -/
def createEntry (kind : Pb.CreateKind) (label : Buckle) : M DirEntry :=
  match kind with
  | .directory => FS.createDirectory rounds label
  | .file => FS.createFile rounds label
  | .facetedDirectory => FS.createFacetedDirectory rounds
  | .gate (some (.direct dg)) => do
      FS.createDirectGate rounds label (← directGateOf dg)
  | .gate (some (.redirect rd)) => do
      match ← dent rd.gate with
      | some (.gate gate) => FS.createRedirectGate rounds label (← redirectGateOf rd gate)
      | _ => throwFs .notAGate
  | .gate none => throwFs .notAGate
  | .service s => do
      FS.createService rounds label (← serviceOf s)
  | .blob blobFd => do
      match ← inspect (·.blobs blobFd) with
      | some blob => FS.createBlob rounds label blob.name
      | none => throwFs .notABlob

/-- `dent_create` -/
def dentCreate (kind : Pb.CreateKind) (label : Option Buckle) : M Pb.Reply := do
  let entry ← createEntry rounds kind (label.getD publicLabel)
  return .dentResult true (some (← newDent entry)) none

/-- One image of a gate after an update: descriptor 0 leaves it as it is. -/
def updateImage (fd : ℕ) (old : String) : M String := do
  if 0 < fd then ObjectRef.read Blob (← imageOf fd) else return old

/-- The function of a gate after an update. -/
def updateFunction (function : Option Pb.Function) (old : Function) : M Function := do
  match function with
  | none => return old
  | some f =>
      let appImage ← updateImage f.appImage old.appImage
      let runtimeImage ← updateImage f.runtime old.runtimeImage
      let kernel ← updateImage f.kernel old.kernel
      return { memory := if 0 < f.memory then f.memory else old.memory
               appImage, runtimeImage, kernel }

/-- A component of a gate after an update: an absent one leaves it as it is. -/
def updateComponent (c : Option Pb.Component) (old : Component) : M Component := do
  match c with
  | some c => unwrap c.into
  | none => return old

/-- `gateentry.get(fs).map(|e| e.unlabel().clone())` -/
def readGate (uid : Uid) : M (Option Gate) := do
  match ← ObjectRef.get (Labeled Gate) uid with
  | some e => return some (← e.unlabel)
  | none => return none

/-- `dent_update` of a gate. The message's `declassify` is not used. -/
def updateGate (uid : Uid) : Pb.GateKind → M Unit
  | .direct dg => do
      match ← readGate uid with
      | some (.direct gate) =>
          let function ← updateFunction dg.function gate.function
          let privilege ← updateComponent dg.privilege gate.privilege
          let invokerIntegrityClearance ←
            updateComponent dg.invokerIntegrityClearance gate.invokerIntegrityClearance
          Gate.replace uid
            (.direct { gate with privilege, invokerIntegrityClearance, function })
      | _ => throwFs .notAGate
  | .redirect rd => do
      match ← readGate uid with
      | some (.redirect gate) =>
          match ← dent rd.gate with
          | some (.gate target) =>
              let privilege ← updateComponent rd.privilege gate.privilege
              let invokerIntegrityClearance ←
                updateComponent rd.invokerIntegrityClearance gate.invokerIntegrityClearance
              Gate.replace uid
                (.redirect { gate with privilege, invokerIntegrityClearance, gate := target })
          | _ => throwFs .notAGate
      | _ => throwFs .notAGate

/-- The write that `dent_update` makes. -/
def updateEntry (fd : ℕ) : Pb.UpdateKind → M Unit
  | .file data => do
      match ← dent fd with
      | some (.file file) => File.write file data
      | _ => throwFs .notAFile
  | .gate kind => do
      match ← dent fd, kind with
      | some (.gate uid), some kind => updateGate uid kind
      | _, _ => throwFs .notAGate
  | .service s => do
      match ← dent fd with
      | some (.service service) => Service.replace service (← serviceOf s)
      | _ => throwFs .notAService
  | .blob blobFd => do
      match ← inspect (·.blobs blobFd) with
      | none => throwFs .notABlob
      | some blob =>
          match ← dent fd with
          | some (.blob uid) => Blob.replace uid blob.name
          | _ => throwFs .notABlob

/-- `dent_update` -/
def dentUpdate (fd : ℕ) (kind : Pb.UpdateKind) : M Pb.Reply := do
  updateEntry fd kind
  return .dentResult true none none

/-- `dent_read` -/
def dentRead (fd : ℕ) : M Pb.Reply := do
  match ← dent fd with
  | some (.file file) => return .dentResult true (some fd) (some (← File.read file))
  | _ => return .dentResult false (some fd) none

/-- `dent_list`: it reports success also when there is nothing to list. -/
def dentList (fd : ℕ) : M Pb.Reply := do
  match ← dent fd with
  | some (.directory dir) =>
      return .dentListResult true ((← Directory.list dir).map fun _ entry => entry.kind)
  | _ => return .dentListResult true ∅

/-- `dent_list_faceted` -/
def dentListFaceted (fd : ℕ) (clearance : Buckle) : M Pb.Reply := do
  match ← dent fd with
  | some (.facetedDirectory faceted) =>
      let facets ← FacetedDirectory.list faceted clearance
      return .dentLsFacetedResult true (facets.keys.map .ofBuckle)
  | _ => return .dentLsFacetedResult false []

/-- Open an image of a gate under a new descriptor. -/
def openImage (name : String) : M ℕ := do
  let blobId ← newBlobId
  let blob ← Blobstore.openExpect name
  amend (·.putBlob blobId blob)
  return blobId

/-- A gate as `dent_ls_gate` shows it: the images as descriptors, the target of a redirect not. -/
def showGate : Gate → M Pb.GateKind
  | .direct dg => do
      let appImage ← openImage dg.function.appImage
      let runtime ← openImage dg.function.runtimeImage
      let kernel ← openImage dg.function.kernel
      return .direct
        { privilege := some (.ofComponent dg.privilege)
          invokerIntegrityClearance := some (.ofComponent dg.invokerIntegrityClearance)
          declassify := some (.ofComponent dg.declassify)
          function := some { memory := dg.function.memory, appImage, runtime, kernel } }
  | .redirect rd =>
      return .redirect
        { privilege := some (.ofComponent rd.privilege)
          invokerIntegrityClearance := some (.ofComponent rd.invokerIntegrityClearance)
          declassify := some (.ofComponent rd.declassify)
          gate := 0 }

/-- `dent_ls_gate` -/
def dentLsGate (fd : ℕ) : M Pb.Reply := do
  match ← dent fd with
  | some (.gate gate) =>
      let gate ← ObjectRef.read Gate gate
      return .dentLsGateResult true (some (← showGate gate))
  | _ => return .dentLsGateResult false none

/-- `dent_link`: it reports success also when the name was taken and nothing was linked. -/
def dentLink (dirFd : ℕ) (name : String) (targetFd : ℕ) : M Pb.Reply := do
  let base ← dent dirFd
  let target ← dent targetFd
  match base, target with
  | some (.directory baseDir), some target =>
      match ← result (Directory.link rounds baseDir name target) with
      | .ok _ => return .dentResult true none none
      | .error _ => return .dentResult false none none
  | _, _ => return .dentResult false none none

/-- `dent_unlink` -/
def dentUnlink (fd : ℕ) (name : String) : M Pb.Reply := do
  match ← dent fd with
  | some (.directory baseDir) =>
      match ← result (Directory.unlink rounds baseDir name) with
      | .ok existed => return .dentResult existed (some fd) none
      | .error _ => return .dentResult false (some fd) none
  | _ => return .dentResult false (some fd) none

/-! ### Invocations -/

/-- What an invocation delivers: a blob descriptor, data, headers. -/
structure Delivered where
  blobFd : Option ℕ := none
  data : Option Bytes := none
  headers : ExtTreeMap String Bytes compare := ∅

/-- Store what was returned as a blob under a new descriptor. -/
def toBlob (content : Bytes) : M ℕ := do
  let blob ← Blobstore.storeExpect content
  let blobFd ← newBlobId
  amend (·.putBlob blobFd blob)
  return blobFd

/-- `label.map(Into::into).unwrap_or(Buckle::public())` -/
def labelOrPublic : Option Pb.Buckle → M Buckle
  | some l => unwrap l.into
  | none => return publicLabel

/-- The `TaskReturn` of a synchronous invocation: taint with its label, then deliver its body. -/
def receive (toblob : Bool) (res : TaskReturn) : M Delivered := do
  let _ ← taintWithLabel (← labelOrPublic res.label)
  let payload ← unwrap res.payload
  if toblob then return { blobFd := some (← toBlob (payload.body.getD [])) }
  else return { data := payload.body }

/-- `dent_invoke` on a gate: check the clearance, hand the function to the scheduler, and wait for
it if asked to. -/
def invokeGate (gate : Uid) (sync : Bool) (payload : Bytes) (toblob : Bool)
    (parameters : ExtTreeMap String String compare) : M Delivered := do
  let gate ← Gate.toInvokable rounds gate
  if implies (← getPrivilege) gate.invokerIntegrityClearance then
    if ← schedConn then
      let message : LabeledInvoke :=
        { function := some gate.function
          label := some (.ofBuckle (← getCurrentLabel))
          gatePrivilege := some (.ofComponent gate.privilege)
          payload
          blobs := ∅
          headers := parameters
          sync
          invoker := some (.ofComponent (← getPrivilege)) }
      if ← schedWrite message then
        if sync then
          match ← schedRead with
          | some res => receive toblob res
          | none => return {}
        else return { data := some [] }
      else return {}
    else panic
  else return {}

/-- `dent_invoke` on a service: check the clearance, downgrade the label by the privilege of the
service, send the request, and taint with the label of the service. -/
def invokeService (service : Uid) (payload : Bytes) (toblob : Bool)
    (parameters : ExtTreeMap String String compare) : M Delivered := do
  let serviceInfo ← Service.toInvokable service
  if implies (← getPrivilege) serviceInfo.invokerIntegrityClearance then
    let _ ← declassifyWith serviceInfo.privilege
    let sendRes ← httpSend serviceInfo (some payload) parameters
    let _ ← taintWithLabel serviceInfo.taint
    match sendRes with
    | some response =>
        if toblob then
          let body ← unwrap response.body
          return { blobFd := some (← toBlob body), headers := response.headers }
        else return { data := response.body, headers := response.headers }
    | none => return {}
  else return {}

/-- The reply to an invocation. -/
def Delivered.reply (d : Delivered) : Pb.Reply :=
  .dentInvokeResult (d.blobFd.isSome || d.data.isSome) d.blobFd d.data d.headers

/-- `dent_invoke` -/
def dentInvoke (fd : ℕ) (sync : Bool) (payload : Bytes) (toblob : Bool)
    (parameters : ExtTreeMap String String compare) : M Pb.Reply := do
  match ← dent fd with
  | some (.gate gate) => return (← invokeGate rounds gate sync payload toblob parameters).reply
  | some (.service service) => return (← invokeService service payload toblob parameters).reply
  | _ => return ({} : Delivered).reply

/-! ### Blobs -/

/-- `dent_get_blob` -/
def dentGetBlob (fd : ℕ) : M Pb.Reply := do
  match ← dent fd with
  | some (.blob uid) =>
      let blob ← Blobstore.openExpect (← Blob.read uid)
      let blobFd ← newBlobId
      let len ← blob.lenExpect
      amend (·.putBlob blobFd blob)
      return .blobResult true blobFd len none
  | _ => return .blobResult false 0 0 none

/-- `blob_create` -/
def blobCreate : M Pb.Reply := do
  match ← Blobstore.create with
  | .ok newBlob =>
      let blobId ← newBlobId
      amend (·.putNewBlob blobId newBlob)
      return .blobResult true blobId 0 none
  | .error e => return .blobResult false 0 0 (some e)

/-- `blob_write` -/
def blobWrite (fd : ℕ) (data : Bytes) : M Pb.Reply := do
  match ← inspect (·.createBlobs fd) with
  | some blob =>
      match ← blob.write data with
      | .ok (len, blob) =>
          amend (·.putNewBlob fd blob)
          return .blobResult true fd len none
      | .error e => return .blobResult false fd 0 (some e)
  | none => return .blobResult false fd 0 none

/-- `blob_finalize` -/
def blobFinalize (fd : ℕ) : M Pb.Reply := do
  match ← inspect (·.createBlobs fd) with
  | some newBlob =>
      amend (·.closeNewBlob fd)
      match ← Blobstore.save newBlob with
      | .ok blob =>
          amend (·.putBlob fd blob)
          return .blobResult true fd newBlob.len none
      | .error e => return .blobResult false fd newBlob.len (some e)
  | none => return .blobResult false fd 0 none

/-- `blob_read`. A buffer of more than `isize::MAX` bytes overflows the capacity of a `Vec`. -/
def blobRead (fd : ℕ) (offset length : ℕ) : M Pb.Reply := do
  match ← inspect (·.blobs fd) with
  | some blob =>
      if length < 2 ^ 63 then
        match ← blob.readAt offset length with
        | .ok buf => return .blobResult true fd buf.length (some buf)
        | .error e => return .blobResult false fd 0 (some e)
      else panic
  | none => return .blobResult false fd 0 none

/-- `blob_close` -/
def blobClose (fd : ℕ) : M Pb.Reply := do
  match ← inspect (·.blobs fd) with
  | some _ =>
      amend (·.closeBlob fd)
      return .blobResult true fd 0 none
  | none => return .blobResult false fd 0 none

/-! ### The dispatch -/

/-- What a syscall does for its guest: a reply is sent, or the task ends with a result. -/
inductive Outcome
  | sent (reply : Pb.Reply)
  | returned (result : TaskReturn)
  deriving DecidableEq

/-- `….map_err(log).unwrap_or(DentResult { success: false, … })` -/
def orFailure (m : M Pb.Reply) : M Pb.Reply := do
  match ← Faasten.result m with
  | .ok reply => return reply
  | .error _ => return .dentResult false none none

/-- The `Response` arm: the label of the result is the current one, downgraded. -/
def response (r : Pb.Response) : M TaskReturn := do
  let resultLabel ← declassifyWith (← getPrivilege)
  return { code := .success, payload := some r, label := some (.ofBuckle resultLabel) }

/-- The `TaintWithLabel` arm. The borrow taken on the right-hand side of the assignment lives to the
end of the statement, and so overlaps with the exclusive borrow on its left-hand side. -/
def taint (label : Pb.Buckle) : M Pb.Reply := do
  let label ← unwrap label.into
  let current ← withCurrentLabel do
    let current ← Access.borrow
    Access.borrowMut
    Access.assign (lub current label)
    Access.releaseMut
    Access.release
    Access.clone
  return .buckle (.ofBuckle current)

/-- `label.map(Into::into)` -/
def convertLabel : Option Pb.Buckle → M (Option Buckle)
  | some l => do return some (← unwrap l.into)
  | none => return none

/-- The `DentCreate` arm. The label is converted before the kind is looked at. -/
def create (label : Option Pb.Buckle) (kind : Option Pb.CreateKind) : M Pb.Reply := do
  let label ← convertLabel label
  match kind with
  | some kind => orFailure (dentCreate rounds kind label)
  | none => return .dentResult false none none

/-- The `DentUpdate` arm. -/
def update (fd : ℕ) : Option Pb.UpdateKind → M Pb.Reply
  | some kind => orFailure (dentUpdate fd kind)
  | none => return .dentResult false none none

/-- The reply to each syscall but `Response`. `SubPrivilege` is a `todo!()`. -/
def serve : Pb.Syscall → M Pb.Reply
  | .response _ => panic
  | .buckleParse label => return .maybeBuckle ((LabelCrate.parse label).map .ofBuckle)
  | .getCurrentLabel => do return .buckle (.ofBuckle (← getCurrentLabel))
  | .taintWithLabel label => taint label
  | .declassify c => do
      match ← declassify (← unwrap c.into) with
      | .ok l => return .maybeBuckle (some (.ofBuckle l))
      | .error _ => return .maybeBuckle none
  | .subPrivilege _ => panic
  | .root => return .dentResult true none none
  | .dentOpen fd entry => do dentOpen rounds fd (← unwrap entry)
  | .dentClose fd => dentClose fd
  | .dentCreate label kind => create rounds label kind
  | .dentUpdate fd kind => update fd kind
  | .dentRead fd => dentRead fd
  | .dentList fd => dentList fd
  | .dentLsFaceted fd clearance => do dentListFaceted fd (← labelOrPublic clearance)
  | .dentLsGate fd => dentLsGate fd
  | .dentLink dirFd name targetFd => dentLink rounds dirFd name targetFd
  | .dentUnlink fd name => dentUnlink rounds fd name
  | .dentInvoke fd sync payload toblob parameters =>
      dentInvoke rounds fd sync payload toblob parameters
  | .dentGetBlob fd => dentGetBlob fd
  | .blobCreate _ => blobCreate
  | .blobWrite fd data => blobWrite fd data
  | .blobFinalize fd => blobFinalize fd
  | .blobRead fd offset length => blobRead fd (offset.getD 0) (length.getD 4096)
  | .blobClose fd => blobClose fd

/-- `do_syscall` -/
def doSyscall : Pb.Syscall → M Outcome
  | .response r => do return .returned (← response r)
  | sc => do return .sent (← serve rounds sc)

end SyscallProcessor

end Faasten
