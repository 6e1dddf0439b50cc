import Mathlib
import Faasten.Fs.Object

/-!
# The messages of the monitor

The protobuf messages of `syscalls.proto` and `messages.proto`, with the fields that are optional
on the wire as `Option`s, and the conversions of `syscalls.rs` between wire labels and labels.
A conversion that unwraps a missing field panics; it is modelled as a partial function, `none`
standing for the panic. A wire clause is the list of its token lists.
-/

namespace Faasten

open Std

namespace Pb

/-- The `oneof` of `message Component`. -/
inductive ComponentKind
  | dcFalse
  | clauses (clauses : List (List (List String)))
  deriving DecidableEq

/-- `message Component`. -/
structure Component where
  component : Option ComponentKind
  deriving DecidableEq

/-- `message Buckle`. -/
structure Buckle where
  secrecy : Option Pb.Component
  integrity : Option Pb.Component
  deriving DecidableEq

/-- `impl Into<labeled::buckle::Component> for Component`. -/
def Component.into (c : Pb.Component) : Option Faasten.Component :=
  c.component.map fun
    | .dcFalse => .dcFalse
    | .clauses cs => .formula (cs.map .newFromVec)

/-- `impl From<labeled::buckle::Component> for Component`. -/
def Component.ofComponent : Faasten.Component → Pb.Component
  | .dcFalse => ⟨some .dcFalse⟩
  | .dcFormula cs => ⟨some (.clauses (cs.toList.map fun c => c.principals.toList))⟩

/-- `impl Into<labeled::buckle::Buckle> for Buckle`. -/
def Buckle.into (b : Pb.Buckle) : Option Faasten.Buckle := do
  return ⟨← (← b.secrecy).into, ← (← b.integrity).into⟩

/-- `impl From<labeled::buckle::Buckle> for Buckle`. -/
def Buckle.ofBuckle (b : Faasten.Buckle) : Pb.Buckle :=
  ⟨some (.ofComponent b.secrecy), some (.ofComponent b.integrity)⟩

theorem newFromVec_toList (c : Clause) : Clause.newFromVec c.principals.toList = c := by
  obtain ⟨ps⟩ := c
  refine congrArg Clause.mk (ExtTreeSet.ext_mem fun p => ?_)
  rw [ExtTreeSet.mem_ofList, List.contains_iff_mem, ExtTreeSet.mem_toList]

/-- A component survives the way to the wire and back. -/
@[simp] theorem into_ofComponent (c : Faasten.Component) :
    (Component.ofComponent c).into = some c := by
  cases c with
  | dcFalse => rfl
  | dcFormula cs =>
    simp only [Component.ofComponent, Component.into, Option.map_some, List.map_map,
      Function.comp_def, newFromVec_toList, List.map_id']
    refine congrArg (some ∘ Faasten.Component.dcFormula) (ExtTreeSet.ext_mem fun c => ?_)
    rw [ExtTreeSet.mem_ofList, List.contains_iff_mem, ExtTreeSet.mem_toList]

/-- A label survives the way to the wire and back. -/
@[simp] theorem into_ofBuckle (b : Faasten.Buckle) : (Buckle.ofBuckle b).into = some b := by
  simp [Buckle.ofBuckle, Buckle.into]

/-! ### Syscalls -/

/-- `message Function`: a memory size and three descriptors. -/
structure Function where
  memory : ℕ
  appImage : ℕ
  runtime : ℕ
  kernel : ℕ
  deriving DecidableEq

/-- `message DirectGate`. -/
structure DirectGate where
  privilege : Option Pb.Component
  invokerIntegrityClearance : Option Pb.Component
  function : Option Pb.Function
  declassify : Option Pb.Component
  deriving DecidableEq

/-- `message RedirectGate`. -/
structure RedirectGate where
  privilege : Option Pb.Component
  invokerIntegrityClearance : Option Pb.Component
  gate : ℕ
  declassify : Option Pb.Component
  deriving DecidableEq

/-- The `oneof` of `message Gate`. -/
inductive GateKind
  | direct (g : Pb.DirectGate)
  | redirect (g : Pb.RedirectGate)
  deriving DecidableEq

/-- `message Service`; `verb` is the number of an `HttpVerb`, if it is one. -/
structure Service where
  privilege : Option Pb.Component
  invokerIntegrityClearance : Option Pb.Component
  taint : Option Pb.Buckle
  url : String
  verb : ℤ
  headers : ExtTreeMap String String compare
  deriving DecidableEq

/-- The `oneof` of `message DentCreate`. -/
inductive CreateKind
  | directory
  | file
  | facetedDirectory
  | gate (kind : Option GateKind)
  | service (s : Pb.Service)
  | blob (fd : ℕ)

/-- The `oneof` of `message DentUpdate`. -/
inductive UpdateKind
  | file (data : Bytes)
  | gate (kind : Option GateKind)
  | service (s : Pb.Service)
  | blob (fd : ℕ)

/-- The `oneof` of `message DentOpen`. -/
inductive OpenEntry
  | name (name : String)
  | facet (facet : Pb.Buckle)

/-- `message Response`. -/
structure Response where
  body : Option Bytes
  statusCode : ℕ
  deriving DecidableEq

/-- The `oneof` of `message Syscall`. -/
inductive Syscall
  | response (r : Response)
  | buckleParse (s : String)
  | getCurrentLabel
  | taintWithLabel (l : Pb.Buckle)
  | declassify (c : Pb.Component)
  | subPrivilege (tokens : List String)
  | root
  | dentOpen (fd : ℕ) (entry : Option OpenEntry)
  | dentClose (fd : ℕ)
  | dentCreate (label : Option Pb.Buckle) (kind : Option CreateKind)
  | dentUpdate (fd : ℕ) (kind : Option UpdateKind)
  | dentRead (fd : ℕ)
  | dentList (fd : ℕ)
  | dentLsFaceted (fd : ℕ) (clearance : Option Pb.Buckle)
  | dentLink (dirFd : ℕ) (name : String) (targetFd : ℕ)
  | dentUnlink (fd : ℕ) (name : String)
  | dentInvoke (fd : ℕ) (sync : Bool) (payload : Bytes) (toblob : Bool)
      (parameters : ExtTreeMap String String compare)
  | dentLsGate (fd : ℕ)
  | dentGetBlob (fd : ℕ)
  | blobCreate (size : Option ℕ)
  | blobWrite (fd : ℕ) (data : Bytes)
  | blobFinalize (fd : ℕ)
  | blobRead (fd : ℕ) (offset : Option ℕ) (length : Option ℕ)
  | blobClose (fd : ℕ)

/-- The replies sent back to the guest. `empty` is what `DentClose` sends: the encoding of `()`. -/
inductive Reply
  | empty
  | buckle (label : Pb.Buckle)
  | maybeBuckle (label : Option Pb.Buckle)
  | dentResult (success : Bool) (fd : Option ℕ) (data : Option Bytes)
  | dentOpenResult (success : Bool) (fd : ℕ) (kind : DentKind)
  | dentListResult (success : Bool) (entries : ExtTreeMap String DentKind compare)
  | dentLsFacetedResult (success : Bool) (facets : List Pb.Buckle)
  | dentLsGateResult (success : Bool) (gate : Option GateKind)
  | dentInvokeResult (success : Bool) (fd : Option ℕ) (data : Option Bytes)
      (headers : ExtTreeMap String Bytes compare)
  | blobResult (success : Bool) (fd : ℕ) (len : ℕ) (data : Option Bytes)
  deriving DecidableEq

/-- The `success` flag of a reply that has one. -/
def Reply.success? : Reply → Option Bool
  | .empty => none
  | .buckle _ => none
  | .maybeBuckle _ => none
  | .dentResult success _ _ => some success
  | .dentOpenResult success _ _ => some success
  | .dentListResult success _ => some success
  | .dentLsFacetedResult success _ => some success
  | .dentLsGateResult success _ => some success
  | .dentInvokeResult success _ _ _ => some success
  | .blobResult success _ _ _ => some success

/-- The message types that `syscalls.proto` documents for the replies to calls on a descriptor. -/
inductive ReplyType
  | dentResult
  | dentListResult
  | dentLsFacetedResult
  | dentLsGateResult
  | blobResult
  deriving DecidableEq

/-- The message of a type with every field at its default. -/
def ReplyType.default : ReplyType → Reply
  | .dentResult => .dentResult false none none
  | .dentListResult => .dentListResult false ∅
  | .dentLsFacetedResult => .dentLsFacetedResult false []
  | .dentLsGateResult => .dentLsGateResult false none
  | .blobResult => .blobResult false 0 0 none

/-- The type of a reply, if it is one of these. -/
def Reply.type? : Reply → Option ReplyType
  | .dentResult _ _ _ => some .dentResult
  | .dentListResult _ _ => some .dentListResult
  | .dentLsFacetedResult _ _ => some .dentLsFacetedResult
  | .dentLsGateResult _ _ => some .dentLsGateResult
  | .blobResult _ _ _ _ => some .blobResult
  | _ => none

/-- What the bytes of a reply decode to at a message type: the message itself at its own type, and
at every type the message with all defaults, if there are no bytes. -/
def Reply.decode (type : ReplyType) : Reply → Option Reply
  | .empty => some type.default
  | reply => if reply.type? = some type then some reply else none

/-- `HttpVerb::from_i32(verb).unwrap_or(HttpHead).into()`. -/
def httpVerb : ℤ → HttpVerb
  | 0 => .head
  | 1 => .get
  | 2 => .post
  | 3 => .put
  | 4 => .delete
  | _ => .head

end Pb

/-! ### Messages of the scheduler -/

/-- `enum ReturnCode`. -/
inductive ReturnCode
  | resourceExhausted
  | launchFailed
  | processRequestFailed
  | gateNotExist
  | success
  | queueFull
  deriving DecidableEq

/-- `message TaskReturn`. -/
structure TaskReturn where
  code : ReturnCode
  payload : Option Pb.Response
  label : Option Pb.Buckle
  deriving DecidableEq

/-- `message LabeledInvoke`. The function travels as it is stored in a gate. -/
structure LabeledInvoke where
  function : Option Function
  label : Option Pb.Buckle
  gatePrivilege : Option Pb.Component
  payload : Bytes
  blobs : ExtTreeMap String String compare
  headers : ExtTreeMap String String compare
  sync : Bool
  invoker : Option Pb.Component
  deriving DecidableEq

/-- A request to an external endpoint, as `http_send` builds it. -/
structure HttpRequest where
  url : String
  verb : HttpVerb
  headers : ExtTreeMap String String compare
  body : Option Bytes
  deriving DecidableEq

/-- The answer of an external endpoint: its headers, and its body if it can be read. -/
structure HttpResponse where
  headers : ExtTreeMap String Bytes compare
  body : Option Bytes
  deriving DecidableEq

end Faasten
