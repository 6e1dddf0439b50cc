import Mathlib
import Faasten.Syscall.Server

/-!
# The web frontend

What the frontend does to the monitor's state: a login (`App::authenticate_cas`), the delegation of
a token (`App::delegate`), and the invocation of a gate (`init::init`); with the parts of
`fs/path.rs` and `fs/bootstrap.rs` that they use. Tokens are signed subjects: a token is modelled by
its subject, and `verify_jwt` by the condition that the subject is one that was issued. The expiry
of tokens is switched off in the source.

The parts of a request that only travel through (payload, headers, and the names of the blobs it
uploaded) are arguments.
-/

namespace Faasten

open Std

variable [LabelCrate]

/-! ### Paths -/

namespace Path

/-- The text between `<` and `>` in a component that matches `^<(?P<lbl>.+)>$`. -/
def labelText : List Char → Option (List Char)
  | '<' :: rest =>
      match rest.reverse with
      | '>' :: lbl => if lbl ≠ [] ∧ '\n' ∉ lbl then some lbl.reverse else none
      | _ => none
  | _ => none

/-- One component of a path; `none` stands for `InvalidFacet`. -/
def parseComponent (c : List Char) : M (Option PathComponent) := do
  if c = ['%'] then return some (.facet (← getCurrentLabel))
  else
    match labelText c with
    | some lbl => return (LabelCrate.parse (String.ofList lbl)).map .facet
    | none => return some (.dscrp (String.ofList c))

/-- The loop of `parse`: the components up to the first that is invalid. -/
def parseComponents : List (List Char) → M (Option Path)
  | [] => return some []
  | c :: cs => do
      match ← parseComponent c with
      | none => return none
      | some comp =>
          match ← parseComponents cs with
          | none => return none
          | some path => return some (comp :: path)

/-- `trim_matches(':')` -/
def trim (input : List Char) : List Char :=
  ((input.dropWhile (· = ':')).reverse.dropWhile (· = ':')).reverse

/-- `Path::parse` -/
def parse (input : String) : M (Option Path) := do
  match (trim input.toList).splitOn ':' with
  | [] => return some []
  | [] :: _ => return some []
  | ['~'] :: cs =>
      let ufacet ← getUfacet
      match ← parseComponents cs with
      | none => return none
      | some path => return some (.dscrp "home" :: .facet ufacet :: path)
  | cs => parseComponents cs

end Path

/-! ### `fs/bootstrap.rs` -/

/-- `dup_fsutil` -/
def dupFsutil (rounds : ℕ) (privilege invokerIntegrityClearance : Component) : M Unit := do
  let faastenFsutil ← unwrap (← Path.parse "home:<T,faasten>:fsutil")
  let baseDir ← unwrap (← Path.parse "~")
  match ← FS.readPath rounds faastenFsutil with
  | .gate gate =>
      let newGate ← FS.createRedirectGate rounds publicLabel
        { privilege, invokerIntegrityClearance, declassify := privilege, gate }
      FS.link rounds baseDir "fsutil" newGate
  | _ => throwFs .notAGate

/-- `register_user_fsutil`: an error of `dup_fsutil` is only logged. -/
def registerUserFsutil (rounds : ℕ) (user clearance : Component) : M Unit := do
  setMyPrivilege user
  let _ ← result (dupFsutil rounds user clearance)
  setMyPrivilege .dcTrue

/-! ### `webfront` -/

namespace App

/-- `App::authenticate_cas`, where CAS confirmed the ticket of `user`: the subject of the token. -/
def authenticateCas (rounds : ℕ) (user : String) : M Component := do
  let sub := Component.single ["princeton.edu", user]
  registerUserFsutil rounds sub sub
  return sub

/-- The body of a request to delegate. -/
structure Delegate where
  component : String
  bootstrap : Bool
  clearance : Option String

/-- `Buckle::parse(format!("{},T", text))?.secrecy` -/
def parseSecrecy (text : String) : Option Component :=
  (LabelCrate.parse (text ++ ",T")).map (·.secrecy)

/-- The clearance of the new user's `fsutil`. -/
def delegateClearance (request : Delegate) (newPrincipal : Component) : Option Component :=
  match request.clearance with
  | some c => parseSecrecy c
  | none => some newPrincipal

/-- `App::delegate` for a verified `login`: the subject of the new token, if there is one. -/
def delegate (rounds : ℕ) (login : Component) (request : Delegate) : M (Option Component) :=
  match parseSecrecy request.component with
  | none => return none
  | some newPrincipal =>
      if implies login newPrincipal then
        if request.bootstrap then
          match delegateClearance request newPrincipal with
          | none => return none
          | some clearance => do
              setMyPrivilege newPrincipal
              registerUserFsutil rounds newPrincipal clearance
              setMyPrivilege .dcTrue
              return some newPrincipal
        else return some newPrincipal
      else return none

end App

/-- Why an invocation through the frontend is refused. -/
inductive Refusal
  | invalidPath
  | fsError (e : FsError)
  | notSubmitted
  | noReturn
  | unauthorized

/-- `prepare_labeled_invoke` -/
def prepareLabeledInvoke (rounds : ℕ) (gatePath : String) (blobs : ExtTreeMap String String compare)
    (payload : Bytes) (headers : ExtTreeMap String String compare) :
    M (Except Refusal LabeledInvoke) := do
  match ← Path.parse gatePath with
  | none => return .error .invalidPath
  | some path =>
      match ← result (resolveGateWithClearanceCheck rounds path) with
      | .error e => return .error (.fsError e)
      | .ok (f, gatePrivilege) =>
          let label ← getCurrentLabel
          let invoker ← getPrivilege
          return .ok
            { function := some f
              label := some (.ofBuckle label)
              gatePrivilege := some (.ofComponent gatePrivilege)
              payload, headers, blobs
              sync := true
              invoker := some (.ofComponent invoker) }

/-- `wait_for_completion`: the return is shown only if its label flows to the frontend's. -/
def waitForCompletion (invoke : LabeledInvoke) : M (Except Refusal TaskReturn) := do
  if ← schedWrite invoke then
    match ← schedRead with
    | none => return .error .noReturn
    | some tr =>
        let label ← unwrap (← unwrap tr.label).into
        if canFlowToWithPrivilege label (← getCurrentLabel) (← getPrivilege) then return .ok tr
        else return .error .unauthorized
  else return .error .notSubmitted

/-- The thread state that `init` starts from. -/
def initThread (login : Option Component) (label : Option Buckle) : M Unit := do
  clearLabel
  setMyPrivilege (login.getD .dcTrue)
  match label with
  | some l => let _ ← taintWithLabel l
  | none => return ()

/-- `init::init` -/
def init (rounds : ℕ) (login : Option Component) (gatePath : String) (label : Option Buckle)
    (blobs : ExtTreeMap String String compare) (payload : Bytes)
    (headers : ExtTreeMap String String compare) : M (Except Refusal TaskReturn) := do
  initThread login label
  match ← prepareLabeledInvoke rounds gatePath blobs payload headers with
  | .error e => return .error e
  | .ok invoke => waitForCompletion invoke

end Faasten
