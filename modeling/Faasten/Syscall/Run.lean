import Mathlib
import Faasten.Syscall.Server

/-!
# Serving a guest

`SyscallProcessor::run` and the part of `Worker::wait_and_process` around it: a task arrives as a
`LabeledInvoke`, a processor is set up with its label and the privilege of its gate, the guest is
sent a `Request`, and then makes syscalls until it responds.

A guest is a function from the replies it has seen to its next syscall; `none` stands for a channel
that fails.
-/

namespace Faasten

open Std Effect

/-- `syscalls::Request`: what a guest is started with. -/
structure Request where
  payload : Bytes
  blobs : List (String × ℕ)
  headers : ExtTreeMap String String compare
  invoker : List Principal
  deriving DecidableEq

/-- A guest: its next syscall, given the replies so far. -/
abbrev Guest := List Pb.Reply → Option Pb.Syscall

namespace SyscallProcessor

/-- The fold of `from_invoker_privilege_to_invoker_principal_list`: the first principal of each
clause. -/
def firstPrincipals : List Clause → M (List Principal)
  | [] => return []
  | clause :: cs => do
      let tokens ← unwrap clause.principals.toList.head?
      let rest ← firstPrincipals cs
      return tokens :: rest

/-- `from_invoker_privilege_to_invoker_principal_list` -/
def invokerPrincipalList : Component → M (List Principal)
  | .dcFalse => panic
  | .dcFormula set => firstPrincipals set.toList

/-- Put the blobs of the task under new descriptors. -/
def insertBlobs : List (String × OpenBlob) → M (List (String × ℕ))
  | [] => return []
  | (k, b) :: bs => do
      let blobFd ← newBlobId
      amend (·.putBlob blobFd b)
      let rest ← insertBlobs bs
      return (k, blobFd) :: rest

/-- The `Request` that `run` sends first. -/
def request (payload : Bytes) (blobs : List (String × OpenBlob))
    (headers : ExtTreeMap String String compare) (invoker : Component) : M Request := do
  let blobFds ← insertBlobs blobs
  let invoker ← invokerPrincipalList invoker
  return { payload, blobs := blobFds, headers, invoker }

variable [LabelCrate]

/-- The loop of `run`. -/
def loop (rounds : ℕ) (guest : Guest) : ℕ → List Pb.Reply → M (Option TaskReturn)
  | 0, _ => diverge
  | n + 1, replies =>
      match guest replies with
      | none => return none
      | some sc => do
          match ← doSyscall rounds sc with
          | .sent reply => loop rounds guest n (replies ++ [reply])
          | .returned result => return some result

end SyscallProcessor

/-- `blobstore.open(b).unwrap()` for each blob of a task. -/
def openBlobs : List (String × String) → M (List (String × OpenBlob))
  | [] => return []
  | (k, b) :: bs => do
      let blob ← Blobstore.openExpect b
      let rest ← openBlobs bs
      return (k, blob) :: rest

variable [LabelCrate]

/-- How a worker thread takes up a task, up to the request that it sends to the guest. -/
def processTask (invoke : LabeledInvoke) : M Request := do
  let label ← unwrap (← unwrap invoke.label).into
  let privilege ← unwrap (← unwrap invoke.gatePrivilege).into
  let blobs ← openBlobs invoke.blobs.toList
  SyscallProcessor.new label privilege
  let invoker ← unwrap (← unwrap invoke.invoker).into
  SyscallProcessor.request invoke.payload blobs invoke.headers invoker

end Faasten
