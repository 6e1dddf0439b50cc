import Mathlib
import Faasten.Fs.Utils
import Faasten.Gateway

/-!
# Preparing a file system

`prepare_fs` of `fs/bootstrap.rs`: it makes `home` in the root, stores the images of the configuration as
blobs, and installs them under their names in `home:<T,faasten>`, together with the gate `fsutil`. It acts
under three privileges, one after the other: that of the root, that of `faasten`, and none.

`get_runtime_blob` and `get_kernel_blob` read what has been installed, and `update_python` replaces the Python
runtime.

The configuration is given as it is after its file has been read. `files` is the local file system, from
which the images are taken.
-/

namespace Faasten

open Std

variable [LabelCrate]

/-- `Config` -/
structure Config where
  kernel : String
  python : String
  fsutil : String
  otherRuntimes : List String

/-- `FAASTEN_PRIV` -/
def faastenPriv : Component := .single ["faasten"]

/-- `std::path::Path::file_name`: the last component, unless it is `..`. -/
def fileName (path : String) : Option String :=
  match ((path.toList.splitOn '/').filter fun c => c ≠ [] ∧ c ≠ ['.']).getLast? with
  | none => none
  | some c => if c = ['.', '.'] then none else some (String.ofList c)

/-- `expect` on the `Result` of a function -/
def expect {α : Type} (m : M α) : M α := do
  match ← result m with
  | .ok a => return a
  | .error _ => panic

/-- `localfile2blob`: the name of the blob. -/
def localfile2blob (files : String → Option Bytes) (localPath : String) : M String := do
  match ← nextIo with
  | .error _ => panic
  | .ok _ =>
      let buf ← unwrap (files localPath)
      match ← Blobstore.create with
      | .error _ => panic
      | .ok blob =>
          match ← nextIo with
          | .error _ => panic
          | .ok _ =>
              let blob ← blob.writeAll buf
              match ← Blobstore.save blob with
              | .error _ => panic
              | .ok blob => return blob.name

/-- An image is stored, and its blob installed. -/
def installBlob (files : String → Option Bytes) (rounds : ℕ) (base : Path) (label : Buckle)
    (name localPath : String) : M String := do
  let blobname ← localfile2blob files localPath
  createOrUpdateBlob rounds base name label blobname
  return blobname

/-- The gate `fsutil`: anyone may invoke it, and it grants nothing. -/
def fsutilGate (function : Function) : DirectGate where
  privilege := .dcTrue
  invokerIntegrityClearance := .dcTrue
  declassify := .dcTrue
  function := function

/-- The part of `prepare_fs` that installs the gate: the text of `create_or_update_blob` for a gate. -/
def installFsutil (rounds : ℕ) (base : Path) (label : Buckle) (function : Function) : M Unit :=
  createOrUpdate DirEntry.gate? (Gate.replace · (.direct (fsutilGate function)))
    (expect (FS.createDirectGate rounds label (fsutilGate function))) rounds base "fsutil"

/-- The loop over `other_runtimes`. -/
def installRuntimes (files : String → Option Bytes) (rounds : ℕ) (base : Path) (label : Buckle) :
    List String → M Unit
  | [] => return ()
  | rt :: rts => do
      let blobname ← localfile2blob files rt
      let name ← unwrap (fileName rt)
      expect (createOrUpdateBlob rounds base name label blobname)
      installRuntimes files rounds base label rts

/-- `prepare_fs` -/
def prepareFs (files : String → Option Bytes) (rounds : ℕ) (config : Config) : M Unit := do
  let label ← unwrap (LabelCrate.parse "T,faasten")
  let _ ← FS.initializeRoot
  setMyPrivilege .dcFalse
  let _ ← result (createFaceted rounds [] "home")
  setMyPrivilege faastenPriv
  let base ← unwrap (← Path.parse "home:<T,faasten>")
  let kernelBlob ← installBlob files rounds base label "kernel" config.kernel
  let pythonBlob ← installBlob files rounds base label "python" config.python
  let fsutilBlob ← installBlob files rounds base label "fsutil_image" config.fsutil
  installFsutil rounds base label
    { memory := 128, appImage := fsutilBlob, runtimeImage := pythonBlob, kernel := kernelBlob }
  installRuntimes files rounds base label config.otherRuntimes
  setMyPrivilege .dcTrue

/-- `get_runtime_blob` -/
def getRuntimeBlob (rounds : ℕ) (runtime : String) : M Blob := do
  let runtimeFsPath ← unwrap (← Path.parse "home:<T,faasten>")
  expect (FS.openBlob rounds (runtimeFsPath ++ [.dscrp runtime]))

/-- `get_kernel_blob` -/
def getKernelBlob (rounds : ℕ) : M Blob := do
  let kernelFsPath ← unwrap (← Path.parse "home:<T,faasten>")
  expect (FS.openBlob rounds (kernelFsPath ++ [.dscrp "kernel"]))

/-- `update_python` -/
def updatePython (files : String → Option Bytes) (rounds : ℕ) (localPath : String) : M Unit := do
  setMyPrivilege faastenPriv
  let blobname ← localfile2blob files localPath
  let path ← unwrap (← Path.parse "home:<T,faasten>")
  expect (FS.replaceBlob rounds (path ++ [.dscrp "python"]) blobname)
  setMyPrivilege .dcTrue

end Faasten
