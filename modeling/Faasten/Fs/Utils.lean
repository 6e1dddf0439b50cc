import Mathlib
import Faasten.Fs.Operations

/-!
# Creating or updating

`create_or_update_file`, `create_or_update_blob` and `create_faceted` of `fs/utils.rs`. The first two differ
in the kind of the entries they look for and in how an object of the kind is made and written, and are one
function with these as parameters.
-/

namespace Faasten

open Std

/-- The file that an entry refers to. -/
def DirEntry.file? : DirEntry → Option Uid
  | .file u => some u
  | _ => none

/-- The blob that an entry refers to. -/
def DirEntry.blob? : DirEntry → Option Uid
  | .blob u => some u
  | _ => none

/-- The gate that an entry refers to. -/
def DirEntry.gate? : DirEntry → Option Uid
  | .gate u => some u
  | _ => none

variable [LabelCrate]

/-- What is done in the directory for what the name has been found bound to. Whether `unlink` and `link`
have changed anything is not looked at. -/
def createOrUpdateFound (ref : DirEntry → Option Uid) (update : Uid → M Unit) (make : M DirEntry)
    (rounds : ℕ) (dir : Uid) (name : String) : Option DirEntry → M Unit
  | some entry =>
      match ref entry with
      | some u => update u
      | none => do
          let _ ← Directory.unlink rounds dir name
          let new ← make
          let _ ← Directory.link rounds dir name new
          return ()
  | none => do
      let new ← make
      let _ ← Directory.link rounds dir name new
      return ()

/-- The common text of the two functions. -/
def createOrUpdate (ref : DirEntry → Option Uid) (update : Uid → M Unit) (make : M DirEntry)
    (rounds : ℕ) (baseDir : Path) (name : String) : M Unit := do
  match ← FS.readPath rounds baseDir with
  | .directory dir =>
      let entries ← Directory.list dir
      createOrUpdateFound ref update make rounds dir name entries[name]?
  | _ => throwFs .badPath

/-- `create_or_update_file` -/
def createOrUpdateFile (rounds : ℕ) (baseDir : Path) (name : String) (label : Buckle) (data : Bytes) :
    M Unit :=
  createOrUpdate DirEntry.file? (File.write · data)
    (do
      let newFile ← FS.createFile rounds label
      match newFile with
      | .file fileEntry => File.write fileEntry data
      | _ => panic
      return newFile)
    rounds baseDir name

/-- `create_or_update_blob` -/
def createOrUpdateBlob (rounds : ℕ) (baseDir : Path) (name : String) (label : Buckle)
    (blobName : String) : M Unit :=
  createOrUpdate DirEntry.blob? (Blob.replace · blobName) (FS.createBlob rounds label blobName)
    rounds baseDir name

/-- `create_faceted` -/
def createFaceted (rounds : ℕ) (baseDir : Path) (name : String) : M Unit := do
  if (← FS.listDir rounds baseDir).contains name then throwFs .nameExists
  else
    let newDir ← FS.createFacetedDirectory rounds
    FS.link rounds baseDir name newDir

end Faasten
