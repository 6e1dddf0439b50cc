import Mathlib
import Faasten.Fs.Label

/-!
# The operations of the file system

The functions of `fs/mod.rs` on stored objects, and the parts of `fs/path.rs` and `fs/utils.rs` that
resolve paths. A loop of the source takes the number of its rounds as its first argument: the retry
loops of `set_new_id`, `link`, `unlink` and `open`, and the redirect loop of `to_invokable`.
-/

namespace Faasten

open Std

namespace ObjectRef

/-- `ObjectRef<T>::get` -/
def get (T : Type) [Codec T] (uid : Uid) : M (Option T) := do
  return (← Storage.get uid).bind Stored.decode

/-- `ObjectRef<T>::set` -/
def set {T : Type} [Codec T] (uid : Uid) (value : T) : M Unit := Storage.put uid (.encode value)

/-- `ObjectRef<T>::set_new_id`: draw uids until one is free, reserve it, and write the value. -/
def setNewId {T : Type} [Codec T] : ℕ → T → M Uid
  | 0, _ => diverge
  | n + 1, value => do
      let uid ← random
      if ← Storage.add uid .reserved then
        set uid value
        return uid
      else setNewId n value

/-- `ObjectRef<T>::cas`; what is found instead is decoded as a `T`. -/
def cas {T : Type} [Codec T] (uid : Uid) (expected : Option T) (value : T) :
    M (Except (Option T) Unit) := do
  match ← Storage.cas uid (expected.map .encode) (.encode value) with
  | .ok () => return .ok ()
  | .error found => return .error (found.bind Stored.decode)

/-- `ObjectRef<Labeled<T>>::create` with the default value of `T`. -/
def create (T : Type) [LabeledCodec T] [Inhabited T] (rounds : ℕ) (label : Buckle) : M Uid :=
  setNewId rounds (⟨label, default⟩ : Labeled T)

section

variable {T : Type} [Codec T]

theorem exec_get (uid : Uid) (w : World) :
    exec (get T uid) w = (.ok ((w.store uid).bind Stored.decode), w) := rfl

/-- Allocation either runs out of rounds, or writes the value under a uid that was free. -/
theorem exec_setNewId (n : ℕ) (v : T) (w : World) :
    (∃ r, exec (setNewId n v) w = (.error .diverge, { w with rand := r })) ∨
    ∃ u r, w.store u = none ∧
      exec (setNewId n v) w = (.ok u, { w with rand := r, store := w.store.put u (.encode v) }) := by
  induction n generalizing w with
  | zero => exact .inl ⟨w.rand, rfl⟩
  | succ n ih =>
    unfold setNewId
    rw [exec_bind_ok (exec_random w), exec_bind, exec_add]
    by_cases hu : w.store w.rand.head = none
    · refine .inr ⟨w.rand.head, w.rand.tail, hu, ?_⟩
      simp only [hu, if_true, exec_bind, set, exec_put, exec_pure, Store.put_put]
    · simpa only [hu, if_false, Bool.false_eq_true] using ih { w with rand := w.rand.tail }

theorem setNewId_ok {n : ℕ} {v : T} {u : Uid} {w w' : World}
    (h : exec (setNewId n v) w = (.ok u, w')) :
    w.store u = none ∧
      ∃ r, w' = { w with rand := r, store := w.store.put u (.encode v) } := by
  obtain ⟨r, hr⟩ | ⟨u, r, hu, hr⟩ := exec_setNewId n v w
  · rw [hr] at h; cases h
  · rw [hr] at h; cases h; exact ⟨hu, r, rfl⟩

end

variable [LabelCrate]

/-- `self.get(fs).unwrap().unlabel().clone()` -/
def read (T : Type) [LabeledCodec T] (uid : Uid) : M T := do
  let o ← unwrap (← get (Labeled T) uid)
  o.unlabel

/-- The body of `File::write` and of the `replace`s: get, `write`, set. -/
def overwrite {T : Type} [LabeledCodec T] (uid : Uid) (value : T) : M Unit := do
  let o ← unwrap (← get (Labeled T) uid)
  let o ← o.write value
  set uid o

variable {T : Type} [LabeledCodec T]

theorem exec_read {uid : Uid} {w : World} {o : Labeled T}
    (h : (w.store uid).bind Stored.decode = some o) :
    exec (read T uid) w = (.ok o.data, w.relabel (lub o.label w.currentLabel)) := by
  unfold read
  rw [exec_bind_ok (exec_get uid w), h]
  rfl

theorem exec_read_encode {uid : Uid} {w : World} {o : Labeled T}
    (h : w.store uid = some (.encode o)) :
    exec (read T uid) w = (.ok o.data, w.relabel (lub o.label w.currentLabel)) :=
  exec_read (by rw [h]; exact Stored.decode_encode o)

theorem exec_read_none {uid : Uid} {w : World}
    (h : (w.store uid).bind (Stored.decode (T := Labeled T)) = none) :
    exec (read T uid) w = (.error .panic, w) := by
  unfold read
  rw [exec_bind_ok (exec_get uid w), h]
  rfl

theorem read_ok {uid : Uid} {w w' : World} {v : T} (h : exec (read T uid) w = (.ok v, w')) :
    ∃ o : Labeled T, w.store uid = some (.encode o) ∧ v = o.data ∧
      w' = w.relabel (lub o.label w.currentLabel) := by
  rcases ho : (w.store uid).bind (Stored.decode (T := Labeled T)) with _ | o
  · rw [exec_read_none ho] at h; cases h
  · rw [exec_read ho] at h; cases h
    exact ⟨o, decode_eq_some ho, rfl, rfl⟩

theorem exec_overwrite {uid : Uid} {w : World} {o : Labeled T}
    (h : (w.store uid).bind Stored.decode = some o) (v : T) :
    exec (overwrite uid v) w =
      if canFlowToWithPrivilege w.currentLabel o.label w.privilege
      then (.ok (), { w with store := w.store.put uid (.encode { o with data := v }) })
      else (.error (.err (.labelError .cannotWrite)), w) := by
  unfold overwrite
  rw [exec_bind_ok (exec_get uid w), h, exec_bind_ok (exec_unwrap_some o w), exec_bind,
    Labeled.exec_write]
  split_ifs <;> rfl

theorem exec_overwrite_none {uid : Uid} {w : World}
    (h : (w.store uid).bind (Stored.decode (T := Labeled T)) = none) (v : T) :
    exec (overwrite uid v) w = (.error .panic, w) := by
  unfold overwrite
  rw [exec_bind_ok (exec_get uid w), h]
  rfl

theorem overwrite_ok {uid : Uid} {v : T} {w w' : World}
    (h : exec (overwrite uid v) w = (.ok (), w')) :
    ∃ o : Labeled T, w.store uid = some (.encode o) ∧
      canFlowToWithPrivilege w.currentLabel o.label w.privilege ∧
      w' = { w with store := w.store.put uid (.encode { o with data := v }) } := by
  rcases ho : (w.store uid).bind (Stored.decode (T := Labeled T)) with _ | o
  · rw [exec_overwrite_none ho] at h; cases h
  · rw [exec_overwrite ho] at h
    split_ifs at h with hf
    · cases h; exact ⟨o, decode_eq_some ho, hf, rfl⟩
    · cases h

end ObjectRef

instance : Inhabited Directory := ⟨{}⟩

variable [LabelCrate]

/-! ### Directories -/

namespace Directory

/-- `ObjectRef<Labeled<Directory>>::list` -/
def list (self : Uid) : M (ExtTreeMap String DirEntry compare) := do
  return (← ObjectRef.read Directory self).entries

theorem exec_list {u : Uid} {o : Labeled Directory} {w : World}
    (h : (w.store u).bind Stored.decode = some o) :
    exec (list u) w = (.ok o.data.entries, w.relabel (lub o.label w.currentLabel)) := by
  unfold list
  rw [exec_bind_ok (ObjectRef.exec_read h)]
  rfl

/-- One entry more, and whether the name was taken. -/
def insert (name : String) (entry : DirEntry) (dir : Directory) : Bool × Directory :=
  (dir.entries.contains name, ⟨dir.entries.insert name entry⟩)

/-- One entry less, and whether the name was there. -/
def remove (name : String) (dir : Directory) : Bool × Directory :=
  (dir.entries.contains name, ⟨dir.entries.erase name⟩)

/-- The loop of `link` and `unlink`: modify the directory as last seen and swap it in. `skip` says
for which outcomes of the modification nothing is written. -/
def updateLoop (self : Uid) (f : Directory → Bool × Directory) (skip : Bool) :
    ℕ → Labeled Directory → M Bool
  | 0, _ => diverge
  | n + 1, prevDir => do
      let (existed, labeledDir) ← prevDir.modify f
      if existed = skip then return false
      else
        match ← ObjectRef.cas self (some prevDir) labeledDir with
        | .error (some p) => updateLoop self f skip n p
        | _ => return true

/-- `ObjectRef<Labeled<Directory>>::link` -/
def link (rounds : ℕ) (self : Uid) (name : String) (entry : DirEntry) : M Bool := do
  let prevDir ← unwrap (← ObjectRef.get (Labeled Directory) self)
  updateLoop self (insert name entry) true rounds prevDir

/-- `ObjectRef<Labeled<Directory>>::unlink` -/
def unlink (rounds : ℕ) (self : Uid) (name : String) : M Bool := do
  let prevDir ← unwrap (← ObjectRef.get (Labeled Directory) self)
  updateLoop self (remove name) false rounds prevDir

/-- The first round of the loop succeeds when no one else writes to the directory. -/
theorem exec_updateLoop {self : Uid} {d : Labeled Directory} {w : World}
    (h : w.store self = some (.encode d)) (f : Directory → Bool × Directory) (skip : Bool) (n : ℕ) :
    exec (updateLoop self f skip (n + 1) d) w =
      if canFlowToWithPrivilege (lub d.label w.currentLabel) d.label w.privilege then
        if (f d.data).1 = skip then (.ok false, w.relabel (lub d.label w.currentLabel))
        else (.ok true, { w.relabel (lub d.label w.currentLabel) with
          store := w.store.put self (.encode { d with data := (f d.data).2 }) })
      else (.error (.err (.labelError .cannotWrite)), w.relabel (lub d.label w.currentLabel)) := by
  unfold updateLoop
  rw [exec_bind, Labeled.exec_modify]
  split_ifs with hf hs
  · simp only [hs, if_true, exec_pure]
  · simp only [hs, if_false, ObjectRef.cas, exec_bind, exec_cas, World.relabel_store, h,
      Option.map_some]
    rfl
  · rfl

end Directory

/-! ### Files, blobs, services and gates -/

/-- `ObjectRef<Labeled<File>>::read` -/
def File.read (self : Uid) : M File := ObjectRef.read File self

/-- `ObjectRef<Labeled<File>>::write` -/
def File.write (self : Uid) (data : Bytes) : M Unit := ObjectRef.overwrite (T := File) self data

/-- `ObjectRef<Labeled<Blob>>::read` -/
def Blob.read (self : Uid) : M Blob := ObjectRef.read Blob self

/-- `ObjectRef<Labeled<Blob>>::replace` -/
def Blob.replace (self : Uid) (newBlob : Blob) : M Unit := ObjectRef.overwrite self newBlob

/-- The check that a privilege may be given away. -/
def checkDelegate (newPriv : Component) : M Unit := do
  if implies (← getPrivilege) newPriv then return ()
  else throwFs (.privilegeError .cannotDelegate)

@[simp] theorem exec_checkDelegate (q : Component) (w : World) :
    exec (checkDelegate q) w =
      if implies w.privilege q then (.ok (), w)
      else (.error (.err (.privilegeError .cannotDelegate)), w) := by
  unfold checkDelegate
  rw [exec_bind_ok (exec_getPrivilege w)]
  split_ifs <;> rfl

/-- `ObjectRef<Labeled<Service>>::to_invokable` -/
def Service.toInvokable (self : Uid) : M Service := ObjectRef.read Service self

/-- `ObjectRef<Labeled<Service>>::replace` -/
def Service.replace (self : Uid) (newService : Service) : M Unit := do
  checkDelegate newService.privilege
  ObjectRef.overwrite self newService

namespace Gate

/-- The loop of `to_invokable`: follow redirects, accumulating privilege, declassification and
clearance. The direct gate's own `declassify` is not accumulated. -/
def toInvokableLoop : ℕ → Gate → Component → Component → Component → M DirectGate
  | 0, _, _, _, _ => diverge
  | _ + 1, .direct gate, privilege, declassify, clearance =>
      return { privilege := LabelCrate.and privilege gate.privilege
               invokerIntegrityClearance :=
                 LabelCrate.and clearance gate.invokerIntegrityClearance
               declassify := declassify
               function := gate.function }
  | n + 1, .redirect gate, privilege, declassify, clearance => do
      let cur ← ObjectRef.read Gate gate.gate
      toInvokableLoop n cur (LabelCrate.and privilege gate.privilege)
        (LabelCrate.and declassify gate.declassify)
        (LabelCrate.and clearance gate.invokerIntegrityClearance)

/-- `ObjectRef<Labeled<Gate>>::to_invokable` -/
def toInvokable (rounds : ℕ) (self : Uid) : M DirectGate := do
  let cur ← ObjectRef.read Gate self
  toInvokableLoop rounds cur .dcTrue .dcTrue .dcTrue

/-- `ObjectRef<Labeled<Gate>>::replace` -/
def replace (self : Uid) (newGate : Gate) : M Unit := do
  checkDelegate newGate.privilege
  ObjectRef.overwrite self newGate

end Gate

/-! ### Faceted directories -/

namespace FacetedDirectory

/-- The directory of a facet, if it has been allocated. -/
def find (d : FacetedDirectory) (facet : Buckle) : Option Uid :=
  d.facets.findSome? fun (f, value) => if f = facet then some value else none

omit [LabelCrate] in
theorem find_eq_none_iff {d : FacetedDirectory} {f : Buckle} :
    d.find f = none ↔ f ∉ d.facets.map Prod.fst := by
  simp only [find, List.findSome?_eq_none_iff, ite_eq_right_iff, reduceCtorEq, imp_false,
    List.mem_map, not_exists, not_and, Prod.forall]

omit [LabelCrate] in
theorem mem_of_find {d : FacetedDirectory} {f : Buckle} {u : Uid} (h : d.find f = some u) :
    (f, u) ∈ d.facets := by
  obtain ⟨⟨g, v⟩, hmem, hg⟩ := List.exists_of_findSome?_eq_some h
  simp only [Option.ite_none_right_eq_some, Option.some.injEq] at hg
  obtain ⟨rfl, rfl⟩ := hg
  exact hmem

/-- The loop of `open`: return the facet's directory if it is there, else create one and try to
swap in the list extended by it. -/
def openLoop (rounds : ℕ) (self : Uid) (facet : Buckle) : ℕ → Option FacetedDirectory → M Uid
  | 0, _ => diverge
  | n + 1, facetedDir =>
      match facetedDir.bind (·.find facet) with
      | some res => return res
      | none => do
          let newDir ← ObjectRef.setNewId rounds (⟨facet, {}⟩ : Labeled Directory)
          let newFacetedDir : FacetedDirectory :=
            ⟨(facetedDir.getD {}).facets ++ [(facet, newDir)]⟩
          match ← ObjectRef.cas self facetedDir newFacetedDir with
          | .ok () => return newDir
          | .error d => openLoop rounds self facet n d

/-- `ObjectRef<FacetedDirectory>::open`: no label is checked or raised. -/
def open' (rounds : ℕ) (self : Uid) (facet : Buckle) : M Uid := do
  openLoop rounds self facet rounds (← ObjectRef.get FacetedDirectory self)

/-- The facets that a clearance shows. -/
def visible (d : FacetedDirectory) (clearance : Buckle) :
    ExtTreeMap Buckle Uid LabelCrate.cmp :=
  .ofList (d.facets.filter fun (label, _) => canFlowTo label clearance) LabelCrate.cmp

/-- `ObjectRef<FacetedDirectory>::list` -/
def list (self : Uid) (clearance : Buckle) : M (ExtTreeMap Buckle Uid LabelCrate.cmp) := do
  withCurrentLabel do
    let current ← Effect.Access.clone
    Effect.Access.set (lub current clearance)
  return (← unwrap (← ObjectRef.get FacetedDirectory self)).visible clearance

end FacetedDirectory

/-! ### `FS` -/

/-- `fs::path::PathComponent` -/
inductive PathComponent
  | dscrp (name : String)
  | facet (facet : Buckle)
  deriving DecidableEq

/-- `fs::path::Path` -/
abbrev Path := List PathComponent

namespace FS

/-- `ROOT_REF` -/
def rootRef : Uid := 0

/-- The empty root directory. -/
def emptyRoot : Labeled Directory := ⟨⟨.dcTrue, .dcFalse⟩, {}⟩

/-- `FS::initialize` -/
def initializeRoot : M Bool := Storage.add rootRef (.encode emptyRoot)

/-- `FS::root` -/
def root : M (Labeled Directory) := do
  return (← ObjectRef.get (Labeled Directory) rootRef).getD emptyRoot

omit [LabelCrate] in
theorem exec_root (w : World) :
    exec root w = (.ok (((w.store rootRef).bind Stored.decode).getD emptyRoot), w) := rfl

/-- The loop of `read_path`: one component of the path after the other. -/
def readPathLoop (rounds : ℕ) : Option DirEntry → Path → M DirEntry
  | some entry, [] => return entry
  | some (.directory dirObj), .dscrp dscrp :: path => do
      let entries ← Directory.list dirObj
      readPathLoop rounds entries[dscrp]? path
  | some (.facetedDirectory facetObj), .facet facet :: path => do
      let dir ← FacetedDirectory.open' rounds facetObj facet
      readPathLoop rounds (some (.directory dir)) path
  | _, _ => throwFs .badPath

/-- `FS::read_path`. A path that does not start with a name leads to the root. -/
def readPath (rounds : ℕ) : Path → M DirEntry
  | .dscrp comp :: path => do
      let entries := (← (← root).unlabel).entries
      readPathLoop rounds entries[comp]? path
  | _ => return .directory rootRef

/-- `FS::create_file` -/
def createFile (rounds : ℕ) (label : Buckle) : M DirEntry := do
  return .file (← ObjectRef.create File rounds label)

/-- `FS::create_blob`: an empty blob object is created first, and then written with a check. -/
def createBlob (rounds : ℕ) (label : Buckle) (blobName : String) : M DirEntry := do
  let newBlob ← ObjectRef.create Blob rounds label
  Blob.replace newBlob blobName
  return .blob newBlob

/-- `FS::create_directory` -/
def createDirectory (rounds : ℕ) (label : Buckle) : M DirEntry := do
  return .directory (← ObjectRef.create Directory rounds label)

/-- `FS::create_faceted_directory` -/
def createFacetedDirectory (rounds : ℕ) : M DirEntry := do
  return .facetedDirectory (← ObjectRef.setNewId rounds ({} : FacetedDirectory))

/-- The check that an object with this label may be created. -/
def checkCreate (label : Buckle) : M Unit := do
  if canFlowToWithPrivilege (← getCurrentLabel) label (← getPrivilege) then return ()
  else throwFs (.labelError .cannotWrite)

@[simp] theorem exec_checkCreate (l : Buckle) (w : World) :
    exec (checkCreate l) w =
      if canFlowToWithPrivilege w.currentLabel l w.privilege then (.ok (), w)
      else (.error (.err (.labelError .cannotWrite)), w) := by
  unfold checkCreate
  rw [exec_bind_ok (exec_getCurrentLabel w), exec_bind_ok (exec_getPrivilege w)]
  split_ifs <;> rfl

/-- `FS::create_direct_gate` -/
def createDirectGate (rounds : ℕ) (label : Buckle) (directGate : DirectGate) : M DirEntry := do
  checkCreate label
  checkDelegate directGate.privilege
  checkDelegate directGate.declassify
  return .gate (← ObjectRef.setNewId rounds (⟨label, .direct directGate⟩ : Labeled Gate))

/-- `FS::create_redirect_gate` -/
def createRedirectGate (rounds : ℕ) (label : Buckle) (redirectGate : RedirectGate) :
    M DirEntry := do
  checkCreate label
  checkDelegate redirectGate.privilege
  checkDelegate redirectGate.declassify
  return .gate (← ObjectRef.setNewId rounds (⟨label, .redirect redirectGate⟩ : Labeled Gate))

/-- `FS::create_service` -/
def createService (rounds : ℕ) (label : Buckle) (service : Service) : M DirEntry := do
  checkCreate label
  checkDelegate service.privilege
  return .service (← ObjectRef.setNewId rounds (⟨label, service⟩ : Labeled Service))

/-- `FS::link` -/
def link (rounds : ℕ) (baseDir : Path) (name : String) (direntry : DirEntry) : M Unit := do
  match ← readPath rounds baseDir with
  | .directory dirObj =>
      if ← Directory.link rounds dirObj name direntry then return ()
      else throwFs .nameExists
  | _ => throwFs .notADir

/-- `FS::list_dir` -/
def listDir (rounds : ℕ) (path : Path) : M (ExtTreeMap String DirEntry compare) := do
  match ← readPath rounds path with
  | .directory dirObj => Directory.list dirObj
  | _ => throwFs .notADir

/-- `FS::rm` -/
def rm (rounds : ℕ) (dir : Path) (name : String) : M Bool := do
  match ← readPath rounds dir with
  | .directory dirObj => Directory.unlink rounds dirObj name
  | _ => throwFs .notADir

/-- `FS::list_faceted` -/
def listFaceted (rounds : ℕ) (path : Path) (clearance : Buckle) :
    M (ExtTreeMap Buckle Uid LabelCrate.cmp) := do
  match ← readPath rounds path with
  | .facetedDirectory dirObj => FacetedDirectory.list dirObj clearance
  | _ => throwFs .notADir

/-- `FS::read_file` -/
def readFile (rounds : ℕ) (path : Path) : M File := do
  match ← readPath rounds path with
  | .file fileObj => File.read fileObj
  | _ => throwFs .notAFile

/-- `FS::write_file` -/
def writeFile (rounds : ℕ) (path : Path) (data : Bytes) : M Unit := do
  match ← readPath rounds path with
  | .file fileObj => File.write fileObj data
  | _ => throwFs .notAFile

/-- `FS::open_blob` -/
def openBlob (rounds : ℕ) (path : Path) : M Blob := do
  match ← readPath rounds path with
  | .blob blobObj => Blob.read blobObj
  | _ => throwFs .notABlob

/-- `FS::replace_blob` -/
def replaceBlob (rounds : ℕ) (path : Path) (newBlob : Blob) : M Unit := do
  match ← readPath rounds path with
  | .blob blobObj => Blob.replace blobObj newBlob
  | _ => throwFs .notABlob

end FS

/-- `fs::utils::resolve_gate_with_clearance_check` -/
def resolveGateWithClearanceCheck (rounds : ℕ) (path : Path) : M (Function × Component) := do
  match ← FS.readPath rounds path with
  | .gate gate =>
      let directGate ← Gate.toInvokable rounds gate
      if implies (← getPrivilege) directGate.invokerIntegrityClearance then
        return (directGate.function, directGate.privilege)
      else throwFs (.gateError .cannotInvoke)
  | _ => throwFs .notAGate

end Faasten
