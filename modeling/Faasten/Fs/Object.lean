import Mathlib
import Faasten.Buckle

/-!
# The objects of the file system

The data types of `fs/mod.rs` and `fs/function.rs`. An `ObjectRef<T>` is a `u64` uid with a phantom
type; here it is the uid, and the type stands where the reference is used: in the tag of a
`DirEntry` and in the `Codec` by which a stored object is read.

What the backing store holds under a uid is the JSON text of an object. `serde_json` is taken to be
a canonical, injective encoding under which no object of one type decodes at another, so that the
store can hold the object itself (`Stored.object`); the empty text that `set_new_id` writes to
reserve a uid decodes at no type (`Stored.reserved`).
-/

namespace Faasten

open Std

/-- The uid of an object, the key under which the store holds it. -/
abbrev Uid := UInt64

/-- File and blob contents. -/
abbrev Bytes := List UInt8

/-- `fs::Function`: a memory size and the names of three image blobs. -/
structure Function where
  memory : ℕ
  appImage : String
  runtimeImage : String
  kernel : String
  deriving DecidableEq

/-- `fs::HttpVerb`. -/
inductive HttpVerb
  | head
  | get
  | post
  | put
  | delete
  deriving DecidableEq

/-- An entry of a directory: a kind of object and the uid of one. -/
inductive DirEntry
  | directory (uid : Uid)
  | file (uid : Uid)
  | facetedDirectory (uid : Uid)
  | gate (uid : Uid)
  | service (uid : Uid)
  | blob (uid : Uid)
  deriving DecidableEq

/-- `syscalls::DentKind`. -/
inductive DentKind
  | dentDirectory
  | dentFile
  | dentFacetedDirectory
  | dentGate
  | dentService
  | dentBlob
  deriving DecidableEq

/-- `impl From<&DirEntry> for DentKind`. -/
def DirEntry.kind : DirEntry → DentKind
  | .directory _ => .dentDirectory
  | .file _ => .dentFile
  | .facetedDirectory _ => .dentFacetedDirectory
  | .gate _ => .dentGate
  | .service _ => .dentService
  | .blob _ => .dentBlob

/-- The uid an entry refers to. -/
def DirEntry.uid : DirEntry → Uid
  | .directory u => u
  | .file u => u
  | .facetedDirectory u => u
  | .gate u => u
  | .service u => u
  | .blob u => u

theorem DirEntry.ext_kind {e f : DirEntry} (hk : e.kind = f.kind) (hu : e.uid = f.uid) :
    e = f := by
  cases e <;> cases f <;> simp_all [DirEntry.kind, DirEntry.uid]

/-- `fs::Labeled<T>`. -/
structure Labeled (T : Type) where
  label : Buckle
  data : T
  deriving DecidableEq

/-- `fs::Directory`. -/
structure Directory where
  entries : ExtTreeMap String DirEntry compare := ∅
  deriving DecidableEq

/-- `fs::File`. -/
abbrev File := Bytes

/-- `fs::Blob`: the name of a blob of the blobstore. -/
abbrev Blob := String

/-- `fs::FacetedDirectory`: at most one directory per label, in order of allocation. -/
structure FacetedDirectory where
  facets : List (Buckle × Uid) := []
  deriving DecidableEq

/-- `fs::DirectGate`. -/
structure DirectGate where
  privilege : Component
  invokerIntegrityClearance : Component
  declassify : Component
  function : Function
  deriving DecidableEq

/-- `fs::RedirectGate`; `gate` is the gate it redirects to. -/
structure RedirectGate where
  privilege : Component
  invokerIntegrityClearance : Component
  declassify : Component
  gate : Uid
  deriving DecidableEq

/-- `fs::Gate`. -/
inductive Gate
  | direct (g : DirectGate)
  | redirect (g : RedirectGate)
  deriving DecidableEq

/-- The privilege a gate grants. -/
def Gate.privilege : Gate → Component
  | .direct g => g.privilege
  | .redirect g => g.privilege

/-- `fs::Service`. -/
structure Service where
  privilege : Component
  invokerIntegrityClearance : Component
  taint : Buckle
  url : String
  verb : HttpVerb
  headers : ExtTreeMap String String compare
  deriving DecidableEq

/-- A stored object. -/
inductive Object
  | directory (o : Labeled Directory)
  | file (o : Labeled File)
  | facetedDirectory (o : FacetedDirectory)
  | gate (o : Labeled Gate)
  | service (o : Labeled Service)
  | blob (o : Labeled Blob)
  deriving DecidableEq

/-- The label of an object. Faceted directories have none. -/
def Object.label? : Object → Option Buckle
  | .directory o => some o.label
  | .file o => some o.label
  | .facetedDirectory _ => none
  | .gate o => some o.label
  | .service o => some o.label
  | .blob o => some o.label

/-- The kind of an object. -/
def Object.kind : Object → DentKind
  | .directory _ => .dentDirectory
  | .file _ => .dentFile
  | .facetedDirectory _ => .dentFacetedDirectory
  | .gate _ => .dentGate
  | .service _ => .dentService
  | .blob _ => .dentBlob

/-- The privilege a gate or service grants to whoever may invoke it. -/
def Object.privilege? : Object → Option Component
  | .gate o => some o.data.privilege
  | .service o => some o.data.privilege
  | _ => none

/-- How a type is written to the store, and read back when the stored object is of that type. -/
class Codec (T : Type) where
  encode : T → Object
  decode : Object → Option T
  decode_encode : ∀ t, decode (encode t) = some t
  encode_of_decode : ∀ {o t}, decode o = some t → o = encode t

attribute [simp] Codec.decode_encode

/-- The types of stored objects that carry a label. -/
class LabeledCodec (T : Type) extends Codec (Labeled T) where
  label_encode : ∀ o : Labeled T, (encode o).label? = some o.label
  kind_encode : ∀ o o' : Labeled T, (encode o).kind = (encode o').kind

attribute [simp] LabeledCodec.label_encode

instance : LabeledCodec Directory where
  encode := .directory
  decode | .directory o => some o | _ => none
  decode_encode _ := rfl
  encode_of_decode {o t} h := by cases o <;> simp_all
  label_encode _ := rfl
  kind_encode _ _ := rfl

instance : LabeledCodec File where
  encode := .file
  decode | .file o => some o | _ => none
  decode_encode _ := rfl
  encode_of_decode {o t} h := by cases o <;> simp_all
  label_encode _ := rfl
  kind_encode _ _ := rfl

instance : Codec FacetedDirectory where
  encode := .facetedDirectory
  decode | .facetedDirectory o => some o | _ => none
  decode_encode _ := rfl
  encode_of_decode {o t} h := by cases o <;> simp_all

instance : LabeledCodec Gate where
  encode := .gate
  decode | .gate o => some o | _ => none
  decode_encode _ := rfl
  encode_of_decode {o t} h := by cases o <;> simp_all
  label_encode _ := rfl
  kind_encode _ _ := rfl

instance : LabeledCodec Service where
  encode := .service
  decode | .service o => some o | _ => none
  decode_encode _ := rfl
  encode_of_decode {o t} h := by cases o <;> simp_all
  label_encode _ := rfl
  kind_encode _ _ := rfl

instance : LabeledCodec Blob where
  encode := .blob
  decode | .blob o => some o | _ => none
  decode_encode _ := rfl
  encode_of_decode {o t} h := by cases o <;> simp_all
  label_encode _ := rfl
  kind_encode _ _ := rfl

/-- What the store holds under a uid: a reserved but not yet written place, or an object. -/
inductive Stored
  | reserved
  | object (o : Object)
  deriving DecidableEq

/-- `serde_json::from_slice` at the type `T`. -/
def Stored.decode {T : Type} [Codec T] : Stored → Option T
  | .reserved => none
  | .object o => Codec.decode o

/-- `serde_json::to_vec`. -/
def Stored.encode {T : Type} [Codec T] (t : T) : Stored := .object (Codec.encode t)

@[simp] theorem Stored.decode_encode {T : Type} [Codec T] (t : T) :
    (Stored.encode t).decode = some t := Codec.decode_encode t

theorem Stored.eq_encode {T : Type} [Codec T] {v : Stored} {t : T} (h : v.decode = some t) :
    v = .encode t := by
  cases v with
  | reserved => cases h
  | object o => exact congrArg Stored.object (Codec.encode_of_decode h)

theorem decode_eq_some {T : Type} [Codec T] {v : Option Stored} {t : T}
    (h : v.bind Stored.decode = some t) : v = some (.encode t) := by
  obtain ⟨v, rfl, hv⟩ := Option.bind_eq_some_iff.1 h
  exact congrArg some (Stored.eq_encode hv)

/-- What is stored is of one type. -/
theorem encode_inj {T : Type} [Codec T] {a b : T} {x : Option Stored} (ha : x = some (.encode a))
    (hb : x = some (.encode b)) : b = a := by
  subst ha
  have h := congrArg (Option.bind · (Stored.decode (T := T))) hb
  simpa using h.symm

theorem decode_of_eq {T : Type} [Codec T] {x : Option Stored} {t : T}
    (h : x = some (.encode t)) : x.bind Stored.decode = some t := by
  rw [h]
  exact Stored.decode_encode t

end Faasten
