import Mathlib
import Faasten.Clients.Machine

/-!
# Calls of the file system

The public functions of `fs/mod.rs` as calls that any number of clients make on one store, each with
arbitrary arguments: no uid need belong to an object of the right kind, or to any object.

What happened on the store is read off its record.

* `StoreAccess.reserves`, the uid that an `add` reserved;
* `StoreAccess.commitsTo`, the directory into which a `cas` swapped a new version;
* `commits`, who committed to a directory, in the order of the swaps, and `replay`, which applies
  their calls in this order, and fails on a `link` that finds the name taken or an `unlink` that
  finds it missing.
-/

namespace Faasten

open Std Effect

/-- The entries of a directory. -/
abbrev Entries := ExtTreeMap String DirEntry compare

/-- A call of the file system. -/
inductive FsCall
  | initializeRoot
  | root
  | readPath (rounds : ℕ) (path : Path)
  | listDir (rounds : ℕ) (path : Path)
  | rm (rounds : ℕ) (dir : Path) (name : String)
  | listFaceted (rounds : ℕ) (path : Path) (clearance : Buckle)
  | readFile (rounds : ℕ) (path : Path)
  | writeFile (rounds : ℕ) (path : Path) (data : Bytes)
  | createFile (rounds : ℕ) (label : Buckle)
  | createBlob (rounds : ℕ) (label : Buckle) (blobName : String)
  | createDirectory (rounds : ℕ) (label : Buckle)
  | createFacetedDirectory (rounds : ℕ)
  | createDirectGate (rounds : ℕ) (label : Buckle) (gate : DirectGate)
  | createRedirectGate (rounds : ℕ) (label : Buckle) (gate : RedirectGate)
  | createService (rounds : ℕ) (label : Buckle) (service : Service)
  | linkAt (rounds : ℕ) (baseDir : Path) (name : String) (entry : DirEntry)
  | openBlob (rounds : ℕ) (path : Path)
  | replaceBlob (rounds : ℕ) (path : Path) (newBlob : Blob)
  | dirList (self : Uid)
  | dirLink (rounds : ℕ) (self : Uid) (name : String) (entry : DirEntry)
  | dirUnlink (rounds : ℕ) (self : Uid) (name : String)
  | fileRead (self : Uid)
  | fileWrite (self : Uid) (data : Bytes)
  | facetOpen (rounds : ℕ) (self : Uid) (facet : Buckle)
  | facetList (self : Uid) (clearance : Buckle)
  | serviceToInvokable (self : Uid)
  | serviceReplace (self : Uid) (service : Service)
  | gateToInvokable (rounds : ℕ) (self : Uid)
  | gateReplace (self : Uid) (gate : Gate)
  | blobRead (self : Uid)
  | blobReplace (self : Uid) (newBlob : Blob)

/-- What a call of the file system returns. -/
inductive FsResult [LabelCrate]
  | done
  | flag (b : Bool)
  | entry (e : DirEntry)
  | uid (u : Uid)
  | labeledDir (d : Labeled Directory)
  | entries (es : Entries)
  | facets (fs : ExtTreeMap Buckle Uid LabelCrate.cmp)
  | data (bytes : Bytes)
  | blob (name : Blob)
  | gate (g : DirectGate)
  | service (s : Service)

namespace FsCall

/-- The kind of the object that a call creates, and its label, if it has one. -/
def creates : FsCall → Option (DentKind × Option Buckle)
  | .createFile _ l => some (.dentFile, some l)
  | .createBlob _ l _ => some (.dentBlob, some l)
  | .createDirectory _ l => some (.dentDirectory, some l)
  | .createFacetedDirectory _ => some (.dentFacetedDirectory, none)
  | .createDirectGate _ l _ => some (.dentGate, some l)
  | .createRedirectGate _ l _ => some (.dentGate, some l)
  | .createService _ l _ => some (.dentService, some l)
  | _ => none

/-- One entry more, if the name is free. -/
def link (name : String) (entry : DirEntry) (es : Entries) : Option Entries :=
  if es.contains name then none else some (es.insert name entry)

/-- One entry less, if the name is there. -/
def unlink (name : String) (es : Entries) : Option Entries :=
  if es.contains name then some (es.erase name) else none

/-- The directory that a call updates. -/
def updates : FsCall → Option Uid
  | .dirLink _ u _ _ => some u
  | .dirUnlink _ u _ => some u
  | _ => none

/-- What a call does to the directory it commits to. -/
def apply : FsCall → Entries → Option Entries
  | .linkAt _ _ name entry => link name entry
  | .dirLink _ _ name entry => link name entry
  | .rm _ _ name => unlink name
  | .dirUnlink _ _ name => unlink name
  | _ => fun _ => none

variable [LabelCrate]

/-- The program of a call. -/
def body : FsCall → M FsResult
  | .initializeRoot => do return .flag (← FS.initializeRoot)
  | .root => do return .labeledDir (← FS.root)
  | .readPath n path => do return .entry (← FS.readPath n path)
  | .listDir n path => do return .entries (← FS.listDir n path)
  | .rm n dir name => do return .flag (← FS.rm n dir name)
  | .listFaceted n path clearance => do return .facets (← FS.listFaceted n path clearance)
  | .readFile n path => do return .data (← FS.readFile n path)
  | .writeFile n path bytes => do
      FS.writeFile n path bytes
      return .done
  | .createFile n l => do return .entry (← FS.createFile n l)
  | .createBlob n l name => do return .entry (← FS.createBlob n l name)
  | .createDirectory n l => do return .entry (← FS.createDirectory n l)
  | .createFacetedDirectory n => do return .entry (← FS.createFacetedDirectory n)
  | .createDirectGate n l g => do return .entry (← FS.createDirectGate n l g)
  | .createRedirectGate n l g => do return .entry (← FS.createRedirectGate n l g)
  | .createService n l s => do return .entry (← FS.createService n l s)
  | .linkAt n path name entry => do
      FS.link n path name entry
      return .done
  | .openBlob n path => do return .blob (← FS.openBlob n path)
  | .replaceBlob n path name => do
      FS.replaceBlob n path name
      return .done
  | .dirList u => do return .entries (← Directory.list u)
  | .dirLink n u name entry => do return .flag (← Directory.link n u name entry)
  | .dirUnlink n u name => do return .flag (← Directory.unlink n u name)
  | .fileRead u => do return .data (← File.read u)
  | .fileWrite u bytes => do
      File.write u bytes
      return .done
  | .facetOpen n u facet => do return .uid (← FacetedDirectory.open' n u facet)
  | .facetList u clearance => do return .facets (← FacetedDirectory.list u clearance)
  | .serviceToInvokable u => do return .service (← Service.toInvokable u)
  | .serviceReplace u s => do
      Service.replace u s
      return .done
  | .gateToInvokable n u => do return .gate (← Gate.toInvokable n u)
  | .gateReplace u g => do
      Gate.replace u g
      return .done
  | .blobRead u => do return .blob (← Blob.read u)
  | .blobReplace u name => do
      Blob.replace u name
      return .done

end FsCall

/-! ### Reading the record -/

namespace StoreAccess

variable {ι : Type} (e : StoreAccess ι)

/-- The uid that the access reserved. -/
def reserves : Option Uid :=
  match e.op with
  | .add u _ => if e.before u = none then some u else none
  | _ => none

/-- The directory into which the access swapped a new version. -/
def commitsTo : Option Uid :=
  match e.op with
  | .cas u (some (.object (.directory d))) _ =>
      if e.before u = some (.object (.directory d)) then some u else none
  | _ => none

/-- The access shows its client what the store holds under `u`. -/
def looksAt (u : Uid) : Bool :=
  match e.op with
  | .get u' => u' = u
  | .cas u' _ _ => u' = u
  | _ => false

end StoreAccess

section Record

variable {ι : Type}

/-- Who committed to the directory `u`, in the order of the swaps. -/
def commits (u : Uid) : List (StoreAccess ι) → List ι
  | [] => []
  | e :: log => if e.commitsTo = some u then commits u log ++ [e.client] else commits u log

/-- The directories that `i` committed to, the last one first. -/
def commitsBy [DecidableEq ι] (i : ι) (log : List (StoreAccess ι)) : List Uid :=
  log.filterMap fun e => if e.client = i then e.commitsTo else none

/-- The calls of these invocations, one after the other, each legal where it stands. -/
def replay (calls : ι → FsCall) (es : Entries) (is : List ι) : Option Entries :=
  is.foldlM (fun es i => (calls i).apply es) es

/-- What happened since `i` last looked at `u`. -/
def sinceLook [DecidableEq ι] (i : ι) (u : Uid) (log : List (StoreAccess ι)) :
    List (StoreAccess ι) :=
  log.takeWhile fun e => !(e.client = i ∧ e.looksAt u)

/-- Another client has committed to `u` since `i` last looked at it. -/
def Contended [DecidableEq ι] (i : ι) (u : Uid) (log : List (StoreAccess ι)) : Prop :=
  ∃ e ∈ sinceLook i u log, e.client ≠ i ∧ e.commitsTo = some u

/-- The entries of a directory before the first call: none, if it is created later. -/
def baseEntries (s₀ : Store) (u : Uid) : Entries :=
  match s₀ u with
  | some (.object (.directory d)) => d.data.entries
  | _ => ∅

variable {e : StoreAccess ι} {log : List (StoreAccess ι)} {u : Uid} {i : ι}

theorem StoreAccess.of_commitsTo (h : e.commitsTo = some u) :
    ∃ d v, e.op = .cas u (some (.object (.directory d))) v ∧
      e.before u = some (.object (.directory d)) := by
  unfold commitsTo at h
  split at h
  · rename_i u' d v ho
    split_ifs at h with hb
    cases h
    exact ⟨d, v, ho, hb⟩
  · cases h

theorem StoreAccess.of_reserves (h : e.reserves = some u) :
    ∃ v, e.op = .add u v ∧ e.before u = none := by
  unfold reserves at h
  split at h
  · rename_i u' v ho
    split_ifs at h with hb
    cases h
    exact ⟨v, ho, hb⟩
  · cases h

theorem commits_cons_of_ne (h : e.commitsTo ≠ some u) : commits u (e :: log) = commits u log :=
  if_neg h

theorem commits_eq_nil (h : ∀ e ∈ log, e.commitsTo ≠ some u) : commits u log = [] := by
  induction log with
  | nil => rfl
  | cons e log ih =>
    rw [commits_cons_of_ne (h e List.mem_cons_self)]
    exact ih fun e' he' => h e' (List.mem_cons_of_mem e he')

theorem replay_concat (calls : ι → FsCall) (es : Entries) (is : List ι) (i : ι) :
    replay calls es (is ++ [i]) = (replay calls es is).bind (calls i).apply := by
  unfold replay
  rw [List.foldlM_append]
  cases is.foldlM (fun es i => (calls i).apply es) es <;> simp

variable [DecidableEq ι]

theorem commitsBy_append {new : List (StoreAccess ι)} (h : ∀ e ∈ new, e.client ≠ i) :
    commitsBy i (new ++ log) = commitsBy i log := by
  unfold commitsBy
  rw [List.filterMap_append]
  have hnil : new.filterMap (fun e => if e.client = i then e.commitsTo else none) = [] :=
    List.filterMap_eq_nil_iff.2 fun e he => if_neg (h e he)
  rw [hnil, List.nil_append]

theorem commitsBy_cons_self (h : e.client = i) (hu : e.commitsTo = some u) :
    commitsBy i (e :: log) = u :: commitsBy i log := by
  unfold commitsBy
  exact List.filterMap_cons_some (by rw [if_pos h, hu])

theorem commitsBy_cons_none (hu : e.commitsTo = none) :
    commitsBy i (e :: log) = commitsBy i log := by
  unfold commitsBy
  exact List.filterMap_cons_none (by simp [hu])

theorem commitsBy_cons_of_ne (h : e.client ≠ i) : commitsBy i (e :: log) = commitsBy i log := by
  unfold commitsBy
  exact List.filterMap_cons_none (if_neg h)

/-- Who committed to `u` how often, read off either record. -/
theorem count_commits : (commits u log).count i = (commitsBy i log).count u := by
  induction log with
  | nil => rfl
  | cons e log ih =>
    by_cases hu : e.commitsTo = some u
    · have hc : commits u (e :: log) = commits u log ++ [e.client] := if_pos hu
      rw [hc, List.count_append, ih]
      by_cases hi : e.client = i
      · rw [commitsBy_cons_self hi hu]
        simp [hi]
      · rw [commitsBy_cons_of_ne hi]
        simp [hi]
    · rw [commits_cons_of_ne hu, ih]
      cases hv : e.commitsTo with
      | none => rw [commitsBy_cons_none hv]
      | some v =>
        have hvu : v ≠ u := fun h => hu (h ▸ hv)
        by_cases hi : e.client = i
        · rw [commitsBy_cons_self hi hv, List.count_cons_of_ne hvu]
        · rw [commitsBy_cons_of_ne hi]

theorem sinceLook_append {new : List (StoreAccess ι)} (h : ∀ e ∈ new, e.client ≠ i) :
    sinceLook i u (new ++ log) = new ++ sinceLook i u log := by
  unfold sinceLook
  refine List.takeWhile_append_of_pos fun e he => ?_
  simp [h e he]

/-- Other clients' accesses only add to the contention. -/
theorem Contended.append {new : List (StoreAccess ι)} (h : ∀ e ∈ new, e.client ≠ i)
    (hc : Contended i u log) : Contended i u (new ++ log) := by
  obtain ⟨e, he, hi⟩ := hc
  refine ⟨e, ?_, hi⟩
  rw [sinceLook_append h]
  exact List.mem_append_right _ he

theorem Contended.of_mem {new : List (StoreAccess ι)} (h : ∀ e ∈ new, e.client ≠ i)
    {e : StoreAccess ι} (he : e ∈ new) (hu : e.commitsTo = some u) :
    Contended i u (new ++ log) := by
  refine ⟨e, ?_, h e he, hu⟩
  rw [sinceLook_append h]
  exact List.mem_append_left _ he

end Record

end Faasten
