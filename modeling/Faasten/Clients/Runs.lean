import Mathlib
import Faasten.Clients.Operations

/-!
# Runs of the file system

`fsPool calls threads w`: any number of invocations, the one called `i` making the call `calls i`
from the thread state `threads i`, all of them on the world `w` on which `FS::initialize` has run.
A run is given by a schedule.

`Promise i c` says how the call `c` of invocation `i` may end. `runFs_holds` is the step from the
single functions to runs: under every schedule, every invocation keeps to the discipline of the file
system and ends as its call promises.
-/

namespace Faasten

open Std Effect

namespace FileSystem

variable {ι : Type} [DecidableEq ι] [LabelCrate]

/-- What `list` of a faceted directory ends with: what the clearance shows of the list as it was at
some moment of the call. -/
def Listed (i : ι) (u : Uid) (clearance : Buckle)
    (r : Except Raised (ExtTreeMap Buckle Uid LabelCrate.cmp)) (s : Shared ι) : Prop :=
  ∀ m, r = .ok m → ∃ e ∈ s.log, e.client = i ∧ ∃ d,
    e.before u = some (.object (.facetedDirectory d)) ∧ Holds u (.facetedDirectory d) s ∧
      m = d.visible clearance

/-- What a creation ends with: an entry for an object of this kind and label, under a uid that the
client has reserved. -/
def Made (i : ι) (k : DentKind) (l : Option Buckle) (r : Except Raised DirEntry) (s : Shared ι) :
    Prop :=
  ∀ e, r = .ok e → e.kind = k ∧ s.owner e.uid = some i ∧
    ∃ o, s.store e.uid = some (.object o) ∧ o.kind = k ∧ o.label? = l

/-- How a call may end. -/
def Promise (i : ι) (c : FsCall) (r : Except Raised FsResult) (t : Thread) (s : Shared ι) : Prop :=
  match c with
  | .dirLink _ u name entry => ∃ r', r = Except.map .flag r' ∧
      Updated i u (Directory.insert name entry) true [] r' t s
  | .dirUnlink _ u name => ∃ r', r = Except.map .flag r' ∧
      Updated i u (Directory.remove name) false [] r' t s
  | .facetOpen _ u f => ∃ r', r = Except.map .uid r' ∧ ∃ t', Opened u f t' r' t s
  | .facetList u clearance => ∃ r', r = Except.map .facets r' ∧ Listed i u clearance r' s
  | c => ∀ k l, c.creates = some (k, l) → ∃ r', r = Except.map .entry r' ∧ Made i k l r' s

/-- The world on which `FS::initialize` has run. -/
def initialized (w : World) : World := (exec FS.initializeRoot w).2

/-- The invocations before any of them has begun. -/
def fsPool (calls : ι → FsCall) (threads : ι → Thread) (w : World) :
    Pool monitor Raised FsResult ι Thread (Shared ι) where
  shared := .start (initialized w)
  loc := threads
  prog i := (calls i).body

/-- The state after a schedule. -/
def runFs (calls : ι → FsCall) (threads : ι → Thread) (w : World) (schedule : List ι) :
    Pool monitor Raised FsResult ι Thread (Shared ι) :=
  (fsPool calls threads w).run (clients ι) schedule

variable {calls : ι → FsCall} {s₀ : Store} {i : ι} {t : Thread} {s : Shared ι}

/-! ### Creations -/

omit [LabelCrate] in
theorem steady_after {α β : Type} {Q : Except Raised α → Thread → Shared ι → Prop} {m : M β}
    {f : β → M α} (hm : Harmless calls s₀ i m) (hs : Inv calls s₀ s)
    (hf : ∀ a t s, Inv calls s₀ s → (discipline calls s₀).Steady i Q (f a) t s)
    (he : ∀ e t s, Q (.error e) t s) : (discipline calls s₀).Steady i Q (m >>= f) t s :=
  (hm t s hs).bind hs trivial (fun a t' s' hs' _ _ => hf a t' s' hs') fun e t' s' _ _ _ => he e t' s'

omit [DecidableEq ι] [LabelCrate] in
theorem Created.made {u : Uid} {o : Object} {e : DirEntry} (h : Created i u o s)
    (hk : e.kind = o.kind) (hu : e.uid = u) : Made i o.kind o.label? (.ok e) s := by
  rintro _ ⟨⟩
  obtain ⟨o', ho', hb⟩ := h.2
  exact ⟨hk, hu ▸ h.1, o', hu ▸ ho', hb.kind, hb.label⟩

omit [LabelCrate] in
/-- A creation that is a single call of `set_new_id`. -/
theorem steady_create {T : Type} [Codec T] {v : T} {mk : Uid → DirEntry}
    (hv : Blank (Codec.encode v)) (hmk : ∀ u, (mk u).kind = (Codec.encode v).kind ∧ (mk u).uid = u)
    (n : ℕ) :
    (discipline calls s₀).Steady i
      (fun r _ s => Made i (Codec.encode v).kind (Codec.encode v).label? r s)
      (do return mk (← ObjectRef.setNewId n v)) t s := by
  refine ((steady_setNewId hv n).map mk).mono fun r t' s' _ _ hr => ?_
  obtain ⟨r', rfl, -, hr'⟩ := hr
  cases r' with
  | error x =>
    intro e he
    cases he
  | ok u => exact Created.made hr' (hmk u).1 (hmk u).2

/-- `create_blob` writes the new object twice; it keeps its kind and its label. -/
theorem steady_createBlob (n : ℕ) (l : Buckle) (name : String) (hs : Inv calls s₀ s) :
    (discipline calls s₀).Steady i (fun r _ s => Made i .dentBlob (some l) r s)
      (FS.createBlob n l name) t s := by
  have hblank : Blank (Codec.encode (⟨l, default⟩ : Labeled Blob)) := trivial
  refine (steady_setNewId hblank n).bind hs trivial (fun u t' s₁ hs₁ _ hu => ?_)
    fun e t' s' _ _ _ e' he' => by cases he'
  have hwrite : Harmless calls s₀ i (Blob.replace u name) := harmless_overwrite (fun _ => rfl) u name
  have hover := steady_extends (hwrite t' s₁ hs₁)
  refine hover.bind hs₁ trivial (fun _ t'' s₂ _ _ h₂ => ?_) fun e t' s' _ _ _ e' he' => by cases he'
  refine Discipline.Steady.pure fun s₃ h₃ => ?_
  exact ((hu.2.extends h₂.2).extends (Later.extends h₃)).made rfl rfl

theorem steady_createDirectGate (n : ℕ) (l : Buckle) (g : DirectGate) (hs : Inv calls s₀ s) :
    (discipline calls s₀).Steady i (fun r _ s => Made i .dentGate (some l) r s)
      (FS.createDirectGate n l g) t s := by
  refine steady_after (harmless_checkCreate l) hs (fun _ t₁ s₁ hs₁ => ?_)
    fun e t s e' he' => by cases he'
  refine steady_after (harmless_checkDelegate _) hs₁ (fun _ t₂ s₂ hs₂ => ?_)
    fun e t s e' he' => by cases he'
  refine steady_after (harmless_checkDelegate _) hs₂ (fun _ t₃ s₃ _ => ?_)
    fun e t s e' he' => by cases he'
  have hblank : Blank (Codec.encode (⟨l, .direct g⟩ : Labeled Gate)) := trivial
  exact steady_create hblank (fun _ => ⟨rfl, rfl⟩) n

theorem steady_createRedirectGate (n : ℕ) (l : Buckle) (g : RedirectGate) (hs : Inv calls s₀ s) :
    (discipline calls s₀).Steady i (fun r _ s => Made i .dentGate (some l) r s)
      (FS.createRedirectGate n l g) t s := by
  refine steady_after (harmless_checkCreate l) hs (fun _ t₁ s₁ hs₁ => ?_)
    fun e t s e' he' => by cases he'
  refine steady_after (harmless_checkDelegate _) hs₁ (fun _ t₂ s₂ hs₂ => ?_)
    fun e t s e' he' => by cases he'
  refine steady_after (harmless_checkDelegate _) hs₂ (fun _ t₃ s₃ _ => ?_)
    fun e t s e' he' => by cases he'
  have hblank : Blank (Codec.encode (⟨l, .redirect g⟩ : Labeled Gate)) := trivial
  exact steady_create hblank (fun _ => ⟨rfl, rfl⟩) n

theorem steady_createService (n : ℕ) (l : Buckle) (x : Service) (hs : Inv calls s₀ s) :
    (discipline calls s₀).Steady i (fun r _ s => Made i .dentService (some l) r s)
      (FS.createService n l x) t s := by
  refine steady_after (harmless_checkCreate l) hs (fun _ t₁ s₁ hs₁ => ?_)
    fun e t s e' he' => by cases he'
  refine steady_after (harmless_checkDelegate _) hs₁ (fun _ t₂ s₂ _ => ?_)
    fun e t s e' he' => by cases he'
  have hblank : Blank (Codec.encode (⟨l, x⟩ : Labeled Service)) := trivial
  exact steady_create hblank (fun _ => ⟨rfl, rfl⟩) n

/-! ### The list of a faceted directory -/

theorem steady_facetList (u : Uid) (clearance : Buckle) :
    (discipline calls s₀).Steady i (fun r _ s => Listed i u clearance r s)
      (FacetedDirectory.list u clearance) t s := by
  refine steady_withCurrentLabel (calm calls s₀) rfl ?_
  refine steady_objectGet (calm calls s₀) fun s₁ h₁ => ?_
  refine steady_unwrap (fun d hd => ?_) fun _ s₂ _ m hm => by cases hm
  refine Discipline.Steady.pure fun s₂ h₂ m hm => ?_
  cases hm
  have hd' : s₁.store u = some (.object (.facetedDirectory d)) := decode_eq_some hd
  have hholds : Holds u (.facetedDirectory d) (s₁.accessed i (.get u)) := ⟨_, hd', .refl _⟩
  obtain ⟨new, hnew, -, -⟩ := h₂.env.log
  refine ⟨⟨i, .get u, s₁.store⟩, ?_, rfl, d, hd', hholds.extends (Later.extends h₂), rfl⟩
  rw [hnew]
  exact List.mem_append_right _ List.mem_cons_self

/-! ### The calls keep their promises -/

omit [LabelCrate] in
theorem Harmless.map {α β : Type} {m : M α} (g : α → β) (hm : Harmless calls s₀ i m) :
    Harmless calls s₀ i (do return g (← m)) := hm.bind fun _ => .pure _

/-- What a call keeps to of which nothing is promised. -/
theorem Harmless.promise {m : M FsResult} {c : FsCall} (hm : Harmless calls s₀ i m)
    (hs : Inv calls s₀ s) (hP : ∀ r t s, Promise i c r t s) :
    (discipline calls s₀).Steady i (Promise i c) m t s :=
  (hm t s hs).mono fun r t s _ _ _ => hP r t s

theorem Promise.of_made {c : FsCall} {k : DentKind} {l : Option Buckle}
    {r' : Except Raised DirEntry} (hc : c.creates = some (k, l)) (h : Made i k l r' s) :
    Promise i c (r'.map .entry) t s := by
  cases c <;> cases hc
  all_goals
    rintro k' l' ⟨⟩
    exact ⟨r', rfl, h⟩

theorem steady_made {c : FsCall} {k : DentKind} {l : Option Buckle} {m : M DirEntry}
    (hc : c.creates = some (k, l))
    (hm : (discipline calls s₀).Steady i (fun r _ s => Made i k l r s) m t s) :
    (discipline calls s₀).Steady i (Promise i c) (do return .entry (← m)) t s := by
  refine (hm.map FsResult.entry).mono fun r t' s' _ _ hr => ?_
  obtain ⟨r', rfl, hr'⟩ := hr
  exact .of_made hc hr'

theorem harmless_toInvokable (n : ℕ) (u : Uid) : Harmless calls s₀ i (Gate.toInvokable n u) :=
  .bind (harmless_read u) fun _ => harmless_toInvokableLoop _ _ _ _ _

theorem harmless_facetList (u : Uid) (clearance : Buckle) :
    Harmless calls s₀ i (FacetedDirectory.list u clearance) :=
  .of_steady fun _ _ _ => steady_facetList u clearance

/-- A function on the object that a path leads to. -/
theorem Harmless.at_path {α : Type} (n : ℕ) (path : Path) {f : DirEntry → M α}
    (hf : ∀ e, Harmless calls s₀ i (f e)) :
    Harmless calls s₀ i (FS.readPath n path >>= f) := (harmless_readPath n path).bind hf

/-- Every call keeps to the discipline and ends as it promises. -/
theorem steady_body (c : FsCall) (hc : calls i = c) (hs : Inv calls s₀ s)
    (hk : commitsBy i s.log = []) :
    (discipline calls s₀).Steady i (Promise i c) c.body t s := by
  cases c with
  | initializeRoot =>
    refine Harmless.promise (.map _ (.call fun s hs hnone => ?_)) hs fun _ _ _ => by rintro _ _ ⟨⟩
    exact absurd hnone hs.root
  | root =>
    exact Harmless.promise (.map _ (.map _ (.objectGet _))) hs fun _ _ _ => by rintro _ _ ⟨⟩
  | readPath n path =>
    exact Harmless.promise (.map _ (harmless_readPath n path)) hs
      fun _ _ _ => by rintro _ _ ⟨⟩
  | listDir n path =>
    refine Harmless.promise (.map _ (.at_path n path fun e => ?_)) hs
      fun _ _ _ => by rintro _ _ ⟨⟩
    cases e with
    | directory u => exact harmless_list u
    | _ => exact .raise _
  | rm n path name =>
    refine Harmless.promise (.map _ (.at_path n path fun e => ?_)) hs
      fun _ _ _ => by rintro _ _ ⟨⟩
    cases e with
    | directory u => exact harmless_unlink (by rw [hc]; rfl) n u
    | _ => exact .raise _
  | listFaceted n path clearance =>
    refine Harmless.promise (.map _ (.at_path n path fun e => ?_)) hs
      fun _ _ _ => by rintro _ _ ⟨⟩
    cases e with
    | facetedDirectory u => exact harmless_facetList u clearance
    | _ => exact .raise _
  | readFile n path =>
    refine Harmless.promise (.map _ (.at_path n path fun e => ?_)) hs
      fun _ _ _ => by rintro _ _ ⟨⟩
    cases e with
    | file u => exact harmless_read u
    | _ => exact .raise _
  | writeFile n path data =>
    refine Harmless.promise (.map _ (.at_path n path fun e => ?_)) hs
      fun _ _ _ => by rintro _ _ ⟨⟩
    cases e with
    | file u => exact harmless_overwrite (fun _ => rfl) u data
    | _ => exact .raise _
  | createFile n l =>
    have hblank : Blank (Codec.encode (⟨l, default⟩ : Labeled File)) := trivial
    exact steady_made rfl (steady_create hblank (fun _ => ⟨rfl, rfl⟩) n)
  | createBlob n l name => exact steady_made rfl (steady_createBlob n l name hs)
  | createDirectory n l =>
    have hblank : Blank (Codec.encode (⟨l, default⟩ : Labeled Directory)) := by
      change (∅ : Entries) = ∅
      rfl
    exact steady_made rfl (steady_create hblank (fun _ => ⟨rfl, rfl⟩) n)
  | createFacetedDirectory n =>
    have hblank : Blank (Codec.encode ({} : FacetedDirectory)) := by
      change ([] : List (Buckle × Uid)) = []
      rfl
    exact steady_made rfl (steady_create hblank (fun _ => ⟨rfl, rfl⟩) n)
  | createDirectGate n l g => exact steady_made rfl (steady_createDirectGate n l g hs)
  | createRedirectGate n l g => exact steady_made rfl (steady_createRedirectGate n l g hs)
  | createService n l x => exact steady_made rfl (steady_createService n l x hs)
  | linkAt n path name entry =>
    refine Harmless.promise (.map _ (.at_path n path fun e => ?_)) hs
      fun _ _ _ => by rintro _ _ ⟨⟩
    cases e with
    | directory u =>
      refine .bind (harmless_link (by rw [hc]; rfl) n u) fun b => ?_
      split_ifs
      · exact .pure _
      · exact .raise _
    | _ => exact .raise _
  | openBlob n path =>
    refine Harmless.promise (.map _ (.at_path n path fun e => ?_)) hs
      fun _ _ _ => by rintro _ _ ⟨⟩
    cases e with
    | blob u => exact harmless_read u
    | _ => exact .raise _
  | replaceBlob n path name =>
    refine Harmless.promise (.map _ (.at_path n path fun e => ?_)) hs
      fun _ _ _ => by rintro _ _ ⟨⟩
    cases e with
    | blob u => exact harmless_overwrite (fun _ => rfl) u name
    | _ => exact .raise _
  | dirList u =>
    exact Harmless.promise (.map _ (harmless_list u)) hs fun _ _ _ => by rintro _ _ ⟨⟩
  | dirLink n u name entry => exact (steady_update (apply_insert (by rw [hc]; rfl)) n hk).map _
  | dirUnlink n u name => exact (steady_update (apply_remove (by rw [hc]; rfl)) n hk).map _
  | fileRead u =>
    exact Harmless.promise (.map _ (harmless_read u)) hs fun _ _ _ => by rintro _ _ ⟨⟩
  | fileWrite u data =>
    exact Harmless.promise (.map _ (harmless_overwrite (fun _ => rfl) u data)) hs
      fun _ _ _ => by rintro _ _ ⟨⟩
  | facetOpen n u f =>
    refine (steady_open.map _).mono fun r t' s' _ _ hr => ?_
    obtain ⟨r', hr', hr''⟩ := hr
    exact ⟨r', hr', _, hr''⟩
  | facetList u clearance => exact (steady_facetList u clearance).map _
  | serviceToInvokable u =>
    exact Harmless.promise (.map _ (harmless_read u)) hs fun _ _ _ => by rintro _ _ ⟨⟩
  | serviceReplace u x =>
    exact Harmless.promise (.map _ (.bind (harmless_checkDelegate _) fun _ =>
      harmless_overwrite (fun _ => rfl) u x)) hs fun _ _ _ => by rintro _ _ ⟨⟩
  | gateToInvokable n u =>
    exact Harmless.promise (.map _ (harmless_toInvokable n u)) hs
      fun _ _ _ => by rintro _ _ ⟨⟩
  | gateReplace u g =>
    exact Harmless.promise (.map _ (.bind (harmless_checkDelegate _) fun _ =>
      harmless_overwrite (fun _ => rfl) u g)) hs fun _ _ _ => by rintro _ _ ⟨⟩
  | blobRead u =>
    exact Harmless.promise (.map _ (harmless_read u)) hs fun _ _ _ => by rintro _ _ ⟨⟩
  | blobReplace u name =>
    exact Harmless.promise (.map _ (harmless_overwrite (fun _ => rfl) u name)) hs
      fun _ _ _ => by rintro _ _ ⟨⟩

/-! ### Runs -/

omit [DecidableEq ι] [LabelCrate] in
theorem inv_start (calls : ι → FsCall) (w : World) :
    Inv calls (initialized w).store (.start (initialized w)) where
  root := by
    change (exec FS.initializeRoot w).2.store FS.rootRef ≠ none
    unfold FS.initializeRoot
    rw [exec_add]
    split_ifs with h
    · simp
    · exact h
  owned _ _ h := nomatch h
  present _ h := h
  kept := .refl _
  past _ h := nomatch h
  reservations _ h := nomatch h
  reserved _ _ h := nomatch h
  distinct := List.nodup_nil
  committed _ h := nomatch h
  entries u d hd := by
    have hbase : baseEntries (initialized w).store u = d.data.entries := by
      unfold baseEntries
      rw [show (initialized w).store u = _ from hd]
    rw [hbase]
    rfl
  facets u d hu hd := by
    rw [show (initialized w).store u = _ from hd] at hu
    cases hu

/-- **Under every schedule, every invocation keeps to the discipline of the file system, and ends as
its call promises.** -/
theorem runFs_holds (calls : ι → FsCall) (threads : ι → Thread) (w : World) (schedule : List ι) :
    (discipline calls (initialized w).store).Holds (fun i => Promise i (calls i))
      (runFs calls threads w schedule) := by
  refine Discipline.Holds.run ⟨inv_start calls w, fun _ => trivial, fun i => ?_⟩ schedule
  exact steady_body (calls i) rfl (inv_start calls w) rfl

/-- What is reserved stays reserved, and what is stored keeps its kind and its label. -/
theorem runFs_extends (calls : ι → FsCall) (threads : ι → Thread) (w : World)
    (schedule later : List ι) :
    Extends (runFs calls threads w schedule).shared
      (runFs calls threads w (schedule ++ later)).shared := by
  unfold runFs
  rw [Pool.run_append]
  exact (runFs_holds calls threads w schedule).run_rel (R := Extends)
    (fun h hg => (step h hg).2.1) later

theorem runFs_pure {calls : ι → FsCall} {threads : ι → Thread} {w : World} {schedule : List ι}
    {i : ι} {r : FsResult} (h : (runFs calls threads w schedule).prog i = .pure r)
    (later : List ι) : (runFs calls threads w (schedule ++ later)).prog i = .pure r := by
  unfold runFs at h ⊢
  rw [Pool.run_append]
  exact (Pool.run_pure (clients ι) h later).1

end FileSystem

end Faasten
