import Mathlib
import Faasten.Clients.Syscalls
import Faasten.DcLabels

/-!
# Referential integrity

Any number of processors take up tasks and serve guests on one store and one blobstore, interleaved
one operation at a time. `references_resolve` says that at every point every entry of a directory,
every facet, every target of a redirect gate, every image of a direct gate and every entry of a
processor's tables resolves, and goes on doing so.

It also says that a processor does not panic if its task is complete (`Ready`), its guest sends only
well-formed messages, and the outside is reliable. The references resolve without any of these.
-/

namespace Faasten

open Std Effect SyscallProcessor

namespace Integrity

variable [LabelCrate] {ι : Type} {w₀ : World} {ok : Prop} {i : ι} {t : Thread} {s : Shared ι}

/-! ### Taking up a task -/

section Task

/-- The message of a task is complete, and the blobs that come with it have been saved. -/
structure Ready (blobs : String → Option Bytes) (m : LabeledInvoke) : Prop where
  label : ∃ x y, m.label = some x ∧ x.into = some y
  privilege : Pb.Given m.gatePrivilege
  blobs : ∀ k b, (k, b) ∈ m.blobs.toList → Saved blobs b
  invoker : ∃ x cs, m.invoker = some x ∧ x.into = some (.dcFormula cs) ∧
    ∀ c ∈ cs.toList, c.principals.toList ≠ []

omit [LabelCrate] in
theorem safe_openBlobs {bs : List (String × String)} (hi : Inv w₀ s) (ht : Tables t s)
    (h : ok → Files w₀ ∧ ∀ k b, (k, b) ∈ bs → Saved s.world.blobstore b) :
    Safe w₀ ok i (fun r s => ∀ k b, (k, b) ∈ r → Saved s.world.blobstore b.name) (openBlobs bs)
      t s := by
  induction bs generalizing t s with
  | nil => exact .pure fun _ _ _ _ hb => by cases hb
  | cons kb bs ih =>
    obtain ⟨k, b⟩ := kb
    refine .bind hi ht (safe_openExpect hi ht fun hok => ⟨(h hok).1, (h hok).2 k b List.mem_cons_self⟩)
      fun x t₁ s₁ hi₁ ht₁ hs₁ hx => ?_
    refine .map _ (ih hi₁ ht₁ fun hok => ⟨(h hok).1, fun k b hb =>
      hs₁.saved _ ((h hok).2 k b (List.mem_cons_of_mem _ hb))⟩) fun r s' hs hr k' b' hb => ?_
    rcases List.mem_cons.1 hb with heq | hb
    · cases heq
      exact hs.saved _ hx
    · exact hr k' b' hb

omit [LabelCrate] in
theorem safe_insertBlobs {bs : List (String × OpenBlob)} (hi : Inv w₀ s) (ht : Tables t s)
    (h : ∀ k b, (k, b) ∈ bs → Saved s.world.blobstore b.name) :
    Safe w₀ ok i (fun _ _ => True) (insertBlobs bs) t s := by
  induction bs generalizing t s with
  | nil => exact .pure fun _ _ => True.intro
  | cons kb bs ih =>
    obtain ⟨k, b⟩ := kb
    refine .bind hi ht (safe_newBlobId hi ht) fun fd t₁ s₁ hi₁ ht₁ hs₁ _ => ?_
    refine .bind hi₁ ht₁ (safe_putBlob hi₁ ht₁ (hs₁.saved _ (h k b List.mem_cons_self)))
      fun _ t₂ s₂ hi₂ ht₂ hs₂ _ => ?_
    exact .map _ (ih hi₂ ht₂ fun k b hb => (hs₁.trans hs₂).saved _
      (h k b (List.mem_cons_of_mem _ hb))) fun _ _ _ _ => True.intro

omit [LabelCrate] in
theorem safe_firstPrincipals {cs : List Clause} (hi : Inv w₀ s) (ht : Tables t s)
    (h : ok → ∀ c ∈ cs, c.principals.toList ≠ []) :
    Safe w₀ ok i (fun _ _ => True) (firstPrincipals cs) t s := by
  induction cs generalizing t s with
  | nil => exact .pure fun _ _ => True.intro
  | cons c cs ih =>
    refine .bind hi ht (.unwrap' fun hok => ?_) fun _ t₁ s₁ hi₁ ht₁ _ _ => ?_
    · simpa using h hok c List.mem_cons_self
    · exact .map _ (ih hi₁ ht₁ fun hok c hc => h hok c (List.mem_cons_of_mem _ hc))
        fun _ _ _ _ => True.intro

/-- A new processor starts with the root directory and the blobs of its task. -/
theorem safe_new (label : Buckle) (privilege : Component) (hi : Inv w₀ s) (ht : Tables t s) :
    Safe w₀ ok i (fun _ _ => True) (SyscallProcessor.new label privilege) t s := by
  refine .bind (B := fun _ _ => True) hi ht
    (safe_withCurrentLabel hi ht fun _ => ⟨_, _, rfl, True.intro⟩) fun _ t₁ s₁ hi₁ ht₁ _ _ => ?_
  refine .bind hi₁ ht₁ (safe_taintWithLabel label hi₁ ht₁) fun _ t₂ s₂ hi₂ ht₂ _ _ => ?_
  refine .bind hi₂ ht₂ (safe_amend (f := fun t => { t with privilege := privilege }) hi₂ ht₂
    fun _ _ _ hr => ⟨hr.dents, hr.blobs⟩) fun _ t₃ s₃ hi₃ ht₃ _ _ => ?_
  refine safe_amend hi₃ ht₃ fun r s' hs _ => ⟨fun fd e he => ?_, fun fd b hb => by cases hb⟩
  change (if fd = 0 then some (DirEntry.directory FS.rootRef) else none) = some e at he
  split_ifs at he
  cases he
  exact hs.refers _ hi₃.root

theorem safe_processTask {m : LabeledInvoke} (hi : Inv w₀ s) (ht : Tables t s)
    (h : ok → Files w₀ ∧ Ready s.world.blobstore m) :
    Safe w₀ ok i (fun _ _ => True) (processTask m) t s := by
  refine .bind hi ht (.unwrap' fun hok => ?_) fun l t₁ s₁ hi₁ ht₁ hs₁ hl => ?_
  · obtain ⟨x, y, hx, -⟩ := (h hok).2.label
    simp [hx]
  refine .bind hi₁ ht₁ (.unwrap' fun hok => ?_) fun label t₂ s₂ hi₂ ht₂ hs₂ _ => ?_
  · obtain ⟨x, y, hx, hy⟩ := (h hok).2.label
    cases hl.symm.trans hx
    simp [hy]
  refine .bind hi₂ ht₂ (.unwrap' fun hok => ?_) fun p t₃ s₃ hi₃ ht₃ hs₃ hp => ?_
  · obtain ⟨x, y, hx, -⟩ := (h hok).2.privilege
    simp [hx]
  refine .bind hi₃ ht₃ (.unwrap' fun hok => ?_) fun privilege t₄ s₄ hi₄ ht₄ hs₄ _ => ?_
  · obtain ⟨x, y, hx, hy⟩ := (h hok).2.privilege
    cases hp.symm.trans hx
    simp [hy]
  have hgrow := (hs₁.trans hs₂).trans (hs₃.trans hs₄)
  refine .bind hi₄ ht₄ (safe_openBlobs hi₄ ht₄ fun hok => ⟨(h hok).1, fun k b hb =>
    hgrow.saved _ ((h hok).2.blobs k b hb)⟩) fun blobs t₅ s₅ hi₅ ht₅ _ hblobs => ?_
  refine .bind hi₅ ht₅ (safe_new label privilege hi₅ ht₅) fun _ t₆ s₆ hi₆ ht₆ hs₆ _ => ?_
  refine .bind hi₆ ht₆ (.unwrap' fun hok => ?_) fun x t₇ s₇ hi₇ ht₇ hs₇ hx => ?_
  · obtain ⟨x, cs, hx, -⟩ := (h hok).2.invoker
    simp [hx]
  refine .bind hi₇ ht₇ (.unwrap' fun hok => ?_) fun c t₈ s₈ hi₈ ht₈ hs₈ hc => ?_
  · obtain ⟨x', cs, hx', hcs, -⟩ := (h hok).2.invoker
    cases hx.symm.trans hx'
    simp [hcs]
  refine .bind hi₈ ht₈ (safe_insertBlobs hi₈ ht₈ fun k b hb =>
    ((hs₆.trans hs₇).trans hs₈).saved _ (hblobs k b hb)) fun _ t₉ s₉ hi₉ ht₉ _ _ => ?_
  have hclauses : ok → ∃ cs, c = .dcFormula cs ∧ ∀ d ∈ cs.toList, d.principals.toList ≠ [] := by
    intro hok
    obtain ⟨x', cs, hx', hcs, hne⟩ := (h hok).2.invoker
    cases hx.symm.trans hx'
    exact ⟨cs, Option.some.inj (hc.symm.trans hcs), hne⟩
  refine .map (B := fun _ _ => True) _ ?_ fun _ _ _ _ => True.intro
  cases c with
  | dcFalse =>
    refine .raise fun hok => ?_
    obtain ⟨cs, hcs, -⟩ := hclauses hok
    cases hcs
  | dcFormula cs =>
    refine safe_firstPrincipals hi₉ ht₉ fun hok => ?_
    obtain ⟨cs', hcs, hne⟩ := hclauses hok
    cases hcs
    exact hne

end Task

/-! ### Processors -/

/-- A task, the guest that is started for it, and how many of its syscalls are served. -/
structure Job where
  task : LabeledInvoke
  guest : Guest
  syscalls : ℕ

/-- A worker takes up the task and serves the guest. -/
def Job.serve (rounds : ℕ) (j : Job) : M (Option TaskReturn) := do
  let _ ← processTask j.task
  SyscallProcessor.loop rounds j.guest j.syscalls []

/-- An empty store on which `FS::initialize` has run. -/
def emptied (w : World) : World := (exec FS.initializeRoot { w with store := .empty }).2

/-- One processor for each job, before any of them has begun. Worker `i` is left with the label
`labels i` by what it did before. -/
def processors (rounds : ℕ) (jobs : ι → Job) (labels : ι → Buckle) (w : World) :
    Pool monitor Raised (Option TaskReturn) ι Thread (Shared ι) where
  shared := .start (emptied w)
  loc i := .idle (labels i)
  prog i := (jobs i).serve rounds

/-- The processors after a schedule. -/
def runProcessors [DecidableEq ι] (rounds : ℕ) (jobs : ι → Job) (labels : ι → Buckle) (w : World)
    (schedule : List ι) : Pool monitor Raised (Option TaskReturn) ι Thread (Shared ι) :=
  (processors rounds jobs labels w).run (clients ι) schedule

/-- What is stored decodes at the type that the tag of the entry claims, and a blob object has the
name of a saved blob. -/
def Resolves (w : World) : DirEntry → Prop
  | .directory u => ∃ d : Labeled Directory, (w.store u).bind Stored.decode = some d
  | .file u => ∃ f : Labeled File, (w.store u).bind Stored.decode = some f
  | .facetedDirectory u => ∃ d : FacetedDirectory, (w.store u).bind Stored.decode = some d
  | .gate u => ∃ g : Labeled Gate, (w.store u).bind Stored.decode = some g
  | .service u => ∃ v : Labeled Service, (w.store u).bind Stored.decode = some v
  | .blob u => ∃ b : Labeled Blob, (w.store u).bind Stored.decode = some b ∧
      Saved w.blobstore b.data

/-- Every reference that is stored, or held by a processor, resolves. -/
structure Integral (w : World) (threads : ι → Thread) : Prop where
  entry : ∀ u (d : Labeled Directory) (name : String) e,
    w.store u = some (.object (.directory d)) → d.data.entries[name]? = some e → Resolves w e
  facet : ∀ u (d : FacetedDirectory) f v,
    w.store u = some (.object (.facetedDirectory d)) → (f, v) ∈ d.facets →
      Resolves w (.directory v)
  target : ∀ u l g, w.store u = some (.object (.gate ⟨l, .redirect g⟩)) → Resolves w (.gate g.gate)
  image : ∀ u l g, w.store u = some (.object (.gate ⟨l, .direct g⟩)) →
    Saved w.blobstore g.function.appImage ∧ Saved w.blobstore g.function.runtimeImage ∧
      Saved w.blobstore g.function.kernel
  dents : ∀ i fd e, (threads i).dents fd = some e → Resolves w e
  blobs : ∀ i fd b, (threads i).blobs fd = some b → Saved w.blobstore b.name

omit [LabelCrate] in
theorem resolves_iff_refers {e : DirEntry} : Resolves s.world e ↔ Refers s e := by
  have typed : ∀ {T : Type} [Codec T] {k : DentKind} [Kinded T k] {u : Uid} (e : DirEntry),
      e.uid = u → e.kind = k → k ≠ .dentBlob →
      ((∃ x : T, (s.world.store u).bind Stored.decode = some x) ↔ Refers s e) := by
    rintro T _ k _ u e rfl rfl hb
    constructor
    · rintro ⟨x, hx⟩
      exact refers_of_hasKind ⟨_, decode_eq_some hx, Kinded.kind_encode x⟩ hb
    · rintro ⟨o, ho, hk, -⟩
      obtain ⟨x, hx⟩ := Kinded.decode_of_kind (T := T) hk
      have hstore : s.world.store e.uid = some (.object o) := ho
      exact ⟨x, by rw [hstore]; exact hx⟩
  cases e with
  | directory u => exact typed (.directory u) rfl rfl nofun
  | file u => exact typed (.file u) rfl rfl nofun
  | facetedDirectory u => exact typed (.facetedDirectory u) rfl rfl nofun
  | gate u => exact typed (.gate u) rfl rfl nofun
  | service u => exact typed (.service u) rfl rfl nofun
  | blob u =>
    constructor
    · rintro ⟨b, hb, hsaved⟩
      refine ⟨.blob b, decode_eq_some hb, rfl, ?_⟩
      rintro _ ⟨⟩
      exact hsaved
    · rintro ⟨o, ho, hk, hsaved⟩
      obtain ⟨b, hb⟩ := Kinded.decode_of_kind (T := Labeled Blob) hk
      have hstore : s.world.store u = some (.object o) := ho
      exact ⟨b, by rw [hstore]; exact hb, hsaved b (Codec.encode_of_decode hb)⟩

omit [LabelCrate] in
theorem integral_of_inv {threads : ι → Thread} (hi : Inv w₀ s) (ht : ∀ i, Tables (threads i) s) :
    Integral s.world threads where
  entry u _ name e hu he := resolves_iff_refers.2 (hi.fit u _ hu name e he)
  facet u _ f v hu hv := resolves_iff_refers.2 (hi.fit u _ hu f v hv)
  target u _ _ hu := resolves_iff_refers.2 (hi.fit u _ hu)
  image u _ _ hu := hi.fit u _ hu
  dents i fd e he := resolves_iff_refers.2 ((ht i).dents fd e he)
  blobs i fd b hb := (ht i).blobs fd b hb

omit [LabelCrate] in
theorem emptied_eq (w : World) :
    emptied w = { w with store := Store.empty.put FS.rootRef (.encode FS.emptyRoot) } := rfl

omit [LabelCrate] in
theorem inv_start (w : World) : Inv (emptied w) (.start (emptied w) : Shared ι) := by
  have hroot : (emptied w).store FS.rootRef = some (.object (.directory FS.emptyRoot)) := by
    rw [emptied_eq]
    exact Store.put_self Store.empty FS.rootRef (.encode FS.emptyRoot)
  refine ⟨fun u o hu => ?_, ⟨_, hroot, rfl, nofun⟩, nofun, rfl, rfl, id⟩
  rw [emptied_eq] at hu
  rcases Store.of_put hu with ⟨-, ho⟩ | hu
  · cases ho
    exact fit_emptyDirectory _
  · cases hu

omit [LabelCrate] in
theorem Reliable.emptied {w : World} (h : Reliable w) : Reliable (emptied w) :=
  ⟨h.files, h.conn, h.answer, h.header, h.body⟩

variable [DecidableEq ι] (rounds : ℕ) (jobs : ι → Job) (labels : ι → Buckle) (w : World)

/-- Under every schedule every processor keeps to the discipline. -/
theorem runProcessors_holds
    (hdigest : ∀ bytes, Blobstore.splitsAtTwo (w.host.digestHex bytes) = true)
    (schedule : List ι) :
    (discipline (emptied w)).Holds
      (fun i r _ s => Ends (Reliable w ∧ Ready w.blobstore (jobs i).task ∧
        ∀ replies sc, (jobs i).guest replies = some sc → sc.WellFormed)
        (.start (emptied w)) (fun _ _ => True) r s)
      (runProcessors rounds jobs labels w schedule) := by
  have hi := inv_start (ι := ι) w
  have ht : ∀ i, Tables (.idle (labels i)) (.start (emptied w) : Shared ι) :=
    fun i => ⟨nofun, nofun⟩
  refine Discipline.Holds.run ⟨hi, ht, fun i => ?_⟩ schedule
  refine Safe.bind hi (ht i) (safe_processTask hi (ht i) fun hok => ⟨hok.1.emptied.files, hok.2.1⟩)
    fun _ t₁ s₁ hi₁ ht₁ _ _ => ?_
  have hnames : ∀ bytes, Blobstore.splitsAtTwo ((emptied w).host.digestHex bytes) = true := hdigest
  exact safe_loop rounds hnames _ hi₁ ht₁ (fun hok => hok.1.emptied) fun hok => hok.2.2

/-- **References resolve** in every state that any number of processors reach on an initialized file
system, and go on resolving. Nothing that a processor reads by a reference can make it panic: if the
outside is reliable, its task is complete and its guest sends well-formed messages, it does not. -/
theorem references_resolve
    (hdigest : ∀ bytes, Blobstore.splitsAtTwo (w.host.digestHex bytes) = true)
    (schedule : List ι) :
    Integral (runProcessors rounds jobs labels w schedule).shared.world
        (runProcessors rounds jobs labels w schedule).loc ∧
      (∀ e later, Resolves (runProcessors rounds jobs labels w schedule).shared.world e →
        Resolves (runProcessors rounds jobs labels w (schedule ++ later)).shared.world e) ∧
      ∀ i, Reliable w → Ready w.blobstore (jobs i).task →
        (∀ replies sc, (jobs i).guest replies = some sc → sc.WellFormed) →
          (runProcessors rounds jobs labels w schedule).prog i ≠ .raise .panic := by
  have hp := runProcessors_holds rounds jobs labels w hdigest schedule
  refine ⟨integral_of_inv hp.inv hp.own, fun e later he => ?_, fun i hrel hready hguest h => ?_⟩
  · have hgrow : Grow (runProcessors rounds jobs labels w schedule).shared
        (runProcessors rounds jobs labels w (schedule ++ later)).shared := by
      unfold runProcessors
      rw [Pool.run_append]
      exact hp.run_rel (fun hi hg => (step hi hg).2.1) later
    exact resolves_iff_refers.2 (hgrow.refers e (resolves_iff_refers.1 he))
  · exact (hp.error h).2 ⟨hrel, hready, hguest⟩ rfl

end Integrity

/-! ### Two guests that share a blob -/

namespace SharedBlob

open Integrity
open scoped Dc

/-- A host that names blobs by the number of their bytes, where no file operation fails. -/
def world : World :=
  { World.quiet (.idle publicLabel) .empty with
    io := fun _ => .ok 1000
    host := { Host.mute with digestHex := fun bytes => String.ofList ('0' :: '0' :: bytes.map fun _ => '1') } }

/-- A task with this privilege. -/
def task (privilege : Component) : LabeledInvoke where
  function := none
  label := some (.ofBuckle publicLabel)
  gatePrivilege := some (.ofComponent privilege)
  payload := []
  blobs := ∅
  headers := ∅
  sync := false
  invoker := some (.ofComponent .dcTrue)

/-- The first guest saves a blob and links an object for it, the second one opens it. -/
def guest (i : ℕ) : Guest := fun replies =>
  (if i = 0 then
    [.blobCreate none, .blobWrite 1 [7, 7], .blobFinalize 1, .dentCreate none (some (.blob 1)),
      .dentLink 0 "shared" 1]
  else [.dentOpen 0 (some (.name "shared")), .dentGetBlob 1])[replies.length]?

/-- Only the first one may write to the root directory. -/
def jobs (i : ℕ) : Job := ⟨task (if i = 0 then .dcFalse else .dcTrue), guest i, 6⟩

/-- The first processor serves its guest, and then the second one. -/
def after (n m : ℕ) : Pool monitor Raised (Option TaskReturn) ℕ Thread (Shared ℕ) :=
  runProcessors 3 jobs (fun _ => publicLabel) world (List.replicate n 0 ++ List.replicate m 1)

theorem digestHex_splits (bytes : Bytes) :
    Blobstore.splitsAtTwo (world.host.digestHex bytes) = true := by
  change Blobstore.splitsAtTwo (String.ofList _) = true
  rw [Blobstore.splitsAtTwo, String.toList_ofList]
  rfl

theorem reliable_world : Reliable world where
  files _ := ⟨999, rfl⟩
  conn := rfl
  answer _ _ h := by cases h
  header _ _ := rfl
  body _ _ h := by cases h

theorem ready_task (blobs : String → Option Bytes) (c : Component) : Ready blobs (task c) where
  label := ⟨_, _, rfl, Pb.into_ofBuckle _⟩
  privilege := ⟨_, _, rfl, Pb.into_ofComponent _⟩
  blobs k b h := by
    change (k, b) ∈ (∅ : ExtTreeMap String String compare).toList at h
    simp at h
  invoker := ⟨_, _, rfl, Pb.into_ofComponent .dcTrue, fun c hc => by cases hc⟩

theorem wellFormed_guest (i : ℕ) (replies : List Pb.Reply) (sc : Pb.Syscall)
    (h : guest i replies = some sc) : sc.WellFormed := by
  have hmem := List.mem_of_getElem? h
  split_ifs at hmem
  · fin_cases hmem
    all_goals first | trivial | exact ⟨nofun, fun x hx => by cases hx; trivial⟩
  · fin_cases hmem
    · exact ⟨_, rfl, trivial⟩
    · trivial

/-- The second guest has opened the blob that the first one saved. -/
theorem blob_opened :
    (∀ bytes, Blobstore.splitsAtTwo (world.host.digestHex bytes) = true) ∧
      ((after 49 27).loc 1).blobs 1 = some ⟨"0011", [7, 7]⟩ ∧
      Integral (after 49 27).shared.world (after 49 27).loc ∧
      (after 49 27).prog 1 ≠ .raise .panic := by
  have hopened : ((after 49 27).loc 1).blobs 1 = some ⟨"0011", [7, 7]⟩ := by decide +kernel
  have h := references_resolve 3 jobs (fun _ => publicLabel) world digestHex_splits
    (List.replicate 49 0 ++ List.replicate 27 1)
  refine ⟨digestHex_splits, hopened, ?_, ?_⟩
  · unfold after
    exact h.1
  · unfold after
    exact h.2.2 1 reliable_world (ready_task _ _) (wellFormed_guest 1)

end SharedBlob

end Faasten
