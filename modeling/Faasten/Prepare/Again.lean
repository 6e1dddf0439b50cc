import Mathlib
import Faasten.Prepare.First
import Faasten.Untouched

/-!
# Preparing a file system again

`prepare_fs` can be run again at any time, and changes nothing: whatever the users of the system have done
since it was run first, as long as they do not hold the privilege of `faasten`, it finds everything that it
has installed, may write it, and writes what is there already.

* `Installed.later`: what has been installed is still there after the system has run;
* `Furnished.exec_prepareFs`: what another run does where everything is there.
-/

namespace Faasten

open Std Effect Integrity

/-! ### In between -/

section Between

variable {b : Base} {label : Buckle} {its : List Item} {s s' : Store} {A : Component}

theorem FacetedDirectory.find_of_prefix {d d' : FacetedDirectory} {f : Buckle} {u : Uid}
    (h : d.facets <+: d'.facets) (hu : d.find f = some u) : d'.find f = some u := by
  obtain ⟨more, hmore⟩ := h
  unfold find at hu ⊢
  rw [← hmore, List.findSome?_append, hu, Option.some_or]

theorem Item.HeldAt.stored {it : Item} {u : Uid} {l : Buckle} (h : it.HeldAt s u l) :
    ∃ o, s u = some (.object o) ∧ o.label? = some l := by
  cases it with
  | blob =>
    obtain ⟨v, hv⟩ := h
    exact ⟨_, hv, rfl⟩
  | gate =>
    obtain ⟨v, hv⟩ := h
    exact ⟨_, hv, rfl⟩

variable [LabelCrate]

/-- What has been installed stays, if objects change only as they may, and those that nobody may write do not
change. -/
theorem Installed.later (h : Installed label its b s) (hkept : s.Kept s') (hspared : s.Spared A s')
    (hlabel : ¬ InReach A label) (hroot : ¬ InReach A b.root.label) :
    ∃ b', Installed label its b' s' ∧ b'.root = b.root := by
  obtain ⟨o, ho, hbecomes⟩ := hkept _ _ h.facets_stored
  obtain ⟨facets, rfl, hprefix⟩ := hbecomes.facets _ rfl
  have hdir : s' b.dir = s b.dir := by
    rw [h.dir_stored]
    exact hspared _ _ _ h.dir_stored rfl (h.dir_label ▸ hlabel)
  have hplaces : ∀ it ∈ its, ∀ u, it.place b.contents.data = some u → s' u = s u ∧ it.HeldAt s' u label := by
    intro it hit u hplace
    obtain ⟨u', hentry, hu⟩ := h.held it hit
    rw [Item.place_of_entry hentry] at hplace
    obtain rfl := Option.some.inj hplace
    obtain ⟨o, ho, hl⟩ := hu.stored
    have hsame : s' u' = s u' := (hspared _ _ _ ho hl hlabel).trans ho.symm
    exact ⟨hsame, hu.congr hsame⟩
  have hunplaced : ∀ x, (∀ it ∈ its, it.place b.contents.data ≠ some x) →
      Item.rewrite label b.contents.data its s' x = s' x := fun x hx => Item.rewrite_of_ne hx
  refine ⟨{ b with facets }, ⟨⟨?_, h.home_entry, ho, FacetedDirectory.find_of_prefix hprefix h.found,
    hdir.trans h.dir_stored, h.apart⟩, h.dir_label, ?_, h.only, h.distinct, ?_⟩, rfl⟩
  · exact hspared _ _ _ h.root_stored rfl hroot
  · intro it hit
    obtain ⟨u, hentry, -⟩ := h.held it hit
    exact ⟨u, hentry, (hplaces it hit u (Item.place_of_entry hentry)).2⟩
  · funext x
    by_cases hx : ∃ it ∈ its, it.place b.contents.data = some x
    · obtain ⟨it, hit, hplace⟩ := hx
      have hsame := (hplaces it hit x hplace).1
      rw [Item.rewrite_congr hsame, h.settled, hsame]
    · exact Item.rewrite_of_ne fun it hit hplace => hx ⟨it, hit, hplace⟩

end Between

/-! ### The second time -/

section Second

variable [LabelCrate] [LawfulCrate] {files : String → Option Bytes} {label c : Buckle} {h : Host} {b : Base}
  {its : List Item} {it : Item} {w : World} {n : ℕ}

/-- A thread that acts as `faasten`, with a label below `c`, where the items are there. -/
structure Furnished (label c : Buckle) (h : Host) (its : List Item) (b : Base) (w : World) : Prop where
  base : b.In label w.store
  held : ∀ it ∈ its, ∃ u, b.contents.data.entries[it.name]? = some (it.entry u) ∧ it.HeldAt w.store u label
  allowed : ∀ it ∈ its, it.Allowed faastenPriv
  privilege : w.privilege = faastenPriv
  below : canFlowTo w.currentLabel c
  root_below : canFlowTo b.root.label c
  dir_below : canFlowTo b.contents.label c
  flows : canFlowToWithPrivilege c label faastenPriv
  digest : w.host.digestHex = h.digestHex
  files : Files w

theorem Furnished.install (hw : Furnished label c h its b w) (hit : it ∈ its) :
    ∃ w', exec (it.install (n + 1) (basePath label) label) w = (.ok (), w') ∧ Furnished label c h its b w' ∧
      w'.store = Item.redo label b.contents.data w.store it := by
  obtain ⟨u, hentry, hu⟩ := hw.held it hit
  have htaint : canFlowTo (b.taint w.currentLabel) c :=
    LawfulCrate.lub_flow hw.dir_below (LawfulCrate.lub_flow hw.root_below hw.below)
  have hflow : canFlowToWithPrivilege (b.taint w.currentLabel) label w.privilege :=
    hw.privilege ▸ LawfulCrate.priv_trans (LawfulCrate.priv_of_flow htaint) hw.flows
  have hx := hw.base.exec_install (n := n) hentry hu hflow (hw.privilege ▸ hw.allowed it hit)
  obtain ⟨hhost, hfiles⟩ := exec_outside (it.install (n + 1) (basePath label) label) w
  obtain ⟨hroot, hhome, hdir⟩ := hw.base.ne hu
  have hredo : Item.redo label b.contents.data w.store it = w.store.put u (it.object label) :=
    Item.redo_of_place (Item.place_of_entry hentry)
  rw [hx] at hhost hfiles
  refine ⟨_, hx, { hw with base := ?_, held := ?_, below := htaint, files := hfiles hw.files }, rfl⟩
  · dsimp only
    rw [hredo]
    exact hw.base.congr (Store.put_of_ne _ _ hroot.symm) (Store.put_of_ne _ _ hhome.symm)
      (Store.put_of_ne _ _ hdir.symm)
  · intro it' hit'
    obtain ⟨u', hentry', hu'⟩ := hw.held it' hit'
    refine ⟨u', hentry', ?_⟩
    dsimp only
    rw [hredo]
    by_cases heq : u' = u
    · subst heq
      exact hu.put hu'
    · exact hu'.congr (Store.put_of_ne _ _ heq)

omit [LawfulCrate] in
/-- An image is stored once more. -/
theorem Furnished.localfile2blob {path : String} (hw : Furnished label c h its b w) (hfile : files path ≠ none) :
    ∃ w', exec (localfile2blob files path) w = (.ok (imageName h files path), w') ∧
      Furnished label c h its b w' ∧ w'.store = w.store := by
  obtain ⟨io, blobstore, hx⟩ := exec_localfile2blob hw.files hfile
  rw [imageName_of_digest hw.digest] at hx
  have hfiles := (exec_outside (Faasten.localfile2blob files path) w).2 hw.files
  rw [hx] at hfiles
  exact ⟨_, hx, { hw with files := hfiles }, rfl⟩

theorem Furnished.image {name path : String} (hw : Furnished label c h its b w) (hfile : files path ≠ none)
    (hit : .blob name (imageName h files path) ∈ its) :
    ∃ w', exec (installBlob files (n + 1) (basePath label) label name path) w =
        (.ok (imageName h files path), w') ∧ Furnished label c h its b w' ∧
      w'.store = Item.redo label b.contents.data w.store (.blob name (imageName h files path)) := by
  obtain ⟨w₁, hblob, hw₁, hstore₁⟩ := hw.localfile2blob hfile
  obtain ⟨w₂, hinstall, hw₂, hstore₂⟩ := hw₁.install (n := n) hit
  refine ⟨w₂, ?_, hw₂, hstore₁ ▸ hstore₂⟩
  unfold installBlob
  rw [exec_bind_ok hblob]
  exact (exec_bind_ok hinstall).trans rfl

theorem Furnished.runtimes {rts : List String} (hw : Furnished label c h its b w)
    (hrts : ∀ rt ∈ rts, files rt ≠ none ∧ fileName rt ≠ none ∧ runtimeItem (imageName h files) rt ∈ its) :
    ∃ w', exec (installRuntimes files (n + 1) (basePath label) label rts) w = (.ok (), w') ∧
      Furnished label c h its b w' ∧
      w'.store = Item.rewrite label b.contents.data (rts.map (runtimeItem (imageName h files))) w.store := by
  induction rts generalizing w with
  | nil => exact ⟨w, rfl, hw, rfl⟩
  | cons rt rts ih =>
    obtain ⟨hfile, hname, hit⟩ := hrts rt List.mem_cons_self
    obtain ⟨name, hname⟩ := Option.ne_none_iff_exists'.1 hname
    have hitem : runtimeItem (imageName h files) rt = .blob name (imageName h files rt) := by
      simp [runtimeItem, hname]
    rw [hitem] at hit
    obtain ⟨w₁, hblob, hw₁, hstore₁⟩ := hw.localfile2blob hfile
    obtain ⟨w₂, hinstall, hw₂, hstore₂⟩ := hw₁.install (n := n) hit
    obtain ⟨w₃, hrest, hw₃, hstore₃⟩ := ih hw₂ fun rt' hrt' => hrts rt' (List.mem_cons_of_mem _ hrt')
    have hexpect : exec (expect (createOrUpdateBlob (n + 1) (basePath label) name label
        (imageName h files rt))) w₁ = (.ok (), w₂) := Item.exec_expect hinstall
    refine ⟨w₃, ?_, hw₃, ?_⟩
    · unfold installRuntimes
      rw [exec_bind_ok hblob, hname, exec_bind_ok (exec_unwrap_some _ _), exec_bind_ok hexpect, hrest]
    · rw [hstore₃, hstore₂, hstore₁, List.map_cons, Item.rewrite_cons, hitem]

/-- **What another run does** where everything is there: it writes all items once more. -/
theorem Furnished.exec_prepareFs {config : Config} (hparse : LabelCrate.parse "T,faasten" = some label)
    (hcomplete : config.Complete files)
    (hw : Furnished label c h (config.items (imageName h files)) b { w with privilege := faastenPriv }) :
    ∃ w', exec (prepareFs files (n + 1) config) w = (.ok (), w') ∧ w'.privilege = .dcTrue ∧
      w'.store = Item.rewrite label b.contents.data (config.items (imageName h files)) w.store := by
  have hbase : b.In label w.store := hw.base
  have hroot := exec_initializeRoot_again hbase
  have hhome := exec_createFaceted_again (w := { w with privilege := .dcFalse }) (n := n + 1) hbase
  have hw₁ : Furnished label c h (config.items (imageName h files)) b
      { w with privilege := faastenPriv, currentLabel := lub b.root.label w.currentLabel } :=
    { hw with below := LawfulCrate.lub_flow hw.root_below hw.below }
  have hmem : ∀ it, it ∈ ([.blob "kernel" (imageName h files config.kernel),
      .blob "python" (imageName h files config.python), .blob "fsutil_image" (imageName h files config.fsutil),
      .gate (fsutilGate (config.function (imageName h files)))] : List Item) →
      it ∈ config.items (imageName h files) := fun it hit => List.mem_append_left _ hit
  obtain ⟨w₂, hkernel, hw₂, hstore₂⟩ := hw₁.image (n := n) (hcomplete.1 config.kernel (by simp [Config.paths]))
    (hmem (.blob "kernel" _) (by simp))
  obtain ⟨w₃, hpython, hw₃, hstore₃⟩ := hw₂.image (n := n) (hcomplete.1 config.python (by simp [Config.paths]))
    (hmem (.blob "python" _) (by simp))
  obtain ⟨w₄, hfsutil, hw₄, hstore₄⟩ := hw₃.image (n := n) (hcomplete.1 config.fsutil (by simp [Config.paths]))
    (hmem (.blob "fsutil_image" _) (by simp))
  obtain ⟨w₅, hgate, hw₅, hstore₅⟩ := hw₄.install (n := n)
    (hmem (.gate (fsutilGate (config.function (imageName h files)))) (by simp))
  have hrts : ∀ rt ∈ config.otherRuntimes, files rt ≠ none ∧ fileName rt ≠ none ∧
      runtimeItem (imageName h files) rt ∈ config.items (imageName h files) := fun rt hrt =>
    ⟨hcomplete.1 rt (by simp [Config.paths, hrt]), hcomplete.2 rt hrt,
      List.mem_append_right _ (List.mem_map_of_mem hrt)⟩
  obtain ⟨w₆, hothers, hw₆, hstore₆⟩ := hw₅.runtimes (n := n) hrts
  refine ⟨{ w₆ with privilege := .dcTrue }, ?_, rfl, ?_⟩
  · unfold prepareFs
    rw [hparse, exec_bind_ok (exec_unwrap_some _ _), exec_bind_ok hroot, exec_bind_ok (exec_setMyPrivilege ..),
      exec_bind_ok hhome, exec_bind_ok (exec_setMyPrivilege ..), exec_bind_ok (exec_parse_base _), hparse,
      Option.map_some, exec_bind_ok (exec_unwrap_some _ _)]
    refine (exec_bind_ok hkernel).trans ?_
    rw [exec_bind_ok hpython, exec_bind_ok hfsutil]
    exact (exec_bind_ok hgate).trans ((exec_bind_ok hothers).trans (exec_setMyPrivilege ..))
  · change w₆.store = _
    rw [hstore₆, hstore₅, hstore₄, hstore₃, hstore₂, Config.items, Item.rewrite_append]
    rfl

end Second

section Main

variable [LabelCrate] [LawfulCrate] [LawfulConj] {files : String → Option Bytes} {config : Config}
  {label : Buckle} {A : Component} {w₀ w₁ w₂ : World} {s₀ s : Sys} {rounds n : ℕ}

/-- **A file system can be prepared again at any time.** It is prepared for the first time, and then the system
runs. `A` implies every user that has been authenticated and every privilege that was stored before, but
does not help to write what only `faasten`, or nobody, may write. Then another run of `prepare_fs` with the
same images succeeds, and leaves the store as it is. -/
theorem prepared_again (hparse : LabelCrate.parse "T,faasten" = some label)
    (hnames : ∀ rt ∈ config.otherRuntimes, fileName rt ≠ some "fsutil") (hnew : w₀.store FS.rootRef = none)
    (hA₀ : ∀ u o q, w₀.store u = some (.object o) → o.privilege? = some q → implies A q)
    (hfirst : exec (prepareFs files rounds config) w₀ = (.ok (), w₁))
    (hinit : s₀.Initial) (hlabels : ∀ i, canFlowTo publicLabel (s₀.threads i).currentLabel)
    (hstore : s₀.world.store = w₁.store) (hrun : Sys.Run (fun _ _ _ => True) s₀ s)
    (hA : ∀ c ∈ s.authenticated, implies A c) (hlabel : ¬ canFlowToWithPrivilege publicLabel label A)
    (hroot : ¬ canFlowToWithPrivilege publicLabel FS.emptyRoot.label A)
    (hstore₂ : w₂.store = s.world.store) (hlabel₂ : canFlowTo w₂.currentLabel w₀.currentLabel)
    (hdigest : w₂.host.digestHex = w₀.host.digestHex) (hfiles : Files w₂) :
    ∃ w₃, exec (prepareFs files (n + 1) config) w₂ = (.ok (), w₃) ∧ w₃.store = w₂.store ∧
      w₃.privilege = .dcTrue := by
  obtain ⟨hcomplete, hbounded, hflow, root, hrootLabel, hproper, b, hinstalled, rfl⟩ :=
    prepared hparse hnames hnew hA₀ hfirst
  rw [← hstore] at hbounded hinstalled
  have hheld := Sys.held_initial hinit hlabels hbounded
  obtain ⟨b', hthere, hroot'⟩ := hinstalled.later (Sys.store_kept hrun) (Sys.held_run hrun hheld hA).2 hlabel
    (hrootLabel ▸ hroot)
  rw [← hstore₂] at hthere
  -- the labels that the second run accumulates stay below this one, with which the first has written
  let c := lub label (lub FS.emptyRoot.label w₀.currentLabel)
  have hfurnished : Furnished label c w₀.host (config.items (imageName w₀.host files)) b'
      { w₂ with privilege := faastenPriv } :=
    { base := hthere.toIn
      held := hthere.held
      allowed := fun it hit => (hproper it hit).allowed
      privilege := rfl
      below := LawfulCrate.flow_trans hlabel₂
        (LawfulCrate.flow_trans (LawfulCrate.flow_lub_right _ _) (LawfulCrate.flow_lub_right _ _))
      root_below := by
        rw [hroot', hrootLabel]
        exact LawfulCrate.flow_trans (LawfulCrate.flow_lub_left _ _) (LawfulCrate.flow_lub_right _ _)
      dir_below := hthere.dir_label ▸ LawfulCrate.flow_lub_left _ _
      flows := hflow
      digest := hdigest
      files := hfiles }
  obtain ⟨w₃, hx, hpriv, hstore₃⟩ := hfurnished.exec_prepareFs (n := n) hparse hcomplete
  exact ⟨w₃, hx, hstore₃.trans hthere.settled, hpriv⟩

end Main

namespace SecondPreparation

open scoped Dc

/-- A configuration with one more runtime. -/
def config : Config := ⟨"vmlinux", "python3.img", "fsutil.img", ["images/nodejs"]⟩

/-- The images: a file is as long as its name. -/
def files (path : String) : Option Bytes := some (List.replicate path.length 7)

/-- A world where every file operation succeeds. -/
def world (store : Store) : World :=
  { World.quiet (.idle publicLabel) store with
    io := fun _ => .ok 100
    host := { Host.mute with digestHex := fun bytes => toString bytes.length } }

/-- What the first run gives. -/
def first : Except Raised Unit × World := exec (prepareFs files 1 config) (world .empty)

/-- The system on the new file system. -/
def system : Sys where
  world := .quiet (.idle publicLabel) first.2.store
  threads _ := .idle publicLabel

/-- `alice` and `bob` log in, and get gates of their own in their homes. -/
def used : Sys := (system.step 0 (.login 3 "alice")).step 1 (.login 3 "bob")

/-- What the two can do together. -/
def users : Component := LabelCrate.and (.single ["princeton.edu", "alice"]) (.single ["princeton.edu", "bob"])

theorem first_ok : first.1 = .ok () := by decide +kernel

/-- Another run changes nothing. -/
theorem second_same : ∃ w, exec (prepareFs files 1 config) (world used.world.store) = (.ok (), w) ∧
    w.store = used.world.store ∧ w.privilege = .dcTrue := by
  have hparse : LabelCrate.parse "T,faasten" = some ⟨.dcTrue, .single ["faasten"]⟩ := by decide +kernel
  have hnames : ∀ rt ∈ config.otherRuntimes, fileName rt ≠ some "fsutil" := by decide +kernel
  have hnone : ∀ u o q, (world .empty).store u = some (.object o) → o.privilege? = some q →
      implies users q := by
    intro u o q hu
    cases hu
  have hfirst : exec (prepareFs files 1 config) (world .empty) = (.ok (), first.2) := Prod.ext first_ok rfl
  have hinit : system.Initial := ⟨rfl, rfl, rfl, fun _ => rfl⟩
  have hrun : Sys.Run (fun _ _ _ => True) system used :=
    (Sys.Run.start.step 0 (.login 3 "alice") trivial trivial).step 1 (.login 3 "bob") trivial trivial
  have hauth : used.authenticated = [.single ["princeton.edu", "bob"], .single ["princeton.edu", "alice"]] := by
    decide +kernel
  refine prepared_again (n := 0) hparse hnames rfl hnone hfirst hinit (fun _ => LawfulCrate.flow_refl _) rfl hrun
    ?_ (by decide +kernel) (by decide +kernel) rfl (LawfulCrate.flow_refl _) rfl fun _ => ⟨99, rfl⟩
  rw [hauth]
  decide +kernel

end SecondPreparation

end Faasten
