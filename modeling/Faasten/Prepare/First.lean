import Mathlib
import Faasten.Prepare.Images
import Faasten.Prepare.Installed

/-!
# The first run

`prepare_fs` on a file system without a root. It makes the root and `home`, and installs one item after the
other (`Growing`).

* `Growing.rest`: what a run installs after the kernel;
* `prepared`: what the first run leaves in the store.
-/

namespace Faasten

open Std Effect

/-! ### The items of a configuration -/

/-- The function of `fsutil`. -/
def Config.function (image : String → String) (config : Config) : Function where
  memory := 128
  appImage := image config.fsutil
  runtimeImage := image config.python
  kernel := image config.kernel

/-- One of the other runtimes. -/
def runtimeItem (image : String → String) (rt : String) : Item := .blob ((fileName rt).getD "") (image rt)

/-- What a configuration installs, in order. -/
def Config.items (image : String → String) (config : Config) : List Item :=
  [.blob "kernel" (image config.kernel), .blob "python" (image config.python),
    .blob "fsutil_image" (image config.fsutil), .gate (fsutilGate (config.function image))] ++
    config.otherRuntimes.map (runtimeItem image)

/-- The files of the images. -/
def Config.paths (config : Config) : List String :=
  config.kernel :: config.python :: config.fsutil :: config.otherRuntimes

/-- The images are there, and the other runtimes have names. -/
def Config.Complete (files : String → Option Bytes) (config : Config) : Prop :=
  (∀ path ∈ config.paths, files path ≠ none) ∧ ∀ rt ∈ config.otherRuntimes, fileName rt ≠ none

/-! ### The first time -/

section First

variable [LabelCrate] [LawfulCrate] {files : String → Option Bytes} {label : Buckle} {h : Host} {A : Component}
  {root : Labeled Directory} {its : List Item} {it : Item} {w w' : World} {n : ℕ}

/-- Some items have been installed, by a thread that acts as `faasten`. -/
structure Growing (label : Buckle) (h : Host) (A : Component) (root : Labeled Directory) (its : List Item)
    (w : World) : Prop where
  installed : ∃ b, Installed label its b w.store ∧ b.root = root
  proper : ∀ it ∈ its, it.Proper
  privilege : w.privilege = faastenPriv
  host : w.host = h
  bounded : w.store.Bounded A

omit [LawfulCrate] in
theorem Growing.outside (hw : Growing label h A root its w) (hstore : w'.store = w.store)
    (hpriv : w'.privilege = w.privilege) (hhost : w'.host = w.host) : Growing label h A root its w' :=
  { hw with
    installed := hstore ▸ hw.installed
    privilege := hpriv.trans hw.privilege
    host := hhost.trans hw.host
    bounded := hstore ▸ hw.bounded }

theorem Growing.install (hw : Growing label h A root its w) (hproper : it.Proper) (hit : it.Bounded A)
    (hx : exec (it.install (n + 1) (basePath label) label) w = (.ok (), w')) :
    Growing label h A root (its ++ [it]) w' := by
  obtain ⟨b, hinstalled, rfl⟩ := hw.installed
  have hall : ∀ it' ∈ its ++ [it], it'.Proper :=
    List.forall_mem_append.2 ⟨hw.proper, List.forall_mem_singleton.2 hproper⟩
  obtain ⟨b', hinstalled', hroot, -, hpriv, hbounded⟩ := hinstalled.install (A := A) hall hx
  have hhost : w'.host = w.host := by
    have houtside := (exec_outside (it.install (n + 1) (basePath label) label) w).1
    rwa [hx] at houtside
  exact ⟨⟨b', hinstalled', hroot⟩, hall, hpriv.trans hw.privilege, hhost.trans hw.host, hbounded hit hw.bounded⟩

theorem Growing.image {name path blobName : String} (hw : Growing label h A root its w) (hname : name ≠ "fsutil")
    (hx : exec (installBlob files (n + 1) (basePath label) label name path) w = (.ok blobName, w')) :
    files path ≠ none ∧ blobName = imageName h files path ∧
      Growing label h A root (its ++ [.blob name (imageName h files path)]) w' := by
  obtain rfl := hw.host
  obtain ⟨name', w₁, hblob, hx⟩ := exec_bind_eq_ok hx
  obtain ⟨hfile, rfl, io, blobstore, rfl⟩ := localfile2blob_ok hblob
  obtain ⟨_, w₂, hinstall, hret⟩ := exec_bind_eq_ok hx
  cases hret
  have hw₁ : Growing label w.host A root its { w with io, blobstore } := hw.outside rfl rfl rfl
  let it : Item := .blob name (imageName w.host files path)
  have hproper : it.Proper := hname
  exact ⟨hfile, rfl, hw₁.install hproper trivial hinstall⟩

theorem Growing.runtimes {rts : List String} (hw : Growing label h A root its w)
    (hnames : ∀ rt ∈ rts, fileName rt ≠ some "fsutil")
    (hx : exec (installRuntimes files (n + 1) (basePath label) label rts) w = (.ok (), w')) :
    (∀ rt ∈ rts, files rt ≠ none ∧ fileName rt ≠ none) ∧
      Growing label h A root (its ++ rts.map (runtimeItem (imageName h files))) w' := by
  induction rts generalizing its w with
  | nil =>
    cases hx
    refine ⟨fun rt hrt => absurd hrt List.not_mem_nil, ?_⟩
    simpa using hw
  | cons rt rts ih =>
    obtain rfl := hw.host
    obtain ⟨blobName, w₁, hblob, hx⟩ := exec_bind_eq_ok hx
    obtain ⟨hfile, rfl, io, blobstore, rfl⟩ := localfile2blob_ok hblob
    obtain ⟨name, w₂, hunwrap, hx⟩ := exec_bind_eq_ok hx
    obtain ⟨hname, rfl⟩ := unwrap_ok hunwrap
    obtain ⟨_, w₃, hexpect, hx⟩ := exec_bind_eq_ok hx
    have hinstall := Item.expect_ok hexpect
    let it : Item := .blob name (imageName w.host files rt)
    have hproper : it.Proper := by
      rintro rfl
      exact hnames rt List.mem_cons_self hname
    have hw₁ : Growing label w.host A root its { w with io, blobstore } := hw.outside rfl rfl rfl
    have hw₃ := hw₁.install hproper trivial hinstall
    obtain ⟨hrest, hw'⟩ := ih hw₃ (fun rt' hrt' => hnames rt' (List.mem_cons_of_mem _ hrt')) hx
    refine ⟨?_, ?_⟩
    · intro rt' hrt'
      rcases List.mem_cons.1 hrt' with rfl | hrt'
      · exact ⟨hfile, by simp [hname]⟩
      · exact hrest rt' hrt'
    · rw [List.append_assoc, List.singleton_append] at hw'
      simpa [runtimeItem, hname] using hw'

/-- What a run installs after the kernel. -/
theorem Growing.rest [LawfulConj] {config : Config}
    (hw : Growing label h A root (its ++ [.blob "kernel" (imageName h files config.kernel)]) w)
    (hnames : ∀ rt ∈ config.otherRuntimes, fileName rt ≠ some "fsutil")
    (hx : exec (do
      let pythonBlob ← installBlob files (n + 1) (basePath label) label "python" config.python
      let fsutilBlob ← installBlob files (n + 1) (basePath label) label "fsutil_image" config.fsutil
      installFsutil (n + 1) (basePath label) label
        { memory := 128, appImage := fsutilBlob, runtimeImage := pythonBlob
          kernel := imageName h files config.kernel }
      installRuntimes files (n + 1) (basePath label) label config.otherRuntimes
      setMyPrivilege .dcTrue) w = (.ok (), w')) :
    (files config.python ≠ none ∧ files config.fsutil ≠ none ∧
      ∀ rt ∈ config.otherRuntimes, files rt ≠ none ∧ fileName rt ≠ none) ∧
    ∃ v, Growing label h A root (its ++ config.items (imageName h files)) v ∧
      w' = { v with privilege := .dcTrue } := by
  obtain ⟨pythonBlob, w₃, hpython, hx⟩ := exec_bind_eq_ok hx
  obtain ⟨hpythonFile, rfl, hw₃⟩ := hw.image (by decide) hpython
  obtain ⟨fsutilBlob, w₄, hfsutil, hx⟩ := exec_bind_eq_ok hx
  obtain ⟨hfsutilFile, rfl, hw₄⟩ := hw₃.image (by decide) hfsutil
  obtain ⟨_, w₅, hgate, hx⟩ := exec_bind_eq_ok hx
  have hproper : Item.Proper (.gate (fsutilGate (config.function (imageName h files)))) := rfl
  have hw₅ := hw₄.install hproper (LawfulConj.implies_true _) hgate
  obtain ⟨_, w₆, hruntimes, hx⟩ := exec_bind_eq_ok hx
  obtain ⟨hothers, hw₆⟩ := hw₅.runtimes hnames hruntimes
  rw [exec_setMyPrivilege] at hx
  cases hx
  refine ⟨⟨hpythonFile, hfsutilFile, hothers⟩, w₆, ?_, rfl⟩
  simpa [Config.items] using hw₆

/-- The first image is installed in a new directory. -/
theorem Fresh.image {name path blobName : String} (hfresh : Fresh label root w.store)
    (hpriv : w.privilege = faastenPriv) (hbounded : w.store.Bounded A) (hname : name ≠ "fsutil")
    (hx : exec (installBlob files n (basePath label) label name path) w = (.ok blobName, w')) :
    ∃ k, n = k + 1 ∧ files path ≠ none ∧ blobName = imageName w.host files path ∧
      canFlowToWithPrivilege (lub label (lub root.label w.currentLabel)) label faastenPriv ∧
      Growing label w.host A root [.blob name (imageName w.host files path)] w' := by
  obtain ⟨name', w₁, hblob, hx⟩ := exec_bind_eq_ok hx
  obtain ⟨hfile, rfl, io, blobstore, rfl⟩ := localfile2blob_ok hblob
  obtain ⟨_, w₂, hinstall, hret⟩ := exec_bind_eq_ok hx
  cases hret
  let it : Item := .blob name (imageName w.host files path)
  have hinstall : exec (it.install n (basePath label) label) { w with io, blobstore } = (.ok (), w') := hinstall
  have hhost : w'.host = w.host := by
    have houtside := (exec_outside (it.install n (basePath label) label) { w with io, blobstore }).1
    rwa [hinstall] at houtside
  have hproper : it.Proper := hname
  obtain ⟨b, k, rfl, hinstalled, hroot, hflow, hpriv', hbounded'⟩ :=
    Fresh.install (w := { w with io, blobstore }) (A := A) hfresh hproper hinstall
  exact ⟨k, rfl, hfile, rfl, hpriv ▸ hflow, ⟨b, hinstalled, hroot⟩, List.forall_mem_singleton.2 hproper,
    hpriv'.trans hpriv, hhost, hbounded' trivial hbounded⟩

/-- `home` is made in an empty root, or the root stays empty. -/
theorem createFaceted_home {r : Except FsError Unit} (hroot : w.store FS.rootRef = some (.encode FS.emptyRoot))
    (hbounded : w.store.Bounded A) (hx : exec (result (createFaceted n [] "home")) w = (.ok r, w')) :
    canFlowTo w.currentLabel w'.currentLabel ∧ w'.host = w.host ∧ w'.store.Bounded A ∧
      (w'.store FS.rootRef = some (.encode FS.emptyRoot) ∨
        ∃ root, root.label = FS.emptyRoot.label ∧ Fresh label root w'.store) := by
  have hhost : w'.host = w.host := by
    have houtside := (exec_outside (result (createFaceted n [] "home")) w).1
    rwa [hx] at houtside
  have hlist : exec (FS.listDir n []) w =
      (.ok FS.emptyRoot.data.entries, w.relabel (lub FS.emptyRoot.label w.currentLabel)) :=
    Directory.exec_list (decode_of_eq hroot)
  have hup := LawfulCrate.flow_lub_right FS.emptyRoot.label w.currentLabel
  have hempty : FS.emptyRoot.data.entries.contains "home" = false := by simp [FS.emptyRoot]
  unfold createFaceted at hx
  rw [exec_result, exec_bind_ok hlist, hempty] at hx
  simp only [Bool.false_eq_true, if_false] at hx
  unfold FS.createFacetedDirectory at hx
  obtain ⟨r', hr⟩ | ⟨u, r', hu, hr⟩ := ObjectRef.exec_setNewId n ({} : FacetedDirectory)
    (w.relabel (lub FS.emptyRoot.label w.currentLabel))
  · -- no free uid is found
    rw [exec_bind_error (exec_bind_error hr)] at hx
    cases hx
  rcases n with _ | k
  · cases hr
  rw [bind_assoc, exec_bind_ok hr] at hx
  have hne : FS.rootRef ≠ u := by
    rintro rfl
    cases hu.symm.trans hroot
  have hroot' : (w.store.put u (.encode ({} : FacetedDirectory))) FS.rootRef = some (.encode FS.emptyRoot) :=
    (Store.put_of_ne _ _ hne).trans hroot
  have hbounded₂ : (w.store.put u (.encode ({} : FacetedDirectory))).Bounded A := hbounded.put rfl
  set w₂ : World := { w.relabel (lub FS.emptyRoot.label w.currentLabel) with
    rand := r', store := w.store.put u (.encode ({} : FacetedDirectory)) } with hw₂
  have hup' : canFlowTo w.currentLabel (lub FS.emptyRoot.label w₂.currentLabel) :=
    LawfulCrate.flow_trans hup (LawfulCrate.flow_lub_right _ _)
  have hinsert : (Directory.insert "home" (.facetedDirectory u) FS.emptyRoot.data).1 = false := hempty
  have hlink := Directory.exec_updateLoop (w := w₂) hroot' (Directory.insert "home" (.facetedDirectory u)) true k
  rw [hinsert] at hlink
  simp only [Bool.false_eq_true, if_false] at hlink
  have hwhole : exec (FS.link (k + 1) [] "home" (.facetedDirectory u)) w₂ =
      exec (Directory.updateLoop FS.rootRef (Directory.insert "home" (.facetedDirectory u)) true (k + 1)
        FS.emptyRoot >>= fun b => if b then return () else throwFs .nameExists) w₂ := by
    have hget : exec (ObjectRef.get (Labeled Directory) FS.rootRef) w₂ = (.ok (some FS.emptyRoot), w₂) := by
      rw [ObjectRef.exec_get, decode_of_eq hroot']
    unfold FS.link Directory.link
    rw [exec_bind_ok (show exec (FS.readPath (k + 1) []) w₂ = (.ok (.directory FS.rootRef), w₂) from rfl)]
    dsimp only
    rw [bind_assoc, exec_bind_ok hget, bind_assoc, exec_bind_ok (exec_unwrap_some _ _)]
  change (asResult (exec (FS.link (k + 1) [] "home" (.facetedDirectory u)) w₂).1,
    (exec (FS.link (k + 1) [] "home" (.facetedDirectory u)) w₂).2) = _ at hx
  rw [hwhole] at hx
  split_ifs at hlink with hflow
  · rw [exec_bind_ok hlink, if_pos rfl, exec_pure] at hx
    dsimp only at hx
    cases hx
    let root : Labeled Directory :=
      ⟨FS.emptyRoot.label, (Directory.insert "home" (.facetedDirectory u) FS.emptyRoot.data).2⟩
    have hstored : (w₂.store.put FS.rootRef (.encode root)) FS.rootRef = some (.encode root) := Store.put_self ..
    refine ⟨hup', hhost, hbounded₂.put rfl, .inr ⟨root, rfl, hstored, u, {}, ?_, ?_, rfl⟩⟩
    · simp [root, Directory.insert]
    · exact (Store.put_of_ne _ _ hne.symm).trans (Store.put_self ..)
  · -- `home` is not linked; `prepare_fs` only warns
    rw [exec_bind_error hlink] at hx
    cases hx
    exact ⟨hup', hhost, hbounded₂, .inl hroot'⟩

omit [LawfulCrate] in
/-- Nothing is installed where there is no `home`. -/
theorem install_homeless (hroot : w.store FS.rootRef = some (.encode FS.emptyRoot)) :
    (exec (it.install n (basePath label) label) w).1 = .error (.err .badPath) := by
  have hread : exec FS.root w = (.ok FS.emptyRoot, w) := by
    rw [FS.exec_root, decode_of_eq hroot]
    rfl
  have hnone : FS.emptyRoot.data.entries["home"]? = none := by simp [FS.emptyRoot]
  have hwalk : exec (FS.readPath n (basePath label)) w =
      (.error (.err .badPath), w.relabel (lub FS.emptyRoot.label w.currentLabel)) := by
    unfold basePath FS.readPath
    rw [exec_bind_ok hread, exec_bind_ok (Labeled.exec_unlabel ..)]
    simp only [hnone]
    rfl
  unfold Item.install createOrUpdate
  rw [exec_bind_error hwalk]

/-- **What the first run leaves in the store**: the items, and a directory that `faasten` may write. -/
theorem prepared [LawfulConj] {config : Config} (hparse : LabelCrate.parse "T,faasten" = some label)
    (hnames : ∀ rt ∈ config.otherRuntimes, fileName rt ≠ some "fsutil") (hnew : w.store FS.rootRef = none)
    (hbounded : w.store.Bounded A) (hx : exec (prepareFs files n config) w = (.ok (), w')) :
    config.Complete files ∧ w'.store.Bounded A ∧
      canFlowToWithPrivilege (lub label (lub FS.emptyRoot.label w.currentLabel)) label faastenPriv ∧
      ∃ root, root.label = FS.emptyRoot.label ∧
        (∀ it ∈ config.items (imageName w.host files), it.Proper) ∧
        ∃ b, Installed label (config.items (imageName w.host files)) b w'.store ∧ b.root = root := by
  unfold prepareFs at hx
  rw [hparse, exec_bind_ok (exec_unwrap_some _ _)] at hx
  have hroot : exec FS.initializeRoot w =
      (.ok true, { w with store := w.store.put FS.rootRef (.encode FS.emptyRoot) }) := by
    unfold FS.initializeRoot
    rw [exec_add, if_pos hnew]
  have hstart : (w.store.put FS.rootRef (.encode FS.emptyRoot)) FS.rootRef = some (.encode FS.emptyRoot) :=
    Store.put_self ..
  rw [exec_bind_ok hroot, exec_bind_ok (exec_setMyPrivilege ..)] at hx
  obtain ⟨r, w₁, hhome, hx⟩ := exec_bind_eq_ok hx
  have hbounded₀ : (w.store.put FS.rootRef (.encode FS.emptyRoot)).Bounded A := hbounded.put rfl
  obtain ⟨hup, hhost, hbounded₁, hfresh⟩ := createFaceted_home hstart hbounded₀ hhome
  rw [exec_bind_ok (exec_setMyPrivilege ..), exec_bind_ok (exec_parse_base _), hparse, Option.map_some,
    exec_bind_ok (exec_unwrap_some _ _)] at hx
  obtain ⟨kernelBlob, w₂, hkernel, hx⟩ := exec_bind_eq_ok hx
  rcases hfresh with hempty | ⟨root, hlabel, hfresh⟩
  · -- without `home` the first installation fails
    obtain ⟨name, w', hblob, hinstall⟩ := exec_bind_eq_ok hkernel
    obtain ⟨-, -, io, blobstore, rfl⟩ := localfile2blob_ok hblob
    let it : Item := .blob "kernel" name
    have hno : (exec (it.install n (basePath label) label)
        { w₁ with privilege := faastenPriv, io, blobstore }).1 = .error (.err .badPath) := install_homeless hempty
    obtain ⟨_, w₃, hinstall, -⟩ := exec_bind_eq_ok hinstall
    have hok := congrArg Prod.fst hinstall
    cases hno.symm.trans hok
  obtain ⟨n, rfl, hkernelFile, rfl, hflow, hw₂⟩ :=
    Fresh.image (w := { w₁ with privilege := faastenPriv }) hfresh rfl hbounded₁ (by decide) hkernel
  have hw₂ : Growing label w₁.host A root
      ([] ++ [.blob "kernel" (imageName w₁.host files config.kernel)]) w₂ := hw₂
  obtain ⟨⟨hpythonFile, hfsutilFile, hothers⟩, v, hv, rfl⟩ := hw₂.rest hnames hx
  rw [List.nil_append] at hv
  have hhost : w₁.host = w.host := hhost
  rw [hhost] at hv
  refine ⟨⟨?_, fun rt hrt => (hothers rt hrt).2⟩, hv.bounded, ?_, root, hlabel, hv.proper, hv.installed⟩
  · intro path hpath
    simp only [Config.paths, List.mem_cons] at hpath
    rcases hpath with rfl | rfl | rfl | hpath
    · exact hkernelFile
    · exact hpythonFile
    · exact hfsutilFile
    · exact (hothers path hpath).1
  · rw [hlabel] at hflow
    refine LawfulCrate.priv_trans (LawfulCrate.priv_of_flow ?_) hflow
    refine LawfulCrate.lub_flow (LawfulCrate.flow_lub_left _ _) (LawfulCrate.lub_flow ?_ ?_)
    · exact LawfulCrate.flow_trans (LawfulCrate.flow_lub_left _ _) (LawfulCrate.flow_lub_right _ _)
    · exact LawfulCrate.flow_trans hup
        (LawfulCrate.flow_trans (LawfulCrate.flow_lub_right _ _) (LawfulCrate.flow_lub_right _ _))

end First

end Faasten
