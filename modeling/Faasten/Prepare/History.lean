import Mathlib
import Faasten.Prepare.Again

/-!
# What is booted is what was installed

A file system is administered while it is used: it is prepared, prepared again with other images, its Python
runtime is replaced, and in between the system runs. `Managed` is the relation between what has been installed
so far and the store.

* `Managed.installed`: everything that has been installed is there, and nobody else has changed it;
* `booted_as_installed`: an image is read as it was installed last, and `fsutil` has the images that were there
  when it was installed last.
-/

namespace Faasten

open Std Effect

/-! ### What has been installed last -/

namespace Item

/-- The blob, if the item has this name. -/
def blobNamed (name : String) : Item → Option String
  | .blob n blobName => if n = name then some blobName else none
  | .gate _ => none

/-- The gate. -/
def directGate? : Item → Option DirectGate
  | .blob _ _ => none
  | .gate g => some g

/-- The blob that was installed last under a name. -/
def latestBlob (name : String) (its : List Item) : Option String := its.reverse.findSome? (blobNamed name)

/-- The gate that was installed last. -/
def latestGate (its : List Item) : Option DirectGate := its.reverse.findSome? directGate?

variable {its : List Item}

theorem split_of_findSome {β : Type} {f : Item → Option β} {b : β} (h : its.reverse.findSome? f = some b) :
    ∃ before it after, its = before ++ it :: after ∧ f it = some b ∧ ∀ it' ∈ after, f it' = none := by
  obtain ⟨after, it, before, hsplit, hit, hafter⟩ := List.findSome?_eq_some_iff.1 h
  refine ⟨before.reverse, it, after.reverse, ?_, hit, fun it' hit' => hafter it' (List.mem_reverse.1 hit')⟩
  have hrev := congrArg List.reverse hsplit
  rw [List.reverse_reverse] at hrev
  simpa using hrev

theorem latestBlob_split {name blobName : String} (hproper : ∀ it ∈ its, it.Proper)
    (h : latestBlob name its = some blobName) :
    ∃ before after, its = before ++ .blob name blobName :: after ∧ ∀ it ∈ after, it.name ≠ name := by
  obtain ⟨before, it, after, rfl, hit, hafter⟩ := split_of_findSome h
  cases it with
  | gate g => cases hit
  | blob n b =>
    obtain ⟨rfl, hb⟩ := Option.ite_none_right_eq_some.1 hit
    cases hb
    refine ⟨before, after, rfl, fun it hit hname => ?_⟩
    cases it with
    | blob n' b' =>
      have hnone := hafter _ hit
      rw [blobNamed, if_pos (show n' = n from hname)] at hnone
      cases hnone
    | gate g => exact hproper (.blob n blobName) (by simp) hname.symm

theorem latestGate_split {g : DirectGate} (hproper : ∀ it ∈ its, it.Proper) (h : latestGate its = some g) :
    ∃ before after, its = before ++ .gate g :: after ∧ ∀ it ∈ after, it.name ≠ "fsutil" := by
  obtain ⟨before, it, after, rfl, hit, hafter⟩ := split_of_findSome h
  cases it with
  | blob n b => cases hit
  | gate g' =>
    cases hit
    refine ⟨before, after, rfl, fun it hit => ?_⟩
    cases it with
    | blob n b => exact hproper (.blob n b) (by simp [hit])
    | gate g' => cases hafter _ hit

end Item

/-! ### Administration and use -/

section History

variable [LabelCrate] {label : Buckle} {A : Component}

/-- The items have been installed one after the other, and the store is what has become of it. `A` implies what
the users of the system may do. -/
inductive Managed (label : Buckle) (A : Component) : List Item → Store → Prop
  | prepared {files : String → Option Bytes} {rounds : ℕ} {config : Config} {w w' : World}
      (hnew : w.store FS.rootRef = none) (hbounded : w.store.Bounded A)
      (hnames : ∀ rt ∈ config.otherRuntimes, fileName rt ≠ some "fsutil")
      (hx : exec (prepareFs files rounds config) w = (.ok (), w')) :
      Managed label A (config.items (imageName w.host files)) w'.store
  | preparedAgain {files : String → Option Bytes} {n : ℕ} {config : Config} {w w' : World} {its : List Item}
      (h : Managed label A its w.store) (hnames : ∀ rt ∈ config.otherRuntimes, fileName rt ≠ some "fsutil")
      (hx : exec (prepareFs files (n + 1) config) w = (.ok (), w')) :
      Managed label A (its ++ config.items (imageName w.host files)) w'.store
  | updated {files : String → Option Bytes} {n : ℕ} {path : String} {w w' : World} {its : List Item}
      (h : Managed label A its w.store) (hx : exec (updatePython files (n + 1) path) w = (.ok (), w')) :
      Managed label A (its ++ [.blob "python" (imageName w.host files path)]) w'.store
  | used {s₀ s : Sys} {its : List Item} (h : Managed label A its s₀.world.store) (hinit : s₀.Initial)
      (hlabels : ∀ i, canFlowTo publicLabel (s₀.threads i).currentLabel)
      (hrun : Sys.Run (fun _ _ _ => True) s₀ s) (hA : ∀ c ∈ s.authenticated, implies A c) :
      Managed label A its s.world.store

/-- What `Managed` comes to: the items are there. -/
structure Holding (label : Buckle) (A : Component) (its : List Item) (s : Store) : Prop where
  installed : ∃ b, Installed label its b s ∧ b.root.label = FS.emptyRoot.label
  proper : ∀ it ∈ its, it.Proper
  bounded : s.Bounded A

variable [LawfulCrate] [LawfulConj] {its : List Item} {s : Store} {w w' : World} {n : ℕ}
  {files : String → Option Bytes} {config : Config}

theorem Holding.preparedAgain (hparse : LabelCrate.parse "T,faasten" = some label)
    (h : Holding label A its w.store) (hnames : ∀ rt ∈ config.otherRuntimes, fileName rt ≠ some "fsutil")
    (hx : exec (prepareFs files (n + 1) config) w = (.ok (), w')) :
    Holding label A (its ++ config.items (imageName w.host files)) w'.store := by
  obtain ⟨b, hinstalled, hroot⟩ := h.installed
  have hbase := hinstalled.toIn
  have hhome := exec_createFaceted_again (w := { w with privilege := .dcFalse }) (n := n + 1) hbase
  unfold prepareFs at hx
  rw [hparse, exec_bind_ok (exec_unwrap_some _ _), exec_bind_ok (exec_initializeRoot_again hbase),
    exec_bind_ok (exec_setMyPrivilege ..), exec_bind_ok hhome, exec_bind_ok (exec_setMyPrivilege ..),
    exec_bind_ok (exec_parse_base _), hparse, Option.map_some, exec_bind_ok (exec_unwrap_some _ _)] at hx
  obtain ⟨kernelBlob, w₂, hkernel, hx⟩ := exec_bind_eq_ok hx
  have hgrowing : Growing label w.host A b.root its
      { w with privilege := faastenPriv, currentLabel := lub b.root.label w.currentLabel } :=
    ⟨⟨b, hinstalled, rfl⟩, h.proper, rfl, rfl, h.bounded⟩
  obtain ⟨-, rfl, hw₂⟩ := hgrowing.image (by decide) hkernel
  obtain ⟨-, v, hv, rfl⟩ := hw₂.rest hnames hx
  obtain ⟨b', hinstalled', hroot'⟩ := hv.installed
  exact ⟨⟨b', hinstalled', hroot' ▸ hroot⟩, hv.proper, hv.bounded⟩

omit [LawfulCrate] [LawfulConj] in
theorem Holding.updated {path : String} (hparse : LabelCrate.parse "T,faasten" = some label)
    (h : Holding label A its w.store) (hx : exec (updatePython files (n + 1) path) w = (.ok (), w')) :
    Holding label A (its ++ [.blob "python" (imageName w.host files path)]) w'.store := by
  obtain ⟨b, hinstalled, hroot⟩ := h.installed
  unfold updatePython at hx
  rw [exec_bind_ok (exec_setMyPrivilege ..)] at hx
  obtain ⟨name, w₁, hblob, hx⟩ := exec_bind_eq_ok hx
  obtain ⟨-, rfl, io, blobstore, rfl⟩ := localfile2blob_ok hblob
  rw [exec_bind_ok (exec_parse_base _), hparse, Option.map_some, exec_bind_ok (exec_unwrap_some _ _)] at hx
  obtain ⟨_, w₂, hexpect, hx⟩ := exec_bind_eq_ok hx
  rw [exec_setMyPrivilege] at hx
  cases hx
  have hreplace := Item.expect_ok hexpect
  obtain ⟨e, w₃, hread, hwrite⟩ := exec_bind_eq_ok hreplace
  rw [exec_readPath_name (b := b) (w := { w with privilege := faastenPriv, io, blobstore }) hinstalled.toIn]
    at hread
  obtain ⟨hentry, rfl⟩ := readPathLoop_nil hread
  split at hwrite
  · rename_i u
    let it : Item := .blob "python" (imageName w.host files path)
    obtain ⟨l, hu, -, -, rfl⟩ := Item.update_ok (show exec (it.update u) _ = _ from hwrite)
    have hname : it.Proper := by
      show "python" ≠ "fsutil"
      decide
    have hproper : ∀ it' ∈ its ++ [it], it'.Proper :=
      List.forall_mem_append.2 ⟨h.proper, List.forall_mem_singleton.2 hname⟩
    obtain ⟨rfl, hinstalled'⟩ := hinstalled.updated hproper hu hentry
    exact ⟨⟨b, hinstalled', hroot⟩, hproper, h.bounded.put rfl⟩
  · cases hwrite

/-- **Everything that has been installed is there**, whatever has been done in between. -/
theorem Managed.installed (hparse : LabelCrate.parse "T,faasten" = some label)
    (hlabel : ¬ canFlowToWithPrivilege publicLabel label A)
    (hroot : ¬ canFlowToWithPrivilege publicLabel FS.emptyRoot.label A) (h : Managed label A its s) :
    Holding label A its s := by
  induction h with
  | prepared hnew hbounded hnames hx =>
    obtain ⟨-, hbounded', -, root, hrootLabel, hproper, b, hinstalled, rfl⟩ :=
      Faasten.prepared hparse hnames hnew hbounded hx
    exact ⟨⟨b, hinstalled, hrootLabel⟩, hproper, hbounded'⟩
  | preparedAgain h hnames hx ih => exact ih.preparedAgain hparse hnames hx
  | updated h hx ih => exact ih.updated hparse hx
  | used h hinit hlabels hrun hA ih =>
    obtain ⟨b, hinstalled, hrootLabel⟩ := ih.installed
    obtain ⟨hheld, hspared⟩ := Sys.held_run hrun (Sys.held_initial hinit hlabels ih.bounded) hA
    obtain ⟨b', hinstalled', hroot'⟩ := hinstalled.later (Sys.store_kept hrun) hspared hlabel (hrootLabel ▸ hroot)
    exact ⟨⟨b', hinstalled', hroot' ▸ hrootLabel⟩, ih.proper, (hheld.covered.views 0).stored⟩

/-- **What is booted is what was installed.** In every history of administration and use, a runtime or a kernel is
read as the image that was installed last under its name, and `fsutil` resolves to the function that it was
installed with last: whoever reads, and whatever the users have done. -/
theorem booted_as_installed (hparse : LabelCrate.parse "T,faasten" = some label)
    (hlabel : ¬ canFlowToWithPrivilege publicLabel label A)
    (hroot : ¬ canFlowToWithPrivilege publicLabel FS.emptyRoot.label A) (h : Managed label A its w.store) :
    (∀ name blobName, Item.latestBlob name its = some blobName →
      (exec (getRuntimeBlob (n + 1) name) w).1 = .ok blobName) ∧
    (∀ blobName, Item.latestBlob "kernel" its = some blobName →
      (exec (getKernelBlob (n + 1)) w).1 = .ok blobName) ∧
    ∀ g, Item.latestGate its = some g →
      (exec (resolveGateWithClearanceCheck (n + 1) (fsutilPath label)) w).1 =
        .ok (g.function, LabelCrate.and .dcTrue .dcTrue) := by
  obtain ⟨⟨b, hinstalled, -⟩, hproper, -⟩ := h.installed hparse hlabel hroot
  have hblobs : ∀ name blobName, Item.latestBlob name its = some blobName →
      (exec (getRuntimeBlob (n + 1) name) w).1 = .ok blobName := by
    intro name blobName hlatest
    obtain ⟨before, after, rfl, hafter⟩ := Item.latestBlob_split hproper hlatest
    obtain ⟨u, hentry, hu⟩ := hinstalled.last hafter
    have hread := exec_readPath_name (n := n) hinstalled.toIn name
    rw [show b.contents.data.entries[name]? = some (.blob u) from hentry] at hread
    have hopen : exec (FS.openBlob (n + 1) (basePath label ++ [.dscrp name])) w =
        (.ok blobName, (w.relabel (b.taint w.currentLabel)).relabel (lub label (b.taint w.currentLabel))) := by
      unfold FS.openBlob
      rw [exec_bind_ok hread]
      exact ObjectRef.exec_read_encode (w := w.relabel (b.taint w.currentLabel)) hu
    unfold getRuntimeBlob
    rw [exec_bind_ok (exec_parse_base w), hparse, Option.map_some, exec_bind_ok (exec_unwrap_some _ _),
      Item.exec_expect hopen]
  refine ⟨hblobs, hblobs "kernel", fun g hlatest => ?_⟩
  obtain ⟨before, after, rfl, hafter⟩ := Item.latestGate_split hproper hlatest
  obtain ⟨u, hentry, hu⟩ := hinstalled.last hafter
  have hgate : g = fsutilGate g.function := hproper (.gate g) (by simp)
  have hpriv : g.privilege = .dcTrue := congrArg DirectGate.privilege hgate
  have hclearance : g.invokerIntegrityClearance = .dcTrue :=
    congrArg DirectGate.invokerIntegrityClearance hgate
  have hread := exec_readPath_name (n := n) hinstalled.toIn "fsutil"
  rw [show b.contents.data.entries["fsutil"]? = some (.gate u) from hentry] at hread
  let v := (w.relabel (b.taint w.currentLabel)).relabel (lub label (b.taint w.currentLabel))
  have hresolve : exec (Gate.toInvokable (n + 1) u) (w.relabel (b.taint w.currentLabel)) =
      (.ok { privilege := LabelCrate.and .dcTrue .dcTrue
             invokerIntegrityClearance := LabelCrate.and .dcTrue .dcTrue
             declassify := .dcTrue
             function := g.function }, v) := by
    unfold Gate.toInvokable
    rw [exec_bind_ok (ObjectRef.exec_read_encode (w := w.relabel (b.taint w.currentLabel)) hu)]
    unfold Gate.toInvokableLoop
    rw [exec_pure, hpriv, hclearance]
    rfl
  have hinvoke : implies w.privilege (LabelCrate.and .dcTrue .dcTrue) :=
    LawfulConj.implies_and (LawfulConj.implies_true _) (LawfulConj.implies_true _)
  unfold resolveGateWithClearanceCheck
  change (exec (FS.readPath (n + 1) (basePath label ++ [.dscrp "fsutil"]) >>= _) w).1 = _
  rw [exec_bind_ok hread]
  dsimp only
  rw [exec_bind_ok hresolve, exec_bind_ok (exec_getPrivilege _)]
  dsimp only
  rw [if_pos (show implies v.privilege _ from hinvoke)]
  rfl

end History

namespace NewPython

open scoped Dc
open SecondPreparation

/-- The Python runtime is replaced after `alice` and `bob` have logged in. -/
def updated : World := (exec (updatePython files 1 "python3.13.img") (world used.world.store)).2

theorem updated_ok :
    exec (updatePython files 1 "python3.13.img") (world used.world.store) = (.ok (), updated) := by
  refine Prod.ext ?_ ?_
  · decide +kernel
  · rw [updated]

/-- Images are read on a new thread. -/
def now : World := .quiet (.idle publicLabel) updated.store

/-- It finds the new runtime and the old kernel; `fsutil` keeps the runtime that it was installed with. -/
theorem new_python_read : (exec (getRuntimeBlob 1 "python") now).1 = .ok "14" ∧
    (exec (getKernelBlob 1) now).1 = .ok "7" ∧
    ∃ g : DirectGate, g.function.runtimeImage = "11" ∧
      (exec (resolveGateWithClearanceCheck 1 (fsutilPath ⟨.dcTrue, .single ["faasten"]⟩)) now).1 =
        .ok (g.function, LabelCrate.and .dcTrue .dcTrue) := by
  have hparse : LabelCrate.parse "T,faasten" = some ⟨.dcTrue, .single ["faasten"]⟩ := by decide +kernel
  have hnames : ∀ rt ∈ config.otherRuntimes, fileName rt ≠ some "fsutil" := by decide +kernel
  have hnone : (world .empty).store.Bounded users := by
    intro u o q hu
    cases hu
  have hfirst : exec (prepareFs files 1 config) (world .empty) = (.ok (), first.2) := Prod.ext first_ok rfl
  have hrun : Sys.Run (fun _ _ _ => True) system used :=
    (Sys.Run.start.step 0 (.login 3 "alice") trivial trivial).step 1 (.login 3 "bob") trivial trivial
  have hauth : ∀ c ∈ used.authenticated, implies users c := by decide +kernel
  have hinit : system.Initial := ⟨rfl, rfl, rfl, fun _ => rfl⟩
  have hprepared : Managed ⟨.dcTrue, .single ["faasten"]⟩ users
      (config.items (imageName (world .empty).host files)) first.2.store := .prepared rfl hnone hnames hfirst
  have hstart : Managed ⟨.dcTrue, .single ["faasten"]⟩ users
      (config.items (imageName (world .empty).host files)) system.world.store := hprepared
  have hused : Managed ⟨.dcTrue, .single ["faasten"]⟩ users
      (config.items (imageName (world .empty).host files)) used.world.store :=
    .used hstart hinit (fun _ => LawfulCrate.flow_refl _) hrun hauth
  have hhistory : Managed ⟨.dcTrue, .single ["faasten"]⟩ users
      (config.items (imageName (world .empty).host files) ++
        [.blob "python" (imageName (world used.world.store).host files "python3.13.img")]) updated.store :=
    .updated hused updated_ok
  have hnow : now.store = updated.store := rfl
  rw [← hnow] at hhistory
  obtain ⟨hblobs, hkernel, hgates⟩ :=
    booted_as_installed (n := 0) hparse (by decide +kernel) (by decide +kernel) hhistory
  exact ⟨hblobs "python" "14" (by decide +kernel), hkernel "7" (by decide +kernel), _, rfl,
    hgates (fsutilGate (config.function (imageName (world .empty).host files))) (by decide +kernel)⟩

end NewPython

end Faasten
