import Mathlib
import Faasten.Bootstrap
import Faasten.Prepare.Items

/-!
# Where things are installed

The directory `home:<T,faasten>` is found by way of the root and of the faceted directory `home` (`Base`).
`Installed` says of it that it holds the items of a list, and nothing else, and that to write them all once
more would change nothing.

* `Fresh.install`: the first item is installed in a facet that is allocated for it;
* `Installed.install`: one more item is installed;
* `Installed.exec_install`: an item that is there is installed again.
-/

namespace Faasten

open Std Effect

/-! ### The way to the directory -/

/-- `home:<T,faasten>` -/
def basePath (facet : Buckle) : Path := [.dscrp "home", .facet facet]

/-- The directories on the way to `home:<T,faasten>`. -/
structure Base where
  root : Labeled Directory
  home : Uid
  facets : FacetedDirectory
  dir : Uid
  contents : Labeled Directory

namespace Base

/-- They are stored, and each leads to the next. -/
structure In (b : Base) (label : Buckle) (s : Store) : Prop where
  root_stored : s FS.rootRef = some (.encode b.root)
  home_entry : b.root.data.entries["home"]? = some (.facetedDirectory b.home)
  facets_stored : s b.home = some (.encode b.facets)
  found : b.facets.find label = some b.dir
  dir_stored : s b.dir = some (.encode b.contents)
  apart : b.dir ≠ FS.rootRef

variable {b : Base} {label : Buckle} {s s' : Store} {it : Item} {u : Uid}

/-- They are not the object of an item. -/
theorem In.ne (h : b.In label s) (hu : it.HeldAt s u label) : u ≠ FS.rootRef ∧ u ≠ b.home ∧ u ≠ b.dir :=
  ⟨hu.ne h.root_stored (by constructor <;> intro hk <;> cases hk),
    hu.ne h.facets_stored (by constructor <;> intro hk <;> cases hk),
    hu.ne h.dir_stored (by constructor <;> intro hk <;> cases hk)⟩

theorem In.congr (h : b.In label s) (hroot : s' FS.rootRef = s FS.rootRef) (hhome : s' b.home = s b.home)
    (hdir : s' b.dir = s b.dir) : b.In label s' :=
  { h with
    root_stored := hroot.trans h.root_stored
    facets_stored := hhome.trans h.facets_stored
    dir_stored := hdir.trans h.dir_stored }

/-- The home of the facets is neither of the two directories. -/
theorem In.home_ne (h : b.In label s) : b.home ≠ FS.rootRef ∧ b.home ≠ b.dir := by
  constructor <;> intro heq
  · cases (heq ▸ h.facets_stored).symm.trans h.root_stored
  · cases (heq ▸ h.facets_stored).symm.trans h.dir_stored

end Base

section Walk

variable [LabelCrate] {b : Base} {label : Buckle} {w w' : World} {it : Item} {n : ℕ}

theorem exec_parse_base (w : World) :
    exec (Path.parse "home:<T,faasten>") w = (.ok ((LabelCrate.parse "T,faasten").map basePath), w) := by
  have hsplit : (Path.trim "home:<T,faasten>".toList).splitOn ':' =
      ["home".toList, "<T,faasten>".toList] := by decide
  have hhome : exec (Path.parseComponent "home".toList) w = (.ok (some (.dscrp "home")), w) := rfl
  have hfacet : exec (Path.parseComponent "<T,faasten>".toList) w =
      (.ok ((LabelCrate.parse "T,faasten").map .facet), w) := rfl
  have hcomponents : exec (Path.parseComponents ["home".toList, "<T,faasten>".toList]) w =
      (.ok ((LabelCrate.parse "T,faasten").map basePath), w) := by
    simp only [Path.parseComponents, exec_bind, hhome, hfacet]
    cases LabelCrate.parse "T,faasten" <;> rfl
  unfold Path.parse
  rw [hsplit]
  exact hcomponents

/-- The label of a thread that has walked there and listed the directory. -/
def Base.taint (b : Base) (l : Buckle) : Buckle := lub b.contents.label (lub b.root.label l)

/-- A path that goes on from the directory. -/
theorem exec_readPath_below (h : b.In label w.store) (path : Path) :
    exec (FS.readPath (n + 1) (basePath label ++ path)) w =
      exec (FS.readPathLoop (n + 1) (some (.directory b.dir)) path)
        (w.relabel (lub b.root.label w.currentLabel)) := by
  have hroot : exec FS.root w = (.ok b.root, w) := by
    rw [FS.exec_root, decode_of_eq h.root_stored]
    rfl
  have hopen := exec_open_found (w := w.relabel (lub b.root.label w.currentLabel)) n h.facets_stored h.found
  unfold basePath FS.readPath
  rw [List.cons_append, List.cons_append, List.nil_append]
  dsimp only
  rw [exec_bind_ok hroot, exec_bind_ok (Labeled.exec_unlabel ..)]
  simp only [h.home_entry]
  rw [FS.readPathLoop, exec_bind_ok hopen]

theorem exec_readPath_base (h : b.In label w.store) :
    exec (FS.readPath (n + 1) (basePath label)) w =
      (.ok (.directory b.dir), w.relabel (lub b.root.label w.currentLabel)) := exec_readPath_below h []

/-- A path to an entry. -/
theorem exec_readPath_name (h : b.In label w.store) (name : String) :
    exec (FS.readPath (n + 1) (basePath label ++ [.dscrp name])) w =
      exec (FS.readPathLoop (n + 1) b.contents.data.entries[name]? []) (w.relabel (b.taint w.currentLabel)) := by
  have hlist := Directory.exec_list (w := w.relabel (lub b.root.label w.currentLabel))
    (decode_of_eq h.dir_stored)
  rw [exec_readPath_below h, FS.readPathLoop, exec_bind_ok hlist]
  rfl

theorem exec_install (h : b.In label w.store) :
    exec (it.install (n + 1) (basePath label) label) w =
      exec (createOrUpdateFound it.ref it.update (it.make (n + 1) label) (n + 1) b.dir it.name
        b.contents.data.entries[it.name]?) (w.relabel (b.taint w.currentLabel)) := by
  have hlist := Directory.exec_list (w := w.relabel (lub b.root.label w.currentLabel))
    (decode_of_eq h.dir_stored)
  unfold Item.install createOrUpdate
  rw [exec_bind_ok (exec_readPath_base h), exec_bind_ok hlist]
  rfl

omit [LabelCrate] in
/-- Initializing again finds the root. -/
theorem exec_initializeRoot_again (h : b.In label w.store) : exec FS.initializeRoot w = (.ok false, w) := by
  unfold FS.initializeRoot
  rw [exec_add, if_neg]
  rw [h.root_stored]
  exact Option.some_ne_none _

/-- Making `home` again finds it there. -/
theorem exec_createFaceted_again (h : b.In label w.store) :
    exec (result (createFaceted n [] "home")) w =
      (.ok (.error .nameExists), w.relabel (lub b.root.label w.currentLabel)) := by
  have hlist : exec (FS.listDir n []) w =
      (.ok b.root.data.entries, w.relabel (lub b.root.label w.currentLabel)) :=
    Directory.exec_list (decode_of_eq h.root_stored)
  have hcontains : b.root.data.entries.contains "home" = true := by
    rw [← ExtTreeMap.isSome_getElem?_eq_contains, h.home_entry]
    rfl
  unfold createFaceted
  rw [exec_result, exec_bind_ok hlist, hcontains]
  rfl

end Walk

/-! ### Writing all items once more -/

namespace Item

variable {it it' : Item} {its its' : List Item} {label : Buckle} {d d' : Directory} {s s' : Store} {u x : Uid}

/-- A blob that is not called `fsutil`, or the gate that anyone may invoke and that grants nothing. -/
def Proper : Item → Prop
  | .blob name _ => name ≠ "fsutil"
  | .gate g => g = fsutilGate g.function

/-- Items of the same name are of the same kind. -/
theorem Proper.alike (h : it.Proper) (h' : it'.Proper) (hname : it.name = it'.name) : it.entry = it'.entry := by
  cases it <;> cases it'
  · rfl
  · exact absurd hname h
  · exact absurd hname.symm h'
  · rfl

theorem Proper.allowed [LabelCrate] [LawfulConj] {p : Component} (h : it.Proper) : it.Allowed p := by
  cases it with
  | blob name blobName => trivial
  | gate g =>
    rw [Proper] at h
    rw [h]
    exact LawfulConj.implies_true p

/-- The object that the directory has for the item. -/
def place (it : Item) (d : Directory) : Option Uid := (d.entries[it.name]?).bind it.ref

theorem place_of_entry (h : d.entries[it.name]? = some (it.entry u)) : it.place d = some u := by
  unfold place
  rw [h, Option.bind_some, ref_entry]

/-- The object is written once more. -/
def redo (label : Buckle) (d : Directory) (s : Store) (it : Item) : Store :=
  match it.place d with
  | some u => s.put u (it.object label)
  | none => s

theorem redo_of_place (h : it.place d = some u) : redo label d s it = s.put u (it.object label) := by
  unfold redo
  rw [h]

/-- All objects are written once more. -/
def rewrite (label : Buckle) (d : Directory) (its : List Item) (s : Store) : Store := its.foldl (redo label d) s

@[simp] theorem rewrite_cons (it : Item) (its : List Item) (s : Store) :
    rewrite label d (it :: its) s = rewrite label d its (redo label d s it) := rfl

theorem rewrite_append (its its' : List Item) (s : Store) :
    rewrite label d (its ++ its') s = rewrite label d its' (rewrite label d its s) := List.foldl_append

theorem redo_of_none (h : it.place d = none) : redo label d s it = s := by
  unfold redo
  rw [h]

theorem redo_of_ne (h : it.place d ≠ some x) : redo label d s it x = s x := by
  rcases hplace : it.place d with _ | u
  · rw [redo_of_none hplace]
  · rw [redo_of_place hplace]
    exact Store.put_of_ne _ _ fun hx => h (hx ▸ hplace)

theorem redo_congr (h : s x = s' x) : redo label d s it x = redo label d s' it x := by
  rcases hplace : it.place d with _ | u
  · rw [redo_of_none hplace, redo_of_none hplace, h]
  · rw [redo_of_place hplace, redo_of_place hplace]
    by_cases hx : x = u
    · rw [hx, Store.put_self, Store.put_self]
    · rw [Store.put_of_ne _ _ hx, Store.put_of_ne _ _ hx, h]

/-- Other objects stay as they are. -/
theorem rewrite_of_ne (h : ∀ it ∈ its, it.place d ≠ some x) : rewrite label d its s x = s x := by
  induction its generalizing s with
  | nil => rfl
  | cons it its ih =>
    rw [rewrite_cons, ih fun it' hit => h it' (List.mem_cons_of_mem _ hit)]
    exact redo_of_ne (h it List.mem_cons_self)

/-- What an object becomes depends on this object only. -/
theorem rewrite_congr (h : s x = s' x) : rewrite label d its s x = rewrite label d its s' x := by
  induction its generalizing s s' with
  | nil => exact h
  | cons it its ih => exact ih (redo_congr h)

theorem rewrite_places (h : ∀ it ∈ its, it.place d' = it.place d) :
    rewrite label d' its s = rewrite label d its s := by
  induction its generalizing s with
  | nil => rfl
  | cons it its ih =>
    have hredo : redo label d' s it = redo label d s it := by
      unfold redo
      rw [h it List.mem_cons_self]
    rw [rewrite_cons, rewrite_cons, hredo]
    exact ih fun it' hit => h it' (List.mem_cons_of_mem _ hit)

end Item

/-! ### What is there after some installations -/

/-- The directory holds the items, and nothing else. -/
structure Installed (label : Buckle) (its : List Item) (b : Base) (s : Store) : Prop extends b.In label s where
  dir_label : b.contents.label = label
  held : ∀ it ∈ its, ∃ u, b.contents.data.entries[it.name]? = some (it.entry u) ∧ it.HeldAt s u label
  only : ∀ name e, b.contents.data.entries[name]? = some e → ∃ it ∈ its, it.name = name
  distinct : ∀ it ∈ its, ∀ it' ∈ its, it.place b.contents.data = it'.place b.contents.data → it.name = it'.name
  settled : Item.rewrite label b.contents.data its s = s

/-- The last item of a name is what is stored for it. -/
theorem Installed.last {label : Buckle} {before after : List Item} {it : Item} {b : Base} {s : Store}
    (h : Installed label (before ++ it :: after) b s) (hlast : ∀ it' ∈ after, it'.name ≠ it.name) :
    ∃ u, b.contents.data.entries[it.name]? = some (it.entry u) ∧ s u = some (it.object label) := by
  have hmem : it ∈ before ++ it :: after := by simp
  obtain ⟨u, hentry, -⟩ := h.held it hmem
  have hplace : it.place b.contents.data = some u := Item.place_of_entry hentry
  refine ⟨u, hentry, ?_⟩
  have hsettled := congrFun h.settled u
  rw [Item.rewrite_append, Item.rewrite_cons, Item.redo_of_place hplace, Item.rewrite_of_ne, Store.put_self]
    at hsettled
  · exact hsettled.symm
  · intro it' hit' hplace'
    exact hlast it' hit' (h.distinct it' (by simp [hit']) it hmem (hplace'.trans hplace.symm))

section Steps

variable {b : Base} {label : Buckle} {w w' : World} {it : Item} {its : List Item} {n : ℕ}

/-- An item is written over one that is there. -/
theorem Installed.updated {s : Store} {u : Uid} {l : Buckle} (h : Installed label its b s)
    (hproper : ∀ it' ∈ its ++ [it], it'.Proper) (hu : it.HeldAt s u l)
    (hentry : b.contents.data.entries[it.name]? = some (it.entry u)) :
    l = label ∧ Installed label (its ++ [it]) b (s.put u (it.object label)) := by
  -- an item of this name is there; it is of the same kind, so the entry leads to its object
  obtain ⟨it₀, hmem, hname⟩ := h.only _ _ hentry
  obtain ⟨u₀, hentry₀, hu₀⟩ := h.held it₀ hmem
  have halike : it.entry = it₀.entry := (hproper it (by simp)).alike (hproper it₀ (by simp [hmem])) hname.symm
  obtain rfl : u₀ = u := by
    rw [hname, hentry, ← halike] at hentry₀
    have href := congrArg it.ref (Option.some.inj hentry₀)
    rw [Item.ref_entry, Item.ref_entry] at href
    exact (Option.some.inj href).symm
  obtain rfl : l = label := Option.some.inj (hu.label.symm.trans hu₀.label)
  obtain ⟨hroot, hhome, hdir⟩ := h.toIn.ne hu
  have hplace : it.place b.contents.data = some u₀ := Item.place_of_entry hentry
  refine ⟨rfl, ⟨h.toIn.congr (Store.put_of_ne _ _ hroot.symm) (Store.put_of_ne _ _ hhome.symm)
    (Store.put_of_ne _ _ hdir.symm), h.dir_label, ?_, ?_, ?_, ?_⟩⟩
  · intro it' hit'
    rcases List.mem_append.1 hit' with hit' | hit'
    · obtain ⟨u', hentry', hu'⟩ := h.held it' hit'
      refine ⟨u', hentry', ?_⟩
      by_cases heq : u' = u₀
      · subst heq
        exact hu.put hu'
      · exact hu'.congr (Store.put_of_ne _ _ heq)
    · obtain rfl := List.mem_singleton.1 hit'
      exact ⟨u₀, hentry, Item.heldAt_object ..⟩
  · intro name e he
    obtain ⟨it', hit', hname'⟩ := h.only name e he
    exact ⟨it', List.mem_append_left _ hit', hname'⟩
  · -- the item stands for the one of its name that is there
    have holder : ∀ it' ∈ its ++ [it], ∃ it'' ∈ its, it''.name = it'.name ∧
        it''.place b.contents.data = it'.place b.contents.data := by
      intro it' hit'
      rcases List.mem_append.1 hit' with hit' | hit'
      · exact ⟨it', hit', rfl, rfl⟩
      · obtain rfl := List.mem_singleton.1 hit'
        refine ⟨it₀, hmem, hname, ?_⟩
        rw [hplace]
        refine Item.place_of_entry ?_
        rw [hname, hentry, halike]
    intro it₁ hit₁ it₂ hit₂ hsame
    obtain ⟨it₁', hit₁', hname₁, hplace₁⟩ := holder it₁ hit₁
    obtain ⟨it₂', hit₂', hname₂, hplace₂⟩ := holder it₂ hit₂
    have hnames := h.distinct it₁' hit₁' it₂' hit₂' (hplace₁.trans (hsame.trans hplace₂.symm))
    exact hname₁.symm.trans (hnames.trans hname₂)
  · funext x
    rw [Item.rewrite_append, Item.rewrite_cons, Item.redo_of_place hplace]
    change (Store.put _ u₀ _) x = _
    by_cases hx : x = u₀
    · rw [hx, Store.put_self, Store.put_self]
    · have hsame : s.put u₀ (it.object l) x = s x := Store.put_of_ne _ _ hx
      rw [Store.put_of_ne _ _ hx, Item.rewrite_congr hsame, h.settled, hsame]

variable [LabelCrate] {A : Component}

/-- An item is added under a new name. -/
theorem Installed.added {s s' : Store} {u : Uid} {d : Labeled Directory} (h : Installed label its b s)
    (hproper : ∀ it' ∈ its ++ [it], it'.Proper) (hfree : s u = none)
    (hentry : it.place b.contents.data = none) (hplaced : it.Placed label b.dir w w' b.contents d u label)
    (hs : w.store = s) (hs' : w'.store = s') :
    Installed label (its ++ [it]) { b with contents := d } s' := by
  subst hs hs'
  -- an item of this name would be of the same kind, and there would be a place for it
  have hne : ∀ it' ∈ its, it'.name ≠ it.name := by
    intro it' hit' hname
    obtain ⟨u', hentry', -⟩ := h.held it' hit'
    rw [hname, (hproper it' (by simp [hit'])).alike (hproper it (by simp)) hname] at hentry'
    rw [Item.place_of_entry hentry'] at hentry
    cases hentry
  have hold : ∀ x, x ≠ b.dir → w.store x ≠ none → w'.store x = w.store x := by
    intro x hx hstored
    refine hplaced.frame x ?_ hx
    rintro rfl
    exact hstored hfree
  have hplaces : ∀ it' ∈ its, it'.place d.data = it'.place b.contents.data := by
    intro it' hit'
    unfold Item.place
    rw [hplaced.others _ (hne it' hit')]
  refine ⟨⟨?_, h.home_entry, ?_, h.found, hplaced.stored, h.apart⟩, hplaced.label_eq.trans h.dir_label,
    ?_, ?_, ?_, ?_⟩
  · exact (hold _ h.apart.symm (by rw [h.root_stored]; exact Option.some_ne_none _)).trans h.root_stored
  · exact (hold _ h.home_ne.2 (by rw [h.facets_stored]; exact Option.some_ne_none _)).trans h.facets_stored
  · intro it' hit'
    rcases List.mem_append.1 hit' with hit' | hit'
    · obtain ⟨u', hentry', hu'⟩ := h.held it' hit'
      refine ⟨u', (hplaced.others _ (hne it' hit')).trans hentry', hu'.congr (hold _ (h.toIn.ne hu').2.2 ?_)⟩
      intro hnone
      have hlabel := hu'.label
      rw [hnone] at hlabel
      cases hlabel
    · obtain rfl := List.mem_singleton.1 hit'
      exact ⟨u, hplaced.entry, (Item.heldAt_object it' w'.store u label).congr
        (hplaced.object.trans (Store.put_self ..).symm)⟩
  · intro name e he
    by_cases hname : name = it.name
    · exact ⟨it, by simp, hname.symm⟩
    · obtain ⟨it', hit', hname'⟩ := h.only name e ((hplaced.others name hname).symm.trans he)
      exact ⟨it', List.mem_append_left _ hit', hname'⟩
  · have hnew : it.place d.data = some u := Item.place_of_entry hplaced.entry
    have hapart : ∀ it' ∈ its, it'.place d.data ≠ it.place d.data := by
      intro it' hit' hsame
      obtain ⟨u', hentry', hu'⟩ := h.held it' hit'
      rw [hplaces it' hit', Item.place_of_entry hentry', hnew] at hsame
      cases hsame
      have hlabel := hu'.label
      rw [hfree] at hlabel
      cases hlabel
    intro it₁ hit₁ it₂ hit₂ hsame
    rcases List.mem_append.1 hit₁ with hold₁ | hnew₁ <;> rcases List.mem_append.1 hit₂ with hold₂ | hnew₂
    · rw [hplaces it₁ hold₁, hplaces it₂ hold₂] at hsame
      exact h.distinct it₁ hold₁ it₂ hold₂ hsame
    · rw [List.mem_singleton.1 hnew₂] at hsame
      exact absurd hsame (hapart it₁ hold₁)
    · rw [List.mem_singleton.1 hnew₁] at hsame
      exact absurd hsame.symm (hapart it₂ hold₂)
    · rw [List.mem_singleton.1 hnew₁, List.mem_singleton.1 hnew₂]
  · funext x
    rw [Item.rewrite_append, Item.rewrite_cons, Item.redo_of_place (Item.place_of_entry hplaced.entry)]
    change (Store.put _ u _) x = _
    by_cases hx : x = u
    · rw [hx, Store.put_self, hplaced.object]
    rw [Store.put_of_ne _ _ hx, Item.rewrite_places hplaces]
    by_cases hdir : x = b.dir
    · -- the directory is not one of the objects
      refine Item.rewrite_of_ne fun it' hit' hplace => ?_
      obtain ⟨u', hentry', hu'⟩ := h.held it' hit'
      rw [Item.place_of_entry hentry'] at hplace
      exact (h.toIn.ne hu').2.2 ((Option.some.inj hplace).trans hdir)
    · rw [Item.rewrite_congr (hplaced.frame x hx hdir), h.settled, hplaced.frame x hx hdir]

variable [LawfulCrate]

/-- **One more item is installed.** -/
theorem Installed.install (h : Installed label its b w.store) (hproper : ∀ it' ∈ its ++ [it], it'.Proper)
    (hx : exec (it.install (n + 1) (basePath label) label) w = (.ok (), w')) :
    ∃ b', Installed label (its ++ [it]) b' w'.store ∧ b'.root = b.root ∧
      canFlowToWithPrivilege (b.taint w.currentLabel) label w.privilege ∧ w'.privilege = w.privilege ∧
      (it.Bounded A → w.store.Bounded A → w'.store.Bounded A) := by
  rw [exec_install h.toIn] at hx
  obtain ⟨d, u, l, hplaced⟩ := Item.found_ok (w := w.relabel (b.taint w.currentLabel)) h.dir_stored hx
  rcases hplaced.source with ⟨rfl, hu, hentry⟩ | ⟨hfree, rfl, hentry⟩
  · obtain ⟨rfl, hinstalled⟩ := h.updated hproper hu hentry
    have hstore : w'.store = w.store.put u (it.object l) := by
      funext x
      by_cases hxu : x = u
      · rw [hxu, hplaced.object, Store.put_self]
      · rw [Store.put_of_ne _ _ hxu]
        by_cases hxd : x = b.dir
        · rw [hxd, hplaced.stored, h.dir_stored]
        · exact hplaced.frame x hxu hxd
    exact ⟨b, hstore ▸ hinstalled, rfl, hplaced.flows, hplaced.privilege, hplaced.bounded⟩
  · exact ⟨_, h.added hproper hfree hentry hplaced rfl rfl, rfl, hplaced.flows, hplaced.privilege,
      hplaced.bounded⟩

/-! ### The first item -/

/-- `home` has been made, and has no facet for the label yet. -/
structure Fresh (label : Buckle) (root : Labeled Directory) (s : Store) : Prop where
  root_stored : s FS.rootRef = some (.encode root)
  home : ∃ home facets, root.data.entries["home"]? = some (.facetedDirectory home) ∧
    s home = some (.encode facets) ∧ FacetedDirectory.find facets label = none

variable {root : Labeled Directory}

omit [LawfulCrate] in
/-- Walking to the directory allocates it; there is nothing in it. -/
theorem Fresh.allocate (h : Fresh label root w.store)
    (hx : exec (it.install n (basePath label) label) w = (.ok (), w')) :
    ∃ b v k, n = k + 1 ∧ Installed label [] b v.store ∧ b.root = root ∧ v.toThread = w.toThread ∧
      (w.store.Bounded A → v.store.Bounded A) ∧ exec (it.install n (basePath label) label) v = (.ok (), w') := by
  obtain ⟨home, facets, hhome, hfacets, hfind⟩ := h.home
  have hroot : exec FS.root w = (.ok root, w) := by
    rw [FS.exec_root, decode_of_eq h.root_stored]
    rfl
  have hwalk : exec (FS.readPath n (basePath label)) w =
      exec (FacetedDirectory.open' n home label >>= fun dir => pure (.directory dir))
        (w.relabel (lub root.label w.currentLabel)) := by
    unfold basePath FS.readPath
    rw [exec_bind_ok hroot, exec_bind_ok (Labeled.exec_unlabel ..)]
    simp only [hhome]
    rfl
  obtain ⟨r, hr⟩ | ⟨u, r, hu, hopen⟩ := exec_open_new (w := w.relabel (lub root.label w.currentLabel)) n
    hfacets hfind
  · unfold Item.install createOrUpdate at hx
    rw [exec_bind_error (hwalk.trans (exec_bind_error hr))] at hx
    cases hx
  rcases n with _ | k
  · cases hopen
  have hu : w.store u = none := hu
  have hne : ∀ x, w.store x ≠ none → x ≠ u := by
    rintro x hstored rfl
    exact hstored hu
  have hroot_u := hne FS.rootRef (by rw [h.root_stored]; exact Option.some_ne_none _)
  have hhome_u := hne home (by rw [hfacets]; exact Option.some_ne_none _)
  have hhome_root : home ≠ FS.rootRef := by
    rintro rfl
    cases hfacets.symm.trans h.root_stored
  -- the world in which the facet is there, and the rest is as in `w`
  let v : World :=
    { w with
      rand := r
      store := (w.store.put u (.encode (⟨label, {}⟩ : Labeled Directory))).put home
        (.encode (FacetedDirectory.push facets label u)) }
  let b : Base := ⟨root, home, FacetedDirectory.push facets label u, u, ⟨label, {}⟩⟩
  have hbase : b.In label v.store := by
    refine ⟨?_, hhome, Store.put_self .., ?_, ?_, hroot_u.symm⟩
    · exact (Store.put_of_ne _ _ hhome_root.symm).trans ((Store.put_of_ne _ _ hroot_u).trans h.root_stored)
    · show (FacetedDirectory.push facets label u).find label = some u
      rw [FacetedDirectory.find_push, hfind, Option.none_or, if_pos rfl]
    · exact (Store.put_of_ne _ _ hhome_u.symm).trans (Store.put_self ..)
  refine ⟨b, v, k, rfl, ⟨hbase, rfl, ?_, ?_, ?_, rfl⟩, rfl, rfl, ?_, ?_⟩
  · intro it' hit'
    cases hit'
  · intro name e he
    simp [b] at he
  · intro it' hit'
    cases hit'
  · intro hbounded
    exact (hbounded.put rfl).put rfl
  · have hthere := exec_readPath_base (n := k) (w := v) hbase
    have hhere := hwalk.trans (exec_bind_ok hopen)
    unfold Item.install createOrUpdate at hx ⊢
    rw [exec_bind_ok hhere] at hx
    rw [exec_bind_ok hthere]
    exact hx

/-- **The first item is installed.** -/
theorem Fresh.install (h : Fresh label root w.store) (hproper : it.Proper)
    (hx : exec (it.install n (basePath label) label) w = (.ok (), w')) :
    ∃ b k, n = k + 1 ∧ Installed label [it] b w'.store ∧ b.root = root ∧
      canFlowToWithPrivilege (lub label (lub root.label w.currentLabel)) label w.privilege ∧
      w'.privilege = w.privilege ∧ (it.Bounded A → w.store.Bounded A → w'.store.Bounded A) := by
  obtain ⟨b, v, k, rfl, hinstalled, rfl, hthread, hbounded, hx⟩ := h.allocate (A := A) hx
  obtain ⟨b', hinstalled', hroot, hflow, hprivilege, hbounded'⟩ :=
    hinstalled.install (A := A) (by simpa using hproper) hx
  have hlabel : v.currentLabel = w.currentLabel := congrArg Thread.currentLabel hthread
  have hpriv : v.privilege = w.privilege := congrArg Thread.privilege hthread
  rw [Base.taint, hinstalled.dir_label, hlabel, hpriv] at hflow
  exact ⟨b', k, rfl, hinstalled', hroot, hflow, hprivilege.trans hpriv,
    fun hit hw => hbounded' hit (hbounded hw)⟩

end Steps

/-! ### Installing again -/

section Again

variable [LabelCrate] {b : Base} {label : Buckle} {w : World} {it : Item} {its : List Item} {u : Uid} {n : ℕ}

/-- An item that is there is written once more. -/
theorem Base.In.exec_install (h : b.In label w.store)
    (hentry : b.contents.data.entries[it.name]? = some (it.entry u)) (hu : it.HeldAt w.store u label)
    (hflow : canFlowToWithPrivilege (b.taint w.currentLabel) label w.privilege)
    (hallowed : it.Allowed w.privilege) :
    exec (it.install (n + 1) (basePath label) label) w = (.ok (), { w.relabel (b.taint w.currentLabel) with
      store := Item.redo label b.contents.data w.store it }) := by
  rw [Faasten.exec_install h, Item.redo_of_place (Item.place_of_entry hentry)]
  exact Item.exec_found (w := w.relabel (b.taint w.currentLabel)) hentry hu hflow hallowed

end Again

end Faasten
