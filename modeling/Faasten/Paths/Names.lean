import Mathlib
import Faasten.Paths.Walks

/-!
# What `link` and `rm` do to paths

Directories form an arbitrary graph: a directory can be linked in several places, and in itself. So one
change of a directory is seen through any number of paths, the base path of the call among them.

* `Walks.again`: a walk that is taken again leads to the same entry and allocates nothing more;
* `Space.Updates`, a change of one name in one directory: `Walks.updated` says that a walk which does not
  look up that name stays as it is, and `Walks.cut` that a name which is gone is found by no path;
* `Space.Evolves`, what `link` and `rm` do to the store on the whole: facets on the way to the directory
  may be allocated too. `Walks.evolved` is the frame condition.
* `names_behave`: `FS::link` and `FS::rm` do to paths what their names say, and no more.
-/

namespace Faasten

open Std Effect

/-- The path with one name more. -/
def Path.pushDscrp (path : Path) (s : String) : Path := path ++ [.dscrp s]

/-! ### Walks again -/

section Walks

variable {s s' s₁ t : Space} {d u v : Uid} {e : DirEntry} {f : Buckle} {path : Path}
  {ls : List Lookup} {r : Option DirEntry}

/-- Directories stay as they are, and facets that are there stay. -/
structure Space.Keeps (s t : Space) : Prop where
  dirs : ∀ u (o : Labeled Directory), s.store u = some (.encode o) → t.store u = some (.encode o)
  facets : ∀ d (D : FacetedDirectory) f v, s.store d = some (.encode D) → D.find f = some v →
    ∃ D' : FacetedDirectory, t.store d = some (.encode D') ∧ D'.find f = some v

theorem Space.Keeps.refl (s : Space) : s.Keeps s :=
  ⟨fun _ _ h => h, fun _ D _ _ h hf => ⟨D, h, hf⟩⟩

/-- What is not the faceted directory stays as it is, unless it was free. -/
theorem Space.allocate_of_ne {D : FacetedDirectory} {rand : Stream' Uid} {x : Stored}
    (hv : s.store v = none) (hu : s.store u = some x) (hne : u ≠ d) :
    (s.allocate d D f v rand).store u = some x := by
  have huv : u ≠ v := by
    rintro rfl
    cases hv.symm.trans hu
  exact (Store.put_of_ne _ _ hne).trans ((Store.put_of_ne _ _ huv).trans hu)

theorem Space.keeps_allocate {D : FacetedDirectory} {rand : Stream' Uid}
    (hd : s.store d = some (.encode D)) (hv : s.store v = none) :
    s.Keeps (s.allocate d D f v rand) where
  dirs u o hu := by
    refine allocate_of_ne hv hu ?_
    rintro rfl
    cases hd.symm.trans hu
  facets x E g y hx hg := by
    by_cases hxd : x = d
    · subst hxd
      obtain rfl := encode_inj hd hx
      refine ⟨_, Store.put_self .., ?_⟩
      rw [FacetedDirectory.find_push, hg, Option.some_or]
    · exact ⟨E, allocate_of_ne hv hx hxd, hg⟩

/-- A walk allocates at most one facet. -/
theorem Walks.allocates (h : Walks s e path ls r s') :
    s' = s ∨ ∃ (d : Uid) (D : FacetedDirectory) (f : Buckle) (v : Uid) (rand : Stream' Uid),
      s.store d = some (.encode D) ∧ D.find f = none ∧ s.Drawn v rand ∧
        s' = s.allocate d D f v rand := by
  induction h with
  | name ho he h ih => exact ih
  | facet hv h ih =>
    cases hv with
    | found => exact ih
    | @new D _ _ hd hf hv =>
      obtain rfl := h.of_blank (Space.allocate_blank hd hv.free)
      exact .inr ⟨_, D, _, _, _, hd, hf, hv, rfl⟩
  | _ => exact .inl rfl

theorem Walks.keeps (h : Walks s e path ls r s') : s.Keeps s' := by
  obtain rfl | ⟨d, D, f, v, rand, hd, hf, hv, rfl⟩ := h.allocates
  · exact .refl _
  · exact Space.keeps_allocate hd hv.free

/-- A walk that is taken again finds every facet. -/
theorem Walks.again (h : Walks s e path ls r s') : Walks s' e path ls r s' := by
  induction h with
  | arrived => exact .arrived
  | name ho he h ih => exact .name (h.keeps.dirs _ _ ho) he ih
  | missing ho he => exact .missing ho he
  | facet hv h ih =>
    refine .facet ?_ ih
    cases hv with
    | found hd hf =>
      obtain ⟨D', hD', hf'⟩ := h.keeps.facets _ _ _ _ hd hf
      exact .found hD' hf'
    | @new D _ _ hd hf hv =>
      obtain rfl := h.of_blank (Space.allocate_blank hd hv.free)
      refine .found (Store.put_self ..) ?_
      rw [FacetedDirectory.find_push, hf, if_pos rfl, Option.none_or]
  | misfit hno => exact .misfit hno

/-- One walk after the other. -/
theorem Walks.append {e' : DirEntry} {path' : Path} {ls' : List Lookup} {s'' : Space}
    (h : Walks s e path ls (some e') s') (h' : Walks s' e' path' ls' r s'') :
    Walks s e (path ++ path') (ls ++ ls') r s'' := by
  generalize hr : some e' = r' at h
  induction h with
  | arrived =>
    cases hr
    exact h'
  | name ho he h ih => exact .name ho he (ih h' hr)
  | facet hv h ih => exact .facet hv (ih h' hr)
  | missing => cases hr
  | misfit => cases hr

/-- Opening that allocates nothing. -/
theorem Space.Opens.found_of_eq (h : s.Opens d f v s₁) (hs : s₁ = s) :
    ∃ D : FacetedDirectory, s.store d = some (.encode D) ∧ D.find f = some v := by
  cases h with
  | found hd hf => exact ⟨_, hd, hf⟩
  | @new D _ rand hd hf hv =>
    have hblank := Space.allocate_blank (f := f) (r := rand) (D := D) hd hv.free
    rw [hs] at hblank
    cases hv.free.symm.trans hblank

/-- Where a walk that allocates nothing opens a facet, it was there. -/
theorem Space.Opens.found_of_walks (hv : s.Opens d f v s₁)
    (h : Walks s₁ (.directory v) path ls r s') (hs : s' = s) :
    s₁ = s ∧ ∃ D : FacetedDirectory, s.store d = some (.encode D) ∧ D.find f = some v := by
  have heq : s₁ = s := (hv.once h (P := False) (.inl hs)).1.resolve_right id
  exact ⟨heq, hv.found_of_eq heq⟩

end Walks

/-! ### One name changes -/

/-- Nothing changes but what the directory `d` holds under one name. -/
structure Space.Updates (s t : Space) (d : Uid) (name : String) : Prop where
  others : ∀ u, u ≠ d → t.store u = s.store u
  dir : ∃ o o' : Labeled Directory, s.store d = some (.encode o) ∧ t.store d = some (.encode o') ∧
    o'.label = o.label ∧ ∀ m, m ≠ name → o'.data.entries[m]? = o.data.entries[m]?

/-- The name that is looked up is this one, in this directory. -/
def Lookup.At (x : Lookup) (d : Uid) (name : String) : Prop := x.dir = d ∧ x.name = name

section Updates

variable {s s' t : Space} {d u v : Uid} {name m : String} {e : DirEntry} {f : Buckle} {path : Path}
  {ls : List Lookup} {r : Option DirEntry}

/-- Every directory is still there, with every other name. -/
theorem Space.Updates.directory (h : s.Updates t d name) {o : Labeled Directory}
    (hu : s.store u = some (.encode o)) :
    ∃ o' : Labeled Directory, t.store u = some (.encode o') ∧ o'.label = o.label ∧
      ∀ m, ¬(u = d ∧ m = name) → o'.data.entries[m]? = o.data.entries[m]? := by
  by_cases hud : u = d
  · subst hud
    obtain ⟨o₁, o', ho, ho', hl, hm⟩ := h.dir
    obtain rfl := encode_inj hu ho
    exact ⟨o', ho', hl, fun m hne => hm m fun hmn => hne ⟨rfl, hmn⟩⟩
  · exact ⟨o, (h.others u hud).trans hu, rfl, fun m _ => rfl⟩

theorem Space.Updates.faceted (h : s.Updates t d name) {D : FacetedDirectory}
    (hu : s.store u = some (.encode D)) : t.store u = some (.encode D) := by
  rw [h.others u, hu]
  rintro rfl
  obtain ⟨o, -, ho, -⟩ := h.dir
  cases hu.symm.trans ho

/-- A walk that does not look up the name, and allocates nothing, stays as it is. -/
theorem Walks.updated (h : Walks s e path ls r s') (hs : s' = s) (hup : s.Updates t d name)
    (hnot : ∀ x ∈ ls, ¬x.At d name) : Walks t e path ls r t := by
  induction h with
  | arrived => exact .arrived
  | name ho he h ih =>
    obtain ⟨o', ho', hl, hm⟩ := hup.directory ho
    rw [← hm _ (hnot _ List.mem_cons_self)] at he
    rw [← hl]
    exact .name ho' he (ih hs hup fun x hx => hnot x (List.mem_cons_of_mem _ hx))
  | missing ho he =>
    obtain ⟨o', ho', hl, hm⟩ := hup.directory ho
    rw [← hm _ (hnot _ List.mem_cons_self)] at he
    rw [← hl]
    exact .missing ho' he
  | facet hv h ih =>
    obtain ⟨rfl, D, hD, hf⟩ := hv.found_of_walks h hs
    exact .facet (.found (hup.faceted hD) hf) (ih hs hup hnot)
  | misfit hno => exact .misfit hno

/-- The names that a walk finds on its way to an entry. -/
theorem Walks.finds {e' : DirEntry} (h : Walks s e path ls (some e') s') (hs : s' = s) :
    ∀ x ∈ ls, ∃ (o : Labeled Directory) (e : DirEntry), s.store x.dir = some (.encode o) ∧
      o.data.entries[x.name]? = some e := by
  generalize hr : some e' = r at h
  induction h with
  | arrived => nofun
  | @name s s' u o name e path ls r ho he h ih =>
    intro x hx
    rcases List.mem_cons.1 hx with rfl | hx
    · exact ⟨o, e, ho, he⟩
    · exact ih hs hr x hx
  | facet hv h ih =>
    obtain ⟨rfl, -⟩ := hv.found_of_walks h hs
    exact ih hs hr
  | missing => cases hr
  | misfit => cases hr

/-- When the name is gone from the directory that a walk leads to, the path that ends with it leads
nowhere: the walk still arrives there and misses the name, or it has missed it before, on its way. -/
theorem Walks.cut (h : Walks s e path ls (some (.directory d)) s') (hs : s' = s)
    (hup : s.Updates t d name) {o : Labeled Directory} (hd : t.store d = some (.encode o))
    (hgone : o.data.entries[name]? = none) :
    ∃ ls', Walks t e (path.pushDscrp name) ls' none t := by
  generalize hr : some (DirEntry.directory d) = r at h
  induction h with
  | arrived =>
    cases hr
    exact ⟨_, .missing hd hgone⟩
  | @name s s' u o₁ m e path ls r ho he h ih =>
    obtain ⟨o', ho', -, hm⟩ := hup.directory ho
    by_cases hat : u = d ∧ m = name
    · obtain ⟨rfl, rfl⟩ := hat
      exact ⟨_, .missing hd hgone⟩
    · obtain ⟨ls', hwalk⟩ := ih hs hup hr
      exact ⟨_, .name ho' ((hm m hat).trans he) hwalk⟩
  | facet hv h ih =>
    obtain ⟨rfl, D, hD, hf⟩ := hv.found_of_walks h hs
    obtain ⟨ls', hwalk⟩ := ih hs hup hr
    exact ⟨ls', .facet (.found (hup.faceted hD) hf) hwalk⟩
  | missing => cases hr
  | misfit => cases hr

end Updates

/-! ### The frame condition -/

/-- What `link` and `rm` do to the store on the whole: a facet may be allocated on the way to the
directory, and then one name changes in that. -/
structure Space.Evolves (s t : Space) (d : Uid) (name : String) : Prop where
  dirs : ∀ u (o : Labeled Directory), s.store u = some (.encode o) →
    ∃ o' : Labeled Directory, t.store u = some (.encode o') ∧
      ∀ m, ¬(u = d ∧ m = name) → o'.data.entries[m]? = o.data.entries[m]?
  facets : ∀ u (D : FacetedDirectory) f v, s.store u = some (.encode D) → D.find f = some v →
    ∃ D' : FacetedDirectory, t.store u = some (.encode D') ∧ D'.find f = some v
  fresh : ∀ u (D : FacetedDirectory) f, s.store u = some (.encode D) → D.find f = none →
    ∃ D' : FacetedDirectory, t.store u = some (.encode D') ∧ (D'.find f = none ∨
      ∃ v rand, s.Drawn v rand ∧ D'.find f = some v ∧
        ∃ o : Labeled Directory, t.store v = some (.encode o) ∧
          ∀ m, ¬(v = d ∧ m = name) → o.data.entries[m]? = none)

/-- The two results are the same, or both are directories that have just been allocated for a facet. -/
def SameEntry (s t : Space) (r r' : Option DirEntry) : Prop :=
  r' = r ∨ ∃ v v', r = some (.directory v) ∧ r' = some (.directory v') ∧
    s.store v = none ∧ t.store v' = none

section Evolves

variable {s s' s₁ t : Space} {d u v : Uid} {name : String} {e : DirEntry} {f : Buckle} {path : Path}
  {ls : List Lookup} {r : Option DirEntry}

theorem Walks.evolves (h : Walks s e path ls r s₁) (hup : s₁.Updates t d name) :
    s.Evolves t d name where
  dirs u o hu := by
    obtain ⟨o', ho', -, hm⟩ := hup.directory (h.keeps.dirs u o hu)
    exact ⟨o', ho', hm⟩
  facets u D f v hu hf := by
    obtain ⟨D', hD', hf'⟩ := h.keeps.facets u D f v hu hf
    exact ⟨D', hup.faceted hD', hf'⟩
  fresh u D f hu hf := by
    obtain rfl | ⟨d₀, D₀, g, v, rand, hd₀, -, hv, rfl⟩ := h.allocates
    · exact ⟨D, hup.faceted hu, .inl hf⟩
    · by_cases hud : u = d₀
      · subst hud
        obtain rfl := encode_inj hd₀ hu
        refine ⟨D.push g v, hup.faceted (Store.put_self ..), ?_⟩
        rw [FacetedDirectory.find_push, hf, Option.none_or]
        by_cases hg : g = f
        · subst hg
          obtain ⟨o, ho, -, hm⟩ := hup.directory (Space.allocate_blank hd₀ hv.free)
          refine .inr ⟨v, rand, hv, if_pos rfl, o, ho, fun m hne => ?_⟩
          rw [hm m hne]
          simp
        · exact .inl (if_neg hg)
      · exact ⟨D, hup.faceted (Space.allocate_of_ne hv.free hu hud), .inl hf⟩

/-- **A walk that does not look up the name leads where it led**, if a free uid is drawn at all. -/
theorem Walks.evolved (h : Walks s e path ls r s') (hev : s.Evolves t d name)
    (hnot : ∀ x ∈ ls, ¬x.At d name) (hdrawn : ∃ v rand, t.Drawn v rand) :
    ∃ ls' r' t', Walks t e path ls' r' t' ∧ SameEntry s t r r' := by
  induction h with
  | arrived => exact ⟨_, _, _, .arrived, .inl rfl⟩
  | name ho he h ih =>
    obtain ⟨o', ho', hm⟩ := hev.dirs _ _ ho
    rw [← hm _ (hnot _ List.mem_cons_self)] at he
    obtain ⟨ls', r', t', hwalk, hsame⟩ := ih hev fun x hx => hnot x (List.mem_cons_of_mem _ hx)
    exact ⟨_, _, _, .name ho' he hwalk, hsame⟩
  | missing ho he =>
    obtain ⟨o', ho', hm⟩ := hev.dirs _ _ ho
    rw [← hm _ (hnot _ List.mem_cons_self)] at he
    exact ⟨_, _, _, .missing ho' he, .inl rfl⟩
  | misfit hno => exact ⟨_, _, _, .misfit hno, .inl rfl⟩
  | @facet s s₁ s' x v f path ls r hv h ih =>
    cases hv with
    | found hd hf =>
      obtain ⟨D', hD', hf'⟩ := hev.facets _ _ _ _ hd hf
      obtain ⟨ls', r', t', hwalk, hsame⟩ := ih hev hnot
      exact ⟨_, _, _, .facet (.found hD' hf') hwalk, hsame⟩
    | @new D _ rand hd hf hv =>
      have hblank := Space.allocate_blank (f := f) (r := rand) (D := D) hd hv.free
      obtain ⟨D', hD', hf' | ⟨v₁, rand', hv₁, hf', o, ho, hm⟩⟩ := hev.fresh _ _ _ hd hf
      · -- the facet is not there yet: a new empty directory again
        obtain ⟨v', rand', hv'⟩ := hdrawn
        have hblank' := Space.allocate_blank (f := f) (r := rand') (D := D') hD' hv'.free
        cases h with
        | arrived =>
          exact ⟨_, _, _, .facet (.new hD' hf' hv') .arrived,
            .inr ⟨v, v', rfl, rfl, hv.free, hv'.free⟩⟩
        | name ho he h =>
          obtain rfl := encode_inj hblank ho
          simp at he
        | missing => exact ⟨_, _, _, .facet (.new hD' hf' hv') (.missing hblank' (by simp)), .inl rfl⟩
        | @misfit _ _ c _ hno =>
          cases c with
          | dscrp m => exact absurd trivial hno
          | facet g => exact ⟨_, _, _, .facet (.new hD' hf' hv') (.misfit id), .inl rfl⟩
      · -- the base path has allocated it, under the uid that this walk would have drawn
        obtain ⟨rfl, -⟩ := hv.unique hv₁
        have hfound : t.Opens x f v₁ t := .found hD' hf'
        cases h with
        | arrived => exact ⟨_, _, _, .facet hfound .arrived, .inl rfl⟩
        | name ho he h =>
          obtain rfl := encode_inj hblank ho
          simp at he
        | missing =>
          have hgone := hm _ fun hat => hnot _ List.mem_cons_self hat
          exact ⟨_, _, _, .facet hfound (.missing ho hgone), .inl rfl⟩
        | misfit hno => exact ⟨_, _, _, .facet hfound (.misfit hno), .inl rfl⟩

end Evolves

/-! ### `link` and `rm` -/

/-- Reading any path that does not look up the name in `d` gives the same before and after. (A facet that
is not there is allocated by the read itself, and then both results are new.) -/
def PathsKept [LabelCrate] (w w' : World) (d : Uid) (name : String) : Prop :=
  ∀ (q : Path), (∀ ls r s', Walks w.space (.directory FS.rootRef) q ls r s' →
    ∀ x ∈ ls, ¬x.At d name) →
    ∀ (t t' : Thread) (m m' : ℕ), Integrity.Draws m w → Integrity.Draws m' w' →
      ∃ r r', (exec (FS.readPath m q) (w.withThread t)).1 = resolved r ∧
        (exec (FS.readPath m' q) (w'.withThread t')).1 = resolved r' ∧
        SameEntry w.space w'.space r r'

section Operations

variable [LabelCrate] {w w₁ w' : World} {n : ℕ} {b : Path} {name : String} {d : Uid}

open Integrity (Draws)

/-- A change of one name that has been made. -/
theorem updateLoop_ok (name : String) {change : Directory → Bool × Directory} {skip : Bool} {o : Labeled Directory}
    (hd : w.store d = some (.encode o))
    (hchange : ∀ m, m ≠ name → (change o.data).2.entries[m]? = o.data.entries[m]?)
    (h : exec (Directory.updateLoop d change skip n o) w = (.ok true, w')) :
    (change o.data).1 ≠ skip ∧ w.space.Updates w'.space d name ∧
      w'.store d = some (.encode { o with data := (change o.data).2 }) := by
  cases n with
  | zero => cases h
  | succ n =>
    rw [Directory.exec_updateLoop hd] at h
    split_ifs at h with hflow hskip
    · cases h
    · cases h
      refine ⟨hskip, ⟨fun u hu => Store.put_of_ne _ _ hu, ?_⟩, Store.put_self ..⟩
      exact ⟨o, _, hd, Store.put_self .., rfl, hchange⟩
    · cases h

/-- A `link` that succeeds has resolved the path, and then changed the directory. -/
theorem link_ok {entry : DirEntry} (hd : (exec (FS.readPath n b) w).1 = .ok (.directory d))
    (h : exec (FS.link n b name entry) w = (.ok (), w')) :
    ∃ w₁ o, exec (FS.readPath n b) w = (.ok (.directory d), w₁) ∧
      w₁.store d = some (.encode o) ∧
      exec (Directory.updateLoop d (Directory.insert name entry) true n o) w₁ = (.ok true, w') := by
  obtain ⟨e, w₁, hread, h⟩ := exec_bind_eq_ok h
  obtain rfl : e = .directory d := by
    rw [hread] at hd
    exact Except.ok.inj hd
  obtain ⟨done, w₂, hlink, h⟩ := exec_bind_eq_ok h
  cases done with
  | false => cases h
  | true =>
    cases h
    rcases ho : (w₁.store d).bind (Stored.decode (T := Labeled Directory)) with _ | o
    · unfold Directory.link at hlink
      rw [exec_bind_ok (ObjectRef.exec_get d w₁), ho] at hlink
      cases hlink
    · refine ⟨w₁, o, hread, decode_eq_some ho, ?_⟩
      unfold Directory.link at hlink
      rw [exec_bind_ok (ObjectRef.exec_get d w₁), ho] at hlink
      exact hlink

/-- The same for `rm`. -/
theorem rm_ok (hd : (exec (FS.readPath n b) w).1 = .ok (.directory d))
    (h : exec (FS.rm n b name) w = (.ok true, w')) :
    ∃ w₁ o, exec (FS.readPath n b) w = (.ok (.directory d), w₁) ∧
      w₁.store d = some (.encode o) ∧
      exec (Directory.updateLoop d (Directory.remove name) false n o) w₁ = (.ok true, w') := by
  obtain ⟨e, w₁, hread, h⟩ := exec_bind_eq_ok h
  obtain rfl : e = .directory d := by
    rw [hread] at hd
    exact Except.ok.inj hd
  change exec (Directory.unlink n d name) w₁ = _ at h
  rcases ho : (w₁.store d).bind (Stored.decode (T := Labeled Directory)) with _ | o
  · unfold Directory.unlink at h
    rw [exec_bind_ok (ObjectRef.exec_get d w₁), ho] at h
    cases h
  · refine ⟨w₁, o, hread, decode_eq_some ho, ?_⟩
    unfold Directory.unlink at h
    rw [exec_bind_ok (ObjectRef.exec_get d w₁), ho] at h
    exact h

/-- The base path of a call. -/
theorem base_walks (hinit : w.store.Initialized) (hdraws : Draws n w)
    (hb : b.startsWithFacet = false)
    (hread : exec (FS.readPath n b) w = (.ok (.directory d), w₁)) :
    ∃ ls, Walks w.space (.directory FS.rootRef) b ls (some (.directory d)) w₁.space := by
  obtain ⟨ls, r, s', hwalk⟩ := exists_walk (s := w.space) (e := .directory FS.rootRef) b hinit
    hinit.root (exists_drawn hdraws)
  rw [exec_readPath_walk hinit.root hb hwalk hdraws.pos (.inr hdraws)] at hread
  cases r with
  | none => cases hread
  | some e =>
    cases hread
    exact ⟨ls, hwalk⟩

/-- Whatever it does to the name, the call keeps the other paths. -/
theorem pathsKept {ls : List Lookup} (hinit : w.store.Initialized)
    (hbase : Walks w.space (.directory FS.rootRef) b ls (some (.directory d)) w₁.space)
    (hup : w₁.space.Updates w'.space d name) : PathsKept w w' d name := by
  intro q hq t t' m m' hm hm'
  cases hfacet : q.startsWithFacet with
  | true =>
    refine ⟨some (.directory FS.rootRef), some (.directory FS.rootRef), ?_, ?_, .inl rfl⟩
    · rw [exec_readPath_facet hfacet]
      rfl
    · rw [exec_readPath_facet hfacet]
      rfl
  | false =>
    have hev := hbase.evolves hup
    obtain ⟨o, ho⟩ := hinit.root
    obtain ⟨o', ho', -⟩ := hev.dirs _ _ ho
    obtain ⟨ls, r, s', hwalk⟩ := exists_walk (s := w.space) (e := .directory FS.rootRef) q hinit
      hinit.root (exists_drawn hm)
    obtain ⟨ls', r', t'', hwalk', hsame⟩ := hwalk.evolved hev (hq ls r s' hwalk) (exists_drawn hm')
    refine ⟨r, r', ?_, ?_, hsame⟩
    · rw [exec_readPath_walk (w := w.withThread t) ⟨o, ho⟩ hfacet hwalk hm.pos (.inr hm)]
    · rw [exec_readPath_walk (w := w'.withThread t') ⟨o', ho'⟩ hfacet hwalk' hm'.pos (.inr hm')]

/-- **Names behave like names**, in any graph of directories. After a `link` the name leads to the entry,
after an `rm` it leads nowhere, for every thread; and every path that does not look it up in that directory
leads where it led. -/
theorem names_behave (hinit : w.store.Initialized) (hdraws : Draws n w)
    (hb : b.startsWithFacet = false) (hd : (exec (FS.readPath n b) w).1 = .ok (.directory d))
    (name : String) :
    (∀ entry w', exec (FS.link n b name entry) w = (.ok (), w') →
      (∀ (t : Thread) m, 0 < m →
        (exec (FS.readPath m (b.pushDscrp name)) (w'.withThread t)).1 = .ok entry) ∧
      PathsKept w w' d name) ∧
    ∀ w', exec (FS.rm n b name) w = (.ok true, w') →
      (∀ (t : Thread) m, 0 < m →
        (exec (FS.readPath m (b.pushDscrp name)) (w'.withThread t)).1 = .error (.err .badPath)) ∧
      PathsKept w w' d name := by
  have hb' : (b.pushDscrp name).startsWithFacet = false := by
    cases b with
    | nil => rfl
    | cons c b =>
      cases c with
      | dscrp m => rfl
      | facet f => cases hb
  constructor
  · intro entry w' hlink
    obtain ⟨w₁, o, hread, ho, hupdate⟩ := link_ok hd hlink
    obtain ⟨ls, hbase⟩ := base_walks hinit hdraws hb hread
    obtain ⟨hfree, hup, ho'⟩ := updateLoop_ok name ho
      (fun m hm => by simp [Directory.insert, ExtTreeMap.getElem?_insert, hm.symm]) hupdate
    refine ⟨fun t m hm => ?_, pathsKept hinit hbase hup⟩
    -- the name was free, so the base path has not been there
    have hnot : ∀ x ∈ ls, ¬x.At d name := by
      rintro x hx ⟨rfl, rfl⟩
      obtain ⟨o₁, e, ho₁, he⟩ := hbase.again.finds rfl x hx
      obtain rfl := encode_inj ho ho₁
      refine hfree ?_
      rw [Directory.insert, ← ExtTreeMap.isSome_getElem?_eq_contains, he]
      rfl
    have hlast : Walks w'.space (.directory d) [.dscrp name] _ (some entry) w'.space :=
      .name (o := ⟨o.label, (Directory.insert name entry o.data).2⟩) ho' (by simp [Directory.insert])
        .arrived
    have hwalk : Walks w'.space (.directory FS.rootRef) (b.pushDscrp name) _ (some entry) w'.space :=
      (hbase.again.updated rfl hup hnot).append hlast
    obtain ⟨o₀, ho₀⟩ := hinit.root
    obtain ⟨o₁, ho₁, -⟩ := (hbase.evolves hup).dirs _ _ ho₀
    rw [exec_readPath_walk (w := w'.withThread t) ⟨o₁, ho₁⟩ hb' hwalk hm (.inl rfl)]
    rfl
  · intro w' hrm
    obtain ⟨w₁, o, hread, ho, hupdate⟩ := rm_ok hd hrm
    obtain ⟨ls, hbase⟩ := base_walks hinit hdraws hb hread
    obtain ⟨-, hup, ho'⟩ := updateLoop_ok name ho
      (fun m hm => by simp [Directory.remove, ExtTreeMap.getElem?_erase, hm.symm]) hupdate
    refine ⟨fun t m hm => ?_, pathsKept hinit hbase hup⟩
    obtain ⟨ls', hwalk⟩ := hbase.again.cut rfl hup ho' (by simp [Directory.remove])
    obtain ⟨o₀, ho₀⟩ := hinit.root
    obtain ⟨o₁, ho₁, -⟩ := (hbase.evolves hup).dirs _ _ ho₀
    rw [exec_readPath_walk (w := w'.withThread t) ⟨o₁, ho₁⟩ hb' hwalk hm (.inl rfl)]
    rfl

end Operations

end Faasten

/-! ### A name behind a loop -/

namespace Faasten.FacetInFront

open scoped Dc

/-- The root through its own loop. -/
def loop : Path := [.dscrp "loop"]

/-- A file that is linked there is found there, and gone when it is removed; and the other paths stay. -/
theorem loop_named :
    (∃ w', exec (FS.link 1 loop "new" (.file 7)) start = (.ok (), w') ∧
      (∀ (t : Thread) m, 0 < m →
        (exec (FS.readPath m (loop.pushDscrp "new")) (w'.withThread t)).1 = .ok (.file 7)) ∧
      PathsKept start w' FS.rootRef "new") ∧
    ∃ w', exec (FS.rm 1 loop "faceted") start = (.ok true, w') ∧
      (∀ (t : Thread) m, 0 < m →
        (exec (FS.readPath m (loop.pushDscrp "faceted")) (w'.withThread t)).1 =
          .error (.err .badPath)) ∧
      PathsKept start w' FS.rootRef "faceted" := by
  have hlink : (exec (FS.link 1 loop "new" (.file 7)) start).1 = .ok () := by decide
  have hrm : (exec (FS.rm 1 loop "faceted") start).1 = .ok true := by decide
  have hread : (exec (FS.readPath 1 loop) start).1 = .ok (.directory FS.rootRef) := by decide
  exact ⟨⟨_, Prod.ext hlink rfl,
      (names_behave (w := start) store_initialized draws_start rfl hread "new").1 _ _
        (Prod.ext hlink rfl)⟩,
    ⟨_, Prod.ext hrm rfl,
      (names_behave (w := start) store_initialized draws_start rfl hread "faceted").2 _
        (Prod.ext hrm rfl)⟩⟩

end Faasten.FacetInFront
