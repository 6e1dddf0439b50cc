import Mathlib
import Faasten.Clients.Survival
import Faasten.Facets

/-!
# Paths as walks

`read_path` follows a path with one loop, and `DentOpen` follows it one component at a time. Both are
compared with the walk that the path describes: a name is looked up in a directory, a facet is opened in
a faceted directory, and any other component leads nowhere.

* `Walks`, the walk of a path from an entry, with the names it looks up and the facets it allocates;
  `Walks.unique`: there is at most one;
* `exec_readPathLoop`, `exec_dentOpenEach`: what the loop and the calls do along a walk;
* `componentWise_iff`: `read_path` is the walk from the root, and agrees with `DentOpen`, exactly for the
  paths that do not start with a facet. Those that do lead to the root, whatever comes after.
-/

namespace Faasten

open Std Effect

/-! ### Walks -/

/-- What a walk works on: the store, and the uids that are drawn next. -/
structure Space where
  store : Store
  rand : Stream' Uid

/-- The store and the random numbers of a world. -/
def World.space (w : World) : Space := ⟨w.store, w.rand⟩

/-- The world with this store and these random numbers. -/
def World.inSpace (w : World) (s : Space) : World := { w with store := s.store, rand := s.rand }

/-- A name that has been looked up, in a directory with this label. -/
structure Lookup where
  dir : Uid
  name : String
  label : Buckle

/-- The kinds of entries that components are for. -/
def DirEntry.Takes : DirEntry → PathComponent → Prop
  | .directory _, .dscrp _ => True
  | .facetedDirectory _, .facet _ => True
  | _, _ => False

namespace Space

/-- The first free uid that is drawn is `v`, and `r` is drawn after it. -/
def Drawn (s : Space) (v : Uid) (r : Stream' Uid) : Prop :=
  ∃ k, (∀ j < k, s.store (s.rand.get j) ≠ none) ∧ s.rand.get k = v ∧ s.store v = none ∧
    s.rand.drop (k + 1) = r

/-- The facet `f` of `d` allocated under `v`, as an empty directory with the label `f`. -/
def allocate (s : Space) (d : Uid) (D : FacetedDirectory) (f : Buckle) (v : Uid)
    (r : Stream' Uid) : Space where
  store := (s.store.put v (.encode (⟨f, {}⟩ : Labeled Directory))).put d (.encode (D.push f v))
  rand := r

/-- Opening the facet `f` of `d` leads to `v`: it is there, or it is allocated. -/
inductive Opens (s : Space) (d : Uid) (f : Buckle) : Uid → Space → Prop
  | found {D : FacetedDirectory} {v : Uid} (hd : s.store d = some (.encode D))
      (hf : D.find f = some v) : Opens s d f v s
  | new {D : FacetedDirectory} {v : Uid} {r : Stream' Uid} (hd : s.store d = some (.encode D))
      (hf : D.find f = none) (hv : s.Drawn v r) :
      Opens s d f v (s.allocate d D f v r)

end Space

/-- The walk of a path from an entry: the names that it looks up, the entry that it arrives at, if it
arrives, and what it leaves behind. -/
inductive Walks : Space → DirEntry → Path → List Lookup → Option DirEntry → Space → Prop
  | arrived {s : Space} {e : DirEntry} : Walks s e [] [] (some e) s
  | name {s s' : Space} {u : Uid} {o : Labeled Directory} {name : String} {e : DirEntry}
      {path : Path} {ls : List Lookup} {r : Option DirEntry} (ho : s.store u = some (.encode o))
      (he : o.data.entries[name]? = some e) (h : Walks s e path ls r s') :
      Walks s (.directory u) (.dscrp name :: path) (⟨u, name, o.label⟩ :: ls) r s'
  | missing {s : Space} {u : Uid} {o : Labeled Directory} {name : String} {path : Path}
      (ho : s.store u = some (.encode o)) (he : o.data.entries[name]? = none) :
      Walks s (.directory u) (.dscrp name :: path) [⟨u, name, o.label⟩] none s
  | facet {s s₁ s' : Space} {d v : Uid} {f : Buckle} {path : Path} {ls : List Lookup}
      {r : Option DirEntry} (hv : s.Opens d f v s₁) (h : Walks s₁ (.directory v) path ls r s') :
      Walks s (.facetedDirectory d) (.facet f :: path) ls r s'
  | misfit {s : Space} {e : DirEntry} {c : PathComponent} {path : Path} (h : ¬e.Takes c) :
      Walks s e (c :: path) [] none s

/-- The root directory is there, and directories and facets lead to directories. -/
structure Store.Initialized (s : Store) : Prop where
  root : ∃ o : Labeled Directory, s FS.rootRef = some (.encode o)
  directory : ∀ u (o : Labeled Directory) (name : String) v, s u = some (.encode o) →
    o.data.entries[name]? = some (.directory v) → ∃ o : Labeled Directory, s v = some (.encode o)
  faceted : ∀ u (o : Labeled Directory) (name : String) v, s u = some (.encode o) →
    o.data.entries[name]? = some (.facetedDirectory v) →
      ∃ D : FacetedDirectory, s v = some (.encode D)
  facet : ∀ u (D : FacetedDirectory) f v, s u = some (.encode D) → D.find f = some v →
    ∃ o : Labeled Directory, s v = some (.encode o)

/-- The entry is no directory, or there is one. -/
def Store.Leads (s : Store) : DirEntry → Prop
  | .directory u => ∃ o : Labeled Directory, s u = some (.encode o)
  | .facetedDirectory u => ∃ D : FacetedDirectory, s u = some (.encode D)
  | _ => True

section Spaces

variable {s s' s₁ : Space} {d u v : Uid} {f : Buckle} {r : Stream' Uid}

theorem Space.Drawn.unique {v' : Uid} {r' : Stream' Uid} (h : s.Drawn v r) (h' : s.Drawn v' r') :
    v' = v ∧ r' = r := by
  obtain ⟨k, hk, rfl, hfree, rfl⟩ := h
  obtain ⟨k', hk', rfl, hfree', rfl⟩ := h'
  rcases Nat.lt_trichotomy k k' with hlt | rfl | hlt
  · exact absurd hfree (hk' k hlt)
  · exact ⟨rfl, rfl⟩
  · exact absurd hfree' (hk k' hlt)

theorem Space.Drawn.free (h : s.Drawn v r) : s.store v = none := by
  obtain ⟨-, -, -, hfree, -⟩ := h
  exact hfree

theorem Space.Opens.unique {v' : Uid} {s₁' : Space} (h : s.Opens d f v s₁)
    (h' : s.Opens d f v' s₁') : v' = v ∧ s₁' = s₁ := by
  cases h with
  | found hd hf =>
    cases h' with
    | found hd' hf' =>
      obtain rfl := encode_inj hd hd'
      exact ⟨Option.some.inj (hf'.symm.trans hf), rfl⟩
    | new hd' hf' hv' =>
      obtain rfl := encode_inj hd hd'
      cases hf.symm.trans hf'
  | new hd hf hv =>
    cases h' with
    | found hd' hf' =>
      obtain rfl := encode_inj hd hd'
      cases hf.symm.trans hf'
    | new hd' hf' hv' =>
      obtain rfl := encode_inj hd hd'
      obtain ⟨rfl, rfl⟩ := hv.unique hv'
      exact ⟨rfl, rfl⟩

/-- There is at most one walk. -/
theorem Walks.unique {e : DirEntry} {path : Path} {ls ls' : List Lookup} {r r' : Option DirEntry}
    {s'' : Space} (h : Walks s e path ls r s') (h' : Walks s e path ls' r' s'') :
    ls' = ls ∧ r' = r ∧ s'' = s' := by
  induction h generalizing ls' with
  | arrived =>
    cases h'
    exact ⟨rfl, rfl, rfl⟩
  | name ho he h ih =>
    cases h' with
    | name ho' he' h' =>
      obtain rfl := encode_inj ho ho'
      obtain rfl := Option.some.inj (he'.symm.trans he)
      obtain ⟨rfl, rfl, rfl⟩ := ih h'
      exact ⟨rfl, rfl, rfl⟩
    | missing ho' he' =>
      obtain rfl := encode_inj ho ho'
      cases he'.symm.trans he
    | misfit hno => exact absurd trivial hno
  | missing ho he =>
    cases h' with
    | name ho' he' h' =>
      obtain rfl := encode_inj ho ho'
      cases he'.symm.trans he
    | missing ho' he' =>
      obtain rfl := encode_inj ho ho'
      exact ⟨rfl, rfl, rfl⟩
    | misfit hno => exact absurd trivial hno
  | facet hv h ih =>
    cases h' with
    | facet hv' h' =>
      obtain ⟨rfl, rfl⟩ := hv.unique hv'
      exact ih h'
    | misfit hno => exact absurd trivial hno
  | misfit hno =>
    cases h' with
    | misfit => exact ⟨rfl, rfl, rfl⟩
    | _ => exact absurd trivial hno

/-- A walk from an empty directory allocates nothing. -/
theorem Walks.of_blank {path : Path} {ls : List Lookup} {e : Option DirEntry}
    (h : Walks s (.directory u) path ls e s')
    (hu : s.store u = some (.encode (⟨f, {}⟩ : Labeled Directory))) : s' = s := by
  cases h with
  | name ho he h =>
    obtain rfl := encode_inj hu ho
    simp at he
  | _ => rfl

/-- There is one. -/
theorem exists_walk_of_blank (path : Path)
    (hu : s.store u = some (.encode (⟨f, {}⟩ : Labeled Directory))) :
    ∃ ls e, Walks s (.directory u) path ls e s := by
  cases path with
  | nil => exact ⟨_, _, .arrived⟩
  | cons c path =>
    cases c with
    | dscrp name => exact ⟨_, _, .missing hu (by simp)⟩
    | facet g => exact ⟨_, _, .misfit id⟩

/-- What is allocated is an empty directory. -/
theorem Space.allocate_blank {D : FacetedDirectory} {x : Stored} (hd : s.store d = some x)
    (hv : s.store v = none) :
    (s.allocate d D f v r).store v = some (.encode (⟨f, {}⟩ : Labeled Directory)) := by
  have hne : v ≠ d := by
    rintro rfl
    cases hv.symm.trans hd
  exact (Store.put_of_ne _ _ hne).trans (Store.put_self ..)

/-- A walk allocates at most one facet, and ends after that. -/
theorem Space.Opens.once {path : Path} {ls : List Lookup} {e : Option DirEntry} {P : Prop}
    (hv : s.Opens d f v s₁) (h : Walks s₁ (.directory v) path ls e s') (hP : s' = s ∨ P) :
    (s₁ = s ∨ P) ∧ (s' = s₁ ∨ s₁ = s ∧ P) := by
  cases hv with
  | found => exact ⟨.inl rfl, hP.imp_right fun hP => ⟨rfl, hP⟩⟩
  | new hd hf hv =>
    obtain rfl := h.of_blank (Space.allocate_blank hd hv.free)
    exact ⟨hP, .inl rfl⟩

/-- In an initialized store there is a walk of each path, if a free uid is drawn at all. -/
theorem exists_walk {e : DirEntry} (path : Path) (h : s.store.Initialized) (he : s.store.Leads e)
    (hv : ∃ v r, s.Drawn v r) : ∃ ls e' s', Walks s e path ls e' s' := by
  induction path generalizing e with
  | nil => exact ⟨_, _, _, .arrived⟩
  | cons c path ih =>
    cases e with
    | directory u =>
      cases c with
      | facet f => exact ⟨_, _, _, .misfit id⟩
      | dscrp name =>
        obtain ⟨o, ho⟩ := he
        rcases hname : o.data.entries[name]? with _ | e
        · exact ⟨_, _, _, .missing ho hname⟩
        · have hleads : s.store.Leads e := by
            cases e with
            | directory v => exact h.directory u o name v ho hname
            | facetedDirectory v => exact h.faceted u o name v ho hname
            | _ => trivial
          obtain ⟨ls, e', s', hwalk⟩ := ih hleads
          exact ⟨_, _, _, .name ho hname hwalk⟩
    | facetedDirectory d =>
      cases c with
      | dscrp name => exact ⟨_, _, _, .misfit id⟩
      | facet f =>
        obtain ⟨D, hD⟩ := he
        rcases hf : D.find f with _ | v
        · obtain ⟨v, r, hv⟩ := hv
          obtain ⟨ls, e', hwalk⟩ := exists_walk_of_blank path (Space.allocate_blank hD hv.free)
          exact ⟨_, _, _, .facet (.new hD hf hv) hwalk⟩
        · obtain ⟨ls, e', s', hwalk⟩ := ih (e := .directory v) (h.facet d D f v hD hf)
          exact ⟨_, _, _, .facet (.found hD hf) hwalk⟩
    | _ => exact ⟨_, _, _, .misfit id⟩

end Spaces

/-! ### Opening a facet -/

section Open

variable {w : World} {n : ℕ} {d v : Uid} {f : Buckle} {s : Space}

open Integrity (Draws)

/-- A free uid is drawn first, if any is drawn in time. -/
theorem exists_drawn (h : Draws n w) : ∃ v r, w.space.Drawn v r := by
  classical
  obtain ⟨k, -, hk⟩ := h
  have hex : ∃ k, w.store (w.rand.get k) = none := ⟨k, hk⟩
  exact ⟨_, _, Nat.find hex, fun j hj => Nat.find_min hex hj, rfl, Nat.find_spec hex, rfl⟩

/-- Allocation takes the uid that is drawn first. -/
theorem exec_setNewId_drawn {T : Type} [Codec T] (h : Draws n w) (x : T) {r : Stream' Uid}
    (hv : w.space.Drawn v r) :
    exec (ObjectRef.setNewId n x) w =
      (.ok v, { w with rand := r, store := w.store.put v (.encode x) }) := by
  obtain ⟨k, hk, rfl, hfree, rfl⟩ := hv
  obtain ⟨j, hj, hjfree⟩ := h
  have hkn : k < n := by
    by_contra hle
    exact hk j (by omega) hjfree
  clear hj hjfree
  induction k generalizing n w with
  | zero =>
    cases n with
    | zero => omega
    | succ n =>
      change w.store w.rand.head = none at hfree
      unfold ObjectRef.setNewId
      rw [exec_bind_ok (exec_random w), exec_bind, exec_add]
      simp only [hfree, if_true, exec_bind, ObjectRef.set, exec_put, exec_pure, Store.put_put]
      rfl
  | succ k ih =>
    cases n with
    | zero => omega
    | succ n =>
      have hhead : w.store w.rand.head ≠ none := hk 0 (by omega)
      unfold ObjectRef.setNewId
      rw [exec_bind_ok (exec_random w), exec_bind, exec_add]
      simp only [hhead, if_false, Bool.false_eq_true]
      exact ih (w := { w with rand := w.rand.tail }) (fun j hj => hk (j + 1) (by omega)) hfree
        (by omega)

/-- `open` opens the facet, if a free uid is drawn in time for those that it allocates. -/
theorem exec_open_of_opens (h : w.space.Opens d f v s) (hn : 0 < n)
    (hdraws : s = w.space ∨ Draws n w) :
    exec (FacetedDirectory.open' n d f) w = (.ok v, w.inSpace s) := by
  obtain ⟨n, rfl⟩ := Nat.exists_eq_add_of_lt hn
  rw [Nat.zero_add] at hdraws ⊢
  cases h with
  | found hd hf => exact exec_open_found n hd hf
  | @new D _ r hd hf hv =>
    rcases hdraws with hsame | hdraws
    · -- what is allocated was not there before
      have hblank : w.space.store v = some _ := hsame ▸ Space.allocate_blank hd hv.free
      cases hblank.symm.trans hv.free
    · exact exec_open_allocated hd hf hv.free (exec_setNewId_drawn hdraws _ hv)

end Open

/-! ### `read_path` -/

/-- What is returned at the end of a walk. -/
def resolved : Option DirEntry → Except Raised DirEntry
  | some e => .ok e
  | none => .error (.err .badPath)

section ReadPath

variable [LabelCrate] {w : World} {n : ℕ}

open Integrity (Draws)

/-- The world at the end of a walk. The directories in which a name was looked up taint the thread. -/
def World.walked (w : World) (s : Space) (ls : List Lookup) : World :=
  (w.inSpace s).relabel (taints (ls.map (·.label)) w.currentLabel)

/-- The loop of `read_path` takes the walk. -/
theorem exec_readPathLoop {e : DirEntry} {path : Path} {ls : List Lookup} {r : Option DirEntry}
    {s' : Space} (h : Walks w.space e path ls r s') (hn : 0 < n)
    (hdraws : s' = w.space ∨ Draws n w) :
    exec (FS.readPathLoop n (some e) path) w = (resolved r, w.walked s' ls) := by
  generalize hs : w.space = s at h hdraws
  induction h generalizing w with
  | arrived =>
    subst hs
    rfl
  | @name s s' u o name e path ls r ho he h ih =>
    subst hs
    unfold FS.readPathLoop
    rw [exec_bind_ok (Directory.exec_list (decode_of_eq ho)), he]
    exact ih (w := w.relabel (lub o.label w.currentLabel)) rfl hdraws
  | @missing s u o name path ho he =>
    subst hs
    unfold FS.readPathLoop
    rw [exec_bind_ok (Directory.exec_list (decode_of_eq ho)), he]
    cases path <;> rfl
  | @facet s s₁ s' d v f path ls r hv h ih =>
    subst hs
    obtain ⟨hopen, hrest⟩ := hv.once h hdraws
    unfold FS.readPathLoop
    rw [exec_bind_ok (exec_open_of_opens hv hn hopen)]
    refine ih (w := w.inSpace s₁) rfl (hrest.imp_right ?_)
    rintro ⟨rfl, hdraws⟩
    exact hdraws
  | @misfit s e c path hno =>
    subst hs
    cases e <;> cases c <;> first | rfl | exact absurd trivial hno

/-- A path that starts with a facet. -/
def Path.startsWithFacet : Path → Bool
  | .facet _ :: _ => true
  | _ => false

/-- `read_path` takes the walk from the root. -/
theorem exec_readPath_walk {path : Path} {ls : List Lookup} {r : Option DirEntry} {s' : Space}
    (hroot : ∃ o : Labeled Directory, w.store FS.rootRef = some (.encode o))
    (hpath : path.startsWithFacet = false)
    (h : Walks w.space (.directory FS.rootRef) path ls r s') (hn : 0 < n)
    (hdraws : s' = w.space ∨ Draws n w) :
    exec (FS.readPath n path) w = (resolved r, w.walked s' ls) := by
  rw [← exec_readPathLoop h hn hdraws]
  cases path with
  | nil => rfl
  | cons c path =>
    cases c with
    | facet f => cases hpath
    | dscrp name =>
      obtain ⟨o, ho⟩ := hroot
      have hstore : w.store.root = o := by
        unfold Store.root
        rw [decode_of_eq ho, Option.getD_some]
      rw [exec_readPath, hstore, FS.readPathLoop, exec_bind_ok (Directory.exec_list (decode_of_eq ho))]

/-! ### `DentOpen`, one component at a time -/

/-- The entry that `DentOpen` is asked for. -/
def PathComponent.entry : PathComponent → Pb.OpenEntry
  | .dscrp name => .name name
  | .facet f => .facet (.ofBuckle f)

/-- A guest opens the components of a path one by one, and stops when one cannot be opened. -/
def dentOpenEach (rounds : ℕ) : ℕ → Path → M (Option ℕ)
  | fd, [] => return some fd
  | fd, c :: path => do
      match ← SyscallProcessor.doSyscall rounds (.dentOpen fd (some c.entry)) with
      | .sent (.dentOpenResult true fd' _) => dentOpenEach rounds fd' path
      | _ => return none

/-- A `DentOpen` of a name that is there. -/
theorem exec_dentOpen_name {fd : ℕ} {u : Uid} {o : Labeled Directory} {name : String} {e : DirEntry}
    (hfd : w.dents fd = some (.directory u)) (ho : w.store u = some (.encode o))
    (he : o.data.entries[name]? = some e) :
    exec (SyscallProcessor.doSyscall n (.dentOpen fd (some (.name name)))) w =
      exec (newDent e >>= fun fd' => pure (SyscallProcessor.Outcome.sent
        (.dentOpenResult true fd' e.kind))) (w.relabel (lub o.label w.currentLabel)) := by
  unfold SyscallProcessor.doSyscall SyscallProcessor.serve SyscallProcessor.dentOpen
    SyscallProcessor.openEntry
  simp only [exec_bind, exec_dent, exec_unwrap_some, hfd, Directory.exec_list (decode_of_eq ho), he]
  rfl

/-- The entry that has been opened is under the new descriptor. -/
theorem exec_dentOpenEach_cons {fd : ℕ} {c : PathComponent} {e : DirEntry} {kind : DentKind}
    {w₁ : World} (path : Path)
    (h : exec (SyscallProcessor.doSyscall n (.dentOpen fd (some c.entry))) w =
      exec (newDent e >>= fun fd' => pure (SyscallProcessor.Outcome.sent
        (.dentOpenResult true fd' kind))) w₁) :
    exec (dentOpenEach n fd (c :: path)) w = exec (dentOpenEach n w₁.maxDentId path)
      { w₁ with toThread := w₁.toThread.addDent e } := by
  have hcall : exec (SyscallProcessor.doSyscall n (.dentOpen fd (some c.entry))) w =
      (.ok (.sent (.dentOpenResult true w₁.maxDentId kind)),
        { w₁ with toThread := w₁.toThread.addDent e }) := by
    rw [h, exec_bind_ok (exec_newDent e w₁), exec_pure]
  rw [dentOpenEach, exec_bind_ok hcall]

/-- They take the walk too. -/
theorem exec_dentOpenEach {e e' : DirEntry} {path : Path} {ls : List Lookup} {s' : Space}
    (h : Walks w.space e path ls (some e') s') (hn : 0 < n) (hdraws : s' = w.space ∨ Draws n w)
    {fd : ℕ} (hfd : w.dents fd = some e) :
    ∃ fd' w', exec (dentOpenEach n fd path) w = (.ok (some fd'), w') ∧ w'.dents fd' = some e' ∧
      w'.currentLabel = taints (ls.map (·.label)) w.currentLabel ∧ w'.store = s'.store := by
  generalize hs : w.space = s at h hdraws
  generalize hr : some e' = r at h
  induction h generalizing w fd with
  | arrived =>
    subst hs
    cases hr
    exact ⟨fd, w, rfl, hfd, rfl, rfl⟩
  | @name s s' u o name e path ls r ho he h ih =>
    subst hs
    rw [exec_dentOpenEach_cons path (exec_dentOpen_name hfd ho he)]
    let w₁ := w.relabel (lub o.label w.currentLabel)
    exact ih (w := { w₁ with toThread := w₁.toThread.addDent e }) (Function.update_self ..) rfl
      hdraws hr
  | missing ho he => cases hr
  | @facet s s₁ s' d v f path ls r hv h ih =>
    subst hs
    obtain ⟨hopen, hrest⟩ := hv.once h hdraws
    have hcall : exec (SyscallProcessor.doSyscall n
        (.dentOpen fd (some (PathComponent.facet f).entry))) w =
        exec (newDent (.directory v) >>= fun fd' => pure (SyscallProcessor.Outcome.sent
          (.dentOpenResult true fd' .dentDirectory))) (w.inSpace s₁) := by
      have hfacet : (PathComponent.facet f).entry.facet? = some f := Pb.into_ofBuckle f
      rw [exec_dentOpen_facet n hfd hfacet, exec_bind_ok (exec_open_of_opens hv hn hopen)]
    rw [exec_dentOpenEach_cons path hcall]
    let w₁ := w.inSpace s₁
    refine ih (w := { w₁ with toThread := w₁.toThread.addDent (.directory v) })
      (Function.update_self ..) rfl (hrest.imp_right ?_) hr
    rintro ⟨rfl, hdraws⟩
    exact hdraws
  | misfit hno => cases hr

/-! ### The claim of the documentation -/

/-- `read_path` is the walk from the root: it returns the entry that the walk arrives at, and
`BadPath` if it arrives nowhere; the directories of the names that are looked up taint the thread.
Where it arrives, the calls of `DentOpen` from descriptor 0 lead to the same entry, the same label and
the same store. -/
structure ComponentWise (n : ℕ) (w : World) (path : Path) : Prop where
  arrives : ∀ e, (exec (FS.readPath n path) w).1 = .ok e ↔
    ∃ ls s', Walks w.space (.directory FS.rootRef) path ls (some e) s'
  lost : (∀ e ls s', ¬Walks w.space (.directory FS.rootRef) path ls (some e) s') →
    (exec (FS.readPath n path) w).1 = .error (.err .badPath)
  label : ∃ ls r s', Walks w.space (.directory FS.rootRef) path ls r s' ∧
    (exec (FS.readPath n path) w).2.currentLabel = taints (ls.map (·.label)) w.currentLabel
  opens : ∀ e w', exec (FS.readPath n path) w = (.ok e, w') →
    ∃ fd w'', exec (dentOpenEach n 0 path) w = (.ok (some fd), w'') ∧ w''.dents fd = some e ∧
      w''.currentLabel = w'.currentLabel ∧ w''.store = w'.store

/-- A path that starts with a facet leads to the root. -/
theorem exec_readPath_facet {path : Path} (h : path.startsWithFacet = true) :
    exec (FS.readPath n path) w = (.ok (.directory FS.rootRef), w) := by
  cases path with
  | nil => cases h
  | cons c path =>
    cases c with
    | dscrp name => cases h
    | facet f => rfl

/-- **`read_path` is the component-wise walk, exactly for the paths that do not start with a facet**: on
an initialized store, if a free uid is drawn in time. -/
theorem componentWise_iff (hinit : w.store.Initialized) (hdraws : Draws n w)
    (hfd : w.dents 0 = some (.directory FS.rootRef)) (path : Path) :
    ComponentWise n w path ↔ path.startsWithFacet = false := by
  constructor
  · intro h
    by_contra hfacet
    rw [Bool.not_eq_false] at hfacet
    obtain ⟨ls, s', hwalk⟩ := (h.arrives (.directory FS.rootRef)).1
      (congrArg Prod.fst (exec_readPath_facet hfacet))
    cases hwalk with
    | arrived => cases hfacet
    | name => cases hfacet
  · intro hpath
    obtain ⟨ls, r, s', hwalk⟩ := exists_walk (s := w.space) (e := .directory FS.rootRef) path hinit hinit.root
      (exists_drawn hdraws)
    have hexec := exec_readPath_walk hinit.root hpath hwalk hdraws.pos (.inr hdraws)
    refine ⟨fun e => ?_, fun hlost => ?_, ⟨ls, r, s', hwalk, by rw [hexec]; rfl⟩, ?_⟩
    · rw [hexec]
      constructor
      · intro he
        cases r with
        | none => cases he
        | some e' =>
          cases he
          exact ⟨ls, s', hwalk⟩
      · rintro ⟨ls', s'', hwalk'⟩
        obtain ⟨-, rfl, -⟩ := hwalk.unique hwalk'
        rfl
    · rw [hexec]
      cases r with
      | none => rfl
      | some e => exact absurd hwalk (hlost e ls s')
    · intro e w' he
      rw [hexec] at he
      cases r with
      | none => cases he
      | some e' =>
        cases he
        obtain ⟨fd, w'', hopen, hfd', hlabel, hstore⟩ :=
          exec_dentOpenEach hwalk hdraws.pos (.inr hdraws) hfd
        exact ⟨fd, w'', hopen, hfd', hlabel, hstore⟩

end ReadPath

/-! ### Reachable states -/

section Runs

variable [LabelCrate] {ι : Type} [DecidableEq ι] (rounds : ℕ) (jobs : ι → Integrity.Job)
  (labels : ι → Buckle) (w : World)

/-- The store stays initialized: whatever any number of processors do, under every schedule. -/
theorem initialized_viewOf
    (hdigest : ∀ bytes, Blobstore.splitsAtTwo (w.host.digestHex bytes) = true)
    (schedule : List ι) (i : ι) :
    (Integrity.viewOf rounds jobs labels w schedule i).store.Initialized := by
  have hinv := (Integrity.runProcessors_holds rounds jobs labels w hdigest schedule).inv
  have hintegral := Integrity.integral_viewOf rounds jobs labels w hdigest schedule i
  have stored : ∀ {T : Type} [Codec T] {x : Option Stored},
      (∃ t : T, x.bind Stored.decode = some t) → ∃ t : T, x = some (.encode t) :=
    fun ⟨t, ht⟩ => ⟨t, decode_eq_some ht⟩
  exact ⟨stored (Integrity.resolves_iff_refers.2 hinv.root),
    fun u o name v hu he => stored (hintegral.entry u o name _ hu he),
    fun u o name v hu he => stored (hintegral.entry u o name _ hu he),
    fun u D f v hu hf => stored (hintegral.facet u D f v hu (FacetedDirectory.mem_of_find hf))⟩

end Runs

end Faasten

/-! ### A facet in front -/

namespace Faasten.FacetInFront

open scoped Dc

/-- The root leads to itself and to a faceted directory without facets. -/
def root : Labeled Directory :=
  ⟨publicLabel, ⟨((∅ : Std.ExtTreeMap String DirEntry compare).insert "loop"
    (.directory FS.rootRef)).insert "faceted" (.facetedDirectory 1)⟩⟩

def store : Store :=
  (Store.empty.put FS.rootRef (.encode root)).put 1 (.encode ({} : FacetedDirectory))

/-- A function without privilege starts. -/
def start : World :=
  (exec (SyscallProcessor.new publicLabel .dcTrue) (.quiet (.idle publicLabel) store)).2

theorem root_stored : store FS.rootRef = some (.encode root) :=
  (Store.put_of_ne _ _ (by decide)).trans (Store.put_self ..)

theorem store_cases {u : Uid} {o : Object} (h : store u = some (.object o)) :
    o = .facetedDirectory {} ∨ o = .directory root := by
  rcases Store.of_put h with ⟨-, ho⟩ | h
  · exact .inl (Stored.object.inj ho).symm
  · rcases Store.of_put h with ⟨-, ho⟩ | h
    · exact .inr (Stored.object.inj ho).symm
    · cases h

theorem store_initialized : store.Initialized where
  root := ⟨_, root_stored⟩
  directory u o name v hu he := by
    rcases store_cases hu with ho | ho
    · cases ho
    · cases ho
      simp only [root, Std.ExtTreeMap.getElem?_insert] at he
      split_ifs at he with h₁ h₂
      · cases he
      · cases he
        exact ⟨_, root_stored⟩
      · simp at he
  faceted u o name v hu he := by
    rcases store_cases hu with ho | ho
    · cases ho
    · cases ho
      simp only [root, Std.ExtTreeMap.getElem?_insert] at he
      split_ifs at he with h₁ h₂
      · cases he
        exact ⟨_, Store.put_self ..⟩
      · cases he
      · simp at he
  facet u D f v hu hf := by
    rcases store_cases hu with ho | ho
    · cases ho
      cases hf
    · cases ho

theorem draws_start : Integrity.Draws 1 start := ⟨0, by omega, by decide⟩

/-- Around the loop and into a facet that is allocated on the way. -/
theorem loop_componentWise :
    ComponentWise 1 start [.dscrp "loop", .dscrp "faceted", .facet publicLabel] :=
  (componentWise_iff (w := start) store_initialized draws_start rfl _).2 rfl

/-- A path that starts with a facet leads to the root, although there is no such facet and no such
name. -/
theorem facet_leads_to_root :
    exec (FS.readPath 1 [.facet publicLabel, .dscrp "missing"]) start =
        (.ok (.directory FS.rootRef), start) ∧
      ¬ComponentWise 1 start [.facet publicLabel, .dscrp "missing"] := by
  refine ⟨exec_readPath_facet rfl, fun h => ?_⟩
  obtain ⟨ls, s', hwalk⟩ := (h.arrives (.directory FS.rootRef)).1 rfl
  cases hwalk

end Faasten.FacetInFront
