import Mathlib
import Faasten.DcLabels
import Faasten.Monitor.Floating
import Faasten.System

/-!
# What a clearance shows of a faceted directory

A faceted directory has no label of its own: `list` shows the facets whose labels flow to the
clearance it is given. `open` allocates a facet that is not there yet, and checks no label. So a
thread can show something to an observer below its own label, by asking for a facet that the
observer can see.

* `Opening` is a call that may open facets: `DentOpen` or `read_path`; `Opening.Asks` says, from the
  state before the call, which facet of which faceted directory it asks for.
* `Unaffected`: what a clearance shows is the same after the call as before it, now and after
  any facets that are opened later.
* `FacetLeak`: a thread above the observer asks for a facet that the observer can see and that is
  not there yet.
* `facets_unaffected`: a call of a thread above the observer leaves what the observer is shown
  unaffected if and only if it is no such leak; and so do all such calls together.
-/

namespace Faasten

open Std Effect SyscallProcessor

/-! ### The effect of `open` -/

section Open

variable {w : World} {d : Uid} {D : FacetedDirectory} {f : Buckle}

/-- The faceted directory with one more facet. -/
def FacetedDirectory.push (D : FacetedDirectory) (f : Buckle) (u : Uid) : FacetedDirectory :=
  ⟨D.facets ++ [(f, u)]⟩

theorem FacetedDirectory.find_push (D : FacetedDirectory) (f g : Buckle) (v : Uid) :
    (D.push f v).find g = (D.find g).or (if f = g then some v else none) := by
  simp only [find, push, List.findSome?_append, List.findSome?_cons, List.findSome?_nil]
  cases if f = g then some v else none <;> rfl

/-- Opening a facet of another faceted directory. -/
theorem openLoop_other (n : ℕ) {self : Uid} (hne : self ≠ d) {v : Stored}
    (hd : w.store d = some v) (k : ℕ) (E : Option FacetedDirectory) :
    (exec (FacetedDirectory.openLoop n self f k E) w).2.store d = some v := by
  induction k generalizing w E with
  | zero => exact hd
  | succ k ih =>
    unfold FacetedDirectory.openLoop
    split
    · exact hd
    · obtain ⟨r, hr⟩ | ⟨u, r, hu, hr⟩ :=
        ObjectRef.exec_setNewId n (⟨f, {}⟩ : Labeled Directory) w
      · rw [exec_bind_error hr]
        exact hd
      · rw [exec_bind_ok hr]
        have hdu : d ≠ u := fun h => by simp [← h, hd] at hu
        simp only [ObjectRef.cas, exec_bind, exec_cas]
        split_ifs
        · simpa [hne.symm, hdu] using hd
        · exact ih (by simpa [hdu] using hd) _

/-- Opening a facet that is there. -/
theorem exec_open_found (n : ℕ) (hd : w.store d = some (.encode D)) {u : Uid}
    (hf : D.find f = some u) :
    exec (FacetedDirectory.open' (n + 1) d f) w = (.ok u, w) := by
  unfold FacetedDirectory.open'
  rw [exec_bind_ok (ObjectRef.exec_get d w), hd, Option.bind_some, Stored.decode_encode]
  unfold FacetedDirectory.openLoop
  simp only [Option.bind_some, hf]
  rfl

/-- Opening a facet that is not there, when a free uid is found. -/
theorem exec_open_allocated {n : ℕ} (hd : w.store d = some (.encode D)) (hf : D.find f = none)
    {u : Uid} {r : Stream' Uid} (hu : w.store u = none)
    (h : exec (ObjectRef.setNewId (n + 1) (⟨f, {}⟩ : Labeled Directory)) w = (.ok u, { w with
      rand := r, store := w.store.put u (.encode (⟨f, {}⟩ : Labeled Directory)) })) :
    exec (FacetedDirectory.open' (n + 1) d f) w =
      (.ok u, { w with
        rand := r
        store := (w.store.put u (.encode (⟨f, {}⟩ : Labeled Directory))).put d
          (.encode (D.push f u)) }) := by
  have hdu : d ≠ u := fun h => by simp [← h, hd] at hu
  have hst : w.store.put u (.encode (⟨f, {}⟩ : Labeled Directory)) d = some (.encode D) :=
    (Store.put_of_ne _ _ hdu).trans hd
  unfold FacetedDirectory.open'
  rw [exec_bind_ok (ObjectRef.exec_get d w), hd, Option.bind_some, Stored.decode_encode]
  unfold FacetedDirectory.openLoop
  simp only [Option.bind_some, hf]
  rw [exec_bind_ok h]
  simp only [ObjectRef.cas, exec_bind, exec_cas, hst, Option.map_some, if_true, exec_pure]
  rfl

/-- Opening a facet that is not there allocates it, unless no free uid is found. -/
theorem exec_open_new (n : ℕ) (hd : w.store d = some (.encode D)) (hf : D.find f = none) :
    (∃ r, exec (FacetedDirectory.open' n d f) w = (.error .diverge, { w with rand := r })) ∨
    ∃ u r, w.store u = none ∧ exec (FacetedDirectory.open' n d f) w =
      (.ok u, { w with
        rand := r
        store := (w.store.put u (.encode (⟨f, {}⟩ : Labeled Directory))).put d
          (.encode (D.push f u)) }) := by
  cases n with
  | zero => exact .inl ⟨w.rand, rfl⟩
  | succ n =>
    obtain ⟨r, hr⟩ | ⟨u, r, hu, hr⟩ :=
      ObjectRef.exec_setNewId (n + 1) (⟨f, {}⟩ : Labeled Directory) w
    · refine .inl ⟨r, ?_⟩
      unfold FacetedDirectory.open'
      rw [exec_bind_ok (ObjectRef.exec_get d w), hd, Option.bind_some, Stored.decode_encode]
      unfold FacetedDirectory.openLoop
      simp only [Option.bind_some, hf]
      exact exec_bind_error hr
    · exact .inr ⟨u, r, hu, exec_open_allocated hd hf hu hr⟩

/-- What opening a facet of any faceted directory does to `d`. -/
theorem open_effect (n : ℕ) (self : Uid) (hd : w.store d = some (.encode D)) :
    (exec (FacetedDirectory.open' n self f) w).2.store d = some (.encode D) ∨
    (self = d ∧ D.find f = none ∧ ∃ u,
      (exec (FacetedDirectory.open' n self f) w).2.store d = some (.encode (D.push f u))) := by
  by_cases hself : self = d
  · subst hself
    rcases hf : D.find f with _ | u
    · obtain ⟨r, hr⟩ | ⟨u, r, -, hr⟩ := exec_open_new n hd hf
      · rw [hr]; exact .inl hd
      · rw [hr]; exact .inr ⟨rfl, rfl, u, Store.put_self ..⟩
    · cases n with
      | zero => exact .inl hd
      | succ n =>
        rw [exec_open_found n hd hf]
        exact .inl hd
  · unfold FacetedDirectory.open'
    rw [exec_bind_ok (ObjectRef.exec_get self w)]
    exact .inl (openLoop_other n hself hd n _)

/-- A facet that `open` returns is one that was there, or a directory that is still empty. -/
theorem openLoop_ok (n : ℕ) {self : Uid} {k : ℕ} {v : Uid} {w' : World}
    (hself : (w.store self).bind (Stored.decode (T := FacetedDirectory)) = none)
    (h : exec (FacetedDirectory.openLoop n self f k none) w = (.ok v, w')) :
    w'.store v = some (.encode (⟨f, {}⟩ : Labeled Directory)) := by
  induction k generalizing w with
  | zero => cases h
  | succ k ih =>
    unfold FacetedDirectory.openLoop at h
    simp only [Option.bind_none] at h
    obtain ⟨u, w₁, h₁, h₂⟩ := exec_bind_eq_ok h
    obtain ⟨hu, r, rfl⟩ := ObjectRef.setNewId_ok h₁
    obtain ⟨c, w₂, h₃, h₄⟩ := exec_bind_eq_ok h₂
    have hself' : (w.store.put u (.encode (⟨f, {}⟩ : Labeled Directory)) self).bind
        (Stored.decode (T := FacetedDirectory)) = none := by
      by_cases hsu : self = u
      · rw [hsu, Store.put_self]; rfl
      · rwa [Store.put_of_ne _ _ hsu]
    simp only [ObjectRef.cas, exec_bind, exec_cas, Option.map_none] at h₃
    split_ifs at h₃ with hc
    · cases h₃; cases h₄
      have hvs : v ≠ self := by
        rintro rfl
        simp at hc
      exact (Store.put_of_ne _ _ hvs).trans (Store.put_self ..)
    · cases h₃
      rw [hself'] at h₄
      exact ih hself' h₄

theorem open_ok (n : ℕ) {self : Uid} {v : Uid} {w' : World}
    (h : exec (FacetedDirectory.open' n self f) w = (.ok v, w')) :
    (∃ E : FacetedDirectory, w.store self = some (.encode E) ∧ E.find f = some v ∧ w' = w) ∨
      w'.store v = some (.encode (⟨f, {}⟩ : Labeled Directory)) := by
  rcases hE : (w.store self).bind (Stored.decode (T := FacetedDirectory)) with _ | E
  · unfold FacetedDirectory.open' at h
    rw [exec_bind_ok (ObjectRef.exec_get self w), hE] at h
    exact .inr (openLoop_ok n hE h)
  · have hst := decode_eq_some hE
    rcases hf : E.find f with _ | u
    · obtain ⟨r, hr⟩ | ⟨u, r, hu, hr⟩ := exec_open_new n hst hf
      · rw [hr] at h; cases h
      · rw [hr] at h; cases h
        have hvs : v ≠ self := fun h => by simp [h, hst] at hu
        exact .inr ((Store.put_of_ne _ _ hvs).trans (Store.put_self ..))
    · cases n with
      | zero =>
        unfold FacetedDirectory.open' at h
        rw [exec_bind_ok (ObjectRef.exec_get self w)] at h
        cases h
      | succ n =>
        rw [exec_open_found n hst hf] at h
        cases h
        exact .inl ⟨E, hst, hf, rfl⟩

end Open

/-! ### Calls that open facets -/

/-- A call that may open facets. -/
inductive Opening
  | dentOpen (fd : ℕ) (entry : Option Pb.OpenEntry)
  | readPath (path : Path)

/-- Walking the path from an entry, through facets that are there, leads to `d` and asks for its
facet `f`. -/
def Path.AsksFrom (s : Store) (d : Uid) (f : Buckle) : Option DirEntry → Path → Prop
  | some (.directory u), .dscrp name :: path =>
      ∃ o : Labeled Directory, s u = some (.encode o) ∧ AsksFrom s d f o.data.entries[name]? path
  | some (.facetedDirectory u), .facet g :: path => (u = d ∧ g = f) ∨
      ∃ (E : FacetedDirectory) (v : Uid), s u = some (.encode E) ∧ E.find g = some v ∧
        AsksFrom s d f (some (.directory v)) path
  | _, _ => False

/-- The root directory of the store. -/
def Store.root (s : Store) : Labeled Directory :=
  ((s FS.rootRef).bind Stored.decode).getD FS.emptyRoot

/-- The same from the root. -/
def Path.Asks (s : Store) (d : Uid) (f : Buckle) : Path → Prop
  | .dscrp comp :: path => Path.AsksFrom s d f s.root.data.entries[comp]? path
  | _ => False

section Crate

variable [LabelCrate]

/-- The facet that the entry of a `DentOpen` names. -/
def Pb.OpenEntry.facet? : Pb.OpenEntry → Option Faasten.Buckle
  | .name text => LabelCrate.parse text
  | .facet label => label.into

namespace Opening

/-- The call as a program. -/
def run (rounds : ℕ) : Opening → M Unit
  | .dentOpen fd entry => do
      let _ ← doSyscall rounds (.dentOpen fd entry)
      return ()
  | .readPath path => do
      let _ ← FS.readPath rounds path
      return ()

/-- The call asks for the facet `f` of `d`. -/
def Asks (w : World) (d : Uid) (f : Buckle) : Opening → Prop
  | .dentOpen fd entry =>
      w.dents fd = some (.facetedDirectory d) ∧ entry.bind (·.facet?) = some f
  | .readPath path => Path.Asks w.store d f path

end Opening

section Effect

variable {w : World} {d : Uid} {D : FacetedDirectory}

/-- A path ends in an empty directory. -/
theorem readPathLoop_empty (n : ℕ) {v : Uid} {f : Buckle} (path : Path)
    (hv : w.store v = some (.encode (⟨f, {}⟩ : Labeled Directory))) :
    (exec (FS.readPathLoop n (some (.directory v)) path) w).2.store = w.store := by
  cases path with
  | nil => rfl
  | cons c path =>
    cases c with
    | facet g => rfl
    | dscrp name =>
      unfold FS.readPathLoop Directory.list
      simp only [exec_bind, ObjectRef.exec_read_encode hv, exec_pure]
      have hnone : (∅ : ExtTreeMap String DirEntry compare)[name]? = none := by simp
      rw [hnone]
      cases path <;> rfl

/-- What walking a path does to `d`: nothing, or it allocates a facet that the path asks for. -/
theorem readPathLoop_effect (n : ℕ) (cur : Option DirEntry) (path : Path)
    (hd : w.store d = some (.encode D)) :
    (exec (FS.readPathLoop n cur path) w).2.store d = some (.encode D) ∨
    ∃ f u, Path.AsksFrom w.store d f cur path ∧ D.find f = none ∧
      (exec (FS.readPathLoop n cur path) w).2.store d = some (.encode (D.push f u)) := by
  induction path generalizing w cur with
  | nil =>
    cases cur with
    | none => exact .inl hd
    | some e => exact .inl hd
  | cons c path ih =>
    unfold FS.readPathLoop
    split
    · simp_all
    · rename_i u name path' hpath
      cases hpath
      unfold Directory.list
      rcases ho : (w.store u).bind (Stored.decode (T := Labeled Directory)) with _ | o
      · rw [exec_bind_error (exec_bind_error (ObjectRef.exec_read_none ho))]
        exact .inl hd
      · have hread := ObjectRef.exec_read ho
        simp only [exec_bind, hread, exec_pure]
        rcases ih (w := w.relabel (lub o.label w.currentLabel)) o.data.entries[name]? hd with
          h | ⟨f, v, hasks, hf, h⟩
        · exact .inl h
        · exact .inr ⟨f, v, ⟨o, decode_eq_some ho, hasks⟩, hf, h⟩
    · rename_i u g path' hpath
      cases hpath
      rcases hx : exec (FacetedDirectory.open' n u g) w with ⟨e | v, w'⟩
      · rw [exec_bind_error hx]
        have heff := open_effect (f := g) n u hd
        rw [hx] at heff
        rcases heff with h | ⟨hu, hg, v, h⟩
        · exact .inl h
        · exact .inr ⟨g, v, .inl ⟨hu, rfl⟩, hg, h⟩
      · rw [exec_bind_ok hx]
        rcases open_ok n hx with ⟨E, hE, hg, rfl⟩ | hnew
        · -- the facet was there, and the walk goes on in the same store
          rcases ih (some (.directory v)) hd with h | ⟨f, v', hasks, hf, h⟩
          · exact .inl h
          · exact .inr ⟨f, v', .inr ⟨E, v, hE, hg, hasks⟩, hf, h⟩
        · -- the facet is new, and the walk ends there
          rw [readPathLoop_empty n _ hnew]
          have heff := open_effect (f := g) n u hd
          rw [hx] at heff
          rcases heff with h | ⟨hu, hg, v', h⟩
          · exact .inl h
          · exact .inr ⟨g, v', .inl ⟨hu, rfl⟩, hg, h⟩
    · exact .inl hd

/-- A path that asks for a facet of `d` that is not there allocates it. -/
theorem readPathLoop_allocates (n : ℕ) {cur : Option DirEntry} {path : Path} {f : Buckle}
    (hd : w.store d = some (.encode D)) (hf : D.find f = none)
    (hasks : Path.AsksFrom w.store d f cur path) :
    (exec (FS.readPathLoop n cur path) w).1 = .error .diverge ∨
    ∃ u, (exec (FS.readPathLoop n cur path) w).2.store d = some (.encode (D.push f u)) := by
  induction path generalizing w cur with
  | nil =>
    cases cur with
    | none => exact hasks.elim
    | some e => cases e <;> exact hasks.elim
  | cons c path ih =>
    unfold Path.AsksFrom at hasks
    split at hasks
    · rename_i u name path' hpath
      cases hpath
      obtain ⟨o, ho, hasks⟩ := hasks
      unfold FS.readPathLoop Directory.list
      simp only [exec_bind, ObjectRef.exec_read_encode ho, exec_pure]
      exact ih (w := w.relabel (lub o.label w.currentLabel)) hd hasks
    · rename_i u g path' hpath
      cases hpath
      unfold FS.readPathLoop
      rcases hasks with ⟨rfl, rfl⟩ | ⟨E, v, hE, hg, hasks⟩
      · obtain ⟨r, hr⟩ | ⟨v, r, hv, hr⟩ := exec_open_new n hd hf
        · rw [exec_bind_error hr]; exact .inl rfl
        · have hvd : v ≠ u := fun h => by simp [h, hd] at hv
          rw [exec_bind_ok hr, readPathLoop_empty n _
            ((Store.put_of_ne _ _ hvd).trans (Store.put_self ..))]
          exact .inr ⟨v, Store.put_self ..⟩
      · cases n with
        | zero =>
          refine .inl ?_
          have hx : exec (FacetedDirectory.open' 0 u g) w = (.error .diverge, w) := rfl
          rw [exec_bind_error hx]
        | succ n =>
          rw [exec_bind_ok (exec_open_found n hE hg)]
          exact ih hd hasks
    · exact hasks.elim

theorem exec_readPath (n : ℕ) (name : String) (path : Path) (w : World) :
    exec (FS.readPath n (.dscrp name :: path)) w =
      exec (FS.readPathLoop n w.store.root.data.entries[name]? path)
        (w.relabel (lub w.store.root.label w.currentLabel)) := by
  unfold FS.readPath
  rw [exec_bind_ok (FS.exec_root w), exec_bind_ok (Labeled.exec_unlabel ..)]
  rfl

/-- A `DentOpen` of a facet. -/
theorem exec_dentOpen_facet (n : ℕ) {fd : ℕ} {entry : Pb.OpenEntry} {self : Uid} {f : Buckle}
    (hfd : w.dents fd = some (.facetedDirectory self)) (hf : entry.facet? = some f) :
    exec (doSyscall n (.dentOpen fd (some entry))) w =
      exec (FacetedDirectory.open' n self f >>= fun dir => newDent (.directory dir) >>= fun fd' =>
        pure (.sent (.dentOpenResult true fd' .dentDirectory))) w := by
  unfold doSyscall serve dentOpen openEntry
  cases entry with
  | name text =>
    change LabelCrate.parse text = some f at hf
    simp only [exec_bind, exec_dent, exec_unwrap_some, hfd, hf]
    rcases exec (FacetedDirectory.open' n self f) w with ⟨e | v, w'⟩ <;> rfl
  | facet label =>
    change label.into = some f at hf
    simp only [exec_bind, exec_dent, exec_unwrap_some, hfd, hf]
    rcases exec (FacetedDirectory.open' n self f) w with ⟨e | v, w'⟩ <;> rfl

/-- Any other `DentOpen` leaves the store as it is. -/
theorem exec_dentOpen_other (n : ℕ) {fd : ℕ} {entry : Option Pb.OpenEntry}
    (h : ∀ self f, w.dents fd = some (.facetedDirectory self) → entry.bind (·.facet?) ≠ some f) :
    (exec (doSyscall n (.dentOpen fd entry)) w).2.store = w.store := by
  unfold doSyscall serve dentOpen openEntry
  cases entry with
  | none => rfl
  | some entry =>
    simp only [exec_bind, exec_dent, exec_unwrap_some]
    rcases hfd : w.dents fd with _ | e
    · cases entry <;> rfl
    · cases e with
      | directory u =>
        cases entry with
        | facet label => rfl
        | name text =>
          simp only [Directory.list, exec_bind]
          rcases ho : (w.store u).bind (Stored.decode (T := Labeled Directory)) with _ | o
          · simp only [ObjectRef.exec_read_none ho]
          · simp only [ObjectRef.exec_read ho, exec_pure]
            cases o.data.entries[text]? <;> rfl
      | facetedDirectory self =>
        have hnone := h self
        rw [hfd] at hnone
        cases entry with
        | facet label =>
          rcases hf : label.into with _ | f
          · simp only [exec_bind, hf, exec_unwrap_none]
          · exact absurd hf (hnone f rfl)
        | name text =>
          rcases hf : LabelCrate.parse text with _ | f
          · simp only [hf, exec_pure]
          · exact absurd hf (hnone f rfl)
      | _ => cases entry <;> rfl

omit [LabelCrate] in
/-- A program whose value is dropped. -/
theorem exec_discard {α : Type} (m : M α) (w : World) :
    exec (m >>= fun _ => pure ()) w = ((exec m w).1.map fun _ => (), (exec m w).2) := by
  rw [exec_bind]
  rcases exec m w with ⟨e | v, w'⟩ <;> rfl

namespace Opening

/-- What a call does to `d`: nothing, or it allocates a facet that it asks for. -/
theorem effect (n : ℕ) (c : Opening) (hd : w.store d = some (.encode D)) :
    (exec (c.run n) w).2.store d = some (.encode D) ∨
    ∃ f u, c.Asks w d f ∧ D.find f = none ∧
      (exec (c.run n) w).2.store d = some (.encode (D.push f u)) := by
  cases c with
  | dentOpen fd entry =>
    rw [run, exec_discard]
    by_cases h : ∃ self f, w.dents fd = some (.facetedDirectory self) ∧
        entry.bind (·.facet?) = some f
    · obtain ⟨self, f, hfd, hf⟩ := h
      obtain ⟨entry, rfl, hf'⟩ := Option.bind_eq_some_iff.1 hf
      have hstore : (exec (doSyscall n (.dentOpen fd (some entry))) w).2.store =
          (exec (FacetedDirectory.open' n self f) w).2.store := by
        rw [exec_dentOpen_facet n hfd hf', exec_bind]
        rcases exec (FacetedDirectory.open' n self f) w with ⟨e | v, w'⟩ <;> rfl
      rw [hstore]
      rcases open_effect (f := f) n self hd with h | ⟨rfl, hnone, u, h⟩
      · exact .inl h
      · exact .inr ⟨f, u, ⟨hfd, hf⟩, hnone, h⟩
    · rw [exec_dentOpen_other n fun self f hfd hf => h ⟨self, f, hfd, hf⟩]
      exact .inl hd
  | readPath path =>
    rw [run, exec_discard]
    cases path with
    | nil => exact .inl hd
    | cons comp path =>
      cases comp with
      | facet g => exact .inl hd
      | dscrp name =>
        rw [exec_readPath]
        exact readPathLoop_effect
          (w := w.relabel (lub w.store.root.label w.currentLabel)) n _ _ hd

/-- A call that asks for a facet of `d` that is not there allocates it. -/
theorem allocates (n : ℕ) {c : Opening} {f : Buckle} (hd : w.store d = some (.encode D))
    (hf : D.find f = none) (hasks : c.Asks w d f) (hret : (exec (c.run n) w).1 ≠ .error .diverge) :
    ∃ u, (exec (c.run n) w).2.store d = some (.encode (D.push f u)) := by
  cases c with
  | dentOpen fd entry =>
    obtain ⟨hfd, hentry⟩ := hasks
    obtain ⟨entry, rfl, hf'⟩ := Option.bind_eq_some_iff.1 hentry
    rw [run, exec_discard] at hret ⊢
    rw [exec_dentOpen_facet n hfd hf'] at hret ⊢
    obtain ⟨r, hr⟩ | ⟨u, r, -, hr⟩ := exec_open_new n hd hf
    · rw [exec_bind_error hr] at hret
      exact absurd rfl hret
    · rw [exec_bind_ok hr]
      exact ⟨u, Store.put_self ..⟩
  | readPath path =>
    cases path with
    | nil => exact hasks.elim
    | cons comp path =>
      cases comp with
      | facet g => exact hasks.elim
      | dscrp name =>
        rw [run, exec_discard, exec_readPath] at hret ⊢
        rcases readPathLoop_allocates
          (w := w.relabel (lub w.store.root.label w.currentLabel)) n hd hf hasks with h | h
        · rw [h] at hret
          exact absurd rfl hret
        · exact h

end Opening

end Effect

/-! ### What a clearance shows -/

section Shown

variable {w w' : World} {d : Uid} {D E : FacetedDirectory} {l : Buckle}

/-- Opening facets of `d`, one after the other. -/
def openEach (rounds : ℕ) (d : Uid) : List Buckle → M Unit
  | [] => return ()
  | f :: fs => do
      let _ ← FacetedDirectory.open' rounds d f
      openEach rounds d fs

/-- Listing `d` with the clearance `l` shows the facet `g`. -/
def World.Shows (w : World) (d : Uid) (l g : Buckle) : Prop :=
  ∃ facets w', exec (FacetedDirectory.list d l) w = (.ok facets, w') ∧ g ∈ facets

/-- Between the two worlds, nothing has changed in what the clearance `l` shows of `d`: any thread
lists the same facets in both, and would so after any facets that are opened later. -/
structure Unaffected (w w' : World) (d : Uid) (l : Buckle) : Prop where
  now : ∀ t, (exec (FacetedDirectory.list d l) (w'.withThread t)).1 =
    (exec (FacetedDirectory.list d l) (w.withThread t)).1
  later : ∀ n fs t v v', exec (openEach n d fs) (w.withThread t) = (.ok (), v) →
    exec (openEach n d fs) (w'.withThread t) = (.ok (), v') →
    ∀ g, v'.Shows d l g ↔ v.Shows d l g

/-- The facets that `l` shows, in the order of their allocation. -/
def FacetedDirectory.seen (D : FacetedDirectory) (l : Buckle) : List (Buckle × Uid) :=
  D.facets.filter fun x => canFlowTo x.1 l

theorem exec_list (hd : w.store d = some (.encode D)) (l : Buckle) :
    exec (FacetedDirectory.list d l) w =
      (.ok (.ofList (D.seen l) LabelCrate.cmp), w.relabel (lub w.currentLabel l)) := by
  unfold FacetedDirectory.list
  have htaint : exec (withCurrentLabel do
      let current ← Access.clone
      Access.set (lub current l)) w = (.ok (), w.relabel (lub w.currentLabel l)) := rfl
  rw [exec_bind_ok htaint, exec_bind_ok (ObjectRef.exec_get ..), World.relabel_store, hd,
    Option.bind_some, Stored.decode_encode]
  rfl

theorem mem_seen_map {g : Buckle} :
    g ∈ (D.seen l).map Prod.fst ↔ g ∈ D.facets.map Prod.fst ∧ canFlowTo g l := by
  simp only [FacetedDirectory.seen, List.mem_map, List.mem_filter]
  constructor
  · rintro ⟨x, ⟨hx, hl⟩, rfl⟩
    exact ⟨⟨x, hx, rfl⟩, hl⟩
  · rintro ⟨⟨x, hx, rfl⟩, hl⟩
    exact ⟨x, ⟨hx, hl⟩, rfl⟩

theorem shows_iff (hd : w.store d = some (.encode D)) {g : Buckle} :
    w.Shows d l g ↔ g ∈ D.facets.map Prod.fst ∧ canFlowTo g l := by
  have hmem : g ∈ ExtTreeMap.ofList (D.seen l) LabelCrate.cmp ↔
      g ∈ D.facets.map Prod.fst ∧ canFlowTo g l := by
    rw [ExtTreeMap.mem_ofList, List.contains_iff_mem, mem_seen_map]
  rw [← hmem]
  unfold World.Shows
  rw [exec_list hd]
  constructor
  · rintro ⟨facets, w', ⟨⟩, hg⟩
    exact hg
  · exact fun hg => ⟨_, _, rfl, hg⟩

theorem FacetedDirectory.seen_push (D : FacetedDirectory) (f : Buckle) (u : Uid) (l : Buckle) :
    (D.push f u).seen l = D.seen l ++ if canFlowTo f l then [(f, u)] else [] := by
  simp only [seen, push, List.filter_append, List.filter_cons, List.filter_nil]

omit [LabelCrate] in
/-- Opening facets adds those that are not there. -/
theorem openEach_ok {n : ℕ} {fs : List Buckle} (hd : w.store d = some (.encode D))
    (h : exec (openEach n d fs) w = (.ok (), w')) :
    ∃ E : FacetedDirectory, w'.store d = some (.encode E) ∧
      ∀ g, g ∈ E.facets.map Prod.fst ↔ g ∈ D.facets.map Prod.fst ∨ g ∈ fs := by
  induction fs generalizing w D with
  | nil =>
    cases h
    exact ⟨D, hd, by simp⟩
  | cons f fs ih =>
    obtain ⟨u, w₁, h₁, h₂⟩ := exec_bind_eq_ok h
    rcases hf : D.find f with _ | v
    · obtain ⟨r, hr⟩ | ⟨v, r, -, hr⟩ := exec_open_new n hd hf
      · rw [hr] at h₁; cases h₁
      · rw [hr] at h₁; cases h₁
        obtain ⟨E, hE, hmem⟩ := ih (Store.put_self ..) h₂
        refine ⟨E, hE, fun g => (hmem g).trans ?_⟩
        simp only [FacetedDirectory.push, List.map_append, List.map_cons, List.map_nil,
          List.mem_append, List.mem_cons, List.not_mem_nil, or_false]
        tauto
    · have hfD : f ∈ D.facets.map Prod.fst := by
        by_contra hnot
        rw [FacetedDirectory.find_eq_none_iff.2 hnot] at hf
        cases hf
      cases n with
      | zero => cases h₁
      | succ n =>
        rw [exec_open_found n hd hf] at h₁
        cases h₁
        obtain ⟨E, hE, hmem⟩ := ih hd h₂
        refine ⟨E, hE, fun g => (hmem g).trans ?_⟩
        simp only [List.mem_cons]
        constructor
        · tauto
        · rintro (h | rfl | h)
          · exact .inl h
          · exact .inl hfD
          · exact .inr h

/-- Faceted directories of which `l` sees the same. -/
theorem Unaffected.of_seen (hd : w.store d = some (.encode D))
    (hd' : w'.store d = some (.encode E)) (hseen : E.seen l = D.seen l) : Unaffected w w' d l where
  now t := by
    rw [exec_list (w := w'.withThread t) hd', exec_list (w := w.withThread t) hd, hseen]
  later n fs t v v' hv hv' g := by
    obtain ⟨F, hF, hmem⟩ := openEach_ok (w := w.withThread t) hd hv
    obtain ⟨F', hF', hmem'⟩ := openEach_ok (w := w'.withThread t) hd' hv'
    rw [shows_iff hF, shows_iff hF', hmem, hmem']
    have hsame : (g ∈ E.facets.map Prod.fst ∧ canFlowTo g l) ↔
        (g ∈ D.facets.map Prod.fst ∧ canFlowTo g l) := by
      rw [← mem_seen_map, ← mem_seen_map, hseen]
    tauto

/-- A new facet that `l` sees is noticed. -/
theorem Unaffected.not_push {f : Buckle} {u : Uid} (hd : w.store d = some (.encode D))
    (hd' : w'.store d = some (.encode (D.push f u))) (hf : D.find f = none) (hl : canFlowTo f l) :
    ¬ Unaffected w w' d l := by
  intro h
  have hnow := h.now w.toThread
  rw [exec_list (w := w'.withThread w.toThread) hd',
    exec_list (w := w.withThread w.toThread) hd] at hnow
  have hmem : f ∈ ExtTreeMap.ofList ((D.push f u).seen l) LabelCrate.cmp := by
    rw [ExtTreeMap.mem_ofList, List.contains_iff_mem, mem_seen_map]
    refine ⟨?_, hl⟩
    simp [FacetedDirectory.push]
  rw [Except.ok.inj hnow, ExtTreeMap.mem_ofList, List.contains_iff_mem, mem_seen_map] at hmem
  exact FacetedDirectory.find_eq_none_iff.1 hf hmem.1

end Shown

/-! ### Threads above the observer -/

section Above

variable {w : World} {d : Uid} {D : FacetedDirectory} {l : Buckle}

/-- The label of the thread cannot flow to `l`, not even with its privilege. -/
def World.Above (w : World) (l : Buckle) : Prop :=
  ¬ canFlowToWithPrivilege w.currentLabel l w.privilege

/-- A thread above `l` asks for a facet of `d` that `l` can see and that is not there yet. -/
def FacetLeak (w : World) (c : Opening) (d : Uid) (l : Buckle) : Prop :=
  w.Above l ∧ ∃ (D : FacetedDirectory) (f : Buckle), w.store d = some (.encode D) ∧
    c.Asks w d f ∧ D.find f = none ∧ canFlowTo f l

/-- Calls of threads above `l`, one after the other, none of which is a leak. -/
inductive AboveRun (d : Uid) (l : Buckle) (w₀ : World) : World → Prop
  | start : AboveRun d l w₀ w₀
  | call {w : World} (h : AboveRun d l w₀ w) (t : Thread) (rounds : ℕ) (c : Opening)
      (habove : (w.withThread t).Above l) (hok : ¬ FacetLeak (w.withThread t) c d l) :
      AboveRun d l w₀ (exec (c.run rounds) (w.withThread t)).2

/-- One call that is no leak changes nothing of what `l` sees. -/
theorem seen_call (n : ℕ) {c : Opening} (hd : w.store d = some (.encode D)) (habove : w.Above l)
    (hok : ¬ FacetLeak w c d l) :
    ∃ E : FacetedDirectory, (exec (c.run n) w).2.store d = some (.encode E) ∧
      E.seen l = D.seen l := by
  rcases c.effect n hd with h | ⟨f, u, hasks, hf, h⟩
  · exact ⟨D, h, rfl⟩
  · have hl : ¬ canFlowTo f l := fun hl => hok ⟨habove, D, f, hd, hasks, hf, hl⟩
    refine ⟨_, h, ?_⟩
    rw [FacetedDirectory.seen_push, if_neg hl, List.append_nil]

/-- All of them together change nothing of what `l` sees. -/
theorem seen_run {w₀ : World} (hd : w₀.store d = some (.encode D)) (h : AboveRun d l w₀ w) :
    ∃ E : FacetedDirectory, w.store d = some (.encode E) ∧ E.seen l = D.seen l := by
  induction h with
  | start => exact ⟨D, hd, rfl⟩
  | @call w _ t rounds c habove hok ih =>
    obtain ⟨E, hE, hseen⟩ := ih
    obtain ⟨F, hF, hseen'⟩ := seen_call (w := w.withThread t) rounds hE habove hok
    exact ⟨F, hF, hseen'.trans hseen⟩

/-- **Facet allocation does not leak downward**, exactly when a thread above the observer asks for
no missing facet that the observer can see. A single call that returns leaves what the observer is
shown unaffected if and only if it is no such leak; and any number of calls of threads above the
observer, none of them a leak, leave it unaffected. -/
theorem facets_unaffected (d : Uid) (D : FacetedDirectory) (l : Buckle) (w : World)
    (hd : w.store d = some (.object (.facetedDirectory D))) :
    (∀ n (c : Opening), (exec (c.run n) w).1 ≠ .error .diverge →
      ((w.Above l → Unaffected w (exec (c.run n) w).2 d l) ↔ ¬ FacetLeak w c d l)) ∧
    ∀ w', AboveRun d l w w' → Unaffected w w' d l := by
  refine ⟨fun n c hret => ⟨?_, fun hok habove => ?_⟩, fun w' h => ?_⟩
  · rintro hun ⟨habove, E, f, hE, hasks, hf, hl⟩
    obtain ⟨u, hu⟩ := c.allocates n hE hf hasks hret
    exact Unaffected.not_push hE hu hf hl (hun habove)
  · obtain ⟨E, hE, hseen⟩ := seen_call n hd habove hok
    exact .of_seen hd hE hseen
  · obtain ⟨E, hE, hseen⟩ := seen_run hd h
    exact .of_seen hd hE hseen

end Above

end Crate

/-! ### A signal through a faceted directory

A function reads a secret of `alice`, and then opens the public facet of a faceted directory. Anyone
can see that it did. -/

namespace FacetSignal

open scoped Dc

/-- The label of the secret. -/
def secret : Buckle := ⟨.single ["alice"], .dcTrue⟩

/-- A public directory with an empty faceted directory and the secret. -/
def store : Store :=
  ((Store.empty.put 0 (.encode (⟨publicLabel, ⟨.ofList
      [("faceted", DirEntry.facetedDirectory 1), ("secret", DirEntry.file 2)]⟩⟩ :
        Labeled Directory))).put
    1 (.encode ({} : FacetedDirectory))).put
    2 (.encode (⟨secret, [42]⟩ : Labeled File))

/-- The function starts, public and without privilege. -/
def start : World := (exec (new publicLabel .dcTrue) (.quiet (.idle publicLabel) store)).2

/-- It has opened the faceted directory as 1 and the secret as 2, and has read the secret. -/
def tainted : World :=
  (exec (doSyscall 1 (.dentRead 2)) (exec (doSyscall 1 (.dentOpen 0 (some (.name "secret"))))
    (exec (doSyscall 1 (.dentOpen 0 (some (.name "faceted")))) start).2).2).2

/-- Opening the facet with this label. -/
def openFacet (label : Buckle) : Opening := .dentOpen 1 (some (.facet (.ofBuckle label)))

/-- Opening the facet of the secret is seen by nobody below. -/
theorem secret_facet_unaffected :
    tainted.Above publicLabel ∧
      Unaffected tainted (exec ((openFacet secret).run 1) tainted).2 1 publicLabel := by
  have habove : tainted.Above publicLabel := by
    unfold World.Above
    decide
  refine ⟨habove, ((facets_unaffected 1 {} publicLabel tainted (by decide)).1 1 (openFacet secret)
    (by decide)).2 ?_ habove⟩
  rintro ⟨-, D, f, -, ⟨-, hf⟩, -, hl⟩
  simp only [Option.bind_some, Pb.OpenEntry.facet?, Pb.into_ofBuckle, Option.some.injEq] at hf
  subst hf
  exact absurd hl (by decide)

/-- Opening the public facet changes what a public thread is shown. -/
theorem public_facet_seen :
    ThreadRun (fun _ _ => True) start tainted ∧ tainted.Above publicLabel ∧
      ¬ tainted.Shows 1 publicLabel publicLabel ∧
      (exec ((openFacet publicLabel).run 1) tainted).2.Shows 1 publicLabel publicLabel ∧
      ¬ Unaffected tainted (exec ((openFacet publicLabel).run 1) tainted).2 1 publicLabel := by
  have hbefore : tainted.store 1 = some (.encode ({} : FacetedDirectory)) := by decide
  have hafter : (exec ((openFacet publicLabel).run 1) tainted).2.store 1 =
      some (.encode (({} : FacetedDirectory).push publicLabel 100)) := by decide
  refine ⟨.syscall (.syscall (.syscall .start 1 _ trivial) 1 _ trivial) 1 _ trivial, ?_, ?_, ?_,
    Unaffected.not_push hbefore hafter rfl (by decide)⟩
  · unfold World.Above
    decide
  · rw [shows_iff hbefore]
    rintro ⟨h, -⟩
    cases h
  · rw [shows_iff hafter]
    exact ⟨List.mem_singleton.2 rfl, by decide⟩

end FacetSignal

end Faasten
