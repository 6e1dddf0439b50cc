import Mathlib
import Faasten.Clients.Machine
import Faasten.Syscall.Run

/-!
# References between objects

An entry of a directory, of a list of facets or of a processor's table names a uid and claims a kind;
the monitor reads at the claimed kind and panics when that fails. `Refers` says that the claim is
true, and for a blob also that its name is that of a saved blob. The discipline of this module keeps
all references true at each store access of any number of processors:

* what is written refers only to what is there already;
* an object is written where its creator has reserved a place, or in place of one of its kind, and a
  blob object that is replaced gets the name of a saved blob.

What has once been referred to so stays as it is (`Grow`).
-/

namespace Faasten

open Std Effect

namespace Integrity

variable {ι : Type}

/-- The name of a blob that has been saved, and that `open` can split. -/
def Saved (blobs : String → Option Bytes) (name : String) : Prop :=
  blobs name ≠ none ∧ Blobstore.splitsAtTwo name = true

/-- There is an object of this kind under the uid. -/
def HasKind (st : Store) (u : Uid) (k : DentKind) : Prop :=
  ∃ o, st u = some (.object o) ∧ o.kind = k

/-- The entry refers to an object of its kind, a blob entry to one with the name of a saved blob. -/
def Refers (s : Shared ι) (e : DirEntry) : Prop :=
  ∃ o, s.store e.uid = some (.object o) ∧ o.kind = e.kind ∧
    ∀ b, o = .blob b → Saved s.world.blobstore b.data

/-- The references in a gate. -/
def FitGate (s : Shared ι) : Gate → Prop
  | .direct g => Saved s.world.blobstore g.function.appImage ∧
      Saved s.world.blobstore g.function.runtimeImage ∧ Saved s.world.blobstore g.function.kernel
  | .redirect g => Refers s (.gate g.gate)

/-- The references in an object. -/
def Fit (s : Shared ι) : Object → Prop
  | .directory d => ∀ (name : String) e, d.data.entries[name]? = some e → Refers s e
  | .facetedDirectory d => ∀ f v, (f, v) ∈ d.facets → Refers s (.directory v)
  | .gate g => FitGate s g.data
  | _ => True

/-- The references in the tables of a processor. -/
structure Tables (t : Thread) (s : Shared ι) : Prop where
  dents : ∀ fd e, t.dents fd = some e → Refers s e
  blobs : ∀ fd b, t.blobs fd = some b → Saved s.world.blobstore b.name

/-- What never goes back. -/
structure Grow (s s' : Shared ι) : Prop where
  refers : ∀ e, Refers s e → Refers s' e
  saved : ∀ name, Saved s.world.blobstore name → Saved s'.world.blobstore name
  kinds : ∀ u k, HasKind s.store u k → HasKind s'.store u k
  owner : ∀ u i, s.owner u = some i → s'.owner u = some i

instance : Std.Refl (Grow (ι := ι)) where
  refl _ := ⟨fun _ h => h, fun _ h => h, fun _ _ h => h, fun _ _ h => h⟩

instance : IsTrans (Shared ι) Grow where
  trans _ _ _ h h' :=
    ⟨fun e he => h'.refers e (h.refers e he), fun n hn => h'.saved n (h.saved n hn),
      fun u k hk => h'.kinds u k (h.kinds u k hk), fun u i hu => h'.owner u i (h.owner u i hu)⟩

theorem Grow.trans {s s' s'' : Shared ι} (h : Grow s s') (h' : Grow s' s'') : Grow s s'' :=
  IsTrans.trans _ _ _ h h'

theorem FitGate.grow {s s' : Shared ι} {g : Gate} (h : FitGate s g) (hs : Grow s s') :
    FitGate s' g := by
  cases g with
  | direct g => exact ⟨hs.saved _ h.1, hs.saved _ h.2.1, hs.saved _ h.2.2⟩
  | redirect g => exact hs.refers _ h

theorem Fit.grow {s s' : Shared ι} {o : Object} (h : Fit s o) (hs : Grow s s') : Fit s' o := by
  cases o with
  | directory d => exact fun name e he => hs.refers e (h name e he)
  | facetedDirectory d => exact fun f v hv => hs.refers _ (h f v hv)
  | gate g => exact FitGate.grow h hs
  | _ => trivial

theorem Tables.grow {t : Thread} {s s' : Shared ι} (h : Tables t s) (hs : Grow s s') :
    Tables t s' :=
  ⟨fun fd e he => hs.refers e (h.dents fd e he), fun fd b hb => hs.saved _ (h.blobs fd b hb)⟩

theorem Refers.hasKind {s : Shared ι} {e : DirEntry} (h : Refers s e) :
    HasKind s.store e.uid e.kind := by
  obtain ⟨o, ho, hk, -⟩ := h
  exact ⟨o, ho, hk⟩

/-- Only a blob entry refers to more than an object of its kind. -/
theorem refers_of_hasKind {s : Shared ι} {e : DirEntry} (h : HasKind s.store e.uid e.kind)
    (hk : e.kind ≠ .dentBlob) : Refers s e := by
  obtain ⟨o, ho, hok⟩ := h
  refine ⟨o, ho, hok, ?_⟩
  rintro b rfl
  exact absurd hok.symm hk

/-- What holds of the world, where `w₀` is the world at first. -/
structure Inv (w₀ : World) (s : Shared ι) : Prop where
  fit : ∀ u o, s.store u = some (.object o) → Fit s o
  root : Refers s (.directory FS.rootRef)
  owned : ∀ u i, s.owner u = some i → s.store u ≠ none
  host : s.world.host = w₀.host
  conn : s.world.schedConn = w₀.schedConn
  files : (∀ k, ∃ n, w₀.io.get k = .ok (n + 1)) → ∀ k, ∃ n, s.world.io.get k = .ok (n + 1)

/-- What is asked of an operation. -/
def Guar (i : ι) (o : Op) (s : Shared ι) : Prop :=
  match o with
  | .setThread t => Tables t s
  | .add u v => s.store u = none → v = .reserved
  | .put u v => ∃ o, v = .object o ∧ Fit s o ∧
      ((s.owner u = some i ∧ s.store u = some .reserved) ∨
        (HasKind s.store u o.kind ∧ ∀ b, o = .blob b → Saved s.world.blobstore b.data))
  | .cas u x v => s.store u = x → ∃ o, v = .object o ∧ Fit s o ∧ HasKind s.store u o.kind ∧
      o.kind ≠ .dentBlob
  | .blobPut name _ => Blobstore.splitsAtTwo name = true
  | _ => True

/-- What the other processors may do while processor `i` does nothing. -/
structure Env (i : ι) (s s' : Shared ι) : Prop extends Grow s s' where
  reserved : ∀ u, s.owner u = some i → s.store u = some .reserved → s'.store u = some .reserved

/-! ### One operation -/

/-- Operations that touch neither the store nor the blobstore. -/
theorem grow_of_eq {s s' : Shared ι} (hst : s'.store = s.store)
    (hb : s'.world.blobstore = s.world.blobstore) (ho : s'.owner = s.owner) : Grow s s' := by
  refine ⟨fun e he => ?_, fun n hn => ?_, fun u k hk => ?_, fun u i hu => ?_⟩
  · unfold Refers at he ⊢
    rwa [hst, hb]
  · rwa [hb]
  · rwa [hst]
  · rwa [ho]

/-- A write that keeps the kind of what is there, and gives a blob the name of a saved one. -/
theorem grow_written {s : Shared ι} {i : ι} {op : Op} {u : Uid} {o : Object}
    (h : ∀ k, HasKind s.store u k → o.kind = k ∧ ∀ b, o = .blob b → Saved s.world.blobstore b.data) :
    Grow s (s.written i op u (.object o)) := by
  refine ⟨fun e he => ?_, fun n hn => hn, fun x k hk => ?_, fun _ _ hx => hx⟩
  · by_cases hu : e.uid = u
    · have hk := h e.kind (hu ▸ he.hasKind)
      exact ⟨o, hu ▸ Store.put_self _ _ _, hk.1, hk.2⟩
    · obtain ⟨o', ho', hk, hb⟩ := he
      exact ⟨o', (Store.put_of_ne _ _ hu).trans ho', hk, hb⟩
  · by_cases hx : x = u
    · subst hx
      exact ⟨o, Store.put_self _ _ _, (h k hk).1⟩
    · obtain ⟨o', ho', hk⟩ := hk
      exact ⟨o', (Store.put_of_ne _ _ hx).trans ho', hk⟩

theorem HasKind.unique {st : Store} {u : Uid} {k k' : DentKind} (h : HasKind st u k)
    (h' : HasKind st u k') : k = k' := by
  obtain ⟨o, ho, rfl⟩ := h
  obtain ⟨o', ho', rfl⟩ := h'
  rw [ho] at ho'
  cases ho'
  rfl

theorem not_hasKind_reserved {st : Store} {u : Uid} {k : DentKind} (h : st u = some .reserved) :
    ¬HasKind st u k := by
  rintro ⟨o, ho, -⟩
  simp [h] at ho

theorem not_hasKind_none {st : Store} {u : Uid} {k : DentKind} (h : st u = none) :
    ¬HasKind st u k := by
  rintro ⟨o, ho, -⟩
  simp [h] at ho

section Steps

variable {w₀ : World} {s : Shared ι} {i j : ι} {u : Uid} {x : Option Stored} {v : Stored}

theorem grow_put (hg : Guar i (.put u v) s) : Grow s (s.written i (.put u v) u v) := by
  obtain ⟨o, rfl, -, ⟨-, hres⟩ | ⟨hk, hb⟩⟩ := hg
  · exact grow_written fun k hk => absurd hk (not_hasKind_reserved hres)
  · exact grow_written fun k hk' => ⟨hk.unique hk', hb⟩

theorem grow_cas (hg : Guar i (.cas u x v) s) (hx : s.store u = x) :
    Grow s (s.written i (.cas u x v) u v) := by
  obtain ⟨o, rfl, -, hk, hb⟩ := hg hx
  refine grow_written fun k hk' => ⟨hk.unique hk', ?_⟩
  rintro b rfl
  exact absurd rfl hb

theorem grow_claimed (h : Inv w₀ s) (hu : s.store u = none) : Grow s (s.claimed i u .reserved) := by
  have hstore : ∀ y o, s.store y = some (.object o) →
      (s.claimed i u .reserved).store y = some (.object o) := by
    intro y o hy
    have hyu : y ≠ u := by
      rintro rfl
      simp [hu] at hy
    exact (Store.put_of_ne _ _ hyu).trans hy
  refine ⟨fun e ⟨o, ho, hk⟩ => ⟨o, hstore _ o ho, hk⟩, fun n hn => hn,
    fun y k ⟨o, ho, hk⟩ => ⟨o, hstore y o ho, hk⟩, fun y j hy => ?_⟩
  have hyu : y ≠ u := by
    rintro rfl
    exact h.owned y j hy hu
  exact (Function.update_of_ne hyu _ _).trans hy

/-- What is stored after a write still fits. -/
theorem Inv.written (h : Inv w₀ s) {op : Op} {o : Object} (hfit : Fit s o)
    (hgrow : Grow s (s.written i op u (.object o))) : Inv w₀ (s.written i op u (.object o)) := by
  refine ⟨fun y o' hy => ?_, hgrow.refers _ h.root, fun y j hy hnone => ?_, h.host, h.conn, h.files⟩
  · rcases Store.of_put hy with ⟨-, ho⟩ | hy
    · cases ho
      exact hfit.grow hgrow
    · exact (h.fit y o' hy).grow hgrow
  · by_cases hyu : y = u
    · subst hyu
      simp at hnone
    · rw [Shared.written_store, Store.put_of_ne _ _ hyu] at hnone
      exact h.owned y j hy hnone

theorem Inv.claimed (h : Inv w₀ s) (hu : s.store u = none) :
    Inv w₀ (s.claimed i u .reserved) := by
  have hgrow := grow_claimed (i := i) h hu
  refine ⟨fun y o hy => ?_, hgrow.refers _ h.root, fun y j hy hnone => ?_, h.host, h.conn, h.files⟩
  · rcases Store.of_put hy with ⟨-, ho⟩ | hy
    · cases ho
    · exact (h.fit y o hy).grow hgrow
  · by_cases hyu : y = u
    · subst hyu
      simp at hnone
    · rw [Shared.claimed_store, Store.put_of_ne _ _ hyu] at hnone
      rw [Shared.claimed_owner, Function.update_of_ne hyu] at hy
      exact h.owned y j hy hnone

/-- A blob that is saved. -/
theorem grow_blobPut {name : String} (hn : Blobstore.splitsAtTwo name = true) (content : Bytes)
    {s' : Shared ι} (hst : s'.store = s.store)
    (hb : s'.world.blobstore = Function.update s.world.blobstore name (some content))
    (ho : s'.owner = s.owner) : Grow s s' := by
  have hsaved : ∀ n, Saved s.world.blobstore n → Saved s'.world.blobstore n := by
    intro n hsn
    rw [hb]
    by_cases h : n = name
    · subst h
      exact ⟨by simp, hn⟩
    · exact ⟨by rw [Function.update_of_ne h]; exact hsn.1, hsn.2⟩
  refine ⟨fun e ⟨o, heo, hk, hbl⟩ => ⟨o, by rwa [hst], hk, fun b hbo => hsaved _ (hbl b hbo)⟩, hsaved,
    fun u k hk => by rwa [hst], fun u i hu => by rwa [ho]⟩

theorem Inv.of_grow {s' : Shared ι} (h : Inv w₀ s) (hgrow : Grow s s') (hst : s'.store = s.store)
    (ho : s'.owner = s.owner) (hh : s'.world.host = s.world.host)
    (hc : s'.world.schedConn = s.world.schedConn)
    (hio : (∀ k, ∃ n, s.world.io.get k = .ok (n + 1)) → ∀ k, ∃ n, s'.world.io.get k = .ok (n + 1)) :
    Inv w₀ s' := by
  refine ⟨fun u o hu => ?_, hgrow.refers _ h.root, fun u i hu => ?_, hh.trans h.host,
    hc.trans h.conn, fun hw => hio (h.files hw)⟩
  · rw [hst] at hu
    exact (h.fit u o hu).grow hgrow
  · rw [ho] at hu
    rw [hst]
    exact h.owned u i hu

/-- An operation keeps the invariant, and nothing goes back by it. -/
theorem step (h : Inv w₀ s) {o : Op} {t : Thread} (hg : Guar i o s) :
    Inv w₀ ((clients ι).perform i o t s).2.2 ∧ Grow s ((clients ι).perform i o t s).2.2 ∧
      ∀ j, j ≠ i → Env j s ((clients ι).perform i o t s).2.2 := by
  have same : ∀ s' : Shared ι, s'.store = s.store → s'.world.blobstore = s.world.blobstore →
      s'.owner = s.owner → s'.world.host = s.world.host →
      s'.world.schedConn = s.world.schedConn →
      ((∀ k, ∃ n, s.world.io.get k = .ok (n + 1)) → ∀ k, ∃ n, s'.world.io.get k = .ok (n + 1)) →
      Inv w₀ s' ∧ Grow s s' ∧ ∀ j, j ≠ i → Env j s s' := by
    intro s' hst hb ho hh hc hio
    have hgrow := grow_of_eq hst hb ho
    exact ⟨h.of_grow hgrow hst ho hh hc hio, hgrow, fun j _ => ⟨hgrow, fun u _ hr => by rwa [hst]⟩⟩
  cases o with
  | add u v =>
    rw [clients_add]
    split_ifs with hu
    · obtain rfl : v = .reserved := hg hu
      have hgrow := grow_claimed (i := i) h hu
      refine ⟨h.claimed hu, hgrow, fun j _ => ⟨hgrow, fun y _ hr => ?_⟩⟩
      have hyu : y ≠ u := by
        rintro rfl
        simp [hu] at hr
      exact (Store.put_of_ne _ _ hyu).trans hr
    · exact same _ rfl rfl rfl rfl rfl id
  | put u v =>
    have hgrow := grow_put hg
    obtain ⟨o, rfl, hfit, hplace⟩ := hg
    refine ⟨h.written hfit hgrow, hgrow, fun j hj => ⟨hgrow, fun y hy hr => ?_⟩⟩
    have hyu : y ≠ u := by
      rintro rfl
      rcases hplace with ⟨hown, -⟩ | ⟨hk, -⟩
      · exact hj (Option.some.inj (hy.symm.trans hown))
      · exact not_hasKind_reserved hr hk
    exact (Store.put_of_ne _ _ hyu).trans hr
  | cas u x v =>
    rw [clients_cas]
    split_ifs with hx
    · have hgrow := grow_cas hg hx
      obtain ⟨o, rfl, hfit, hk, -⟩ := hg hx
      refine ⟨h.written hfit hgrow, hgrow, fun j hj => ⟨hgrow, fun y hy hr => ?_⟩⟩
      have hyu : y ≠ u := by
        rintro rfl
        exact not_hasKind_reserved hr hk
      exact (Store.put_of_ne _ _ hyu).trans hr
    · exact same _ rfl rfl rfl rfl rfl id
  | blobPut name content =>
    have hgrow : Grow s ((clients ι).perform i (.blobPut name content) t s).2.2 :=
      grow_blobPut hg content rfl rfl rfl
    exact ⟨h.of_grow hgrow rfl rfl rfl rfl id, hgrow, fun j _ => ⟨hgrow, fun _ _ hr => hr⟩⟩
  | io => exact same _ rfl rfl rfl rfl rfl fun hio k => hio (k + 1)
  | schedWrite m =>
    have hw := perform_schedWrite (s.world.withThread t) m
    refine same _ ?_ ?_ rfl ?_ ?_ ?_ <;>
      simp only [clients, Shared.after, Shared.store, hw] <;> split_ifs <;> first | rfl | exact id
  | _ => exact same _ rfl rfl rfl rfl rfl id

end Steps

/-- The discipline of processors. -/
def discipline (w₀ : World) : Discipline (clients ι) where
  inv := Inv w₀
  own _ := Tables
  guar i o _ s := Guar i o s
  env := Env
  env_refl _ _ := ⟨Std.Refl.refl _, fun _ _ h => h⟩
  env_trans h h' := ⟨h.toGrow.trans h'.toGrow, fun u hu hr =>
    h'.reserved u (h.owner u _ hu) (h.reserved u hu hr)⟩
  inv_step h _ hg := (step h hg).1
  own_step {i o t s} h ht hg := by
    have hgrow := (step (t := t) h hg).2.1
    cases o with
    | setThread t' => exact hg
    | schedWrite m =>
      have hthread : ((clients ι).perform i (.schedWrite m) t s).2.1 = t := by
        simp only [clients, perform_schedWrite]
        split_ifs <;> rfl
      rw [hthread]
      exact ht.grow hgrow
    | add u v =>
      have hthread : ((clients ι).perform i (.add u v) t s).2.1 = t := by
        rw [clients_add]
        split_ifs <;> rfl
      rw [hthread]
      exact ht.grow hgrow
    | cas u x v =>
      have hthread : ((clients ι).perform i (.cas u x v) t s).2.1 = t := by
        rw [clients_cas]
        split_ifs <;> rfl
      rw [hthread]
      exact ht.grow hgrow
    | _ => exact ht.grow hgrow
  env_step hj h _ hg := (step h hg).2.2 _ hj
  own_env _ _ ht he := ht.grow he.toGrow

end Integrity

end Faasten
