import Mathlib
import Faasten.Clients.Calls

/-!
# The discipline of the file system

What each store access of a call commits to, whoever else works on the store:

* a `put` writes to a uid that the client has reserved and not yet written to, or replaces an object
  by one of the same kind and label, neither of them a directory;
* a successful `cas` replaces a directory by the result of the client's own call on it, or extends
  the list of a faceted directory by one new facet, for which a directory has been stored;
* a `cas` on a directory fails only when another client has committed since the last look at it.

From this follow the invariant of the store (`FileSystem.Inv`) and what a client may rely on while
others move (`FileSystem.Env`). `FileSystem.discipline` puts them together.
-/

namespace Faasten

open Std Effect

/-- The kinds whose objects change by a swap only. -/
def Object.isDirectory : Object → Bool
  | .directory _ => true
  | .facetedDirectory _ => true
  | _ => false

/-- How an object may change: the kind and the label stay, a list of facets only grows. -/
structure Object.Becomes (o o' : Object) : Prop where
  kind : o'.kind = o.kind
  label : o'.label? = o.label?
  facets : ∀ d, o = .facetedDirectory d → ∃ d', o' = .facetedDirectory d' ∧ d.facets <+: d'.facets

theorem Object.Becomes.refl (o : Object) : o.Becomes o :=
  ⟨rfl, rfl, fun d h => ⟨d, h, List.prefix_rfl⟩⟩

theorem Object.Becomes.trans {o o' o'' : Object} (h : o.Becomes o') (h' : o'.Becomes o'') :
    o.Becomes o'' := by
  refine ⟨h'.kind.trans h.kind, h'.label.trans h.label, fun d hd => ?_⟩
  obtain ⟨d', hd', hp⟩ := h.facets d hd
  obtain ⟨d'', hd'', hp'⟩ := h'.facets d' hd'
  exact ⟨d'', hd'', hp.trans hp'⟩

theorem Object.Becomes.directory {d : Labeled Directory} {o : Object}
    (h : (Object.directory d).Becomes o) : ∃ d', o = .directory d' ∧ d'.label = d.label := by
  have hk := h.kind
  have hl := h.label
  cases o with
  | directory d' => exact ⟨d', rfl, by simpa [Object.label?] using hl⟩
  | _ => cases hk

/-- The objects of one store are objects of the other, changed as objects may change. -/
def Store.Kept (st st' : Store) : Prop :=
  ∀ u o, st u = some (.object o) → ∃ o', st' u = some (.object o') ∧ o.Becomes o'

theorem Store.Kept.refl (st : Store) : st.Kept st := fun _ o h => ⟨o, h, .refl o⟩

theorem Store.Kept.trans {st st' st'' : Store} (h : st.Kept st') (h' : st'.Kept st'') :
    st.Kept st'' := by
  intro u o ho
  obtain ⟨o', ho', hb⟩ := h u o ho
  obtain ⟨o'', ho'', hb'⟩ := h' u o' ho'
  exact ⟨o'', ho'', hb.trans hb'⟩

theorem Store.Kept.directory {st st' : Store} (h : st.Kept st') {u : Uid} {d : Labeled Directory}
    (hu : st u = some (.object (.directory d))) :
    ∃ d', st' u = some (.object (.directory d')) ∧ d'.label = d.label := by
  obtain ⟨o, ho, hb⟩ := h u _ hu
  obtain ⟨d', rfl, hl⟩ := hb.directory
  exact ⟨d', ho, hl⟩

/-- A list of facets without repetitions, each of whose entries is a directory with the label of the
facet. -/
structure FacetedDirectory.Sound (d : FacetedDirectory) (store : Store) : Prop where
  nodup : (d.facets.map Prod.fst).Nodup
  allocated : ∀ f v, (f, v) ∈ d.facets →
    ∃ dir : Labeled Directory, store v = some (.object (.directory dir)) ∧ dir.label = f

namespace FileSystem

variable {ι : Type}

/-- What never goes back: reservations, and the kind and label of objects. -/
structure Extends (s s' : Shared ι) : Prop where
  owner : ∀ u j, s.owner u = some j → s'.owner u = some j
  objects : s.store.Kept s'.store

instance : Std.Refl (Extends (ι := ι)) where
  refl s := ⟨fun _ _ h => h, .refl s.store⟩

instance : IsTrans (Shared ι) Extends where
  trans _ _ _ h h' := ⟨fun u j hu => h'.owner u j (h.owner u j hu), h.objects.trans h'.objects⟩

/-- What the other clients may do while client `i` does nothing. -/
structure Env (i : ι) (s s' : Shared ι) : Prop extends Extends s s' where
  reserved : ∀ u, s.owner u = some i → s.store u = some .reserved → s'.store u = some .reserved
  log : ∃ new, s'.log = new ++ s.log ∧ (∀ e ∈ new, e.client ≠ i) ∧
    ∀ u d, s.store u = some (.object (.directory d)) → (∀ e ∈ new, e.commitsTo ≠ some u) →
      s'.store u = s.store u

theorem Env.refl (i : ι) (s : Shared ι) : Env i s s :=
  ⟨Std.Refl.refl s, fun _ _ h => h, [], rfl, by simp, fun _ _ _ _ => rfl⟩

theorem Env.trans {i : ι} {s s' s'' : Shared ι} (h : Env i s s') (h' : Env i s' s'') :
    Env i s s'' := by
  refine ⟨IsTrans.trans _ _ _ h.toExtends h'.toExtends, fun u hu hr => ?_, ?_⟩
  · exact h'.reserved u (h.owner u i hu) (h.reserved u hu hr)
  · obtain ⟨new, hn, hc, hd⟩ := h.log
    obtain ⟨new', hn', hc', hd'⟩ := h'.log
    refine ⟨new' ++ new, by rw [hn', hn, List.append_assoc], ?_, fun u d hu hne => ?_⟩
    · intro e he
      rcases List.mem_append.1 he with he | he
      · exact hc' e he
      · exact hc e he
    · have hs := hd u d hu fun e he => hne e (List.mem_append_right _ he)
      exact (hd' u d (hs.trans hu) fun e he => hne e (List.mem_append_left _ he)).trans hs

/-- The invariant of the store, where `s₀` is what it held at first. -/
structure Inv (calls : ι → FsCall) (s₀ : Store) (s : Shared ι) : Prop where
  root : s.store FS.rootRef ≠ none
  owned : ∀ u i, s.owner u = some i → s.store u ≠ none ∧ s₀ u = none
  present : ∀ u, s₀ u ≠ none → s.store u ≠ none
  kept : s₀.Kept s.store
  past : ∀ e ∈ s.log, s₀.Kept e.before
  reservations : ∀ e ∈ s.log, ∀ u, e.reserves = some u → s.owner u = some e.client
  reserved : ∀ u i, s.owner u = some i → ∃ e ∈ s.log, e.client = i ∧ e.reserves = some u
  distinct : (s.log.filterMap StoreAccess.reserves).Nodup
  committed : ∀ e ∈ s.log, ∀ u, e.commitsTo = some u →
    ∃ d, s.store u = some (.object (.directory d))
  entries : ∀ u d, s.store u = some (.object (.directory d)) →
    replay calls (baseEntries s₀ u) (commits u s.log) = some d.data.entries
  facets : ∀ u d, s₀ u = none → s.store u = some (.object (.facetedDirectory d)) →
    d.Sound s.store

/-- A new object holds nothing yet, if it is a directory. -/
def Blank : Object → Prop
  | .directory d => d.data.entries = ∅
  | .facetedDirectory d => d.facets = []
  | _ => True

/-- What a swap under `u` may do. -/
inductive Swap (c : FsCall) (store : Store) (u : Uid) : Stored → Prop
  | commit {d : Labeled Directory} {es : Entries}
      (hd : store u = some (.object (.directory d))) (hes : c.apply d.data.entries = some es) :
      Swap c store u (.object (.directory { d with data := ⟨es⟩ }))
  | push {d : FacetedDirectory} {f : Buckle} {v : Uid} {dir : Labeled Directory}
      (hd : store u = some (.object (.facetedDirectory d)) ∨ (store u = none ∧ d.facets = []))
      (hf : f ∉ d.facets.map Prod.fst) (hv : store v = some (.object (.directory dir)))
      (hl : dir.label = f) :
      Swap c store u (.object (.facetedDirectory ⟨d.facets ++ [(f, v)]⟩))

/-- What is asked of an operation. -/
def Guar [DecidableEq ι] (calls : ι → FsCall) (i : ι) (o : Op) (s : Shared ι) : Prop :=
  match o with
  | .thread => True
  | .setThread _ => True
  | .rand => True
  | .get _ => True
  | .add u v => s.store u = none → v = .reserved
  | .put u v => ∃ o, v = .object o ∧
      ((s.owner u = some i ∧ s.store u = some .reserved ∧ Blank o) ∨
        ∃ old, s.store u = some (.object old) ∧ old.isDirectory = false ∧ o.kind = old.kind ∧
          o.label? = old.label?)
  | .cas u x v => (s.store u = x → Swap (calls i) s.store u v) ∧
      ∀ d, x = some (.object (.directory d)) → s.store u ≠ x → Contended i u s.log
  | _ => False

/-! ### One access -/

theorem becomes_of_heads {o old : Object} (hdir : old.isDirectory = false) (hk : o.kind = old.kind)
    (hl : o.label? = old.label?) : old.Becomes o := by
  refine ⟨hk, hl, fun d hd => ?_⟩
  subst hd
  cases hdir

/-- Objects of a kind that is not swapped are no directories. -/
theorem not_directory {o old : Object} (hdir : old.isDirectory = false) (hk : o.kind = old.kind) :
    o.isDirectory = false := by
  cases o <;> cases old <;> simp_all [Object.isDirectory, Object.kind]

theorem Swap.becomes {c : FsCall} {store : Store} {u : Uid} {v : Stored} {old : Object}
    (h : Swap c store u v) (hu : store u = some (.object old)) :
    ∃ o, v = .object o ∧ old.Becomes o := by
  cases h with
  | @commit d es hd hes =>
    obtain rfl : old = .directory d := by simpa [hd] using hu.symm
    exact ⟨_, rfl, rfl, rfl, fun d' h => by cases h⟩
  | @push d f v dir hd hf hv hl =>
    rcases hd with hd | ⟨hd, -⟩
    · obtain rfl : old = .facetedDirectory d := by simpa [hd] using hu.symm
      refine ⟨_, rfl, rfl, rfl, fun d' h => ?_⟩
      cases h
      exact ⟨_, rfl, List.prefix_append _ _⟩
    · simp [hd] at hu

/-- A write that changes an object only as objects may change. -/
theorem extends_written {i : ι} {s : Shared ι} {o : Op} {u : Uid} {v : Stored}
    (h : ∀ old, s.store u = some (.object old) → ∃ o, v = .object o ∧ old.Becomes o) :
    Extends s (s.written i o u v) := by
  refine ⟨fun _ _ h => h, fun x old hx => ?_⟩
  by_cases hxu : x = u
  · subst hxu
    obtain ⟨o, rfl, hb⟩ := h old hx
    exact ⟨o, Store.put_self _ _ _, hb⟩
  · exact ⟨old, (Store.put_of_ne _ _ hxu).trans hx, .refl old⟩

theorem extends_claimed {i : ι} {s : Shared ι} {u : Uid} {v : Stored} (hu : s.store u = none)
    (ho : s.owner u = none) : Extends s (s.claimed i u v) := by
  refine ⟨fun x j hx => ?_, fun x old hx => ?_⟩
  · have hxu : x ≠ u := by
      rintro rfl
      simp [ho] at hx
    exact (Function.update_of_ne hxu _ _).trans hx
  · have hxu : x ≠ u := by
      rintro rfl
      simp [hu] at hx
    exact ⟨old, (Store.put_of_ne _ _ hxu).trans hx, .refl old⟩

/-- A list of facets stays sound while objects change as they may. -/
theorem sound_mono {d : FacetedDirectory} {st st' : Store}
    (h : d.Sound st) (hst : st.Kept st') : d.Sound st' := by
  refine ⟨h.nodup, fun f v hv => ?_⟩
  obtain ⟨dir, hdir, hl⟩ := h.allocated f v hv
  obtain ⟨dir', hdir', hl'⟩ := hst.directory hdir
  exact ⟨dir', hdir', hl'.trans hl⟩

/-! ### The invariant -/

section Invariant

variable {calls : ι → FsCall} {s₀ : Store} {s : Shared ι} {i : ι} {o : Op} {u : Uid} {v : Stored}

theorem put_ne_none {st : Store} {x : Uid} (h : st x ≠ none) : st.put u v x ≠ none := by
  by_cases hx : x = u
  · subst hx
    simp
  · rwa [Store.put_of_ne _ _ hx]

/-- An access that writes nothing. -/
theorem Inv.accessed (h : Inv calls s₀ s) (hr : (⟨i, o, s.store⟩ : StoreAccess ι).reserves = none)
    (hc : (⟨i, o, s.store⟩ : StoreAccess ι).commitsTo = none) :
    Inv calls s₀ (s.accessed i o) where
  root := h.root
  owned := h.owned
  present := h.present
  kept := h.kept
  past e he := by
    rcases List.mem_cons.1 he with rfl | he
    · exact h.kept
    · exact h.past e he
  reservations e he u hu := by
    rcases List.mem_cons.1 he with rfl | he
    · simp [hr] at hu
    · exact h.reservations e he u hu
  reserved u j hu := by
    obtain ⟨e, he, hj⟩ := h.reserved u j hu
    exact ⟨e, List.mem_cons_of_mem _ he, hj⟩
  distinct := by
    rw [Shared.accessed_log, List.filterMap_cons_none hr]
    exact h.distinct
  committed e he u hu := by
    rcases List.mem_cons.1 he with rfl | he
    · simp [hc] at hu
    · exact h.committed e he u hu
  entries u d hu := by
    rw [Shared.accessed_log, commits_cons_of_ne (by simp [hc])]
    exact h.entries u d hu
  facets := h.facets

/-- A swap that fails. -/
theorem Inv.failed_cas (h : Inv calls s₀ s) {x : Option Stored} (hx : s.store u ≠ x) :
    Inv calls s₀ (s.accessed i (.cas u x v)) := by
  refine h.accessed rfl ?_
  unfold StoreAccess.commitsTo
  split
  · rename_i u' d v' ho
    cases ho
    exact if_neg hx
  · rfl

theorem Inv.owner_eq_none (h : Inv calls s₀ s) (hu : s.store u = none) : s.owner u = none := by
  by_contra hne
  obtain ⟨j, hj⟩ := Option.ne_none_iff_exists'.1 hne
  exact (h.owned u j hj).1 hu

/-- A reservation. -/
theorem Inv.claimed (h : Inv calls s₀ s) (hu : s.store u = none) :
    Inv calls s₀ (s.claimed i u .reserved) := by
  have hs₀ : s₀ u = none := by
    by_contra hne
    exact h.present u hne hu
  have howner := h.owner_eq_none hu
  have hext := extends_claimed (i := i) (v := .reserved) hu howner
  have hobj : ∀ x o, s.store.put u .reserved x = some (.object o) → s.store x = some (.object o) := by
    intro x o hx
    by_cases hxu : x = u
    · subst hxu
      simp at hx
    · rwa [Store.put_of_ne _ _ hxu] at hx
  have hres : (⟨i, .add u .reserved, s.store⟩ : StoreAccess ι).reserves = some u := if_pos hu
  refine ⟨put_ne_none h.root, fun x j hx => ?_, fun x hx => put_ne_none (h.present x hx),
    h.kept.trans hext.objects, ?_, ?_, ?_, ?_, ?_, ?_,
    fun x d hx hd => sound_mono (h.facets x d hx (hobj x _ hd)) hext.objects⟩
  · by_cases hxu : x = u
    · subst hxu
      exact ⟨by simp, hs₀⟩
    · rw [Shared.claimed_owner, Function.update_of_ne hxu] at hx
      exact ⟨put_ne_none (h.owned x j hx).1, (h.owned x j hx).2⟩
  · intro e he
    rcases List.mem_cons.1 he with rfl | he
    · exact h.kept
    · exact h.past e he
  · intro e he x hx
    rcases List.mem_cons.1 he with rfl | he
    · rw [hres] at hx
      cases hx
      exact Function.update_self _ _ _
    · exact hext.owner x _ (h.reservations e he x hx)
  · intro x j hx
    by_cases hxu : x = u
    · subst hxu
      rw [Shared.claimed_owner, Function.update_self] at hx
      cases hx
      exact ⟨_, List.mem_cons_self, rfl, hres⟩
    · rw [Shared.claimed_owner, Function.update_of_ne hxu] at hx
      obtain ⟨e, he, hj⟩ := h.reserved x j hx
      exact ⟨e, List.mem_cons_of_mem _ he, hj⟩
  · rw [Shared.claimed_log, List.filterMap_cons_some hres]
    refine List.nodup_cons.2 ⟨fun hmem => ?_, h.distinct⟩
    obtain ⟨e, he, hx⟩ := List.mem_filterMap.1 hmem
    have := h.reservations e he u hx
    simp [howner] at this
  · intro e he x hx
    rcases List.mem_cons.1 he with rfl | he
    · cases hx
    · obtain ⟨d, hd⟩ := h.committed e he x hx
      obtain ⟨d', hd', -⟩ := hext.objects.directory hd
      exact ⟨d', hd'⟩
  · intro x d hd
    rw [Shared.claimed_log, commits_cons_of_ne (by intro hx; cases hx)]
    exact h.entries x d (hobj x _ hd)

/-- A write to one place. -/
theorem Inv.written (h : Inv calls s₀ s) (hext : Extends s (s.written i o u v))
    (hr : (⟨i, o, s.store⟩ : StoreAccess ι).reserves = none)
    (hc : ∀ x, (⟨i, o, s.store⟩ : StoreAccess ι).commitsTo = some x →
      x = u ∧ ∃ d, v = .object (.directory d))
    (hent : ∀ d, v = .object (.directory d) →
      replay calls (baseEntries s₀ u) (commits u (⟨i, o, s.store⟩ :: s.log)) = some d.data.entries)
    (hfac : ∀ d, s₀ u = none → v = .object (.facetedDirectory d) → d.Sound (s.store.put u v)) :
    Inv calls s₀ (s.written i o u v) where
  root := put_ne_none h.root
  owned x j hx := ⟨put_ne_none (h.owned x j hx).1, (h.owned x j hx).2⟩
  present x hx := put_ne_none (h.present x hx)
  kept := h.kept.trans hext.objects
  past e he := by
    rcases List.mem_cons.1 he with rfl | he
    · exact h.kept
    · exact h.past e he
  reservations e he x hx := by
    rcases List.mem_cons.1 he with rfl | he
    · simp [hr] at hx
    · exact h.reservations e he x hx
  reserved x j hx := by
    obtain ⟨e, he, hj⟩ := h.reserved x j hx
    exact ⟨e, List.mem_cons_of_mem _ he, hj⟩
  distinct := by
    rw [Shared.written_log, List.filterMap_cons_none hr]
    exact h.distinct
  committed e he x hx := by
    rcases List.mem_cons.1 he with rfl | he
    · obtain ⟨rfl, d, rfl⟩ := hc x hx
      exact ⟨d, Store.put_self _ _ _⟩
    · obtain ⟨d, hd⟩ := h.committed e he x hx
      obtain ⟨d', hd', -⟩ := hext.objects.directory hd
      exact ⟨d', hd'⟩
  entries x d hd := by
    by_cases hxu : x = u
    · subst hxu
      exact hent d (by simpa using hd)
    · rw [Shared.written_store, Store.put_of_ne _ _ hxu] at hd
      rw [Shared.written_log, commits_cons_of_ne fun hx => hxu (hc x hx).1]
      exact h.entries x d hd
  facets x d hx hd := by
    by_cases hxu : x = u
    · subst hxu
      exact hfac d hx (by simpa using hd)
    · rw [Shared.written_store, Store.put_of_ne _ _ hxu] at hd
      exact sound_mono (h.facets x d hx hd) hext.objects

end Invariant

/-! ### What the others see -/

section Environment

variable {s : Shared ι} {i j : ι} {o : Op} {u : Uid} {v : Stored}

theorem Env.accessed (hj : j ≠ i) : Env j s (s.accessed i o) := by
  refine ⟨⟨fun _ _ h => h, .refl _⟩, fun _ _ h => h, [⟨i, o, s.store⟩], rfl,
    ?_, fun _ _ _ _ => rfl⟩
  simpa using hj.symm

theorem Env.claimed (hj : j ≠ i) (hu : s.store u = none) (ho : s.owner u = none) :
    Env j s (s.claimed i u v) := by
  refine ⟨extends_claimed hu ho, fun x hx hr => ?_, [⟨i, .add u v, s.store⟩], rfl, ?_,
    fun x d hd _ => ?_⟩
  · have hxu : x ≠ u := by
      rintro rfl
      simp [hu] at hr
    exact (Store.put_of_ne _ _ hxu).trans hr
  · simpa using hj.symm
  · have hxu : x ≠ u := by
      rintro rfl
      simp [hu] at hd
    exact Store.put_of_ne _ _ hxu

theorem Env.written (hj : j ≠ i) (hext : Extends s (s.written i o u v))
    (hres : s.owner u = some j → s.store u ≠ some .reserved)
    (hdir : ∀ d, s.store u = some (.object (.directory d)) →
      (⟨i, o, s.store⟩ : StoreAccess ι).commitsTo = some u) :
    Env j s (s.written i o u v) := by
  refine ⟨hext, fun x hx hr => ?_, [⟨i, o, s.store⟩], rfl, ?_, fun x d hd hne => ?_⟩
  · have hxu : x ≠ u := by
      rintro rfl
      exact hres hx hr
    exact (Store.put_of_ne _ _ hxu).trans hr
  · simpa using hj.symm
  · have hxu : x ≠ u := by
      rintro rfl
      exact hne _ (List.mem_singleton_self _) (hdir d hd)
    exact Store.put_of_ne _ _ hxu

end Environment

/-! ### The discipline -/

section Steps

variable [DecidableEq ι] {calls : ι → FsCall} {s₀ : Store} {s : Shared ι} {i j : ι} {t : Thread}
  {u : Uid} {x : Option Stored} {v : Stored}

theorem extends_put (hg : Guar calls i (.put u v) s) : Extends s (s.written i (.put u v) u v) := by
  refine extends_written fun old hold => ?_
  obtain ⟨o, rfl, ⟨-, hres, -⟩ | ⟨old', hold', hdir, hk, hl⟩⟩ := hg
  · simp [hres] at hold
  · obtain rfl : old = old' := by simpa [hold'] using hold.symm
    exact ⟨o, rfl, becomes_of_heads hdir hk hl⟩

theorem extends_cas (hg : Guar calls i (.cas u x v) s) (hx : s.store u = x) :
    Extends s (s.written i (.cas u x v) u v) :=
  extends_written fun _ hold => (hg.1 hx).becomes hold

theorem Inv.put (h : Inv calls s₀ s) (hg : Guar calls i (.put u v) s) :
    Inv calls s₀ (s.written i (.put u v) u v) := by
  refine h.written (extends_put hg) rfl (fun _ hx => by cases hx) (fun d hd => ?_)
    fun d hs₀ hd => ?_
  · subst hd
    obtain ⟨o, ho, ⟨hown, hres, hblank⟩ | ⟨old, -, hdir, hk, -⟩⟩ := hg
    · cases ho
      rw [commits_cons_of_ne (by intro hx; cases hx), commits_eq_nil]
      · have hbase : baseEntries s₀ u = ∅ := by simp [baseEntries, (h.owned u i hown).2]
        rw [hbase]
        exact congrArg some hblank.symm
      · intro e he hx
        obtain ⟨d', hd'⟩ := h.committed e he u hx
        simp [hres] at hd'
    · cases ho
      have := not_directory hdir hk
      cases this
  · subst hd
    obtain ⟨o, ho, ⟨hown, hres, hblank⟩ | ⟨old, -, hdir, hk, -⟩⟩ := hg
    · cases ho
      have hnil : d.facets = [] := hblank
      exact ⟨by simp [hnil], by simp [hnil]⟩
    · cases ho
      have := not_directory hdir hk
      cases this

theorem Inv.cas (h : Inv calls s₀ s) (hg : Guar calls i (.cas u x v) s) (hx : s.store u = x) :
    Inv calls s₀ (s.written i (.cas u x v) u v) := by
  have hext := extends_cas hg hx
  subst hx
  obtain hswap := hg.1 rfl
  cases hswap with
  | @commit d es hd hes =>
    have hc : (⟨i, .cas u (s.store u) (.object (.directory { d with data := ⟨es⟩ })), s.store⟩ :
        StoreAccess ι).commitsTo = some u := by simp [StoreAccess.commitsTo, hd]
    refine h.written hext rfl (fun y hy => ?_) (fun d' hd' => ?_) fun d' _ hd' => by cases hd'
    · rw [hc] at hy
      cases hy
      exact ⟨rfl, _, rfl⟩
    · cases hd'
      rw [commits, if_pos hc, replay_concat, h.entries u d hd]
      exact hes
  | @push d f w dir hd hf hw hl =>
    have hc : (⟨i, .cas u (s.store u) (.object (.facetedDirectory ⟨d.facets ++ [(f, w)]⟩)),
        s.store⟩ : StoreAccess ι).commitsTo = none := by
      rcases hd with hd | ⟨hd, -⟩ <;> simp [StoreAccess.commitsTo, hd]
    refine h.written hext rfl (fun y hy => ?_) (fun d' hd' => by cases hd') fun d' hs₀ hd' => ?_
    · rw [hc] at hy
      cases hy
    · cases hd'
      have hold : d.Sound s.store := by
        rcases hd with hd | ⟨-, hnil⟩
        · exact h.facets u d hs₀ hd
        · exact ⟨by simp [hnil], by simp [hnil]⟩
      have hnew : FacetedDirectory.Sound ⟨d.facets ++ [(f, w)]⟩ s.store := by
        refine ⟨?_, fun f' w' hmem => ?_⟩
        · rw [List.map_append, List.map_singleton]
          exact List.nodup_append.2 ⟨hold.nodup, List.nodup_singleton f, by
            intro a ha b hb hab
            rw [hab, List.mem_singleton.1 hb] at ha
            exact hf ha⟩
        · rcases List.mem_append.1 hmem with hmem | hmem
          · exact hold.allocated f' w' hmem
          · cases List.mem_singleton.1 hmem
            exact ⟨dir, hw, hl⟩
      exact sound_mono hnew hext.objects

theorem env_put (hj : j ≠ i) (hg : Guar calls i (.put u v) s) :
    Env j s (s.written i (.put u v) u v) := by
  refine .written hj (extends_put hg) (fun hown hres => ?_) fun d hd => ?_
  · obtain ⟨o, -, ⟨hi, -, -⟩ | ⟨old, hold, -⟩⟩ := hg
    · exact hj (Option.some.inj (hown.symm.trans hi))
    · simp [hres] at hold
  · obtain ⟨o, -, ⟨-, hres, -⟩ | ⟨old, hold, hdir, -⟩⟩ := hg
    · simp [hres] at hd
    · obtain rfl : old = .directory d := by simpa [hold] using hd
      cases hdir

theorem env_cas (hj : j ≠ i) (hg : Guar calls i (.cas u x v) s) (hx : s.store u = x) :
    Env j s (s.written i (.cas u x v) u v) := by
  have hext := extends_cas hg hx
  subst hx
  refine .written hj hext (fun _ hres => ?_) fun d hd => by simp [StoreAccess.commitsTo, hd]
  cases hg.1 rfl with
  | commit hd _ => simp [hres] at hd
  | push hd _ _ _ => rcases hd with hd | ⟨hd, -⟩ <;> simp [hres] at hd

/-- An operation leaves the invariant, extends what is there, and is a step of the environment for
everyone else. -/
theorem step (h : Inv calls s₀ s) {o : Op} (hg : Guar calls i o s) :
    Inv calls s₀ ((clients ι).perform i o t s).2.2 ∧
      Extends s ((clients ι).perform i o t s).2.2 ∧
      ∀ j, j ≠ i → Env j s ((clients ι).perform i o t s).2.2 := by
  cases o with
  | thread => exact ⟨h, Std.Refl.refl s, fun j _ => .refl j s⟩
  | setThread t' => exact ⟨h, Std.Refl.refl s, fun j _ => .refl j s⟩
  | rand =>
    refine ⟨⟨h.root, h.owned, h.present, h.kept, h.past, h.reservations, h.reserved, h.distinct,
      h.committed, h.entries, h.facets⟩, ⟨fun _ _ hu => hu, .refl _⟩, fun j _ => ?_⟩
    exact ⟨⟨fun _ _ hu => hu, .refl _⟩, fun _ _ hr => hr, [], rfl, by simp,
      fun _ _ _ _ => rfl⟩
  | get u =>
    exact ⟨h.accessed rfl rfl, ⟨fun _ _ hu => hu, .refl _⟩,
      fun j hj => .accessed hj⟩
  | add u v =>
    rw [clients_add]
    split_ifs with hu
    · obtain rfl : v = .reserved := hg hu
      have ho := h.owner_eq_none hu
      exact ⟨h.claimed hu, extends_claimed hu ho, fun j hj => .claimed hj hu ho⟩
    · refine ⟨h.accessed ?_ rfl, ⟨fun _ _ hu => hu, .refl _⟩,
        fun j hj => .accessed hj⟩
      exact if_neg hu
  | put u v => exact ⟨h.put hg, extends_put hg, fun j hj => env_put hj hg⟩
  | cas u x v =>
    rw [clients_cas]
    split_ifs with hx
    · exact ⟨h.cas hg hx, extends_cas hg hx, fun j hj => env_cas hj hg hx⟩
    · exact ⟨h.failed_cas hx, ⟨fun _ _ hu => hu, .refl _⟩,
        fun j hj => .accessed hj⟩
  | _ => exact hg.elim

end Steps

/-- The discipline of the calls of the file system. -/
def discipline [DecidableEq ι] (calls : ι → FsCall) (s₀ : Store) : Discipline (clients ι) where
  inv := Inv calls s₀
  own _ _ _ := True
  guar i o _ s := Guar calls i o s
  env := Env
  env_refl := Env.refl
  env_trans := Env.trans
  inv_step h _ hg := (step h hg).1
  own_step _ _ _ := trivial
  env_step hj h _ hg := (step h hg).2.2 _ hj
  own_env _ _ _ _ := trivial

end FileSystem

end Faasten
