import Mathlib
import Faasten.Syscall.Server

/-!
# What the operations of a program may do

`Permits P w o` says what is asked of the operation `o` in the world `w`. Some of it is asked of
every operation of the monitor:

* the label of the thread is raised, unless the policy allows it to be lowered;
* an object that is replaced keeps its kind and its label, and the current label may flow to that
  label under the privilege of the thread;
* the privilege of a gate or service that is stored is one the thread holds.

The rest is up to the policy `P`: how the label may be lowered, which privileges the thread may take
on, what is stored in place of what, and what is sent to the scheduler and to external endpoints.

`Obeys P w m` says that every operation of `m`, run in `w`, is permitted. The rules below establish
it for the functions of the file system, each under the part of the policy that it needs.
-/

namespace Faasten

open Std Effect

/-- There is no object under the uid. -/
def World.Vacant (w : World) (u : Uid) : Prop := ∀ o, w.store u ≠ some (.object o)

/-- What stays as the functions of the file system read, taint and allocate: the descriptors and the
privilege of the thread, and the objects. -/
structure World.Grows (w w' : World) : Prop where
  dents : w'.dents = w.dents
  privilege : w'.privilege = w.privilege
  store : ∀ u o, w.store u = some (.object o) → w'.store u = some (.object o)

theorem World.Grows.refl (w : World) : w.Grows w := ⟨rfl, rfl, fun _ _ h => h⟩

theorem World.Grows.trans {w w' w'' : World} (h : w.Grows w') (h' : w'.Grows w'') : w.Grows w'' :=
  ⟨h'.dents.trans h.dents, h'.privilege.trans h.privilege,
    fun u o ho => h'.store u o (h.store u o ho)⟩

theorem World.grows_relabel (w : World) (l : Buckle) : w.Grows (w.relabel l) :=
  ⟨rfl, rfl, fun _ _ h => h⟩

theorem World.grows_put (w : World) (r : Stream' Uid) {u : Uid} (hu : w.Vacant u) (v : Stored) :
    w.Grows { w with rand := r, store := w.store.put u v } := by
  refine ⟨rfl, rfl, fun x o ho => ?_⟩
  have hx : x ≠ u := fun h => hu o (h ▸ ho)
  simpa [hx] using ho

theorem World.vacant_of_none {w : World} {u : Uid} (h : w.store u = none) : w.Vacant u :=
  fun o ho => by simp [h] at ho

theorem World.vacant_of_reserved {w : World} {u : Uid} (h : w.store u = some .reserved) :
    w.Vacant u := fun o ho => by simp [h] at ho

/-- What a program may do beyond reading. -/
structure Policy where
  /-- the label may be lowered from the one to the other -/
  lowers : Buckle → Buckle → Prop
  /-- the thread may act with this privilege -/
  assumes : Component → Prop
  /-- a descriptor may be opened for this entry -/
  holds : World → DirEntry → Prop
  /-- the object may be stored under the uid, new or in place of an old one -/
  stores : World → Uid → Option Object → Object → Prop
  /-- the message may be sent to the scheduler -/
  invokes : World → LabeledInvoke → Prop
  /-- the request may be sent -/
  sends : World → HttpRequest → Prop

/-- The policy lets the facet of a faceted directory be allocated. -/
structure Policy.AllowsFacet (P : Policy) (w : World) (dir : Uid) (facet : Buckle) : Prop where
  create : ∀ w' u, w.Grows w' → P.stores w' u none (.directory ⟨facet, {}⟩)
  push : ∀ w' (d : Option FacetedDirectory) v, w.Grows w' →
    w'.store v = some (.object (.directory ⟨facet, {}⟩)) → w'.store dir = d.map .encode →
    d.bind (·.find facet) = none →
    P.stores w' dir (d.map .facetedDirectory)
      (.facetedDirectory ⟨(d.getD {}).facets ++ [(facet, v)]⟩)

theorem Policy.AllowsFacet.mono {P : Policy} {w w' : World} {dir : Uid} {facet : Buckle}
    (h : P.AllowsFacet w dir facet) (hw : w.Grows w') : P.AllowsFacet w' dir facet :=
  ⟨fun w'' u hg => h.create w'' u (hw.trans hg),
    fun w'' d v hg => h.push w'' d v (hw.trans hg)⟩

variable [LabelCrate]

/-- How one operation may change the current label. -/
inductive LabelMove (lowers : Buckle → Buckle → Prop) (l : Buckle) : Buckle → Prop
  | keep : LabelMove lowers l l
  | taintLeft (l' : Buckle) : LabelMove lowers l (lub l' l)
  | taintRight (l' : Buckle) : LabelMove lowers l (lub l l')
  | lower {l' : Buckle} (h : lowers l l') : LabelMove lowers l l'

/-- A step of the thread's own state: the label moves, and every descriptor is an old one or one
the policy allows. -/
structure ThreadMove (P : Policy) (w : World) (t : Thread) : Prop where
  privilege : t.privilege = w.privilege ∨ P.assumes t.privilege
  label : LabelMove P.lowers w.currentLabel t.currentLabel
  dents : ∀ fd e, t.dents fd = some e → w.dents fd = some e ∨ P.holds w e

/-- The thread may write `o` in place of `old`. -/
structure Replaces (w : World) (old o : Object) : Prop where
  kind : o.kind = old.kind
  label : o.label? = old.label?
  flows : ∀ l, old.label? = some l → canFlowToWithPrivilege w.currentLabel l w.privilege

/-- The thread may store `o` under `u`. -/
structure Stores (P : Policy) (w : World) (u : Uid) (o : Object) : Prop where
  delegated : ∀ q, o.privilege? = some q → implies w.privilege q
  place : (w.Vacant u ∧ P.stores w u none o) ∨
    ∃ old, w.store u = some (.object old) ∧ Replaces w old o ∧ P.stores w u (some old) o

/-- What is asked of an operation. -/
def Permits (P : Policy) (w : World) : Op → Prop
  | .setThread t => ThreadMove P w t
  | .add _ v => v = .reserved
  | .put u v => ∃ o, v = .object o ∧ Stores P w u o
  | .cas u e v => w.store u = e → ∃ o, v = .object o ∧ Stores P w u o
  | .schedWrite m => P.invokes w m
  | .http r => P.sends w r
  | _ => True

/-- Every operation of the run is permitted. -/
def Obeys {α : Type} (P : Policy) (w : World) (m : M α) : Prop := handler.Always (Permits P) w m

/-! ### Rules -/

section Rules

variable {P : Policy} {w : World} {α β : Type}

theorem Obeys.pure (a : α) : Obeys P w (pure a : M α) := Handler.Always.pure a w

theorem Obeys.raise (e : Raised) : Obeys P w (.raise e : M α) := Handler.Always.raise e w

theorem Obeys.unwrap (a : Option α) : Obeys P w (unwrap a) := by
  cases a with
  | none => exact .raise _
  | some a => exact .pure a

theorem Obeys.bind {m : M α} {f : α → M β} (hm : Obeys P w m)
    (hf : ∀ a w', exec m w = (.ok a, w') → Obeys P w' (f a)) : Obeys P w (m >>= f) :=
  Handler.Always.bind hm hf

theorem Obeys.bind_ok {m : M α} {f : α → M β} {a : α} {w' : World}
    (hx : exec m w = (.ok a, w')) (hm : Obeys P w m) (hf : Obeys P w' (f a)) :
    Obeys P w (m >>= f) := by
  refine hm.bind fun b w'' hx' => ?_
  obtain ⟨⟨⟩, rfl⟩ := Prod.ext_iff.1 (hx.symm.trans hx')
  exact hf

theorem Obeys.unwrap_bind {a : Option α} {f : α → M β} (hf : ∀ b, a = some b → Obeys P w (f b)) :
    Obeys P w (Faasten.unwrap a >>= f) := by
  refine (Obeys.unwrap a).bind fun b w' hx => ?_
  cases a with
  | none => cases hx
  | some a => cases hx; exact hf _ rfl

theorem Obeys.result {m : M α} (hm : Obeys P w m) : Obeys P w (result m) :=
  Handler.Always.attempt _ hm

/-- An invariant that permitted operations keep is kept by the run. -/
theorem Obeys.invariant {I : World → Prop} {m : M α} (hm : Obeys P w m)
    (hI : ∀ w o, Permits P w o → I w → I (perform o w).2) (hw : I w) : I (exec m w).2 :=
  Handler.Always.invariant hI hm hw

theorem Obeys.call {o : Op} (h : Permits P w o) :
    Obeys P w (.call (S := monitor) o : M (Op.Res o)) := Handler.Always.call h

theorem Obeys.inspect_bind {g : Thread → α} {f : α → M β} (hf : Obeys P w (f (g w.toThread))) :
    Obeys P w (inspect g >>= f) :=
  .bind_ok (exec_inspect g w) (.bind_ok (exec_thread w) (.call trivial) (.pure _)) hf

theorem Obeys.dent_bind {fd : ℕ} {f : Option DirEntry → M β} (hf : Obeys P w (f (w.dents fd))) :
    Obeys P w (dent fd >>= f) := .inspect_bind hf

theorem Obeys.getPrivilege_bind {f : Component → M β} (hf : Obeys P w (f w.privilege)) :
    Obeys P w (getPrivilege >>= f) :=
  .bind_ok (exec_getPrivilege w) (.bind_ok (exec_thread w) (.call trivial) (.pure _)) hf

theorem Obeys.get_bind {T : Type} [Codec T] {u : Uid} {f : Option T → M β}
    (hf : Obeys P w (f ((w.store u).bind Stored.decode))) :
    Obeys P w (ObjectRef.get T u >>= f) :=
  .bind_ok (ObjectRef.exec_get u w) (.bind_ok (exec_get w u) (.call trivial) (.pure _)) hf

theorem Obeys.nextIo_bind {f : Except Bytes ℕ → M β}
    (hf : Obeys P { w with io := w.io.tail } (f w.io.head)) : Obeys P w (nextIo >>= f) :=
  .bind_ok (exec_nextIo w) (.call trivial) hf

/-! ### The label -/

theorem Obeys.withCurrentLabel {m : Access Buckle β}
    (h : ∀ b l, m.run w.currentLabel = some (b, l) → LabelMove P.lowers w.currentLabel l) :
    Obeys P w (withCurrentLabel m) := by
  refine .bind_ok (exec_thread w) (.call trivial) ?_
  split
  · rename_i b l hr
    refine .bind_ok (exec_setThread w _) (.call ⟨.inl rfl, h b l hr, fun fd e he => .inl he⟩) (.pure _)
  · exact .raise _

theorem obeys_getCurrentLabel : Obeys P w getCurrentLabel := by
  refine .withCurrentLabel fun b l h => ?_
  cases h; exact .keep

theorem obeys_taintWithLabel (l : Buckle) : Obeys P w (taintWithLabel l) := by
  refine .withCurrentLabel fun b l h => ?_
  cases h; exact .taintRight _

theorem obeys_declassifyWith {q : Component} (hq : ∀ l, P.lowers l (downgrade l q)) :
    Obeys P w (declassifyWith q) := by
  refine .withCurrentLabel fun b l h => ?_
  cases h; exact .lower (hq _)

theorem Obeys.getCurrentLabel_bind {f : Buckle → M β} (hf : Obeys P w (f w.currentLabel)) :
    Obeys P w (getCurrentLabel >>= f) :=
  .bind_ok (exec_getCurrentLabel w) obeys_getCurrentLabel hf

variable {T R : Type}

theorem obeys_unlabel (o : Labeled T) : Obeys P w o.unlabel := by
  refine .withCurrentLabel fun b l h => ?_
  cases h; exact .taintLeft _

theorem obeys_write (o : Labeled T) (v : T) : Obeys P w (o.write v) := by
  refine .getCurrentLabel_bind (.getPrivilege_bind ?_)
  split_ifs
  · exact .pure _
  · exact .raise _

theorem obeys_modify (o : Labeled T) (f : T → R × T) : Obeys P w (o.modify f) := by
  refine .bind (.withCurrentLabel fun b l h => ?_) fun _ w' _ =>
    .getCurrentLabel_bind (.getPrivilege_bind ?_)
  · cases h; exact .taintLeft _
  · split_ifs
    · exact .pure _
    · exact .raise _

end Rules

/-! ### The file system -/

section Fs

variable {P : Policy} {w : World} {T : Type}

theorem obeys_read [LabeledCodec T] (u : Uid) : Obeys P w (ObjectRef.read T u) :=
  .get_bind (.unwrap_bind fun o _ => obeys_unlabel o)

theorem obeys_set [Codec T] {u : Uid} {v : T} (h : Stores P w u (Codec.encode v)) :
    Obeys P w (ObjectRef.set u v) := .call ⟨_, rfl, h⟩

theorem obeys_overwrite [LabeledCodec T] {u : Uid} {v : T}
    (hdel : ∀ l q, (Codec.encode (⟨l, v⟩ : Labeled T)).privilege? = some q → implies w.privilege q)
    (hP : ∀ old : Labeled T, w.store u = some (.encode old) →
      canFlowToWithPrivilege w.currentLabel old.label w.privilege →
      P.stores w u (some (Codec.encode old)) (Codec.encode { old with data := v })) :
    Obeys P w (ObjectRef.overwrite u v) := by
  refine .get_bind (.unwrap_bind fun o ho => (obeys_write o v).bind fun o' w' hx => ?_)
  have hu : w.store u = some (.encode o) := decode_eq_some ho
  obtain ⟨hf, rfl, rfl⟩ := Labeled.write_ok hx
  refine obeys_set ⟨fun q hq => hdel _ q hq, .inr ⟨_, hu, ⟨LabeledCodec.kind_encode _ _, ?_, ?_⟩,
    hP o hu hf⟩⟩
  · rw [LabeledCodec.label_encode, LabeledCodec.label_encode]
  · intro l hl
    rw [LabeledCodec.label_encode] at hl
    cases hl; exact hf

theorem obeys_setNewId [Codec T] (n : ℕ) {v : T}
    (hdel : ∀ q, (Codec.encode v).privilege? = some q → implies w.privilege q)
    (hP : ∀ w' u, w.Grows w' → P.stores w' u none (Codec.encode v)) :
    Obeys P w (ObjectRef.setNewId n v) := by
  induction n generalizing w with
  | zero => exact .raise _
  | succ n ih =>
    refine .bind_ok (exec_random w) (.call trivial) (.bind (.call rfl) fun added w' hx => ?_)
    change exec (Storage.add _ _) _ = _ at hx
    rw [exec_add] at hx
    split_ifs at hx with hu
    · cases hx
      have hgrow := w.grows_put w.rand.tail (World.vacant_of_none hu) .reserved
      refine .bind (obeys_set ⟨hdel, .inl ⟨World.vacant_of_reserved (Store.put_self ..), ?_⟩⟩)
        fun _ _ _ => .pure _
      exact hP _ _ hgrow
    · cases hx
      exact ih hdel fun w' u h => hP w' u ⟨h.dents, h.privilege, h.store⟩

theorem obeys_updateLoop {self : Uid} {f : Directory → Bool × Directory} {skip : Bool} (n : ℕ)
    (d : Labeled Directory)
    (hP : ∀ w' d, w.Grows w' → w'.store self = some (.object (.directory d)) →
      P.stores w' self (some (.directory d)) (.directory { d with data := (f d.data).2 })) :
    Obeys P w (Directory.updateLoop self f skip n d) := by
  induction n generalizing w d with
  | zero => exact .raise _
  | succ n ih =>
    refine (obeys_modify d f).bind fun ⟨existed, d'⟩ w' hx => ?_
    obtain ⟨hf, ⟨⟩, rfl⟩ := Labeled.modify_ok hx
    have hgrow := w.grows_relabel (lub d.label w.currentLabel)
    dsimp only
    split_ifs with hs
    · exact .pure _
    · refine .bind (.bind (.call fun hst => ⟨_, rfl, ?_⟩) fun r w' _ => ?_) fun r w' hx => ?_
      · refine ⟨nofun, .inr ⟨_, hst, ⟨rfl, rfl, ?_⟩, hP _ d hgrow hst⟩⟩
        rintro l ⟨⟩
        exact hf
      · cases r <;> exact .pure _
      · have hw' : w.Grows w' ∨ r = .ok () := by
          rw [ObjectRef.cas, exec_bind, exec_cas] at hx
          split_ifs at hx
          · cases hx; exact .inr rfl
          · cases hx; exact .inl hgrow
        split
        · rcases hw' with hw' | ⟨⟨⟩⟩
          exact ih _ fun w'' d h => hP w'' d (hw'.trans h)
        · exact .pure _

theorem obeys_link {self : Uid} {name : String} {e : DirEntry} (n : ℕ)
    (hP : ∀ w' d, w.Grows w' → w'.store self = some (.object (.directory d)) →
      P.stores w' self (some (.directory d))
        (.directory { d with data := ⟨d.data.entries.insert name e⟩ })) :
    Obeys P w (Directory.link n self name e) :=
  .get_bind (.unwrap_bind fun d _ => obeys_updateLoop n d hP)

theorem obeys_unlink {self : Uid} {name : String} (n : ℕ)
    (hP : ∀ w' d, w.Grows w' → w'.store self = some (.object (.directory d)) →
      P.stores w' self (some (.directory d))
        (.directory { d with data := ⟨d.data.entries.erase name⟩ })) :
    Obeys P w (Directory.unlink n self name) :=
  .get_bind (.unwrap_bind fun d _ => obeys_updateLoop n d hP)

theorem obeys_checkDelegate (q : Component) : Obeys P w (checkDelegate q) := by
  refine .getPrivilege_bind ?_
  split_ifs
  · exact .pure _
  · exact .raise _

/-- What follows `checkDelegate q` runs only where the thread holds `q`. -/
theorem Obeys.checkDelegate_bind {β : Type} {q : Component} {m : M β}
    (hm : implies w.privilege q → Obeys P w m) : Obeys P w (checkDelegate q >>= fun _ => m) := by
  refine (obeys_checkDelegate q).bind fun _ w' hx => ?_
  rw [exec_checkDelegate] at hx
  split_ifs at hx with hq
  · cases hx; exact hm hq
  · cases hx

theorem Obeys.checkCreate_bind {β : Type} {l : Buckle} {m : M β}
    (hm : canFlowToWithPrivilege w.currentLabel l w.privilege → Obeys P w m) :
    Obeys P w (FS.checkCreate l >>= fun _ => m) := by
  refine .bind ?_ fun _ w' hx => ?_
  · refine .getCurrentLabel_bind (.getPrivilege_bind ?_)
    split_ifs
    · exact .pure _
    · exact .raise _
  · rw [FS.exec_checkCreate] at hx
    split_ifs at hx with hf
    · cases hx; exact hm hf
    · cases hx

theorem obeys_toInvokableLoop (n : ℕ) (g : Gate) (a b c : Component) :
    Obeys P w (Gate.toInvokableLoop n g a b c) := by
  induction n generalizing w g a b c with
  | zero => exact .raise _
  | succ n ih =>
    cases g with
    | direct g => exact .pure _
    | redirect g => exact (obeys_read _).bind fun g' w' _ => ih _ _ _ _

theorem obeys_toInvokable (n : ℕ) (u : Uid) : Obeys P w (Gate.toInvokable n u) :=
  (obeys_read _).bind fun g _ _ => obeys_toInvokableLoop n g _ _ _

theorem obeys_openLoop (n : ℕ) {dir : Uid} {facet : Buckle} (k : ℕ)
    (d : Option FacetedDirectory) (hP : P.AllowsFacet w dir facet) :
    Obeys P w (FacetedDirectory.openLoop n dir facet k d) := by
  induction k generalizing w d with
  | zero => exact .raise _
  | succ k ih =>
    unfold FacetedDirectory.openLoop
    split
    · exact .pure _
    · rename_i hd
      refine .bind (obeys_setNewId n nofun hP.create) fun v w' hx => ?_
      obtain ⟨r, hr⟩ | ⟨u, r, hu, hr⟩ :=
        ObjectRef.exec_setNewId n (⟨facet, {}⟩ : Labeled Directory) w
      · rw [hr] at hx; cases hx
      · rw [hr] at hx; cases hx
        have hgrow := w.grows_put r (World.vacant_of_none hu)
          (.encode (⟨facet, {}⟩ : Labeled Directory))
        have hP' := hP.mono hgrow
        refine .bind (.bind (.call fun hst => ⟨_, rfl, nofun, ?_⟩) fun r w' _ => ?_)
          fun r w' hx => ?_
        · have hpush := hP.push _ d v hgrow (Store.put_self ..) hst hd
          cases d with
          | none => exact .inl ⟨World.vacant_of_none hst, hpush⟩
          | some d => exact .inr ⟨_, hst, ⟨rfl, rfl, nofun⟩, hpush⟩
        · cases r <;> exact .pure _
        · have hw' : (w.Grows w') ∨ r = .ok () := by
            rw [ObjectRef.cas, exec_bind, exec_cas] at hx
            split_ifs at hx
            · cases hx; exact .inr rfl
            · cases hx; exact .inl hgrow
          split
          · exact .pure _
          · rcases hw' with hw' | ⟨⟨⟩⟩
            exact ih _ (hP.mono hw')

theorem obeys_open (n : ℕ) {dir : Uid} {facet : Buckle} (hP : P.AllowsFacet w dir facet) :
    Obeys P w (FacetedDirectory.open' n dir facet) := .get_bind (obeys_openLoop n n _ hP)

end Fs

end Faasten
