import Mathlib
import Faasten.Facets
import Faasten.Prepare.Program

/-!
# What is installed

`prepare_fs` installs one thing after the other in `home:<T,faasten>`: blobs under their names, and the gate
`fsutil`. An `Item` is one of them. Installing it when an entry of its kind is there writes to the object of
the entry, and to nothing else; this is `Item.rewrite`, on the object.

* `Item.update_ok`, `Item.exec_update` and `Item.make_ok`: writing and making an object for an item;
* `found_ok`: what a successful installation leaves in the directory;
* `exec_found`: installing where an entry of the kind is there.
-/

namespace Faasten

open Std Effect

/-- Something that is installed under a name. -/
inductive Item
  | blob (name : String) (blobName : String)
  | gate (g : DirectGate)

/-- The label of what is stored. -/
def Stored.label? : Stored → Option Buckle
  | .object o => o.label?
  | .reserved => none

/-- `A` implies every privilege that is stored. -/
def Store.Bounded [LabelCrate] (A : Component) (s : Store) : Prop :=
  ∀ u o q, s u = some (.object o) → o.privilege? = some q → implies A q

theorem Store.Bounded.put [LabelCrate] {A : Component} {s : Store} {u : Uid} {o : Object} (h : s.Bounded A)
    (ho : o.privilege? = none) : (s.put u (.object o)).Bounded A := by
  intro x o' q ho' hq
  rcases Store.of_put ho' with ⟨-, heq⟩ | hold
  · cases heq
    rw [ho] at hq
    cases hq
  · exact h x o' q hold hq

namespace Item

/-- The name of the entry. -/
def name : Item → String
  | .blob name _ => name
  | .gate _ => "fsutil"

/-- The uid of an entry of the kind. -/
def ref : Item → DirEntry → Option Uid
  | .blob _ _ => DirEntry.blob?
  | .gate _ => DirEntry.gate?

/-- An entry of the kind. -/
def entry : Item → Uid → DirEntry
  | .blob _ _ => .blob
  | .gate _ => .gate

/-- The kind. -/
def kind : Item → DentKind
  | .blob _ _ => .dentBlob
  | .gate _ => .dentGate

/-- The object, with this label. -/
def object : Item → Buckle → Stored
  | .blob _ blobName, l => .encode (⟨l, blobName⟩ : Labeled Blob)
  | .gate g, l => .encode (⟨l, .direct g⟩ : Labeled Gate)

/-- There is an object of the kind, with this label. -/
def HeldAt (s : Store) (u : Uid) (l : Buckle) : Item → Prop
  | .blob _ _ => ∃ b : Blob, s u = some (.encode (⟨l, b⟩ : Labeled Blob))
  | .gate _ => ∃ g : Gate, s u = some (.encode (⟨l, g⟩ : Labeled Gate))

variable [LabelCrate]

/-- What the privilege must allow. -/
def Allowed (p : Component) : Item → Prop
  | .blob _ _ => True
  | .gate g => implies p g.privilege

/-- `A` implies the privilege that the item grants. -/
def Bounded (A : Component) : Item → Prop
  | .blob _ _ => True
  | .gate g => implies A g.privilege

/-- Write the object of an entry. -/
def update : Item → Uid → M Unit
  | .blob _ blobName, u => Blob.replace u blobName
  | .gate g, u => Gate.replace u (.direct g)

/-- Make a new object. -/
def make (rounds : ℕ) (label : Buckle) : Item → M DirEntry
  | .blob _ blobName => FS.createBlob rounds label blobName
  | .gate g => expect (FS.createDirectGate rounds label g)

/-- Install the item in a directory. -/
def install (rounds : ℕ) (base : Path) (label : Buckle) (it : Item) : M Unit :=
  createOrUpdate it.ref it.update (it.make rounds label) rounds base it.name

/-! ### The object of an item -/

variable {it it' : Item} {s : Store} {u : Uid} {l l' : Buckle} {w w' : World}

omit [LabelCrate] in
theorem HeldAt.label (h : it.HeldAt s u l) : (s u).bind Stored.label? = some l := by
  cases it <;> obtain ⟨v, hv⟩ := h <;> rw [hv] <;> rfl

omit [LabelCrate] in
/-- An object of the kind is no directory, and no list of facets. -/
theorem HeldAt.ne {T : Type} [Codec T] {v : T} {x : Uid} (h : it.HeldAt s u l)
    (hx : s x = some (.encode v)) (hk : (Codec.encode v).kind ≠ .dentBlob ∧ (Codec.encode v).kind ≠ .dentGate) :
    u ≠ x := by
  rintro rfl
  cases it with
  | blob =>
    obtain ⟨b, hb⟩ := h
    have heq := congrArg Object.kind (Stored.object.inj (Option.some.inj (hb.symm.trans hx)))
    exact hk.1 heq.symm
  | gate =>
    obtain ⟨g, hg⟩ := h
    have heq := congrArg Object.kind (Stored.object.inj (Option.some.inj (hg.symm.trans hx)))
    exact hk.2 heq.symm

omit [LabelCrate] in
/-- Two items whose object this is are of one kind. -/
theorem HeldAt.put (h : it.HeldAt s u l) (h' : it'.HeldAt s u l') : it'.HeldAt (s.put u (it.object l)) u l' := by
  have hl : l = l' := Option.some.inj (h.label.symm.trans h'.label)
  subst hl
  cases it <;> cases it' <;> obtain ⟨v, hv⟩ := h <;> obtain ⟨v', hv'⟩ := h' <;>
    first
    | exact ⟨_, Store.put_self ..⟩
    | exact absurd (hv.symm.trans hv') (fun heq => by cases heq)

omit [LabelCrate] in
theorem heldAt_object (it : Item) (s : Store) (u : Uid) (l : Buckle) :
    it.HeldAt (s.put u (it.object l)) u l := by
  cases it <;> exact ⟨_, Store.put_self ..⟩

omit [LabelCrate] in
theorem HeldAt.congr {s' : Store} (h : it.HeldAt s u l) (hs : s' u = s u) : it.HeldAt s' u l := by
  cases it <;> obtain ⟨v, hv⟩ := h <;> exact ⟨v, hs.trans hv⟩

omit [LabelCrate] in
theorem ref_entry (it : Item) (u : Uid) : it.ref (it.entry u) = some u := by
  cases it <;> rfl

omit [LabelCrate] in
theorem entry_of_ref {e : DirEntry} (h : it.ref e = some u) : e = it.entry u := by
  cases it <;> cases e <;> cases h <;> rfl

theorem Bounded.object {A : Component} {o : Object} {q : Component} (h : it.Bounded A)
    (ho : it.object l = .object o) (hq : o.privilege? = some q) : implies A q := by
  cases it <;> cases ho <;> cases hq
  exact h

/-! ### Writing and making it -/

theorem update_ok (h : exec (it.update u) w = (.ok (), w')) :
    ∃ l, it.HeldAt w.store u l ∧ canFlowToWithPrivilege w.currentLabel l w.privilege ∧
      it.Allowed w.privilege ∧ w' = { w with store := w.store.put u (it.object l) } := by
  cases it with
  | blob name blobName =>
    obtain ⟨o, ho, hflow, rfl⟩ := ObjectRef.overwrite_ok h
    exact ⟨o.label, ⟨o.data, ho⟩, hflow, trivial, rfl⟩
  | gate g =>
    obtain ⟨_, w₁, hcheck, hwrite⟩ := exec_bind_eq_ok h
    rw [exec_checkDelegate] at hcheck
    split_ifs at hcheck with hpriv
    · cases hcheck
      obtain ⟨o, ho, hflow, rfl⟩ := ObjectRef.overwrite_ok hwrite
      exact ⟨o.label, ⟨o.data, ho⟩, hflow, hpriv, rfl⟩
    · cases hcheck

theorem exec_update (hu : it.HeldAt w.store u l)
    (hflow : canFlowToWithPrivilege w.currentLabel l w.privilege) (hpriv : it.Allowed w.privilege) :
    exec (it.update u) w = (.ok (), { w with store := w.store.put u (it.object l) }) := by
  cases it with
  | blob name blobName =>
    obtain ⟨b, hb⟩ := hu
    exact (ObjectRef.exec_overwrite (decode_of_eq hb) blobName).trans (if_pos hflow)
  | gate g =>
    obtain ⟨v, hv⟩ := hu
    have hcheck := (exec_checkDelegate g.privilege w).trans (if_pos hpriv)
    exact (exec_bind_ok hcheck).trans
      ((ObjectRef.exec_overwrite (decode_of_eq hv) (Gate.direct g)).trans (if_pos hflow))

omit [LabelCrate] in
theorem expect_ok {α : Type} {m : M α} {a : α} (h : exec (expect m) w = (.ok a, w')) :
    exec m w = (.ok a, w') := by
  unfold expect at h
  rw [exec_bind, exec_result] at h
  rcases hm : exec m w with ⟨(e | _ | _) | b, w₁⟩ <;> rw [hm] at h <;> cases h
  rfl

omit [LabelCrate] in
theorem exec_expect {α : Type} {m : M α} {a : α} (h : exec m w = (.ok a, w')) :
    exec (expect m) w = (.ok a, w') := by
  unfold expect
  rw [exec_bind, exec_result, h]
  rfl

theorem make_ok {n : ℕ} {label : Buckle} {e : DirEntry} (h : exec (it.make n label) w = (.ok e, w')) :
    ∃ u r, e = it.entry u ∧ w.store u = none ∧ canFlowToWithPrivilege w.currentLabel label w.privilege ∧
      it.Allowed w.privilege ∧ w' = { w with rand := r, store := w.store.put u (it.object label) } := by
  cases it with
  | blob name blobName =>
    obtain ⟨u, w₁, hnew, h₁⟩ := exec_bind_eq_ok h
    obtain ⟨_, w₂, hwrite, hret⟩ := exec_bind_eq_ok h₁
    cases hret
    obtain ⟨hfree, r, rfl⟩ := ObjectRef.setNewId_ok hnew
    obtain ⟨o, ho, hflow, rfl⟩ := ObjectRef.overwrite_ok hwrite
    obtain rfl := encode_inj (Store.put_self ..) ho
    refine ⟨u, r, rfl, hfree, hflow, trivial, ?_⟩
    simp only [Store.put_put]
    rfl
  | gate g =>
    have h := expect_ok h
    unfold FS.createDirectGate at h
    obtain ⟨_, w₁, hcreate, h₁⟩ := exec_bind_eq_ok h
    obtain ⟨_, w₂, hpriv, h₂⟩ := exec_bind_eq_ok h₁
    obtain ⟨_, w₃, hdecl, h₃⟩ := exec_bind_eq_ok h₂
    obtain ⟨u, w₄, hnew, hret⟩ := exec_bind_eq_ok h₃
    cases hret
    rw [FS.exec_checkCreate] at hcreate
    split_ifs at hcreate with hflow
    · cases hcreate
      rw [exec_checkDelegate] at hpriv
      split_ifs at hpriv with himp
      · cases hpriv
        rw [exec_checkDelegate] at hdecl
        split_ifs at hdecl
        · cases hdecl
          obtain ⟨hfree, r, rfl⟩ := ObjectRef.setNewId_ok hnew
          exact ⟨u, r, rfl, hfree, hflow, himp, rfl⟩
        · cases hdecl
      · cases hpriv
    · cases hcreate

/-! ### Its place in the directory -/

/-- The item is in place: what a successful installation has done to the directory and to the object. -/
structure Placed (it : Item) (label : Buckle) (dir : Uid) (w w' : World) (d d' : Labeled Directory) (u : Uid)
    (l : Buckle) : Prop where
  stored : w'.store dir = some (.encode d')
  label_eq : d'.label = d.label
  entry : d'.data.entries[it.name]? = some (it.entry u)
  others : ∀ name, name ≠ it.name → d'.data.entries[name]? = d.data.entries[name]?
  object : w'.store u = some (it.object l)
  flows : canFlowToWithPrivilege w.currentLabel l w.privilege
  allowed : it.Allowed w.privilege
  frame : ∀ x, x ≠ u → x ≠ dir → w'.store x = w.store x
  privilege : w'.privilege = w.privilege
  raised : canFlowTo w.currentLabel w'.currentLabel
  source : (d' = d ∧ it.HeldAt w.store u l ∧ d.data.entries[it.name]? = some (it.entry u)) ∨
    (w.store u = none ∧ l = label ∧ (d.data.entries[it.name]?).bind it.ref = none)

section Place

variable [LawfulCrate] {label : Buckle} {n : ℕ} {dir : Uid} {d : Labeled Directory}

/-- A new object is linked under a name that is free. -/
theorem link_made (hd : w.store dir = some (.encode d)) (hfree : d.data.entries[it.name]? = none)
    (h : exec (it.make n label >>= fun new => Directory.link n dir it.name new >>= fun _ => pure ()) w =
      (.ok (), w')) :
    ∃ d' u, it.Placed label dir w w' d d' u label := by
  obtain ⟨e, w₁, hmake, h₁⟩ := exec_bind_eq_ok h
  obtain ⟨b, w₂, hlink, hend⟩ := exec_bind_eq_ok h₁
  cases hend
  obtain ⟨u, r, rfl, hu, hflow, hallowed, rfl⟩ := make_ok hmake
  have hne : dir ≠ u := by
    rintro rfl
    rw [hd] at hu
    cases hu
  have hd₁ : (w.store.put u (it.object label)) dir = some (.encode d) := (Store.put_of_ne _ _ hne).trans hd
  unfold Directory.link at hlink
  rw [exec_bind_ok (ObjectRef.exec_get _ _), decode_of_eq hd₁, exec_bind_ok (exec_unwrap_some _ _)] at hlink
  cases n with
  | zero => cases hlink
  | succ n =>
    rw [Directory.exec_updateLoop (w := { w with rand := r, store := w.store.put u (it.object label) }) hd₁]
      at hlink
    have hinsert : (Directory.insert it.name (it.entry u) d.data).1 = false := by
      simp [Directory.insert, ← ExtTreeMap.isSome_getElem?_eq_contains, hfree]
    rw [hinsert] at hlink
    simp only [Bool.false_eq_true, if_false] at hlink
    split_ifs at hlink with hwrite
    · cases hlink
      refine ⟨_, u, Store.put_self .., rfl, ?_, ?_, ?_, hflow, hallowed, ?_, rfl, ?_, .inr ⟨hu, rfl, ?_⟩⟩
      · simp [Directory.insert]
      · intro name hname
        simp [Directory.insert, ExtTreeMap.getElem?_insert, hname.symm]
      · exact (Store.put_of_ne _ _ hne.symm).trans (Store.put_self ..)
      · intro x hx hxd
        exact (Store.put_of_ne _ _ hxd).trans (Store.put_of_ne _ _ hx)
      · exact LawfulCrate.flow_lub_right _ _
      · rw [hfree]
        rfl
    · cases hlink

/-- **What a successful installation leaves in the directory.** -/
theorem found_ok (hd : w.store dir = some (.encode d))
    (h : exec (createOrUpdateFound it.ref it.update (it.make n label) n dir it.name
      d.data.entries[it.name]?) w = (.ok (), w')) :
    ∃ d' u l, it.Placed label dir w w' d d' u l := by
  rcases he : d.data.entries[it.name]? with _ | e
  · rw [he] at h
    obtain ⟨d', u, hplaced⟩ := link_made hd he h
    exact ⟨d', u, label, hplaced⟩
  rw [he] at h
  unfold createOrUpdateFound at h
  dsimp only at h
  rcases hu : it.ref e with _ | u
  · -- the entry is of another kind, and is replaced
    rw [hu] at h
    obtain ⟨b, w₁, hunlink, h₁⟩ := exec_bind_eq_ok h
    unfold Directory.unlink at hunlink
    rw [exec_bind_ok (ObjectRef.exec_get _ _), decode_of_eq hd, exec_bind_ok (exec_unwrap_some _ _)] at hunlink
    cases n with
    | zero => cases hunlink
    | succ n =>
      rw [Directory.exec_updateLoop hd] at hunlink
      have hremove : (Directory.remove it.name d.data).1 = true := by
        simp [Directory.remove, ← ExtTreeMap.isSome_getElem?_eq_contains, he]
      rw [hremove] at hunlink
      simp only [Bool.true_eq_false, if_false] at hunlink
      split_ifs at hunlink with hwrite
      · cases hunlink
        obtain ⟨d', u, hplaced⟩ := link_made (Store.put_self ..) (by simp [Directory.remove]) h₁
        refine ⟨d', u, label, ⟨hplaced.stored, hplaced.label_eq, hplaced.entry, ?_, hplaced.object, ?_,
          hplaced.allowed, ?_, hplaced.privilege, ?_, .inr ⟨?_, rfl, ?_⟩⟩⟩
        · intro name hname
          rw [hplaced.others name hname]
          simp [Directory.remove, ExtTreeMap.getElem?_erase, hname.symm]
        · exact LawfulCrate.priv_trans (LawfulCrate.priv_of_flow (LawfulCrate.flow_lub_right _ _)) hplaced.flows
        · intro x hx hxd
          exact (hplaced.frame x hx hxd).trans (Store.put_of_ne _ _ hxd)
        · exact LawfulCrate.flow_trans (LawfulCrate.flow_lub_right _ _) hplaced.raised
        · rcases hplaced.source with ⟨-, -, hentry⟩ | ⟨hfree, -, -⟩
          · simp [Directory.remove] at hentry
          · dsimp only at hfree
            have hne : u ≠ dir := by
              rintro rfl
              rw [Store.put_self] at hfree
              cases hfree
            rwa [Store.put_of_ne _ _ hne] at hfree
        · rw [he, Option.bind_some, hu]
      · cases hunlink
  · rw [hu] at h
    obtain ⟨l, hheld, hflow, hallowed, rfl⟩ := update_ok h
    have hne : dir ≠ u := (hheld.ne hd (by constructor <;> intro hk <;> cases hk)).symm
    refine ⟨d, u, l, (Store.put_of_ne _ _ hne).trans hd, rfl, ?_, fun _ _ => rfl, Store.put_self .., hflow,
      hallowed, fun x hx _ => Store.put_of_ne _ _ hx, rfl, LawfulCrate.flow_refl _, .inl ⟨rfl, hheld, ?_⟩⟩
    · rw [he, entry_of_ref hu]
    · rw [he, entry_of_ref hu]

omit [LawfulCrate] in
/-- Only the privilege of the item may be new. -/
theorem Placed.bounded {A : Component} {d' : Labeled Directory} (h : it.Placed label dir w w' d d' u l)
    (hit : it.Bounded A) (hw : w.store.Bounded A) : w'.store.Bounded A := by
  intro x o q ho hq
  by_cases hx : x = u
  · rw [hx, h.object] at ho
    exact hit.object (Option.some.inj ho) hq
  · by_cases hdir : x = dir
    · rw [hdir, h.stored] at ho
      cases ho
      cases hq
    · rw [h.frame x hx hdir] at ho
      exact hw x o q ho hq

omit [LawfulCrate] in
/-- Where an entry of the kind is there, installing writes its object. -/
theorem exec_found (he : d.data.entries[it.name]? = some (it.entry u)) (hu : it.HeldAt w.store u l)
    (hflow : canFlowToWithPrivilege w.currentLabel l w.privilege) (hpriv : it.Allowed w.privilege) :
    exec (createOrUpdateFound it.ref it.update (it.make n label) n dir it.name d.data.entries[it.name]?) w =
      (.ok (), { w with store := w.store.put u (it.object l) }) := by
  rw [he]
  unfold createOrUpdateFound
  dsimp only
  rw [ref_entry]
  exact exec_update hu hflow hpriv

end Place

end Item

end Faasten
