import Mathlib
import Faasten.DcLabels
import Faasten.Effect.Amid
import Faasten.Fs.Utils

/-!
# Creating or updating amid others

A call of `create_or_update_file` or `create_or_update_blob`, while other clients link and unlink. What the
others do between the operations of the call is a move of `Others`.

An entry of another kind is unlinked first, and then a new object is made, written and linked. The write has
a check of its own, and `unlink` and `link` return whether they have changed anything, which nobody looks
at. `all_or_nothing` names the conditions under which none of this shows.
-/

namespace Faasten

open Std Effect

/-- What the others may have done to an object: they change entries of directories. -/
def Store.SavedAt (u : Uid) (s s' : Store) : Prop :=
  s' u = s u ∨ ∃ d d' : Labeled Directory,
    s u = some (.encode d) ∧ s' u = some (.encode d') ∧ d'.label = d.label

/-- What the others do: any number of links and unlinks. -/
def Others (w w' : World) : Prop :=
  ∃ s, (∀ u, w.store.SavedAt u s) ∧ w' = { w with store := s }

/-- The name stays bound as it is, or free. -/
def KeepsBinding (dir : Uid) (name : String) (w w' : World) : Prop :=
  ∀ d d' : Labeled Directory, w.store dir = some (.encode d) → w'.store dir = some (.encode d') →
    d'.data.entries[name]? = d.data.entries[name]?

/-- Others that keep the binding of the name. -/
def Sparing (dir : Uid) (name : String) (w w' : World) : Prop :=
  Others w w' ∧ KeepsBinding dir name w w'

/-- The store is as it was after each of the steps. -/
def Quiet (es : List (World × World)) : Prop := ∀ e ∈ es, e.2.store = e.1.store

/-- The steps leave the objects as they are that the store held in `w`. -/
def Leaves (w : World) (es : List (World × World)) : Prop :=
  ∀ e ∈ es, ∀ u, w.store u ≠ none → e.2.store u = e.1.store u

/-- The directory has this label, and the name is bound like this. -/
def Shows (dir : Uid) (name : String) (l : Buckle) (x : Option DirEntry) (w : World) : Prop :=
  ∃ d : Labeled Directory, w.store dir = some (.encode d) ∧ d.label = l ∧ d.data.entries[name]? = x

/-- The directory binds the name to an object of the kind with exactly this content. -/
def Binds {T : Type} [LabeledCodec T] (entry : Uid → DirEntry) (dir : Uid) (name : String) (value : T)
    (w : World) : Prop :=
  ∃ u l, (∃ d : Labeled Directory, w.store dir = some (.encode d) ∧
    d.data.entries[name]? = some (entry u)) ∧ w.store u = some (.encode (⟨l, value⟩ : Labeled T))

/-! ### What the others keep -/

section Others

variable {w w' : World} {dir u : Uid} {name : String} {l : Buckle} {x : Option DirEntry}
  {v : Stored}

theorem Others.refl (w : World) : Others w w := ⟨w.store, fun _ => .inl rfl, rfl⟩

theorem Others.thread (h : Others w w') : w'.toThread = w.toThread := by
  obtain ⟨s, -, rfl⟩ := h
  rfl

/-- Nothing is removed from the store. -/
theorem Others.present (h : Others w w') (hu : w.store u ≠ none) : w'.store u ≠ none := by
  obtain ⟨s, hs, rfl⟩ := h
  rcases hs u with h | ⟨d, d', -, h, -⟩
  · exact fun h' => hu (h ▸ h')
  · exact fun h' => nomatch h.symm.trans h'

/-- What is no directory stays as it is. -/
theorem Others.same_iff (h : Others w w') (hv : ∀ d : Labeled Directory, v ≠ .encode d) :
    w'.store u = some v ↔ w.store u = some v := by
  obtain ⟨s, hs, rfl⟩ := h
  rcases hs u with h | ⟨d, d', hd, hd', -⟩
  · exact iff_of_eq (congrArg (· = some v) h)
  · constructor
    · intro hu
      exact absurd (Option.some.inj (hu.symm.trans hd')) (hv d')
    · intro hu
      exact absurd (Option.some.inj (hu.symm.trans hd)) (hv d)

theorem Sparing.shows (h : Sparing dir name w w') (hw : Shows dir name l x w) :
    Shows dir name l x w' := by
  obtain ⟨⟨s, hs, rfl⟩, hkeep⟩ := h
  obtain ⟨d, hd, hl, hx⟩ := hw
  rcases hs dir with h | ⟨d₁, d', hd₁, hd', hl'⟩
  · exact ⟨d, h.trans hd, hl, hx⟩
  · obtain rfl := encode_inj hd hd₁
    exact ⟨d', hd', hl'.trans hl, (hkeep _ _ hd hd').trans hx⟩

end Others

section Steps

variable {es es' : List (World × World)} {w w' : World}

theorem Quiet.nil : Quiet [] := List.forall_mem_nil _

theorem Quiet.cons {e : World × World} (he : e.2.store = e.1.store) (h : Quiet es) : Quiet (e :: es) :=
  List.forall_mem_cons.2 ⟨he, h⟩

theorem Quiet.append (h : Quiet es) (h' : Quiet es') : Quiet (es ++ es') :=
  List.forall_mem_append.2 ⟨h, h'⟩

theorem Quiet.leaves (h : Quiet es) (w : World) : Leaves w es := fun e he u _ => by rw [h e he]

theorem Leaves.append (h : Leaves w es) (h' : Leaves w es') : Leaves w (es ++ es') :=
  List.forall_mem_append.2 ⟨h, h'⟩

theorem Leaves.of_present (h : Leaves w' es) (hw : ∀ u, w.store u ≠ none → w'.store u ≠ none) :
    Leaves w es := fun e he u hu => h e he u (hw u hu)

/-- What depends on the store alone is kept by quiet steps. -/
theorem Quiet.keeps {I : World → Prop} (hI : ∀ {w w' : World}, w'.store = w.store → I w → I w')
    (h : Quiet es) : ∀ e ∈ es, I e.1 → I e.2 := fun e he => hI (h e he)

end Steps

theorem Shows.congr {dir : Uid} {name : String} {l : Buckle} {x : Option DirEntry} {w w' : World}
    (h : w'.store = w.store) (hw : Shows dir name l x w) : Shows dir name l x w' := by
  unfold Shows at hw ⊢
  rw [h]
  exact hw

/-! ### Programs on the thread's own label -/

/-- The operations that touch only the thread itself. -/
def Op.own : Op → Prop
  | .thread => True
  | .setThread _ => True
  | _ => False

section Own

variable {α R T : Type}

/-- A program on the thread itself ends as it would without the others. -/
theorem amid_own {dir : Uid} {name : String} {m : M α} (hm : m.Only Op.own) {w t : World}
    {es : List (World × World)} {r : Except Raised α}
    (h : handler.Amid (Sparing dir name) m w es r t) :
    Quiet es ∧ r = (exec m w).1 ∧ t.toThread = (exec m w).2.toThread := by
  constructor
  · have hquiet := h.steps (G := fun e : World × World => e.2.store = e.1.store) hm fun o ho w => by
      cases o <;> first | exact ho.elim | rfl
    exact hquiet
  · refine h.alone (p := World.toThread) hm (fun w w' hw => hw.1.thread) ?_ rfl
    intro o ho w w' heq
    cases o with
    | thread => exact ⟨heq, heq⟩
    | setThread t => exact ⟨rfl, rfl⟩
    | _ => exact ho.elim

theorem own_withCurrentLabel {m : Access Buckle α} : (withCurrentLabel m).Only Op.own := by
  refine ⟨trivial, fun t => ?_⟩
  simp only [Prog.bind]
  split
  · exact ⟨trivial, fun _ => trivial⟩
  · trivial

theorem own_unwrap (a : Option α) : (unwrap a).Only Op.own := by
  cases a <;> trivial

variable [LabelCrate]

theorem own_unlabel (o : Labeled T) : o.unlabel.Only Op.own := own_withCurrentLabel

theorem own_write (o : Labeled T) (v : T) : (o.write v).Only Op.own := by
  refine .bind own_withCurrentLabel fun l => ⟨trivial, fun p => ?_⟩
  change (if canFlowToWithPrivilege l o.label p.privilege = true then _ else _ : M _).Only Op.own
  split_ifs <;> trivial

theorem own_modify (o : Labeled T) (f : T → R × T) : (o.modify f).Only Op.own := by
  refine .bind own_withCurrentLabel fun _ => .bind own_withCurrentLabel fun l => ⟨trivial, fun p => ?_⟩
  change (if canFlowToWithPrivilege l o.label p.privilege = true then _ else _ : M _).Only Op.own
  split_ifs <;> trivial

end Own

/-! ### Single operations -/

section Single

variable {T : Type} [Codec T] {E : World → World → Prop} {s t : World} {es : List (World × World)}
  {u : Uid}

theorem amid_get {r : Except Raised (Option T)} (h : handler.Amid E (ObjectRef.get T u) s es r t) :
    E s t ∧ es = [(t, t)] ∧ r = .ok ((t.store u).bind Stored.decode) := by
  obtain ⟨s', es', hE, rfl, rfl, rfl, rfl⟩ := h
  exact ⟨hE, rfl, rfl⟩

theorem amid_set {v : T} {r : Except Raised Unit} (h : handler.Amid E (ObjectRef.set u v) s es r t) :
    ∃ s', E s s' ∧ es = [(s', t)] ∧ r = .ok () ∧
      t = { s' with store := s'.store.put u (.encode v) } := by
  obtain ⟨s', es', hE, rfl, rfl, rfl, rfl⟩ := h
  exact ⟨s', hE, rfl, rfl, rfl⟩

theorem amid_cas {o v : T} {r : Except Raised (Except (Option T) Unit)}
    (h : handler.Amid E (ObjectRef.cas u (some o) v) s es r t) :
    ∃ s', E s s' ∧ es = [(s', t)] ∧
      ((s'.store u = some (.encode o) ∧ r = .ok (.ok ()) ∧
        t = { s' with store := s'.store.put u (.encode v) }) ∨
      (t = s' ∧ r = .ok (.error ((s'.store u).bind Stored.decode)))) := by
  obtain ⟨s', es', hE, rfl, h⟩ := h
  refine ⟨s', hE, ?_⟩
  by_cases hc : s'.store u = some (.encode o)
  · have hp : handler.perform (.cas u ((some o).map .encode) (.encode v)) s' =
        (.ok (), { s' with store := s'.store.put u (.encode v) }) := if_pos hc
    rw [hp] at h ⊢
    obtain ⟨rfl, rfl, rfl⟩ := h
    exact ⟨rfl, .inl ⟨hc, rfl, rfl⟩⟩
  · have hp : handler.perform (.cas u ((some o).map .encode) (.encode v)) s' =
        (.error (s'.store u), s') := if_neg hc
    rw [hp] at h ⊢
    obtain ⟨rfl, rfl, rfl⟩ := h
    exact ⟨rfl, .inr ⟨rfl, rfl⟩⟩

theorem amid_add {v : Stored} {r : Except Raised Bool}
    (h : handler.Amid E (Storage.add u v) s es r t) :
    ∃ s', E s s' ∧ es = [(s', t)] ∧
      ((s'.store u = none ∧ r = .ok true ∧ t = { s' with store := s'.store.put u v }) ∨
      (t = s' ∧ r = .ok false)) := by
  obtain ⟨s', es', hE, rfl, rfl, rfl, rfl⟩ := h
  refine ⟨s', hE, rfl, ?_⟩
  cases hu : s'.store u with
  | none => exact .inl ⟨rfl, by simp [handler, perform, hu], by simp [handler, perform, hu]⟩
  | some v' => exact .inr ⟨by simp [handler, perform, hu], by simp [handler, perform, hu]⟩

theorem amid_random {r : Except Raised Uid} (h : handler.Amid E random s es r t) :
    ∃ s', E s s' ∧ es = [(s', t)] ∧ r = .ok s'.rand.head ∧ t = { s' with rand := s'.rand.tail } := by
  obtain ⟨s', es', hE, rfl, rfl, rfl, rfl⟩ := h
  exact ⟨s', hE, rfl, rfl, rfl⟩

end Single

/-! ### Swapping a directory in -/

section Loop

variable [LabelCrate] {dir : Uid} {name : String} {l : Buckle} {x : Option DirEntry} {s t : World}
  {es : List (World × World)} {f : Directory → Bool × Directory}

/-- The threads are as free to write in the one as in the other. -/
def SameLevel (s t : World) : Prop :=
  canFlowTo s.currentLabel t.currentLabel ∧ canFlowTo t.currentLabel s.currentLabel ∧
    t.privilege = s.privilege

/-- How an update of the directory ends: nothing has changed, or the last step swaps the directory in. -/
def Swaps (dir : Uid) (name : String) (l : Buckle) (x : Option DirEntry)
    (f : Directory → Bool × Directory) (s t : World) (es : List (World × World))
    (r : Except Raised Bool) : Prop :=
  (Quiet es ∧ ((∃ e, r = .error e ∧ ∀ e', e ≠ .err e') ∨
    (∃ e, r = .error e) ∧ ¬canFlowToWithPrivilege s.currentLabel l s.privilege)) ∨
  (r = .ok true ∧ canFlowToWithPrivilege s.currentLabel l s.privilege ∧ SameLevel s t ∧
    ∃ es' s', ∃ d : Labeled Directory, es = es' ++ [(s', t)] ∧ Quiet es' ∧ s'.store dir = some (.encode d) ∧ d.label = l ∧
      d.data.entries[name]? = x ∧ t.store = s'.store.put dir (.encode { d with data := (f d.data).2 }))

section

variable [LawfulCrate]

theorem SameLevel.refl (w : World) : SameLevel w w := ⟨LawfulCrate.flow_refl _, LawfulCrate.flow_refl _, rfl⟩

theorem SameLevel.trans {w w' w'' : World} (h : SameLevel w w') (h' : SameLevel w' w'') : SameLevel w w'' :=
  ⟨LawfulCrate.flow_trans h.1 h'.1, LawfulCrate.flow_trans h'.2.1 h.2.1, h'.2.2.trans h.2.2⟩

theorem SameLevel.of_thread {w w' : World} (h : w'.toThread = w.toThread) : SameLevel w w' := by
  unfold SameLevel
  rw [h]
  exact SameLevel.refl w

/-- A label that has been read already changes nothing. -/
theorem SameLevel.of_lub {w w' : World} (hl : canFlowTo l w.currentLabel)
    (h : w'.toThread = (w.relabel (lub l w.currentLabel)).toThread) : SameLevel w w' := by
  unfold SameLevel
  rw [h]
  exact ⟨LawfulCrate.flow_lub_right _ _,
    LawfulCrate.lub_flow hl (LawfulCrate.flow_refl _), rfl⟩

theorem SameLevel.flows_iff {w w' : World} (h : SameLevel w w') {l : Buckle} :
    canFlowToWithPrivilege w'.currentLabel l w'.privilege ↔
      canFlowToWithPrivilege w.currentLabel l w.privilege := by
  rw [h.2.2]
  exact ⟨LawfulCrate.priv_trans (LawfulCrate.priv_of_flow h.1),
    LawfulCrate.priv_trans (LawfulCrate.priv_of_flow h.2.1)⟩

end

theorem Swaps.cons {s' : World} {r : Except Raised Bool} {es₁ : List (World × World)} [LawfulCrate]
    (hq : Quiet es₁) (ha : SameLevel s s') (h : Swaps dir name l x f s' t es r) :
    Swaps dir name l x f s t (es₁ ++ es) r := by
  unfold Swaps at h ⊢
  rw [ha.flows_iff] at h
  rcases h with ⟨hes, h⟩ | ⟨hr, hf, ht, es', s'', d, rfl, hes, hd⟩
  · exact .inl ⟨hq.append hes, h⟩
  · exact .inr ⟨hr, hf, ha.trans ht, es₁ ++ es', s'', d, (List.append_assoc ..).symm, hq.append hes, hd⟩

/-- The loop of `link` and `unlink` amid others that spare the name. -/
theorem amid_updateLoop [LawfulCrate] {skip : Bool}
    (hf : ∀ d : Directory, d.entries[name]? = x → (f d).1 ≠ skip) {n : ℕ} {prev : Labeled Directory}
    (hl : prev.label = l) (hx : prev.data.entries[name]? = x) {r : Except Raised Bool}
    (h : handler.Amid (Sparing dir name) (Directory.updateLoop dir f skip n prev) s es r t)
    (hs : Shows dir name l x s) (hread : canFlowTo l s.currentLabel) :
    Swaps dir name l x f s t es r := by
  induction n generalizing prev s es with
  | zero =>
    obtain ⟨rfl, rfl, rfl⟩ := h
    exact .inl ⟨.nil, .inl ⟨_, rfl, nofun⟩⟩
  | succ n ih =>
    have hlevel : SameLevel s (s.relabel (lub l s.currentLabel)) := .of_lub hread rfl
    rcases Handler.amid_bind.1 h with
      ⟨e, rfl, hmod⟩ | ⟨⟨existed, new⟩, u, es₁, es₂, rfl, hmod, hswap⟩
    · obtain ⟨hq, hr, -⟩ := amid_own (own_modify prev f) hmod
      refine .inl ⟨hq, .inr ⟨⟨e, rfl⟩, fun hflow => ?_⟩⟩
      have hok : canFlowToWithPrivilege (lub l s.currentLabel) l s.privilege := hlevel.flows_iff.2 hflow
      rw [Labeled.exec_modify, hl, if_pos hok] at hr
      cases hr
    · obtain ⟨hq, hr, ht⟩ := amid_own (own_modify prev f) hmod
      obtain ⟨hflow, heq, hw⟩ := Labeled.modify_ok (Prod.ext hr.symm rfl)
      cases heq
      have ht := ht.trans (congrArg World.toThread hw)
      rw [hl] at ht
      have hu : SameLevel s u := .of_lub hread ht
      have hshows : Shows dir name l x u :=
        hmod.invariant (fun _ _ h => h.shows) (hq.keeps Shows.congr) hs
      refine Swaps.cons hq hu ?_
      change handler.Amid _ (if (f prev.data).1 = skip then _ else _ : M Bool) u es₂ r t at hswap
      rw [if_neg (hf _ hx)] at hswap
      rcases Handler.amid_bind.1 hswap with ⟨e, -, hcas⟩ | ⟨c, v, es₃, es₄, rfl, hcas, hrest⟩
      · obtain ⟨s', -, -, ⟨-, hr, -⟩ | ⟨-, hr⟩⟩ := amid_cas hcas <;> cases hr
      obtain ⟨s', hE, rfl, hcase⟩ := amid_cas hcas
      have hs' : SameLevel u s' := .of_thread hE.1.thread
      obtain ⟨d, hd, hdl, hdx⟩ := hE.shows hshows
      rcases hcase with ⟨hprev, hc, rfl⟩ | ⟨rfl, hc⟩
      · -- the directory is swapped in
        cases hc
        obtain ⟨rfl, rfl, rfl⟩ := hrest
        refine .inr ⟨rfl, hu.flows_iff.2 (hlevel.flows_iff.1 (hl ▸ hflow)), hs', [], s', prev, rfl, .nil, hprev,
          hl, hx, rfl⟩
      · -- somebody else has changed it, and the loop goes on with what it has become
        have hdec : (v.store dir).bind Stored.decode = some d := decode_of_eq hd
        rw [hdec] at hc
        cases hc
        have hreadv : canFlowTo l v.currentLabel :=
          LawfulCrate.flow_trans hread (LawfulCrate.flow_trans hu.1 hs'.1)
        exact Swaps.cons (Quiet.nil.cons rfl) hs' (ih hdl hdx hrest ⟨d, hd, hdl, hdx⟩ hreadv)

/-- `link` and `unlink` are this: get the directory, and update it. -/
theorem amid_getUpdate [LawfulCrate] {skip : Bool}
    (hf : ∀ d : Directory, d.entries[name]? = x → (f d).1 ≠ skip) {n : ℕ} {r : Except Raised Bool}
    (h : handler.Amid (Sparing dir name) (do
      let prevDir ← unwrap (← ObjectRef.get (Labeled Directory) dir)
      Directory.updateLoop dir f skip n prevDir) s es r t)
    (hs : Shows dir name l x s) (hread : canFlowTo l s.currentLabel) :
    Swaps dir name l x f s t es r := by
  rcases Handler.amid_bind.1 h with ⟨e, -, hget⟩ | ⟨o, u, es₁, es₂, rfl, hget, hrest⟩
  · obtain ⟨-, -, hr⟩ := amid_get hget
    cases hr
  obtain ⟨hE, rfl, hr⟩ := amid_get hget
  obtain ⟨d, hd, hdl, hdx⟩ := hE.shows hs
  rw [decode_of_eq hd] at hr
  cases hr
  have hu : SameLevel s u := .of_thread hE.1.thread
  exact Swaps.cons (Quiet.nil.cons rfl) hu
    (amid_updateLoop hf hdl hdx hrest ⟨d, hd, hdl, hdx⟩ (LawfulCrate.flow_trans hread hu.1))

end Loop

/-! ### Making an object -/

section Make

variable {T : Type} {dir u : Uid} {name : String} {s t : World} {es : List (World × World)}

theorem Sparing.present {w w' : World} (h : Sparing dir name w w') (hu : w.store u ≠ none) :
    w'.store u ≠ none := h.1.present hu

/-- Only what is under this uid has changed. -/
def OnlyAt (u : Uid) (es : List (World × World)) : Prop :=
  ∀ e ∈ es, ∀ x, x ≠ u → e.2.store x = e.1.store x

theorem OnlyAt.cons {e : World × World} (he : ∀ x, x ≠ u → e.2.store x = e.1.store x)
    (h : OnlyAt u es) : OnlyAt u (e :: es) := List.forall_mem_cons.2 ⟨he, h⟩

theorem OnlyAt.append {es' : List (World × World)} (h : OnlyAt u es) (h' : OnlyAt u es') :
    OnlyAt u (es ++ es') := List.forall_mem_append.2 ⟨h, h'⟩

theorem OnlyAt.leaves {w : World} (h : OnlyAt u es) (hu : w.store u = none) : Leaves w es :=
  fun e he x hx => h e he x fun heq => hx (heq ▸ hu)

theorem Quiet.onlyAt (h : Quiet es) (u : Uid) : OnlyAt u es := fun e he x _ => by rw [h e he]

/-- Allocation amid others: a uid that was free holds the new object. -/
theorem amid_setNewId [Codec T] {n : ℕ} {v : T} {r : Except Raised Uid}
    (h : handler.Amid (Sparing dir name) (ObjectRef.setNewId n v) s es r t) :
    (r = .error .diverge ∧ Quiet es) ∨
      ∃ u, r = .ok u ∧ s.store u = none ∧ t.store u = some (.encode v) ∧ OnlyAt u es ∧
        t.toThread = s.toThread := by
  induction n generalizing s es with
  | zero =>
    obtain ⟨rfl, rfl, rfl⟩ := h
    exact .inl ⟨rfl, .nil⟩
  | succ n ih =>
    rcases Handler.amid_bind.1 h with ⟨e, -, hrand⟩ | ⟨u, w, es₁, es₂, rfl, hrand, hadd⟩
    · obtain ⟨s', -, -, hr, -⟩ := amid_random hrand
      cases hr
    obtain ⟨s₁, hE₁, rfl, hr, rfl⟩ := amid_random hrand
    rcases Handler.amid_bind.1 hadd with ⟨e, -, hadd⟩ | ⟨free, w, es₃, es₄, rfl, hadd, hrest⟩
    · obtain ⟨s', -, -, ⟨-, hr, -⟩ | ⟨-, hr⟩⟩ := amid_add hadd <;> cases hr
    obtain ⟨s₂, hE₂, rfl, hcase⟩ := amid_add hadd
    have hpresent : ∀ x, s₂.store x = none → s.store x = none := fun x hx =>
      not_not.1 fun h => hE₂.present (hE₁.present h) hx
    have hthread : s₂.toThread = s.toThread := hE₂.1.thread.trans hE₁.1.thread
    rcases hcase with ⟨hfree, hb, rfl⟩ | ⟨rfl, hb⟩
    · -- the uid has been reserved, and the object is written
      cases hb
      rcases Handler.amid_bind.1 hrest with ⟨e, -, hset⟩ | ⟨_, w, es₅, es₆, rfl, hset, hret⟩
      · obtain ⟨s', -, -, hr, -⟩ := amid_set hset
        cases hr
      obtain ⟨s₃, hE₃, rfl, -, rfl⟩ := amid_set hset
      obtain ⟨rfl, rfl, rfl⟩ := hret
      refine .inr ⟨u, rfl, hpresent u hfree, Store.put_self .., ?_, hE₃.1.thread.trans hthread⟩
      exact .cons (fun x _ => rfl) (.cons (fun x hx => Store.put_of_ne _ _ hx)
        (.cons (fun x hx => Store.put_of_ne _ _ hx) (Quiet.nil.onlyAt u)))
    · -- somebody has this uid
      cases hb
      rcases ih hrest with ⟨rfl, hq⟩ | ⟨u', rfl, hu, ht, honly, hth⟩
      · exact .inl ⟨rfl, .cons rfl (.cons rfl hq)⟩
      · exact .inr ⟨u', rfl, hpresent u' hu, ht, .cons (fun x _ => rfl) (.cons (fun x _ => rfl) honly),
          hth.trans hthread⟩

/-- An object that is no directory is overwritten in the last step, or not at all. -/
theorem amid_overwrite [LabelCrate] [LabeledCodec T]
    (hT : ∀ (o : Labeled T) (d : Labeled Directory), Stored.encode o ≠ .encode d) {v : T}
    {r : Except Raised Unit}
    (h : handler.Amid (Sparing dir name) (ObjectRef.overwrite u v) s es r t) :
    (Quiet es ∧ ∃ e, r = .error e ∧ ((∀ e', e ≠ .err e') ∨ ∃ o : Labeled T,
      s.store u = some (.encode o) ∧ ¬canFlowToWithPrivilege s.currentLabel o.label s.privilege)) ∨
    (r = .ok () ∧ t.toThread = s.toThread ∧ ∃ es' s', ∃ o : Labeled T, es = es' ++ [(s', t)] ∧ Quiet es' ∧
      s.store u = some (.encode o) ∧ s'.store u = some (.encode o) ∧
        t.store = s'.store.put u (.encode { o with data := v })) := by
  rcases Handler.amid_bind.1 h with ⟨e, -, hget⟩ | ⟨o, w, es₁, es₂, rfl, hget, hrest⟩
  · obtain ⟨-, -, hr⟩ := amid_get hget
    cases hr
  obtain ⟨hE, rfl, hr⟩ := amid_get hget
  cases hr
  cases hdec : (w.store u).bind (Stored.decode (T := Labeled T)) with
  | none =>
    rw [hdec] at hrest
    obtain ⟨rfl, rfl, rfl⟩ := hrest
    exact .inl ⟨.cons rfl .nil, _, rfl, .inl nofun⟩
  | some o =>
    rw [hdec] at hrest
    have hw : w.store u = some (.encode o) := decode_eq_some hdec
    have hs : s.store u = some (.encode o) := (hE.1.same_iff (hT o)).1 hw
    change handler.Amid _ (o.write v >>= ObjectRef.set u) w es₂ r t at hrest
    rcases Handler.amid_bind.1 hrest with ⟨e, rfl, hwrite⟩ | ⟨o', w', es₃, es₄, rfl, hwrite, hset⟩
    · obtain ⟨hq, hr, -⟩ := amid_own (own_write o v) hwrite
      refine .inl ⟨.cons rfl hq, e, rfl, .inr ⟨o, hs, fun hflow => ?_⟩⟩
      rw [← hE.1.thread] at hflow
      rw [Labeled.exec_write, if_pos hflow] at hr
      cases hr
    · obtain ⟨hq, hr, ht⟩ := amid_own (own_write o v) hwrite
      obtain ⟨-, rfl, hworld⟩ := Labeled.write_ok (Prod.ext hr.symm rfl)
      have ht := ht.trans (congrArg World.toThread hworld)
      obtain ⟨s', hE', rfl, rfl, rfl⟩ := amid_set hset
      have hw' : w'.store u = some (.encode o) :=
        hwrite.invariant (I := fun w => w.store u = some (.encode o))
          (fun _ _ h => (h.1.same_iff (hT o)).2) (fun e he => (congrFun (hq e he) u).trans) hw
      exact .inr ⟨rfl, hE'.1.thread.trans (ht.trans hE.1.thread), (w, w) :: es₃, s', o, rfl,
        .cons rfl hq, hs, (hE'.1.same_iff (hT o)).2 hw', rfl⟩

/-- A new object with this content, as `create_file` and `write`, and `create_blob`, make it. -/
def makeObject [LabelCrate] [LabeledCodec T] [Inhabited T] (entry : Uid → DirEntry) (rounds : ℕ)
    (label : Buckle) (value : T) : M DirEntry := do
  let new ← ObjectRef.create T rounds label
  ObjectRef.overwrite new value
  return entry new

theorem amid_makeObject [LabelCrate] [LabeledCodec T] [Inhabited T]
    (hT : ∀ (o : Labeled T) (d : Labeled Directory), Stored.encode o ≠ .encode d)
    {entry : Uid → DirEntry} {rounds : ℕ} {label : Buckle} {v : T} {r : Except Raised DirEntry}
    (h : handler.Amid (Sparing dir name) (makeObject entry rounds label v) s es r t) :
    Leaves s es ∧
      ((∃ e, r = .error e ∧ ((∀ e', e ≠ .err e') ∨
        ¬canFlowToWithPrivilege s.currentLabel label s.privilege)) ∨
      ∃ u, r = .ok (entry u) ∧ t.toThread = s.toThread ∧
        t.store u = some (.encode (⟨label, v⟩ : Labeled T))) := by
  rcases Handler.amid_bind.1 h with ⟨e, rfl, hnew⟩ | ⟨u, w, es₁, es₂, rfl, hnew, hrest⟩
  · obtain ⟨hr, hq⟩ | ⟨u, hr, -⟩ := amid_setNewId hnew
    · cases hr
      exact ⟨hq.leaves s, .inl ⟨_, rfl, .inl nofun⟩⟩
    · cases hr
  obtain ⟨hr, -⟩ | ⟨u', hr, hfree, hw, honly, hthread⟩ := amid_setNewId hnew
  · cases hr
  cases hr
  have hmade : Leaves s es₁ := honly.leaves hfree
  rcases Handler.amid_bind.1 hrest with ⟨e, rfl, hwrite⟩ | ⟨_, w', es₃, es₄, rfl, hwrite, hret⟩
  · obtain ⟨hq, e, hr, hcase⟩ | ⟨hr, -⟩ := amid_overwrite hT hwrite
    · cases hr
      refine ⟨hmade.append (hq.leaves s), .inl ⟨e, rfl, hcase.imp_right ?_⟩⟩
      rintro ⟨o, ho, hflow⟩
      obtain rfl := encode_inj hw ho
      rw [hthread] at hflow
      exact hflow
    · cases hr
  · obtain ⟨-, e, hr, -⟩ | ⟨-, ht, es', s', o, rfl, hq, ho, hs', hput⟩ := amid_overwrite hT hwrite
    · cases hr
    obtain ⟨rfl, rfl, rfl⟩ := hret
    obtain rfl := encode_inj hw ho
    refine ⟨hmade.append (Leaves.append ((hq.leaves s).append ?_) (Quiet.nil.leaves s)), .inr ⟨u, rfl,
      ht.trans hthread, hput ▸ Store.put_self ..⟩⟩
    refine List.forall_mem_singleton.2 fun x hx => ?_
    rw [hput]
    exact Store.put_of_ne _ _ fun heq => hx (heq ▸ hfree)

end Make

/-! ### In the directory -/

section InDirectory

variable [LabelCrate] [LawfulCrate] {T : Type} [LabeledCodec T] [Inhabited T] {entry : Uid → DirEntry}
  {dir : Uid} {name : String} {l label : Buckle} {v : T} {s t : World} {es : List (World × World)}
  {rounds : ℕ} {r : Except Raised Unit}

omit [LabelCrate] [LawfulCrate] in
/-- The steps that make an object leave the directory alone. -/
theorem shows_of_leaves {α : Type} {m : M α} {x : Option DirEntry} {r : Except Raised α}
    (h : handler.Amid (Sparing dir name) m s es r t) (hes : Leaves s es) (hs : Shows dir name l x s) :
    Shows dir name l x t := by
  have hdir : s.store dir ≠ none := by
    obtain ⟨d, hd, -⟩ := hs
    rw [hd]
    exact Option.some_ne_none _
  refine h.invariant (fun _ _ h => h.shows) (fun e he => ?_) hs
  rintro ⟨d, hd, hl, hx⟩
  exact ⟨d, (hes e he dir hdir).trans hd, hl, hx⟩

/-- Where the name is free: make the object and link it. -/
theorem amid_makeLink
    (hT : ∀ (o : Labeled T) (d : Labeled Directory), Stored.encode o ≠ .encode d)
    (h : handler.Amid (Sparing dir name) (do
      let new ← makeObject entry rounds label v
      let _ ← Directory.link rounds dir name new
      return ()) s es r t)
    (hs : Shows dir name l none s) (hread : canFlowTo l s.currentLabel) :
    (r = .ok () → ∃ e ∈ es, Binds entry dir name v e.2) ∧
      ∀ e, r = .error (.err e) → Leaves s es ∧
        ¬(canFlowToWithPrivilege s.currentLabel label s.privilege ∧
          canFlowToWithPrivilege s.currentLabel l s.privilege) := by
  rcases Handler.amid_bind.1 h with ⟨e, rfl, hmake⟩ | ⟨_, w, es₁, es₂, rfl, hmake, hrest⟩
  · obtain ⟨hes, ⟨e', hr, hcase⟩ | ⟨u, hr, -⟩⟩ := amid_makeObject hT hmake
    · cases hr
      refine ⟨nofun, fun e' heq => ⟨hes, fun hflow => ?_⟩⟩
      cases heq
      rcases hcase with h | h
      · exact h _ rfl
      · exact h hflow.1
    · cases hr
  obtain ⟨hes, ⟨e', hr, -⟩ | ⟨u, hr, hthread, hu⟩⟩ := amid_makeObject hT hmake
  · cases hr
  cases hr
  have hw : Shows dir name l none w := shows_of_leaves hmake hes hs
  have hfree : ∀ d : Directory, d.entries[name]? = none →
      (Directory.insert name (entry u) d).1 ≠ true := by
    intro d hd
    simp [Directory.insert, ExtTreeMap.contains_eq_isSome_getElem?, hd]
  rcases Handler.amid_bind.1 hrest with ⟨e, rfl, hlink⟩ | ⟨_, w', es₃, es₄, rfl, hlink, hret⟩
  · rcases amid_getUpdate hfree hlink hw (hthread ▸ hread) with ⟨hq, hcase⟩ | ⟨hr, -⟩
    · refine ⟨nofun, fun e' heq => ⟨hes.append (hq.leaves s), fun hflow => ?_⟩⟩
      cases heq
      rcases hcase with ⟨e'', he, hne⟩ | ⟨-, hno⟩
      · cases he
        exact hne _ rfl
      · rw [hthread] at hno
        exact hno hflow.2
    · cases hr
  · obtain ⟨rfl, rfl, rfl⟩ := hret
    refine ⟨fun _ => ?_, nofun⟩
    rcases amid_getUpdate hfree hlink hw (hthread ▸ hread) with ⟨-, ⟨e, hr, -⟩ | ⟨⟨e, hr⟩, -⟩⟩ |
      ⟨-, -, -, es', s', d, rfl, hq, hd, -, -, hput⟩
    · cases hr
    · cases hr
    have hut : t.store u = some (.encode (⟨label, v⟩ : Labeled T)) := by
      refine hlink.invariant (I := fun w => w.store u = some (.encode (⟨label, v⟩ : Labeled T)))
        (fun _ _ h => (h.1.same_iff (hT _)).2) (fun e he => ?_) hu
      rcases List.mem_append.1 he with he | he
      · exact (congrFun (hq e he) u).trans
      · obtain rfl := List.mem_singleton.1 he
        intro hs'
        have hne : u ≠ dir := by
          rintro rfl
          exact hT _ _ (Option.some.inj (hs'.symm.trans hd))
        rw [hput, Store.put_of_ne _ _ hne]
        exact hs'
    refine ⟨(s', t), by simp, u, label, ⟨_, hput ▸ Store.put_self .., ?_⟩, hut⟩
    exact ExtTreeMap.getElem?_insert_self

/-- Where the name is bound to an entry of another kind: unlink it, make the object and link it. -/
theorem amid_replace {old : DirEntry}
    (hT : ∀ (o : Labeled T) (d : Labeled Directory), Stored.encode o ≠ .encode d)
    (h : handler.Amid (Sparing dir name) (do
      let _ ← Directory.unlink rounds dir name
      let new ← makeObject entry rounds label v
      let _ ← Directory.link rounds dir name new
      return ()) s es r t)
    (hs : Shows dir name l (some old) s) (hread : canFlowTo l s.currentLabel)
    (hallow : canFlowToWithPrivilege s.currentLabel l s.privilege →
      canFlowToWithPrivilege s.currentLabel label s.privilege) :
    (r = .ok () → ∃ e ∈ es, Binds entry dir name v e.2) ∧
      ∀ e, r = .error (.err e) → Leaves s es := by
  have hbound : ∀ d : Directory, d.entries[name]? = some old → (Directory.remove name d).1 ≠ false := by
    intro d hd
    simp [Directory.remove, ExtTreeMap.contains_eq_isSome_getElem?, hd]
  rcases Handler.amid_bind.1 h with ⟨e, rfl, hunlink⟩ | ⟨_, w, es₁, es₂, rfl, hunlink, hrest⟩
  · rcases amid_getUpdate hbound hunlink hs hread with ⟨hq, -⟩ | ⟨hr, -⟩
    · exact ⟨nofun, fun _ _ => hq.leaves s⟩
    · cases hr
  rcases amid_getUpdate hbound hunlink hs hread with ⟨-, ⟨e, hr, -⟩ | ⟨⟨e, hr⟩, -⟩⟩ |
    ⟨-, hflow, hlevel, es', s', d, rfl, -, -, hl, -, hput⟩
  · cases hr
  · cases hr
  have hw : Shows dir name l none w := by
    refine ⟨⟨d.label, (Directory.remove name d.data).2⟩, ?_, hl, ExtTreeMap.getElem?_erase_self⟩
    rw [hput]
    exact Store.put_self ..
  obtain ⟨hok, herr⟩ := amid_makeLink hT hrest hw (LawfulCrate.flow_trans hread hlevel.1)
  constructor
  · intro hr
    obtain ⟨e, he, hbinds⟩ := hok hr
    exact ⟨e, List.mem_append_right _ he, hbinds⟩
  · intro e hr
    refine absurd ⟨?_, ?_⟩ (herr e hr).2
    · exact hlevel.flows_iff.2 (hallow hflow)
    · exact hlevel.flows_iff.2 hflow

/-- What is done for what the name has been found bound to. -/
theorem amid_found {ref : DirEntry → Option Uid} {update : Uid → M Unit} {make : M DirEntry}
    (hT : ∀ (o : Labeled T) (d : Labeled Directory), Stored.encode o ≠ .encode d)
    (href : ∀ e u, ref e = some u → e = entry u) (hupdate : ∀ u, update u = ObjectRef.overwrite u v)
    (hmake : make = makeObject entry rounds label v) {x : Option DirEntry}
    (h : handler.Amid (Sparing dir name) (createOrUpdateFound ref update make rounds dir name x) s es r t)
    (hs : Shows dir name l x s) (hread : canFlowTo l s.currentLabel)
    (hallow : ∀ old, x = some old → ref old = none →
      canFlowToWithPrivilege s.currentLabel l s.privilege →
        canFlowToWithPrivilege s.currentLabel label s.privilege) :
    (r = .ok () → ∃ e ∈ es, Binds entry dir name v e.2) ∧
      ∀ e, r = .error (.err e) → Leaves s es := by
  subst hmake
  cases x with
  | none =>
    obtain ⟨hok, herr⟩ := amid_makeLink hT h hs hread
    exact ⟨hok, fun e he => (herr e he).1⟩
  | some old =>
    cases hold : ref old with
    | none =>
      simp only [createOrUpdateFound, hold] at h
      exact amid_replace hT h hs hread (hallow old rfl hold)
    | some u =>
      simp only [createOrUpdateFound, hold, hupdate] at h
      rcases amid_overwrite hT h with ⟨hq, e, rfl, -⟩ | ⟨rfl, -, es', s', o, rfl, hq, -, hu, hput⟩
      · exact ⟨nofun, fun _ _ => hq.leaves s⟩
      · have ht : Shows dir name l (some old) t := by
          refine h.invariant (fun _ _ h => h.shows) (fun e he => ?_) hs
          rcases List.mem_append.1 he with he | he
          · exact hq.keeps Shows.congr e he
          · obtain rfl := List.mem_singleton.1 he
            rintro ⟨d, hd, hl, hx⟩
            have hne : dir ≠ u := by
              rintro rfl
              exact hT _ _ (Option.some.inj (hu.symm.trans hd))
            refine ⟨d, ?_, hl, hx⟩
            rw [hput, Store.put_of_ne _ _ hne]
            exact hd
        obtain ⟨d, hd, -, hx⟩ := ht
        rw [href old u hold] at hx
        exact ⟨fun _ => ⟨(s', t), by simp, u, o.label, ⟨d, hd, hx⟩, hput ▸ Store.put_self ..⟩, nofun⟩

end InDirectory

/-! ### The two functions -/

/-- What a call is given to store. -/
inductive Content
  | file (data : Bytes)
  | blob (blobName : String)

namespace Content

/-- The uid of an entry of the kind. -/
def ref : Content → DirEntry → Option Uid
  | .file _ => DirEntry.file?
  | .blob _ => DirEntry.blob?

/-- The directory binds the name to an object of the kind with exactly this content. -/
def BoundIn (dir : Uid) (name : String) (w : World) : Content → Prop
  | .file data => Binds .file dir name (data : File) w
  | .blob blobName => Binds .blob dir name (blobName : Blob) w

/-- The call of the function for the kind. -/
def createOrUpdate [LabelCrate] (rounds : ℕ) (baseDir : Path) (name : String) (label : Buckle) :
    Content → M Unit
  | .file data => createOrUpdateFile rounds baseDir name label data
  | .blob blobName => createOrUpdateBlob rounds baseDir name label blobName

end Content

section Calls

variable [LabelCrate] (rounds : ℕ) (baseDir : Path) (name : String) (label : Buckle) (c : Content)
  (w : World) (es : List (World × World))

/-- The base path has led to a directory, and these steps of the call are still to come. -/
def Reached (dir : Uid) (es' : List (World × World)) : Prop :=
  ∃ es₁ w₁, es = es₁ ++ es' ∧
    handler.Amid Others (FS.readPath rounds baseDir) w es₁ (.ok (.directory dir)) w₁

/-- A call that ends well has bound the name, at some moment, to the content; one that ends with an error has
changed nothing that there was. -/
def AllOrNothing : Except Raised Unit → Prop
  | .ok () => ∃ dir es', Reached rounds baseDir w es dir es' ∧ ∃ e ∈ es', c.BoundIn dir name e.2
  | .error (.err _) => Leaves w es
  | .error _ => True

/-- What the call rests on. -/
structure Undisturbed : Prop where
  /-- no facet of the base path has to be allocated -/
  opened : ∀ es₁ es₂ r w₁, es = es₁ ++ es₂ → handler.Amid Others (FS.readPath rounds baseDir) w es₁ r w₁ →
    Quiet es₁
  /-- after the listing, the others leave the binding of the name alone -/
  spared : ∀ dir e es', Reached rounds baseDir w es dir (e :: es') →
    Handler.Spared (KeepsBinding dir name) e.2 es'
  /-- where the listing finds an entry of another kind, a thread that may unlink it may write the new
  object as well -/
  allowed : ∀ dir e es', Reached rounds baseDir w es dir (e :: es') →
    ∀ d : Labeled Directory, e.1.store dir = some (.encode d) →
      ∀ old, d.data.entries[name]? = some old → c.ref old = none →
        canFlowToWithPrivilege (lub d.label e.1.currentLabel) d.label e.1.privilege →
          canFlowToWithPrivilege (lub d.label e.1.currentLabel) label e.1.privilege

end Calls

section Run

variable [LabelCrate] {rounds : ℕ} {baseDir : Path} {name : String} {label : Buckle} {w t : World}
  {es : List (World × World)} {r : Except Raised Unit}

/-- What follows the getting of the directory. -/
theorem amid_listed [LawfulCrate] {T : Type} [LabeledCodec T] [Inhabited T]
    {entry : Uid → DirEntry} {ref : DirEntry → Option Uid} {update : Uid → M Unit} {make : M DirEntry}
    {v : T} (hT : ∀ (o : Labeled T) (d : Labeled Directory), Stored.encode o ≠ .encode d)
    (href : ∀ e u, ref e = some u → e = entry u) (hupdate : ∀ u, update u = ObjectRef.overwrite u v)
    (hmake : make = makeObject entry rounds label v) {dir : Uid} {d : Labeled Directory}
    (hd : w.store dir = some (.encode d))
    (h : handler.Amid (Sparing dir name) (do
      let entries := (← d.unlabel).entries
      createOrUpdateFound ref update make rounds dir name entries[name]?) w es r t)
    (hallow : ∀ old, d.data.entries[name]? = some old → ref old = none →
      canFlowToWithPrivilege (lub d.label w.currentLabel) d.label w.privilege →
        canFlowToWithPrivilege (lub d.label w.currentLabel) label w.privilege) :
    (r = .ok () → ∃ e ∈ es, Binds entry dir name v e.2) ∧
      ∀ e, r = .error (.err e) → Leaves w es := by
  have hw : Shows dir name d.label d.data.entries[name]? w := ⟨d, hd, rfl, rfl⟩
  rcases Handler.amid_bind.1 h with ⟨e, -, hread⟩ | ⟨data, w₁, es₁, es₂, rfl, hread, hrest⟩
  · obtain ⟨-, hr, -⟩ := amid_own (own_unlabel d) hread
    cases hr
  obtain ⟨hq, hr, hthread⟩ := amid_own (own_unlabel d) hread
  cases hr
  have hw₁ : Shows dir name d.label d.data.entries[name]? w₁ :=
    hread.invariant (fun _ _ h => h.shows) (hq.keeps Shows.congr) hw
  have hlabel : w₁.currentLabel = lub d.label w.currentLabel := congrArg Thread.currentLabel hthread
  have hpriv : w₁.privilege = w.privilege :=
    (congrArg Thread.privilege hthread : _ = (w.relabel _).privilege)
  obtain ⟨hok, herr⟩ := amid_found hT href hupdate hmake hrest hw₁
    (hlabel ▸ LawfulCrate.flow_lub_left _ _) (by rw [hlabel, hpriv]; exact hallow)
  have hpresent : ∀ u, w.store u ≠ none → w₁.store u ≠ none := fun u =>
    hread.invariant (I := fun w => w.store u ≠ none) (fun _ _ h => h.present)
      fun e he h => (congrFun (hq e he) u).trans_ne h
  constructor
  · intro hr
    obtain ⟨e, he, hbinds⟩ := hok hr
    exact ⟨e, List.mem_append_right _ he, hbinds⟩
  · exact fun e hr => (hq.leaves w).append ((herr e hr).of_present hpresent)

/-- The common text of the two functions amid others. -/
theorem amid_createOrUpdate [LawfulCrate] {T : Type} [LabeledCodec T] [Inhabited T]
    {entry : Uid → DirEntry} {ref : DirEntry → Option Uid} {update : Uid → M Unit} {make : M DirEntry}
    {v : T} (hT : ∀ (o : Labeled T) (d : Labeled Directory), Stored.encode o ≠ .encode d)
    (href : ∀ e u, ref e = some u → e = entry u) (hupdate : ∀ u, update u = ObjectRef.overwrite u v)
    (hmake : make = makeObject entry rounds label v)
    (h : handler.Amid Others (Faasten.createOrUpdate ref update make rounds baseDir name) w es r t)
    (hopened : ∀ es₁ es₂ r w₁, es = es₁ ++ es₂ →
      handler.Amid Others (FS.readPath rounds baseDir) w es₁ r w₁ → Quiet es₁)
    (hspared : ∀ dir e es', Reached rounds baseDir w es dir (e :: es') →
      Handler.Spared (KeepsBinding dir name) e.2 es')
    (hallow : ∀ dir e es', Reached rounds baseDir w es dir (e :: es') →
      ∀ d : Labeled Directory, e.1.store dir = some (.encode d) →
        ∀ old, d.data.entries[name]? = some old → ref old = none →
          canFlowToWithPrivilege (lub d.label e.1.currentLabel) d.label e.1.privilege →
            canFlowToWithPrivilege (lub d.label e.1.currentLabel) label e.1.privilege) :
    (r = .ok () → ∃ dir es', Reached rounds baseDir w es dir es' ∧ ∃ e ∈ es', Binds entry dir name v e.2) ∧
      ∀ e, r = .error (.err e) → Leaves w es := by
  rcases Handler.amid_bind.1 h with ⟨e, rfl, hpath⟩ | ⟨base, w₁, es₁, es₂, rfl, hpath, hrest⟩
  · exact ⟨nofun, fun _ _ => (hopened es [] _ _ (List.append_nil _).symm hpath).leaves w⟩
  have hq : Quiet es₁ := hopened es₁ es₂ _ _ rfl hpath
  have hpresent : ∀ u, w.store u ≠ none → w₁.store u ≠ none := fun u =>
    hpath.invariant (I := fun w => w.store u ≠ none) (fun _ _ h => h.present)
      fun e he h => (congrFun (hq e he) u).trans_ne h
  cases base with
  | directory dir =>
    change handler.Amid Others (Directory.list dir >>= fun entries =>
      createOrUpdateFound ref update make rounds dir name entries[name]?) w₁ es₂ r t at hrest
    simp only [Directory.list, ObjectRef.read, bind_assoc, pure_bind] at hrest
    rcases Handler.amid_bind.1 hrest with ⟨e, -, hget⟩ | ⟨o, w₂, es₃, es₄, rfl, hget, hlisted⟩
    · obtain ⟨-, -, hr⟩ := amid_get hget
      cases hr
    obtain ⟨hE, rfl, hr⟩ := amid_get hget
    cases hr
    have hreached : Reached rounds baseDir w (es₁ ++ ([(w₂, w₂)] ++ es₄)) dir ((w₂, w₂) :: es₄) :=
      ⟨es₁, w₁, rfl, hpath⟩
    have hlisted := hlisted.spared (hspared dir (w₂, w₂) es₄ hreached)
    cases hdec : (w₂.store dir).bind (Stored.decode (T := Labeled Directory)) with
    | none =>
      rw [hdec] at hlisted
      obtain ⟨rfl, rfl, -⟩ := hlisted
      exact ⟨nofun, nofun⟩
    | some d =>
      have hd : w₂.store dir = some (.encode d) := decode_eq_some hdec
      rw [hdec] at hlisted
      obtain ⟨hok, herr⟩ := amid_listed hT href hupdate hmake hd hlisted
        (hallow dir (w₂, w₂) es₄ hreached d hd)
      constructor
      · intro hr
        obtain ⟨e, he, hbinds⟩ := hok hr
        exact ⟨dir, _, hreached, e, List.mem_cons_of_mem _ he, hbinds⟩
      · intro e hr
        have hlater := (herr e hr).of_present fun u hu => hE.present (hpresent u hu)
        exact (hq.leaves w).append ((Quiet.cons rfl .nil : Quiet [(w₂, w₂)]).leaves w |>.append hlater)
  | _ =>
    obtain ⟨rfl, rfl, -⟩ := hrest
    exact ⟨nofun, fun _ _ => (hq.leaves w).append (Quiet.nil.leaves w)⟩

/-- **Creating or updating, all or nothing.** A call that is undisturbed has bound the name to the content when
it returns, and has changed nothing that there was when it ends with an error, whatever else the others
do. -/
theorem all_or_nothing [LawfulCrate] (c : Content)
    (h : handler.Amid Others (c.createOrUpdate rounds baseDir name label) w es r t)
    (hu : Undisturbed rounds baseDir name label c w es) :
    AllOrNothing rounds baseDir name c w es r := by
  have hcases : (r = .ok () → ∃ dir es', Reached rounds baseDir w es dir es' ∧
      ∃ e ∈ es', c.BoundIn dir name e.2) ∧ ∀ e, r = .error (.err e) → Leaves w es := by
    cases c with
    | file data =>
      refine amid_createOrUpdate (T := File) (v := data) (fun _ _ => nofun) ?_ (fun _ => rfl) ?_ h
        hu.opened hu.spared hu.allowed
      · rintro ⟨⟩ u h <;> cases h
        rfl
      · simp only [makeObject, FS.createFile, bind_assoc, pure_bind]
        rfl
    | blob blobName =>
      refine amid_createOrUpdate (T := Blob) (v := blobName) (fun _ _ => nofun) ?_ (fun _ => rfl) rfl h
        hu.opened hu.spared hu.allowed
      rintro ⟨⟩ u h <;> cases h
      rfl
  rcases r with (e | _ | _) | ⟨⟩
  · exact hcases.2 e rfl
  · trivial
  · trivial
  · exact hcases.1 rfl

end Run

end Faasten

/-! ### An entry of another kind -/

namespace Faasten.Replacing

open Effect
open scoped Dc

/-- A root with a directory under the name. -/
def root : Labeled Directory := ⟨publicLabel, ⟨.ofList [("f", DirEntry.directory 1)]⟩⟩

/-- A thread without privilege, and this root. -/
def world : World :=
  .quiet (.idle publicLabel) ((Store.empty.put 0 (.encode root)).put
    1 (.encode (⟨publicLabel, {}⟩ : Labeled Directory)))

/-- The call that stores one byte under the name, at this label. -/
def call (label : Buckle) : M Unit := (Content.file [1]).createOrUpdate 2 [] "f" label

/-- With a label that the thread may write to, the directory is replaced. -/
theorem replaced : (exec (call publicLabel) world).1 = .ok () ∧
    AllOrNothing 2 [] "f" (.file [1]) world (handler.steps (call publicLabel) world)
      (exec (call publicLabel) world).1 := by
  -- the path is empty, and the first step is the getting of the root
  have hroot : ∀ dir es', Reached 2 [] world (handler.steps (call publicLabel) world) dir es' →
      dir = 0 ∧ handler.steps (call publicLabel) world = es' := by
    rintro dir es' ⟨es₁, w₁, heq, rfl, hdir, -⟩
    cases hdir
    exact ⟨rfl, heq⟩
  have hundisturbed : Undisturbed 2 [] "f" publicLabel (.file [1]) world
      (handler.steps (call publicLabel) world) := by
    refine ⟨?_, ?_, ?_⟩
    · rintro es₁ es₂ r w₁ - ⟨rfl, -, -⟩
      exact .nil
    · intro dir e es' h
      obtain ⟨rfl, heq⟩ := hroot _ _ h
      have hspared : Handler.Spared (KeepsBinding 0 "f") world (e :: es') :=
        heq ▸ Handler.spared_steps (fun w d d' hd hd' => by rw [encode_inj hd hd']) (call publicLabel) world
      exact hspared.2
    · intro dir e es' h d hd old hold _ _
      obtain ⟨rfl, heq⟩ := hroot _ _ h
      cases heq
      obtain rfl := encode_inj (show world.store 0 = some (.encode root) from rfl) hd
      decide +kernel
  exact ⟨by decide +kernel, all_or_nothing _ (.of_exec Others.refl (call publicLabel) world) hundisturbed⟩

/-- With a label of higher integrity the write fails, and the entry is gone. -/
theorem entry_lost : ∃ es t,
    handler.Amid Others (call FS.emptyRoot.label) world es (.error (.err (.labelError .cannotWrite))) t ∧
      t.store 0 = some (.encode (⟨publicLabel, {}⟩ : Labeled Directory)) ∧
      ¬AllOrNothing 2 [] "f" (.file [1]) world es (.error (.err (.labelError .cannotWrite))) := by
  have hr : (exec (call FS.emptyRoot.label) world).1 = .error (.err (.labelError .cannotWrite)) := by
    decide +kernel
  have ht : (exec (call FS.emptyRoot.label) world).2.store 0 =
      some (.encode (⟨publicLabel, {}⟩ : Labeled Directory)) := by decide +kernel
  have hrun : handler.Amid Others (call FS.emptyRoot.label) world _ _ _ :=
    .of_exec Others.refl (call FS.emptyRoot.label) world
  rw [show (handler.exec (call FS.emptyRoot.label) world).1 = _ from hr] at hrun
  refine ⟨_, _, hrun, ht, fun h => ?_⟩
  -- if the steps had left the root alone, it would still be there
  have hkept : (exec (call FS.emptyRoot.label) world).2.store 0 = some (.encode root) :=
    (Handler.Amid.of_exec (E := Eq) (fun _ => rfl) (call FS.emptyRoot.label) world).invariant
      (I := fun w => w.store 0 = some (.encode root)) (fun _ _ h => h ▸ id)
      (fun e he => (h e he 0 nofun).trans) rfl
  rw [ht] at hkept
  exact absurd hkept (by decide +kernel)

end Faasten.Replacing
