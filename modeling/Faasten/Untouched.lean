import Mathlib
import Faasten.AllOrNothing
import Faasten.Authority
import Faasten.Bootstrap
import Faasten.Clients.FileSystem
import Faasten.Monitor.Composition

/-!
# What nobody may write

An object is changed only by a thread whose label may flow to that of the object, under the privilege that the
thread acts with. Labels float: they are raised by what is read, and lowered by the privileges of users, gates
and services. What the users of the system can do together is bounded by a component `A` that implies all of
these; if a public label cannot flow to the label of an object even with the help of `A`, then nobody can
write the object.

* `Sys.store_kept`: in every run of the system, objects keep their kind and label, and a faceted directory
  loses no facet;
* `Sys.untouched`: in every run, objects that nobody may write stay as they are.
-/

namespace Faasten

open Std Effect SyscallProcessor

/-! ### Objects keep their kind, their label and their facets -/

section Kept

variable {α β T : Type} {w : World}

theorem Store.Kept.put {s : Store} {u : Uid} {v : Stored}
    (h : ∀ old, s u = some (.object old) → ∃ o, v = .object o ∧ old.Becomes o) : s.Kept (s.put u v) := by
  intro x o ho
  by_cases hx : x = u
  · subst hx
    obtain ⟨o', rfl, hb⟩ := h o ho
    exact ⟨o', Store.put_self .., hb⟩
  · exact ⟨o, (Store.put_of_ne _ _ hx).trans ho, .refl o⟩

/-- An operation under which objects change only as they may. -/
def Conserves (w : World) (op : Op) : Prop := w.store.Kept (perform op w).2.store

theorem conserves_of_eq {op : Op} (h : (perform op w).2.store = w.store) : Conserves w op := by
  unfold Conserves
  rw [h]
  exact .refl _

theorem conserves_own {o : Op} (h : o.onStore = false) : Conserves w o := by
  cases o with
  | schedWrite m =>
    refine conserves_of_eq ?_
    rw [perform_schedWrite]
    split_ifs <;> rfl
  | get | put | add | cas => cases h
  | _ => exact conserves_of_eq rfl

theorem conserves_add (u : Uid) (v : Stored) : Conserves w (.add u v) := by
  unfold Conserves
  rw [perform_add]
  split_ifs with hu
  · refine .put fun old hold => ?_
    rw [hu] at hold
    cases hold
  · exact .refl _

theorem conserves_cas {u : Uid} {x : Option Stored} {v : Stored}
    (h : ∀ old, x = some (.object old) → ∃ o, v = .object o ∧ old.Becomes o) : Conserves w (.cas u x v) := by
  unfold Conserves
  rw [perform_cas]
  split_ifs with hu
  · exact .put fun old hold => h old (hu.symm.trans hold)
  · exact .refl _

/-- A program on the thread itself. -/
theorem conserves_only {m : M α} (h : m.Only Op.own) (w : World) : handler.Always Conserves w m := by
  induction m generalizing w with
  | pure a => exact .pure a w
  | raise e => exact .raise e w
  | op o k ih =>
    refine Handler.always_op.2 ⟨?_, ih _ (h.2 _) _⟩
    cases o <;> first | exact h.1.elim | exact conserves_of_eq rfl

theorem conserves_get [Codec T] (u : Uid) : handler.Always Conserves w (ObjectRef.get T u) :=
  Handler.Always.bind (.call (conserves_of_eq rfl)) fun _ _ _ => .pure _ _

/-- An object of a labeled type is replaced by one with the same label. -/
theorem becomes_labeled [LabeledCodec T] (o : Labeled T) (v : T) :
    (Codec.encode o).Becomes (Codec.encode { o with data := v }) := by
  refine ⟨LabeledCodec.kind_encode _ _, ?_, fun d hd => ?_⟩
  · rw [LabeledCodec.label_encode, LabeledCodec.label_encode]
  · have hlabel := LabeledCodec.label_encode o
    rw [hd] at hlabel
    cases hlabel

variable [LabelCrate]

theorem conserves_read [LabeledCodec T] (u : Uid) : handler.Always Conserves w (ObjectRef.read T u) :=
  (conserves_get u).bind fun o t _ => (conserves_only (own_unwrap o) t).bind fun o t _ =>
    conserves_only (own_unlabel o) t

theorem conserves_overwrite [LabeledCodec T] (u : Uid) (v : T) :
    handler.Always Conserves w (ObjectRef.overwrite u v) := by
  refine (conserves_get u).bind fun o t ho => (conserves_only (own_unwrap o) t).bind fun a t' ha =>
    (conserves_only (own_write a v) t').bind fun a' t'' hw => .call ?_
  change exec (ObjectRef.get (Labeled T) u) w = _ at ho
  rw [ObjectRef.exec_get] at ho
  cases ho
  obtain ⟨ha, rfl⟩ := unwrap_ok ha
  obtain ⟨-, rfl, rfl⟩ := Labeled.write_ok hw
  refine Store.Kept.put fun old hold => ⟨_, rfl, ?_⟩
  cases (decode_eq_some ha).symm.trans hold
  exact becomes_labeled a v

omit [LabelCrate] in
theorem conserves_setNewId [Codec T] (n : ℕ) (v : T) (w : World) :
    handler.Always Conserves w (ObjectRef.setNewId n v) := by
  induction n generalizing w with
  | zero => exact .raise _ _
  | succ n ih =>
    refine Handler.Always.bind (.call (conserves_own rfl)) fun u t _ =>
      Handler.Always.bind (.call (conserves_add u _)) fun added t' hx => ?_
    change exec (Storage.add _ _) _ = _ at hx
    rw [exec_add] at hx
    split_ifs at hx with hu
    · cases hx
      -- the value is written to the place that was just reserved
      refine Handler.Always.bind (.call (Store.Kept.put fun old hold => ?_)) fun _ _ _ => .pure _ _
      have hreserved : t.store.put u .reserved u = some .reserved := Store.put_self ..
      cases hreserved.symm.trans hold
    · cases hx
      exact ih _

theorem conserves_updateLoop (n : ℕ) (u : Uid) (f : Directory → Bool × Directory) (skip : Bool)
    (d : Labeled Directory) (w : World) : handler.Always Conserves w (Directory.updateLoop u f skip n d) := by
  induction n generalizing d w with
  | zero => exact .raise _ _
  | succ n ih =>
    refine (conserves_only (own_modify d f) w).bind fun r t hx => ?_
    obtain ⟨-, rfl, rfl⟩ := Labeled.modify_ok hx
    dsimp only
    split_ifs
    · exact .pure _ _
    · refine Handler.Always.bind (Handler.Always.bind (.call (conserves_cas fun old hold => ⟨_, rfl, ?_⟩))
        fun r t _ => ?_) fun r t _ => ?_
      · cases hold
        exact becomes_labeled d _
      · cases r <;> exact .pure _ _
      · split
        · exact ih _ _
        · exact .pure _ _

omit [LabelCrate] in
theorem conserves_openLoop (rounds n : ℕ) (u : Uid) (facet : Buckle) (d : Option FacetedDirectory) (w : World) :
    handler.Always Conserves w (FacetedDirectory.openLoop rounds u facet n d) := by
  induction n generalizing d w with
  | zero => exact .raise _ _
  | succ n ih =>
    unfold FacetedDirectory.openLoop
    split
    · exact .pure _ _
    · refine (conserves_setNewId rounds _ w).bind fun dir t _ =>
        Handler.Always.bind (Handler.Always.bind (.call (conserves_cas fun old hold => ⟨_, rfl, ?_⟩))
          fun r t _ => ?_) fun r t _ => ?_
      · cases d with
        | none => cases hold
        | some d =>
          cases hold
          refine ⟨rfl, rfl, fun d' hd => ?_⟩
          cases hd
          exact ⟨_, rfl, List.prefix_append _ _⟩
      · cases r <;> exact .pure _ _
      · split
        · exact .pure _ _
        · exact ih _ _

theorem Basic.conserves {m : M α} (w : World) (h : Basic α m) : handler.Always Conserves w m := by
  cases h with
  | own o ho => exact .call (conserves_own ho)
  | root =>
    refine Handler.Always.bind ((conserves_get FS.rootRef).bind fun o t _ => .pure _ _) fun d t _ => ?_
    exact conserves_only (own_unlabel d) t
  | read u => exact conserves_read u
  | readGate u =>
    refine (conserves_get u).bind fun o t _ => ?_
    cases o with
    | none => exact .pure _ _
    | some o => exact (conserves_only (own_unlabel o) t).bind fun _ _ _ => .pure _ _
  | overwrite u v => exact conserves_overwrite u v
  | setNewId n v => exact conserves_setNewId n v w
  | update n u f skip =>
    exact (conserves_get u).bind fun o t _ => (conserves_only (own_unwrap o) t).bind fun d t _ =>
      conserves_updateLoop n u f skip d t
  | openFacet n u facet => exact (conserves_get u).bind fun d t _ => conserves_openLoop n n u facet d t
  | facets u => exact conserves_get u

end Kept

/-! ### Labels in reach -/

section InReach

variable [LabelCrate] {A : Component} {P : Policy} {w : World} {op : Op}

/-- Data with a public label may come to have this one, with the help of `A`. -/
def InReach (A : Component) (l : Buckle) : Prop := canFlowToWithPrivilege publicLabel l A

/-- The objects whose labels are out of reach are the same in the second store. -/
def Store.Spared (A : Component) (s s' : Store) : Prop :=
  ∀ u o l, s u = some (.object o) → o.label? = some l → ¬ InReach A l → s' u = some (.object o)

theorem Store.Spared.trans {s s' s'' : Store} (h : s.Spared A s') (h' : s'.Spared A s'') : s.Spared A s'' :=
  fun u o l ho hl hr => h' u o l (h u o l ho hl hr) hl hr

variable [LawfulCrate]

theorem inReach_public : InReach A publicLabel := LawfulCrate.priv_of_flow (LawfulCrate.flow_refl _)

theorem InReach.flow {l l' : Buckle} (h : InReach A l) (hl : canFlowTo l l') : InReach A l' :=
  LawfulCrate.priv_trans h (LawfulCrate.priv_of_flow hl)

/-- A downgrade with a privilege that `A` implies. -/
theorem InReach.downgrade {l : Buckle} {q : Component} (h : InReach A l) (hq : implies A q) :
    InReach A (downgrade l q) :=
  LawfulCrate.priv_trans h (LawfulCrate.priv_mono hq (LawfulCrate.priv_downgrade l q))

/-- One operation, under a policy that lowers labels only to labels in reach. -/
theorem Permits.inReach (hP : ∀ l l', P.lowers l l' → InReach A l → InReach A l') (h : Permits P w op)
    (hw : InReach A w.currentLabel) : InReach A (perform op w).2.currentLabel := by
  cases op with
  | setThread t =>
    have hmove : LabelMove P.lowers w.currentLabel t.currentLabel := h.label
    change InReach A t.currentLabel
    generalize t.currentLabel = l at hmove
    cases hmove with
    | keep => exact hw
    | taintLeft l' => exact hw.flow (LawfulCrate.flow_lub_right _ _)
    | taintRight l' => exact hw.flow (LawfulCrate.flow_lub_left _ _)
    | lower h => exact hP _ _ h hw
  | add v st => rw [perform_add]; split_ifs <;> exact hw
  | cas v e st => rw [perform_cas]; split_ifs <;> exact hw
  | schedWrite m => rw [perform_schedWrite]; split_ifs <;> exact hw
  | _ => exact hw

/-- A thread whose label is in reach, and whose privilege `A` implies, writes only what is in reach. -/
theorem Permits.spared {st : Store} (h : Permits P w op) (hp : implies A w.privilege)
    (hw : InReach A w.currentLabel) (hst : st.Spared A w.store) : st.Spared A (perform op w).2.store := by
  intro u o l ho hl hr
  have hu := hst u o l ho hl hr
  by_contra hne
  have hchange : (perform op w).2.store u ≠ w.store u := fun heq => hne (heq.trans hu)
  have hflow := (h.heads ⟨o, hu, rfl, hl⟩).2 hchange l rfl
  exact hr (LawfulCrate.priv_trans hw (LawfulCrate.priv_mono hp hflow))

end InReach

namespace Sys

variable [LabelCrate] {A : Component} {s s₀ s₁ : Sys} {i : ℕ} {e : Event}

theorem composed_program (e : Event) : Composed Basic (program e) := by
  cases e with
  | login n user => exact (composed_authenticateCas n user).bind fun _ => .pure _
  | delegate n login request => exact composed_delegate n login request
  | invoke n login gatePath label blobs payload headers =>
    exact (composed_init n login gatePath label blobs payload headers).bind fun _ => .pure _
  | task m => exact (composed_processTask m).bind fun _ => .pure _
  | syscall n sc => exact (composed_doSyscall n sc).bind fun _ => .pure _

/-- In every run, objects change only as they may. -/
theorem store_kept {Ok : Sys → ℕ → Event → Prop} (h : Run Ok s₀ s) : s₀.world.store.Kept s.world.store := by
  induction h with
  | start => exact .refl _
  | @step s _ i e _ _ ih =>
    have hall := (composed_program e).always (fun w hb => hb.conserves w) (s.view i)
    exact hall.invariant (I := fun w : World => s₀.world.store.Kept w.store)
      (fun w op hk hw => hw.trans hk) ih

/-- What is kept along a run: `A` implies every privilege, and the labels are in reach. -/
structure Held (A : Component) (s : Sys) : Prop where
  covered : Covered A s
  inReach : ∀ i, InReach A (s.threads i).currentLabel

variable [LawfulCrate] [LawfulConj]

omit [LawfulConj] in
/-- How an event may lower the label. -/
theorem step_lowers (hs : Covered A s) (i : ℕ) (e : Event) :
    ∃ P, Obeys P (s.view i) (program e) ∧ ∀ l l', P.lowers l l' → InReach A l → InReach A l' := by
  have hpublic : ∀ l l' : Buckle, l' = publicLabel → InReach A l → InReach A l' := by
    rintro l l' rfl -
    exact inReach_public
  have hfront : ∀ e : Event, e.OnFrontend →
      ∃ P, Obeys P (s.view i) (program e) ∧ ∀ l l', P.lowers l l' → InReach A l → InReach A l' := by
    intro e he
    obtain ⟨p, hobeys⟩ := obeys_frontend (w := s.view i) (L := fun _ l => l = publicLabel) (fun _ => rfl) he
    exact ⟨_, hobeys, hpublic⟩
  cases e with
  | login n user => exact hfront (.login n user) trivial
  | delegate n login request => exact hfront (.delegate n login request) trivial
  | invoke n login gatePath label blobs payload headers =>
    exact hfront (.invoke n login gatePath label blobs payload headers) trivial
  | task m =>
    have hobeys : Obeys (frontPolicy (fun _ l => l = publicLabel)
        ((m.gatePrivilege.bind (·.into)).getD .dcTrue)) (s.view i) (processTask m) :=
      obeys_processTask (L := fun _ l => l = publicLabel) (fun _ => rfl) fun q hq => by rw [hq]; rfl
    exact ⟨_, hobeys.bind fun _ _ _ => .pure _, hpublic⟩
  | syscall n sc =>
    refine ⟨_, (obeys_doSyscall n sc).bind fun _ _ _ => .pure _, ?_⟩
    rintro l l' ⟨q, hq, rfl⟩ hl
    have hview := hs.views i
    cases hq with
    | response => exact hl.downgrade hview.thread
    | service h =>
      obtain ⟨_, _, _, _, _, u, -, -, hu⟩ := h
      exact hl.downgrade (hview.stored u _ _ hu rfl)

theorem held_step (he : e.Enabled s) (hs : Held A s) (hlogin : ∀ c ∈ authenticates e, implies A c) :
    Held A (s.step i e) ∧ s.world.store.Spared A (s.step i e).world.store := by
  obtain ⟨P, hA, hP⟩ := step_obeys s i e
  obtain ⟨hass, hinv⟩ := Acts.within hA he hs.covered hlogin
  obtain ⟨Q, hQ, hlowers⟩ := step_lowers hs.covered i e
  have hstep := invariant_step (s := s) (i := i) (e := e)
    (I := fun w => Within A w ∧ InReach A w.currentLabel ∧ s.world.store.Spared A w.store)
    (G := fun w op => Permits P w op ∧ Permits Q w op) (fun x hx => ⟨hP x hx, hQ x hx⟩)
    (fun w op hp hw => ⟨hp.1.within hass hinv hw.1, hp.2.inReach hlowers hw.2.1,
      hp.1.spared hw.1.thread hw.2.1 hw.2.2⟩)
    (fun w op t hp hw ht => ⟨hp.1.within_other hass hinv hw.1 ht.1, ht.2.1,
      hp.1.spared hw.1.thread hw.2.1 hw.2.2⟩)
    (fun j => ⟨hs.covered.views j, hs.inReach j, fun _ _ _ ho _ _ => ho⟩)
  exact ⟨⟨covered_step he hs.covered hlogin, fun j => (hstep j).2.1⟩, (hstep 0).2.2⟩

theorem held_run {Ok : Sys → ℕ → Event → Prop} (h : Run Ok s₀ s) (h₀ : Held A s₀)
    (hA : ∀ c ∈ s.authenticated, implies A c) :
    Held A s ∧ s₀.world.store.Spared A s.world.store := by
  induction h with
  | start => exact ⟨h₀, fun _ _ _ ho _ _ => ho⟩
  | step _ i e he _ ih =>
    obtain ⟨hheld, hspared⟩ := ih fun c hc => hA c (List.mem_append_right _ hc)
    obtain ⟨hheld', hspared'⟩ := held_step he hheld fun c hc => hA c (List.mem_append_left _ hc)
    exact ⟨hheld', hspared.trans hspared'⟩

omit [LawfulCrate] [LawfulConj] in
theorem authenticated_of_run {Ok : Sys → ℕ → Event → Prop} (h : Run Ok s₁ s) {c : Component}
    (hc : c ∈ s₁.authenticated) : c ∈ s.authenticated := by
  induction h with
  | start => exact hc
  | step _ i e _ _ ih => exact List.mem_append_right _ ih

theorem held_initial (h₀ : s₀.Initial) (hlabels : ∀ i, canFlowTo publicLabel (s₀.threads i).currentLabel)
    (hA : ∀ u o q, s₀.world.store u = some (.object o) → o.privilege? = some q → implies A q) :
    Held A s₀ := by
  refine ⟨⟨fun i => ⟨?_, hA, ?_⟩, ?_⟩, fun i => LawfulCrate.priv_of_flow (hlabels i)⟩
  · exact (h₀.privilege i).symm ▸ LawfulConj.implies_true _
  · intro m hm
    simp [view, World.withThread, h₀.invokes] at hm
  · intro c hc
    simp [h₀.tokens] at hc

/-- **What nobody may write stays as it is.** `A` implies every user that has been authenticated and every
privilege in the initial store. From any state that the system reaches on, whatever its threads do, an object
to whose label a public one cannot flow with the help of `A` is not changed; the others keep their kind and
their label, and a faceted directory keeps its facets. -/
theorem untouched (h₀ : s₀.Initial) (hlabels : ∀ i, canFlowTo publicLabel (s₀.threads i).currentLabel)
    (h₁ : Run (fun _ _ _ => True) s₀ s₁) (h : Run (fun _ _ _ => True) s₁ s)
    (hA : ∀ c ∈ s.authenticated, implies A c)
    (hA₀ : ∀ u o q, s₀.world.store u = some (.object o) → o.privilege? = some q → implies A q) :
    s₁.world.store.Kept s.world.store ∧
    ∀ u o l, s₁.world.store u = some (.object o) → o.label? = some l →
      ¬ canFlowToWithPrivilege publicLabel l A → s.world.store u = some (.object o) := by
  have hheld : Held A s₁ :=
    (held_run h₁ (held_initial h₀ hlabels hA₀) fun c hc => hA c (authenticated_of_run h hc)).1
  exact ⟨store_kept h, (held_run h hheld hA).2⟩

end Sys

namespace SystemFile

open scoped Dc

/-- A file that only `faasten` may write. -/
def file : Labeled File := ⟨⟨.dcTrue, .single ["faasten"]⟩, [1]⟩

/-- A system with this file, that nobody has logged in to. Its threads have the file open as 3. -/
def system : Sys where
  world := .quiet (.idle publicLabel)
    ((Store.empty.put FS.rootRef (.encode FS.emptyRoot)).put 7 (.encode file))
  threads _ := { Thread.idle publicLabel with dents := fun fd => if fd = 3 then some (.file 7) else none }

/-- `alice` logs in, and a thread tries to write the file. -/
def attempted : Sys :=
  (system.step 0 (.login 1 "alice")).step 1 (.syscall 1 (.dentUpdate 3 (some (.file [9]))))

theorem store_privilege {u : Uid} {o : Object} (h : system.world.store u = some (.object o)) :
    o.privilege? = none := by
  rcases Store.of_put h with ⟨-, ho⟩ | h
  · cases ho
    rfl
  · rcases Store.of_put h with ⟨-, ho⟩ | h
    · cases ho
      rfl
    · cases h

/-- The file stays as it is. -/
theorem file_stays : attempted.world.store 7 = some (.encode file) := by
  have hinit : system.Initial := ⟨rfl, rfl, rfl, fun _ => rfl⟩
  have hlabels : ∀ i, canFlowTo publicLabel (system.threads i).currentLabel :=
    fun _ => LawfulCrate.flow_refl _
  refine (Sys.untouched (A := .single ["princeton.edu", "alice"]) hinit hlabels .start
    ((Sys.Run.start.step 0 (.login 1 "alice") trivial trivial).step 1
      (.syscall 1 (.dentUpdate 3 (some (.file [9])))) trivial trivial) ?_ ?_).2 7 (.file file) file.label rfl rfl
    (by decide)
  · intro c hc
    obtain rfl : c = .single ["princeton.edu", "alice"] := List.mem_singleton.1 hc
    decide
  · intro u o q hu hq
    rw [store_privilege hu] at hq
    cases hq

end SystemFile

end Faasten
