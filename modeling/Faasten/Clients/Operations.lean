import Mathlib
import Faasten.Clients.FileSystem

/-!
# The functions of the file system under interference

Each function of the file system keeps to the discipline of `FileSystem.discipline`, whatever the
other clients do between its store accesses.

* `steady_setNewId`: the uid it returns is reserved by the client and holds the new object;
* `steady_updateLoop`: the retry loop of `link` and `unlink`;
* `steady_open`: what `open` returns is the entry of the facet;
* `Harmless`, for the rest: functions of whose result nothing is said.
-/

namespace Faasten

open Std Effect

namespace FileSystem

variable {ι : Type} [DecidableEq ι] {calls : ι → FsCall} {s₀ : Store} {i : ι} {t : Thread}
  {s s' : Shared ι} {α β : Type}

theorem calm (calls : ι → FsCall) (s₀ : Store) : Calm (discipline calls s₀) where
  thread _ _ _ := trivial
  relabel _ _ _ _ := trivial
  get _ _ _ _ := trivial
  rand _ _ _ := trivial

theorem Later.extends (h : (discipline calls s₀).Later i t s s') : Extends s s' :=
  Env.toExtends h.env

/-- What is under the uid has this kind and label, and at least these facets. -/
def Holds (u : Uid) (o : Object) (s : Shared ι) : Prop :=
  ∃ o', s.store u = some (.object o') ∧ o.Becomes o'

omit [DecidableEq ι] in
theorem Holds.extends {u : Uid} {o : Object} (h : Holds u o s) (hs : Extends s s') :
    Holds u o s' := by
  obtain ⟨o', ho', hb⟩ := h
  obtain ⟨o'', ho'', hb'⟩ := hs.objects u o' ho'
  exact ⟨o'', ho'', hb.trans hb'⟩

omit [DecidableEq ι] in
theorem Holds.of_encode {T : Type} [Codec T] {u : Uid} {v : T}
    (h : s.store u = some (.encode v)) : Holds u (Codec.encode v) s := ⟨_, h, .refl _⟩

/-- What a program does along the order of extension. -/
theorem steady_extends {Q : Except Raised α → Thread → Shared ι → Prop} {m : M α}
    (h : (discipline calls s₀).Steady i Q m t s) :
    (discipline calls s₀).Steady i (fun r t' s' => Q r t' s' ∧ Extends s s') m t s :=
  h.rel (R := Extends) (fun h => Env.toExtends h) fun h hg => (step h hg).2.1

/-! ### New objects -/

/-- The uid is reserved by the client, and holds an object like the one it stored there. -/
def Created (i : ι) (u : Uid) (o : Object) (s : Shared ι) : Prop := s.owner u = some i ∧ Holds u o s

omit [DecidableEq ι] in
theorem Created.extends {u : Uid} {o : Object} (h : Created i u o s) (hs : Extends s s') :
    Created i u o s' := ⟨hs.owner u i h.1, h.2.extends hs⟩

/-- What `set_new_id` ends with. -/
def Allocated (i : ι) (t : Thread) (o : Object) (r : Except Raised Uid) (t' : Thread)
    (s : Shared ι) : Prop :=
  t' = t ∧ match r with
    | .ok u => Created i u o s
    | .error e => e = .diverge

theorem steady_setNewId {T : Type} [Codec T] {v : T} (hv : Blank (Codec.encode v)) (n : ℕ) :
    (discipline calls s₀).Steady i (Allocated i t (Codec.encode v)) (ObjectRef.setNewId n v) t s := by
  induction n generalizing s with
  | zero => exact Discipline.Steady.raise fun s' _ => ⟨rfl, rfl⟩
  | succ n ih =>
    unfold ObjectRef.setNewId
    refine Discipline.Steady.call_bind fun s₁ h₁ => ⟨trivial, ?_⟩
    refine steady_add (fun s₂ _ _ => rfl) (fun s₂ h₂ hu => ?_) fun s₂ h₂ hu => ih
    -- the uid is reserved: nobody else writes there before the value is
    refine steady_put fun s₃ h₃ => ?_
    have hown := h₃.env.owner _ i (Function.update_self _ _ _)
    have hres := h₃.env.reserved _ (Function.update_self _ _ _) (Store.put_self _ _ _)
    refine ⟨⟨_, rfl, .inl ⟨hown, hres, hv⟩⟩, Discipline.Steady.pure fun s₄ h₄ => ⟨rfl, ?_⟩⟩
    refine Created.extends (s := s₃.written i _ _ _) ⟨hown, ?_⟩ (Later.extends h₄)
    exact Holds.of_encode (Store.put_self _ _ _)

/-! ### Programs of whose result nothing is said -/

/-- The program keeps to the discipline. -/
def Harmless (calls : ι → FsCall) (s₀ : Store) (i : ι) (m : M α) : Prop :=
  ∀ t s, Inv calls s₀ s → (discipline calls s₀).Steady i (fun _ _ _ => True) m t s

theorem Harmless.pure (a : α) : Harmless calls s₀ i (pure a) :=
  fun _ _ _ => Discipline.Steady.pure fun _ _ => trivial

theorem Harmless.raise (e : Raised) : Harmless calls s₀ i (.raise e : M α) :=
  fun _ _ _ => Discipline.Steady.raise fun _ _ => trivial

theorem Harmless.of_steady {m : M α} {Q : Thread → Except Raised α → Thread → Shared ι → Prop}
    (h : ∀ t s, Inv calls s₀ s → (discipline calls s₀).Steady i (Q t) m t s) :
    Harmless calls s₀ i m := fun t s hs => (h t s hs).mono fun _ _ _ _ _ _ => trivial

theorem Harmless.bind {m : M β} {f : β → M α} (hm : Harmless calls s₀ i m)
    (hf : ∀ a, Harmless calls s₀ i (f a)) : Harmless calls s₀ i (m >>= f) := fun t s hs =>
  (hm t s hs).bind hs trivial (fun a t' s' hs' _ _ => hf a t' s' hs') fun _ _ _ _ _ _ => trivial

theorem Harmless.unwrap (a : Option α) : Harmless calls s₀ i (unwrap a) := by
  cases a with
  | none => exact .raise _
  | some a => exact .pure a

theorem Harmless.call {o : Op} (h : ∀ s, Inv calls s₀ s → Guar calls i o s) :
    Harmless calls s₀ i (.call (S := monitor) o : M (Op.Res o)) := fun _ _ _ =>
  Discipline.Steady.call_bind (f := .pure) fun s' hs' =>
    ⟨h s' hs'.inv, Discipline.Steady.pure fun _ _ => trivial⟩

theorem Harmless.withCurrentLabel {m : Access Buckle α} :
    Harmless calls s₀ i (withCurrentLabel m) := by
  refine .bind (.call fun _ _ => trivial) fun t => ?_
  split
  · exact .bind (.call fun _ _ => trivial) fun _ => .pure _
  · exact .raise _

theorem Harmless.getPrivilege : Harmless calls s₀ i getPrivilege :=
  .bind (.call fun _ _ => trivial) fun _ => .pure _

theorem Harmless.objectGet {T : Type} [Codec T] (u : Uid) :
    Harmless calls s₀ i (ObjectRef.get T u) := .bind (.call fun _ _ => trivial) fun _ => .pure _

variable [LabelCrate]

theorem harmless_read {T : Type} [LabeledCodec T] (u : Uid) :
    Harmless calls s₀ i (ObjectRef.read T u) :=
  .bind (.objectGet u) fun _ => .bind (.unwrap _) fun _ => .withCurrentLabel

/-- The write of a new value under the label that was read before: labels do not change. -/
theorem harmless_overwrite {T : Type} [LabeledCodec T]
    (hT : ∀ o : Labeled T, (Codec.encode o).isDirectory = false) (u : Uid) (v : T) :
    Harmless calls s₀ i (ObjectRef.overwrite u v) := by
  intro t s _
  unfold ObjectRef.overwrite
  refine steady_objectGet (calm calls s₀) fun s₁ h₁ => ?_
  refine steady_unwrap (fun o ho => ?_) fun _ _ _ => trivial
  refine steady_write (calm calls s₀) (fun _ => ?_) fun _ _ _ => trivial
  have hu : Holds u (Codec.encode o) (s₁.accessed i (.get u)) := .of_encode (decode_eq_some ho)
  refine steady_put (f := .pure) fun s₂ h₂ => ⟨⟨_, rfl, .inr ?_⟩, Discipline.Steady.pure fun _ _ => trivial⟩
  obtain ⟨o', ho', hb⟩ := hu.extends (Later.extends h₂)
  refine ⟨o', ho', not_directory (hT o) hb.kind, ?_, ?_⟩
  · exact (LabeledCodec.kind_encode _ _).trans hb.kind.symm
  · rw [hb.label]
    simp

theorem harmless_checkDelegate (q : Component) : Harmless calls s₀ i (checkDelegate q) := by
  refine .bind .getPrivilege fun p => ?_
  split_ifs
  · exact .pure _
  · exact .raise _

theorem harmless_checkCreate (l : Buckle) : Harmless calls s₀ i (FS.checkCreate l) := by
  refine .bind .withCurrentLabel fun l => .bind .getPrivilege fun p => ?_
  split_ifs
  · exact .pure _
  · exact .raise _

theorem harmless_toInvokableLoop (n : ℕ) (g : Gate) (p d c : Component) :
    Harmless calls s₀ i (Gate.toInvokableLoop n g p d c) := by
  induction n generalizing g p d c with
  | zero => exact .raise _
  | succ n ih =>
    cases g with
    | direct g => exact .pure _
    | redirect g => exact .bind (harmless_read _) fun _ => ih _ _ _ _

/-! ### Directories -/

/-- The directory `u` as the client last looked at it. -/
def LastSaw (i : ι) (u : Uid) (d : Labeled Directory) (s : Shared ι) : Prop :=
  ∃ e, s.log.find? (fun e => e.client = i ∧ e.looksAt u) = some e ∧
    e.before u = some (.object (.directory d))

/-- What the client knows about the directory it last looked at: it has seen `prev` there, and
either it is still there, or someone else has committed. -/
structure Seen (i : ι) (u : Uid) (prev : Labeled Directory) (s : Shared ι) : Prop where
  seen : LastSaw i u prev s
  current : s.store u = some (.object (.directory prev)) ∨ Contended i u s.log
  isDir : ∃ d, s.store u = some (.object (.directory d)) ∧ d.label = prev.label

omit [LabelCrate] in
theorem LastSaw.env {u : Uid} {d : Labeled Directory} (h : LastSaw i u d s) (hs : Env i s s') :
    LastSaw i u d s' := by
  obtain ⟨new, hnew, hclient, -⟩ := hs.log
  obtain ⟨e, he, hd⟩ := h
  refine ⟨e, ?_, hd⟩
  rw [hnew, List.find?_append, List.find?_eq_none.2 fun a ha => by simp [hclient a ha], he]
  rfl

omit [LabelCrate] in
/-- There is one last look. -/
theorem LastSaw.unique {u : Uid} {d d' : Labeled Directory} (h : LastSaw i u d s)
    (h' : LastSaw i u d' s) : d = d' := by
  obtain ⟨e, he, hd⟩ := h
  obtain ⟨e', he', hd'⟩ := h'
  obtain rfl : e = e' := Option.some.inj (he.symm.trans he')
  simpa using hd.symm.trans hd'

omit [LabelCrate] in
/-- The access that has just been made was a look. -/
theorem LastSaw.head {u : Uid} {d : Labeled Directory} {e : StoreAccess ι}
    {log : List (StoreAccess ι)} (hlog : s.log = e :: log) (hi : e.client = i) (hu : e.looksAt u)
    (hd : e.before u = some (.object (.directory d))) : LastSaw i u d s :=
  ⟨e, by rw [hlog]; exact List.find?_cons_of_pos (by simp [hi, hu]), hd⟩

omit [LabelCrate] in
theorem Seen.env {u : Uid} {prev : Labeled Directory} (h : Seen i u prev s) (hs : Env i s s') :
    Seen i u prev s' := by
  refine ⟨h.seen.env hs, ?_, ?_⟩
  · obtain ⟨new, hnew, hclient, hdir⟩ := hs.log
    rw [hnew]
    rcases h.current with hc | hc
    · by_cases hne : ∀ e ∈ new, e.commitsTo ≠ some u
      · exact .inl ((hdir u prev hc hne).trans hc)
      · simp only [not_forall, not_not] at hne
        obtain ⟨e, he, hu⟩ := hne
        exact .inr (.of_mem hclient he hu)
    · exact .inr (hc.append hclient)
  · obtain ⟨d, hd, hl⟩ := h.isDir
    obtain ⟨d', hd', hl'⟩ := hs.objects.directory hd
    exact ⟨d', hd', hl'.trans hl⟩

/-- The client saw a directory of which `P` holds. -/
def Saw (i : ι) (u : Uid) (P : Labeled Directory → Prop) (s : Shared ι) : Prop :=
  ∃ e ∈ s.log, e.client = i ∧ ∃ d, e.before u = some (.object (.directory d)) ∧ P d

/-- The client replaced the directory `d` by what `f` makes of it. -/
def SwappedIn (i : ι) (u : Uid) (f : Directory → Bool × Directory) (d : Labeled Directory)
    (s : Shared ι) : Prop :=
  ∃ e ∈ s.log, e.client = i ∧ e.before u = some (.object (.directory d)) ∧
    e.op = .cas u (some (.object (.directory d)))
      (.object (.directory { d with data := (f d.data).2 }))

/-- How the loop of `link` and `unlink` may end, for a client that had committed to `k` before. -/
def Updated (i : ι) (u : Uid) (f : Directory → Bool × Directory) (skip : Bool) (k : List Uid)
    (r : Except Raised Bool) (t : Thread) (s : Shared ι) : Prop :=
  match r with
  | .ok true => commitsBy i s.log = u :: k
  | .ok false => commitsBy i s.log = k ∧ Saw i u (fun d => (f d.data).1 = skip) s
  | .error (.err e) => commitsBy i s.log = k ∧ e = .labelError .cannotWrite ∧
      Saw i u (fun d => ¬canFlowToWithPrivilege t.currentLabel d.label t.privilege) s
  | .error .diverge => commitsBy i s.log = k
  | .error .panic => ∃ e ∈ s.log, e.client = i ∧
      ∀ d, e.before u ≠ some (.object (.directory d))

/-- The thread after it has looked at data with the label `l`, any number of times. -/
def Looked (l : Buckle) (t t' : Thread) : Prop :=
  ∃ n, t' = t.relabel (taints (List.replicate n l) t.currentLabel)

/-- How the loop ends when it has looked at `d` last, for a thread that began as `t₀`. -/
def Decided (i : ι) (u : Uid) (f : Directory → Bool × Directory) (skip : Bool) (t₀ : Thread)
    (d : Labeled Directory) (r : Except Raised Bool) (t : Thread) (s : Shared ι) : Prop :=
  LastSaw i u d s ∧ Looked d.label t₀ t ∧
    match r with
    | .ok b => ((f d.data).1 = skip ↔ b = false) ∧ (b = true → SwappedIn i u f d s) ∧
        canFlowToWithPrivilege t.currentLabel d.label t.privilege
    | .error (.err _) => ¬canFlowToWithPrivilege t.currentLabel d.label t.privilege
    | .error .diverge => True
    | .error .panic => False

omit [DecidableEq ι] [LabelCrate] in
theorem Saw.env {u : Uid} {P : Labeled Directory → Prop} (h : Saw i u P s) (hs : Env i s s') :
    Saw i u P s' := by
  obtain ⟨new, hnew, -, -⟩ := hs.log
  obtain ⟨e, he, hi⟩ := h
  exact ⟨e, by rw [hnew]; exact List.mem_append_right _ he, hi⟩

omit [LabelCrate] in
theorem LastSaw.saw {u : Uid} {d : Labeled Directory} {P : Labeled Directory → Prop}
    (h : LastSaw i u d s) (hP : P d) : Saw i u P s := by
  obtain ⟨e, he, hd⟩ := h
  have hi := List.find?_some he
  simp only [decide_eq_true_eq] at hi
  exact ⟨e, List.mem_of_find?_eq_some he, hi.1, d, hd, hP⟩

omit [DecidableEq ι] [LabelCrate] in
theorem SwappedIn.env {u : Uid} {f : Directory → Bool × Directory} {d : Labeled Directory}
    (h : SwappedIn i u f d s) (hs : Env i s s') : SwappedIn i u f d s' := by
  obtain ⟨new, hnew, -, -⟩ := hs.log
  obtain ⟨e, he, hi⟩ := h
  exact ⟨e, by rw [hnew]; exact List.mem_append_right _ he, hi⟩

omit [LabelCrate] in
theorem commitsBy_env (hs : Env i s s') : commitsBy i s'.log = commitsBy i s.log := by
  obtain ⟨new, hnew, hclient, -⟩ := hs.log
  rw [hnew, commitsBy_append hclient]

theorem Looked.refl (l : Buckle) (t : Thread) : Looked l t t := ⟨0, rfl⟩

theorem Looked.once (l : Buckle) (t : Thread) : Looked l t (t.relabel (lub l t.currentLabel)) :=
  ⟨1, rfl⟩

theorem Looked.head {l : Buckle} {t t' : Thread}
    (h : Looked l (t.relabel (lub l t.currentLabel)) t') : Looked l t t' := by
  obtain ⟨n, rfl⟩ := h
  exact ⟨n + 1, rfl⟩

/-- The loop of `link` and `unlink`. By induction on the rounds: each round has seen the version that
it tries to replace. -/
theorem steady_updateLoop_decided {u : Uid} {f : Directory → Bool × Directory} {skip : Bool}
    (hf : ∀ d, (f d).1 ≠ skip → (calls i).apply d.entries = some (f d).2.entries) (n : ℕ)
    {prev : Labeled Directory} {k : List Uid} (hk : commitsBy i s.log = k) (hs : Seen i u prev s) :
    (discipline calls s₀).Steady i
      (fun r t' s' => Updated i u f skip k r t' s' ∧
        ∃ d, d.label = prev.label ∧ Decided i u f skip t d r t' s')
      (Directory.updateLoop u f skip n prev) t s := by
  induction n generalizing s t prev with
  | zero =>
    exact Discipline.Steady.raise fun s' h' => ⟨(commitsBy_env h'.env).trans hk, prev, rfl,
      hs.seen.env h'.env, .refl _ t, trivial⟩
  | succ n ih =>
    unfold Directory.updateLoop
    refine steady_modify (calm calls s₀) (fun hflow => ?_) fun hflow s₁ h₁ => ?_
    · by_cases hskip : (f prev.data).1 = skip
      · simp only [hskip, if_true]
        refine Discipline.Steady.pure fun s₁ h₁ => ⟨⟨(commitsBy_env h₁.env).trans hk, ?_⟩, prev, rfl, ?_⟩
        · exact (hs.seen.env h₁.env).saw hskip
        · exact ⟨hs.seen.env h₁.env, .once _ t, by simp [hskip], nofun, hflow⟩
      · simp only [hskip, if_false]
        refine steady_objectCas (fun s₁ h₁ => ⟨fun hx => ?_, fun d _ hne => ?_⟩) (fun s₁ h₁ hx => ?_)
          fun s₁ h₁ hne => ?_
        · -- the swap applies the client's own call to the version it has seen
          exact .commit hx (hf prev.data hskip)
        · exact (hs.env h₁.env).current.resolve_left hne
        · refine Discipline.Steady.pure fun s₂ h₂ => ?_
          have hx' : s₁.store u = some (.object (.directory prev)) := hx
          have hc : commitsBy i (s₁.written i (.cas u (some (.encode prev))
              (.encode { prev with data := (f prev.data).2 })) u
              (.encode { prev with data := (f prev.data).2 })).log = u :: commitsBy i s₁.log :=
            commitsBy_cons_self rfl (if_pos hx')
          rw [commitsBy_env h₁.env, hk] at hc
          refine ⟨(commitsBy_env h₂.env).trans hc, prev, rfl, LastSaw.env ?_ h₂.env, .once _ t,
            by simp [hskip], fun _ => SwappedIn.env ?_ h₂.env, hflow⟩
          · exact .head rfl rfl (by simp [StoreAccess.looksAt]) hx'
          · exact ⟨_, List.mem_cons_self, rfl, hx', rfl⟩
        · -- someone else has committed: go on with what was found
          obtain ⟨d, hd, hl⟩ := (hs.env h₁.env).isDir
          have hfound : (s₁.store u).bind (Stored.decode (T := Labeled Directory)) = some d := by
            rw [hd]
            rfl
          rw [hfound]
          have hseen : Seen i u d (s₁.accessed i (.cas u (some (.encode prev))
              (.encode { prev with data := (f prev.data).2 }))) :=
            ⟨.head rfl rfl (by simp [StoreAccess.looksAt]) hd, .inl hd, d, hd, rfl⟩
          have hk' : commitsBy i (s₁.accessed i (.cas u (some (.encode prev))
              (.encode { prev with data := (f prev.data).2 }))).log = k := by
            refine (commitsBy_cons_none ?_).trans ((commitsBy_env h₁.env).trans hk)
            exact if_neg hne
          refine (ih hk' hseen).mono fun r t' s' _ _ hr => ⟨hr.1, ?_⟩
          obtain ⟨d', hd', hlast, hlook, hdec⟩ := hr.2
          refine ⟨d', hd'.trans hl, hlast, ?_, hdec⟩
          rw [hd', hl] at hlook ⊢
          exact hlook.head
    · refine ⟨⟨(commitsBy_env h₁.env).trans hk, rfl, (hs.seen.env h₁.env).saw hflow⟩, prev, rfl,
        hs.seen.env h₁.env, .once _ t, hflow⟩

/-- `link` and `unlink`: the first look at the directory, and then the loop. -/
theorem steady_update_decided {u : Uid} {f : Directory → Bool × Directory} {skip : Bool}
    (hf : ∀ d, (f d).1 ≠ skip → (calls i).apply d.entries = some (f d).2.entries) (n : ℕ)
    {k : List Uid} (hk : commitsBy i s.log = k) :
    (discipline calls s₀).Steady i
      (fun r t' s' => Updated i u f skip k r t' s' ∧
        (r ≠ .error .panic → ∃ d, Decided i u f skip t d r t' s'))
      (do
        let prevDir ← unwrap (← ObjectRef.get (Labeled Directory) u)
        Directory.updateLoop u f skip n prevDir) t s := by
  refine steady_objectGet (calm calls s₀) fun s₁ h₁ => ?_
  have hk₁ : commitsBy i (s₁.accessed i (.get u)).log = k :=
    (commitsBy_cons_none rfl).trans ((commitsBy_env h₁.env).trans hk)
  refine steady_unwrap (fun prev hprev => ?_) fun hnone s₂ h₂ => ⟨?_, fun h => absurd rfl h⟩
  · have hd := decode_eq_some hprev
    have hseen : Seen i u prev (s₁.accessed i (.get u)) :=
      ⟨.head rfl rfl (by simp [StoreAccess.looksAt]) hd, .inl hd, prev, hd, rfl⟩
    refine (steady_updateLoop_decided hf n hk₁ hseen).mono fun r t' s' _ _ hr => ⟨hr.1, fun _ => ?_⟩
    obtain ⟨d, -, hd⟩ := hr.2
    exact ⟨d, hd⟩
  · obtain ⟨new, hnew, -, -⟩ := h₂.env.log
    refine ⟨⟨i, .get u, s₁.store⟩, ?_, rfl, fun d hd => ?_⟩
    · rw [hnew]
      exact List.mem_append_right _ List.mem_cons_self
    · change s₁.store u = _ at hd
      rw [hd] at hnone
      cases hnone

theorem steady_update {u : Uid} {f : Directory → Bool × Directory} {skip : Bool}
    (hf : ∀ d, (f d).1 ≠ skip → (calls i).apply d.entries = some (f d).2.entries) (n : ℕ)
    {k : List Uid} (hk : commitsBy i s.log = k) :
    (discipline calls s₀).Steady i (Updated i u f skip k)
      (do
        let prevDir ← unwrap (← ObjectRef.get (Labeled Directory) u)
        Directory.updateLoop u f skip n prevDir) t s :=
  (steady_update_decided hf n hk).mono fun _ _ _ _ _ hr => hr.1

omit [DecidableEq ι] [LabelCrate] in
theorem apply_insert {name : String} {entry : DirEntry}
    (hc : (calls i).apply = FsCall.link name entry) (d : Directory)
    (h : (Directory.insert name entry d).1 ≠ true) :
    (calls i).apply d.entries = some (Directory.insert name entry d).2.entries := by
  rw [hc]
  exact if_neg h

omit [DecidableEq ι] [LabelCrate] in
theorem apply_remove {name : String} (hc : (calls i).apply = FsCall.unlink name) (d : Directory)
    (h : (Directory.remove name d).1 ≠ false) :
    (calls i).apply d.entries = some (Directory.remove name d).2.entries := by
  rw [hc]
  exact if_pos (by simpa [Directory.remove] using h)

theorem harmless_link {name : String} {entry : DirEntry}
    (hc : (calls i).apply = FsCall.link name entry) (n : ℕ) (u : Uid) :
    Harmless calls s₀ i (Directory.link n u name entry) :=
  fun _ _ _ => (steady_update (apply_insert hc) n rfl).mono fun _ _ _ _ _ _ => trivial

theorem harmless_unlink {name : String} (hc : (calls i).apply = FsCall.unlink name) (n : ℕ)
    (u : Uid) : Harmless calls s₀ i (Directory.unlink n u name) :=
  fun _ _ _ => (steady_update (apply_remove hc) n rfl).mono fun _ _ _ _ _ _ => trivial

/-! ### Faceted directories -/

/-- What `open` ends with. -/
def Opened (u : Uid) (facet : Buckle) (t : Thread) (r : Except Raised Uid) (t' : Thread)
    (s : Shared ι) : Prop :=
  t' = t ∧ match r with
    | .ok v => ∃ d, s.store u = some (.object (.facetedDirectory d)) ∧ (facet, v) ∈ d.facets
    | .error e => e = .diverge

omit [DecidableEq ι] [LabelCrate] in
theorem Holds.facet {u v : Uid} {d : FacetedDirectory} {f : Buckle}
    (h : Holds u (.facetedDirectory d) s) (hv : (f, v) ∈ d.facets) :
    ∃ d', s.store u = some (.object (.facetedDirectory d')) ∧ (f, v) ∈ d'.facets := by
  obtain ⟨o, ho, hb⟩ := h
  obtain ⟨d', rfl, hp⟩ := hb.facets d rfl
  exact ⟨d', ho, hp.subset hv⟩

omit [LabelCrate] in
/-- The loop of `open`. By induction on the rounds: the list that the loop works with was there
before, and lists only grow. -/
theorem steady_openLoop {rounds : ℕ} {u : Uid} {facet : Buckle} (n : ℕ)
    {prev : Option FacetedDirectory} (hs : Inv calls s₀ s)
    (hprev : ∀ d, prev = some d → Holds u (.facetedDirectory d) s) :
    (discipline calls s₀).Steady i (Opened u facet t)
      (FacetedDirectory.openLoop rounds u facet n prev) t s := by
  induction n generalizing s prev with
  | zero => exact Discipline.Steady.raise fun s' _ => ⟨rfl, rfl⟩
  | succ n ih =>
    unfold FacetedDirectory.openLoop
    split
    · rename_i v hv
      obtain ⟨d, rfl, hd⟩ := Option.bind_eq_some_iff.1 hv
      refine Discipline.Steady.pure fun s' h' => ⟨rfl, ?_⟩
      exact ((hprev d rfl).extends (Later.extends h')).facet (FacetedDirectory.mem_of_find hd)
    · rename_i hnone
      have hnot : facet ∉ (prev.getD {}).facets.map Prod.fst := by
        cases prev with
        | none => simp
        | some d => exact FacetedDirectory.find_eq_none_iff.1 hnone
      -- a directory for the facet, which nobody else can have taken
      have hblank : Blank (Codec.encode (⟨facet, {}⟩ : Labeled Directory)) := by
        change (∅ : Entries) = ∅
        rfl
      refine (steady_setNewId hblank rounds).bind hs trivial
        (fun v t' s₁ hs₁ _ hv => ?_) fun e t' s₁ _ _ he => he
      obtain ⟨rfl, hv⟩ := hv
      refine steady_objectCas (fun s₂ h₂ => ⟨fun hx => ?_, fun d hd _ => ?_⟩) (fun s₂ h₂ _ => ?_)
        fun s₂ h₂ _ => ?_
      · obtain ⟨o, ho, hb⟩ := (hv.extends (Later.extends h₂)).2
        obtain ⟨dir, rfl, hl⟩ := hb.directory
        refine .push (d := prev.getD {}) ?_ hnot ho hl
        cases prev with
        | none => exact .inr ⟨hx, rfl⟩
        | some d => exact .inl hx
      · cases prev <;> cases hd
      · refine Discipline.Steady.pure fun s₃ h₃ => ⟨rfl, ?_⟩
        have hnew : Holds u (.facetedDirectory ⟨(prev.getD {}).facets ++ [(facet, v)]⟩)
            (s₂.written i (.cas u (prev.map .encode)
              (.encode (⟨(prev.getD {}).facets ++ [(facet, v)]⟩ : FacetedDirectory))) u
              (.encode (⟨(prev.getD {}).facets ++ [(facet, v)]⟩ : FacetedDirectory))) := by
          refine .of_encode (T := FacetedDirectory) ?_
          exact Store.put_self _ _ _
        exact (hnew.extends (Later.extends h₃)).facet (by simp)
      · refine ih ?_ fun d hd => ?_
        · exact h₂.inv.failed_cas ‹_›
        · exact .of_encode (decode_eq_some hd)

omit [LabelCrate] in
theorem steady_open {rounds : ℕ} {u : Uid} {facet : Buckle} :
    (discipline calls s₀).Steady i (Opened u facet t) (FacetedDirectory.open' rounds u facet)
      t s := by
  refine steady_objectGet (calm calls s₀) fun s₁ h₁ => ?_
  exact steady_openLoop rounds (h₁.inv.accessed rfl rfl) fun d hd => .of_encode (decode_eq_some hd)

omit [LabelCrate] in
theorem harmless_open (rounds : ℕ) (u : Uid) (facet : Buckle) :
    Harmless calls s₀ i (FacetedDirectory.open' rounds u facet) :=
  .of_steady fun _ _ _ => steady_open

/-! ### Paths -/

theorem harmless_list (u : Uid) : Harmless calls s₀ i (Directory.list u) :=
  .bind (harmless_read u) fun _ => .pure _

theorem harmless_readPathLoop (rounds : ℕ) (e : Option DirEntry) (path : Path) :
    Harmless calls s₀ i (FS.readPathLoop rounds e path) := by
  induction path generalizing e with
  | nil =>
    cases e with
    | none => exact .raise _
    | some e => cases e <;> exact .pure _
  | cons c path ih =>
    cases e with
    | none => exact .raise _
    | some e =>
      cases e with
      | directory u =>
        cases c with
        | dscrp name => exact .bind (harmless_list _) fun _ => ih _
        | facet f => exact .raise _
      | facetedDirectory u =>
        cases c with
        | dscrp name => exact .raise _
        | facet f => exact .bind (harmless_open _ _ _) fun _ => ih _
      | _ => cases c <;> exact .raise _

theorem harmless_readPath (rounds : ℕ) (path : Path) :
    Harmless calls s₀ i (FS.readPath rounds path) := by
  unfold FS.readPath
  split
  · refine .bind (.bind (.objectGet _) fun _ => .pure _) fun _ =>
      .bind .withCurrentLabel fun _ => harmless_readPathLoop _ _ _
  · exact .pure _

end FileSystem

end Faasten
