import Mathlib
import Faasten.Clients.Directories
import Faasten.Syscall.Server
import Faasten.DcLabels

/-!
# What `link` and `unlink` report

A name is linked or unlinked by a descriptor (`DentLink`, `DentUnlink`) or by a path (`FS::link`,
`FS::rm`). Each of the four flattens the `Result<bool>` of the retry loop in its own way, to a flag
in a reply or to a `Result` of its own. Any number of clients make such calls, and any others on the
file system, from arbitrary states of their threads.

* `Did`, read off the record: the call has swapped in a version of the base directory with the name
  bound to the target, where it was free, or without the name, where it was there;
* `Walked`, how a path leads to its base directory while others work on the store;
* `truthful_iff`: three of the four report success exactly when they did it. `DentLink` also reports
  success when the last version that it looked at had the name already, and its label would have
  allowed the change.
-/

namespace Faasten

open Std Effect SyscallProcessor

namespace FileSystem

/-- The call of a client that links or unlinks a name, by a descriptor or by a path, or makes some
other call of the file system. -/
inductive LinkCall
  | dentLink (dirFd : ℕ) (name : String) (targetFd : ℕ)
  | dentUnlink (fd : ℕ) (name : String)
  | link (baseDir : Path) (name : String) (direntry : DirEntry)
  | rm (dir : Path) (name : String)
  | other (c : FsCall)

section Calls

variable [LabelCrate]

/-- The program of a call, with what it reports as success. -/
def LinkCall.body (rounds : ℕ) : LinkCall → M Bool
  | .dentLink dirFd name targetFd => do
      return (← SyscallProcessor.dentLink rounds dirFd name targetFd).success? = some true
  | .dentUnlink fd name => do
      return (← SyscallProcessor.dentUnlink rounds fd name).success? = some true
  | .link baseDir name direntry => do
      return match ← result (FS.link rounds baseDir name direntry) with
        | .ok () => true
        | .error _ => false
  | .rm dir name => do
      return match ← result (FS.rm rounds dir name) with
        | .ok existed => existed
        | .error _ => false
  | .other c => do
      let _ ← c.body
      return true

end Calls

/-- The call of the file system that a client with this thread makes. -/
def LinkCall.stands (rounds : ℕ) (t : Thread) : LinkCall → FsCall
  | .dentLink dirFd name targetFd =>
      match t.dents dirFd, t.dents targetFd with
      | some (.directory base), some target => .dirLink rounds base name target
      | _, _ => .root
  | .dentUnlink fd name =>
      match t.dents fd with
      | some (.directory base) => .dirUnlink rounds base name
      | _ => .root
  | .link baseDir name direntry => .linkAt rounds baseDir name direntry
  | .rm dir name => .rm rounds dir name
  | .other c => c

variable {ι : Type} [DecidableEq ι]

/-- The client, which now has the thread `t`, has bound the name, which was free, to the entry, and
its label allowed it. -/
def Bound [LabelCrate] (i : ι) (u : Uid) (name : String) (entry : DirEntry) (t : Thread)
    (s : Shared ι) : Prop :=
  ∃ d : Labeled Directory, SwappedIn i u (Directory.insert name entry) d s ∧
    name ∉ d.data.entries ∧ canFlowToWithPrivilege t.currentLabel d.label t.privilege

/-- The client, which now has the thread `t`, has removed the name, which was there, and its label
allowed it. -/
def Removed [LabelCrate] (i : ι) (u : Uid) (name : String) (t : Thread) (s : Shared ι) : Prop :=
  ∃ d : Labeled Directory, SwappedIn i u (Directory.remove name) d s ∧
    name ∈ d.data.entries ∧ canFlowToWithPrivilege t.currentLabel d.label t.privilege

/-- The client has gone from one entry along a path to another one: each name was in the directory
when the client looked there, each facet is in the list. -/
inductive Walked (i : ι) (s : Shared ι) : DirEntry → Path → DirEntry → Prop
  | here (e : DirEntry) : Walked i s e [] e
  | name {u : Uid} {name : String} {e e' : DirEntry} {path : Path}
      (found : Saw i u (fun d => d.data.entries[name]? = some e) s) (rest : Walked i s e path e') :
      Walked i s (.directory u) (.dscrp name :: path) e'
  | facet {u v : Uid} {f : Buckle} {d : FacetedDirectory} {e' : DirEntry} {path : Path}
      (held : s.store u = some (.object (.facetedDirectory d))) (listed : (f, v) ∈ d.facets)
      (rest : Walked i s (.directory v) path e') :
      Walked i s (.facetedDirectory u) (.facet f :: path) e'

/-- Where a path has led the client. A path that does not start with a name leads to the root. -/
def Arrived (i : ι) (s : Shared ι) : Path → DirEntry → Prop
  | .dscrp name :: path, e => Walked i s (.directory FS.rootRef) (.dscrp name :: path) e
  | _, e => e = .directory FS.rootRef

/-- The client, which began with the thread `t₀` and now has the thread `t`, has done what it was
asked to. -/
def Did [LabelCrate] (i : ι) (t₀ t : Thread) (s : Shared ι) : LinkCall → Prop
  | .dentLink dirFd name targetFd => ∃ base target, t₀.dents dirFd = some (.directory base) ∧
      t₀.dents targetFd = some target ∧ Bound i base name target t s
  | .dentUnlink fd name => ∃ base, t₀.dents fd = some (.directory base) ∧ Removed i base name t s
  | .link baseDir name direntry => ∃ base, Arrived i s baseDir (.directory base) ∧
      Bound i base name direntry t s
  | .rm dir name => ∃ base, Arrived i s dir (.directory base) ∧ Removed i base name t s
  | .other _ => True

/-- A report that tells the truth: success if the client has done what it was asked to, and failure
only if it has changed no directory. -/
structure Truthful [LabelCrate] (i : ι) (t₀ t : Thread) (s : Shared ι) (c : LinkCall)
    (success : Bool) : Prop where
  iff : success = true ↔ Did i t₀ t s c
  untouched : success = false → commitsBy i s.log = []

/-- A `DentLink` between open descriptors that finds the name taken when it last looks at the base
directory, with a label that may write there. -/
def Overlooked [LabelCrate] (i : ι) (t₀ : Thread) (s : Shared ι) : LinkCall → Prop
  | .dentLink dirFd name targetFd => ∃ base target d, t₀.dents dirFd = some (.directory base) ∧
      t₀.dents targetFd = some target ∧ LastSaw i base d s ∧ name ∈ d.data.entries ∧
      canFlowToWithPrivilege t₀.currentLabel d.label t₀.privilege
  | _ => False

/-! ### What the record says -/

section Record

variable {calls : ι → FsCall} {s₀ : Store} {i : ι} {t₀ t : Thread} {s s' : Shared ι} {α β : Type}

theorem SwappedIn.mem_commitsBy {u : Uid} {f : Directory → Bool × Directory} {d : Labeled Directory}
    (h : SwappedIn i u f d s) : u ∈ commitsBy i s.log := by
  obtain ⟨e, he, hi, hb, ho⟩ := h
  refine List.mem_filterMap.2 ⟨e, he, ?_⟩
  rw [if_pos hi]
  unfold StoreAccess.commitsTo
  rw [ho]
  exact if_pos hb

/-- A client that has committed to no directory has not done it. -/
theorem not_did [LabelCrate] {c : LinkCall} (h : commitsBy i s.log = [])
    (hc : ∀ c', c ≠ .other c') : ¬Did i t₀ t s c := by
  have hno : ∀ {u f} {d : Labeled Directory}, ¬SwappedIn i u f d s := by
    intro u f d hd
    have := hd.mem_commitsBy
    simp [h] at this
  cases c with
  | dentLink dirFd name targetFd =>
    rintro ⟨base, target, -, -, d, hd, -⟩
    exact hno hd
  | dentUnlink fd name =>
    rintro ⟨base, -, d, hd, -⟩
    exact hno hd
  | link baseDir name direntry =>
    rintro ⟨base, -, d, hd, -⟩
    exact hno hd
  | rm dir name =>
    rintro ⟨base, -, d, hd, -⟩
    exact hno hd
  | other c => exact absurd rfl (hc c)

/-- What the record shows later: it only grows, and what is stored stays. -/
structure Goes (s s' : Shared ι) : Prop extends Extends s s' where
  log : s.log <:+ s'.log

instance : Std.Refl (Goes (ι := ι)) where
  refl s := ⟨Std.Refl.refl s, List.suffix_rfl⟩

instance : IsTrans (Shared ι) Goes where
  trans _ _ _ h h' :=
    ⟨IsTrans.trans _ _ _ h.toExtends h'.toExtends, h.log.trans h'.log⟩

omit [DecidableEq ι] in
theorem Env.goes (h : Env i s s') : Goes s s' := by
  obtain ⟨new, hnew, -, -⟩ := h.log
  exact ⟨h.toExtends, hnew ▸ List.suffix_append _ _⟩

theorem goes_step {o : Op} (h : Inv calls s₀ s) (hg : Guar calls i o s) :
    Goes s ((clients ι).perform i o t s).2.2 := by
  refine ⟨(step h hg).2.1, ?_⟩
  change s.log <:+ s.logAfter i o
  unfold Shared.logAfter
  split_ifs
  · exact List.suffix_cons _ _
  · exact List.suffix_rfl

/-- What a program adds to the record. -/
theorem steady_goes {m : M α} {Q : Except Raised α → Thread → Shared ι → Prop}
    (h : (discipline calls s₀).Steady i Q m t s) :
    (discipline calls s₀).Steady i (fun r t' s' => Q r t' s' ∧ Goes s s') m t s :=
  h.rel (R := Goes) (fun h => Env.goes h) fun h hg => goes_step h hg

omit [DecidableEq ι] in
theorem Saw.goes {u : Uid} {P : Labeled Directory → Prop} (h : Saw i u P s) (hs : Goes s s') :
    Saw i u P s' := by
  obtain ⟨e, he, hi⟩ := h
  exact ⟨e, hs.log.subset he, hi⟩

omit [DecidableEq ι] in
theorem Walked.goes {e e' : DirEntry} {path : Path} (h : Walked i s e path e') (hs : Goes s s') :
    Walked i s' e path e' := by
  induction h with
  | here e => exact .here e
  | name found rest ih => exact .name (found.goes hs) ih
  | facet held listed rest ih =>
    obtain ⟨o, ho, hb⟩ := hs.objects _ _ held
    obtain ⟨d', rfl, hp⟩ := hb.facets _ rfl
    exact .facet ho (hp.subset listed) ih

omit [DecidableEq ι] in
theorem Arrived.goes {e : DirEntry} {path : Path} (h : Arrived i s path e) (hs : Goes s s') :
    Arrived i s' path e := by
  match path with
  | [] => exact h
  | .facet _ :: _ => exact h
  | .dscrp _ :: _ => exact Walked.goes h hs

end Record

/-! ### Programs that commit to no directory -/

section Trees

variable {α : Type}

theorem avoids_setNewId {T : Type} [Codec T] (n : ℕ) (v : T) :
    (ObjectRef.setNewId n v).Avoids Commits := by
  induction n with
  | zero => trivial
  | succ n ih =>
    refine .bind (.call fun _ => id) fun u => .bind (.call fun _ => id) fun b => ?_
    split_ifs
    · exact .bind (.call fun _ => id) fun _ => trivial
    · exact ih

theorem avoids_facetOpen (rounds : ℕ) (u : Uid) (f : Buckle) :
    (FacetedDirectory.open' rounds u f).Avoids Commits := by
  have hloop : ∀ n prev, (FacetedDirectory.openLoop rounds u f n prev).Avoids Commits := by
    intro n
    induction n with
    | zero => exact fun _ => trivial
    | succ n ih =>
      intro prev
      unfold FacetedDirectory.openLoop
      split
      · trivial
      · refine .bind (avoids_setNewId rounds _) fun v => ?_
        have hcas : ∀ d' : FacetedDirectory, (ObjectRef.cas u prev d').Avoids Commits := by
          intro d'
          refine .bind (.call fun r => ?_) fun r => ?_
          · cases prev <;> exact id
          · split <;> trivial
        refine .bind (hcas _) fun r => ?_
        split
        · trivial
        · exact ih _
  exact .bind ((avoids_objectGet u).mono swapped_of_commits) fun _ => hloop _ _

end Trees

/-! ### Paths -/

section Paths

variable [LabelCrate] {calls : ι → FsCall} {s₀ : Store} {i : ι} {t : Thread} {s s' : Shared ι}
  {α β : Type}

theorem avoids_list (u : Uid) : (Directory.list u).Avoids Commits := by
  refine .bind (.bind ((avoids_objectGet u).mono swapped_of_commits) fun o => ?_) fun _ => trivial
  exact .bind ((avoids_unwrap o).mono swapped_of_commits) fun _ =>
    avoids_withCurrentLabel.mono swapped_of_commits

theorem avoids_readPathLoop (rounds : ℕ) (e : Option DirEntry) (path : Path) :
    (FS.readPathLoop rounds e path).Avoids Commits := by
  induction path generalizing e with
  | nil =>
    cases e with
    | none => trivial
    | some e => cases e <;> trivial
  | cons c path ih =>
    match e, c with
    | some (.directory u), .dscrp name => exact .bind (avoids_list u) fun _ => ih _
    | some (.facetedDirectory u), .facet f => exact .bind (avoids_facetOpen rounds u f) fun _ => ih _
    | none, _ => trivial
    | some (.directory _), .facet _ => trivial
    | some (.facetedDirectory _), .dscrp _ => trivial
    | some (.file _), c | some (.gate _), c | some (.service _), c | some (.blob _), c =>
      cases c <;> trivial

theorem avoids_readPath (rounds : ℕ) (path : Path) : (FS.readPath rounds path).Avoids Commits := by
  unfold FS.readPath
  split
  · refine .bind (.bind ((avoids_objectGet _).mono swapped_of_commits) fun _ => trivial) fun _ => ?_
    exact .bind (avoids_withCurrentLabel.mono swapped_of_commits) fun _ =>
      avoids_readPathLoop rounds _ _
  · trivial

omit [LabelCrate] in
/-- A program that commits to no directory leaves no commit in the record. -/
theorem steady_commitsBy {m : M α} {Q : Except Raised α → Thread → Shared ι → Prop}
    (hm : (discipline calls s₀).Steady i Q m t s) (ha : m.Avoids Commits) :
    (discipline calls s₀).Steady i
      (fun r t' s' => Q r t' s' ∧ commitsBy i s'.log = commitsBy i s.log) m t s := by
  induction m generalizing t s with
  | pure a => exact fun s' hs => ⟨hm s' hs, commitsBy_env hs.env⟩
  | raise e => exact fun s' hs => ⟨hm s' hs, commitsBy_env hs.env⟩
  | op o k ih =>
    intro s' hs
    obtain ⟨hg, hk⟩ := hm s' hs
    refine ⟨hg, (ih _ hk (ha _).2).mono fun r t'' s'' _ _ hr => ⟨hr.1, ?_⟩⟩
    exact hr.2.trans ((commitsBy_perform.resolve_right (ha _).1).trans (commitsBy_env hs.env))

theorem steady_list (u : Uid) :
    (discipline calls s₀).Steady i
      (fun r _ s => ∀ es, r = .ok es → Saw i u (fun d => d.data.entries = es) s)
      (Directory.list u) t s := by
  unfold Directory.list ObjectRef.read
  rw [bind_assoc]
  refine steady_objectGet (calm calls s₀) fun s₁ h₁ => ?_
  rw [bind_assoc]
  refine steady_unwrap (fun o ho => ?_) fun _ _ _ es hes => by cases hes
  refine steady_unlabel (calm calls s₀) (Discipline.Steady.pure fun s₂ h₂ es hes => ?_)
  cases hes
  refine Saw.goes ?_ (Env.goes h₂.env)
  exact ⟨_, List.mem_cons_self, rfl, o, decode_eq_some ho, rfl⟩

/-- What the loop of `read_path` returns has been walked to. -/
theorem steady_readPathLoop (rounds : ℕ) (entry : Option DirEntry) (path : Path)
    (hs : Inv calls s₀ s) :
    (discipline calls s₀).Steady i
      (fun r _ s => ∀ e', r = .ok e' → ∃ e, entry = some e ∧ Walked i s e path e')
      (FS.readPathLoop rounds entry path) t s := by
  have hbad : ∀ t s, (discipline calls s₀).Steady i
      (fun r _ s => ∀ e', r = .ok e' → ∃ e, entry = some e ∧ Walked i s e path e')
      (throwFs .badPath) t s := fun t s =>
    Discipline.Steady.raise fun _ _ e' he' => by cases he'
  induction path generalizing entry t s with
  | nil =>
    have hsome : ∀ e, entry = some e → (discipline calls s₀).Steady i
        (fun r _ s => ∀ e', r = .ok e' → ∃ e, entry = some e ∧ Walked i s e [] e')
        (pure e : M DirEntry) t s := by
      rintro e rfl
      refine Discipline.Steady.pure fun s' _ e' he' => ?_
      cases he'
      exact ⟨e, rfl, .here e⟩
    cases entry with
    | none => exact hbad t s
    | some e => cases e <;> exact hsome _ rfl
  | cons c path ih =>
    have hrest : ∀ entry t s, Inv calls s₀ s → (discipline calls s₀).Steady i
        (fun r _ s' => (∀ e', r = .ok e' → ∃ e, entry = some e ∧ Walked i s' e path e') ∧ Goes s s')
        (FS.readPathLoop rounds entry path) t s := by
      intro entry t s hs
      refine steady_goes (ih entry hs fun t s => ?_)
      exact Discipline.Steady.raise fun _ _ e' he' => by cases he'
    match entry, c with
    | some (.directory u), .dscrp name =>
      refine (steady_list u).bind hs trivial (fun es t₁ s₁ hs₁ _ hes => ?_)
        fun _ _ _ _ _ _ e' he' => by cases he'
      refine (hrest es[name]? t₁ s₁ hs₁).mono fun r t₂ s₂ _ _ hr e' he' => ?_
      obtain ⟨e, hname, hwalk⟩ := hr.1 e' he'
      refine ⟨_, rfl, .name ?_ hwalk⟩
      obtain ⟨a, ha, hi, d, hd, rfl⟩ := (hes es rfl).goes hr.2
      exact ⟨a, ha, hi, d, hd, hname⟩
    | some (.facetedDirectory u), .facet f =>
      refine steady_open.bind hs trivial (fun v t₁ s₁ hs₁ _ hv => ?_)
        fun _ _ _ _ _ _ e' he' => by cases he'
      refine (hrest _ t₁ s₁ hs₁).mono fun r t₂ s₂ _ _ hr e' he' => ?_
      obtain ⟨e, he, hwalk⟩ := hr.1 e' he'
      cases he
      obtain ⟨d, hd, hmem⟩ := hv.2
      obtain ⟨o, ho, hb⟩ := hr.2.objects _ _ hd
      obtain ⟨d', rfl, hp⟩ := hb.facets _ rfl
      exact ⟨_, rfl, .facet ho (hp.subset hmem) hwalk⟩
    | none, _ => exact hbad t s
    | some (.directory _), .facet _ => exact hbad t s
    | some (.facetedDirectory _), .dscrp _ => exact hbad t s
    | some (.file _), c | some (.gate _), c | some (.service _), c | some (.blob _), c =>
      cases c <;> exact hbad t s

theorem steady_readPath (rounds : ℕ) (path : Path) :
    (discipline calls s₀).Steady i
      (fun r _ s' => (∀ e, r = .ok e → Arrived i s' path e) ∧
        commitsBy i s'.log = commitsBy i s.log) (FS.readPath rounds path) t s := by
  refine steady_commitsBy ?_ (avoids_readPath rounds path)
  match path with
  | [] =>
    refine Discipline.Steady.pure fun s' _ e he => ?_
    cases he
    rfl
  | .facet _ :: _ =>
    refine Discipline.Steady.pure fun s' _ e he => ?_
    cases he
    rfl
  | .dscrp name :: path =>
    unfold FS.readPath FS.root
    dsimp only
    rw [bind_assoc]
    refine steady_objectGet (calm calls s₀) fun s₁ h₁ => ?_
    refine steady_unlabel (calm calls s₀) ?_
    have hs₁ := h₁.inv.accessed (i := i) (o := .get FS.rootRef) rfl rfl
    refine (steady_goes (steady_readPathLoop rounds _ path hs₁)).mono fun r t₂ s₂ _ _ hr e he => ?_
    obtain ⟨e₁, hname, hwalk⟩ := hr.1 e he
    -- an empty root has no names
    rcases hroot : (s₁.store FS.rootRef).bind (Stored.decode (T := Labeled Directory)) with _ | d
    · rw [hroot] at hname
      simp [FS.emptyRoot] at hname
    · rw [hroot] at hname
      refine .name (Saw.goes ?_ hr.2) hwalk
      exact ⟨_, List.mem_cons_self, rfl, d, decode_eq_some hroot, hname⟩

end Paths

/-! ### The four calls -/

section Four

variable [LabelCrate] {calls : ι → FsCall} {s₀ : Store} {i : ι} {t₀ t : Thread} {s s' : Shared ι}
  {α β : Type}

/-- How `link` and `unlink` of a directory end, for a client that began with the thread `t₀`. -/
def Tried (i : ι) (u : Uid) (f : Directory → Bool × Directory) (skip : Bool) (t₀ : Thread)
    (r : Except Raised Bool) (t : Thread) (s : Shared ι) : Prop :=
  match r with
  | .ok true => ∃ d, LastSaw i u d s ∧ (f d.data).1 ≠ skip ∧ SwappedIn i u f d s ∧
      canFlowToWithPrivilege t.currentLabel d.label t.privilege
  | .ok false => commitsBy i s.log = [] ∧ ∃ d, LastSaw i u d s ∧ (f d.data).1 = skip ∧
      canFlowToWithPrivilege t₀.currentLabel d.label t₀.privilege
  | .error (.err _) => commitsBy i s.log = [] ∧ ∃ d, LastSaw i u d s ∧
      ¬canFlowToWithPrivilege t₀.currentLabel d.label t₀.privilege
  | .error _ => True

/-- A label that has been raised by a look at a directory may flow to it if it could before. -/
theorem Looked.flows_iff [LawfulCrate] [LawfulJoin] {l : Buckle} {t t' : Thread}
    (h : Looked l t t') : canFlowToWithPrivilege t'.currentLabel l t'.privilege ↔
      canFlowToWithPrivilege t.currentLabel l t.privilege := by
  obtain ⟨n, rfl⟩ := h
  refine taints_flows_iff.trans (and_iff_left fun x hx => ?_)
  rw [List.eq_of_mem_replicate hx]
  exact LawfulCrate.priv_of_flow (LawfulCrate.flow_refl l)

theorem Tried.of_decided [LawfulCrate] [LawfulJoin] {u : Uid} {f : Directory → Bool × Directory}
    {skip : Bool} {r : Except Raised Bool} {t' : Thread} (h : Updated i u f skip [] r t' s)
    (hd : r ≠ .error .panic → ∃ d, Decided i u f skip t d r t' s) : Tried i u f skip t r t' s := by
  match r with
  | .ok true =>
    obtain ⟨d, hlast, -, hskip, hswap, hflow⟩ := hd (by simp)
    exact ⟨d, hlast, fun h => Bool.noConfusion (hskip.1 h), hswap rfl, hflow⟩
  | .ok false =>
    obtain ⟨d, hlast, hlook, hskip, -, hflow⟩ := hd (by simp)
    exact ⟨h.1, d, hlast, hskip.2 rfl, hlook.flows_iff.1 hflow⟩
  | .error (.err e) =>
    obtain ⟨d, hlast, hlook, hflow⟩ := hd (by simp)
    exact ⟨h.1, d, hlast, fun hf => hflow (hlook.flows_iff.2 hf)⟩
  | .error .panic => trivial
  | .error .diverge => trivial

theorem steady_link [LawfulCrate] [LawfulJoin] {name : String} {entry : DirEntry}
    (hc : (calls i).apply = FsCall.link name entry) (n : ℕ) (u : Uid)
    (hk : commitsBy i s.log = []) :
    (discipline calls s₀).Steady i (Tried i u (Directory.insert name entry) true t)
      (Directory.link n u name entry) t s :=
  (steady_update_decided (apply_insert hc) n hk).mono fun _ _ _ _ _ hr => .of_decided hr.1 hr.2

theorem steady_unlink [LawfulCrate] [LawfulJoin] {name : String}
    (hc : (calls i).apply = FsCall.unlink name) (n : ℕ) (u : Uid) (hk : commitsBy i s.log = []) :
    (discipline calls s₀).Steady i (Tried i u (Directory.remove name) false t)
      (Directory.unlink n u name) t s :=
  (steady_update_decided (apply_remove hc) n hk).mono fun _ _ _ _ _ hr => .of_decided hr.1 hr.2

/-- How a program ends that fails only where nothing has been committed. -/
def EndsWith (i : ι) (B : β → Thread → Shared ι → Prop) (r : Except Raised β) (t : Thread)
    (s : Shared ι) : Prop :=
  match r with
  | .ok b => B b t s
  | .error (.err _) => commitsBy i s.log = []
  | .error _ => True

/-- A function on the directory that a path leads to. -/
theorem steady_at_dir {B : Uid → β → Thread → Shared ι → Prop} {f : Uid → M β} (n : ℕ) (path : Path)
    (hs : Inv calls s₀ s) (hk : commitsBy i s.log = [])
    (hf : ∀ u t s, Inv calls s₀ s → commitsBy i s.log = [] →
      (discipline calls s₀).Steady i (EndsWith i (B u)) (f u) t s) :
    (discipline calls s₀).Steady i
      (EndsWith i fun b t s => ∃ u, Arrived i s path (.directory u) ∧ B u b t s)
      (do
        match ← FS.readPath n path with
        | .directory u => f u
        | _ => throwFs .notADir) t s := by
  refine (steady_readPath n path).bind hs trivial (fun e t₁ s₁ hs₁ _ he => ?_)
    fun e t₁ s₁ _ _ he => ?_
  · have hk₁ : commitsBy i s₁.log = [] := he.2.trans hk
    have hwrong : (discipline calls s₀).Steady i
        (EndsWith i fun b t s => ∃ u, Arrived i s path (.directory u) ∧ B u b t s)
        (throwFs .notADir) t₁ s₁ :=
      Discipline.Steady.raise fun s' hs' => (commitsBy_env hs'.env).trans hk₁
    cases e with
    | directory u =>
      refine (steady_goes (hf u t₁ s₁ hs₁ hk₁)).mono fun r t₂ s₂ _ _ hr => ?_
      match r with
      | .ok b => exact ⟨u, (he.1 _ rfl).goes hr.2, hr.1⟩
      | .error (.err _) => exact hr.1
      | .error .panic => trivial
      | .error .diverge => trivial
    | _ => exact hwrong
  · match e with
    | .err _ => exact he.2.trans hk
    | .panic => trivial
    | .diverge => trivial

omit [LabelCrate] in
/-- A reply made of the result of a fallible function. -/
theorem steady_reply {m : M β} {g : Except FsError β → α}
    {B : Except Raised β → Thread → Shared ι → Prop} {Q : Except Raised α → Thread → Shared ι → Prop}
    (hm : (discipline calls s₀).Steady i B m t s)
    (hok : ∀ b t s, B (.ok b) t s → Q (.ok (g (.ok b))) t s)
    (herr : ∀ e t s, B (.error (.err e)) t s → Q (.ok (g (.error e))) t s)
    (hraised : ∀ e t s, Q (.error e) t s) :
    (discipline calls s₀).Steady i Q (do return g (← result m)) t s := by
  have hcaught : (discipline calls s₀).Steady i
      (fun r t s => ∃ r', r = asResult r' ∧ B r' t s)
      (result m) t s :=
    Discipline.Steady.attempt (hm.mono fun r _ _ _ _ hr => ⟨r, by rcases r with (_ | _ | _) | _ <;> rfl, hr⟩)
  refine (hcaught.map g).mono fun r t₁ s₁ _ _ hr => ?_
  obtain ⟨_, rfl, r', rfl, hB⟩ := hr
  rcases r' with (e | _ | _) | b
  · exact herr e t₁ s₁ hB
  · exact hraised _ t₁ s₁
  · exact hraised _ t₁ s₁
  · exact hok b t₁ s₁ hB

omit [LabelCrate] in
theorem steady_dent {fd : ℕ} {f : Option DirEntry → M α}
    {Q : Except Raised α → Thread → Shared ι → Prop}
    (h : (discipline calls s₀).Steady i Q (f (t.dents fd)) t s) :
    (discipline calls s₀).Steady i Q (dent fd >>= f) t s := steady_thread (calm calls s₀) h

/-- How a call may end. -/
def Settles (i : ι) (t₀ : Thread) (c : LinkCall) (r : Except Raised Bool) (t : Thread)
    (s : Shared ι) : Prop :=
  ∀ b, r = .ok b → (Truthful i t₀ t s c b ↔ ¬Overlooked i t₀ s c)

/-- A call that fails has changed nothing, and tells so. -/
theorem Settles.failed {c : LinkCall} (hc : ∀ c', c ≠ .other c') (hk : commitsBy i s.log = [])
    (ho : ¬Overlooked i t₀ s c) : Settles i t₀ c (.ok false) t s := by
  rintro _ ⟨⟩
  refine iff_of_true ⟨⟨nofun, fun h => absurd h (not_did hk hc)⟩, fun _ => hk⟩ ho

/-- A call that has done what it was asked to, and tells so. -/
theorem Settles.done {c : LinkCall} (h : Did i t₀ t s c) (ho : ¬Overlooked i t₀ s c) :
    Settles i t₀ c (.ok true) t s := by
  rintro _ ⟨⟩
  exact iff_of_true ⟨iff_of_true rfl h, nofun⟩ ho

theorem Settles.raised {c : LinkCall} {e : Raised} : Settles i t₀ c (.error e) t s := nofun

omit [DecidableEq ι] in
theorem bound_of_swappedIn {u : Uid} {name : String} {entry : DirEntry} {d : Labeled Directory}
    (hne : (Directory.insert name entry d.data).1 ≠ true)
    (h : SwappedIn i u (Directory.insert name entry) d s)
    (hflow : canFlowToWithPrivilege t.currentLabel d.label t.privilege) :
    name ∉ d.data.entries ∧ Bound i u name entry t s := by
  have hname : name ∉ d.data.entries := fun hmem => hne (ExtTreeMap.contains_iff_mem.2 hmem)
  exact ⟨hname, d, h, hname, hflow⟩

theorem steady_dentLink [LawfulCrate] [LawfulJoin] (n : ℕ) (dirFd : ℕ) (name : String)
    (targetFd : ℕ) (hc : calls i = (LinkCall.dentLink dirFd name targetFd).stands n t)
    (hk : commitsBy i s.log = []) :
    (discipline calls s₀).Steady i
      (Settles i t (.dentLink dirFd name targetFd))
      (LinkCall.body n (.dentLink dirFd name targetFd)) t s := by
  -- a closed descriptor, or one of another kind
  have hclosed : (∀ base target, t.dents dirFd = some (.directory base) →
      t.dents targetFd ≠ some target) → (discipline calls s₀).Steady i
        (Settles i t (.dentLink dirFd name targetFd))
        (pure false : M Bool) t s := by
    intro hnone
    refine Discipline.Steady.pure fun s' hs' => ?_
    refine .failed nofun ((commitsBy_env hs'.env).trans hk) ?_
    rintro ⟨base, target, d, hb, ht, -⟩
    exact hnone base target hb ht
  unfold LinkCall.body SyscallProcessor.dentLink
  dsimp only
  rw [bind_assoc]
  refine steady_dent ?_
  rw [bind_assoc]
  refine steady_dent ?_
  match hb : t.dents dirFd, ht : t.dents targetFd with
  | some (.directory base), some target =>
    have happly : (calls i).apply = FsCall.link name target := by
      simp only [hc, LinkCall.stands, hb, ht]
      rfl
    have hprog : (do
        let r ← (do
          match ← result (Directory.link n base name target) with
          | .ok _ => return .dentResult true none none
          | .error _ => return .dentResult false none none : M Pb.Reply)
        return decide (r.success? = some true) : M Bool) = (do
        return (match ← result (Directory.link n base name target) with
          | .ok _ => true
          | .error _ => false)) := by
      rw [bind_assoc]
      congr
      funext r
      cases r <;> rfl
    refine Eq.mpr (congrArg (fun m => Discipline.Steady _ _ _ m _ _) hprog) ?_
    refine steady_reply (steady_link happly n base hk) (fun b t' s' hr => ?_) (fun e t' s' hr => ?_)
      fun e t' s' => .raised
    · cases b with
      | true =>
        obtain ⟨d, hlast, hne, hswap, hflow⟩ := hr
        obtain ⟨hname, hbound⟩ := bound_of_swappedIn hne hswap hflow
        refine .done ⟨base, target, hb, ht, hbound⟩ ?_
        rintro ⟨base', target', d', hb', -, hlast', hmem, -⟩
        obtain rfl : base = base' := by simpa [hb] using hb'
        obtain rfl := hlast.unique hlast'
        exact hname hmem
      | false =>
        obtain ⟨hnil, d, hlast, hmem, hflow⟩ := hr
        rintro _ ⟨⟩
        have hnot : ¬Did i t t' s' (.dentLink dirFd name targetFd) := not_did hnil nofun
        refine iff_of_false (fun h => hnot (h.iff.1 rfl)) (not_not.2 ?_)
        exact ⟨base, target, d, hb, ht, hlast, ExtTreeMap.contains_iff_mem.1 hmem, hflow⟩
    · obtain ⟨hnil, d, hlast, hflow⟩ := hr
      refine .failed nofun hnil ?_
      rintro ⟨base', target', d', hb', -, hlast', -, hflow'⟩
      obtain rfl : base = base' := by simpa [hb] using hb'
      obtain rfl := hlast.unique hlast'
      exact hflow hflow'
  | none, _ => exact hclosed fun base target h => by simp [hb] at h
  | some (.directory _), none => exact hclosed fun base target _ h => by simp [ht] at h
  | some (.file _), _ | some (.facetedDirectory _), _ | some (.gate _), _ | some (.service _), _
  | some (.blob _), _ => exact hclosed fun base target h => by simp [hb] at h

omit [DecidableEq ι] in
theorem removed_of_swappedIn {u : Uid} {name : String} {d : Labeled Directory}
    (hne : (Directory.remove name d.data).1 ≠ false)
    (h : SwappedIn i u (Directory.remove name) d s)
    (hflow : canFlowToWithPrivilege t.currentLabel d.label t.privilege) : Removed i u name t s := by
  refine ⟨d, h, ?_, hflow⟩
  have hmem : d.data.entries.contains name = true := by simpa [Directory.remove] using hne
  exact ExtTreeMap.contains_iff_mem.1 hmem

theorem steady_dentUnlink [LawfulCrate] [LawfulJoin] (n : ℕ) (fd : ℕ) (name : String)
    (hc : calls i = (LinkCall.dentUnlink fd name).stands n t) (hk : commitsBy i s.log = []) :
    (discipline calls s₀).Steady i (Settles i t (.dentUnlink fd name))
      (LinkCall.body n (.dentUnlink fd name)) t s := by
  have hclosed : (discipline calls s₀).Steady i
      (Settles i t (.dentUnlink fd name)) (pure false : M Bool) t s :=
    Discipline.Steady.pure fun s' hs' => .failed nofun ((commitsBy_env hs'.env).trans hk) id
  unfold LinkCall.body SyscallProcessor.dentUnlink
  dsimp only
  rw [bind_assoc]
  refine steady_dent ?_
  match hb : t.dents fd with
  | some (.directory base) =>
    have happly : (calls i).apply = FsCall.unlink name := by
      simp only [hc, LinkCall.stands, hb]
      rfl
    have hprog : (do
        let r ← (do
          match ← result (Directory.unlink n base name) with
          | .ok existed => return .dentResult existed (some fd) none
          | .error _ => return .dentResult false (some fd) none : M Pb.Reply)
        return decide (r.success? = some true) : M Bool) = (do
        return (match ← result (Directory.unlink n base name) with
          | .ok existed => existed
          | .error _ => false)) := by
      rw [bind_assoc]
      congr
      funext r
      rcases r with e | _ | _ <;> rfl
    refine Eq.mpr (congrArg (fun m => Discipline.Steady _ _ _ m _ _) hprog) ?_
    refine steady_reply (steady_unlink happly n base hk) (fun b t' s' hr => ?_)
      (fun e t' s' hr => .failed nofun hr.1 id) fun e t' s' => .raised
    cases b with
    | true =>
      obtain ⟨d, -, hne, hswap, hflow⟩ := hr
      exact .done ⟨base, hb, removed_of_swappedIn hne hswap hflow⟩ id
    | false => exact .failed nofun hr.1 id
  | none => exact hclosed
  | some (.file _) | some (.facetedDirectory _) | some (.gate _) | some (.service _)
  | some (.blob _) => exact hclosed

theorem steady_linkAt [LawfulCrate] [LawfulJoin] (n : ℕ) (baseDir : Path) (name : String)
    (direntry : DirEntry) (hc : calls i = .linkAt n baseDir name direntry) (hs : Inv calls s₀ s)
    (hk : commitsBy i s.log = []) :
    (discipline calls s₀).Steady i (Settles i t (.link baseDir name direntry))
      (LinkCall.body n (.link baseDir name direntry)) t s := by
  have hlink : (discipline calls s₀).Steady i
      (EndsWith i fun _ t s => ∃ u, Arrived i s baseDir (.directory u) ∧
        Bound i u name direntry t s) (FS.link n baseDir name direntry) t s := by
    refine steady_at_dir (B := fun u _ t s => Bound i u name direntry t s) n baseDir hs hk fun u t s hs hk => ?_
    refine (steady_link (by rw [hc]; rfl) n u hk).bind hs trivial (fun b t₁ s₁ _ _ hb => ?_)
      fun e t₁ s₁ _ _ he => ?_
    · cases b with
      | true =>
        obtain ⟨d, -, hne, hswap, hflow⟩ := hb
        refine Discipline.Steady.pure fun s' hs' => ?_
        exact (bound_of_swappedIn hne (hswap.env hs'.env) hflow).2
      | false => exact Discipline.Steady.raise fun s' hs' => (commitsBy_env hs'.env).trans hb.1
    · match e with
      | .err _ => exact he.1
      | .panic => trivial
      | .diverge => trivial
  exact steady_reply hlink (fun _ _ _ h => .done h id) (fun _ _ _ h => .failed nofun h id)
    fun _ _ _ => .raised

theorem steady_rm [LawfulCrate] [LawfulJoin] (n : ℕ) (dir : Path) (name : String)
    (hc : calls i = .rm n dir name) (hs : Inv calls s₀ s) (hk : commitsBy i s.log = []) :
    (discipline calls s₀).Steady i (Settles i t (.rm dir name))
      (LinkCall.body n (.rm dir name)) t s := by
  have hrm : (discipline calls s₀).Steady i
      (EndsWith i fun (b : Bool) t s => ∃ u, Arrived i s dir (.directory u) ∧
        if b then Removed i u name t s else commitsBy i s.log = []) (FS.rm n dir name) t s := by
    refine steady_at_dir (B := fun u (b : Bool) t s => if b then Removed i u name t s
      else commitsBy i s.log = []) n dir hs hk fun u t s hs hk => ?_
    refine (steady_unlink (by rw [hc]; rfl) n u hk).mono fun r t₁ s₁ _ _ hr => ?_
    match r with
    | .ok true =>
      obtain ⟨d, -, hne, hswap, hflow⟩ := hr
      exact removed_of_swappedIn hne hswap hflow
    | .ok false => exact hr.1
    | .error (.err _) => exact hr.1
    | .error .panic => trivial
    | .error .diverge => trivial
  refine steady_reply hrm (fun b _ _ h => ?_) (fun _ _ _ h => .failed nofun h id) fun _ _ _ => .raised
  obtain ⟨u, hu, hb⟩ := h
  cases b with
  | true => exact .done ⟨u, hu, hb⟩ id
  | false => exact .failed nofun hb id

/-- Every call ends with a report that says what it did. -/
theorem steady_linkCall [LawfulCrate] [LawfulJoin] (n : ℕ) (c : LinkCall)
    (hc : calls i = c.stands n t) (hs : Inv calls s₀ s) (hk : commitsBy i s.log = []) :
    (discipline calls s₀).Steady i (Settles i t c) (c.body n) t s := by
  cases c with
  | dentLink dirFd name targetFd => exact steady_dentLink n dirFd name targetFd hc hk
  | dentUnlink fd name => exact steady_dentUnlink n fd name hc hk
  | link baseDir name direntry => exact steady_linkAt n baseDir name direntry hc hs hk
  | rm dir name => exact steady_rm n dir name hc hs hk
  | other c =>
    refine (steady_body c hc hs hk).bind hs trivial (fun _ t₁ s₁ _ _ _ => ?_)
      fun _ _ _ _ _ _ => .raised
    refine Discipline.Steady.pure fun s' _ => ?_
    rintro _ ⟨⟩
    exact iff_of_true ⟨iff_of_true rfl trivial, nofun⟩ id

end Four

/-! ### Runs -/

section Runs

variable [LabelCrate]

/-- The calls before any of them has begun. -/
def linkPool (n : ℕ) (calls : ι → LinkCall) (threads : ι → Thread) (w : World) :
    Pool monitor Raised Bool ι Thread (Shared ι) where
  shared := .start (initialized w)
  loc := threads
  prog i := (calls i).body n

/-- The state after a schedule. -/
def runLinks (n : ℕ) (calls : ι → LinkCall) (threads : ι → Thread) (w : World) (schedule : List ι) :
    Pool monitor Raised Bool ι Thread (Shared ι) :=
  (linkPool n calls threads w).run (clients ι) schedule

theorem runLinks_holds [LawfulCrate] [LawfulJoin] (n : ℕ) (calls : ι → LinkCall)
    (threads : ι → Thread) (w : World) (schedule : List ι) :
    (discipline (fun i => (calls i).stands n (threads i)) (initialized w).store).Holds
      (fun i => Settles i (threads i) (calls i)) (runLinks n calls threads w schedule) := by
  refine Discipline.Holds.run ⟨inv_start _ w, fun _ => trivial, fun i => ?_⟩ schedule
  exact steady_linkCall n (calls i) rfl (inv_start _ w) rfl

/-- **A call that has reported tells the truth, except where a `DentLink` has overlooked that the
name was taken**, for any number of clients, from any states of their threads, and any interleaving of
the store accesses of their calls. -/
theorem truthful_iff [LawfulCrate] [LawfulJoin] (n : ℕ) (calls : ι → LinkCall) (threads : ι → Thread)
    (w : World) (schedule : List ι) (i : ι) (success : Bool)
    (h : (runLinks n calls threads w schedule).prog i = .pure success) :
    Truthful i (threads i) ((runLinks n calls threads w schedule).loc i)
        (runLinks n calls threads w schedule).shared (calls i) success ↔
      ¬Overlooked i (threads i) (runLinks n calls threads w schedule).shared (calls i) :=
  (runLinks_holds n calls threads w schedule).ok h success rfl

end Runs

end FileSystem

/-! ### A name that is linked again -/

namespace TakenName

open FileSystem
open scoped Dc

/-- The root holds one file under the name `a`. -/
def store : Store :=
  Store.empty.put FS.rootRef
    (.encode (⟨publicLabel, ⟨(∅ : Entries).insert "a" (.file 5)⟩⟩ : Labeled Directory))

/-- A thread with two descriptors: the root, and another file. -/
def thread : Thread :=
  { Thread.idle publicLabel with
    dents := fun fd =>
      if fd = 0 then some (.directory FS.rootRef) else if fd = 1 then some (.file 7) else none }

/-- Client 0 links its file in the root, under this name. -/
def after (name : String) (schedule : List ℕ) :
    Pool monitor Raised Bool ℕ Thread (Shared ℕ) :=
  runLinks 1 (fun i => if i = 0 then .dentLink 0 name 1 else .other .root) (fun _ => thread)
    (.quiet thread store) schedule

/-- Under a free name. -/
theorem free_name_linked :
    (after "b" (List.replicate 9 0)).prog 0 = .pure true ∧
      (Truthful 0 thread ((after "b" (List.replicate 9 0)).loc 0)
          (after "b" (List.replicate 9 0)).shared (.dentLink 0 "b" 1) true ↔
        ¬Overlooked 0 thread (after "b" (List.replicate 9 0)).shared (.dentLink 0 "b" 1)) :=
  ⟨rfl, truthful_iff 1 (fun i => if i = 0 then .dentLink 0 "b" 1 else .other .root) (fun _ => thread)
    (.quiet thread store) (List.replicate 9 0) 0 true rfl⟩

/-- Under the name that is taken: success is reported, and nothing has been linked. -/
theorem taken_name_reported :
    (after "a" (List.replicate 9 0)).prog 0 = .pure true ∧
      (after "a" (List.replicate 9 0)).shared.store FS.rootRef = store FS.rootRef ∧
      ¬Truthful 0 thread ((after "a" (List.replicate 9 0)).loc 0)
        (after "a" (List.replicate 9 0)).shared (.dentLink 0 "a" 1) true := by
  refine ⟨rfl, rfl, fun h => ?_⟩
  have hnil : commitsBy 0 (after "a" (List.replicate 9 0)).shared.log = [] := rfl
  exact absurd (h.iff.1 rfl) (not_did hnil nofun)

end TakenName

end Faasten
