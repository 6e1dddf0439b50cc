import Mathlib
import Faasten.Monitor.Policy

/-!
# What a syscall may do

`syscallPolicy w sc` says what the syscall `sc`, made in the world `w`, may do beyond what
`Permits` asks of every operation: which part of it is decided by the message and by the
descriptors of the thread. `obeys_doSyscall` is the one walk through the server that the results
about single syscalls and about whole runs rest on.
-/

namespace Faasten

open Std Effect

/-! ### References -/

/-- The entries that an object refers to. -/
def Object.refs : Object → Set DirEntry
  | .directory o => { e | ∃ name : String, o.data.entries[name]? = some e }
  | .facetedDirectory d => { e | ∃ x ∈ d.facets, e = .directory x.2 }
  | .gate ⟨_, .redirect g⟩ => {.gate g.gate}
  | _ => ∅

/-- An object of the entry's kind is stored under its uid. -/
def World.Refers (w : World) (e : DirEntry) : Prop :=
  ∃ o, w.store e.uid = some (.object o) ∧ o.kind = e.kind

/-- The entry does not come from nowhere: the thread has it open, a stored object refers to it, or
it is the entry of a stored object. -/
def World.Known (w : World) (e : DirEntry) : Prop :=
  (∃ fd, w.dents fd = some e) ∨ (∃ u o, w.store u = some (.object o) ∧ e ∈ o.refs) ∨ w.Refers e

theorem World.Known.mono {w w' : World} {e : DirEntry} (h : w.Known e) (hw : w.Grows w') :
    w'.Known e := by
  rcases h with ⟨fd, h⟩ | ⟨u, o, ho, h⟩ | ⟨o, ho, hk⟩
  · exact .inl ⟨fd, hw.dents ▸ h⟩
  · exact .inr (.inl ⟨u, o, hw.store u o ho, h⟩)
  · exact .inr (.inr ⟨o, hw.store _ o ho, hk⟩)

/-- The components gathered from `S` along a chain of gates. -/
inductive Gathered [LabelCrate] (S : Component → Prop) : Component → Prop
  | start : Gathered S .dcTrue
  | and {a q : Component} (ha : Gathered S a) (hq : S q) : Gathered S (LabelCrate.and a q)

/-- The privileges of the stored gates. -/
def World.GatePrivilege (w : World) (q : Component) : Prop :=
  ∃ u g, w.store u = some (.object (.gate g)) ∧ g.data.privilege = q

/-- `http_send` can build the request to this url. -/
def Service.Builds (s : Service) (h : Host)
    (parameters : ExtTreeMap String String compare) (url : String) : Prop :=
  h.strfmt s.url parameters = some url ∧
    (s.headers.toList.all fun (a, b) => h.validHeader a b) ∧ h.validUrl url

namespace Pb.Syscall

/-- The privilege that a syscall asks a gate or service to have. -/
def privilege? : Pb.Syscall → Option Faasten.Component
  | .dentCreate _ (some (.gate (some (.direct dg)))) => dg.privilege.bind (·.into)
  | .dentCreate _ (some (.gate (some (.redirect rd)))) => rd.privilege.bind (·.into)
  | .dentCreate _ (some (.service s)) => s.privilege.bind (·.into)
  | .dentUpdate _ (some (.gate (some (.direct dg)))) => dg.privilege.bind (·.into)
  | .dentUpdate _ (some (.gate (some (.redirect rd)))) => rd.privilege.bind (·.into)
  | .dentUpdate _ (some (.service s)) => s.privilege.bind (·.into)
  | _ => none

/-- The syscall makes the redirect gate `u` lead to `target`: the thread has both gates open, may
write the one, and holds the privilege it is to have. -/
def Redirects [LabelCrate] (sc : Pb.Syscall) (w : World) (u target : Uid) : Prop :=
  ∃ fd rd l g q, sc = .dentUpdate fd (some (.gate (some (.redirect rd)))) ∧
    w.dents fd = some (.gate u) ∧ w.dents rd.gate = some (.gate target) ∧
    w.store u = some (.object (.gate ⟨l, .redirect g⟩)) ∧
    canFlowToWithPrivilege (lub l w.currentLabel) l w.privilege ∧
    rd.privilege.elim (some g.privilege) (·.into) = some q ∧ implies w.privilege q

/-- The syscall invokes the service `s`. -/
def Invokes (sc : Pb.Syscall) (w : World) (s : Labeled Faasten.Service) : Prop :=
  ∃ fd sync payload toblob parameters u, sc = .dentInvoke fd sync payload toblob parameters ∧
    w.dents fd = some (.service u) ∧ w.store u = some (.object (.service s))

/-- The syscall invokes the service `s`, passes its clearance, and sends the request `r`. -/
def Emits [LabelCrate] (sc : Pb.Syscall) (w : World) (s : Labeled Faasten.Service)
    (r : HttpRequest) : Prop :=
  ∃ fd sync payload toblob parameters u, sc = .dentInvoke fd sync payload toblob parameters ∧
    w.dents fd = some (.service u) ∧ w.store u = some (.object (.service s)) ∧
    implies w.privilege s.data.invokerIntegrityClearance ∧ s.data.Builds w.host parameters r.url

/-- The privileges with which the syscall downgrades the label: that of the thread when it returns,
and that of a service which the thread invokes. -/
inductive Lowers [LabelCrate] (sc : Pb.Syscall) (w : World) : Faasten.Component → Prop
  | response {r : Pb.Response} (h : sc = .response r) : Lowers sc w w.privilege
  | service {s : Labeled Faasten.Service} (h : sc.Invokes w s)
      (hc : implies w.privilege s.data.invokerIntegrityClearance) : Lowers sc w s.data.privilege

end Pb.Syscall

/-- Why the syscall `sc`, made in `w₀`, stores `o` under `u` in the world `w`. -/
structure Justified [LabelCrate] (w₀ : World) (sc : Pb.Syscall) (w : World) (u : Uid) (old : Option Object)
    (o : Object) : Prop where
  refs : ∀ e ∈ o.refs, w.Known e
  privilege : ∀ q, o.privilege? = some q → old.bind (·.privilege?) = some q ∨ sc.privilege? = some q
  redirect : ∀ l g, o = .gate ⟨l, .redirect g⟩ → old = none ∨
    (sc.Redirects w₀ u g.gate ∧ w.store = w₀.store)

variable [LabelCrate]

/-- The message names the thread's privilege and label, and a privilege gathered from gates. -/
structure Invocation (w : World) (m : LabeledInvoke) : Prop where
  invoker : m.invoker = some (.ofComponent w.privilege)
  label : m.label = some (.ofBuckle w.currentLabel)
  privilege : ∃ q, m.gatePrivilege = some (.ofComponent q) ∧ Gathered w.GatePrivilege q

/-- What a syscall may do. -/
def syscallPolicy (w₀ : World) (sc : Pb.Syscall) : Policy where
  lowers l l' := ∃ q, sc.Lowers w₀ q ∧ l' = downgrade l q
  assumes _ := False
  holds := World.Known
  stores := Justified w₀ sc
  invokes := Invocation
  sends w r := ∃ s, sc.Emits w₀ s r ∧
    w.currentLabel = downgrade (lub s.label w₀.currentLabel) s.data.privilege

/-! ### Small programs of the server -/

section Server

open SyscallProcessor

variable {P : Policy} {w : World} {T : Type}

theorem obeys_amend {f : Thread → Thread} (h : ThreadMove P w (f w.toThread)) :
    Obeys P w (amend f) := .bind_ok (exec_thread w) (.call trivial) (.call h)

/-- A change of the tables that opens no directory entry. -/
theorem obeys_amend_tables {f : Thread → Thread}
    (hp : (f w.toThread).privilege = w.privilege)
    (hl : (f w.toThread).currentLabel = w.currentLabel)
    (hd : ∀ fd e, (f w.toThread).dents fd = some e → w.dents fd = some e) :
    Obeys P w (amend f) :=
  obeys_amend ⟨.inl hp, hl ▸ .keep, fun fd e he => .inl (hd fd e he)⟩

theorem obeys_newDent {e : DirEntry} (h : P.holds w e) : Obeys P w (newDent e) := by
  refine .inspect_bind (.bind (obeys_amend ⟨.inl rfl, .keep, fun fd e' he => ?_⟩) fun _ _ _ => .pure _)
  by_cases hfd : fd = w.maxDentId
  · rw [Thread.addDent_dents, hfd, Function.update_self] at he
    cases he; exact .inr h
  · rw [Thread.addDent_dents, Function.update_of_ne hfd] at he
    exact .inl he

theorem obeys_newBlobId : Obeys P w newBlobId :=
  .inspect_bind (.bind (obeys_amend_tables rfl rfl fun _ _ h => h) fun _ _ _ => .pure _)

theorem obeys_create : Obeys P w Blobstore.create := by
  refine .nextIo_bind ?_
  split <;> exact .pure _

theorem obeys_openExpect (name : String) : Obeys P w (Blobstore.openExpect name) := by
  unfold Blobstore.openExpect
  split_ifs
  · refine .nextIo_bind ?_
    split
    · exact .bind_ok (exec_blobGet _ _) (.call trivial) (.unwrap_bind fun _ _ => .pure _)
    · exact .raise _
  · exact .raise _

theorem obeys_save (b : NewBlob) : Obeys P w (Blobstore.save b) := by
  refine .bind_ok (exec_host w) (.call trivial) (.nextIo_bind ?_)
  split
  · exact .pure _
  · refine .bind_ok (exec_blobPut ..) (.call trivial) (.nextIo_bind ?_)
    split
    · exact .pure _
    · refine .nextIo_bind ?_
      split <;> exact .pure _

theorem obeys_newBlob_write (b : NewBlob) (bytes : Bytes) : Obeys P w (b.write bytes) := by
  refine .nextIo_bind ?_
  split <;> exact .pure _

theorem obeys_writeAllLoop (k : ℕ) (b : NewBlob) (bytes : Bytes) :
    Obeys P w (NewBlob.writeAllLoop k b bytes) := by
  induction k generalizing w b bytes with
  | zero =>
    cases bytes with
    | nil => exact .pure _
    | cons => exact .raise _
  | succ k ih =>
    cases bytes with
    | nil => exact .pure _
    | cons c cs =>
      refine (obeys_newBlob_write b _).bind fun r w' _ => ?_
      split
      · exact .raise _
      · exact .raise _
      · exact ih _ _

theorem obeys_storeExpect (content : Bytes) : Obeys P w (Blobstore.storeExpect content) := by
  refine obeys_create.bind fun r w' _ => ?_
  split
  · exact .raise _
  · refine .bind (obeys_writeAllLoop _ _ _) fun b w' _ => (obeys_save b).bind fun r w' _ => ?_
    split
    · exact .raise _
    · exact .pure _

theorem obeys_toBlob (content : Bytes) : Obeys P w (toBlob content) :=
  (obeys_storeExpect content).bind fun _ _ _ => obeys_newBlobId.bind fun _ _ _ =>
    .bind (obeys_amend_tables rfl rfl fun _ _ h => h) fun _ _ _ => .pure _

theorem obeys_openImage (name : String) : Obeys P w (openImage name) :=
  obeys_newBlobId.bind fun _ _ _ => (obeys_openExpect name).bind fun _ _ _ =>
    .bind (obeys_amend_tables rfl rfl fun _ _ h => h) fun _ _ _ => .pure _

theorem obeys_showGate (g : Gate) : Obeys P w (showGate g) := by
  cases g with
  | direct g =>
    exact (obeys_openImage _).bind fun _ _ _ => (obeys_openImage _).bind fun _ _ _ =>
      (obeys_openImage _).bind fun _ _ _ => .pure _
  | redirect g => exact .pure _

theorem obeys_imageOf (fd : ℕ) : Obeys P w (imageOf fd) := by
  refine .dent_bind ?_
  split
  · exact .raise _
  · exact .pure _
  · exact .raise _

theorem obeys_component (c : Option Pb.Component) : Obeys P w (component c) :=
  .unwrap_bind fun _ _ => .unwrap _

theorem obeys_componentOrTrue (c : Option Pb.Component) : Obeys P w (componentOrTrue c) := by
  cases c with
  | none => exact .pure _
  | some c => exact .unwrap _

theorem obeys_updateComponent (c : Option Pb.Component) (old : Component) :
    Obeys P w (updateComponent c old) := by
  cases c with
  | none => exact .pure _
  | some c => exact .unwrap _

theorem obeys_updateImage (fd : ℕ) (old : String) : Obeys P w (updateImage fd old) := by
  unfold updateImage
  split_ifs
  · exact (obeys_imageOf fd).bind fun _ _ _ => obeys_read _
  · exact .pure _

theorem obeys_updateFunction (f : Option Pb.Function) (old : Function) :
    Obeys P w (updateFunction f old) := by
  cases f with
  | none => exact .pure _
  | some f =>
    exact (obeys_updateImage _ _).bind fun _ _ _ => (obeys_updateImage _ _).bind fun _ _ _ =>
      (obeys_updateImage _ _).bind fun _ _ _ => .pure _

theorem obeys_directGateOf (dg : Pb.DirectGate) : Obeys P w (directGateOf dg) :=
  .unwrap_bind fun _ _ => (obeys_imageOf _).bind fun _ _ _ => (obeys_imageOf _).bind fun _ _ _ =>
    (obeys_imageOf _).bind fun _ _ _ => (obeys_read _).bind fun _ _ _ =>
    (obeys_read _).bind fun _ _ _ => (obeys_read _).bind fun _ _ _ =>
    (obeys_component _).bind fun _ _ _ => (obeys_component _).bind fun _ _ _ =>
    (obeys_componentOrTrue _).bind fun _ _ _ => .pure _

theorem obeys_redirectGateOf (rd : Pb.RedirectGate) (u : Uid) : Obeys P w (redirectGateOf rd u) :=
  (obeys_component _).bind fun _ _ _ => (obeys_component _).bind fun _ _ _ =>
    (obeys_componentOrTrue _).bind fun _ _ _ => .pure _

theorem obeys_serviceOf (s : Pb.Service) : Obeys P w (serviceOf s) :=
  .unwrap_bind fun _ _ => .unwrap_bind fun _ _ => (obeys_component _).bind fun _ _ _ =>
    (obeys_component _).bind fun _ _ _ => .pure _

theorem obeys_readGate (u : Uid) : Obeys P w (readGate u) := by
  refine .get_bind ?_
  split
  · exact (obeys_unlabel _).bind fun _ _ _ => .pure _
  · exact .pure _

/-! ### What the message decides -/

omit [LabelCrate] in
theorem component_ok {c : Option Pb.Component} {q : Component} {w' : World}
    (h : exec (component c) w = (.ok q, w')) : c.bind (·.into) = some q ∧ w' = w := by
  obtain ⟨c', w₁, h₁, h₂⟩ := exec_bind_eq_ok h
  obtain ⟨rfl, rfl⟩ := unwrap_ok h₁
  exact unwrap_ok h₂

omit [LabelCrate] in
theorem updateComponent_ok {c : Option Pb.Component} {old q : Component} {w' : World}
    (h : exec (updateComponent c old) w = (.ok q, w')) :
    c.elim (some old) (·.into) = some q ∧ w' = w := by
  cases c with
  | none => cases h; exact ⟨rfl, rfl⟩
  | some c => exact unwrap_ok h

omit [LabelCrate] in
/-- A component after an update is the old one, or the one that the message gives. -/
theorem updated_component {c : Option Pb.Component} {old q : Component}
    (h : c.elim (some old) (·.into) = some q) : some old = some q ∨ c.bind (·.into) = some q := by
  cases c with
  | none => exact .inl h
  | some c => exact .inr h

omit [LabelCrate] in
theorem imageOf_ok {fd : ℕ} {u : Uid} {w' : World} (h : exec (imageOf fd) w = (.ok u, w')) :
    w.dents fd = some (.blob u) ∧ w' = w := by
  rw [imageOf, exec_bind_ok (exec_dent fd w)] at h
  split at h
  · cases h
  · cases h; exact ⟨by assumption, rfl⟩
  · cases h

theorem read_grows [LabeledCodec T] {u : Uid} {v : T} {w' : World}
    (h : exec (ObjectRef.read T u) w = (.ok v, w')) : w.Grows w' := by
  obtain ⟨o, -, -, rfl⟩ := ObjectRef.read_ok h
  exact w.grows_relabel _

theorem updateImage_grows {fd : ℕ} {old v : String} {w' : World}
    (h : exec (updateImage fd old) w = (.ok v, w')) : w.Grows w' := by
  unfold updateImage at h
  split_ifs at h
  · obtain ⟨u, w₁, h₁, h₂⟩ := exec_bind_eq_ok h
    obtain ⟨-, rfl⟩ := imageOf_ok h₁
    exact read_grows h₂
  · cases h; exact .refl w

theorem updateFunction_grows {f : Option Pb.Function} {old v : Function} {w' : World}
    (h : exec (updateFunction f old) w = (.ok v, w')) : w.Grows w' := by
  cases f with
  | none => cases h; exact .refl w
  | some f =>
    obtain ⟨_, w₁, h₁, h⟩ := exec_bind_eq_ok h
    obtain ⟨_, w₂, h₂, h⟩ := exec_bind_eq_ok h
    obtain ⟨_, w₃, h₃, h⟩ := exec_bind_eq_ok h
    cases h
    exact (updateImage_grows h₁).trans ((updateImage_grows h₂).trans (updateImage_grows h₃))

theorem readGate_ok {u : Uid} {g : Gate} {w' : World}
    (h : exec (readGate u) w = (.ok (some g), w')) :
    ∃ l, w.store u = some (.object (.gate ⟨l, g⟩)) ∧ w' = w.relabel (lub l w.currentLabel) := by
  rw [readGate, exec_bind_ok (ObjectRef.exec_get u w)] at h
  rcases ho : (w.store u).bind (Stored.decode (T := Labeled Gate)) with _ | o
  · rw [ho] at h; cases h
  · rw [ho] at h; cases h
    exact ⟨o.label, decode_eq_some ho, rfl⟩

theorem directGateOf_ok {dg : Pb.DirectGate} {g : DirectGate} {w' : World}
    (h : exec (directGateOf dg) w = (.ok g, w')) :
    dg.privilege.bind (·.into) = some g.privilege ∧ w.Grows w' := by
  obtain ⟨_, w₀, h₀, k₁⟩ := exec_bind_eq_ok h
  obtain ⟨_, w₁, h₁, k₂⟩ := exec_bind_eq_ok k₁
  obtain ⟨_, w₂, h₂, k₃⟩ := exec_bind_eq_ok k₂
  obtain ⟨_, w₃, h₃, k₄⟩ := exec_bind_eq_ok k₃
  obtain ⟨_, w₄, h₄, k₅⟩ := exec_bind_eq_ok k₄
  obtain ⟨_, w₅, h₅, k₆⟩ := exec_bind_eq_ok k₅
  obtain ⟨_, w₆, h₆, k₇⟩ := exec_bind_eq_ok k₆
  obtain ⟨p, w₇, h₇, k₈⟩ := exec_bind_eq_ok k₇
  obtain ⟨_, w₈, h₈, k₉⟩ := exec_bind_eq_ok k₈
  obtain ⟨_, w₉, h₉, k⟩ := exec_bind_eq_ok k₉
  obtain ⟨-, rfl⟩ := unwrap_ok h₀
  obtain ⟨-, rfl⟩ := imageOf_ok h₁
  obtain ⟨-, rfl⟩ := imageOf_ok h₂
  obtain ⟨-, rfl⟩ := imageOf_ok h₃
  obtain ⟨hp, rfl⟩ := component_ok h₇
  obtain ⟨-, rfl⟩ := component_ok h₈
  have hw : w₉ = w₈ := by
    cases hd : dg.declassify with
    | none => rw [hd] at h₉; cases h₉; rfl
    | some c => rw [hd] at h₉; exact (unwrap_ok h₉).2
  rw [hw] at k
  cases k
  exact ⟨hp, (read_grows h₄).trans ((read_grows h₅).trans (read_grows h₆))⟩

omit [LabelCrate] in
theorem redirectGateOf_ok {rd : Pb.RedirectGate} {u : Uid} {g : RedirectGate} {w' : World}
    (h : exec (redirectGateOf rd u) w = (.ok g, w')) :
    rd.privilege.bind (·.into) = some g.privilege ∧ g.gate = u ∧ w' = w := by
  obtain ⟨p, w₁, h₁, k₂⟩ := exec_bind_eq_ok h
  obtain ⟨_, w₂, h₂, k₃⟩ := exec_bind_eq_ok k₂
  obtain ⟨_, w₃, h₃, k⟩ := exec_bind_eq_ok k₃
  obtain ⟨hp, rfl⟩ := component_ok h₁
  obtain ⟨-, rfl⟩ := component_ok h₂
  cases k
  refine ⟨hp, rfl, ?_⟩
  cases hd : rd.declassify with
  | none => rw [hd] at h₃; cases h₃; rfl
  | some c => rw [hd] at h₃; exact (unwrap_ok h₃).2

omit [LabelCrate] in
theorem serviceOf_ok {s : Pb.Service} {v : Service} {w' : World}
    (h : exec (serviceOf s) w = (.ok v, w')) :
    s.privilege.bind (·.into) = some v.privilege ∧ w' = w := by
  obtain ⟨_, w₁, h₁, k₂⟩ := exec_bind_eq_ok h
  obtain ⟨_, w₂, h₂, k₃⟩ := exec_bind_eq_ok k₂
  obtain ⟨p, w₃, h₃, k₄⟩ := exec_bind_eq_ok k₃
  obtain ⟨_, w₄, h₄, k⟩ := exec_bind_eq_ok k₄
  obtain ⟨-, rfl⟩ := unwrap_ok h₁
  obtain ⟨-, rfl⟩ := unwrap_ok h₂
  obtain ⟨hp, rfl⟩ := component_ok h₃
  obtain ⟨-, rfl⟩ := component_ok h₄
  cases k
  exact ⟨hp, rfl⟩

/-! ### The storing syscalls -/

/-- What is stored under a fresh uid. -/
theorem Justified.fresh {w₀ : World} {sc : Pb.Syscall} {u : Uid} {o : Object}
    (hr : ∀ e ∈ o.refs, w.Known e)
    (hp : ∀ q, o.privilege? = some q → sc.privilege? = some q) : Justified w₀ sc w u none o :=
  ⟨hr, fun q hq => .inr (hp q hq), fun _ _ _ => .inl rfl⟩

/-- Data without references and privileges, in place of other such data. -/
theorem Justified.plain {w₀ : World} {sc : Pb.Syscall} {u : Uid} {old : Option Object} {o : Object}
    (hr : ∀ e ∈ o.refs, w.Known e) (hp : o.privilege? = none) : Justified w₀ sc w u old o :=
  ⟨hr, fun q hq => by simp [hp] at hq, fun l g ho => by simp [ho, Object.privilege?] at hp⟩

variable (rounds : ℕ) {w₀ : World} {sc : Pb.Syscall}

theorem obeys_createEntry {label : Buckle} {lbl : Option Pb.Buckle} {kind : Pb.CreateKind}
    (hsc : sc = .dentCreate lbl (some kind)) :
    Obeys (syscallPolicy w₀ sc) w (createEntry rounds kind label) := by
  subst hsc
  unfold createEntry
  split
  · exact .bind (obeys_setNewId _ nofun fun w' u _ =>
      .plain (by rintro e ⟨name, h⟩; simp [default] at h) rfl) fun _ _ _ => .pure _
  · exact .bind (obeys_setNewId _ nofun fun w' u _ => .plain nofun rfl) fun _ _ _ => .pure _
  · exact .bind (obeys_setNewId _ nofun fun w' u _ =>
      .plain (by rintro e ⟨x, h, -⟩; cases h) rfl) fun _ _ _ => .pure _
  · refine (obeys_directGateOf _).bind fun g w' hx => .checkCreate_bind fun _ =>
      .checkDelegate_bind fun hp => .checkDelegate_bind fun _ =>
      .bind (obeys_setNewId _ ?_ fun w' u _ => .fresh nofun ?_) fun _ _ _ => .pure _
    · rintro q ⟨⟩; exact hp
    · rintro q ⟨⟩; exact (directGateOf_ok hx).1
  · rename_i rd
    refine .dent_bind ?_
    split
    · rename_i gate hgate
      refine (obeys_redirectGateOf _ _).bind fun g w' hx => ?_
      obtain ⟨hp, rfl, rfl⟩ := redirectGateOf_ok hx
      refine .checkCreate_bind fun _ => .checkDelegate_bind fun hd => .checkDelegate_bind fun _ =>
        .bind (obeys_setNewId _ ?_ fun w'' u hg => .fresh ?_ ?_) fun _ _ _ => .pure _
      · rintro q ⟨⟩; exact hd
      · rintro e ⟨⟩; exact .mono (.inl ⟨rd.gate, hgate⟩) hg
      · rintro q ⟨⟩; exact hp
    · exact .raise _
  · exact .raise _
  · refine (obeys_serviceOf _).bind fun v w' hx => ?_
    obtain ⟨hp, rfl⟩ := serviceOf_ok hx
    refine .checkCreate_bind fun _ => .checkDelegate_bind fun hd =>
      .bind (obeys_setNewId _ ?_ fun w'' u hg => .fresh nofun ?_) fun _ _ _ => .pure _
    · rintro q ⟨⟩; exact hd
    · rintro q ⟨⟩; exact hp
  · refine .inspect_bind ?_
    split
    · refine .bind (obeys_setNewId _ nofun fun w' u _ => .plain nofun rfl) fun u w' _ =>
        .bind (obeys_overwrite nofun fun old _ _ => .plain nofun rfl) fun _ _ _ => .pure _
    · exact .raise _

/-- What `dent_create` hands out is the entry of a stored object. -/
theorem createEntry_refers {kind : Pb.CreateKind} {label : Buckle} {e : DirEntry} {w' : World}
    (h : exec (createEntry rounds kind label) w = (.ok e, w')) : w'.Refers e := by
  have hnew : ∀ {T : Type} [Codec T] {v : T} {w w₁ w' : World} {u : Uid} {mk : Uid → DirEntry},
      exec (ObjectRef.setNewId rounds v) w = (.ok u, w₁) → exec (pure (mk u) : M DirEntry) w₁ =
        (.ok e, w') → (mk u).uid = u → (Codec.encode v).kind = (mk u).kind → w'.Refers e := by
    intro T _ v w w₁ w' u mk h₁ h₂ hu hk
    obtain ⟨-, r, rfl⟩ := ObjectRef.setNewId_ok h₁
    cases h₂
    exact ⟨Codec.encode v, hu.symm ▸ Store.put_self .., hk⟩
  unfold createEntry at h
  split at h
  · obtain ⟨u, w₁, h₁, h₂⟩ := exec_bind_eq_ok h
    exact hnew h₁ h₂ rfl rfl
  · obtain ⟨u, w₁, h₁, h₂⟩ := exec_bind_eq_ok h
    exact hnew h₁ h₂ rfl rfl
  · obtain ⟨u, w₁, h₁, h₂⟩ := exec_bind_eq_ok h
    exact hnew h₁ h₂ rfl rfl
  · obtain ⟨g, w₁, -, k₁⟩ := exec_bind_eq_ok h
    obtain ⟨_, w₂, -, k₂⟩ := exec_bind_eq_ok k₁
    obtain ⟨_, w₃, -, k₃⟩ := exec_bind_eq_ok k₂
    obtain ⟨_, w₄, -, k₄⟩ := exec_bind_eq_ok k₃
    obtain ⟨u, w₅, h₅, k₅⟩ := exec_bind_eq_ok k₄
    exact hnew h₅ k₅ rfl rfl
  · obtain ⟨d, w₁, -, k₁⟩ := exec_bind_eq_ok h
    split at k₁
    · obtain ⟨g, w₂, -, k₂⟩ := exec_bind_eq_ok k₁
      obtain ⟨_, w₃, -, k₃⟩ := exec_bind_eq_ok k₂
      obtain ⟨_, w₄, -, k₄⟩ := exec_bind_eq_ok k₃
      obtain ⟨_, w₅, -, k₅⟩ := exec_bind_eq_ok k₄
      obtain ⟨u, w₆, h₆, k₆⟩ := exec_bind_eq_ok k₅
      exact hnew h₆ k₆ rfl rfl
    · cases k₁
  · cases h
  · obtain ⟨v, w₁, -, k₁⟩ := exec_bind_eq_ok h
    obtain ⟨_, w₂, -, k₂⟩ := exec_bind_eq_ok k₁
    obtain ⟨_, w₃, -, k₃⟩ := exec_bind_eq_ok k₂
    obtain ⟨u, w₄, h₄, k₄⟩ := exec_bind_eq_ok k₃
    exact hnew h₄ k₄ rfl rfl
  · obtain ⟨b, w₁, -, k₁⟩ := exec_bind_eq_ok h
    split at k₁
    · obtain ⟨u, w₂, -, k₂⟩ := exec_bind_eq_ok k₁
      obtain ⟨_, w₃, h₃, k₃⟩ := exec_bind_eq_ok k₂
      obtain ⟨o, ho, -, rfl⟩ := ObjectRef.overwrite_ok h₃
      cases k₃
      exact ⟨_, Store.put_self .., rfl⟩
    · cases k₁

theorem obeys_updateGate {fd : ℕ} {u : Uid} {kind : Pb.GateKind}
    (hsc : sc = .dentUpdate fd (some (.gate (some kind)))) (hu : w.dents fd = some (.gate u)) :
    Obeys (syscallPolicy w sc) w (updateGate u kind) := by
  subst hsc
  cases kind with
  | direct dg =>
    refine (obeys_readGate u).bind fun r w₁ hr => ?_
    split
    · rename_i gate
      obtain ⟨l, hl, rfl⟩ := readGate_ok hr
      refine (obeys_updateFunction _ _).bind fun f w₂ hf =>
        (obeys_updateComponent _ _).bind fun p w₃ hp =>
        (obeys_updateComponent _ _).bind fun c w₄ hc => .checkDelegate_bind fun hd => ?_
      obtain ⟨hq, rfl⟩ := updateComponent_ok hp
      obtain ⟨-, rfl⟩ := updateComponent_ok hc
      refine obeys_overwrite (by rintro _ q ⟨⟩; exact hd) fun old hold _ =>
        ⟨nofun, ?_, fun l g h => by cases h⟩
      have hst := ((w.grows_relabel _).trans (updateFunction_grows hf)).store u _ hl
      cases hst.symm.trans hold
      rintro q ⟨⟩
      exact updated_component hq
    · exact .raise _
  | redirect rd =>
    refine (obeys_readGate u).bind fun r w₁ hr => ?_
    split
    · rename_i gate
      obtain ⟨l, hl, rfl⟩ := readGate_ok hr
      refine .dent_bind ?_
      split
      · rename_i target htarget
        refine (obeys_updateComponent _ _).bind fun p w₃ hp =>
          (obeys_updateComponent _ _).bind fun c w₄ hc => .checkDelegate_bind fun hd => ?_
        obtain ⟨hq, rfl⟩ := updateComponent_ok hp
        obtain ⟨-, rfl⟩ := updateComponent_ok hc
        refine obeys_overwrite (by rintro _ q ⟨⟩; exact hd) fun old hold hf => ?_
        cases hl.symm.trans hold
        refine ⟨?_, ?_, ?_⟩
        · rintro e ⟨⟩
          exact .inl ⟨rd.gate, htarget⟩
        · rintro q ⟨⟩
          exact updated_component hq
        · rintro l' g ⟨⟩
          exact .inr ⟨⟨fd, rd, l, gate, p, rfl, hu, htarget, hl, hf, hq, hd⟩, rfl⟩
      · exact .raise _
    · exact .raise _

theorem obeys_updateEntry {fd : ℕ} {kind : Pb.UpdateKind} (hsc : sc = .dentUpdate fd (some kind)) :
    Obeys (syscallPolicy w sc) w (updateEntry fd kind) := by
  cases kind with
  | file data =>
    refine .dent_bind ?_
    split
    · exact obeys_overwrite nofun fun old _ _ => .plain nofun rfl
    · exact .raise _
  | gate kind =>
    refine .dent_bind ?_
    split
    · rename_i hu
      exact obeys_updateGate hsc hu
    · exact .raise _
  | service s =>
    refine .dent_bind ?_
    split
    · refine (obeys_serviceOf s).bind fun v w' hx => .checkDelegate_bind fun hd => ?_
      obtain ⟨hp, rfl⟩ := serviceOf_ok hx
      refine obeys_overwrite (by rintro _ q ⟨⟩; exact hd) fun old _ _ => ⟨nofun, ?_, nofun⟩
      rintro q ⟨⟩
      subst hsc; exact .inr hp
    · exact .raise _
  | blob blobFd =>
    refine .inspect_bind ?_
    split
    · exact .raise _
    · refine .dent_bind ?_
      split
      · exact obeys_overwrite nofun fun old _ _ => .plain nofun rfl
      · exact .raise _

theorem syscallPolicy_allowsFacet (w : World) (dir : Uid) (facet : Buckle) :
    (syscallPolicy w₀ sc).AllowsFacet w dir facet where
  create w' u _ := .plain (by rintro e ⟨name, h⟩; simp at h) rfl
  push w' d v _ hv hst _ := by
    refine .plain ?_ rfl
    rintro e ⟨x, hx, rfl⟩
    rcases List.mem_append.1 hx with hx | hx
    · cases d with
      | none => cases hx
      | some d => exact .inr (.inl ⟨dir, _, hst, x, hx, rfl⟩)
    · obtain rfl := List.mem_singleton.1 hx
      exact .inr (.inr ⟨_, hv, rfl⟩)

omit [LabelCrate] in
/-- The directory of a facet is known: a faceted directory refers to it, or it was just created. -/
theorem openLoop_known {dir : Uid} {facet : Buckle} {k : ℕ} {d : Option FacetedDirectory} {r : Uid}
    {w' : World} (hd : ∀ d', d = some d' → w.store dir = some (.encode d'))
    (h : exec (FacetedDirectory.openLoop rounds dir facet k d) w = (.ok r, w')) :
    w'.Known (.directory r) := by
  induction k generalizing w d with
  | zero => cases h
  | succ k ih =>
    unfold FacetedDirectory.openLoop at h
    split at h
    · rename_i res hres
      cases h
      obtain ⟨d, rfl, hf⟩ := Option.bind_eq_some_iff.1 hres
      obtain ⟨⟨f, v⟩, hx, hxr⟩ := List.exists_of_findSome?_eq_some hf
      simp only [Option.ite_none_right_eq_some, Option.some.injEq] at hxr
      exact .inr (.inl ⟨dir, _, hd d rfl, _, hx, congrArg _ hxr.2.symm⟩)
    · obtain ⟨u, w₁, h₁, k₁⟩ := exec_bind_eq_ok h
      obtain ⟨hu, r', rfl⟩ := ObjectRef.setNewId_ok h₁
      obtain ⟨c, w₂, h₂, k₂⟩ := exec_bind_eq_ok k₁
      rw [ObjectRef.cas, exec_bind, exec_cas] at h₂
      split_ifs at h₂ with hst
      · cases h₂; cases k₂
        refine .inr (.inl ⟨dir, _, Store.put_self .., (facet, r), ?_, rfl⟩)
        exact List.mem_append_right _ (List.mem_singleton.2 rfl)
      · cases h₂
        exact ih (fun d' hd' => decode_eq_some hd') k₂

omit [LabelCrate] in
theorem open_known {dir : Uid} {facet : Buckle} {r : Uid} {w' : World}
    (h : exec (FacetedDirectory.open' rounds dir facet) w = (.ok r, w')) :
    w'.Known (.directory r) :=
  openLoop_known rounds (fun _ hd => decode_eq_some hd) h

theorem obeys_openEntry (fd : ℕ) (entry : Pb.OpenEntry) :
    Obeys (syscallPolicy w₀ sc) w (openEntry rounds fd entry) := by
  refine .dent_bind ?_
  split
  · refine .bind (.bind (obeys_read _) fun _ _ _ => .pure _) fun entries w' hx => ?_
    obtain ⟨d, w₁, h₁, h₂⟩ := exec_bind_eq_ok hx
    obtain ⟨o, ho, rfl, rfl⟩ := ObjectRef.read_ok h₁
    cases h₂
    split
    · rename_i e he
      have hk : (w.relabel (lub o.label w.currentLabel)).Known e :=
        .inr (.inl ⟨_, _, ho, _, he⟩)
      exact (obeys_newDent hk).bind fun _ _ _ => .pure _
    · exact .pure _
  · refine .unwrap_bind fun facet _ =>
      (obeys_open rounds (syscallPolicy_allowsFacet w _ facet)).bind fun dir w' hx => ?_
    exact (obeys_newDent (open_known rounds hx)).bind fun _ _ _ => .pure _
  · split
    · refine (obeys_open rounds (syscallPolicy_allowsFacet w _ _)).bind fun dir w' hx => ?_
      exact (obeys_newDent (open_known rounds hx)).bind fun _ _ _ => .pure _
    · exact .pure _
  · exact .pure _

theorem obeys_dentLink (dirFd : ℕ) (name : String) (targetFd : ℕ) :
    Obeys (syscallPolicy w₀ sc) w (dentLink rounds dirFd name targetFd) := by
  refine .dent_bind (.dent_bind ?_)
  split
  · rename_i dir target _ htarget
    refine .bind (.result (obeys_link rounds fun w' d hw hd => .plain ?_ rfl)) fun r w' _ => ?_
    · rintro e ⟨x, hx⟩
      rw [ExtTreeMap.getElem?_insert] at hx
      split_ifs at hx
      · cases hx
        exact .mono (.inl ⟨targetFd, htarget⟩) hw
      · exact .inr (.inl ⟨_, _, hd, x, hx⟩)
    · split <;> exact .pure _
  · exact .pure _

theorem obeys_dentUnlink (fd : ℕ) (name : String) :
    Obeys (syscallPolicy w₀ sc) w (dentUnlink rounds fd name) := by
  refine .dent_bind ?_
  split
  · refine .bind (.result (obeys_unlink rounds fun w' d hw hd => .plain ?_ rfl)) fun r w' _ => ?_
    · rintro e ⟨x, hx⟩
      rw [ExtTreeMap.getElem?_erase] at hx
      split_ifs at hx
      exact .inr (.inl ⟨_, _, hd, x, hx⟩)
    · split <;> exact .pure _
  · exact .pure _

theorem obeys_labelOrPublic (l : Option Pb.Buckle) : Obeys P w (labelOrPublic l) := by
  cases l with
  | none => exact .pure _
  | some l => exact .unwrap _

theorem obeys_receive (toblob : Bool) (res : TaskReturn) : Obeys P w (receive toblob res) := by
  refine (obeys_labelOrPublic res.label).bind fun l w' _ => (obeys_taintWithLabel l).bind fun _ w' _ =>
    .unwrap_bind fun payload _ => ?_
  split_ifs
  · exact (obeys_toBlob _).bind fun _ _ _ => .pure _
  · exact .pure _

/-- Resolving a gate gathers its privilege from the gates on the way. -/
theorem toInvokableLoop_ok {n : ℕ} {g : Gate} {a b c : Component} {r : DirectGate} {w' : World}
    (h : exec (Gate.toInvokableLoop n g a b c) w = (.ok r, w')) (ha : Gathered w.GatePrivilege a)
    (hg : w.GatePrivilege g.privilege) : Gathered w'.GatePrivilege r.privilege ∧ w.Grows w' := by
  induction n generalizing w g a b c with
  | zero => cases h
  | succ n ih =>
    cases g with
    | direct g => cases h; exact ⟨.and ha hg, .refl _⟩
    | redirect g =>
      obtain ⟨g', w₁, h₁, h₂⟩ := exec_bind_eq_ok h
      obtain ⟨o, ho, rfl, rfl⟩ := ObjectRef.read_ok h₁
      obtain ⟨hr, hw⟩ := ih h₂ (.and ha hg) ⟨_, o, ho, rfl⟩
      exact ⟨hr, (World.grows_relabel _ _).trans hw⟩

theorem toInvokable_ok {u : Uid} {r : DirectGate} {w' : World}
    (h : exec (Gate.toInvokable rounds u) w = (.ok r, w')) :
    Gathered w'.GatePrivilege r.privilege ∧ w.Grows w' := by
  obtain ⟨g, w₁, h₁, h₂⟩ := exec_bind_eq_ok h
  obtain ⟨o, ho, rfl, rfl⟩ := ObjectRef.read_ok h₁
  obtain ⟨hr, hw⟩ := toInvokableLoop_ok h₂ .start ⟨u, o, ho, rfl⟩
  exact ⟨hr, (w.grows_relabel _).trans hw⟩

theorem obeys_invokeGate (gate : Uid) (sync : Bool) (payload : Bytes) (toblob : Bool)
    (parameters : ExtTreeMap String String compare) :
    Obeys (syscallPolicy w₀ sc) w (invokeGate rounds gate sync payload toblob parameters) := by
  refine (obeys_toInvokable rounds gate).bind fun g w₁ hg => .getPrivilege_bind ?_
  obtain ⟨hq, -⟩ := toInvokable_ok rounds hg
  split
  · refine .bind_ok (exec_schedConn _) (.call trivial) ?_
    split
    · refine .getCurrentLabel_bind (.getPrivilege_bind (.bind (.call ⟨rfl, rfl, _, rfl, hq⟩)
        fun sent w₂ _ => ?_))
      split
      · split
        · refine .bind_ok (exec_schedRead _) (.call trivial) ?_
          split
          · exact obeys_receive _ _
          · exact .pure _
        · exact .pure _
      · exact .pure _
    · exact .raise _
  · exact .pure _

theorem obeys_httpSend {service : Service} {body : Option Bytes}
    {parameters : ExtTreeMap String String compare}
    (hP : ∀ r : HttpRequest, service.Builds w.host parameters r.url → P.sends w r) :
    Obeys P w (httpSend service body parameters) := by
  refine .bind_ok (exec_host w) (.call trivial) ?_
  split
  · exact .pure _
  · rename_i url hurl
    split_ifs with hheaders hvalid
    · exact .call (hP _ ⟨hurl, hheaders, hvalid⟩)
    · exact .pure _
    · exact .raise _

theorem obeys_invokeService {fd : ℕ} {u : Uid} {sync : Bool} {payload : Bytes} {toblob : Bool}
    {parameters : ExtTreeMap String String compare}
    (hsc : sc = .dentInvoke fd sync payload toblob parameters)
    (hu : w.dents fd = some (.service u)) :
    Obeys (syscallPolicy w sc) w (invokeService u payload toblob parameters) := by
  refine (obeys_read u).bind fun s w₁ hs => .getPrivilege_bind ?_
  obtain ⟨o, ho, rfl, rfl⟩ := ObjectRef.read_ok hs
  have hinv : sc.Invokes w o := ⟨fd, sync, payload, toblob, parameters, u, hsc, hu, ho⟩
  split
  · rename_i hc
    have hlower : ∀ l, (syscallPolicy w sc).lowers l (downgrade l o.data.privilege) :=
      fun l => ⟨_, .service hinv hc, rfl⟩
    refine .bind_ok (exec_declassifyWith ..) (obeys_declassifyWith hlower) ?_
    have hsend : ∀ r : HttpRequest, o.data.Builds w.host parameters r.url →
        (syscallPolicy w sc).sends ((w.relabel (lub o.label w.currentLabel)).relabel
          (downgrade (lub o.label w.currentLabel) o.data.privilege)) r :=
      fun r hr => ⟨o, ⟨fd, sync, payload, toblob, parameters, u, hsc, hu, ho, hc, hr⟩, rfl⟩
    refine (obeys_httpSend hsend).bind fun r w₃ _ =>
      (obeys_taintWithLabel _).bind fun _ w₄ _ => ?_
    split
    · split
      · exact .unwrap_bind fun _ _ => (obeys_toBlob _).bind fun _ _ _ => .pure _
      · exact .pure _
    · exact .pure _
  · exact .pure _

theorem obeys_orFailure {m : M Pb.Reply} (hm : Obeys P w m) : Obeys P w (orFailure m) := by
  refine hm.result.bind fun r w' _ => ?_
  split <;> exact .pure _

theorem obeys_dentListFaceted (fd : ℕ) (clearance : Buckle) :
    Obeys P w (dentListFaceted fd clearance) := by
  refine .dent_bind ?_
  split
  · refine .bind (.bind (.withCurrentLabel fun b l h => ?_) fun _ _ _ =>
      .get_bind (.unwrap_bind fun _ _ => .pure _)) fun _ _ _ => .pure _
    cases h; exact .taintRight _
  · exact .pure _

theorem obeys_dentGetBlob (fd : ℕ) : Obeys P w (dentGetBlob fd) := by
  refine .dent_bind ?_
  split
  · refine (obeys_read _).bind fun name _ _ => (obeys_openExpect name).bind fun blob _ _ =>
      obeys_newBlobId.bind fun _ _ _ => .bind (.nextIo_bind ?_) fun _ _ _ =>
      .bind (obeys_amend_tables rfl rfl fun _ _ h => h) fun _ _ _ => .pure _
    split
    · exact .raise _
    · exact .pure _
  · exact .pure _

theorem obeys_blobCreate : Obeys P w blobCreate := by
  refine obeys_create.bind fun r _ _ => ?_
  split
  · exact obeys_newBlobId.bind fun _ _ _ =>
      .bind (obeys_amend_tables rfl rfl fun _ _ h => h) fun _ _ _ => .pure _
  · exact .pure _

theorem obeys_blobWrite (fd : ℕ) (data : Bytes) : Obeys P w (blobWrite fd data) := by
  refine .inspect_bind ?_
  split
  · refine (obeys_newBlob_write _ _).bind fun r _ _ => ?_
    split
    · exact .bind (obeys_amend_tables rfl rfl fun _ _ h => h) fun _ _ _ => .pure _
    · exact .pure _
  · exact .pure _

theorem obeys_blobFinalize (fd : ℕ) : Obeys P w (blobFinalize fd) := by
  refine .inspect_bind ?_
  split
  · refine .bind (obeys_amend_tables rfl rfl fun _ _ h => h) fun _ _ _ =>
      (obeys_save _).bind fun r _ _ => ?_
    split
    · exact .bind (obeys_amend_tables rfl rfl fun _ _ h => h) fun _ _ _ => .pure _
    · exact .pure _
  · exact .pure _

theorem obeys_blobRead (fd offset length : ℕ) : Obeys P w (blobRead fd offset length) := by
  refine .inspect_bind ?_
  split
  · split_ifs
    · refine .bind (.nextIo_bind ?_) fun r _ _ => ?_
      · split <;> exact .pure _
      · split <;> exact .pure _
    · exact .raise _
  · exact .pure _

theorem obeys_blobClose (fd : ℕ) : Obeys P w (blobClose fd) := by
  refine .inspect_bind ?_
  split
  · exact .bind (obeys_amend_tables rfl rfl fun _ _ h => h) fun _ _ _ => .pure _
  · exact .pure _

theorem obeys_dentClose (fd : ℕ) : Obeys P w (dentClose fd) := by
  refine .bind (obeys_amend_tables rfl rfl fun fd' e h => ?_) fun _ _ _ => .pure _
  rw [Thread.closeDent_dents] at h
  by_cases hfd : fd' = fd
  · rw [hfd, Function.update_self] at h; cases h
  · rwa [Function.update_of_ne hfd] at h

theorem obeys_declassify (c : Component) : Obeys P w (declassify c) := by
  refine .getPrivilege_bind (.withCurrentLabel fun b l h => ?_)
  have hl : l = w.currentLabel := by
    by_cases hc : implies (LabelCrate.and c w.privilege) w.currentLabel.secrecy <;>
      simp_all [Access.run, Access.clone, Access.borrow, Access.release, StateT.run, bind,
        StateT.bind, pure, StateT.pure]
  exact hl ▸ .keep

theorem obeys_serve (sc : Pb.Syscall) : Obeys (syscallPolicy w sc) w (serve rounds sc) := by
  cases sc with
  | response r => exact .raise _
  | buckleParse s => exact .pure _
  | getCurrentLabel => exact .getCurrentLabel_bind (.pure _)
  | taintWithLabel l =>
    refine .unwrap_bind fun l _ => .bind (.withCurrentLabel fun b l h => ?_) fun _ _ _ => .pure _
    cases h
  | declassify c =>
    refine .unwrap_bind fun c _ => (obeys_declassify c).bind fun r _ _ => ?_
    split <;> exact .pure _
  | subPrivilege s => exact .raise _
  | root => exact .pure _
  | dentOpen fd entry =>
    refine .unwrap_bind fun entry _ => (obeys_openEntry rounds fd entry).bind fun r _ _ => ?_
    split <;> exact .pure _
  | dentClose fd => exact obeys_dentClose fd
  | dentCreate label kind =>
    refine .bind (P := syscallPolicy w _) ?_ fun l w' hx => ?_
    · cases label with
      | none => exact .pure _
      | some l => exact .unwrap_bind fun _ _ => .pure _
    · cases kind with
      | none => exact .pure _
      | some kind =>
        refine obeys_orFailure (.bind (obeys_createEntry rounds rfl) fun e w' hx => ?_)
        have hk : w'.Known e := .inr (.inr (createEntry_refers rounds hx))
        exact (obeys_newDent hk).bind fun _ _ _ => .pure _
  | dentUpdate fd kind =>
    cases kind with
    | none => exact .pure _
    | some kind => exact obeys_orFailure (.bind (obeys_updateEntry rfl) fun _ _ _ => .pure _)
  | dentRead fd =>
    refine .dent_bind ?_
    split
    · exact (obeys_read _).bind fun _ _ _ => .pure _
    · exact .pure _
  | dentList fd =>
    refine .dent_bind ?_
    split
    · exact .bind (.bind (obeys_read _) fun _ _ _ => .pure _) fun _ _ _ => .pure _
    · exact .pure _
  | dentLsFaceted fd clearance =>
    exact (obeys_labelOrPublic _).bind fun _ _ _ => obeys_dentListFaceted fd _
  | dentLink dirFd name targetFd => exact obeys_dentLink rounds dirFd name targetFd
  | dentUnlink fd name => exact obeys_dentUnlink rounds fd name
  | dentInvoke fd sync payload toblob parameters =>
    refine .dent_bind ?_
    split
    · exact (obeys_invokeGate rounds _ _ _ _ _).bind fun _ _ _ => .pure _
    · rename_i hu
      exact (obeys_invokeService rfl hu).bind fun _ _ _ => .pure _
    · exact .pure _
  | dentLsGate fd =>
    refine .dent_bind ?_
    split
    · exact (obeys_read _).bind fun g _ _ => (obeys_showGate g).bind fun _ _ _ => .pure _
    · exact .pure _
  | dentGetBlob fd => exact obeys_dentGetBlob fd
  | blobCreate size => exact obeys_blobCreate
  | blobWrite fd data => exact obeys_blobWrite fd data
  | blobFinalize fd => exact obeys_blobFinalize fd
  | blobRead fd offset length => exact obeys_blobRead fd _ _
  | blobClose fd => exact obeys_blobClose fd

/-- **One syscall, walked through**: every operation it performs is permitted. -/
theorem obeys_doSyscall (sc : Pb.Syscall) :
    Obeys (syscallPolicy w sc) w (doSyscall rounds sc) := by
  unfold doSyscall
  split
  · exact .bind (.getPrivilege_bind (.bind (obeys_declassifyWith fun l =>
      ⟨_, .response rfl, rfl⟩) fun _ _ _ => .pure _)) fun _ _ _ => .pure _
  · exact (obeys_serve rounds _).bind fun _ _ _ => .pure _

end Server

end Faasten
