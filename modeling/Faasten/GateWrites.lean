import Mathlib
import Faasten.Resolution
import Faasten.System

/-!
# What is written to a gate

`dent_create` stores the gate that its message describes; `dent_update` merges its message into the gate
that is stored. Both check that the writer holds the privilege that the gate then grants. That the writer
also holds what the gate may declassify is checked by the first one only, and the second one leaves the
message's `declassify` aside.

* `createEntry_gate_ok`, `updateGate_ok`: what a successful creation or update stores, and what the writer
  holds of it;
* `held_iff`: the writer holds all that the gate grants, if and only if it held what the gate could
  declassify before;
* `Pb.GateKind.over` is the merge that the message asks for, field by field;
* `exec_updateGate_direct`, `exec_updateGate_redirect`: the merge that is made;
* `update_exact_iff`: the two are the same if and only if the message does not change `declassify`, and
  names the target of a redirect.
-/

namespace Faasten

open Std Effect SyscallProcessor

variable [LabelCrate] {w w' : World} {rounds : ℕ}

/-! ### What the writer holds -/

theorem checkDelegate_ok {q : Component} (h : exec (checkDelegate q) w = (.ok (), w')) :
    implies w.privilege q ∧ w' = w := by
  rw [exec_checkDelegate] at h
  split_ifs at h with hq
  · cases h; exact ⟨hq, rfl⟩
  · cases h

theorem checkCreate_ok {l : Buckle} (h : exec (FS.checkCreate l) w = (.ok (), w')) :
    canFlowToWithPrivilege w.currentLabel l w.privilege ∧ w' = w := by
  rw [FS.exec_checkCreate] at h
  split_ifs at h with hl
  · cases h; exact ⟨hl, rfl⟩
  · cases h

/-- The body of `create_direct_gate` and of `create_redirect_gate`. -/
theorem createGate_ok {label : Buckle} {p d : Component} {g : Gate} {e : DirEntry}
    (h : exec (do
      FS.checkCreate label
      checkDelegate p
      checkDelegate d
      return DirEntry.gate (← ObjectRef.setNewId rounds (⟨label, g⟩ : Labeled Gate))) w =
        (.ok e, w')) :
    implies w.privilege p ∧ implies w.privilege d ∧
      ∃ u, e = .gate u ∧ w.store u = none ∧ w'.store u = some (.object (.gate ⟨label, g⟩)) := by
  obtain ⟨_, w₁, h₁, k₁⟩ := exec_bind_eq_ok h
  obtain ⟨_, w₂, h₂, k₂⟩ := exec_bind_eq_ok k₁
  obtain ⟨_, w₃, h₃, k₃⟩ := exec_bind_eq_ok k₂
  obtain ⟨u, w₄, h₄, k₄⟩ := exec_bind_eq_ok k₃
  obtain ⟨-, rfl⟩ := checkCreate_ok h₁
  obtain ⟨hp, rfl⟩ := checkDelegate_ok h₂
  obtain ⟨hd, rfl⟩ := checkDelegate_ok h₃
  obtain ⟨hu, r, rfl⟩ := ObjectRef.setNewId_ok h₄
  cases k₄
  exact ⟨hp, hd, u, rfl, hu, Store.put_self ..⟩

/-- A gate that was created grants and may declassify only what its creator holds. -/
theorem createEntry_gate_ok {kind : Option Pb.GateKind} {label : Buckle} {e : DirEntry}
    (h : exec (createEntry rounds (.gate kind) label) w = (.ok e, w')) :
    ∃ u g, e = .gate u ∧ (∀ o, w.store u ≠ some (.object o)) ∧
      w'.store u = some (.object (.gate ⟨label, g⟩)) ∧
      implies w.privilege g.privilege ∧ implies w.privilege g.declassify := by
  rcases kind with _ | (dg | rd)
  · cases h
  · obtain ⟨g, w₁, h₁, k⟩ := exec_bind_eq_ok h
    obtain ⟨-, hw⟩ := directGateOf_ok h₁
    obtain ⟨hp, hd, u, rfl, hu, hs⟩ := createGate_ok k
    rw [hw.privilege] at hp hd
    refine ⟨u, .direct g, rfl, fun o ho => ?_, hs, hp, hd⟩
    simp [hw.store u o ho] at hu
  · obtain ⟨t, w₁, h₁, k⟩ := exec_bind_eq_ok h
    cases h₁
    split at k
    · obtain ⟨g, w₂, h₂, k'⟩ := exec_bind_eq_ok k
      obtain ⟨-, -, rfl⟩ := redirectGateOf_ok h₂
      obtain ⟨hp, hd, u, rfl, hu, hs⟩ := createGate_ok k'
      exact ⟨u, .redirect g, rfl, fun o ho => by simp [ho] at hu, hs, hp, hd⟩
    · cases k

theorem replace_ok {u : Uid} {g : Gate} (h : exec (Gate.replace u g) w = (.ok (), w')) :
    implies w.privilege g.privilege ∧ ∃ o : Labeled Gate, w.store u = some (.object (.gate o)) ∧
      w'.store u = some (.object (.gate { o with data := g })) := by
  obtain ⟨_, w₁, h₁, k⟩ := exec_bind_eq_ok h
  obtain ⟨hp, rfl⟩ := checkDelegate_ok h₁
  obtain ⟨o, ho, -, rfl⟩ := ObjectRef.overwrite_ok k
  exact ⟨hp, o, ho, Store.put_self ..⟩

/-- An update stores a gate that grants only what its writer holds, and may declassify what the old one
could. -/
theorem updateGate_ok {u : Uid} {kind : Pb.GateKind} (h : exec (updateGate u kind) w = (.ok (), w')) :
    ∃ l g g', w.store u = some (.object (.gate ⟨l, g⟩)) ∧ w'.store u = some (.object (.gate ⟨l, g'⟩)) ∧
      implies w.privilege g'.privilege ∧ g'.declassify = g.declassify := by
  cases kind with
  | direct dg =>
    obtain ⟨r, w₁, h₁, k⟩ := exec_bind_eq_ok h
    split at k
    · rename_i gate
      obtain ⟨l, hl, rfl⟩ := readGate_ok h₁
      obtain ⟨f, w₂, h₂, k₂⟩ := exec_bind_eq_ok k
      obtain ⟨p, w₃, h₃, k₃⟩ := exec_bind_eq_ok k₂
      obtain ⟨c, w₄, h₄, k₄⟩ := exec_bind_eq_ok k₃
      have hw := updateFunction_grows h₂
      obtain ⟨-, rfl⟩ := updateComponent_ok h₃
      obtain ⟨-, rfl⟩ := updateComponent_ok h₄
      obtain ⟨hp, o, ho, hs⟩ := replace_ok k₄
      rw [hw.privilege] at hp
      cases ho.symm.trans (hw.store u _ hl)
      exact ⟨l, _, _, hl, hs, hp, rfl⟩
    · cases k
  | redirect rd =>
    obtain ⟨r, w₁, h₁, k⟩ := exec_bind_eq_ok h
    split at k
    · rename_i gate
      obtain ⟨l, hl, rfl⟩ := readGate_ok h₁
      obtain ⟨t, w₂, h₂, k₂⟩ := exec_bind_eq_ok k
      cases h₂
      split at k₂
      · obtain ⟨p, w₃, h₃, k₃⟩ := exec_bind_eq_ok k₂
        obtain ⟨c, w₄, h₄, k₄⟩ := exec_bind_eq_ok k₃
        obtain ⟨-, rfl⟩ := updateComponent_ok h₃
        obtain ⟨-, rfl⟩ := updateComponent_ok h₄
        obtain ⟨hp, o, ho, hs⟩ := replace_ok k₄
        cases ho.symm.trans hl
        exact ⟨l, _, _, hl, hs, hp, rfl⟩
      · cases k₂
    · cases k

/-- The gate arm of `dent_update`. -/
theorem exec_updateEntry_gate {fd : ℕ} {u : Uid} (hu : w.dents fd = some (.gate u))
    (kind : Option Pb.GateKind) :
    exec (updateEntry fd (.gate kind)) w =
      exec (kind.elim (throwFs .notAGate) (updateGate u)) w := by
  unfold updateEntry
  rw [exec_bind_ok (exec_dent fd w), hu]
  cases kind <;> rfl

/-- `u` is the gate that a syscall with this reply created or updated. -/
inductive Wrote (w w' : World) : Pb.Syscall → Pb.Reply → Uid → Prop
  | create {label : Option Pb.Buckle} {kind : Option Pb.GateKind} {fd : ℕ} {data : Option Bytes}
      {u : Uid} (h : w'.dents fd = some (.gate u)) :
      Wrote w w' (.dentCreate label (some (.gate kind))) (.dentResult true (some fd) data) u
  | update {fd : ℕ} {kind : Option Pb.GateKind} {fd' : Option ℕ} {data : Option Bytes} {u : Uid}
      (h : w.dents fd = some (.gate u)) :
      Wrote w w' (.dentUpdate fd (some (.gate kind))) (.dentResult true fd' data) u

/-- A gate is stored under `u`, and `p` implies what it grants and what it may declassify. -/
def Held (p : Component) (store : Store) (u : Uid) : Prop :=
  ∃ l g, store u = some (.object (.gate ⟨l, g⟩)) ∧ implies p g.privilege ∧ implies p g.declassify

omit [LabelCrate] in
theorem orFailure_ok {m : M Pb.Reply} {fd : Option ℕ} {data : Option Bytes}
    (h : exec (orFailure m) w = (.ok (.dentResult true fd data), w')) :
    exec m w = (.ok (.dentResult true fd data), w') := by
  obtain ⟨r, w₁, h₁, k⟩ := exec_bind_eq_ok h
  cases r with
  | ok reply => cases k; exact result_ok h₁
  | error e => cases k

/-- **The writer of a gate holds all that the gate then grants if and only if it held what the gate could
declassify before.** A gate that was created is new, so its creator always does. -/
theorem held_iff {sc : Pb.Syscall} {reply : Pb.Reply} {u : Uid}
    (h : exec (doSyscall rounds sc) w = (.ok (.sent reply), w')) (hu : Wrote w w' sc reply u) :
    Held w.privilege w'.store u ↔
      ∀ l g, w.store u = some (.object (.gate ⟨l, g⟩)) → implies w.privilege g.declassify := by
  cases hu with
  | @create label kind fd data _ hu =>
    obtain ⟨_, w₁, h₁, k₁⟩ := exec_bind_eq_ok h
    cases k₁
    obtain ⟨l, w₂, h₂, k₂⟩ := exec_bind_eq_ok h₁
    have hw : w₂ = w := by
      cases label with
      | none => cases h₂; rfl
      | some l =>
        obtain ⟨x, w₃, h₃, k₃⟩ := exec_bind_eq_ok h₂
        cases k₃
        exact (unwrap_ok h₃).2
    subst hw
    obtain ⟨e, w₃, h₃, k₃⟩ := exec_bind_eq_ok (orFailure_ok k₂)
    obtain ⟨v, g, rfl, hv, hs, hp, hd⟩ := createEntry_gate_ok h₃
    obtain ⟨fd', w₄, h₄, k₄⟩ := exec_bind_eq_ok k₃
    rw [exec_newDent] at h₄
    cases h₄
    cases k₄
    change Function.update w₃.dents w₃.maxDentId (some (.gate v)) w₃.maxDentId = _ at hu
    rw [Function.update_self] at hu
    cases hu
    exact iff_of_true ⟨_, g, hs, hp, hd⟩ fun l g' hg' => absurd hg' (hv _)
  | @update fd kind fd' data _ hu =>
    obtain ⟨_, w₁, h₁, k₁⟩ := exec_bind_eq_ok h
    cases k₁
    obtain ⟨_, w₂, h₂, k₂⟩ := exec_bind_eq_ok (orFailure_ok h₁)
    cases k₂
    rw [exec_updateEntry_gate hu] at h₂
    cases kind with
    | none => cases h₂
    | some kind =>
      obtain ⟨l, g, g', hg, hg', hp, hd⟩ := updateGate_ok h₂
      constructor
      · rintro ⟨l₁, g₁, hg₁, -, hheld⟩ l₂ g₂ hg₂
        cases hg₁.symm.trans hg'
        cases hg₂.symm.trans hg
        rwa [hd] at hheld
      · intro hall
        exact ⟨l, g', hg', hp, hd ▸ hall l g hg⟩

/-! ### The merge that a message asks for -/

/-- The blob that the descriptor is open on. -/
def blobAt (w : World) (fd : ℕ) : Option (Labeled Blob) :=
  match w.dents fd with
  | some (.blob uid) => (w.store uid).bind Stored.decode
  | _ => none

/-- A component of the merge: the message's, or where it has none the old one. -/
def overComponent (c : Option Pb.Component) (old : Component) : Option Component :=
  c.elim (some old) (·.into)

/-- An image of the merge; descriptor 0 stands for none. -/
def overImage (w : World) (fd : ℕ) (old : String) : Option String :=
  if fd = 0 then some old else (blobAt w fd).map (·.data)

/-- The label of the image that is read for it. -/
def imageLabels (w : World) (fd : ℕ) : List Buckle :=
  if fd = 0 then [] else ((blobAt w fd).map (·.label)).toList

/-- The function of the merge; memory size 0 stands for none. -/
def overFunction (w : World) : Option Pb.Function → Function → Option Function
  | none, old => some old
  | some f, old => do
      return { memory := if f.memory = 0 then old.memory else f.memory
               appImage := ← overImage w f.appImage old.appImage
               runtimeImage := ← overImage w f.runtime old.runtimeImage
               kernel := ← overImage w f.kernel old.kernel }

/-- The target of the merge; descriptor 0 stands for none. -/
def overTarget (w : World) (fd : ℕ) (old : Uid) : Option Uid :=
  if fd = 0 then some old
  else match w.dents fd with
    | some (.gate uid) => some uid
    | _ => none

/-- The gate that the message asks for in place of another one of its kind. There is none when it is of
another kind, or a descriptor it sets is not open on an object of the right kind. -/
def Pb.GateKind.over (w : World) : Pb.GateKind → Gate → Option Gate
  | .direct dg, .direct gate => do
      return .direct
        { privilege := ← overComponent dg.privilege gate.privilege
          invokerIntegrityClearance :=
            ← overComponent dg.invokerIntegrityClearance gate.invokerIntegrityClearance
          declassify := ← overComponent dg.declassify gate.declassify
          function := ← overFunction w dg.function gate.function }
  | .redirect rd, .redirect gate => do
      return .redirect
        { privilege := ← overComponent rd.privilege gate.privilege
          invokerIntegrityClearance :=
            ← overComponent rd.invokerIntegrityClearance gate.invokerIntegrityClearance
          declassify := ← overComponent rd.declassify gate.declassify
          gate := ← overTarget w rd.gate gate.gate }
  | _, _ => none

/-- The labels of the images that are read for it. -/
def functionLabels (w : World) : Option Pb.Function → List Buckle
  | none => []
  | some f => imageLabels w f.appImage ++ imageLabels w f.runtime ++ imageLabels w f.kernel

/-- The labels of the images that the message names. -/
def Pb.GateKind.labels (w : World) : Pb.GateKind → List Faasten.Buckle
  | .direct dg => functionLabels w dg.function
  | .redirect _ => []

/-! ### The merge that is made -/

omit [LabelCrate] in
/-- An image that the message names is a blob under an open descriptor. -/
theorem overImage_eq_some {fd : ℕ} {old v : String} (h : overImage w fd old = some v) :
    (fd = 0 ∧ v = old) ∨ ∃ (u : Uid) (o : Labeled Blob), 0 < fd ∧ w.dents fd = some (.blob u) ∧
      (w.store u).bind Stored.decode = some o ∧ o.data = v ∧ imageLabels w fd = [o.label] := by
  unfold overImage at h
  split_ifs at h with hfd
  · exact .inl ⟨hfd, (Option.some.inj h).symm⟩
  · obtain ⟨o, ho, rfl⟩ := Option.map_eq_some_iff.1 h
    have hlabels : imageLabels w fd = [o.label] := by simp [imageLabels, hfd, ho]
    unfold blobAt at ho
    split at ho
    · rename_i u hu
      exact .inr ⟨u, o, by omega, hu, ho, rfl, hlabels⟩
    · cases ho

theorem exec_updateImage {fd : ℕ} {old v : String} (h : overImage w fd old = some v) (l : Buckle) :
    exec (updateImage fd old) (w.relabel l) =
      (.ok v, w.relabel (taints (imageLabels w fd) l)) := by
  obtain ⟨rfl, rfl⟩ | ⟨u, o, hfd, hu, ho, rfl, hlabels⟩ := overImage_eq_some h
  · rfl
  · unfold updateImage imageOf
    rw [if_pos hfd, bind_assoc, exec_bind_ok (exec_dent fd _), World.relabel_dents, hu, hlabels]
    exact ObjectRef.exec_read ho

/-- The function of the gate after the update is that of the merge. -/
theorem exec_updateFunction {f : Option Pb.Function} {old v : Function}
    (h : overFunction w f old = some v) (l : Buckle) :
    exec (updateFunction f old) (w.relabel l) =
      (.ok v, w.relabel (taints (functionLabels w f) l)) := by
  cases f with
  | none => cases h; rfl
  | some f =>
    simp only [overFunction, Option.bind_eq_bind, Option.bind_eq_some_iff, Option.pure_def,
      Option.some.injEq] at h
    obtain ⟨app, happ, run, hrun, ker, hker, rfl⟩ := h
    simp only [updateFunction, functionLabels, taints_append]
    rw [exec_bind_ok (exec_updateImage happ _), exec_bind_ok (exec_updateImage hrun _),
      exec_bind_ok (exec_updateImage hker _)]
    rcases Nat.eq_zero_or_pos f.memory with hm | hm
    · simp [hm]
    · simp [hm, Nat.pos_iff_ne_zero.1 hm]

omit [LabelCrate] in
theorem exec_updateComponent {c : Option Pb.Component} {old v : Component}
    (h : overComponent c old = some v) : exec (updateComponent c old) w = (.ok v, w) := by
  cases c with
  | none => cases h; rfl
  | some c =>
    change c.into = some v at h
    simp only [updateComponent, h, exec_unwrap_some]

theorem exec_readGate {u : Uid} {l : Buckle} {g : Gate}
    (h : w.store u = some (.object (.gate ⟨l, g⟩))) :
    exec (readGate u) w = (.ok (some g), w.relabel (lub l w.currentLabel)) := by
  unfold readGate
  rw [exec_bind_ok (ObjectRef.exec_get u w), h]
  rfl

theorem exec_replace {u : Uid} {l : Buckle} {g g' : Gate}
    (h : w.store u = some (.object (.gate ⟨l, g⟩))) (hp : implies w.privilege g'.privilege)
    (hl : canFlowToWithPrivilege w.currentLabel l w.privilege) :
    exec (Gate.replace u g') w = (.ok (), { w with store := w.store.put u (.object (.gate ⟨l, g'⟩)) }) := by
  have ho : (w.store u).bind Stored.decode = some (⟨l, g⟩ : Labeled Gate) := by rw [h]; rfl
  have hcheck : exec (checkDelegate g'.privilege) w = (.ok (), w) := by
    rw [exec_checkDelegate, if_pos hp]
  unfold Gate.replace
  rw [exec_bind_ok hcheck, ObjectRef.exec_overwrite ho, if_pos hl]
  rfl

/-- The update of a direct gate stores the merge, but for what the gate may declassify. -/
theorem exec_updateGate_direct {u : Uid} {l : Buckle} {dg : Pb.DirectGate} {g : DirectGate} {new : Gate}
    (hu : w.store u = some (.object (.gate ⟨l, .direct g⟩)))
    (hnew : (Pb.GateKind.direct dg).over w (.direct g) = some new)
    (hp : implies w.privilege new.privilege)
    (hl : canFlowToWithPrivilege (taints (l :: (Pb.GateKind.direct dg).labels w) w.currentLabel) l
      w.privilege) :
    ∃ d, new = .direct d ∧ overComponent dg.declassify g.declassify = some d.declassify ∧
      exec (updateGate u (.direct dg)) w =
        (.ok (), { w.relabel (taints (l :: (Pb.GateKind.direct dg).labels w) w.currentLabel) with
          store := w.store.put u
            (.object (.gate ⟨l, .direct { d with declassify := g.declassify }⟩)) }) := by
  simp only [Pb.GateKind.over, Option.bind_eq_bind, Option.bind_eq_some_iff, Option.pure_def,
    Option.some.injEq] at hnew
  obtain ⟨p, hpriv, c, hclear, d, hdecl, f, hfun, rfl⟩ := hnew
  refine ⟨_, rfl, hdecl, ?_⟩
  unfold updateGate
  rw [exec_bind_ok (exec_readGate hu)]
  dsimp only
  rw [exec_bind_ok (exec_updateFunction hfun _), exec_bind_ok (exec_updateComponent hpriv),
    exec_bind_ok (exec_updateComponent hclear)]
  exact exec_replace hu hp hl

/-- The update of a redirect gate needs a descriptor of the target. -/
theorem exec_updateGate_redirect {u : Uid} {l : Buckle} {rd : Pb.RedirectGate} {g : RedirectGate}
    {new : Gate} (hu : w.store u = some (.object (.gate ⟨l, .redirect g⟩)))
    (hnew : (Pb.GateKind.redirect rd).over w (.redirect g) = some new)
    (hp : implies w.privilege new.privilege)
    (hl : canFlowToWithPrivilege (lub l w.currentLabel) l w.privilege) :
    ∃ r, new = .redirect r ∧ overComponent rd.declassify g.declassify = some r.declassify ∧
      overTarget w rd.gate g.gate = some r.gate ∧
      (∀ t, w.dents rd.gate = some (.gate t) → exec (updateGate u (.redirect rd)) w =
        (.ok (), { w.relabel (lub l w.currentLabel) with
          store := w.store.put u
            (.object (.gate ⟨l, .redirect { r with declassify := g.declassify, gate := t }⟩)) })) ∧
      ((∀ t, w.dents rd.gate ≠ some (.gate t)) → exec (updateGate u (.redirect rd)) w =
        (.error (.err .notAGate), w.relabel (lub l w.currentLabel))) := by
  simp only [Pb.GateKind.over, Option.bind_eq_bind, Option.bind_eq_some_iff, Option.pure_def,
    Option.some.injEq] at hnew
  obtain ⟨p, hpriv, c, hclear, d, hdecl, t', htarget, rfl⟩ := hnew
  refine ⟨_, rfl, hdecl, htarget, fun t ht => ?_, fun hnone => ?_⟩
  · unfold updateGate
    rw [exec_bind_ok (exec_readGate hu)]
    dsimp only
    rw [exec_bind_ok (exec_dent _ _), World.relabel_dents, ht]
    dsimp only
    rw [exec_bind_ok (exec_updateComponent hpriv), exec_bind_ok (exec_updateComponent hclear)]
    exact exec_replace hu hp hl
  · unfold updateGate
    rw [exec_bind_ok (exec_readGate hu)]
    dsimp only
    rw [exec_bind_ok (exec_dent _ _), World.relabel_dents]
    split
    · rename_i t ht
      exact absurd ht (hnone t)
    · rfl

/-- The reply to an update of a gate, from what became of the update. -/
theorem exec_dentUpdate_gate {fd : ℕ} {u : Uid} {kind : Pb.GateKind}
    (hu : w.dents fd = some (.gate u)) :
    (exec (updateGate u kind) w = (.ok (), w') →
      exec (doSyscall rounds (.dentUpdate fd (some (.gate (some kind))))) w =
        (.ok (.sent (.dentResult true none none)), w')) ∧
    ∀ e, exec (updateGate u kind) w = (.error (.err e), w') →
      exec (doSyscall rounds (.dentUpdate fd (some (.gate (some kind))))) w =
        (.ok (.sent (.dentResult false none none)), w') := by
  have hreply : ∀ reply, exec (orFailure (dentUpdate fd (.gate (some kind)))) w = (.ok reply, w') →
      exec (doSyscall rounds (.dentUpdate fd (some (.gate (some kind))))) w = (.ok (.sent reply), w') :=
    fun reply h => exec_bind_ok h
  refine ⟨fun h => hreply _ ?_, fun e h => hreply _ ?_⟩
  · have hentry : exec (updateEntry fd (.gate (some kind))) w = (.ok (), w') :=
      (exec_updateEntry_gate hu _).trans h
    have hdent : exec (dentUpdate fd (.gate (some kind))) w = (.ok (.dentResult true none none), w') :=
      exec_bind_ok hentry
    have hresult : exec (Faasten.result (dentUpdate fd (.gate (some kind)))) w =
        (.ok (.ok (.dentResult true none none)), w') := by rw [exec_result, hdent]; rfl
    unfold orFailure
    rw [exec_bind_ok hresult]
    rfl
  · have hentry : exec (updateEntry fd (.gate (some kind))) w = (.error (.err e), w') :=
      (exec_updateEntry_gate hu _).trans h
    have hdent : exec (dentUpdate fd (.gate (some kind))) w = (.error (.err e), w') :=
      exec_bind_error hentry
    have hresult : exec (Faasten.result (dentUpdate fd (.gate (some kind)))) w =
        (.ok (.error e), w') := by rw [exec_result, hdent]; rfl
    unfold orFailure
    rw [exec_bind_ok hresult]
    rfl

/-- The declassification a gate message asks for. -/
def Pb.GateKind.declassify : Pb.GateKind → Option Pb.Component
  | .direct dg => dg.declassify
  | .redirect rd => rd.declassify

/-- The message leaves what the gate may declassify as it is, and it names the target of a redirect; a
message that names none stands for the gate under descriptor 0. -/
def Pb.GateKind.Heeded (w : World) (kind : Pb.GateKind) (gate : Gate) : Prop :=
  overComponent kind.declassify gate.declassify = some gate.declassify ∧
    ∀ rd g, kind = .redirect rd → gate = .redirect g → rd.gate = 0 → w.dents 0 = some (.gate g.gate)

omit [LabelCrate] in
theorem put_gate_inj {s : Store} {u : Uid} {l : Buckle} {g g' : Gate} :
    s.put u (.object (.gate ⟨l, g⟩)) = s.put u (.object (.gate ⟨l, g'⟩)) ↔ g = g' := by
  refine ⟨fun h => ?_, fun h => by rw [h]⟩
  have hu := congrFun h u
  simpa using hu

/-- **An update of a gate is the partial update that its message asks for if and only if the message does
not change what the gate may declassify, and names the target of a redirect.** The thread may write the
gate, with all that it reads for the update, and holds the privilege that the gate then grants. -/
theorem update_exact_iff {fd : ℕ} {u : Uid} {l : Buckle} {g new : Gate} {kind : Pb.GateKind}
    (hfd : w.dents fd = some (.gate u)) (hu : w.store u = some (.object (.gate ⟨l, g⟩)))
    (hnew : kind.over w g = some new)
    (hl : canFlowToWithPrivilege (taints (l :: kind.labels w) w.currentLabel) l w.privilege)
    (hp : implies w.privilege new.privilege) :
    (∃ w', exec (doSyscall rounds (.dentUpdate fd (some (.gate (some kind))))) w =
        (.ok (.sent (.dentResult true none none)), w') ∧
      w'.store = w.store.put u (.object (.gate ⟨l, new⟩))) ↔ kind.Heeded w g := by
  rcases kind with dg | rd <;> rcases g with g | g
  · obtain ⟨d, rfl, hdecl, hexec⟩ := exec_updateGate_direct hu hnew hp hl
    have hheeded : (Pb.GateKind.direct dg).Heeded w (.direct g) ↔ d.declassify = g.declassify := by
      change (overComponent dg.declassify g.declassify = some g.declassify ∧ _) ↔ _
      rw [hdecl, Option.some.injEq]
      exact and_iff_left nofun
    rw [(exec_dentUpdate_gate hfd).1 hexec, hheeded]
    constructor
    · rintro ⟨w', h, hstore⟩
      cases h
      have hgate := put_gate_inj.1 hstore
      injection hgate with hgate
      exact (congrArg DirectGate.declassify hgate).symm
    · intro h
      refine ⟨_, rfl, put_gate_inj.2 ?_⟩
      rw [← h]
  · cases hnew
  · cases hnew
  · obtain ⟨r, rfl, hdecl, htarget, hsome, hnone⟩ := exec_updateGate_redirect hu hnew hp hl
    have hheeded : (Pb.GateKind.redirect rd).Heeded w (.redirect g) ↔
        r.declassify = g.declassify ∧ (rd.gate = 0 → w.dents 0 = some (.gate g.gate)) := by
      change (overComponent rd.declassify g.declassify = some g.declassify ∧ _) ↔ _
      rw [hdecl, Option.some.injEq]
      refine and_congr_right fun _ => ⟨fun h => h rd g rfl rfl, ?_⟩
      rintro h _ _ ⟨⟩ ⟨⟩
      exact h
    rw [hheeded]
    by_cases ht : ∃ t, w.dents rd.gate = some (.gate t)
    · obtain ⟨t, ht⟩ := ht
      rw [(exec_dentUpdate_gate hfd).1 (hsome t ht)]
      -- the target is that of the merge, unless none was asked for
      have hsame : (rd.gate = 0 → w.dents 0 = some (.gate g.gate)) ↔ t = r.gate := by
        unfold overTarget at htarget
        by_cases h0 : rd.gate = 0
        · rw [if_pos h0, Option.some.injEq] at htarget
          rw [h0] at ht
          simp [h0, ht, htarget]
        · rw [if_neg h0, ht, Option.some.injEq] at htarget
          simp [h0, htarget]
      rw [hsame]
      constructor
      · rintro ⟨w', h, hstore⟩
        cases h
        have hgate := put_gate_inj.1 hstore
        injection hgate with hgate
        exact ⟨(congrArg RedirectGate.declassify hgate).symm, congrArg RedirectGate.gate hgate⟩
      · rintro ⟨hd, rfl⟩
        refine ⟨_, rfl, put_gate_inj.2 ?_⟩
        rw [← hd]
    · push Not at ht
      rw [(exec_dentUpdate_gate hfd).2 _ (hnone ht)]
      refine iff_of_false (fun ⟨w', h, _⟩ => by cases h) ?_
      rintro ⟨-, h0⟩
      by_cases h : rd.gate = 0
      · exact ht g.gate (h ▸ h0 h)
      · -- a descriptor that was asked for is open on a gate
        unfold overTarget at htarget
        rw [if_neg h] at htarget
        split at htarget
        · rename_i t hgate
          exact ht t hgate
        · cases htarget

end Faasten

/-! ### A gate with two writers -/

namespace Faasten.TwoWriters

open SyscallProcessor
open scoped Dc

/-- What only the first writer holds. -/
def carol : Component := .single ["carol"]

/-- The component that anyone holds, on the wire. -/
def anyone : Option Pb.Component := some (.ofComponent .dcTrue)

/-- An initialized file system; the first thread holds every privilege, the others hold none. -/
def system : Sys where
  world := (exec FS.initializeRoot (.quiet (.idle publicLabel) .empty)).2
  threads i := (exec (new publicLabel (if i = 0 then .dcFalse else .dcTrue))
    (.quiet (.idle publicLabel) .empty)).2.toThread

/-- The first thread makes a public gate that may declassify what only `carol` implies, a redirect to it,
and links the gate. -/
def creation : List Pb.Syscall :=
  [.blobCreate none, .blobFinalize 1, .dentCreate none (some (.blob 1)),
    .dentCreate none (some (.gate (some (.direct
      ⟨anyone, anyone, some ⟨1, 1, 1, 1⟩, some (.ofComponent carol)⟩)))),
    .dentCreate none (some (.gate (some (.redirect ⟨anyone, anyone, 2, anyone⟩)))),
    .dentLink 0 "gate" 2]

/-- The second thread opens the gate. -/
def opened : Sys := (system.serving 0 1 creation).serving 1 1 [.dentOpen 0 (some (.name "gate"))]

theorem opened_run : Sys.Run (fun _ _ _ => True) system opened :=
  (Sys.Run.start.serving fun _ _ _ => trivial).serving fun _ _ _ => trivial

/-- A message that sets the memory size of a direct gate. -/
def resize : Pb.GateKind := .direct ⟨none, none, some ⟨2, 0, 0, 0⟩, none⟩

/-- The gate as it was made. -/
theorem gate_stored : (opened.view 0).store 101 = some (.object (.gate ⟨publicLabel, .direct
    { privilege := .dcTrue, invokerIntegrityClearance := .dcTrue, declassify := carol
      function := { memory := 1, appImage := "", runtimeImage := "", kernel := "" } }⟩)) := by
  decide +kernel

/-- The gate with that memory size. -/
def resized : Gate := .direct
  { privilege := .dcTrue, invokerIntegrityClearance := .dcTrue, declassify := carol
    function := { memory := 2, appImage := "", runtimeImage := "", kernel := "" } }

/-- The first thread holds all that the gate grants after its own update of it. -/
theorem owner_holds :
    Held .dcFalse (exec (doSyscall 1 (.dentUpdate 2 (some (.gate (some resize))))) (opened.view 0)).2.store
      101 := by
  have hfd : (opened.view 0).dents 2 = some (.gate 101) := by decide +kernel
  have h : exec (doSyscall 1 (.dentUpdate 2 (some (.gate (some resize))))) (opened.view 0) =
      (.ok (.sent (.dentResult true none none)), _) := rfl
  refine (held_iff h (.update hfd)).2 ?_
  intro l g hg
  cases gate_stored.symm.trans hg
  rfl

/-- The second thread makes the same update, and does not hold what the gate may declassify. -/
theorem update_not_held :
    Sys.Run (fun _ _ _ => True) system opened ∧ ∃ w',
      exec (doSyscall 1 (.dentUpdate 1 (some (.gate (some resize))))) (opened.view 1) =
        (.ok (.sent (.dentResult true none none)), w') ∧
      Wrote (opened.view 1) w' (.dentUpdate 1 (some (.gate (some resize))))
        (.dentResult true none none) 101 ∧
      w'.store 101 = some (.object (.gate ⟨publicLabel, resized⟩)) ∧
      ¬Held (opened.view 1).privilege w'.store 101 := by
  refine ⟨opened_run, _, rfl, .update rfl, by decide +kernel, ?_⟩
  rintro ⟨l, g, hg, -, hheld⟩
  have hgate : (exec (doSyscall 1 (.dentUpdate 1 (some (.gate (some resize)))))
      (opened.view 1)).2.store 101 = some (.object (.gate ⟨publicLabel, resized⟩)) := by
    decide +kernel
  cases hgate.symm.trans hg
  exact absurd hheld (by decide)

/-- The update of the memory size is exact. -/
theorem resize_exact :
    ∃ w', exec (doSyscall 1 (.dentUpdate 2 (some (.gate (some resize))))) (opened.view 0) =
        (.ok (.sent (.dentResult true none none)), w') ∧
      w'.store = (opened.view 0).store.put 101 (.object (.gate ⟨publicLabel, resized⟩)) := by
  have hfd : (opened.view 0).dents 2 = some (.gate 101) := by decide +kernel
  refine (update_exact_iff hfd gate_stored (by decide +kernel) (by decide +kernel) (by decide +kernel)).2 ?_
  exact ⟨rfl, nofun⟩

/-- A message that asks for another declassification. -/
def redeclassify : Pb.GateKind := .direct ⟨none, none, none, anyone⟩

/-- A message that asks for another clearance of a redirect gate, and for no other target. -/
def reclear : Pb.GateKind := .redirect ⟨none, some (.ofComponent carol), 0, none⟩

/-- The first thread holds every privilege, and its label flows to the gates, which are public. It
succeeds to ask for another declassification, and nothing changes; its message for the redirect gate
fails. -/
theorem update_not_exact :
    Sys.Run (fun _ _ _ => True) system opened ∧
    (opened.view 0).privilege = .dcFalse ∧ (opened.view 0).currentLabel = publicLabel ∧
    (∃ l g new w', (opened.view 0).dents 2 = some (.gate 101) ∧
      (opened.view 0).store 101 = some (.object (.gate ⟨l, g⟩)) ∧
      redeclassify.over (opened.view 0) g = some new ∧
      exec (doSyscall 1 (.dentUpdate 2 (some (.gate (some redeclassify))))) (opened.view 0) =
        (.ok (.sent (.dentResult true none none)), w') ∧
      w'.store 101 ≠ some (.object (.gate ⟨l, new⟩))) ∧
    ∃ l g new, (opened.view 0).dents 3 = some (.gate 102) ∧
      (opened.view 0).store 102 = some (.object (.gate ⟨l, g⟩)) ∧
      reclear.over (opened.view 0) g = some new ∧
      (exec (doSyscall 1 (.dentUpdate 3 (some (.gate (some reclear))))) (opened.view 0)).1 =
        .ok (.sent (.dentResult false none none)) := by
  refine ⟨opened_run, by decide +kernel, by decide +kernel, ?_, ?_⟩
  · exact ⟨publicLabel, _, _, _, by decide +kernel, rfl, rfl, rfl, by decide +kernel⟩
  · exact ⟨publicLabel, _, _, by decide +kernel, rfl, rfl, rfl⟩

end Faasten.TwoWriters
