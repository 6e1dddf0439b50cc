import Mathlib
import Faasten.Gateway
import Faasten.Monitor.Confinement
import Faasten.Syscall.Run

/-!
# What the frontend and the workers may do

The counterpart of `syscallPolicy` for the programs that start a thread on something: those of the
web frontend, and a worker that takes up a task. They set the label as they like and take on a
privilege `p` given from outside; what they store has that privilege, and no gate is redirected.
-/

namespace Faasten

open Std Effect

variable [LabelCrate]

/-- What a program may do that acts with the privilege `p`. -/
def startPolicy (p : Component) : Policy where
  lowers _ _ := True
  assumes q := q = p ∨ q = .dcTrue
  holds w e := w.Known e ∨ e = .directory FS.rootRef
  stores w _ old o := (∀ e ∈ o.refs, w.Known e) ∧ (∀ q, o.privilege? = some q → q = p) ∧
    ∀ l g, o = .gate ⟨l, .redirect g⟩ → old = none
  invokes := Invocation
  sends _ _ := False

section Paths

variable {P : Policy} {w : World}

/-- An entry of a stored object is one in whatever world a permitted run ends. -/
theorem Obeys.refers {α : Type} {m : M α} {e : DirEntry} (hm : Obeys P w m) (he : w.Refers e) :
    (exec m w).2.Refers e := by
  obtain ⟨o, ho, hk⟩ := he
  obtain ⟨o', ho', hk', -⟩ := hm.invariant
    (I := fun w' : World => w'.Heads e.uid o.kind o.label?)
    (fun _ _ hp hs => (Permits.heads hp hs).1) ⟨o, ho, rfl, rfl⟩
  exact ⟨o', ho', hk'.trans hk⟩

theorem obeys_parseComponent (c : List Char) : Obeys P w (Path.parseComponent c) := by
  unfold Path.parseComponent
  split_ifs
  · exact .getCurrentLabel_bind (.pure _)
  · split <;> exact .pure _

theorem obeys_parseComponents (cs : List (List Char)) : Obeys P w (Path.parseComponents cs) := by
  induction cs generalizing w with
  | nil => exact .pure _
  | cons c cs ih =>
    refine (obeys_parseComponent c).bind fun r w' _ => ?_
    split
    · exact .pure _
    · refine ih.bind fun r w' _ => ?_
      split <;> exact .pure _

theorem obeys_parse (input : String) : Obeys P w (Path.parse input) := by
  unfold Path.parse
  split
  · exact .pure _
  · exact .pure _
  · refine .bind (.getPrivilege_bind (.pure _)) fun f w' _ => ?_
    refine (obeys_parseComponents _).bind fun r w' _ => ?_
    split <;> exact .pure _
  · exact obeys_parseComponents _

theorem obeys_setMyPrivilege {q : Component} (hq : P.assumes q) :
    Obeys P w (setMyPrivilege q) := by
  refine .bind_ok (exec_thread w) (.call trivial) (.call ⟨.inr hq, .keep, fun _ _ h => .inl h⟩)

theorem obeys_clearLabel (hP : ∀ l, P.lowers l publicLabel) : Obeys P w clearLabel := by
  refine .withCurrentLabel fun b l h => ?_
  cases h; exact .lower (hP _)

theorem list_ok {dir : Uid} {entries : ExtTreeMap String DirEntry compare} {w' : World}
    (h : exec (Directory.list dir) w = (.ok entries, w')) :
    ∃ o : Labeled Directory, w'.store dir = some (.object (.directory o)) ∧
      entries = o.data.entries := by
  obtain ⟨d, w₁, h₁, h₂⟩ := exec_bind_eq_ok h
  obtain ⟨o, ho, rfl, rfl⟩ := ObjectRef.read_ok h₁
  cases h₂
  exact ⟨o, ho, rfl⟩

theorem obeys_readPathLoop (n : ℕ) (hP : ∀ w dir facet, P.AllowsFacet w dir facet) (path : Path)
    (cur : Option DirEntry) : Obeys P w (FS.readPathLoop n cur path) := by
  induction path generalizing w cur with
  | nil =>
    cases cur with
    | none => exact .raise _
    | some e => exact .pure _
  | cons c path ih =>
    unfold FS.readPathLoop
    split
    · simp_all
    · rename_i h
      cases h
      exact .bind (.bind (obeys_read _) fun _ _ _ => .pure _) fun _ _ _ => ih _
    · rename_i h
      cases h
      exact (obeys_open n (hP _ _ _)).bind fun _ _ _ => ih _
    · exact .raise _

theorem obeys_readPath (n : ℕ) (hP : ∀ w dir facet, P.AllowsFacet w dir facet) (path : Path) :
    Obeys P w (FS.readPath n path) := by
  unfold FS.readPath
  split
  · refine .bind (.get_bind (.pure _)) fun d w' _ => (obeys_unlabel d).bind fun _ w' _ =>
      obeys_readPathLoop n hP _ _
  · exact .pure _

theorem readPathLoop_known {n : ℕ} {path : Path} {cur : Option DirEntry} {e : DirEntry}
    {w' : World} (hc : ∀ e, cur = some e → w.Known e)
    (h : exec (FS.readPathLoop n cur path) w = (.ok e, w')) : w'.Known e := by
  induction path generalizing w cur with
  | nil =>
    cases cur with
    | none => cases h
    | some e' => cases h; exact hc _ rfl
  | cons c path ih =>
    unfold FS.readPathLoop at h
    split at h
    · simp_all
    · rename_i hpath
      cases hpath
      obtain ⟨entries, w₁, h₁, h₂⟩ := exec_bind_eq_ok h
      obtain ⟨o, ho, rfl⟩ := list_ok h₁
      exact ih (fun e he => .inr (.inl ⟨_, _, ho, _, he⟩)) h₂
    · rename_i hpath
      cases hpath
      obtain ⟨dir, w₁, h₁, h₂⟩ := exec_bind_eq_ok h
      refine ih (fun e he => ?_) h₂
      cases he
      exact open_known n h₁
    · cases h

/-- The entry at a path is known, or is the root. -/
theorem readPath_known {n : ℕ} {path : Path} {e : DirEntry} {w' : World}
    (h : exec (FS.readPath n path) w = (.ok e, w')) : w'.Known e ∨ e = .directory FS.rootRef := by
  unfold FS.readPath at h
  split at h
  · rw [exec_bind_ok (FS.exec_root w), exec_bind_ok (Labeled.exec_unlabel ..)] at h
    refine .inl (readPathLoop_known (fun e he => ?_) h)
    rcases hd : (w.store FS.rootRef).bind (Stored.decode (T := Labeled Directory)) with _ | d
    · rw [hd] at he; simp [FS.emptyRoot] at he
    · rw [hd] at he
      exact .inr (.inl ⟨_, _, decode_eq_some hd, _, he⟩)
  · cases h; exact .inr rfl

end Paths

/-! ### The frontend -/

section Frontend

variable {L : Buckle → Buckle → Prop} {p : Component} {w : World}

/-- What the frontend may do that acts with the privilege `p`, and lowers the label only as `L` says. -/
abbrev frontPolicy (L : Buckle → Buckle → Prop) (p : Component) : Policy :=
  { startPolicy p with lowers := L }

theorem frontPolicy_allowsFacet (w : World) (dir : Uid) (facet : Buckle) :
    (frontPolicy L p).AllowsFacet w dir facet where
  create w' u _ := ⟨by rintro e ⟨name, h⟩; simp at h, nofun, fun l g h => by cases h⟩
  push w' d v _ hv hst _ := by
    refine ⟨?_, nofun, fun l g h => by cases h⟩
    rintro e ⟨x, hx, rfl⟩
    rcases List.mem_append.1 hx with hx | hx
    · cases d with
      | none => cases hx
      | some d => exact .inr (.inl ⟨dir, _, hst, x, hx, rfl⟩)
    · obtain rfl := List.mem_singleton.1 hx
      exact .inr (.inr ⟨_, hv, rfl⟩)

theorem obeys_fsLink (n : ℕ) (path : Path) (name : String) {e : DirEntry} (he : w.Refers e) :
    Obeys (frontPolicy L p) w (FS.link n path name e) := by
  have hread : Obeys (frontPolicy L p) w (FS.readPath n path) :=
    obeys_readPath n frontPolicy_allowsFacet path
  refine hread.bind fun d w' hx => ?_
  have he' : w'.Refers e := by simpa [hx] using hread.refers he
  split
  · refine .bind (obeys_link n fun w'' d hw hd => ⟨?_, nofun, fun l g h => by cases h⟩)
      fun r _ _ => ?_
    · rintro e' ⟨x, hx⟩
      rw [ExtTreeMap.getElem?_insert] at hx
      split_ifs at hx
      · cases hx
        exact .mono (.inr (.inr he')) hw
      · exact .inr (.inl ⟨_, _, hd, x, hx⟩)
    · split
      · exact .pure _
      · exact .raise _
  · exact .raise _

theorem obeys_dupFsutil (n : ℕ) (clearance : Component) :
    Obeys (frontPolicy L p) w (dupFsutil n p clearance) := by
  refine (obeys_parse _).bind fun a w₁ _ => .unwrap_bind fun fsutil _ =>
    (obeys_parse _).bind fun b w₂ _ => .unwrap_bind fun baseDir _ =>
    (obeys_readPath n frontPolicy_allowsFacet fsutil).bind fun e w₃ hx => ?_
  split
  · rename_i gate
    have hk : w₃.Known (.gate gate) := (readPath_known hx).resolve_right nofun
    refine .bind (.checkCreate_bind fun _ => .checkDelegate_bind fun hd =>
      .checkDelegate_bind fun _ => .bind (obeys_setNewId n ?_ fun w' u hg => ⟨?_, ?_, ?_⟩)
        fun _ _ _ => .pure _) fun e w₄ hx => obeys_fsLink n _ _ ?_
    · rintro q ⟨⟩; exact hd
    · rintro e ⟨⟩; exact hk.mono hg
    · rintro q ⟨⟩; rfl
    · exact fun _ _ _ => rfl
    · obtain ⟨_, v₁, -, k₁⟩ := exec_bind_eq_ok hx
      obtain ⟨_, v₂, -, k₂⟩ := exec_bind_eq_ok k₁
      obtain ⟨_, v₃, -, k₃⟩ := exec_bind_eq_ok k₂
      obtain ⟨u, v₄, h₄, k₄⟩ := exec_bind_eq_ok k₃
      obtain ⟨-, r, rfl⟩ := ObjectRef.setNewId_ok h₄
      cases k₄
      exact ⟨_, Store.put_self .., rfl⟩
  · exact .raise _

theorem obeys_actAs : Obeys (frontPolicy L p) w (setMyPrivilege p) := obeys_setMyPrivilege (Or.inl rfl)

theorem obeys_actAsNobody : Obeys (frontPolicy L p) w (setMyPrivilege .dcTrue) :=
  obeys_setMyPrivilege (Or.inr rfl)

theorem obeys_registerUserFsutil (n : ℕ) (clearance : Component) :
    Obeys (frontPolicy L p) w (registerUserFsutil n p clearance) :=
  obeys_actAs.bind fun _ _ _ =>
    (obeys_dupFsutil n clearance).result.bind fun _ _ _ => obeys_actAsNobody

theorem obeys_authenticateCas (n : ℕ) (user : String) :
    Obeys (frontPolicy L (.single ["princeton.edu", user])) w (App.authenticateCas n user) :=
  (obeys_registerUserFsutil n _).bind fun _ _ _ => .pure _

theorem obeys_delegate {n : ℕ} {login : Component} {request : App.Delegate}
    (hp : ∀ q, App.parseSecrecy request.component = some q → implies login q → p = q) :
    Obeys (frontPolicy L p) w (App.delegate n login request) := by
  unfold App.delegate
  split
  · exact .pure _
  · rename_i q hq
    split
    · rename_i himp
      cases hp q hq himp
      split
      · split
        · exact .pure _
        · exact obeys_actAs.bind fun _ _ _ => (obeys_registerUserFsutil n _).bind fun _ _ _ =>
            obeys_actAsNobody.bind fun _ _ _ => .pure _
      · exact .pure _
    · exact .pure _

/-- The subject of a delegated token is one that the delegating token implies. -/
theorem delegate_ok {n : ℕ} {login q : Component} {request : App.Delegate} {w' : World}
    (h : exec (App.delegate n login request) w = (.ok (some q), w')) :
    App.parseSecrecy request.component = some q ∧ implies login q := by
  unfold App.delegate at h
  split at h
  · cases h
  · rename_i q' hq
    split at h
    · rename_i himp
      split at h
      · split at h
        · cases h
        · obtain ⟨_, w₁, -, k₁⟩ := exec_bind_eq_ok h
          obtain ⟨_, w₂, -, k₂⟩ := exec_bind_eq_ok k₁
          obtain ⟨_, w₃, -, k₃⟩ := exec_bind_eq_ok k₂
          cases k₃; exact ⟨hq, himp⟩
      · cases h; exact ⟨hq, himp⟩
    · cases h

/-- What is resolved has a privilege gathered from gates. -/
theorem resolveGate_ok {n : ℕ} {path : Path} {r : Function × Component} {w' : World}
    (h : exec (resolveGateWithClearanceCheck n path) w = (.ok r, w')) :
    Gathered w'.GatePrivilege r.2 := by
  obtain ⟨e, w₁, -, k₁⟩ := exec_bind_eq_ok h
  split at k₁
  · obtain ⟨g, w₂, h₂, k₂⟩ := exec_bind_eq_ok k₁
    rw [exec_bind_ok (exec_getPrivilege _)] at k₂
    split_ifs at k₂
    · cases k₂; exact (toInvokable_ok n h₂).1
    · cases k₂
  · cases k₁

theorem obeys_resolveGate (n : ℕ) (path : Path) :
    Obeys (frontPolicy L p) w (resolveGateWithClearanceCheck n path) := by
  refine (obeys_readPath n frontPolicy_allowsFacet path).bind fun e w' _ => ?_
  split
  · refine (obeys_toInvokable n _).bind fun g w' _ => .getPrivilege_bind ?_
    split
    · exact .pure _
    · exact .raise _
  · exact .raise _

theorem prepareLabeledInvoke_ok {n : ℕ} {gatePath : String} {payload : Bytes}
    {blobs headers : ExtTreeMap String String compare} {m : LabeledInvoke} {w' : World}
    (h : exec (prepareLabeledInvoke n gatePath blobs payload headers) w = (.ok (.ok m), w')) :
    Invocation w' m := by
  obtain ⟨path, w₁, -, k₁⟩ := exec_bind_eq_ok h
  split at k₁
  · cases k₁
  · obtain ⟨r, w₂, h₂, k₂⟩ := exec_bind_eq_ok k₁
    split at k₂
    · cases k₂
    · rename_i f q
      rw [exec_bind_ok (exec_getCurrentLabel _), exec_bind_ok (exec_getPrivilege _)] at k₂
      cases k₂
      exact ⟨rfl, rfl, q, rfl, resolveGate_ok (result_ok h₂)⟩

theorem obeys_waitForCompletion {P : Policy} {m : LabeledInvoke} (hm : P.invokes w m) :
    Obeys P w (waitForCompletion m) := by
  refine .bind (.call hm) fun sent w₁ _ => ?_
  split
  · refine .bind_ok (exec_schedRead _) (.call trivial) ?_
    split
    · exact .pure _
    · refine .unwrap_bind fun _ _ => .unwrap_bind fun _ _ =>
        .getCurrentLabel_bind (.getPrivilege_bind ?_)
      split <;> exact .pure _
  · exact .pure _

theorem obeys_init (hL : ∀ l, L l publicLabel) (n : ℕ) (login : Option Component) (gatePath : String) (label : Option Buckle)
    (blobs : ExtTreeMap String String compare) (payload : Bytes)
    (headers : ExtTreeMap String String compare) :
    Obeys (frontPolicy L (login.getD .dcTrue)) w
      (init n login gatePath label blobs payload headers) := by
  refine .bind ?_ fun _ w₁ _ => .bind ((obeys_parse gatePath).bind fun path w₂ _ => ?_) ?_
  · refine (obeys_clearLabel hL).bind fun _ _ _ =>
      obeys_actAs.bind fun _ _ _ => ?_
    cases label with
    | none => exact .pure _
    | some l => exact (obeys_taintWithLabel l).bind fun _ _ _ => .pure _
  · split
    · exact .pure _
    · refine (obeys_resolveGate n _).result.bind fun r w₃ _ => ?_
      split
      · exact .pure _
      · exact .getCurrentLabel_bind (.getPrivilege_bind (.pure _))
  · intro r w₂ hx
    split
    · exact .pure _
    · exact obeys_waitForCompletion (prepareLabeledInvoke_ok hx)

end Frontend

/-! ### The workers -/

section Workers

open SyscallProcessor

variable {P : Policy} {L : Buckle → Buckle → Prop} {p : Component} {w : World}

theorem obeys_openBlobs (bs : List (String × String)) : Obeys P w (openBlobs bs) := by
  induction bs generalizing w with
  | nil => exact .pure _
  | cons b bs ih => exact (obeys_openExpect _).bind fun _ _ _ => ih.bind fun _ _ _ => .pure _

theorem obeys_insertBlobs (bs : List (String × OpenBlob)) : Obeys P w (insertBlobs bs) := by
  induction bs generalizing w with
  | nil => exact .pure _
  | cons b bs ih =>
    exact obeys_newBlobId.bind fun _ _ _ =>
      .bind (obeys_amend_tables rfl rfl fun _ _ h => h) fun _ _ _ => ih.bind fun _ _ _ => .pure _

theorem obeys_firstPrincipals (cs : List Clause) : Obeys P w (firstPrincipals cs) := by
  induction cs generalizing w with
  | nil => exact .pure _
  | cons c cs ih => exact .unwrap_bind fun _ _ => ih.bind fun _ _ _ => .pure _

theorem obeys_request (payload : Bytes) (blobs : List (String × OpenBlob))
    (headers : ExtTreeMap String String compare) (invoker : Component) :
    Obeys P w (request payload blobs headers invoker) := by
  refine (obeys_insertBlobs blobs).bind fun _ _ _ => .bind ?_ fun _ _ _ => .pure _
  cases invoker with
  | dcFalse => exact .raise _
  | dcFormula cs => exact obeys_firstPrincipals _

theorem obeys_new (hL : ∀ l, L l publicLabel) (label : Buckle) :
    Obeys (frontPolicy L p) w (new label p) := by
  refine (obeys_clearLabel hL).bind fun _ _ _ =>
    (obeys_taintWithLabel label).bind fun _ _ _ => obeys_actAs.bind fun _ _ _ =>
    obeys_amend ⟨.inl rfl, .keep, fun fd e he => ?_⟩
  dsimp only at he
  split_ifs at he
  cases he
  exact .inr (.inr rfl)

theorem obeys_processTask (hL : ∀ l, L l publicLabel) {m : LabeledInvoke}
    (hp : ∀ q, m.gatePrivilege.bind (·.into) = some q → p = q) :
    Obeys (frontPolicy L p) w (processTask m) := by
  refine .unwrap_bind fun l _ => .unwrap_bind fun label _ => .unwrap_bind fun c hc =>
    .unwrap_bind fun q hq => (obeys_openBlobs _).bind fun blobs w₁ _ => ?_
  cases hp q (by rw [hc]; exact hq)
  exact (obeys_new hL label).bind fun _ _ _ => .unwrap_bind fun _ _ => .unwrap_bind fun _ _ =>
    obeys_request _ _ _ _

end Workers

end Faasten
