import Mathlib
import Faasten.Facets
import Faasten.System

/-!
# The `fsutil` of a new user

When a user logs in, or is delegated to with `bootstrap`, the frontend duplicates the system's `fsutil`
gate for them. The thread that does so handled other requests before. `init` clears the label that these
left behind; `authenticate_cas` and `delegate` do not.

* `Oblivious`: a program that only raises the label does and gives the same whatever the label is; so
  do the parts of `dup_fsutil` that read;
* `Copies`: what the store must hold so that `dup_fsutil` creates the gate on a new thread;
* `effect_eq_iff`: the effect of a request is that on a new thread if and only if it creates no gate
  there, or the label left behind can flow to the public one under the privilege of the user.
-/

namespace Faasten

open Std Effect

variable [LabelCrate]

/-! ### Programs that only raise the label -/

section Oblivious

variable {α β : Type}

/-- The program only raises the label: what it gives and does, and by what it raises the label, does not
depend on the label that it starts with. -/
def Oblivious (m : M α) : Prop :=
  ∀ w : World, ∃ (r : Except Raised α) (w' : World) (ls : List Buckle), w'.privilege = w.privilege ∧
    ∀ l, exec m (w.relabel l) = (r, w'.relabel (taints ls l))

namespace Oblivious

theorem pure (a : α) : Oblivious (pure a : M α) := fun w => ⟨.ok a, w, [], rfl, fun _ => rfl⟩

theorem raise (e : Raised) : Oblivious (.raise e : M α) := fun w =>
  ⟨.error e, w, [], rfl, fun _ => rfl⟩

theorem unwrap (a : Option α) : Oblivious (unwrap a) := by
  cases a with
  | none => exact raise _
  | some a => exact pure a

theorem bind {m : M β} {f : β → M α} (hm : Oblivious m) (hf : ∀ b, Oblivious (f b)) :
    Oblivious (m >>= f) := by
  intro w
  obtain ⟨r, w₁, ls, hp, h⟩ := hm w
  rcases r with e | b
  · exact ⟨.error e, w₁, ls, hp, fun l => exec_bind_error (h l)⟩
  · obtain ⟨r', w₂, ls', hp', h'⟩ := hf b w₁
    refine ⟨r', w₂, ls ++ ls', hp'.trans hp, fun l => ?_⟩
    rw [exec_bind_ok (h l), h', taints_append]

/-- An operation that does not look at the thread. -/
theorem call {o : Op}
    (h : ∀ w l, perform o (w.relabel l) = ((perform o w).1, (perform o w).2.relabel l))
    (hp : ∀ w, (perform o w).2.privilege = w.privilege) :
    Oblivious (.call (S := monitor) o : M (Op.Res o)) := by
  intro w
  refine ⟨.ok (perform o w).1, (perform o w).2, [], hp w, fun l => ?_⟩
  change (Except.ok (perform o (w.relabel l)).1, (perform o (w.relabel l)).2) = _
  rw [h]
  rfl

theorem unlabel {T : Type} (o : Labeled T) : Oblivious o.unlabel := fun w =>
  ⟨.ok o.data, w, [o.label], rfl, fun _ => rfl⟩

theorem get (u : Uid) : Oblivious (Storage.get u) := call (fun _ _ => rfl) fun _ => rfl

theorem put (u : Uid) (v : Stored) : Oblivious (Storage.put u v) := call (fun _ _ => rfl) fun _ => rfl

theorem random : Oblivious random := call (fun _ _ => rfl) fun _ => rfl

theorem add (u : Uid) (v : Stored) : Oblivious (Storage.add u v) := by
  refine call (fun w l => ?_) fun w => ?_
  · unfold perform
    simp only [World.relabel_store]
    split <;> rfl
  · rw [perform_add]
    split_ifs <;> rfl

theorem cas (u : Uid) (e : Option Stored) (v : Stored) : Oblivious (Storage.cas u e v) := by
  refine call (fun w l => ?_) fun w => ?_
  · unfold perform
    simp only [World.relabel_store]
    split_ifs <;> rfl
  · rw [perform_cas]
    split_ifs <;> rfl

variable {T : Type}

theorem objectGet [Codec T] (u : Uid) : Oblivious (ObjectRef.get T u) :=
  (get u).bind fun _ => pure _

theorem objectRead [LabeledCodec T] (u : Uid) : Oblivious (ObjectRef.read T u) :=
  (objectGet u).bind fun _ => (unwrap _).bind fun o => unlabel o

theorem objectCas [Codec T] (u : Uid) (e : Option T) (v : T) : Oblivious (ObjectRef.cas u e v) := by
  refine (cas _ _ _).bind fun r => ?_
  cases r <;> exact pure _

theorem setNewId [Codec T] (n : ℕ) (v : T) : Oblivious (ObjectRef.setNewId n v) := by
  induction n with
  | zero => exact raise _
  | succ n ih =>
    refine random.bind fun u => (add u _).bind fun free => ?_
    split
    · exact (put _ _).bind fun _ => pure _
    · exact ih

theorem openLoop (rounds : ℕ) (u : Uid) (facet : Buckle) (n : ℕ) (d : Option FacetedDirectory) :
    Oblivious (FacetedDirectory.openLoop rounds u facet n d) := by
  induction n generalizing d with
  | zero => exact raise _
  | succ n ih =>
    unfold FacetedDirectory.openLoop
    split
    · exact pure _
    · refine (setNewId _ _).bind fun v => (objectCas _ _ _).bind fun r => ?_
      cases r with
      | ok _ => exact pure _
      | error d => exact ih d

theorem readPathLoop (rounds : ℕ) (path : Path) (e : Option DirEntry) :
    Oblivious (FS.readPathLoop rounds e path) := by
  induction path generalizing e with
  | nil =>
    cases e with
    | none => exact raise _
    | some e => exact pure _
  | cons c path ih =>
    unfold FS.readPathLoop
    split
    · simp_all
    · rename_i h
      cases h
      exact ((objectRead _).bind fun _ => pure _).bind fun entries => ih _
    · rename_i h
      cases h
      exact ((objectGet _).bind fun d => openLoop _ _ _ _ d).bind fun _ => ih _
    · exact raise _

theorem readPath (rounds : ℕ) (path : Path) : Oblivious (FS.readPath rounds path) := by
  unfold FS.readPath
  split
  · refine Oblivious.bind ?_ fun d => (unlabel d).bind fun _ => readPathLoop _ _ _
    exact (objectGet _).bind fun _ => pure _
  · exact pure _

end Oblivious

end Oblivious

/-! ### Where `fsutil` is -/

section Paths

variable {facet : Buckle} {w w' : World} {gate : Uid} {n : ℕ}

/-- `home:<T,faasten>:fsutil` -/
def fsutilPath (facet : Buckle) : Path := [.dscrp "home", .facet facet, .dscrp "fsutil"]

/-- `~` -/
def homePath (user : Component) : Path := [.dscrp "home", .facet ⟨user, user⟩]

theorem exec_parse_fsutil (w : World) :
    exec (Path.parse "home:<T,faasten>:fsutil") w =
      (.ok ((LabelCrate.parse "T,faasten").map fsutilPath), w) := by
  have hsplit : (Path.trim "home:<T,faasten>:fsutil".toList).splitOn ':' =
      ["home".toList, "<T,faasten>".toList, "fsutil".toList] := by decide
  have hhome : exec (Path.parseComponent "home".toList) w = (.ok (some (.dscrp "home")), w) := rfl
  have hfsutil : exec (Path.parseComponent "fsutil".toList) w = (.ok (some (.dscrp "fsutil")), w) := rfl
  have hfacet : exec (Path.parseComponent "<T,faasten>".toList) w =
      (.ok ((LabelCrate.parse "T,faasten").map .facet), w) := rfl
  have hcomponents : exec (Path.parseComponents
      ["home".toList, "<T,faasten>".toList, "fsutil".toList]) w =
      (.ok ((LabelCrate.parse "T,faasten").map fsutilPath), w) := by
    simp only [Path.parseComponents, exec_bind, hhome, hfacet]
    cases LabelCrate.parse "T,faasten" <;> rfl
  unfold Path.parse
  rw [hsplit]
  exact hcomponents

theorem exec_parse_home (w : World) :
    exec (Path.parse "~") w = (.ok (some (homePath w.privilege)), w) := by
  have hsplit : (Path.trim "~".toList).splitOn ':' = [['~']] := by decide
  unfold Path.parse
  rw [hsplit]
  rfl

/-- The path leads to the gate, past two directories with these labels. -/
def LeadsTo (s : Store) (facet : Buckle) (gate : Uid) (l l' : Buckle) : Prop :=
  ∃ root home facets u dir,
    s FS.rootRef = some (.object (.directory ⟨l, root⟩)) ∧
    root.entries["home"]? = some (.facetedDirectory home) ∧
    s home = some (.object (.facetedDirectory facets)) ∧ facets.find facet = some u ∧
    s u = some (.object (.directory ⟨l', dir⟩)) ∧ dir.entries["fsutil"]? = some (.gate gate)

theorem exec_readPath_fsutil {l l' : Buckle} (h : LeadsTo w.store facet gate l l') :
    exec (FS.readPath (n + 1) (fsutilPath facet)) w =
      (.ok (.gate gate), w.relabel (lub l' (lub l w.currentLabel))) := by
  obtain ⟨root, home, facets, u, dir, hroot, hhome, hfacets, hu, hdir, hgate⟩ := h
  have hread : exec (FS.root) w = (.ok ⟨l, root⟩, w) := by
    rw [FS.exec_root, hroot]
    rfl
  have hopen : exec (FacetedDirectory.open' (n + 1) home facet) (w.relabel (lub l w.currentLabel)) =
      (.ok u, w.relabel (lub l w.currentLabel)) :=
    exec_open_found (w := w.relabel (lub l w.currentLabel)) n hfacets hu
  have hlist : exec (Directory.list u) (w.relabel (lub l w.currentLabel)) =
      (.ok dir.entries, w.relabel (lub l' (lub l w.currentLabel))) := by
    unfold Directory.list
    rw [exec_bind_ok (ObjectRef.exec_read_encode (w := w.relabel (lub l w.currentLabel))
      (o := ⟨l', dir⟩) hdir)]
    rfl
  unfold fsutilPath FS.readPath
  rw [exec_bind_ok hread, exec_bind_ok (Labeled.exec_unlabel ..)]
  simp only [hhome]
  unfold FS.readPathLoop
  rw [exec_bind_ok hopen]
  unfold FS.readPathLoop
  rw [exec_bind_ok hlist, hgate]
  rfl

theorem exec_readPath_zero {l l' : Buckle} (h : LeadsTo w.store facet gate l l') :
    (exec (FS.readPath 0 (fsutilPath facet)) w).1 = .error .diverge := by
  obtain ⟨root, home, facets, u, dir, hroot, hhome, -⟩ := h
  have hread : exec (FS.root) w = (.ok ⟨l, root⟩, w) := by
    rw [FS.exec_root, hroot]
    rfl
  unfold fsutilPath FS.readPath
  rw [exec_bind_ok hread, exec_bind_ok (Labeled.exec_unlabel ..)]
  simp only [hhome]
  rfl

theorem readPathLoop_facet {cur : Option DirEntry} {f : Buckle} {path : Path} {e : DirEntry}
    (h : exec (FS.readPathLoop n cur (.facet f :: path)) w = (.ok e, w')) :
    ∃ dir v w₁, cur = some (.facetedDirectory dir) ∧
      exec (FacetedDirectory.open' n dir f) w = (.ok v, w₁) ∧
      exec (FS.readPathLoop n (some (.directory v)) path) w₁ = (.ok e, w') := by
  unfold FS.readPathLoop at h
  split at h
  · simp_all
  · rename_i hpath
    cases hpath
  · rename_i hpath
    cases hpath
    obtain ⟨v, w₁, hopen, h⟩ := exec_bind_eq_ok h
    exact ⟨_, v, w₁, rfl, hopen, h⟩
  · cases h

theorem readPathLoop_dscrp {cur : Option DirEntry} {name : String} {path : Path} {e : DirEntry}
    (h : exec (FS.readPathLoop n cur (.dscrp name :: path)) w = (.ok e, w')) :
    ∃ dir entries w₁, cur = some (.directory dir) ∧
      exec (Directory.list dir) w = (.ok entries, w₁) ∧
      exec (FS.readPathLoop n entries[name]? path) w₁ = (.ok e, w') := by
  unfold FS.readPathLoop at h
  split at h
  · simp_all
  · rename_i hpath
    cases hpath
    obtain ⟨entries, w₁, hlist, h⟩ := exec_bind_eq_ok h
    exact ⟨_, entries, w₁, rfl, hlist, h⟩
  · rename_i hpath
    cases hpath
  · cases h

theorem readPathLoop_nil {cur : Option DirEntry} {e : DirEntry}
    (h : exec (FS.readPathLoop n cur []) w = (.ok e, w')) : cur = some e ∧ w' = w := by
  cases cur with
  | none => cases h
  | some e' =>
    cases h
    exact ⟨rfl, rfl⟩

theorem leadsTo_of_readPath (h : exec (FS.readPath n (fsutilPath facet)) w = (.ok (.gate gate), w')) :
    ∃ l l', LeadsTo w.store facet gate l l' := by
  unfold fsutilPath FS.readPath at h
  rw [exec_bind_ok (FS.exec_root w), exec_bind_ok (Labeled.exec_unlabel ..)] at h
  obtain ⟨home, v, w₁, hhome, hopen, h⟩ := readPathLoop_facet h
  obtain ⟨dir, entries, w₂, hv, hlist, h⟩ := readPathLoop_dscrp h
  cases hv
  obtain ⟨hgate, -⟩ := readPathLoop_nil h
  obtain ⟨d, w₃, hread, hend⟩ := exec_bind_eq_ok hlist
  obtain ⟨o, ho, rfl, rfl⟩ := ObjectRef.read_ok hread
  cases hend
  rcases hroot : (w.store FS.rootRef).bind (Stored.decode (T := Labeled Directory)) with _ | root
  · -- The root directory that is used if there is none has no entry.
    rw [hroot] at hhome
    simp [FS.emptyRoot] at hhome
  · rw [hroot] at hhome
    rcases open_ok n hopen with ⟨facets, hfacets, hfind, rfl⟩ | hempty
    · exact ⟨root.label, o.label, root.data, home, facets, v, o.data, decode_eq_some hroot, hhome,
        hfacets, hfind, ho, hgate⟩
    · -- A facet that has just been allocated is empty.
      cases hempty.symm.trans ho
      simp at hgate

end Paths

/-! ### Labels that a privilege cannot tell apart -/

section Respects

variable {α β : Type} {p : Component} {a b : Buckle}

/-- Under the privilege the two labels flow to the same labels. -/
def Alike (p : Component) (a b : Buckle) : Prop :=
  ∀ c, canFlowToWithPrivilege a c p = canFlowToWithPrivilege b c p

theorem Alike.taints [LawfulCrate] [LawfulJoin] (h : Alike p a b) (ls : List Buckle) :
    Alike p (taints ls a) (taints ls b) := fun c => by
  rw [Bool.eq_iff_iff, taints_flows_iff, taints_flows_iff, h c]

/-- A label above the public one is like it for a privilege under which it flows there. -/
theorem alike_public [LawfulCrate] (habove : canFlowTo publicLabel a)
    (hflow : canFlowToWithPrivilege a publicLabel p) : Alike p a publicLabel := fun _ =>
  Bool.eq_iff_iff.2
    ⟨LawfulCrate.priv_trans (LawfulCrate.priv_of_flow habove), LawfulCrate.priv_trans hflow⟩

/-- The program gives and does the same under labels that the privilege of the thread cannot tell
apart. -/
def Respects (m : M α) : Prop :=
  ∀ (w : World) (a b : Buckle), Alike w.privilege a b →
    ∃ (r : Except Raised α) (w' : World) (a' b' : Buckle), Alike w'.privilege a' b' ∧
      exec m (w.relabel a) = (r, w'.relabel a') ∧ exec m (w.relabel b) = (r, w'.relabel b')

namespace Respects

theorem raise (e : Raised) : Respects (.raise e : M α) := fun w a b h =>
  ⟨.error e, w, a, b, h, rfl, rfl⟩

theorem bind {m : M β} {f : β → M α} (hm : Respects m) (hf : ∀ b, Respects (f b)) :
    Respects (m >>= f) := by
  intro w a b h
  obtain ⟨r, w₁, a₁, b₁, h₁, ha, hb⟩ := hm w a b h
  rcases r with e | x
  · exact ⟨.error e, w₁, a₁, b₁, h₁, exec_bind_error ha, exec_bind_error hb⟩
  · obtain ⟨r', w₂, a₂, b₂, h₂, ha', hb'⟩ := hf x w₁ a₁ b₁ h₁
    exact ⟨r', w₂, a₂, b₂, h₂, (exec_bind_ok ha).trans ha', (exec_bind_ok hb).trans hb'⟩

theorem checkCreate (l : Buckle) : Respects (FS.checkCreate l) := by
  intro w a b h
  refine ⟨if canFlowToWithPrivilege b l w.privilege then .ok ()
    else .error (.err (.labelError .cannotWrite)), w, a, b, h, ?_, ?_⟩
  · rw [FS.exec_checkCreate, World.relabel_currentLabel, World.relabel_privilege, h l]
    split_ifs <;> rfl
  · rw [FS.exec_checkCreate, World.relabel_currentLabel, World.relabel_privilege]
    split_ifs <;> rfl

variable [LawfulCrate] [LawfulJoin]

theorem of_oblivious {m : M α} (hm : Oblivious m) : Respects m := by
  intro w a b h
  obtain ⟨r, w', ls, hp, hm⟩ := hm w
  refine ⟨r, w', taints ls a, taints ls b, ?_, hm a, hm b⟩
  rw [hp]
  exact h.taints ls

theorem pure (x : α) : Respects (pure x : M α) := of_oblivious (.pure x)

theorem checkDelegate (q : Component) : Respects (checkDelegate q) := by
  refine of_oblivious fun w => ⟨if implies w.privilege q then .ok ()
    else .error (.err (.privilegeError .cannotDelegate)), w, [], rfl, fun l => ?_⟩
  rw [exec_checkDelegate, World.relabel_privilege]
  split_ifs <;> rfl

theorem modify {T R : Type} (o : Labeled T) (f : T → R × T) : Respects (o.modify f) := by
  intro w a b h
  have hlub : Alike w.privilege (lub o.label a) (lub o.label b) := h.taints [o.label]
  refine ⟨if canFlowToWithPrivilege (lub o.label b) o.label w.privilege
    then .ok ((f o.data).1, { o with data := (f o.data).2 })
    else .error (.err (.labelError .cannotWrite)), w, lub o.label a, lub o.label b, hlub, ?_, ?_⟩
  · rw [Labeled.exec_modify, World.relabel_currentLabel, World.relabel_privilege, hlub]
    split_ifs <;> rfl
  · rw [Labeled.exec_modify, World.relabel_currentLabel, World.relabel_privilege]
    split_ifs <;> rfl

theorem updateLoop (u : Uid) (f : Directory → Bool × Directory) (skip : Bool) (n : ℕ)
    (d : Labeled Directory) : Respects (Directory.updateLoop u f skip n d) := by
  induction n generalizing d with
  | zero => exact raise _
  | succ n ih =>
    refine (modify d f).bind fun r => ?_
    dsimp only
    split_ifs
    · exact pure _
    · refine (of_oblivious (.objectCas _ _ _)).bind fun r => ?_
      split
      · exact ih _
      · exact pure _

theorem link (n : ℕ) (path : Path) (name : String) (e : DirEntry) :
    Respects (FS.link n path name e) := by
  refine (of_oblivious (.readPath n path)).bind fun d => ?_
  split
  · refine bind ?_ fun linked => ?_
    · exact (of_oblivious (.objectGet _)).bind fun o => (of_oblivious (.unwrap o)).bind fun _ =>
        updateLoop _ _ _ _ _
    · split
      · exact pure _
      · exact raise _
  · exact raise _

theorem createRedirectGate (n : ℕ) (l : Buckle) (g : RedirectGate) :
    Respects (FS.createRedirectGate n l g) :=
  (checkCreate l).bind fun _ => (checkDelegate _).bind fun _ => (checkDelegate _).bind fun _ =>
    (of_oblivious (.setNewId n _)).bind fun _ => pure _

theorem dupFsutil (n : ℕ) (user clearance : Component) : Respects (dupFsutil n user clearance) := by
  have hfsutil : Oblivious (Path.parse "home:<T,faasten>:fsutil") := fun w =>
    ⟨_, w, [], rfl, fun l => exec_parse_fsutil (w.relabel l)⟩
  have hhome : Oblivious (Path.parse "~") := fun w =>
    ⟨.ok (some (homePath w.privilege)), w, [], rfl, fun l => exec_parse_home (w.relabel l)⟩
  refine (of_oblivious hfsutil).bind fun fsutil => (of_oblivious (.unwrap _)).bind fun fsutil => ?_
  refine (of_oblivious hhome).bind fun home => (of_oblivious (.unwrap _)).bind fun home => ?_
  refine (of_oblivious (.readPath n _)).bind fun e => ?_
  split
  · exact (createRedirectGate _ _ _).bind fun _ => link _ _ _ _
  · exact raise _

end Respects

end Respects

/-! ### The gate of a new user -/

section Copy

variable [LawfulCrate] [LawfulConj] [LawfulJoin] {w w₁ : World} {user clearance : Component} {n : ℕ}
  {facet l : Buckle} {ls : List Buckle} {r : Except Raised DirEntry}

/-- The system's `fsutil` is there, and `user` may make what was read on the way to it public. -/
def Copies (s : Store) (user : Component) : Prop :=
  ∃ facet gate l l', LabelCrate.parse "T,faasten" = some facet ∧ LeadsTo s facet gate l l' ∧
    canFlowToWithPrivilege l publicLabel user ∧ canFlowToWithPrivilege l' publicLabel user

/-- `dup_fsutil` after the paths have been parsed. -/
def copyFsutil (n : ℕ) (user clearance : Component) (facet : Buckle) : M Unit := do
  match ← FS.readPath n (fsutilPath facet) with
  | .gate gate =>
      let newGate ← FS.createRedirectGate n publicLabel
        { privilege := user, invokerIntegrityClearance := clearance, declassify := user, gate }
      FS.link n (homePath user) "fsutil" newGate
  | _ => throwFs .notAGate

omit [LawfulCrate] [LawfulConj] [LawfulJoin] in
theorem exec_dupFsutil (hp : w.privilege = user) (hfacet : LabelCrate.parse "T,faasten" = some facet) :
    exec (dupFsutil n user clearance) w = exec (copyFsutil n user clearance facet) w := by
  unfold dupFsutil
  rw [exec_bind_ok (exec_parse_fsutil w), hfacet, Option.map_some,
    exec_bind_ok (exec_unwrap_some _ w), exec_bind_ok (exec_parse_home w), hp,
    exec_bind_ok (exec_unwrap_some _ w)]
  rfl

omit [LawfulConj] in
/-- On a new thread the gate is found, and may be created, if the store holds what is needed. -/
theorem copies_iff (hfacet : LabelCrate.parse "T,faasten" = some facet)
    (hread : ∀ l, exec (FS.readPath (n + 1) (fsutilPath facet)) (w.relabel l) =
      (r, w₁.relabel (taints ls l))) :
    Copies w.store user ↔
      (∃ gate, r = .ok (.gate gate)) ∧ ∀ x ∈ ls, canFlowToWithPrivilege x publicLabel user := by
  have hflow : ∀ {gate l l'}, LeadsTo w.store facet gate l l' → r = .ok (.gate gate) ∧
      ((∀ x ∈ ls, canFlowToWithPrivilege x publicLabel user) ↔
        canFlowToWithPrivilege l publicLabel user ∧ canFlowToWithPrivilege l' publicLabel user) := by
    intro gate l l' hto
    have hexec := exec_readPath_fsutil (n := n) (w := w.relabel publicLabel) hto
    rw [hread publicLabel, Prod.mk.injEq] at hexec
    obtain ⟨rfl, hworld⟩ := hexec
    have hlabel : taints ls publicLabel = taints [l, l'] publicLabel :=
      congrArg (fun w => w.currentLabel) hworld
    have hpublic : canFlowToWithPrivilege publicLabel publicLabel user :=
      LawfulCrate.priv_of_flow (LawfulCrate.flow_refl _)
    have hiff : canFlowToWithPrivilege (taints ls publicLabel) publicLabel user ↔
        canFlowToWithPrivilege publicLabel publicLabel user ∧
          ∀ x ∈ ls, canFlowToWithPrivilege x publicLabel user := taints_flows_iff
    rw [hlabel, taints_flows_iff] at hiff
    refine ⟨rfl, ?_⟩
    simpa [hpublic] using hiff.symm
  constructor
  · rintro ⟨facet', gate, l, l', hfacet', hto, hl, hl'⟩
    cases hfacet.symm.trans hfacet'
    obtain ⟨hr, hiff⟩ := hflow hto
    exact ⟨⟨gate, hr⟩, hiff.2 ⟨hl, hl'⟩⟩
  · rintro ⟨⟨gate, rfl⟩, hall⟩
    obtain ⟨l, l', hto⟩ := leadsTo_of_readPath (hread publicLabel)
    obtain ⟨-, hiff⟩ := hflow hto
    obtain ⟨hl, hl'⟩ := hiff.1 hall
    exact ⟨facet, gate, l, l', hfacet, hto, hl, hl'⟩

omit [LawfulCrate] [LawfulConj] [LawfulJoin] in
theorem exec_createRedirectGate_refused (g : RedirectGate)
    (hl : ¬canFlowToWithPrivilege w.currentLabel l w.privilege) :
    exec (FS.createRedirectGate n l g) w = (.error (.err (.labelError .cannotWrite)), w) := by
  unfold FS.createRedirectGate
  refine exec_bind_error ?_
  rw [FS.exec_checkCreate]
  exact if_neg hl

omit [LawfulCrate] [LawfulConj] [LawfulJoin] in
theorem exec_createRedirectGate {g : RedirectGate}
    (hl : canFlowToWithPrivilege w.currentLabel l w.privilege) (hp : implies w.privilege g.privilege)
    (hd : implies w.privilege g.declassify) :
    (∃ s, exec (FS.createRedirectGate n l g) w = (.error .diverge, { w with rand := s })) ∨
    ∃ u s, w.store u = none ∧ exec (FS.createRedirectGate n l g) w = (.ok (.gate u),
      { w with rand := s, store := w.store.put u (.encode (⟨l, .redirect g⟩ : Labeled Gate)) }) := by
  have hcreate : exec (FS.checkCreate l) w = (.ok (), w) := by
    rw [FS.exec_checkCreate]
    exact if_pos hl
  have hprivilege : exec (checkDelegate g.privilege) w = (.ok (), w) := by
    rw [exec_checkDelegate]
    exact if_pos hp
  have hdeclassify : exec (checkDelegate g.declassify) w = (.ok (), w) := by
    rw [exec_checkDelegate]
    exact if_pos hd
  unfold FS.createRedirectGate
  rw [exec_bind_ok hcreate, exec_bind_ok hprivilege, exec_bind_ok hdeclassify]
  obtain ⟨s, hs⟩ | ⟨u, s, hu, hs⟩ :=
    ObjectRef.exec_setNewId n (⟨l, .redirect g⟩ : Labeled Gate) w
  · exact .inl ⟨s, exec_bind_error hs⟩
  · refine .inr ⟨u, s, hu, ?_⟩
    rw [exec_bind_ok hs]
    rfl

omit [LabelCrate] [LawfulCrate] [LawfulConj] [LawfulJoin] in
/-- What is in the store is replaced, but never removed. -/
theorem exec_store_ne_none {α : Type} (m : M α) {u : Uid} (hu : w.store u ≠ none) :
    (exec m w).2.store u ≠ none := by
  refine Handler.Always.invariant (G := fun _ _ => True) (I := fun w : World => w.store u ≠ none)
    (fun w o _ hw => ?_) (fun _ _ => trivial) hu
  have hput : ∀ u' v, (w.store.put u' v) u ≠ none := fun u' v => by
    by_cases huu : u = u'
    · simp [huu]
    · rwa [Store.put_of_ne _ _ huu]
  cases o with
  | put u' v => exact hput u' v
  | add u' v =>
    rw [show handler.perform (.add u' v) w = perform (.add u' v) w from rfl, perform_add]
    split_ifs
    · exact hput u' v
    · exact hw
  | cas u' e v =>
    rw [show handler.perform (.cas u' e v) w = perform (.cas u' e v) w from rfl, perform_cas]
    split_ifs
    · exact hput u' v
    · exact hw
  | schedWrite m =>
    rw [show handler.perform (.schedWrite m) w = perform (.schedWrite m) w from rfl,
      perform_schedWrite]
    split_ifs <;> exact hw
  | _ => exact hw

omit [LawfulCrate] [LawfulConj] [LawfulJoin] in
/-- Nothing is created if the gate is not found, or the label cannot flow to the public one. -/
theorem copyFsutil_refused (hp : w₁.privilege = user)
    (hread : ∀ l, exec (FS.readPath n (fsutilPath facet)) (w.relabel l) =
      (r, w₁.relabel (taints ls l)))
    (hrefused : ∀ gate, r = .ok (.gate gate) →
      ¬canFlowToWithPrivilege (taints ls l) publicLabel user) :
    (exec (copyFsutil n user clearance facet) (w.relabel l)).2.store = w₁.store := by
  unfold copyFsutil
  rcases r with e | e
  · rw [exec_bind_error (hread l)]
    rfl
  · rw [exec_bind_ok (hread l)]
    cases e with
    | gate gate =>
      have hl : ¬canFlowToWithPrivilege (taints ls l) publicLabel w₁.privilege := hp ▸ hrefused gate rfl
      rw [exec_bind_error (exec_createRedirectGate_refused (w := w₁.relabel (taints ls l)) _ hl)]
      rfl
    | _ => rfl

omit [LawfulCrate] [LawfulJoin] in
/-- Else the gate is created, unless no free uid is found for it. -/
theorem copyFsutil_created (clearance : Component) (hp : w₁.privilege = user) {gate : Uid}
    (hread : exec (FS.readPath n (fsutilPath facet)) (w.relabel l) =
      (.ok (.gate gate), w₁.relabel (taints ls l)))
    (hl : canFlowToWithPrivilege (taints ls l) publicLabel user) :
    (exec (copyFsutil n user clearance facet) (w.relabel l)).1 = .error .diverge ∨
      ∃ u, w₁.store u = none ∧
        (exec (copyFsutil n user clearance facet) (w.relabel l)).2.store u ≠ none := by
  subst hp
  unfold copyFsutil
  rw [exec_bind_ok hread]
  have hself := LawfulConj.implies_refl w₁.privilege
  obtain ⟨s, hs⟩ | ⟨u, s, hu, hs⟩ := exec_createRedirectGate (w := w₁.relabel (taints ls l)) (n := n)
    (g := { privilege := w₁.privilege, invokerIntegrityClearance := clearance
            declassify := w₁.privilege, gate }) hl hself hself
  · dsimp only
    rw [exec_bind_error hs]
    exact .inl rfl
  · refine .inr ⟨u, hu, ?_⟩
    dsimp only
    rw [exec_bind_ok hs]
    exact exec_store_ne_none _ (by simp)

/-- A thread does what a new one does for a user if and only if nothing is created there, or the label
of the thread can flow to the public one under the privilege of the user. -/
theorem dupFsutil_store_eq_iff (n : ℕ) (clearance : Component) (hp : w.privilege = user)
    (habove : canFlowTo publicLabel l)
    (hend : (exec (dupFsutil n user clearance) (w.relabel publicLabel)).1 ≠ .error .diverge) :
    (exec (dupFsutil n user clearance) (w.relabel l)).2.store =
        (exec (dupFsutil n user clearance) (w.relabel publicLabel)).2.store ↔
      (Copies w.store user → canFlowToWithPrivilege l publicLabel user) := by
  by_cases hl : canFlowToWithPrivilege l publicLabel user
  · -- The privilege cannot tell the two labels apart.
    have halike : Alike w.privilege l publicLabel := alike_public habove (hp ▸ hl)
    obtain ⟨r, w', a, b, -, ha, hb⟩ := Respects.dupFsutil n user clearance w l publicLabel halike
    rw [ha, hb]
    exact ⟨fun _ _ => hl, fun _ => rfl⟩
  · rcases hfacet : LabelCrate.parse "T,faasten" with _ | facet
    · have hpanic : ∀ l, (exec (dupFsutil n user clearance) (w.relabel l)).2.store = w.store := by
        intro l
        unfold dupFsutil
        rw [exec_bind_ok (exec_parse_fsutil _), hfacet]
        rfl
      rw [hpanic, hpanic]
      refine ⟨fun _ hcopies => ?_, fun _ => rfl⟩
      obtain ⟨_, _, _, _, hsome, -⟩ := hcopies
      cases hfacet.symm.trans hsome
    · obtain ⟨r, w₁, ls, hp₁, hread⟩ := Oblivious.readPath n (fsutilPath facet) w
      have hdup : ∀ l, exec (dupFsutil n user clearance) (w.relabel l) =
          exec (copyFsutil n user clearance facet) (w.relabel l) := fun l => exec_dupFsutil hp hfacet
      rw [hdup] at hend
      rw [hdup, hdup]
      have hnot : ¬canFlowToWithPrivilege (taints ls l) publicLabel user := fun h =>
        hl (taints_flows_iff.1 h).1
      rw [copyFsutil_refused (hp₁.trans hp) hread fun _ _ => hnot]
      refine ⟨fun heq hcopies => ?_, fun hcopies => ?_⟩
      · -- The new thread creates the gate, and this one does not.
        have hpublic : canFlowToWithPrivilege publicLabel publicLabel user :=
          LawfulCrate.priv_of_flow (LawfulCrate.flow_refl _)
        cases n with
        | zero =>
          obtain ⟨facet', gate, l₁, l₂, hfacet', hto, -⟩ := hcopies
          cases hfacet.symm.trans hfacet'
          have hdiverge := exec_readPath_zero (w := w.relabel publicLabel) hto
          rw [hread] at hdiverge
          change r = _ at hdiverge
          subst hdiverge
          refine absurd ?_ hend
          unfold copyFsutil
          rw [exec_bind_error (hread publicLabel)]
        | succ n =>
          obtain ⟨⟨gate, rfl⟩, hall⟩ := (copies_iff hfacet hread).1 hcopies
          obtain hdiverge | ⟨u, hu, hu'⟩ := copyFsutil_created clearance
            (hp₁.trans hp) (hread publicLabel) (taints_flows_iff.2 ⟨hpublic, hall⟩)
          · exact absurd hdiverge hend
          · rw [← heq] at hu'
            exact absurd hu hu'
      · -- Neither of them creates the gate.
        refine (copyFsutil_refused (hp₁.trans hp) hread fun gate hr hflow => ?_).symm
        subst hr
        refine hl (hcopies ?_)
        cases n with
        | zero =>
          obtain ⟨l₁, l₂, hto⟩ := leadsTo_of_readPath (hread publicLabel)
          have hdiverge := exec_readPath_zero (w := w.relabel publicLabel) hto
          rw [hread] at hdiverge
          cases hdiverge
        | succ n => exact (copies_iff hfacet hread).2 ⟨⟨gate, rfl⟩, (taints_flows_iff.1 hflow).2⟩

end Copy

/-! ### Requests -/

section Requests

/-- A request that the frontend serves. -/
def Event.OnFrontend : Event → Prop
  | .login _ _ => True
  | .delegate _ _ _ => True
  | .invoke _ _ _ _ _ _ _ => True
  | _ => False

/-- A login, or a request to delegate. -/
def Event.NamesUser : Event → Prop
  | .login _ _ => True
  | .delegate _ _ _ => True
  | _ => False

/-- The user that the request registers, with the clearance of the gate. -/
def Event.registers : Event → Option (ℕ × Component × Component)
  | .login n user => some (n, .single ["princeton.edu", user], .single ["princeton.edu", user])
  | .delegate n token request => do
      let newPrincipal ← App.parseSecrecy request.component
      if implies token newPrincipal ∧ request.bootstrap then
        let clearance ← App.delegateClearance request newPrincipal
        return (n, newPrincipal, clearance)
      else none
  | _ => none

/-- The states that requests leave a thread of the frontend in, whatever others do in the meantime. -/
inductive Handled : Thread → Prop
  | start : Handled (.idle publicLabel)
  | request {t : Thread} (h : Handled t) (e : Event) (he : e.OnFrontend) (w : World) :
      Handled (exec (Sys.program e) (w.withThread t)).2.toThread

/-- The thread with the label and the privilege of a new one. -/
def Thread.cleared (t : Thread) : Thread := { t with currentLabel := publicLabel, privilege := .dcTrue }

section Labels

variable [LawfulCrate] {P : Policy} {w : World} {op : Op}

/-- If the label is lowered only to ones above the public one, it stays above that. -/
theorem Permits.above (hP : ∀ l l', P.lowers l l' → canFlowTo publicLabel l') (h : Permits P w op)
    (hw : canFlowTo publicLabel w.currentLabel) :
    canFlowTo publicLabel (perform op w).2.currentLabel := by
  cases op with
  | setThread t =>
    have hmove : LabelMove P.lowers w.currentLabel t.currentLabel := h.label
    change canFlowTo publicLabel t.currentLabel
    generalize t.currentLabel = l at hmove
    cases hmove with
    | keep => exact hw
    | taintLeft l' => exact LawfulCrate.flow_trans hw (LawfulCrate.flow_lub_right _ _)
    | taintRight l' => exact LawfulCrate.flow_trans hw (LawfulCrate.flow_lub_left _ _)
    | lower h => exact hP _ _ h
  | add v st => rw [perform_add]; split_ifs <;> exact hw
  | cas v e st => rw [perform_cas]; split_ifs <;> exact hw
  | schedWrite m => rw [perform_schedWrite]; split_ifs <;> exact hw
  | _ => exact hw

omit [LawfulCrate] in
theorem obeys_frontend {L : Buckle → Buckle → Prop} (hL : ∀ l, L l publicLabel) {e : Event}
    (he : e.OnFrontend) : ∃ p, Obeys (frontPolicy L p) w (Sys.program e) := by
  cases e with
  | login n user => exact ⟨_, (obeys_authenticateCas n user).bind fun _ _ _ => .pure _⟩
  | delegate n login request =>
    rcases hq : App.parseSecrecy request.component with _ | q
    · exact ⟨.dcTrue, obeys_delegate fun q' hq' _ => by cases hq.symm.trans hq'⟩
    · exact ⟨q, obeys_delegate fun q' hq' _ => Option.some.inj (hq.symm.trans hq')⟩
  | invoke n login gatePath label blobs payload headers =>
    exact ⟨_, (obeys_init hL n login gatePath label blobs payload headers).bind fun _ _ _ => .pure _⟩
  | _ => exact he.elim

theorem Handled.above {t : Thread} (h : Handled t) : canFlowTo publicLabel t.currentLabel := by
  induction h with
  | start => exact LawfulCrate.flow_refl _
  | request _ e he w ih =>
    obtain ⟨p, hobeys⟩ := obeys_frontend (L := fun _ l => canFlowTo publicLabel l)
      (fun _ => LawfulCrate.flow_refl _) he
    exact hobeys.invariant (I := fun w : World => canFlowTo publicLabel w.currentLabel)
      (fun _ _ hp hw => Permits.above (fun _ _ h => h) hp hw) ih

end Labels

variable {α β : Type} {w : World} {n : ℕ} {user clearance : Component}

/-- The program does to the store what duplicating `fsutil` for the user does. -/
structure Registers (m : M α) (w : World) (n : ℕ) (user clearance : Component) : Prop where
  store : (exec m w).2.store = (exec (dupFsutil n user clearance) { w with privilege := user }).2.store
  diverge : (exec (dupFsutil n user clearance) { w with privilege := user }).1 = .error .diverge →
    (exec m w).1 = .error .diverge

omit [LabelCrate] in
theorem exec_bind_store {m : M α} {f : α → M β} (hf : ∀ a w, (exec (f a) w).2.store = w.store) :
    (exec (m >>= f) w).2.store = (exec m w).2.store := by
  rw [exec_bind]
  rcases exec m w with ⟨e | a, w'⟩
  · rfl
  · exact hf a w'

/-- What follows leaves the store as it is. -/
theorem Registers.bind {m : M α} {f : α → M β} (hm : Registers m w n user clearance)
    (hf : ∀ a w, (exec (f a) w).2.store = w.store) : Registers (m >>= f) w n user clearance := by
  refine ⟨(exec_bind_store hf).trans hm.store, fun h => ?_⟩
  have hdiverge := hm.diverge h
  rcases hr : exec m w with ⟨e | a, w'⟩
  · rw [hr] at hdiverge
    rw [exec_bind_error hr]
    cases hdiverge
    rfl
  · rw [hr] at hdiverge
    cases hdiverge

theorem registers_registerUserFsutil (w : World) (n : ℕ) (user clearance : Component) :
    Registers (registerUserFsutil n user clearance) w n user clearance := by
  unfold registerUserFsutil
  constructor
  · rw [exec_bind_ok (exec_setMyPrivilege user w), exec_bind, exec_result]
    rcases exec (dupFsutil n user clearance) { w with privilege := user } with ⟨e | a, w'⟩
    · cases e <;> rfl
    · rfl
  · intro h
    rw [exec_bind_ok (exec_setMyPrivilege user w), exec_bind, exec_result, h]
    rfl

/-- What a login or a delegation does to the store. -/
theorem program_store {e : Event} (he : e.NamesUser) (w : World) :
    match e.registers with
    | some (n, user, clearance) => Registers (Sys.program e) w n user clearance
    | none => (exec (Sys.program e) w).2.store = w.store := by
  cases e with
  | login n user =>
    exact ((registers_registerUserFsutil w n _ _).bind fun _ _ => rfl).bind fun _ _ => rfl
  | delegate n token request =>
    rcases hparse : App.parseSecrecy request.component with _ | newPrincipal
    · simp [Event.registers, Sys.program, App.delegate, hparse]
    by_cases himp : implies token newPrincipal
    · by_cases hboot : request.bootstrap
      · rcases hclearance : App.delegateClearance request newPrincipal with _ | clearance
        · simp [Event.registers, Sys.program, App.delegate, hparse, himp, hboot, hclearance]
        · have hregister := (registers_registerUserFsutil { w with privilege := newPrincipal } n
            newPrincipal clearance).bind (f := fun _ => do
              setMyPrivilege .dcTrue
              return some newPrincipal) fun _ _ => rfl
          have hregisters : (Event.delegate n token request).registers =
              some (n, newPrincipal, clearance) := by
            simp [Event.registers, hparse, himp, hboot, hclearance]
          rw [hregisters]
          show Registers (App.delegate n token request) w n newPrincipal clearance
          unfold App.delegate
          simp only [hparse, himp, hboot, hclearance, if_true]
          exact ⟨hregister.store, hregister.diverge⟩
      · simp [Event.registers, Sys.program, App.delegate, hparse, himp, hboot]
    · simp [Event.registers, Sys.program, App.delegate, hparse, himp]
  | _ => exact he.elim

/-- **A request is isolated from the ones before it** exactly if it registers no user, or the system's
`fsutil` is not there for this user, or the label left behind can flow to the public one under the
user's privilege: then a login or a delegation does to the store what it does on a new thread. -/
theorem effect_eq_iff [LawfulCrate] [LawfulConj] [LawfulJoin] {t : Thread} (ht : Handled t)
    {e : Event} (he : e.NamesUser) (w : World)
    (hend : (exec (Sys.program e) (w.withThread t.cleared)).1 ≠ .error .diverge) :
    (exec (Sys.program e) (w.withThread t)).2.store =
        (exec (Sys.program e) (w.withThread t.cleared)).2.store ↔
      ∀ n user clearance, e.registers = some (n, user, clearance) → Copies w.store user →
        canFlowToWithPrivilege t.currentLabel publicLabel user := by
  have hleft := program_store he (w.withThread t)
  have hnew := program_store he (w.withThread t.cleared)
  rcases hr : e.registers with _ | ⟨n, user, clearance⟩
  · rw [hr] at hleft hnew
    dsimp only at hleft hnew
    rw [hleft, hnew]
    exact ⟨nofun, fun _ => rfl⟩
  · rw [hr] at hleft hnew
    have hdup := dupFsutil_store_eq_iff (w := { w.withThread t with privilege := user }) n clearance
      rfl ht.above fun h => hend (hnew.diverge h)
    rw [hleft.store, hnew.store]
    refine hdup.trans ⟨?_, fun h => h n user clearance rfl⟩
    rintro h _ _ _ ⟨⟩
    exact h

end Requests

end Faasten

/-! ### A login after someone else's request -/

namespace Faasten.Newcomer

open Effect
open scoped Dc

/-- A store where the system's `fsutil` is in place, and can be read by anyone. -/
def store : Store :=
  (((Store.empty.put 0 (.encode (⟨⟨.dcTrue, .dcFalse⟩, ⟨.ofList
      [("home", DirEntry.facetedDirectory 1)]⟩⟩ : Labeled Directory))).put
    1 (.encode (⟨[(⟨.dcTrue, .single ["faasten"]⟩, 2)]⟩ : FacetedDirectory))).put
    2 (.encode (⟨⟨.dcTrue, .single ["faasten"]⟩, ⟨.ofList
      [("fsutil", DirEntry.gate 3)]⟩⟩ : Labeled Directory))).put
    3 (.encode (⟨⟨.dcTrue, .single ["faasten"]⟩, .direct
      { privilege := .dcTrue, invokerIntegrityClearance := .dcTrue, declassify := .dcTrue
        function := ⟨128, "a", "r", "k"⟩ }⟩ : Labeled Gate))

/-- The frontend on this store. -/
def world : World := .quiet (.idle publicLabel) store

/-- An invocation without a token, which asks for this label. -/
def invoke (label : Option Buckle) : Event := .invoke 3 none "" label ∅ [] ∅

/-- A new thread has served the invocation. -/
def after (label : Option Buckle) : Thread :=
  (exec (Sys.program (invoke label)) (world.withThread (.idle publicLabel))).2.toThread

theorem handled_after (label : Option Buckle) : Handled (after label) :=
  .request .start (invoke label) trivial world

/-- What a thread makes of the store when bob logs in. -/
def login (t : Thread) : Store := (exec (Sys.program (.login 3 "bob")) (world.withThread t)).2.store

/-- After an invocation that asked for no label, bob gets his gate as on a new thread. -/
theorem bob_registered :
    login (after none) = login (after none).cleared ∧ (login (after none) 100).isSome := by
  have hend : (exec (Sys.program (.login 3 "bob")) (world.withThread (after none).cleared)).1 ≠
      .error .diverge := by
    intro h
    have hok : (exec (Sys.program (.login 3 "bob")) (world.withThread (after none).cleared)).1 =
        .ok (some (.single ["princeton.edu", "bob"])) := by decide +kernel
    cases hok.symm.trans h
  refine ⟨(effect_eq_iff (e := .login 3 "bob") (handled_after none) trivial world hend).2 ?_,
    by decide +kernel⟩
  rintro n user clearance ⟨⟩ -
  decide +kernel

/-- After an invocation that asked for a label of alice, he gets none. -/
theorem bob_forgotten :
    Handled (after (some ⟨.single ["alice"], .dcTrue⟩)) ∧
      login (after (some ⟨.single ["alice"], .dcTrue⟩)) ≠
        login (after (some ⟨.single ["alice"], .dcTrue⟩)).cleared := by
  refine ⟨handled_after _, fun h => ?_⟩
  have hnone : login (after (some ⟨.single ["alice"], .dcTrue⟩)) 100 = none := by decide +kernel
  have hsome : login (after (some ⟨.single ["alice"], .dcTrue⟩)).cleared 100 ≠ none := by decide +kernel
  rw [← h] at hsome
  exact hsome hnone

end Faasten.Newcomer
