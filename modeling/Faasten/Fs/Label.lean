import Mathlib
import Faasten.Effect.RefCell
import Faasten.World

/-!
# The floating label

The functions on `CURRENT_LABEL` and `PRIVILEGE` of `fs/utils.rs`, and the methods of
`fs::Labeled<T>`. `CURRENT_LABEL` is a `RefCell`, and each function is written with the borrows it
takes, in order; the lemmas `exec_…` then say that none of them can panic, and what they do.
-/

namespace Faasten

open Effect

/-- `CURRENT_LABEL.with(…)`: no borrow of the cell outlives the closure. -/
def withCurrentLabel {β : Type} (m : Access Buckle β) : M β := do
  let t ← thread
  match m.run t.currentLabel with
  | some (b, l) =>
      setThread { t with currentLabel := l }
      return b
  | none => panic

theorem exec_withCurrentLabel {β : Type} {m : Access Buckle β} {w : World} {b : β} {l : Buckle}
    (h : m.run w.currentLabel = some (b, l)) :
    exec (withCurrentLabel m) w = (.ok b, w.relabel l) := by
  unfold withCurrentLabel
  rw [exec_bind]
  simp only [exec_thread, h]
  rfl

theorem exec_withCurrentLabel_none {β : Type} {m : Access Buckle β} {w : World}
    (h : m.run w.currentLabel = none) : exec (withCurrentLabel m) w = (.error .panic, w) := by
  unfold withCurrentLabel
  rw [exec_bind]
  simp only [exec_thread, h]
  rfl

/-! ### `fs/utils.rs` -/

/-- `get_current_label` -/
def getCurrentLabel : M Buckle := withCurrentLabel .clone

/-- `get_privilege` -/
def getPrivilege : M Component := do return (← thread).privilege

/-- `get_ufacet` -/
def getUfacet : M Buckle := do
  let p ← getPrivilege
  return ⟨p, p⟩

/-- `set_my_privilge` -/
def setMyPrivilege (p : Component) : M Unit := do
  let t ← thread
  setThread { t with privilege := p }

@[simp] theorem exec_getCurrentLabel (w : World) :
    exec getCurrentLabel w = (.ok w.currentLabel, w) := rfl

@[simp] theorem exec_getPrivilege (w : World) : exec getPrivilege w = (.ok w.privilege, w) := rfl

@[simp] theorem exec_getUfacet (w : World) :
    exec getUfacet w = (.ok ⟨w.privilege, w.privilege⟩, w) := rfl

@[simp] theorem exec_setMyPrivilege (p : Component) (w : World) :
    exec (setMyPrivilege p) w = (.ok (), { w with privilege := p }) := rfl

variable [LabelCrate]

/-- `taint_with_label` -/
def taintWithLabel (label : Buckle) : M Buckle := withCurrentLabel do
  let clone ← Access.clone
  Access.set (lub clone label)
  Access.clone

/-- `clear_label` -/
def clearLabel : M Unit := withCurrentLabel (.set publicLabel)

/-- `declassify_with` -/
def declassifyWith (myPriv : Component) : M Buckle := withCurrentLabel do
  let myLabel ← Access.clone
  Access.borrowMut
  Access.assign (downgrade myLabel myPriv)
  Access.releaseMut
  return downgrade myLabel myPriv

/-- `declassify`: the label it returns is not stored. -/
def declassify (target : Component) : M (Except Buckle Buckle) := do
  let p ← getPrivilege
  withCurrentLabel do
    let l ← Access.clone
    if implies (LabelCrate.and target p) l.secrecy then
      let l ← Access.clone
      return .ok ⟨target, l.integrity⟩
    else
      let l ← Access.clone
      return .error l

@[simp] theorem exec_taintWithLabel (l : Buckle) (w : World) :
    exec (taintWithLabel l) w =
      (.ok (lub w.currentLabel l), w.relabel (lub w.currentLabel l)) := rfl

@[simp] theorem exec_clearLabel (w : World) :
    exec clearLabel w = (.ok (), w.relabel publicLabel) := rfl

@[simp] theorem exec_declassifyWith (p : Component) (w : World) :
    exec (declassifyWith p) w =
      (.ok (downgrade w.currentLabel p), w.relabel (downgrade w.currentLabel p)) := rfl

theorem exec_declassify (target : Component) (w : World) :
    exec (declassify target) w =
      (.ok (if implies (LabelCrate.and target w.privilege) w.currentLabel.secrecy
        then .ok ⟨target, w.currentLabel.integrity⟩ else .error w.currentLabel), w) := by
  unfold declassify
  rw [exec_bind, exec_getPrivilege]
  refine (exec_withCurrentLabel (l := w.currentLabel) ?_).trans rfl
  split_ifs with h <;>
    simp [Access.run, Access.clone, Access.borrow, Access.release, h, StateT.run, bind,
      StateT.bind, pure, StateT.pure]

/-! ### `fs::Labeled<T>` -/

namespace Labeled

variable {T R : Type}

/-- `unlabel`: reading the data taints the thread with its label. -/
def unlabel (self : Labeled T) : M T := withCurrentLabel do
  let current ← Access.clone
  Access.set (lub self.label current)
  return self.data

/-- `write`: replace the data if the current label may flow to the object's. -/
def write (self : Labeled T) (value : T) : M (Labeled T) := do
  let current ← getCurrentLabel
  let privilege ← getPrivilege
  if canFlowToWithPrivilege current self.label privilege then
    return { self with data := value }
  else throwFs (.labelError .cannotWrite)

/-- `modify`: read and write at once, so taint first and check then. `f` gives a result and the
new data. -/
def modify (self : Labeled T) (f : T → R × T) : M (R × Labeled T) := do
  withCurrentLabel do
    let current ← Access.clone
    Access.set (lub self.label current)
  let current ← getCurrentLabel
  let privilege ← getPrivilege
  if canFlowToWithPrivilege current self.label privilege then
    return ((f self.data).1, { self with data := (f self.data).2 })
  else throwFs (.labelError .cannotWrite)

@[simp] theorem exec_unlabel (self : Labeled T) (w : World) :
    exec self.unlabel w = (.ok self.data, w.relabel (lub self.label w.currentLabel)) := rfl

theorem exec_write (self : Labeled T) (value : T) (w : World) :
    exec (self.write value) w =
      if canFlowToWithPrivilege w.currentLabel self.label w.privilege
      then (.ok { self with data := value }, w)
      else (.error (.err (.labelError .cannotWrite)), w) := by
  unfold write
  simp only [exec_bind, exec_getCurrentLabel, exec_getPrivilege]
  split_ifs <;> rfl

theorem write_ok {self o : Labeled T} {value : T} {w w' : World}
    (h : exec (self.write value) w = (.ok o, w')) :
    canFlowToWithPrivilege w.currentLabel self.label w.privilege ∧
      o = { self with data := value } ∧ w' = w := by
  rw [exec_write] at h
  split_ifs at h with hf
  · cases h; exact ⟨hf, rfl, rfl⟩
  · cases h

theorem exec_modify (self : Labeled T) (f : T → R × T) (w : World) :
    exec (self.modify f) w =
      if canFlowToWithPrivilege (lub self.label w.currentLabel) self.label w.privilege
      then (.ok ((f self.data).1, { self with data := (f self.data).2 }),
        w.relabel (lub self.label w.currentLabel))
      else (.error (.err (.labelError .cannotWrite)),
        w.relabel (lub self.label w.currentLabel)) := by
  unfold modify
  have htaint : exec (withCurrentLabel do
      let current ← Access.clone
      Access.set (lub self.label current)) w =
      (.ok (), w.relabel (lub self.label w.currentLabel)) := rfl
  rw [exec_bind_ok htaint]
  simp only [exec_bind, exec_getCurrentLabel, exec_getPrivilege, World.relabel_currentLabel,
    World.relabel_privilege]
  split_ifs <;> rfl

theorem modify_ok {self : Labeled T} {f : T → R × T} {r : R × Labeled T} {w w' : World}
    (h : exec (self.modify f) w = (.ok r, w')) :
    canFlowToWithPrivilege (lub self.label w.currentLabel) self.label w.privilege ∧
      r = ((f self.data).1, { self with data := (f self.data).2 }) ∧
      w' = w.relabel (lub self.label w.currentLabel) := by
  rw [exec_modify] at h
  split_ifs at h with hf
  · cases h; exact ⟨hf, rfl, rfl⟩
  · cases h

end Labeled

/-! ### Labels that are read one after the other -/

/-- The label after data with these labels has been read. -/
def taints (ls : List Buckle) (l : Buckle) : Buckle := ls.foldl (fun l x => lub x l) l

@[simp] theorem taints_nil (l : Buckle) : taints [] l = l := rfl

@[simp] theorem taints_append (ls ls' : List Buckle) (l : Buckle) :
    taints (ls ++ ls') l = taints ls' (taints ls l) := by
  simp [taints]

/-- What flows to a label under a privilege, if more has been read. -/
theorem taints_flows_iff [LawfulCrate] [LawfulJoin] {ls : List Buckle} {l c : Buckle}
    {p : Component} :
    canFlowToWithPrivilege (taints ls l) c p ↔
      canFlowToWithPrivilege l c p ∧ ∀ x ∈ ls, canFlowToWithPrivilege x c p := by
  induction ls generalizing l with
  | nil => simp
  | cons x ls ih =>
    have hlub : canFlowToWithPrivilege (lub x l) c p ↔
        canFlowToWithPrivilege x c p ∧ canFlowToWithPrivilege l c p := by
      constructor
      · intro h
        have left := LawfulCrate.priv_of_flow (p := p) (LawfulCrate.flow_lub_left x l)
        have right := LawfulCrate.priv_of_flow (p := p) (LawfulCrate.flow_lub_right x l)
        exact ⟨LawfulCrate.priv_trans left h, LawfulCrate.priv_trans right h⟩
      · rintro ⟨hx, hl⟩
        exact LawfulJoin.lub_priv hx hl
    change canFlowToWithPrivilege (taints ls (lub x l)) c p ↔ _
    rw [ih, hlub, List.forall_mem_cons]
    tauto

end Faasten
