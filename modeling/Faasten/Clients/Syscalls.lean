import Mathlib
import Faasten.Clients.Typed

/-!
# Syscalls on true references

Every syscall keeps to the discipline of `Integrity.discipline`, whatever other processors do in the
meantime, and what it puts into the tables of its processor refers to what is there.

None of them panics as long as nothing but the objects can make it panic. Its message is well formed
(`Pb.Syscall.WellFormed` asks for the fields that the code unwraps, and excludes the two syscalls
that panic on every message), and the outside is reliable (`Reliable`): file operations succeed, and
the scheduler and the external endpoints answer with complete messages.
-/

namespace Faasten

open Std Effect SyscallProcessor

/-! ### Well-formed messages -/

namespace Pb

/-- A component that is there and can be converted. -/
def Given (c : Option Pb.Component) : Prop := ∃ x y, c = some x ∧ x.into = some y

/-- A component that can be converted if it is there. -/
def Convertible (c : Option Pb.Component) : Prop := ∀ x, c = some x → x.into ≠ none

/-- A label that can be converted if it is there. -/
def ConvertibleLabel (l : Option Pb.Buckle) : Prop := ∀ x, l = some x → x.into ≠ none

/-- A gate as `DentCreate` takes it. -/
def GateKind.Complete : GateKind → Prop
  | .direct g => g.function ≠ none ∧ Given g.privilege ∧ Given g.invokerIntegrityClearance ∧
      Convertible g.declassify
  | .redirect g => Given g.privilege ∧ Given g.invokerIntegrityClearance ∧
      Convertible g.declassify

/-- A gate as `DentUpdate` takes it. -/
def GateKind.Patch : GateKind → Prop
  | .direct g => Convertible g.privilege ∧ Convertible g.invokerIntegrityClearance
  | .redirect g => Convertible g.privilege ∧ Convertible g.invokerIntegrityClearance

/-- A service with all its fields. -/
def Service.Complete (s : Pb.Service) : Prop :=
  (∃ x y, s.taint = some x ∧ x.into = some y) ∧ Given s.privilege ∧
    Given s.invokerIntegrityClearance

def CreateKind.WellFormed : CreateKind → Prop
  | .gate (some g) => g.Complete
  | .service s => s.Complete
  | _ => True

def UpdateKind.WellFormed : UpdateKind → Prop
  | .gate (some g) => g.Patch
  | .service s => s.Complete
  | _ => True

def OpenEntry.WellFormed : OpenEntry → Prop
  | .facet l => l.into ≠ none
  | .name _ => True

/-- The code unwraps no field of the message that is not there, and no buffer that it allocates at
the message's word is too long. -/
def Syscall.WellFormed : Syscall → Prop
  | .taintWithLabel _ => False
  | .subPrivilege _ => False
  | .declassify c => c.into ≠ none
  | .dentOpen _ entry => ∃ x, entry = some x ∧ x.WellFormed
  | .dentCreate label kind => ConvertibleLabel label ∧ ∀ x, kind = some x → x.WellFormed
  | .dentUpdate _ kind => ∀ x, kind = some x → x.WellFormed
  | .dentLsFaceted _ clearance => ConvertibleLabel clearance
  | .blobRead _ _ length => length.getD 4096 < 2 ^ 63
  | _ => True

end Pb

namespace Integrity

/-- Nothing outside makes a processor panic. -/
structure Reliable (w : World) : Prop where
  files : Files w
  conn : w.schedConn = true
  answer : ∀ ms r, w.host.schedRead ms = some r → Pb.ConvertibleLabel r.label ∧ r.payload ≠ none
  header : ∀ name value, w.host.validHeader name value = true
  body : ∀ qs r, w.host.http qs = some r → r.body ≠ none

variable [LabelCrate] {ι α : Type} {w₀ : World} {ok : Prop} {i : ι} {t : Thread} {s s' : Shared ι}

/-! ### Parts of messages -/

section Messages

omit [LabelCrate] in
theorem safe_component {c : Option Pb.Component} (hi : Inv w₀ s) (ht : Tables t s)
    (h : ok → Pb.Given c) : Safe w₀ ok i (fun _ _ => True) (component c) t s := by
  refine .bind hi ht (.unwrap' fun hok => ?_) fun x t₁ s₁ _ _ _ hx => ?_
  · obtain ⟨x, y, rfl, -⟩ := h hok
    simp
  · refine (Safe.unwrap' fun hok => ?_).trivial
    obtain ⟨x', y, hx', hy⟩ := h hok
    cases hx.symm.trans hx'
    simp [hy]

omit [LabelCrate] in
theorem safe_componentOrTrue {c : Option Pb.Component} (h : ok → Pb.Convertible c) :
    Safe w₀ ok i (fun _ _ => True) (componentOrTrue c) t s := by
  cases c with
  | none => exact .pure fun _ _ => True.intro
  | some c => exact (Safe.unwrap' fun hok => h hok c rfl).trivial

omit [LabelCrate] in
theorem safe_updateComponent {c : Option Pb.Component} {old : Component}
    (h : ok → Pb.Convertible c) :
    Safe w₀ ok i (fun _ _ => True) (updateComponent c old) t s := by
  cases c with
  | none => exact .pure fun _ _ => True.intro
  | some c => exact (Safe.unwrap' fun hok => h hok c rfl).trivial

theorem safe_labelOrPublic {l : Option Pb.Buckle} (h : ok → Pb.ConvertibleLabel l) :
    Safe w₀ ok i (fun _ _ => True) (labelOrPublic l) t s := by
  cases l with
  | none => exact .pure fun _ _ => True.intro
  | some l => exact (Safe.unwrap' fun hok => h hok l rfl).trivial

omit [LabelCrate] in
theorem safe_convertLabel {l : Option Pb.Buckle} (h : ok → Pb.ConvertibleLabel l) :
    Safe w₀ ok i (fun _ _ => True) (convertLabel l) t s := by
  cases l with
  | none => exact .pure fun _ _ => True.intro
  | some l => exact .map _ (Safe.unwrap' fun hok => h hok l rfl) fun _ _ _ _ => True.intro

omit [LabelCrate] in
theorem safe_serviceOf {v : Pb.Service} (hi : Inv w₀ s) (ht : Tables t s)
    (h : ok → v.Complete) : Safe w₀ ok i (fun _ _ => True) (serviceOf v) t s := by
  refine .bind hi ht (.unwrap' fun hok => ?_) fun x t₁ s₁ hi₁ ht₁ _ hx => ?_
  · obtain ⟨x, y, hx, -⟩ := (h hok).1
    simp [hx]
  refine .bind hi₁ ht₁ (Safe.unwrap' fun hok => ?_) fun _ t₂ s₂ hi₂ ht₂ _ _ => ?_
  · obtain ⟨x', y, hx', hy⟩ := (h hok).1
    cases hx.symm.trans hx'
    simp [hy]
  refine .bind hi₂ ht₂ (safe_component hi₂ ht₂ fun hok => (h hok).2.1) fun _ t₃ s₃ hi₃ ht₃ _ _ => ?_
  exact .map _ (safe_component hi₃ ht₃ fun hok => (h hok).2.2) fun _ _ _ _ => True.intro

omit [LabelCrate] in
theorem safe_imageOf (hi : Inv w₀ s) (ht : Tables t s) (fd : ℕ) :
    Safe w₀ ok i (fun u s => Refers s (.blob u)) (imageOf fd) t s := by
  refine .bind hi ht (safe_dent hi ht fd) fun e t₁ s₁ _ _ _ he => ?_
  rcases e with _ | e
  · exact .throwFs
  cases e with
  | blob u => exact .pure fun _ hs => hs.refers _ (he _ rfl)
  | _ => exact .throwFs

/-- The images of a new gate are read from blob objects that are referred to. -/
theorem safe_directGateOf {g : Pb.DirectGate} (hi : Inv w₀ s) (ht : Tables t s)
    (h : ok → (Pb.GateKind.direct g).Complete) :
    Safe w₀ ok i (fun g s => FitGate s (.direct g)) (directGateOf g) t s := by
  refine .bind hi ht (.unwrap' fun hok => (h hok).1) fun f t₁ s₁ hi₁ ht₁ _ _ => ?_
  refine .bind hi₁ ht₁ (safe_imageOf hi₁ ht₁ _) fun a t₂ s₂ hi₂ ht₂ _ ha => ?_
  refine .bind hi₂ ht₂ (safe_imageOf hi₂ ht₂ _) fun r t₃ s₃ hi₃ ht₃ hs₃ hr => ?_
  refine .bind hi₃ ht₃ (safe_imageOf hi₃ ht₃ _) fun k t₄ s₄ hi₄ ht₄ hs₄ hk => ?_
  refine .bind hi₄ ht₄ (safe_readBlob hi₄ ht₄ ((hs₃.trans hs₄).refers _ ha))
    fun a t₅ s₅ hi₅ ht₅ hs₅ ha => ?_
  refine .bind hi₅ ht₅ (safe_readBlob hi₅ ht₅ ((hs₄.trans hs₅).refers _ hr))
    fun r t₆ s₆ hi₆ ht₆ hs₆ hr => ?_
  refine .bind hi₆ ht₆ (safe_readBlob hi₆ ht₆ ((hs₅.trans hs₆).refers _ hk))
    fun k t₇ s₇ hi₇ ht₇ hs₇ hk => ?_
  refine .bind hi₇ ht₇ (safe_component hi₇ ht₇ fun hok => (h hok).2.1)
    fun _ t₈ s₈ hi₈ ht₈ hs₈ _ => ?_
  refine .bind hi₈ ht₈ (safe_component hi₈ ht₈ fun hok => (h hok).2.2.1)
    fun _ t₉ s₉ hi₉ ht₉ hs₉ _ => ?_
  refine .map _ (safe_componentOrTrue fun hok => (h hok).2.2.2) fun _ s' hs _ => ?_
  have hgrow := (hs₈.trans hs₉).trans hs
  exact ⟨((hs₆.trans hs₇).trans hgrow).saved _ ha, (hs₇.trans hgrow).saved _ hr, hgrow.saved _ hk⟩

omit [LabelCrate] in
theorem safe_redirectGateOf {g : Pb.RedirectGate} {u : Uid} (hi : Inv w₀ s) (ht : Tables t s)
    (h : ok → (Pb.GateKind.redirect g).Complete) :
    Safe w₀ ok i (fun r _ => r.gate = u) (redirectGateOf g u) t s := by
  refine .bind hi ht (safe_component hi ht fun hok => (h hok).1) fun _ t₁ s₁ hi₁ ht₁ _ _ => ?_
  refine .bind hi₁ ht₁ (safe_component hi₁ ht₁ fun hok => (h hok).2.1)
    fun _ t₂ s₂ hi₂ ht₂ _ _ => ?_
  exact .map _ (safe_componentOrTrue fun hok => (h hok).2.2) fun _ _ _ _ => rfl

theorem safe_updateImage {fd : ℕ} {old : String} (hi : Inv w₀ s) (ht : Tables t s)
    (hold : Saved s.world.blobstore old) :
    Safe w₀ ok i (fun name s => Saved s.world.blobstore name) (updateImage fd old) t s := by
  unfold updateImage
  split_ifs
  · exact .bind hi ht (safe_imageOf hi ht fd) fun u t₁ s₁ hi₁ ht₁ _ hu => safe_readBlob hi₁ ht₁ hu
  · exact .pure fun _ hs => hs.saved _ hold

/-- An update keeps the images it does not replace. -/
theorem safe_updateFunction {f : Option Pb.Function} {g : DirectGate} (hi : Inv w₀ s)
    (ht : Tables t s) (hg : FitGate s (.direct g)) :
    Safe w₀ ok i (fun f s => FitGate s (.direct { g with function := f }))
      (updateFunction f g.function) t s := by
  cases f with
  | none => exact .pure fun _ hs => FitGate.grow (g := .direct g) hg hs
  | some f =>
    refine .bind hi ht (safe_updateImage hi ht hg.1) fun a t₁ s₁ hi₁ ht₁ hs₁ ha => ?_
    refine .bind hi₁ ht₁ (safe_updateImage hi₁ ht₁ (hs₁.saved _ hg.2.1))
      fun r t₂ s₂ hi₂ ht₂ hs₂ hr => ?_
    refine .map _ (safe_updateImage hi₂ ht₂ ((hs₁.trans hs₂).saved _ hg.2.2)) fun k s' hs hk => ?_
    exact ⟨(hs₂.trans hs).saved _ ha, hs.saved _ hr, hk⟩

end Messages

/-! ### Syscalls -/

section Syscalls

variable (rounds : ℕ)

theorem safe_openEntry {fd : ℕ} {entry : Pb.OpenEntry} (hi : Inv w₀ s) (ht : Tables t s)
    (h : ok → entry.WellFormed) :
    Safe w₀ ok i (fun _ _ => True) (openEntry rounds fd entry) t s := by
  refine .bind hi ht (safe_dent hi ht fd) fun e t₁ s₁ hi₁ ht₁ _ he => ?_
  have opened : ∀ {u : Uid} {l : Buckle} {t₂ s₂}, Inv w₀ s₂ → Tables t₂ s₂ →
      Refers s₂ (.facetedDirectory u) → Safe w₀ ok i (fun _ _ => True) (do
        let dir ← FacetedDirectory.open' rounds u l
        return some (← newDent (.directory dir), DentKind.dentDirectory)) t₂ s₂ := by
    intro u l t₂ s₂ hi₂ ht₂ hu
    refine .bind hi₂ ht₂ (safe_open rounds hi₂ ht₂ hu) fun v t₃ s₃ hi₃ ht₃ _ hv => ?_
    exact .map _ (safe_newDent hi₃ ht₃ hv) fun _ _ _ _ => True.intro
  split
  · next baseDir name =>
    refine .bind hi₁ ht₁ (safe_list hi₁ ht₁ (he _ rfl)) fun es t₂ s₂ hi₂ ht₂ _ hes => ?_
    split
    · next e' hfound => exact .map _ (safe_newDent hi₂ ht₂ (hes name e' hfound)) fun _ _ _ _ => True.intro
    · exact .pure fun _ _ => True.intro
  · next baseDir label =>
    exact .bind hi₁ ht₁ (.unwrap' fun hok => h hok) fun l t₂ s₂ hi₂ ht₂ hs₂ _ =>
      opened hi₂ ht₂ (hs₂.refers _ (he _ rfl))
  · next baseDir labelName =>
    split
    · exact opened hi₁ ht₁ (he _ rfl)
    · exact .pure fun _ _ => True.intro
  · exact .pure fun _ _ => True.intro

theorem safe_dentOpen {fd : ℕ} {entry : Pb.OpenEntry} (hi : Inv w₀ s) (ht : Tables t s)
    (h : ok → entry.WellFormed) :
    Safe w₀ ok i (fun _ _ => True) (dentOpen rounds fd entry) t s := by
  refine .bind hi ht (safe_openEntry rounds hi ht h) fun r t₁ s₁ _ _ _ _ => ?_
  rcases r with _ | ⟨fd, kind⟩
  · exact .pure fun _ _ => True.intro
  · exact .pure fun _ _ => True.intro

omit [LabelCrate] in
theorem safe_dentClose (fd : ℕ) (hi : Inv w₀ s) (ht : Tables t s) :
    Safe w₀ ok i (fun _ _ => True) (dentClose fd) t s := by
  refine .bind hi ht (safe_amend hi ht fun r s' _ hr => ⟨fun fd' e he => ?_, hr.blobs⟩)
    fun _ _ _ _ _ _ _ => .pure fun _ _ => True.intro
  by_cases hfd : fd' = fd
  · subst hfd
    simp at he
  · rw [Thread.closeDent_dents, Function.update_of_ne hfd] at he
    exact hr.dents fd' e he

theorem safe_createEntry {kind : Pb.CreateKind} {label : Buckle} (hi : Inv w₀ s) (ht : Tables t s)
    (h : ok → kind.WellFormed) :
    Safe w₀ ok i (fun e s => Refers s e) (createEntry rounds kind label) t s := by
  cases kind with
  | directory => exact safe_createDirectory rounds hi ht
  | file => exact safe_createFile rounds hi ht
  | facetedDirectory => exact safe_createFacetedDirectory rounds hi ht
  | gate kind =>
    rcases kind with _ | dg | rd
    · exact .throwFs
    · exact .bind hi ht (safe_directGateOf hi ht h) fun g t₁ s₁ hi₁ ht₁ _ hg =>
        safe_createDirectGate rounds hi₁ ht₁ hg
    · refine .bind hi ht (safe_dent hi ht rd.gate) fun e t₁ s₁ hi₁ ht₁ _ he => ?_
      split
      · next gate =>
        refine .bind hi₁ ht₁ (safe_redirectGateOf hi₁ ht₁ h) fun g t₂ s₂ hi₂ ht₂ hs₂ hg => ?_
        exact safe_createRedirectGate rounds hi₂ ht₂ (hg ▸ hs₂.refers _ (he _ rfl))
      · exact .throwFs
  | service v =>
    exact .bind hi ht (safe_serviceOf hi ht h) fun v t₁ s₁ hi₁ ht₁ _ _ =>
      safe_createService rounds hi₁ ht₁
  | blob fd =>
    refine .bind hi ht (safe_inspect hi ht) fun b t₁ s₁ hi₁ ht₁ _ hb => ?_
    obtain ⟨r, hr, hb⟩ := hb
    cases b with
    | none => exact .throwFs
    | some b => exact safe_createBlob rounds hi₁ ht₁ (hr.blobs fd b hb.symm)

theorem safe_dentCreate {kind : Pb.CreateKind} {label : Option Buckle} (hi : Inv w₀ s)
    (ht : Tables t s) (h : ok → kind.WellFormed) :
    Safe w₀ ok i (fun _ _ => True) (dentCreate rounds kind label) t s := by
  refine .bind hi ht (safe_createEntry rounds hi ht h) fun e t₁ s₁ hi₁ ht₁ _ he => ?_
  exact .map _ (safe_newDent hi₁ ht₁ he) fun _ _ _ _ => True.intro

/-- A gate read for an update, and its references. -/
theorem safe_readGate {u : Uid} (hi : Inv w₀ s) (ht : Tables t s) (h : Refers s (.gate u)) :
    Safe w₀ ok i (fun g s => ∀ x, g = some x → FitGate s x) (readGate u) t s := by
  refine .bind hi ht (safe_get h.hasKind) fun v t₁ s₁ hi₁ ht₁ _ hv => ?_
  obtain ⟨x, rfl, hx⟩ := hv
  refine .map _ (safe_unlabel hi₁ ht₁ x) fun g s' hs hg y hy => ?_
  cases hy
  rw [hg]
  exact Fit.grow (o := .gate x) hx hs

theorem safe_updateGate {u : Uid} {kind : Pb.GateKind} (hi : Inv w₀ s) (ht : Tables t s)
    (hu : Refers s (.gate u)) (h : ok → kind.Patch) :
    Safe w₀ ok i (fun _ _ => True) (updateGate u kind) t s := by
  cases kind with
  | direct dg =>
    refine .bind hi ht (safe_readGate hi ht hu) fun g t₁ s₁ hi₁ ht₁ hs₁ hg => ?_
    split
    · next gate =>
      refine .bind hi₁ ht₁ (safe_updateFunction hi₁ ht₁ (hg _ rfl)) fun f t₂ s₂ hi₂ ht₂ hs₂ hf => ?_
      refine .bind hi₂ ht₂ (safe_updateComponent fun hok => (h hok).1)
        fun p t₃ s₃ hi₃ ht₃ hs₃ _ => ?_
      refine .bind hi₃ ht₃ (safe_updateComponent fun hok => (h hok).2)
        fun c t₄ s₄ hi₄ ht₄ hs₄ _ => ?_
      exact safe_replaceGate hi₄ ht₄ (((hs₁.trans hs₂).trans (hs₃.trans hs₄)).refers _ hu)
        (FitGate.grow (g := .direct { gate with function := f }) hf (hs₃.trans hs₄))
    · exact .throwFs
  | redirect rd =>
    refine .bind hi ht (safe_readGate hi ht hu) fun g t₁ s₁ hi₁ ht₁ hs₁ hg => ?_
    split
    · next gate =>
      refine .bind hi₁ ht₁ (safe_dent hi₁ ht₁ rd.gate) fun e t₂ s₂ hi₂ ht₂ hs₂ he => ?_
      split
      · next target =>
        refine .bind hi₂ ht₂ (safe_updateComponent fun hok => (h hok).1)
          fun p t₃ s₃ hi₃ ht₃ hs₃ _ => ?_
        refine .bind hi₃ ht₃ (safe_updateComponent fun hok => (h hok).2)
          fun c t₄ s₄ hi₄ ht₄ hs₄ _ => ?_
        exact safe_replaceGate hi₄ ht₄ (((hs₁.trans hs₂).trans (hs₃.trans hs₄)).refers _ hu)
          ((hs₃.trans hs₄).refers _ (he _ rfl))
      · exact .throwFs
    · exact .throwFs

theorem safe_updateEntry {fd : ℕ} {kind : Pb.UpdateKind} (hi : Inv w₀ s) (ht : Tables t s)
    (h : ok → kind.WellFormed) :
    Safe w₀ ok i (fun _ _ => True) (updateEntry fd kind) t s := by
  cases kind with
  | file data =>
    refine .bind hi ht (safe_dent hi ht fd) fun e t₁ s₁ hi₁ ht₁ _ he => ?_
    split
    · exact safe_writeFile hi₁ ht₁ (he _ rfl)
    · exact .throwFs
  | gate kind =>
    refine .bind hi ht (safe_dent hi ht fd) fun e t₁ s₁ hi₁ ht₁ _ he => ?_
    split
    · exact safe_updateGate hi₁ ht₁ (he _ rfl) h
    · exact .throwFs
  | service v =>
    refine .bind hi ht (safe_dent hi ht fd) fun e t₁ s₁ hi₁ ht₁ _ he => ?_
    split
    · exact .bind hi₁ ht₁ (safe_serviceOf hi₁ ht₁ h) fun v t₂ s₂ hi₂ ht₂ hs₂ _ =>
        safe_replaceService hi₂ ht₂ (hs₂.refers _ (he _ rfl))
    · exact .throwFs
  | blob blobFd =>
    refine .bind hi ht (safe_inspect hi ht) fun b t₁ s₁ hi₁ ht₁ _ hb => ?_
    obtain ⟨r, hr, hb⟩ := hb
    cases b with
    | none => exact .throwFs
    | some b =>
      refine .bind hi₁ ht₁ (safe_dent hi₁ ht₁ fd) fun e t₂ s₂ hi₂ ht₂ hs₂ he => ?_
      split
      · exact (safe_replaceBlob hi₂ ht₂ (he _ rfl).hasKind
          (hs₂.saved _ (hr.blobs blobFd b hb.symm))).trivial
      · exact .throwFs

theorem safe_dentRead {fd : ℕ} (hi : Inv w₀ s) (ht : Tables t s) :
    Safe w₀ ok i (fun _ _ => True) (dentRead fd) t s := by
  refine .bind hi ht (safe_dent hi ht fd) fun e t₁ s₁ hi₁ ht₁ _ he => ?_
  split
  · exact .map _ (safe_read hi₁ ht₁ (he _ rfl).hasKind) fun _ _ _ _ => True.intro
  · exact .pure fun _ _ => True.intro

theorem safe_dentList {fd : ℕ} (hi : Inv w₀ s) (ht : Tables t s) :
    Safe w₀ ok i (fun _ _ => True) (dentList fd) t s := by
  refine .bind hi ht (safe_dent hi ht fd) fun e t₁ s₁ hi₁ ht₁ _ he => ?_
  split
  · exact .map _ (safe_list hi₁ ht₁ (he _ rfl)) fun _ _ _ _ => True.intro
  · exact .pure fun _ _ => True.intro

theorem safe_dentListFaceted {fd : ℕ} {clearance : Buckle} (hi : Inv w₀ s) (ht : Tables t s) :
    Safe w₀ ok i (fun _ _ => True) (dentListFaceted fd clearance) t s := by
  refine .bind hi ht (safe_dent hi ht fd) fun e t₁ s₁ hi₁ ht₁ _ he => ?_
  split
  · exact .map _ (safe_listFaceted hi₁ ht₁ (he _ rfl)) fun _ _ _ _ => True.intro
  · exact .pure fun _ _ => True.intro

omit [LabelCrate] in
theorem safe_openImage {name : String} (hi : Inv w₀ s) (ht : Tables t s) (hok : ok → Files w₀)
    (hn : Saved s.world.blobstore name) :
    Safe w₀ ok i (fun _ _ => True) (openImage name) t s := by
  refine .bind hi ht (safe_newBlobId hi ht) fun fd t₁ s₁ hi₁ ht₁ hs₁ _ => ?_
  refine .bind hi₁ ht₁ (safe_openExpect hi₁ ht₁ fun h => ⟨hok h, hs₁.saved _ hn⟩)
    fun b t₂ s₂ hi₂ ht₂ _ hb => ?_
  exact .map _ (safe_putBlob hi₂ ht₂ hb) fun _ _ _ _ => True.intro

omit [LabelCrate] in
theorem safe_showGate {g : Gate} (hi : Inv w₀ s) (ht : Tables t s) (hok : ok → Files w₀)
    (hg : FitGate s g) : Safe w₀ ok i (fun _ _ => True) (showGate g) t s := by
  cases g with
  | redirect g => exact .pure fun _ _ => True.intro
  | direct g =>
    refine .bind hi ht (safe_openImage hi ht hok hg.1) fun a t₁ s₁ hi₁ ht₁ hs₁ _ => ?_
    refine .bind hi₁ ht₁ (safe_openImage hi₁ ht₁ hok (hs₁.saved _ hg.2.1))
      fun r t₂ s₂ hi₂ ht₂ hs₂ _ => ?_
    exact .map _ (safe_openImage hi₂ ht₂ hok ((hs₁.trans hs₂).saved _ hg.2.2))
      fun _ _ _ _ => True.intro

theorem safe_dentLsGate {fd : ℕ} (hi : Inv w₀ s) (ht : Tables t s) (hok : ok → Files w₀) :
    Safe w₀ ok i (fun _ _ => True) (dentLsGate fd) t s := by
  refine .bind hi ht (safe_dent hi ht fd) fun e t₁ s₁ hi₁ ht₁ _ he => ?_
  split
  · refine .bind hi₁ ht₁ (safe_read hi₁ ht₁ (he _ rfl).hasKind) fun g t₂ s₂ hi₂ ht₂ _ hg => ?_
    obtain ⟨l, hg⟩ := hg
    exact .map _ (safe_showGate hi₂ ht₂ hok hg) fun _ _ _ _ => True.intro
  · exact .pure fun _ _ => True.intro

theorem safe_dentLink {dirFd targetFd : ℕ} {name : String} (hi : Inv w₀ s) (ht : Tables t s) :
    Safe w₀ ok i (fun _ _ => True) (dentLink rounds dirFd name targetFd) t s := by
  refine .bind hi ht (safe_dent hi ht dirFd) fun e t₁ s₁ hi₁ ht₁ _ he => ?_
  refine .bind hi₁ ht₁ (safe_dent hi₁ ht₁ targetFd) fun e' t₂ s₂ hi₂ ht₂ hs₂ he' => ?_
  split
  · refine .bind hi₂ ht₂ (safe_link rounds hi₂ ht₂ (hs₂.refers _ (he _ rfl)) (he' _ rfl)).result
      fun r t₃ s₃ _ _ _ _ => ?_
    cases r with
    | ok _ => exact .pure fun _ _ => True.intro
    | error _ => exact .pure fun _ _ => True.intro
  · exact .pure fun _ _ => True.intro

theorem safe_dentUnlink {fd : ℕ} {name : String} (hi : Inv w₀ s) (ht : Tables t s) :
    Safe w₀ ok i (fun _ _ => True) (dentUnlink rounds fd name) t s := by
  refine .bind hi ht (safe_dent hi ht fd) fun e t₁ s₁ hi₁ ht₁ _ he => ?_
  split
  · refine .bind hi₁ ht₁ (safe_unlink rounds hi₁ ht₁ (he _ rfl)).result fun r t₂ s₂ _ _ _ _ => ?_
    cases r with
    | ok _ => exact .pure fun _ _ => True.intro
    | error _ => exact .pure fun _ _ => True.intro
  · exact .pure fun _ _ => True.intro

/-! ### Invocations -/

theorem safe_taintWithLabel (l : Buckle) (hi : Inv w₀ s) (ht : Tables t s) :
    Safe w₀ ok i (fun _ _ => True) (Faasten.taintWithLabel l) t s :=
  safe_withCurrentLabel hi ht fun _ => ⟨_, _, rfl, True.intro⟩

theorem safe_declassifyWith (p : Component) (hi : Inv w₀ s) (ht : Tables t s) :
    Safe w₀ ok i (fun _ _ => True) (declassifyWith p) t s :=
  safe_withCurrentLabel hi ht fun _ => ⟨_, _, rfl, True.intro⟩

variable (hdigest : ∀ bytes, Blobstore.splitsAtTwo (w₀.host.digestHex bytes) = true)

include hdigest in
omit [LabelCrate] in
theorem safe_toBlob (content : Bytes) (hi : Inv w₀ s) (ht : Tables t s) (hok : ok → Files w₀) :
    Safe w₀ ok i (fun _ _ => True) (toBlob content) t s := by
  refine .bind hi ht (safe_storeExpect hdigest hok content hi ht) fun b t₁ s₁ hi₁ ht₁ _ hb => ?_
  refine .bind hi₁ ht₁ (safe_newBlobId hi₁ ht₁) fun fd t₂ s₂ hi₂ ht₂ hs₂ _ => ?_
  exact .map _ (safe_putBlob hi₂ ht₂ (hs₂.saved _ hb)) fun _ _ _ _ => True.intro

include hdigest in
theorem safe_receive {toblob : Bool} {res : TaskReturn} (hi : Inv w₀ s) (ht : Tables t s)
    (hok : ok → Files w₀) (h : ok → Pb.ConvertibleLabel res.label ∧ res.payload ≠ none) :
    Safe w₀ ok i (fun _ _ => True) (receive toblob res) t s := by
  refine .bind hi ht (safe_labelOrPublic fun hok => (h hok).1) fun l t₁ s₁ hi₁ ht₁ _ _ => ?_
  refine .bind hi₁ ht₁ (safe_taintWithLabel l hi₁ ht₁) fun _ t₂ s₂ hi₂ ht₂ _ _ => ?_
  refine .bind hi₂ ht₂ (.unwrap' fun hok => (h hok).2) fun p t₃ s₃ hi₃ ht₃ _ _ => ?_
  split_ifs
  · exact .map _ (safe_toBlob hdigest _ hi₃ ht₃ hok) fun _ _ _ _ => True.intro
  · exact .pure fun _ _ => True.intro

include hdigest in
theorem safe_invokeGate {u : Uid} {sync toblob : Bool} {payload : Bytes}
    {parameters : ExtTreeMap String String compare} (hi : Inv w₀ s) (ht : Tables t s)
    (hu : Refers s (.gate u)) (h : ok → Reliable w₀) :
    Safe w₀ ok i (fun _ _ => True) (invokeGate rounds u sync payload toblob parameters) t s := by
  refine .bind hi ht (safe_toInvokable rounds hi ht hu) fun g t₁ s₁ hi₁ ht₁ _ _ => ?_
  refine .bind hi₁ ht₁ (safe_getPrivilege hi₁ ht₁) fun p t₂ s₂ hi₂ ht₂ _ _ => ?_
  refine .ite (fun _ => ?_) fun _ => .pure fun _ _ => True.intro
  refine .bind hi₂ ht₂ safe_schedConn fun c t₃ s₃ hi₃ ht₃ _ hc => ?_
  refine .ite (fun _ => ?_) fun hconn => .raise fun hok => absurd (hc.trans (h hok).conn) hconn
  refine .bind hi₃ ht₃ (safe_getCurrentLabel hi₃ ht₃) fun l t₄ s₄ hi₄ ht₄ _ _ => ?_
  refine .bind hi₄ ht₄ (safe_getPrivilege hi₄ ht₄) fun p' t₅ s₅ hi₅ ht₅ _ _ => ?_
  refine .bind hi₅ ht₅ (safe_schedWrite _) fun b t₆ s₆ hi₆ ht₆ _ _ => ?_
  refine .ite (fun _ => ?_) fun _ => .pure fun _ _ => True.intro
  refine .ite (fun _ => ?_) fun _ => .pure fun _ _ => True.intro
  refine .bind hi₆ ht₆ safe_schedRead fun r t₇ s₇ hi₇ ht₇ _ hr => ?_
  obtain ⟨ms, hr⟩ := hr
  cases r with
  | some res =>
    exact safe_receive hdigest hi₇ ht₇ (fun hok => (h hok).files) fun hok =>
      (h hok).answer ms res hr.symm
  | none => exact .pure fun _ _ => True.intro

omit [LabelCrate] in
theorem safe_httpSend {v : Service} {body : Option Bytes}
    {parameters : ExtTreeMap String String compare} (hi : Inv w₀ s) (ht : Tables t s)
    (h : ok → Reliable w₀) :
    Safe w₀ ok i (fun r _ => ∀ x, r = some x → ok → x.body ≠ none) (httpSend v body parameters)
      t s := by
  refine .bind hi ht safe_host fun host t₁ s₁ hi₁ ht₁ _ hh => ?_
  subst hh
  split
  · exact .pure fun _ _ _ hx => by cases hx
  · split_ifs with hheaders
    · refine (safe_httpRequest _).mono fun r s' _ hr x hx hok => ?_
      obtain ⟨qs, hr⟩ := hr
      exact (h hok).body qs x (hr.symm.trans hx)
    · exact .pure fun _ _ _ hx => by cases hx
    · refine .raise fun hok => absurd ?_ hheaders
      exact List.all_eq_true.2 fun x _ => (h hok).header _ _

include hdigest in
theorem safe_invokeService {u : Uid} {toblob : Bool} {payload : Bytes}
    {parameters : ExtTreeMap String String compare} (hi : Inv w₀ s) (ht : Tables t s)
    (hu : Refers s (.service u)) (h : ok → Reliable w₀) :
    Safe w₀ ok i (fun _ _ => True) (invokeService u payload toblob parameters) t s := by
  refine .bind hi ht (safe_read hi ht hu.hasKind) fun v t₁ s₁ hi₁ ht₁ _ _ => ?_
  refine .bind hi₁ ht₁ (safe_getPrivilege hi₁ ht₁) fun p t₂ s₂ hi₂ ht₂ _ _ => ?_
  refine .ite (fun _ => ?_) fun _ => .pure fun _ _ => True.intro
  refine .bind hi₂ ht₂ (safe_declassifyWith _ hi₂ ht₂) fun _ t₃ s₃ hi₃ ht₃ _ _ => ?_
  refine .bind hi₃ ht₃ (safe_httpSend hi₃ ht₃ h) fun r t₄ s₄ hi₄ ht₄ _ hr => ?_
  refine .bind hi₄ ht₄ (safe_taintWithLabel _ hi₄ ht₄) fun _ t₅ s₅ hi₅ ht₅ _ _ => ?_
  cases r with
  | none => exact .pure fun _ _ => True.intro
  | some r =>
    refine .ite (fun _ => ?_) fun _ => .pure fun _ _ => True.intro
    refine .bind hi₅ ht₅ (.unwrap' fun hok => hr r rfl hok) fun b t₆ s₆ hi₆ ht₆ _ _ => ?_
    exact .map _ (safe_toBlob hdigest _ hi₆ ht₆ fun hok => (h hok).files)
      fun _ _ _ _ => True.intro

include hdigest in
theorem safe_dentInvoke {fd : ℕ} {sync toblob : Bool} {payload : Bytes}
    {parameters : ExtTreeMap String String compare} (hi : Inv w₀ s) (ht : Tables t s)
    (h : ok → Reliable w₀) :
    Safe w₀ ok i (fun _ _ => True) (dentInvoke rounds fd sync payload toblob parameters) t s := by
  refine .bind hi ht (safe_dent hi ht fd) fun e t₁ s₁ hi₁ ht₁ _ he => ?_
  split
  · exact .map _ (safe_invokeGate rounds hdigest hi₁ ht₁ (he _ rfl) h) fun _ _ _ _ => True.intro
  · exact .map _ (safe_invokeService hdigest hi₁ ht₁ (he _ rfl) h) fun _ _ _ _ => True.intro
  · exact .pure fun _ _ => True.intro

/-! ### Blobs -/

theorem safe_dentGetBlob {fd : ℕ} (hi : Inv w₀ s) (ht : Tables t s) (hok : ok → Files w₀) :
    Safe w₀ ok i (fun _ _ => True) (dentGetBlob fd) t s := by
  refine .bind hi ht (safe_dent hi ht fd) fun e t₁ s₁ hi₁ ht₁ _ he => ?_
  split
  · refine .bind hi₁ ht₁ (safe_readBlob hi₁ ht₁ (he _ rfl)) fun name t₂ s₂ hi₂ ht₂ _ hn => ?_
    refine .bind hi₂ ht₂ (safe_openExpect hi₂ ht₂ fun h => ⟨hok h, hn⟩)
      fun b t₃ s₃ hi₃ ht₃ _ hb => ?_
    refine .bind hi₃ ht₃ (safe_newBlobId hi₃ ht₃) fun fd' t₄ s₄ hi₄ ht₄ hs₄ _ => ?_
    refine .bind hi₄ ht₄ (safe_lenExpect hok b hi₄ ht₄) fun len t₅ s₅ hi₅ ht₅ hs₅ _ => ?_
    exact .map _ (safe_putBlob hi₅ ht₅ ((hs₄.trans hs₅).saved _ hb)) fun _ _ _ _ => True.intro
  · exact .pure fun _ _ => True.intro

omit [LabelCrate] in
theorem safe_blobCreate (hi : Inv w₀ s) (ht : Tables t s) :
    Safe w₀ ok i (fun _ _ => True) blobCreate t s := by
  refine .bind hi ht (safe_create hi ht) fun r t₁ s₁ hi₁ ht₁ _ _ => ?_
  rcases r with e | b
  · exact .pure fun _ _ => True.intro
  refine .bind hi₁ ht₁ (safe_newBlobId hi₁ ht₁) fun fd t₂ s₂ hi₂ ht₂ _ _ => ?_
  exact .map _ (safe_amend hi₂ ht₂ fun _ _ _ hr => ⟨hr.dents, hr.blobs⟩) fun _ _ _ _ => True.intro

omit [LabelCrate] in
theorem safe_blobWrite {fd : ℕ} {data : Bytes} (hi : Inv w₀ s) (ht : Tables t s) :
    Safe w₀ ok i (fun _ _ => True) (blobWrite fd data) t s := by
  refine .bind hi ht (safe_inspect hi ht) fun b t₁ s₁ hi₁ ht₁ _ _ => ?_
  cases b with
  | none => exact .pure fun _ _ => True.intro
  | some b =>
    refine .bind hi₁ ht₁ (safe_writeBlob b data hi₁ ht₁) fun r t₂ s₂ hi₂ ht₂ _ _ => ?_
    rcases r with e | ⟨n, b'⟩
    · exact .pure fun _ _ => True.intro
    · exact .map _ (safe_amend hi₂ ht₂ fun _ _ _ hr => ⟨hr.dents, hr.blobs⟩)
        fun _ _ _ _ => True.intro

include hdigest in
omit [LabelCrate] in
theorem safe_blobFinalize {fd : ℕ} (hi : Inv w₀ s) (ht : Tables t s) :
    Safe w₀ ok i (fun _ _ => True) (blobFinalize fd) t s := by
  refine .bind hi ht (safe_inspect hi ht) fun b t₁ s₁ hi₁ ht₁ _ _ => ?_
  cases b with
  | none => exact .pure fun _ _ => True.intro
  | some b =>
    refine .bind hi₁ ht₁ (safe_amend hi₁ ht₁ fun _ _ _ hr => ⟨hr.dents, hr.blobs⟩)
      fun _ t₂ s₂ hi₂ ht₂ _ _ => ?_
    refine .bind hi₂ ht₂ (safe_save hdigest b hi₂ ht₂) fun r t₃ s₃ hi₃ ht₃ _ hr => ?_
    rcases r with e | b'
    · exact .pure fun _ _ => True.intro
    · exact .map _ (safe_putBlob hi₃ ht₃ (hr.1 b' rfl)) fun _ _ _ _ => True.intro

omit [LabelCrate] in
theorem safe_blobRead {fd offset length : ℕ} (hi : Inv w₀ s) (ht : Tables t s)
    (h : ok → length < 2 ^ 63) :
    Safe w₀ ok i (fun _ _ => True) (blobRead fd offset length) t s := by
  refine .bind hi ht (safe_inspect hi ht) fun b t₁ s₁ hi₁ ht₁ _ _ => ?_
  cases b with
  | none => exact .pure fun _ _ => True.intro
  | some b =>
    refine .ite (fun _ => ?_) fun hlong => .raise fun hok => absurd (h hok) hlong
    refine .bind hi₁ ht₁ (safe_readAt b offset length hi₁ ht₁) fun r t₂ s₂ _ _ _ _ => ?_
    cases r with
    | ok _ => exact .pure fun _ _ => True.intro
    | error _ => exact .pure fun _ _ => True.intro

omit [LabelCrate] in
theorem safe_blobClose {fd : ℕ} (hi : Inv w₀ s) (ht : Tables t s) :
    Safe w₀ ok i (fun _ _ => True) (blobClose fd) t s := by
  refine .bind hi ht (safe_inspect hi ht) fun b t₁ s₁ hi₁ ht₁ _ _ => ?_
  cases b with
  | none => exact .pure fun _ _ => True.intro
  | some b =>
    refine .map _ (safe_amend hi₁ ht₁ fun r _ _ hr => ⟨hr.dents, fun fd' b' hb' => ?_⟩)
      fun _ _ _ _ => True.intro
    by_cases hfd : fd' = fd
    · subst hfd
      simp at hb'
    · rw [Thread.closeBlob_blobs, Function.update_of_ne hfd] at hb'
      exact hr.blobs fd' b' hb'

/-! ### The dispatch -/

omit [LabelCrate] in
theorem safe_orFailure {m : M Pb.Reply} (hi : Inv w₀ s) (ht : Tables t s)
    (hm : Safe w₀ ok i (fun _ _ => True) m t s) :
    Safe w₀ ok i (fun _ _ => True) (orFailure m) t s := by
  refine .bind hi ht hm.result fun r t₁ s₁ _ _ _ _ => ?_
  cases r with
  | ok _ => exact .pure fun _ _ => True.intro
  | error _ => exact .pure fun _ _ => True.intro

theorem safe_createArm {label : Option Pb.Buckle} {kind : Option Pb.CreateKind} (hi : Inv w₀ s)
    (ht : Tables t s) (h : ok → (Pb.Syscall.dentCreate label kind).WellFormed) :
    Safe w₀ ok i (fun _ _ => True) (create rounds label kind) t s := by
  refine .bind hi ht (safe_convertLabel fun hok => (h hok).1) fun l t₁ s₁ hi₁ ht₁ _ _ => ?_
  cases kind with
  | none => exact .pure fun _ _ => True.intro
  | some kind =>
    exact safe_orFailure hi₁ ht₁ (safe_dentCreate rounds hi₁ ht₁ fun hok => (h hok).2 kind rfl)

theorem safe_updateArm {fd : ℕ} {kind : Option Pb.UpdateKind} (hi : Inv w₀ s) (ht : Tables t s)
    (h : ok → (Pb.Syscall.dentUpdate fd kind).WellFormed) :
    Safe w₀ ok i (fun _ _ => True) (update fd kind) t s := by
  cases kind with
  | none => exact .pure fun _ _ => True.intro
  | some kind =>
    refine safe_orFailure hi ht (.bind hi ht (safe_updateEntry hi ht fun hok => h hok kind rfl)
      fun _ _ _ _ _ _ _ => .pure fun _ _ => True.intro)

theorem safe_declassify (c : Component) (hi : Inv w₀ s) (ht : Tables t s) :
    Safe w₀ ok i (fun _ _ => True) (declassify c) t s := by
  refine .bind hi ht (safe_getPrivilege hi ht) fun p t₁ s₁ hi₁ ht₁ _ _ => ?_
  refine safe_withCurrentLabel hi₁ ht₁ fun l => ?_
  refine ⟨if implies (LabelCrate.and c p) l.secrecy then .ok ⟨c, l.integrity⟩ else .error l, l, ?_,
    True.intro⟩
  split_ifs with h <;>
    simp [Access.run, Access.clone, Access.borrow, Access.release, h, StateT.run, bind,
      StateT.bind, pure, StateT.pure]

/-- The overlapping borrows of this arm always panic. -/
theorem safe_taint (l : Pb.Buckle) (hi : Inv w₀ s) (ht : Tables t s) (hno : ok → False) :
    Safe w₀ ok i (fun _ _ => True) (taint l) t s := by
  refine .bind hi ht (.unwrap' fun hok => (hno hok).elim) fun l t₁ s₁ hi₁ ht₁ _ _ => ?_
  refine .bind (B := fun _ _ => True) hi₁ ht₁ ?_ fun _ _ _ _ _ _ _ => .pure fun _ _ => True.intro
  refine .bind hi₁ ht₁ safe_thread fun r t₂ s₂ hi₂ ht₂ _ hr => ?_
  split
  · exact .bind hi₂ ht₂ (safe_setThread ⟨hr.dents, hr.blobs⟩) fun _ _ _ _ _ _ _ =>
      .pure fun _ _ => True.intro
  · exact .raise fun hok => (hno hok).elim

include hdigest in
theorem safe_serve {sc : Pb.Syscall} (hi : Inv w₀ s) (ht : Tables t s) (hrel : ok → Reliable w₀)
    (hsc : ok → sc.WellFormed) (hresp : ∀ r, sc ≠ .response r) :
    Safe w₀ ok i (fun _ _ => True) (serve rounds sc) t s := by
  have hfiles : ok → Files w₀ := fun hok => (hrel hok).files
  cases sc with
  | response r => exact absurd rfl (hresp r)
  | buckleParse l => exact .pure fun _ _ => True.intro
  | getCurrentLabel => exact .map _ (safe_getCurrentLabel hi ht) fun _ _ _ _ => True.intro
  | taintWithLabel l => exact safe_taint l hi ht hsc
  | declassify c =>
    refine .bind hi ht (.unwrap' hsc) fun c t₁ s₁ hi₁ ht₁ _ _ => ?_
    refine .bind hi₁ ht₁ (safe_declassify c hi₁ ht₁) fun r t₂ s₂ _ _ _ _ => ?_
    cases r with
    | ok _ => exact .pure fun _ _ => True.intro
    | error _ => exact .pure fun _ _ => True.intro
  | subPrivilege _ => exact .raise fun hok => (hsc hok).elim
  | root => exact .pure fun _ _ => True.intro
  | dentOpen fd entry =>
    refine .bind hi ht (.unwrap' fun hok => ?_) fun e t₁ s₁ hi₁ ht₁ _ he => ?_
    · obtain ⟨x, hx, -⟩ := hsc hok
      simp [hx]
    · refine safe_dentOpen rounds hi₁ ht₁ fun hok => ?_
      obtain ⟨x, hx, hwf⟩ := hsc hok
      cases he.symm.trans hx
      exact hwf
  | dentClose fd => exact safe_dentClose fd hi ht
  | dentCreate label kind => exact safe_createArm rounds hi ht hsc
  | dentUpdate fd kind => exact safe_updateArm hi ht hsc
  | dentRead fd => exact safe_dentRead hi ht
  | dentList fd => exact safe_dentList hi ht
  | dentLsFaceted fd clearance =>
    exact .bind hi ht (safe_labelOrPublic hsc) fun l t₁ s₁ hi₁ ht₁ _ _ =>
      safe_dentListFaceted hi₁ ht₁
  | dentLsGate fd => exact safe_dentLsGate hi ht hfiles
  | dentLink dirFd name targetFd => exact safe_dentLink rounds hi ht
  | dentUnlink fd name => exact safe_dentUnlink rounds hi ht
  | dentInvoke fd sync payload toblob parameters =>
    exact safe_dentInvoke rounds hdigest hi ht hrel
  | dentGetBlob fd => exact safe_dentGetBlob hi ht hfiles
  | blobCreate _ => exact safe_blobCreate hi ht
  | blobWrite fd data => exact safe_blobWrite hi ht
  | blobFinalize fd => exact safe_blobFinalize hdigest hi ht
  | blobRead fd offset length => exact safe_blobRead hi ht hsc
  | blobClose fd => exact safe_blobClose hi ht

include hdigest in
theorem safe_doSyscall {sc : Pb.Syscall} (hi : Inv w₀ s) (ht : Tables t s)
    (hrel : ok → Reliable w₀) (hsc : ok → sc.WellFormed) :
    Safe w₀ ok i (fun _ _ => True) (doSyscall rounds sc) t s := by
  by_cases hresp : ∃ r, sc = .response r
  · obtain ⟨r, rfl⟩ := hresp
    refine .map _ (.bind (R := fun _ _ => True) hi ht (safe_getPrivilege hi ht)
      fun p t₁ s₁ hi₁ ht₁ _ _ => ?_) fun _ _ _ _ => True.intro
    exact .map _ (safe_declassifyWith p hi₁ ht₁) fun _ _ _ _ => True.intro
  · have hne : ∀ r, sc ≠ .response r := fun r hr => hresp ⟨r, hr⟩
    have heq : doSyscall rounds sc = do return .sent (← serve rounds sc) := by
      cases sc with
      | response r => exact absurd rfl (hne r)
      | _ => rfl
    rw [heq]
    exact .map _ (safe_serve rounds hdigest hi ht hrel hsc hne) fun _ _ _ _ => True.intro

include hdigest in
/-- A guest is served syscall after syscall. -/
theorem safe_loop {guest : Guest} (n : ℕ) {replies : List Pb.Reply} (hi : Inv w₀ s)
    (ht : Tables t s) (hrel : ok → Reliable w₀)
    (hguest : ok → ∀ replies sc, guest replies = some sc → sc.WellFormed) :
    Safe w₀ ok i (fun _ _ => True) (loop rounds guest n replies) t s := by
  induction n generalizing t s replies with
  | zero => exact .raise fun _ h => by cases h
  | succ n ih =>
    unfold loop
    cases hsc : guest replies with
    | none => exact .pure fun _ _ => True.intro
    | some sc =>
      refine .bind hi ht (safe_doSyscall rounds hdigest hi ht hrel fun hok => hguest hok _ sc hsc)
        fun o t₁ s₁ hi₁ ht₁ _ _ => ?_
      cases o with
      | sent reply => exact ih hi₁ ht₁
      | returned result => exact .pure fun _ _ => True.intro

end Syscalls

end Integrity

end Faasten
