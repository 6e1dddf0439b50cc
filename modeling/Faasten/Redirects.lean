import Mathlib
import Faasten.DcLabels
import Faasten.Graph.Acyclic
import Faasten.System

/-!
# Resolving gates

`to_invokable` follows redirects until it comes to a direct gate. It returns if every reference leads
to an object of its kind, so that no `unwrap` fails, and if the redirects form no cycle.

The first is an invariant of all runs: objects are never removed and keep their kind, and what is
stored or opened refers only to what is already known. The second is not: a gate is created with a
target that is older than itself, but `DentUpdate` lets a redirect gate lead to any gate that the
thread has open, be it the gate itself. `gate_resolution_terminates` is about the runs in which no
update leads a gate to one that already leads back to it, and `SelfRedirect` is a run with one that
does.
-/

namespace Faasten

open Std Effect Relation

/-- The gate `u` redirects to `t`. -/
def World.Redirect (w : World) (u t : Uid) : Prop :=
  ∃ l g, w.store u = some (.object (.gate ⟨l, .redirect g⟩)) ∧ g.gate = t

/-- Every reference leads to an object of its kind, and the redirects form no cycle. -/
structure Sound (w : World) : Prop where
  dents : ∀ fd e, w.dents fd = some e → w.Refers e
  refs : ∀ u o, w.store u = some (.object o) → ∀ e ∈ o.refs, w.Refers e
  root : w.Refers (.directory FS.rootRef)
  acyclic : Graph.Acyclic w.Redirect

theorem Sound.known {w : World} (h : Sound w) {e : DirEntry} (he : w.Known e) : w.Refers e := by
  rcases he with ⟨fd, he⟩ | ⟨u, o, hu, he⟩ | he
  · exact h.dents fd e he
  · exact h.refs u o hu e he
  · exact he

/-- A gate to which nothing is stored yet has no gate leading to it. -/
theorem Sound.not_reaches_vacant {w : World} (h : Sound w) {t u : Uid} (ht : w.Refers (.gate t))
    (hu : w.Vacant u) : ¬ ReflTransGen w.Redirect t u := by
  intro hr
  rcases hr.cases_tail with rfl | ⟨z, -, l, g, hz, rfl⟩
  · obtain ⟨o, ho, -⟩ := ht
    exact hu o ho
  · obtain ⟨o, ho, -⟩ := h.refs z _ hz (.gate g.gate) rfl
    exact hu o ho

section Invariant

variable [LabelCrate] {P : Policy} {w : World}

/-- What a policy has to say for references to stay sound. -/
structure Policy.Sound (P : Policy) : Prop where
  holds : ∀ w e, P.holds w e → w.Known e ∨ e = .directory FS.rootRef
  refs : ∀ w u old o, P.stores w u old o → ∀ e ∈ o.refs, w.Known e
  redirect : ∀ w u old l g, P.stores w u old (.gate ⟨l, .redirect g⟩) → old = none ∨
    ¬ ReflTransGen w.Redirect g.gate u

theorem Refers.put {u : Uid} {o : Object} (ho : Stores P w u o) {e : DirEntry} (he : w.Refers e) :
    ({ w with store := w.store.put u (.object o) } : World).Refers e := by
  obtain ⟨ob, hob, hk⟩ := he
  obtain ⟨ob', hob', hk', -⟩ := (ho.put_heads ⟨ob, hob, rfl, rfl⟩).1
  exact ⟨ob', hob', hk'.trans hk⟩

/-- The redirects after a permitted write: those before, and the one that was written. -/
theorem acyclic_put (hP : P.Sound) (hw : Sound w) {u : Uid} {o : Object} (ho : Stores P w u o) :
    Graph.Acyclic ({ w with store := w.store.put u (.object o) } : World).Redirect := by
  by_cases hr : ∃ l g, o = .gate ⟨l, .redirect g⟩
  · obtain ⟨l, g, rfl⟩ := hr
    have hnot : ¬ ReflTransGen w.Redirect g.gate u := by
      rcases ho.place with ⟨hvac, hst⟩ | ⟨old, -, -, hst⟩
      · exact hw.not_reaches_vacant (hw.known (hP.refs w u _ _ hst _ rfl)) hvac
      · exact (hP.redirect w u _ l g hst).resolve_left nofun
    refine hw.acyclic.repoint ?_ hnot
    rintro a b ⟨l', g', ha, rfl⟩
    rcases Store.of_put ha with ⟨rfl, h⟩ | ha
    · cases h; exact .inr ⟨rfl, rfl⟩
    · exact .inl ⟨l', g', ha, rfl⟩
  · refine hw.acyclic.mono ?_
    rintro a b ⟨l', g', ha, rfl⟩
    rcases Store.of_put ha with ⟨rfl, h⟩ | ha
    · cases h; exact absurd ⟨l', g', rfl⟩ hr
    · exact ⟨l', g', ha, rfl⟩

theorem Stores.sound (hP : P.Sound) (hw : Sound w) {u : Uid} {o : Object} (ho : Stores P w u o) :
    Sound { w with store := w.store.put u (.object o) } where
  dents fd e he := Refers.put ho (hw.dents fd e he)
  refs x ob hx e he := by
    refine Refers.put ho ?_
    rcases Store.of_put hx with ⟨rfl, h⟩ | hx
    · cases h
      rcases ho.place with ⟨-, hst⟩ | ⟨old, -, -, hst⟩
      · exact hw.known (hP.refs w x _ _ hst e he)
      · exact hw.known (hP.refs w x _ _ hst e he)
    · exact hw.refs x ob hx e he
  root := Refers.put ho hw.root
  acyclic := acyclic_put hP hw ho

omit [LabelCrate] in
/-- Reserving a free uid changes no object. -/
theorem Sound.reserve (hw : Sound w) {u : Uid} (hu : w.store u = none) :
    Sound { w with store := w.store.put u .reserved } := by
  have hkeep : ∀ {e}, w.Refers e →
      ({ w with store := w.store.put u .reserved } : World).Refers e := by
    rintro e ⟨o, ho, hk⟩
    have hne : e.uid ≠ u := fun h => by simp [← h, ho] at hu
    exact ⟨o, (Store.put_of_ne _ _ hne).trans ho, hk⟩
  have hold : ∀ {x o}, w.store.put u .reserved x = some (.object o) →
      w.store x = some (.object o) := by
    intro x o hx
    rcases Store.of_put hx with ⟨-, h⟩ | hx
    · cases h
    · exact hx
  refine ⟨fun fd e he => hkeep (hw.dents fd e he), fun x o hx e he =>
    hkeep (hw.refs x o (hold hx) e he), hkeep hw.root, hw.acyclic.mono ?_⟩
  rintro a b ⟨l, g, ha, rfl⟩
  exact ⟨l, g, hold ha, rfl⟩

/-- One operation keeps references sound, under a policy that does. -/
theorem Permits.sound (hP : P.Sound) {op : Op} (h : Permits P w op) (hw : Sound w) :
    Sound (perform op w).2 := by
  cases op with
  | setThread t =>
    refine ⟨fun fd e he => ?_, hw.refs, hw.root, hw.acyclic⟩
    rcases h.dents fd e he with he | he
    · exact hw.dents fd e he
    · rcases hP.holds w e he with he | rfl
      · exact hw.known he
      · exact hw.root
  | put u v =>
    obtain ⟨o, rfl, ho⟩ := h
    exact ho.sound hP hw
  | add u v =>
    rw [perform_add]
    split_ifs with hu
    · cases h
      exact hw.reserve hu
    · exact hw
  | cas u e v =>
    rw [perform_cas]
    split_ifs with hc
    · obtain ⟨o, rfl, ho⟩ := h hc
      exact ho.sound hP hw
    · exact hw
  | schedWrite m =>
    rw [perform_schedWrite]
    split_ifs
    · exact ⟨hw.dents, hw.refs, hw.root, hw.acyclic⟩
    · exact hw
  | _ => exact ⟨hw.dents, hw.refs, hw.root, hw.acyclic⟩

/-- The same, seen from another thread: its descriptors stay sound too. -/
theorem Permits.sound_other (hP : P.Sound) {op : Op} {t : Thread} (h : Permits P w op)
    (hw : Sound w) (ht : Sound (w.withThread t)) : Sound ((perform op w).2.withThread t) := by
  have hw' := h.sound hP hw
  refine ⟨fun fd e he => ?_, hw'.refs, hw'.root, hw'.acyclic⟩
  obtain ⟨o, ho, hk⟩ := ht.dents fd e he
  obtain ⟨o', ho', hk', -⟩ := (h.heads ⟨o, ho, rfl, rfl⟩).1
  exact ⟨o', ho', hk'.trans hk⟩

/-- The syscall leads no gate to one that already leads back to it. -/
def KeepsAcyclic (w : World) (sc : Pb.Syscall) : Prop :=
  ∀ u t, sc.Redirects w u t → ¬ ReflTransGen w.Redirect t u

theorem syscallPolicy_sound {sc : Pb.Syscall} (h : KeepsAcyclic w sc) :
    (syscallPolicy w sc).Sound where
  holds _ _ := .inl
  refs _ _ _ _ hst := hst.refs
  redirect w' u old l g hst := by
    rcases hst.redirect l g rfl with hn | ⟨hr, hstore⟩
    · exact .inl hn
    · refine .inr fun hreach => h u g.gate hr ?_
      refine ReflTransGen.mono ?_ _ _ hreach
      rintro a b ⟨l, g, ha, rfl⟩
      exact ⟨l, g, hstore ▸ ha, rfl⟩

theorem startPolicy_sound (p : Component) : (startPolicy p).Sound where
  holds _ _ := id
  refs _ _ _ _ hst := hst.1
  redirect _ _ _ l g hst := .inl (hst.2.2 l g rfl)

end Invariant

/-! ### Resolution -/

section Resolution

variable [LabelCrate] {w : World}

instance : Finite Uid := .of_injective UInt64.toFin fun _ _ => UInt64.toFin_inj.1

omit [LabelCrate] in
theorem World.Refers.gate {u : Uid} (h : w.Refers (.gate u)) :
    ∃ g : Labeled Gate, w.store u = some (.encode g) := by
  obtain ⟨o, ho, hk⟩ := h
  cases o with
  | gate g => exact ⟨g, ho⟩
  | _ => cases hk

/-- A gate that leads to itself is never resolved. -/
theorem toInvokableLoop_self {u : Uid} {l : Buckle} {g : RedirectGate}
    (hu : w.store u = some (.encode (⟨l, .redirect g⟩ : Labeled Gate))) (hg : g.gate = u) (n : ℕ)
    (a b c : Component) :
    (exec (Gate.toInvokableLoop n (.redirect g) a b c) w).1 = .error .diverge := by
  induction n generalizing w a b c with
  | zero => rfl
  | succ n ih =>
    unfold Gate.toInvokableLoop
    rw [hg, exec_bind_ok (ObjectRef.exec_read_encode hu)]
    exact ih (w := w.relabel (lub l w.currentLabel)) hu _ _ _

/-- From a gate on, resolution returns after finitely many redirects. The induction is on the gate,
along the redirects. -/
theorem Sound.toInvokableLoop_returns (hw : Sound w) {u : Uid} {g : Labeled Gate}
    (hu : w.store u = some (.encode g)) :
    ∃ N, ∀ n ≥ N, ∀ w' : World, w'.store = w.store → ∀ a b c,
      ∃ r w'', exec (Gate.toInvokableLoop n g.data a b c) w' = (.ok r, w'') := by
  induction u using hw.acyclic.wellFounded.induction generalizing g with
  | _ u ih =>
    obtain ⟨l, g | g⟩ := g
    · refine ⟨1, fun n hn w' hw' a b c => ?_⟩
      obtain ⟨n, rfl⟩ := Nat.exists_eq_add_of_le' hn
      exact ⟨_, _, rfl⟩
    · obtain ⟨g', hg'⟩ := (hw.refs u _ hu (.gate g.gate) rfl).gate
      obtain ⟨N, hN⟩ := ih g.gate ⟨l, g, hu, rfl⟩ hg'
      refine ⟨N + 1, fun n hn w' hw' a b c => ?_⟩
      obtain ⟨n, rfl⟩ := Nat.exists_eq_add_of_le' (le_of_add_le_right hn)
      unfold Gate.toInvokableLoop
      rw [exec_bind_ok (ObjectRef.exec_read_encode (hw' ▸ hg'))]
      exact hN n (by omega) (w'.relabel (lub g'.label w'.currentLabel)) hw' _ _ _

/-- Resolving a stored gate returns, in any thread. -/
theorem Sound.toInvokable_returns (hw : Sound w) {u : Uid} {g : Labeled Gate}
    (hu : w.store u = some (.encode g)) :
    ∃ N, ∀ n ≥ N, ∀ w' : World, w'.store = w.store →
      ∃ r w'', exec (Gate.toInvokable n u) w' = (.ok r, w'') := by
  obtain ⟨N, hN⟩ := hw.toInvokableLoop_returns hu
  refine ⟨N, fun n hn w' hw' => ?_⟩
  unfold Gate.toInvokable
  rw [exec_bind_ok (ObjectRef.exec_read_encode (hw' ▸ hu))]
  exact hN n hn (w'.relabel (lub g.label w'.currentLabel)) hw' _ _ _

end Resolution

/-! ### Runs -/

section Runs

namespace Sys

/-- The first state: the file system has just been initialized, and a thread has nothing but its
root open. -/
structure Initialized (s : Sys) : Prop where
  store : ∃ w : World, w.store = Store.empty ∧ s.world.store = (exec FS.initializeRoot w).2.store
  dents : ∀ i fd e, (s.threads i).dents fd = some e → e = .directory FS.rootRef

theorem Initialized.store_eq {s : Sys} (h : s.Initialized) :
    s.world.store = Store.empty.put FS.rootRef (.encode FS.emptyRoot) := by
  obtain ⟨w, hw, hs⟩ := h.store
  rw [hs, FS.initializeRoot, exec_add, hw]
  rfl

theorem Initialized.sound {s : Sys} (h : s.Initialized) (i : ℕ) : Sound (s.view i) := by
  have hroot : (s.view i).Refers (.directory FS.rootRef) :=
    ⟨.directory FS.emptyRoot, by
      rw [view, World.withThread_store, h.store_eq]; exact Store.put_self .., rfl⟩
  have honly : ∀ u o, (s.view i).store u = some (.object o) → o = .directory FS.emptyRoot := by
    intro u o hu
    rw [view, World.withThread_store, h.store_eq] at hu
    rcases Store.of_put hu with ⟨-, ho⟩ | hu
    · cases ho; rfl
    · cases hu
  refine ⟨fun fd e he => h.dents i fd e he ▸ hroot, fun u o hu e he => ?_, hroot, fun a ha => ?_⟩
  · cases honly u o hu
    obtain ⟨name, he⟩ := he
    simp [FS.emptyRoot] at he
  · obtain ⟨b, ⟨l, g, ha, -⟩, -⟩ := TransGen.head'_iff.1 ha
    cases honly a _ ha

variable [LabelCrate]

/-- The event leads no gate to one that already leads back to it. -/
def KeepsAcyclic (s : Sys) (i : ℕ) : Event → Prop
  | .syscall _ sc => Faasten.KeepsAcyclic (s.view i) sc
  | _ => True

theorem Acts.sound {s : Sys} {i : ℕ} {e : Event} {P : Policy} (hA : s.Acts i e P)
    (h : s.KeepsAcyclic i e) : P.Sound := by
  cases e with
  | login n user => cases hA; exact startPolicy_sound _
  | delegate n login request => obtain ⟨q, rfl, -⟩ := hA; exact startPolicy_sound _
  | invoke => cases hA; exact startPolicy_sound _
  | task m => obtain ⟨q, rfl, -⟩ := hA; exact startPolicy_sound _
  | syscall n sc => cases hA; exact syscallPolicy_sound h

/-- One step keeps references sound, in the view of every thread. -/
theorem sound_step {s : Sys} {i : ℕ} {e : Event} (h : s.KeepsAcyclic i e)
    (hs : ∀ j, Sound (s.view j)) : ∀ j, Sound ((s.step i e).view j) := by
  obtain ⟨P, hA, hobeys⟩ := step_obeys s i e
  have hP := Acts.sound hA h
  exact invariant_step hobeys (fun w op hp hw => hp.sound hP hw)
    (fun w op t hp hw ht => hp.sound_other hP hw ht) hs

/-- **Gate resolution terminates** in every state that the system can reach, from an initialized
file system, by events that lead no gate to one that already leads back to it: the redirects form
no cycle, and whatever gate is stored, `to_invokable` returns a direct gate after finitely many
redirects, in every thread. -/
theorem gate_resolution_terminates {s₀ s : Sys} (h₀ : s₀.Initialized)
    (h : Run KeepsAcyclic s₀ s) :
    Graph.Acyclic s.world.Redirect ∧
    ∀ u g, s.world.store u = some (.object (.gate g)) → ∃ N, ∀ n ≥ N, ∀ i,
      ∃ r w', exec (Gate.toInvokable n u) (s.view i) = (.ok r, w') := by
  have hsound : ∀ i, Sound (s.view i) := by
    induction h with
    | start => exact h₀.sound
    | step _ i e _ hok ih => exact sound_step hok ih
  refine ⟨(hsound 0).acyclic, fun u g hu => ?_⟩
  obtain ⟨N, hN⟩ := (hsound 0).toInvokable_returns hu
  exact ⟨N, fun n hn i => hN n hn (s.view i) rfl⟩

end Sys

end Runs

/-! ### A gate that redirects to itself -/

namespace SelfRedirect

open scoped Dc
open SyscallProcessor

/-- An initialized file system, where threads have its root open. -/
def system : Sys where
  world := (exec FS.initializeRoot (.quiet (.idle publicLabel) .empty)).2
  threads _ := (exec (new publicLabel .dcTrue) (.quiet (.idle publicLabel) .empty)).2.toThread

/-- The component that anyone holds, on the wire. -/
def anyone : Option Pb.Component := some (.ofComponent .dcTrue)

/-- A thread stores an empty blob, makes a direct gate that has it as its images (descriptor 2), and
a redirect gate that leads there (descriptor 3). -/
def creation : List Pb.Syscall :=
  [.blobCreate none, .blobFinalize 1, .dentCreate none (some (.blob 1)),
    .dentCreate none (some (.gate (some (.direct ⟨anyone, anyone, some ⟨1, 1, 1, 1⟩, anyone⟩)))),
    .dentCreate none (some (.gate (some (.redirect ⟨anyone, anyone, 2, anyone⟩))))]

/-- Then it updates the redirect gate to lead to itself. -/
def selfUpdate : Pb.Syscall :=
  .dentUpdate 3 (some (.gate (some (.redirect ⟨anyone, anyone, 3, anyone⟩))))

/-- The system before the update. -/
def created : Sys := system.serving 0 1 creation

/-- The system after the update. -/
def looped : Sys := system.serving 0 1 (creation ++ [selfUpdate])

/-- The redirect gate as it is stored at the end. -/
def gate : RedirectGate :=
  { privilege := .dcTrue, invokerIntegrityClearance := .dcTrue, declassify := .dcTrue, gate := 102 }

theorem system_initialized : system.Initialized := by
  refine ⟨⟨_, rfl, rfl⟩, fun i fd e he => ?_⟩
  change (if fd = 0 then some _ else none) = some e at he
  split_ifs at he
  cases he; rfl

/-- So far no gate is led back to itself, and the redirect gate can be resolved. -/
theorem created_resolves :
    Graph.Acyclic created.world.Redirect ∧ ∃ N, ∀ n ≥ N, ∀ i,
      ∃ r w', exec (Gate.toInvokable n 102) (created.view i) = (.ok r, w') := by
  have hrun : Sys.Run Sys.KeepsAcyclic system created := by
    refine Sys.Run.start.serving fun s sc hsc => ?_
    rintro u t ⟨fd, rd, _, _, _, rfl, _⟩
    simp [creation] at hsc
  obtain ⟨hacyclic, hres⟩ := Sys.gate_resolution_terminates system_initialized hrun
  exact ⟨hacyclic, hres 102 ⟨publicLabel, .redirect { gate with gate := 101 }⟩ (by decide)⟩

/-- The run leads to a store whose redirects form a cycle, and resolving the gate never returns. -/
theorem resolution_diverges :
    system.Initialized ∧ Sys.Run (fun _ _ _ => True) system looped ∧
      ¬ Graph.Acyclic looped.world.Redirect ∧
      looped.world.store 102 = some (.object (.gate ⟨publicLabel, .redirect gate⟩)) ∧
      ∀ n, (exec (Gate.toInvokable n 102) (looped.view 0)).1 = .error .diverge := by
  have hstore : looped.world.store 102 = some (.object (.gate ⟨publicLabel, .redirect gate⟩)) := by
    decide
  refine ⟨system_initialized, ?_, ?_, hstore, fun n => ?_⟩
  · exact Sys.Run.start.serving fun _ _ _ => trivial
  · exact fun h => h 102 (.single ⟨_, _, hstore, rfl⟩)
  · unfold Gate.toInvokable
    rw [exec_bind_ok (ObjectRef.exec_read_encode (w := looped.view 0)
      (o := (⟨publicLabel, .redirect gate⟩ : Labeled Gate)) hstore)]
    exact toInvokableLoop_self (w := (looped.view 0).relabel
      (lub publicLabel (looped.view 0).currentLabel)) hstore rfl n _ _ _

end SelfRedirect

end Faasten
