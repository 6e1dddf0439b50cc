import Mathlib
import Faasten.Clients.Runs

/-!
# Directories are linearizable

`link` and `unlink` read a directory, modify the copy, and swap it in if the directory is still the
one they read; otherwise they start again with what they found. `directories_linearizable` says what
clients see of this, whatever else they do to the file system: every directory is the result of the
calls that returned `Ok(true)`, one after the other in the order of their swaps, each of them legal
where it stands.

That a call which has committed has nothing left to do but to return is a fact about its program
alone (`final_body`).
-/

namespace Faasten

open Std Effect

namespace FileSystem

/-! ### The swap is the last operation -/

section Trees

variable {α : Type}

/-- The operation is a swap, and it succeeded. -/
def Swapped : (o : Op) → o.Res → Prop
  | .cas _ _ _, .ok () => True
  | _, _ => False

/-- The operation has swapped in a new version of a directory. -/
def Commits : (o : Op) → o.Res → Prop
  | .cas _ (some (.object (.directory _))) _, .ok () => True
  | _, _ => False

theorem swapped_of_commits (o : Op) (r : o.Res) (h : Commits o r) : Swapped o r := by
  unfold Commits at h
  split at h
  · trivial
  · exact h.elim

theorem avoids_unwrap (a : Option α) : (unwrap a).Avoids Swapped := by
  cases a <;> trivial

theorem avoids_thread : thread.Avoids Swapped := .call fun _ => id

theorem avoids_withCurrentLabel {m : Access Buckle α} : (withCurrentLabel m).Avoids Swapped := by
  refine .bind avoids_thread fun t => ?_
  split
  · exact .bind (.call fun _ => id) fun _ => trivial
  · trivial

theorem avoids_objectGet {T : Type} [Codec T] (u : Uid) : (ObjectRef.get T u).Avoids Swapped :=
  .bind (.call fun _ => id) fun _ => trivial

variable [LabelCrate]

theorem avoids_modify {T R : Type} (o : Labeled T) (f : T → R × T) :
    (o.modify f).Avoids Swapped := by
  refine .bind avoids_withCurrentLabel fun _ => .bind avoids_withCurrentLabel fun _ =>
    .bind (.bind avoids_thread fun _ => trivial) fun _ => ?_
  split_ifs <;> trivial

theorem final_updateLoop (u : Uid) (f : Directory → Bool × Directory) (skip : Bool) (n : ℕ)
    (prev : Labeled Directory) : (Directory.updateLoop u f skip n prev).Final Swapped := by
  induction n generalizing prev with
  | zero => trivial
  | succ n ih =>
    unfold Directory.updateLoop
    refine .of_avoids_bind (avoids_modify prev f) fun modified => ?_
    obtain ⟨existed, dir⟩ := modified
    dsimp only
    split_ifs
    · trivial
    · intro r
      cases r with
      | ok a => exact .inl ⟨trivial, true, rfl⟩
      | error found =>
        refine .inr ⟨id, ?_⟩
        simp only [Prog.bind, pure]
        cases found.bind (Stored.decode (T := Labeled Directory)) with
        | none => trivial
        | some p => exact ih p

theorem final_update (u : Uid) (f : Directory → Bool × Directory) (skip : Bool) (n : ℕ) :
    (do
      let prevDir ← unwrap (← ObjectRef.get (Labeled Directory) u)
      Directory.updateLoop u f skip n prevDir : M Bool).Final Swapped :=
  .of_avoids_bind (avoids_objectGet u) fun _ => .of_avoids_bind (avoids_unwrap _) fun _ =>
    final_updateLoop u f skip n _

theorem final_body {c : FsCall} {u : Uid} (hc : c.updates = some u) :
    c.body.Final Swapped := by
  cases c with
  | dirLink n u name entry => exact (final_update u _ true n).map _
  | dirUnlink n u name => exact (final_update u _ false n).map _
  | _ => cases hc

end Trees

/-! ### Runs -/

variable {ι : Type} [DecidableEq ι] [LabelCrate]

omit [LabelCrate] in
/-- What the record says of the client that has just performed an operation. -/
theorem commitsBy_perform {i : ι} {o : Op} {t : Thread} {s : Shared ι} :
    commitsBy i ((clients ι).perform i o t s).2.2.log = commitsBy i s.log ∨
      Commits o ((clients ι).perform i o t s).1 := by
  cases hc : (⟨i, o, s.store⟩ : StoreAccess ι).commitsTo with
  | none =>
    left
    change commitsBy i (s.logAfter i o) = _
    unfold Shared.logAfter
    split_ifs
    · exact commitsBy_cons_none hc
    · rfl
  | some u =>
    right
    obtain ⟨d, v, rfl, hd⟩ := StoreAccess.of_commitsTo hc
    rw [clients_cas, if_pos hd]
    trivial

omit [LabelCrate] in
theorem commitsBy_perform_of_ne {i j : ι} (hij : i ≠ j) {o : Op} {t : Thread} {s : Shared ι} :
    commitsBy i ((clients ι).perform j o t s).2.2.log = commitsBy i s.log := by
  change commitsBy i (s.logAfter j o) = _
  unfold Shared.logAfter
  split_ifs
  · exact commitsBy_cons_of_ne hij.symm
  · rfl

/-- An invocation that has committed has ended. -/
theorem runFs_final (calls : ι → FsCall) (threads : ι → Thread) (w : World) (schedule : List ι)
    {i : ι} {u : Uid} (hi : (calls i).updates = some u)
    (h : commitsBy i (runFs calls threads w schedule).shared.log ≠ []) :
    ∃ r, (runFs calls threads w schedule).prog i = .pure r := by
  refine Pool.run_final (P := Swapped) (C := fun s => commitsBy i s.log ≠ []) (clients ι)
    (fun o t s hC => ?_) (fun j o t s hj hC => ?_) (final_body hi) (absurd rfl) schedule h
  · rcases commitsBy_perform (i := i) (o := o) (t := t) (s := s) with heq | hsw
    · exact .inl (heq ▸ hC)
    · exact .inr (swapped_of_commits _ _ hsw)
  · exact fun hnil => hC ((commitsBy_perform_of_ne (Ne.symm hj)).trans hnil)

/-- The directories of a run that has come to `p`, where the store held `s₀` at first. -/
structure Linearized (calls : ι → FsCall) (s₀ : Store)
    (p : Pool monitor Raised FsResult ι Thread (Shared ι)) : Prop where
  /-- a directory is what the calls that committed to it make of it, in the order of their swaps -/
  entries : ∀ u d, p.shared.store u = some (.object (.directory d)) →
    replay calls (baseEntries s₀ u) (commits u p.shared.log) = some d.data.entries
  /-- a directory stays one, with its label -/
  stays : ∀ u d₀, s₀ u = some (.object (.directory d₀)) →
    ∃ d, p.shared.store u = some (.object (.directory d)) ∧ d.label = d₀.label
  /-- a call that has returned `Ok(true)` has committed once, to its directory -/
  success : ∀ i u, (calls i).updates = some u → p.prog i = .pure (.flag true) →
    ∀ x, (commits x p.shared.log).count i = if x = u then 1 else 0
  /-- any other call has changed nothing -/
  otherwise : ∀ i u, (calls i).updates = some u → p.prog i ≠ .pure (.flag true) →
    ∀ x, i ∉ commits x p.shared.log
  /-- a `link` that returns `Ok(false)` saw the name taken -/
  taken : ∀ i n u name entry, calls i = .dirLink n u name entry → p.prog i = .pure (.flag false) →
    Saw i u (fun d => d.data.entries.contains name) p.shared
  /-- an `unlink` that returns `Ok(false)` saw the name missing -/
  missing : ∀ i n u name, calls i = .dirUnlink n u name → p.prog i = .pure (.flag false) →
    Saw i u (fun d => ¬d.data.entries.contains name) p.shared
  /-- the only error is that of an insufficient label -/
  error : ∀ i u e, (calls i).updates = some u → p.prog i = .raise (.err e) →
    e = .labelError .cannotWrite ∧ Saw i u (fun d =>
      ¬canFlowToWithPrivilege (p.loc i).currentLabel d.label (p.loc i).privilege) p.shared
  /-- on a directory, no call panics -/
  noPanic : ∀ i u d₀, (calls i).updates = some u → s₀ u = some (.object (.directory d₀)) →
    p.prog i ≠ .raise .panic
  /-- a swap fails only if another client has committed since the last look at the directory -/
  retry : ∀ i u d v k, p.prog i = .op (Op.cas u (some (.object (.directory d))) v) k →
    p.shared.store u ≠ some (.object (.directory d)) → Contended i u p.shared.log

omit [LabelCrate] in
theorem insert_existed {name : String} {entry : DirEntry} {d : Labeled Directory}
    (h : (Directory.insert name entry d.data).1 = true) : d.data.entries.contains name := h

omit [LabelCrate] in
theorem remove_missing {name : String} {d : Labeled Directory}
    (h : (Directory.remove name d.data).1 = false) : ¬d.data.entries.contains name := by
  intro hc
  have : d.data.entries.contains name = false := h
  rw [this] at hc
  cases hc

/-- How an update that has ended may have ended. -/
theorem promise_of_updates {i : ι} {c : FsCall} {u : Uid} {r : Except Raised FsResult} {t : Thread}
    {s : Shared ι} (hc : c.updates = some u) (h : Promise i c r t s) :
    ∃ r' f skip, r = Except.map .flag r' ∧ Updated i u f skip [] r' t s := by
  cases c with
  | dirLink n u' name entry =>
    cases hc
    obtain ⟨r', hr, hu⟩ := h
    exact ⟨r', _, _, hr, hu⟩
  | dirUnlink n u' name =>
    cases hc
    obtain ⟨r', hr, hu⟩ := h
    exact ⟨r', _, _, hr, hu⟩
  | _ => cases hc

/-- **Directories are linearizable**, for any number of clients and any interleaving of the store
accesses of their calls. -/
theorem directories_linearizable (calls : ι → FsCall) (threads : ι → Thread) (w : World)
    (schedule : List ι) :
    Linearized calls (initialized w).store (runFs calls threads w schedule) := by
  have hp := runFs_holds calls threads w schedule
  have hinv : Inv calls (initialized w).store (runFs calls threads w schedule).shared := hp.inv
  refine ⟨hinv.entries, fun u d₀ hd₀ => hinv.kept.directory hd₀, fun i u hi he x => ?_, fun i u hi he x => ?_,
    fun i n u name entry hi he => ?_, fun i n u name hi he => ?_, fun i u e hi he => ?_,
    fun i u d₀ hi hd₀ he => ?_, fun i u d v k ho hne => ?_⟩
  · obtain ⟨r', f, skip, hr, hu⟩ := promise_of_updates hi (hp.ok he)
    cases r' with
    | error x => cases hr
    | ok b =>
      cases hr
      have hby : commitsBy i (runFs calls threads w schedule).shared.log = [u] := hu
      rw [count_commits, hby, List.count_singleton]
      by_cases hx : x = u
      · simp [hx]
      · simp [hx, Ne.symm hx]
  · have hnil : commitsBy i (runFs calls threads w schedule).shared.log = [] := by
      by_contra hne
      obtain ⟨r, hr⟩ := runFs_final calls threads w schedule hi hne
      obtain ⟨r', f, skip, hr', hu⟩ := promise_of_updates hi (hp.ok hr)
      rcases r' with x | b | b
      · cases hr'
      · exact hne hu.1
      · cases hr'
        exact he hr
    rw [← List.count_eq_zero, count_commits, hnil, List.count_nil]
  · have h := hp.ok he
    rw [hi] at h
    obtain ⟨r', hr, hu⟩ := h
    rcases r' with x | b | b
    · cases hr
    · obtain ⟨a, ha, hc, d, hd, hx⟩ := hu.2
      exact ⟨a, ha, hc, d, hd, insert_existed hx⟩
    · cases hr
  · have h := hp.ok he
    rw [hi] at h
    obtain ⟨r', hr, hu⟩ := h
    rcases r' with x | b | b
    · cases hr
    · obtain ⟨a, ha, hc, d, hd, hx⟩ := hu.2
      exact ⟨a, ha, hc, d, hd, remove_missing hx⟩
    · cases hr
  · obtain ⟨r', f, skip, hr, hu⟩ := promise_of_updates hi (hp.error he)
    cases r' with
    | error x =>
      cases hr
      exact hu.2
    | ok b => cases hr
  · obtain ⟨r', f, skip, hr, hu⟩ := promise_of_updates hi (hp.error he)
    cases r' with
    | error x =>
      cases hr
      obtain ⟨a, ha, -, hnot⟩ := hu
      obtain ⟨d, hd, -⟩ := (hinv.past a ha).directory hd₀
      exact hnot d hd
    | ok b => cases hr
  · have hg : Guar calls i (.cas u (some (.object (.directory d))) v)
        (runFs calls threads w schedule).shared := hp.guar ho
    exact hg.2 d rfl hne

end FileSystem

end Faasten
