import Mathlib
import Faasten.Clients.Directories
import Faasten.DcLabels

/-!
# The retry loops of directories are lock-free

`link` and `unlink` start again when another client has changed the directory since they looked at it.
`out_of_rounds` says that this is the only reason: whatever programs the other clients run, a call that
has used all its rounds has been overtaken in each of them. `everyone_gets_through` draws the consequence
for finitely many clients that make one call each: each of them changes a directory at most once, so that
no call needs more rounds than there are clients, under any schedule.
-/

namespace Faasten

open Std Effect

variable {ι : Type}

/-- The access changed what the store holds under a uid. -/
def StoreAccess.changes (a : StoreAccess ι) (u : Uid) : Bool :=
  match a.op with
  | .put u' v => u' = u ∧ a.before u ≠ some v
  | .add u' _ => u' = u ∧ a.before u = none
  | .cas u' x v => u' = u ∧ a.before u = x ∧ x ≠ some v
  | _ => false

/-- What the store holds under a uid is changed by accesses that are on record. -/
theorem changes_of_store_ne {i : ι} {o : Op} {t : Thread} {s : Shared ι} {u : Uid}
    (h : ((clients ι).perform i o t s).2.2.store u ≠ s.store u) :
    o.onStore = true ∧ (⟨i, o, s.store⟩ : StoreAccess ι).changes u = true := by
  cases o with
  | put u' v =>
    by_cases hu : u = u'
    · subst hu
      refine ⟨rfl, ?_⟩
      rw [clients_put, Shared.written_store, Store.put_self] at h
      simpa [StoreAccess.changes] using h.symm
    · rw [clients_put, Shared.written_store, Store.put_of_ne _ _ hu] at h
      exact absurd rfl h
  | add u' v =>
    rw [clients_add] at h
    split_ifs at h with hnone
    · by_cases hu : u = u'
      · subst hu
        exact ⟨rfl, by simpa [StoreAccess.changes] using hnone⟩
      · rw [Shared.claimed_store, Store.put_of_ne _ _ hu] at h
        exact absurd rfl h
    · exact absurd rfl h
  | cas u' x v =>
    rw [clients_cas] at h
    split_ifs at h with hx
    · by_cases hu : u = u'
      · subst hu
        rw [Shared.written_store, Store.put_self, hx] at h
        exact ⟨rfl, by simpa [StoreAccess.changes, hx] using h.symm⟩
      · rw [Shared.written_store, Store.put_of_ne _ _ hu] at h
        exact absurd rfl h
    · exact absurd rfl h
  | schedWrite m =>
    refine absurd ?_ h
    show (perform (.schedWrite m) (s.world.withThread t)).2.store u = s.world.store u
    rw [perform_schedWrite]
    split_ifs <;> rfl
  | _ => exact absurd rfl h

variable [DecidableEq ι]

/-- How often the others have changed what the store holds under a uid. -/
def overtaken (i : ι) (u : Uid) (log : List (StoreAccess ι)) : ℕ :=
  log.countP fun a => a.client ≠ i ∧ a.changes u

/-- The own accesses of a client do not count. -/
theorem overtaken_accessed (i : ι) (u : Uid) (s : Shared ι) (o : Op) :
    overtaken i u (s.accessed i o).log = overtaken i u s.log := by
  simp [overtaken]

theorem le_overtaken_cons {i : ι} {u : Uid} (a : StoreAccess ι) (log : List (StoreAccess ι)) :
    overtaken i u log ≤ overtaken i u (a :: log) := by
  unfold overtaken
  rw [List.countP_cons]
  omega

/-! ### One call among others -/

/-- What the others do to the object under `u` shows in the number of times it was changed. -/
structure Overtakes (i : ι) (u : Uid) (s s' : Shared ι) : Prop where
  le : overtaken i u s.log ≤ overtaken i u s'.log
  lt : s'.store u ≠ s.store u → overtaken i u s.log < overtaken i u s'.log

theorem Overtakes.trans {i : ι} {u : Uid} {s s' s'' : Shared ι} (h : Overtakes i u s s')
    (h' : Overtakes i u s' s'') : Overtakes i u s s'' := by
  refine ⟨h.le.trans h'.le, fun hne => ?_⟩
  by_cases hs : s'.store u = s.store u
  · have := h.le
    have := h'.lt (hs ▸ hne)
    omega
  · have := h.lt hs
    have := h'.le
    omega

/-- The other clients may do anything; client `i` watches the object under `u`. -/
def watching (i : ι) (u : Uid) : Discipline (clients ι) where
  inv _ := True
  own _ _ _ := True
  guar _ _ _ _ := True
  env j s s' := j = i → Overtakes i u s s'
  env_refl _ _ _ := ⟨le_rfl, fun h => absurd rfl h⟩
  env_trans h h' hj := (h hj).trans (h' hj)
  inv_step _ _ _ := trivial
  own_step _ _ _ := trivial
  own_env _ _ _ _ := trivial
  env_step := by
    rintro k j o t s hjk - - - rfl
    have hlog : ((clients ι).perform k o t s).2.2.log = s.logAfter k o := rfl
    refine ⟨?_, fun hne => ?_⟩
    · rw [hlog]
      unfold Shared.logAfter
      split_ifs
      · exact le_overtaken_cons _ _
      · exact le_rfl
    · obtain ⟨honstore, hchanges⟩ := changes_of_store_ne hne
      rw [hlog]
      unfold Shared.logAfter
      rw [if_pos honstore]
      simp [overtaken, hchanges, Ne.symm hjk]

theorem calm_watching (i : ι) (u : Uid) : Calm (watching i u) :=
  ⟨fun _ _ _ => trivial, fun _ _ _ _ => trivial, fun _ _ _ _ => trivial, fun _ _ _ => trivial⟩

/-- Nothing is asked of the other clients. -/
theorem steady_others {α : Type} {i j : ι} {u : Uid} (hij : j ≠ i)
    {Q : Except Raised α → Thread → Shared ι → Prop} (m : M α) (t : Thread) (s : Shared ι) :
    (watching i u).Steady j (fun r t s => j = i → Q r t s) m t s := by
  induction m generalizing t s with
  | pure a => exact fun _ _ h => absurd h hij
  | raise e => exact fun _ _ h => absurd h hij
  | op o k ih => exact fun _ _ => ⟨trivial, ih _ _ _⟩

section Loops

variable [LabelCrate] {i : ι} {u : Uid}

/-- All rounds are used only if the object was changed as often as that. -/
def Spent (i : ι) (u : Uid) (rounds : ℕ) (s₀ : Shared ι) {α : Type} (r : Except Raised α) (_ : Thread)
    (s : Shared ι) : Prop :=
  r = .error .diverge → overtaken i u s₀.log + rounds ≤ overtaken i u s.log

/-- In each round but the last the object was changed since the client has seen it. -/
theorem steady_updateLoop (f : Directory → Bool × Directory) (skip : Bool) (n : ℕ)
    {prev : Labeled Directory} {t : Thread} {s : Shared ι} (hprev : s.store u = some (.encode prev)) :
    (watching i u).Steady i (Spent i u n s) (Directory.updateLoop u f skip n prev) t s := by
  induction n generalizing prev t s with
  | zero => exact fun s' hs _ => (hs.env rfl).le
  | succ n ih =>
    unfold Directory.updateLoop
    refine steady_modify (calm_watching i u) (fun _ => ?_) fun _ s' _ h => by cases h
    dsimp only
    split_ifs
    · exact fun s' _ h => by cases h
    · refine steady_objectCas (fun _ _ => trivial) (fun s' _ _ s'' _ h => by cases h) fun s' hs hne => ?_
      have hlt := (hs.env rfl).lt (by rw [hprev]; exact hne)
      cases hfound : (s'.store u).bind (Stored.decode (T := Labeled Directory)) with
      | none => exact fun s'' _ h => by cases h
      | some found =>
        -- the next round begins with what the failed swap has found
        refine Discipline.Steady.mono (ih (decode_eq_some hfound)) ?_
        intro r t s'' _ _ hspent h
        have hrounds := hspent h
        rw [overtaken_accessed] at hrounds
        omega

/-- Reading the directory, and then the loop. -/
theorem steady_update (f : Directory → Bool × Directory) (skip : Bool) (n : ℕ) {t : Thread}
    {s : Shared ι} :
    (watching i u).Steady i (Spent i u n s) (do
      let prevDir ← unwrap (← ObjectRef.get (Labeled Directory) u)
      Directory.updateLoop u f skip n prevDir) t s := by
  refine steady_objectGet (calm_watching i u) fun s' hs => ?_
  have hle := (hs.env rfl).le
  refine steady_unwrap (fun d hd => ?_) fun _ s'' _ h => by cases h
  refine Discipline.Steady.mono (steady_updateLoop f skip n (decode_eq_some hd)) ?_
  intro r t s'' _ _ hspent h
  have hrounds := hspent h
  rw [overtaken_accessed] at hrounds
  omega

/-- How often a call of `link` or `unlink` may start again. -/
def FsCall.rounds : FsCall → ℕ
  | .dirLink n _ _ _ => n
  | .dirUnlink n _ _ => n
  | _ => 0

theorem steady_body {c : FsCall} (hc : c.updates = some u) {t : Thread} {s : Shared ι} :
    (watching i u).Steady i (Spent i u c.rounds s) c.body t s := by
  have hmap : ∀ {n : ℕ} {m : M Bool}, (watching i u).Steady i (Spent i u n s) m t s →
      (watching i u).Steady i (Spent i u n s) (m >>= fun b => pure (FsResult.flag b)) t s := by
    intro n m hm
    refine (hm.map FsResult.flag).mono ?_
    rintro r t' s' - - ⟨r', rfl, hspent⟩ h
    cases r' with
    | ok a => cases h
    | error e =>
      cases h
      exact hspent rfl
  cases c with
  | dirLink n u' name entry =>
    cases hc
    exact hmap (steady_update (Directory.insert name entry) true n)
  | dirUnlink n u' name =>
    cases hc
    exact hmap (steady_update (Directory.remove name) false n)
  | _ => cases hc

/-- **The loops of `link` and `unlink` are lock-free.** Whatever programs the other clients run and however
the clients are scheduled: a call that has used all its rounds has seen the directory changed by others
at least as often. -/
theorem out_of_rounds (p : Pool monitor Raised FsResult ι Thread (Shared ι)) {c : FsCall}
    (hc : c.updates = some u) (hi : p.prog i = c.body) (schedule : List ι)
    (h : (p.run (clients ι) schedule).prog i = .raise .diverge) :
    overtaken i u p.shared.log + c.rounds ≤
      overtaken i u (p.run (clients ι) schedule).shared.log := by
  have hholds : (watching i u).Holds
      (fun j r t s => j = i → Spent i u c.rounds p.shared r t s) p := by
    refine ⟨trivial, fun _ => trivial, fun j => ?_⟩
    by_cases hj : j = i
    · subst hj
      rw [hi]
      exact (steady_body hc).mono fun r t s _ _ hspent _ => hspent
    · exact steady_others hj _ _ _
  exact (hholds.run schedule).error h rfl rfl

end Loops

/-! ### Finitely many calls -/

section Everyone

/-- An operation that may change the store. -/
def Op.mayWrite : Op → Bool
  | .put _ _ => true
  | .add _ _ => true
  | .cas _ _ _ => true
  | _ => false

/-- The operation has changed the store, or put the same there again. -/
def Written : (o : Op) → o.Res → Prop
  | .put _ _, _ => True
  | .add _ _, b => b = true
  | .cas _ _ _, .ok () => True
  | _, _ => False

/-- How often a client has changed what the store holds under a uid. -/
def changesBy (i : ι) (u : Uid) (log : List (StoreAccess ι)) : ℕ :=
  log.countP fun a => a.client = i ∧ a.changes u

theorem changesBy_perform {i j : ι} {u : Uid} {o : Op} {t : Thread} {s : Shared ι} :
    changesBy i u ((clients ι).perform j o t s).2.2.log = changesBy i u s.log ∨
      (i = j ∧ Written o ((clients ι).perform j o t s).1 ∧
        changesBy i u ((clients ι).perform j o t s).2.2.log = changesBy i u s.log + 1) := by
  have hlog : ((clients ι).perform j o t s).2.2.log = s.logAfter j o := rfl
  rw [hlog]
  unfold Shared.logAfter
  split_ifs with honstore
  · by_cases h : i = j ∧ (⟨j, o, s.store⟩ : StoreAccess ι).changes u = true
    · obtain ⟨rfl, hchanges⟩ := h
      refine .inr ⟨rfl, ?_, by simp [changesBy, hchanges]⟩
      unfold StoreAccess.changes at hchanges
      cases o with
      | put u' v => trivial
      | add u' v =>
        have hnone : s.store u' = none := by
          obtain ⟨rfl, hnone⟩ : u' = u ∧ s.store u = none := by simpa using hchanges
          exact hnone
        rw [clients_add, if_pos hnone]
        exact rfl
      | cas u' x v =>
        have hx : s.store u' = x := by
          obtain ⟨rfl, hx, -⟩ : u' = u ∧ s.store u = x ∧ x ≠ some v := by simpa using hchanges
          exact hx
        rw [clients_cas, if_pos hx]
        trivial
      | _ => cases hchanges
    · left
      unfold changesBy
      rw [List.countP_cons, if_neg]
      · rfl
      · intro hc
        exact h ⟨(by simpa using hc : j = i ∧ _).1.symm, (by simpa using hc : j = i ∧ _).2⟩
  · exact .inl rfl

section Trees

variable {α : Type}

theorem avoids_thread_written : thread.Avoids Written := .call fun _ => id

theorem avoids_withCurrentLabel_written {m : Access Buckle α} : (withCurrentLabel m).Avoids Written := by
  refine .bind avoids_thread_written fun t => ?_
  split
  · exact .bind (.call fun _ => id) fun _ => trivial
  · trivial

variable [LabelCrate]

theorem avoids_modify_written {T R : Type} (o : Labeled T) (f : T → R × T) :
    (o.modify f).Avoids Written := by
  refine .bind avoids_withCurrentLabel_written fun _ => .bind avoids_withCurrentLabel_written fun _ =>
    .bind (.bind avoids_thread_written fun _ => trivial) fun _ => ?_
  split_ifs <;> trivial

theorem final_updateLoop_written (u : Uid) (f : Directory → Bool × Directory) (skip : Bool) (n : ℕ)
    (prev : Labeled Directory) : (Directory.updateLoop u f skip n prev).Final Written := by
  induction n generalizing prev with
  | zero => trivial
  | succ n ih =>
    unfold Directory.updateLoop
    refine .of_avoids_bind (avoids_modify_written prev f) fun modified => ?_
    obtain ⟨existed, dir⟩ := modified
    dsimp only
    split_ifs
    · trivial
    · intro r
      cases r with
      | ok a => exact .inl ⟨trivial, true, rfl⟩
      | error found =>
        refine .inr ⟨id, ?_⟩
        simp only [Prog.bind, pure]
        cases found.bind (Stored.decode (T := Labeled Directory)) with
        | none => trivial
        | some p => exact ih p

/-- The only thing that `link` and `unlink` write is their last operation. -/
theorem final_body_written {c : FsCall} {u : Uid} (hc : c.updates = some u) : c.body.Final Written := by
  have hupdate : ∀ (f : Directory → Bool × Directory) (skip : Bool) (n : ℕ) (u : Uid), (do
      let prevDir ← unwrap (← ObjectRef.get (Labeled Directory) u)
      Directory.updateLoop u f skip n prevDir : M Bool).Final Written := by
    intro f skip n u
    refine .of_avoids_bind (.bind (.call fun _ => id) fun _ => trivial) fun found => ?_
    refine .of_avoids_bind ?_ fun d => final_updateLoop_written u f skip n d
    cases found <;> trivial
  cases c with
  | dirLink n u name entry => exact (hupdate _ true n u).map _
  | dirUnlink n u name => exact (hupdate _ false n u).map _
  | _ => cases hc

end Trees

variable [LabelCrate]

/-- Each client changes the object at most once, and has ended when it has. -/
structure Once (u : Uid) (p : Pool monitor Raised FsResult ι Thread (Shared ι)) : Prop where
  final : ∀ i, (p.prog i).Final Written
  le_one : ∀ i, changesBy i u p.shared.log ≤ 1
  ended : ∀ i, changesBy i u p.shared.log = 1 → ∃ a, p.prog i = .pure a

theorem Once.advance {u : Uid} {p : Pool monitor Raised FsResult ι Thread (Shared ι)} (h : Once u p)
    (j : ι) : Once u (p.advance (clients ι) j) := by
  obtain hp | ⟨o, k, ho, hp⟩ := p.advance_cases (clients ι) j
  · rw [hp]
    exact h
  · rw [hp]
    have hfinal := h.final j
    rw [ho] at hfinal
    have hnone : changesBy j u p.shared.log = 0 := by
      by_contra hne
      obtain ⟨a, ha⟩ := h.ended j (by have := h.le_one j; omega)
      rw [ho] at ha
      cases ha
    refine ⟨fun i => ?_, fun i => ?_, fun i hi => ?_⟩
    · by_cases hij : i = j
      · subst hij
        simp only [Function.update_self]
        rcases hfinal ((clients ι).perform i o (p.loc i) p.shared).1 with ⟨-, a, ha⟩ | ⟨-, hk⟩
        · rw [ha]
          trivial
        · exact hk
      · simpa only [Function.update_of_ne hij] using h.final i
    · rcases changesBy_perform (i := i) (j := j) (u := u) (o := o) (t := p.loc j) (s := p.shared) with
        heq | ⟨rfl, -, heq⟩
      · rw [heq]
        exact h.le_one i
      · rw [heq, hnone]
    · rcases changesBy_perform (i := i) (j := j) (u := u) (o := o) (t := p.loc j) (s := p.shared) with
        heq | ⟨rfl, hwritten, -⟩
      · rw [heq] at hi
        have hij : i ≠ j := by
          rintro rfl
          omega
        simpa only [Function.update_of_ne hij] using h.ended i hi
      · -- the change is its last operation
        simp only [Function.update_self]
        rcases hfinal ((clients ι).perform i o (p.loc i) p.shared).1 with ⟨-, hpure⟩ | ⟨hnot, -⟩
        · exact hpure
        · exact absurd hwritten hnot

theorem Once.run {u : Uid} {p : Pool monitor Raised FsResult ι Thread (Shared ι)} (h : Once u p)
    (schedule : List ι) : Once u (p.run (clients ι) schedule) := by
  induction schedule generalizing p with
  | nil => exact h
  | cons j js ih => exact ih (h.advance j)

omit [LabelCrate] in
/-- The changes by others are those of each of them. -/
theorem overtaken_le_sum [Fintype ι] (i : ι) (u : Uid) (log : List (StoreAccess ι)) :
    overtaken i u log ≤ ∑ j ∈ Finset.univ.erase i, changesBy j u log := by
  induction log with
  | nil => simp [overtaken]
  | cons a log ih =>
    have hcons : ∀ j, changesBy j u (a :: log) =
        changesBy j u log + if a.client = j ∧ a.changes u = true then 1 else 0 := by
      intro j
      unfold changesBy
      rw [List.countP_cons]
      simp
    unfold overtaken at ih ⊢
    rw [List.countP_cons, Finset.sum_congr rfl fun j _ => hcons j, Finset.sum_add_distrib]
    refine Nat.add_le_add ih ?_
    split_ifs with h
    · obtain ⟨hne, hchanges⟩ : a.client ≠ i ∧ a.changes u = true := by simpa using h
      have hmem : a.client ∈ Finset.univ.erase i := Finset.mem_erase.2 ⟨hne, Finset.mem_univ _⟩
      calc 1 = if a.client = a.client ∧ a.changes u = true then 1 else 0 := by
            rw [if_pos ⟨rfl, hchanges⟩]
        _ ≤ ∑ j ∈ Finset.univ.erase i, if a.client = j ∧ a.changes u = true then 1 else 0 :=
            Finset.single_le_sum (f := fun j => if a.client = j ∧ a.changes u = true then 1 else 0)
              (fun _ _ => Nat.zero_le _) hmem
    · exact Nat.zero_le _

/-- **Everyone gets through.** Of finitely many clients that each make one call of `link` or `unlink`, on any
directories, none starts again as often as there are clients, under any schedule. -/
theorem everyone_gets_through [Fintype ι] (calls : ι → FsCall)
    (hcalls : ∀ i, (calls i).updates.isSome) (hrounds : ∀ i, Fintype.card ι ≤ (calls i).rounds)
    (threads : ι → Thread) (w : World) (schedule : List ι) (i : ι) :
    (FileSystem.runFs calls threads w schedule).prog i ≠ .raise .diverge := by
  intro h
  obtain ⟨u, hu⟩ := Option.isSome_iff_exists.1 (hcalls i)
  have hlate := out_of_rounds (FileSystem.fsPool calls threads w) hu rfl schedule h
  have honce : Once u (FileSystem.fsPool calls threads w) := by
    refine ⟨fun j => ?_, fun j => Nat.zero_le _, fun j hj => by cases hj⟩
    obtain ⟨u', hu'⟩ := Option.isSome_iff_exists.1 (hcalls j)
    exact final_body_written hu'
  have hsum : ∑ j ∈ Finset.univ.erase i, changesBy j u (FileSystem.runFs calls threads w schedule).shared.log
      ≤ (Finset.univ.erase i).card * 1 :=
    Finset.sum_le_card_nsmul _ _ 1 fun j _ => (honce.run schedule).le_one j
  rw [Finset.card_erase_of_mem (Finset.mem_univ i), Finset.card_univ] at hsum
  have hle := overtaken_le_sum i u (FileSystem.runFs calls threads w schedule).shared.log
  have hpos : 0 < Fintype.card ι := Fintype.card_pos_iff.2 ⟨i⟩
  have := hrounds i
  have hzero : overtaken i u (FileSystem.fsPool calls threads w).shared.log = 0 := rfl
  change _ ≤ overtaken i u (FileSystem.runFs calls threads w schedule).shared.log at hlate
  omega

end Everyone

/-! ### Two links -/

namespace TwoLinks

open scoped Dc

/-- Each of two clients links a file into the root. -/
def calls (rounds : ℕ) (i : Bool) : FsCall := .dirLink rounds FS.rootRef (if i then "a" else "b") (.file 7)

/-- A client that may write to the root. -/
def admin : Thread := { Thread.idle publicLabel with privilege := .dcFalse }

/-- The first looks at the root, then the second links its file, then the first goes on. -/
def schedule : List Bool := [true] ++ List.replicate 7 false ++ List.replicate 6 true

/-- A single round is not enough for the one that is overtaken. -/
theorem overtaken_once :
    0 + 1 ≤ overtaken true FS.rootRef
      (FileSystem.runFs (calls 1) (fun _ => admin) (.quiet admin .empty) schedule).shared.log :=
  out_of_rounds (i := true) (c := calls 1 true)
    (FileSystem.fsPool (calls 1) (fun _ => admin) (.quiet admin .empty)) rfl rfl schedule rfl

/-- Two rounds are. -/
theorem both_linked :
    (FileSystem.runFs (calls 2) (fun _ => admin) (.quiet admin .empty) schedule).prog true ≠
      .raise .diverge :=
  everyone_gets_through (calls 2) (fun _ => rfl) (fun _ => le_rfl) _ _ schedule true

end TwoLinks

end Faasten
