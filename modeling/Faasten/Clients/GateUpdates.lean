import Mathlib
import Faasten.Clients.Machine
import Faasten.Syscall.Server
import Faasten.DcLabels

/-!
# Updates of gates

`dent_update` of a gate reads the gate, merges the fields of the message into it, reads the gate once
more for the check of the label, and writes the whole gate back without a comparison.

An update reads, and at its end writes once (`WritesOnce`). So as long as nobody else writes between
its first read and its write, it does to the store what it would do alone, and updates that never
overtake each other are as if they ran one after the other, in the order of their writes
(`gate_updates_serialized`). Two updates that do overlap can lose one of them (`LostUpdate`).
-/

namespace Faasten

open Std Effect SyscallProcessor

/-- The operation leaves everything but the thread as it is. -/
def Op.isRead : Op → Bool
  | .thread => true
  | .setThread _ => true
  | .get _ => true
  | _ => false

/-- The operation is a `put`. -/
def Op.isPut : Op → Bool
  | .put _ _ => true
  | _ => false

namespace GateUpdates

/-! ### Programs that read, and write once at their end -/

/-- The program reads until it ends with an exception, or performs one `put` and returns. -/
def WritesOnce {α : Type} : M α → Prop
  | .pure _ => False
  | .raise _ => True
  | .op o k => ∀ r : Op.Res o,
      (Op.isRead o ∧ WritesOnce (k r)) ∨ (Op.isPut o ∧ ∃ a, k r = .pure a)

/-- The program only reads. -/
def Reads {α : Type} (m : M α) : Prop := m.Avoids fun o _ => Op.isRead o = false

section Trees

variable {α β : Type}

theorem Reads.call {o : Op} (h : o.isRead) : Reads (.call (S := monitor) o : M (Op.Res o)) :=
  Prog.Avoids.call fun _ hr => by simp [h] at hr

theorem Reads.bind {m : M β} {f : β → M α} (hm : Reads m) (hf : ∀ a, Reads (f a)) :
    Reads (m >>= f) := Prog.Avoids.bind hm hf

theorem WritesOnce.of_reads_bind {m : M β} {f : β → M α} (hm : Reads m)
    (hf : ∀ a, WritesOnce (f a)) : WritesOnce (m >>= f) := by
  change WritesOnce (m.bind f)
  induction m with
  | pure a => exact hf a
  | raise e => trivial
  | op o k ih =>
    intro r
    obtain ⟨hr, hk⟩ := hm r
    exact .inl ⟨by simpa using hr, ih r hk⟩

theorem WritesOnce.map {m : M β} (g : β → α) (hm : WritesOnce m) :
    WritesOnce (m >>= fun a => pure (g a)) := by
  change WritesOnce (m.bind fun a => .pure (g a))
  induction m with
  | pure a => exact hm
  | raise e => trivial
  | op o k ih =>
    intro r
    rcases hm r with ⟨ho, hk⟩ | ⟨ho, a, ha⟩
    · exact .inl ⟨ho, ih r hk⟩
    · refine .inr ⟨ho, g a, ?_⟩
      change (k r).bind _ = _
      rw [ha]
      rfl

theorem reads_withCurrentLabel {m : Access Buckle α} : Reads (withCurrentLabel m) := by
  refine .bind (.call rfl) fun t => ?_
  split
  · exact .bind (.call rfl) fun _ => trivial
  · trivial

theorem reads_inspect (f : Thread → α) : Reads (inspect f) := .bind (.call rfl) fun _ => trivial

theorem reads_unwrap (a : Option α) : Reads (unwrap a) := by
  cases a <;> trivial

theorem reads_objectGet {T : Type} [Codec T] (u : Uid) : Reads (ObjectRef.get T u) :=
  .bind (.call rfl) fun _ => trivial

theorem reads_imageOf (fd : ℕ) : Reads (imageOf fd) := by
  refine .bind (reads_inspect _) fun e => ?_
  split <;> trivial

theorem reads_updateComponent (c : Option Pb.Component) (old : Component) :
    Reads (updateComponent c old) := by
  unfold updateComponent
  split
  · exact reads_unwrap _
  · trivial

variable [LabelCrate]

theorem reads_read {T : Type} [LabeledCodec T] (u : Uid) : Reads (ObjectRef.read T u) :=
  .bind (reads_objectGet u) fun _ => .bind (reads_unwrap _) fun _ => reads_withCurrentLabel

theorem reads_readGate (u : Uid) : Reads (readGate u) := by
  refine .bind (reads_objectGet u) fun o => ?_
  cases o with
  | none => trivial
  | some o => exact .bind reads_withCurrentLabel fun _ => trivial

theorem reads_updateImage (fd : ℕ) (old : String) : Reads (updateImage fd old) := by
  unfold updateImage
  split_ifs
  · exact .bind (reads_imageOf fd) fun u => reads_read u
  · trivial

theorem reads_updateFunction (f : Option Pb.Function) (old : Function) :
    Reads (updateFunction f old) := by
  unfold updateFunction
  split
  · trivial
  · exact .bind (reads_updateImage _ _) fun _ => .bind (reads_updateImage _ _) fun _ =>
      .bind (reads_updateImage _ _) fun _ => trivial

theorem reads_checkDelegate (q : Component) : Reads (checkDelegate q) := by
  refine .bind (reads_inspect _) fun p => ?_
  split_ifs <;> trivial

theorem reads_write {T : Type} (o : Labeled T) (v : T) : Reads (o.write v) := by
  refine .bind reads_withCurrentLabel fun _ => .bind (reads_inspect _) fun _ => ?_
  split_ifs <;> trivial

theorem writesOnce_replace (u : Uid) (g : Gate) : WritesOnce (Gate.replace u g) := by
  refine .of_reads_bind (reads_checkDelegate _) fun _ => ?_
  refine .of_reads_bind (reads_objectGet u) fun _ => .of_reads_bind (reads_unwrap _) fun _ => ?_
  refine .of_reads_bind (reads_write _ g) fun o => ?_
  exact fun r => .inr ⟨rfl, (), rfl⟩

theorem writesOnce_updateGate (u : Uid) (kind : Pb.GateKind) : WritesOnce (updateGate u kind) := by
  cases kind with
  | direct dg =>
    refine .of_reads_bind (reads_readGate u) fun g => ?_
    split
    · exact .of_reads_bind (reads_updateFunction _ _) fun _ =>
        .of_reads_bind (reads_updateComponent _ _) fun _ =>
        .of_reads_bind (reads_updateComponent _ _) fun _ => writesOnce_replace u _
    · trivial
  | redirect rd =>
    refine .of_reads_bind (reads_readGate u) fun g => ?_
    split
    · refine .of_reads_bind (reads_inspect _) fun e => ?_
      split
      · exact .of_reads_bind (reads_updateComponent _ _) fun _ =>
          .of_reads_bind (reads_updateComponent _ _) fun _ => writesOnce_replace u _
      · trivial
    · trivial

/-- `dent_update` of a gate reads, and writes once at its end. -/
theorem writesOnce_dentUpdate (fd : ℕ) (kind : Pb.GateKind) :
    WritesOnce (dentUpdate fd (.gate (some kind))) := by
  refine WritesOnce.map _ (.of_reads_bind (reads_inspect _) fun e => ?_)
  split
  · exact writesOnce_updateGate _ _
  · trivial

end Trees

/-! ### Runs -/

/-- A `DentUpdate` of a gate: the thread that makes it, the descriptor and the message. -/
structure Update where
  thread : Thread
  fd : ℕ
  kind : Pb.GateKind

section Record

variable {ι : Type}

/-- Who has written, in the order of the writes. -/
def writers : List (StoreAccess ι) → List ι
  | [] => []
  | e :: log => if e.op.isPut then writers log ++ [e.client] else writers log

/-- Someone else has written since `i` first read. -/
def Overtaken (i : ι) : List (StoreAccess ι) → Prop
  | [] => False
  | e :: log => (e.client ≠ i ∧ e.op.isPut ∧ ∃ a ∈ log, a.client = i) ∨ Overtaken i log

/-- No one was overtaken who has written. -/
def Isolated : List (StoreAccess ι) → Prop
  | [] => True
  | e :: log => (e.op.isPut → ¬Overtaken e.client log) ∧ Isolated log

instance decidableOvertaken [DecidableEq ι] (i : ι) :
    (log : List (StoreAccess ι)) → Decidable (Overtaken i log)
  | [] => inferInstanceAs (Decidable False)
  | e :: log =>
      haveI := decidableOvertaken i log
      inferInstanceAs (Decidable ((e.client ≠ i ∧ e.op.isPut ∧ ∃ a ∈ log, a.client = i) ∨
        Overtaken i log))

instance decidableIsolated [DecidableEq ι] : (log : List (StoreAccess ι)) → Decidable (Isolated log)
  | [] => inferInstanceAs (Decidable True)
  | e :: log =>
      haveI := decidableIsolated log
      inferInstanceAs (Decidable ((e.op.isPut → ¬Overtaken e.client log) ∧ Isolated log))

end Record

variable {ι : Type} [LabelCrate]

/-- What the thread runs. -/
def Update.prog (a : Update) : M Pb.Reply := dentUpdate a.fd (.gate (some a.kind))

/-- The world after the update has been executed alone, if it succeeds. -/
def Update.alone (a : Update) (w : World) : Option World :=
  match exec a.prog (w.withThread a.thread) with
  | (.ok _, w') => some (w'.withThread w.toThread)
  | (.error _, _) => none

/-- The world after these updates have been executed one after the other, if they all succeed. -/
def serially (updates : ι → Update) (w : World) (order : List ι) : Option World :=
  order.foldlM (fun w i => (updates i).alone w) w

/-- The updates before any of them has begun. -/
def pool (updates : ι → Update) (w : World) :
    Pool monitor Raised Pb.Reply ι Thread (Shared ι) where
  shared := .start w
  loc i := (updates i).thread
  prog i := (updates i).prog

/-- What holds during a run. As long as nobody has overtaken it, what an update has still to do is
what it would do from the start on the world as it is now. -/
structure Serial (updates : ι → Update) (w : World)
    (p : Pool monitor Raised Pb.Reply ι Thread (Shared ι)) : Prop where
  world : Isolated p.shared.log → serially updates w (writers p.shared.log) = some p.shared.world
  nodup : (writers p.shared.log).Nodup
  done : ∀ i ∈ writers p.shared.log, ∃ r, p.prog i = .pure r
  todo : ∀ i ∉ writers p.shared.log, WritesOnce (p.prog i)
  before : ∀ i, (∀ a ∈ p.shared.log, a.client ≠ i) → ∀ w' : World,
    exec (p.prog i) (w'.withThread (p.loc i)) =
      exec (updates i).prog (w'.withThread (updates i).thread)
  reading : ∀ i ∉ writers p.shared.log, ¬Overtaken i p.shared.log →
    exec (p.prog i) (p.shared.world.withThread (p.loc i)) =
      exec (updates i).prog (p.shared.world.withThread (updates i).thread)

variable {updates : ι → Update} {w : World}

theorem serial_start : Serial updates w (pool updates w) where
  world _ := rfl
  nodup := List.nodup_nil
  done _ h := nomatch h
  todo _ _ := writesOnce_dentUpdate _ _
  before _ _ _ := rfl
  reading _ _ _ := rfl

variable [DecidableEq ι] {p : Pool monitor Raised Pb.Reply ι Thread (Shared ι)}

omit [DecidableEq ι] in
theorem serially_concat (updates : ι → Update) (w : World) (order : List ι) (j : ι) :
    serially updates w (order ++ [j]) = (serially updates w order).bind (updates j).alone := by
  unfold serially
  rw [List.foldlM_append]
  cases order.foldlM (fun w i => (updates i).alone w) w <;> simp

/-- A step that changes neither the world nor the record: an operation on the thread. -/
theorem Serial.thread_step (h : Serial updates w p) {j : ι} {t : Thread} {m : M Pb.Reply}
    (hw : WritesOnce m) (hj : j ∉ writers p.shared.log)
    (hm : ∀ w' : World, exec m (w'.withThread t) = exec (p.prog j) (w'.withThread (p.loc j))) :
    Serial updates w { p with loc := Function.update p.loc j t, prog := Function.update p.prog j m } := by
  refine ⟨h.world, h.nodup, fun i hi => ?_, fun i hi => ?_, fun i hi w' => ?_, fun i hi ho => ?_⟩
  · have hij : i ≠ j := fun hij => hj (hij ▸ hi)
    simp only [Function.update_of_ne hij]
    exact h.done i hi
  · by_cases hij : i = j
    · subst hij
      simpa only [Function.update_self] using hw
    · simp only [Function.update_of_ne hij]
      exact h.todo i hi
  · by_cases hij : i = j
    · subst hij
      simp only [Function.update_self]
      exact (hm w').trans (h.before i hi w')
    · simp only [Function.update_of_ne hij]
      exact h.before i hi w'
  · by_cases hij : i = j
    · subst hij
      simp only [Function.update_self]
      exact (hm _).trans (h.reading i hi ho)
    · simp only [Function.update_of_ne hij]
      exact h.reading i hi ho

/-- A `get`: it adds to the record, and what is read is what is there. -/
theorem Serial.get_step (h : Serial updates w p) {j : ι} {u : Uid} {k : Option Stored → M Pb.Reply}
    (ho : p.prog j = .op (Op.get u) k) (hw : WritesOnce (k (p.shared.store u)))
    (hj : j ∉ writers p.shared.log) :
    Serial updates w
      { shared := p.shared.accessed j (.get u), loc := p.loc,
        prog := Function.update p.prog j (k (p.shared.store u)) } := by
  have hov : ∀ i, Overtaken i (p.shared.accessed j (.get u)).log → Overtaken i p.shared.log := by
    rintro i (⟨-, hput, -⟩ | hov)
    · cases hput
    · exact hov
  refine ⟨fun hiso => h.world hiso.2, h.nodup, fun i hi => ?_, fun i hi => ?_, fun i hi w' => ?_,
    fun i hi hnot => ?_⟩
  · have hij : i ≠ j := fun hij => hj (hij ▸ hi)
    simp only [Function.update_of_ne hij]
    exact h.done i hi
  · by_cases hij : i = j
    · subst hij
      simpa only [Function.update_self] using hw
    · simp only [Function.update_of_ne hij]
      exact h.todo i hi
  · have hij : i ≠ j := fun hij => hi _ List.mem_cons_self hij.symm
    simp only [Function.update_of_ne hij]
    exact h.before i (fun a ha => hi a (List.mem_cons_of_mem _ ha)) w'
  · have hr := h.reading i hi fun hov' => hnot (.inr hov')
    by_cases hij : i = j
    · subst hij
      simp only [Function.update_self]
      rw [ho] at hr
      exact hr
    · simp only [Function.update_of_ne hij]
      exact hr

/-- A `put`. Who has begun to read is overtaken; who has not may start from the new world. -/
theorem Serial.put_step (h : Serial updates w p) {j : ι} {u : Uid} {v : Stored}
    {k : Unit → M Pb.Reply} {r : Pb.Reply} (ho : p.prog j = .op (Op.put u v) k)
    (hr : k () = .pure r) (hj : j ∉ writers p.shared.log) :
    Serial updates w
      { shared := p.shared.written j (.put u v) u v, loc := p.loc,
        prog := Function.update p.prog j (k ()) } := by
  refine ⟨fun hiso => ?_, ?_, fun i hi => ?_, fun i hi => ?_, fun i hi w' => ?_, fun i hi hnot => ?_⟩
  · have halone := h.reading j hj (hiso.1 rfl)
    rw [ho] at halone
    change exec (k ()) _ = _ at halone
    rw [hr] at halone
    change serially updates w (writers p.shared.log ++ [j]) = _
    rw [serially_concat, h.world hiso.2, Option.bind_some, Update.alone, ← halone]
    rfl
  · exact List.nodup_append.2 ⟨h.nodup, List.nodup_singleton j, by
      intro a ha b hb hab
      rw [hab, List.mem_singleton.1 hb] at ha
      exact hj ha⟩
  · rcases List.mem_append.1 hi with hi | hi
    · have hij : i ≠ j := fun hij => hj (hij ▸ hi)
      simp only [Function.update_of_ne hij]
      exact h.done i hi
    · obtain rfl := List.mem_singleton.1 hi
      simp only [Function.update_self]
      exact ⟨r, hr⟩
  · have hi' : i ∉ writers p.shared.log ∧ i ≠ j := by simpa [writers, Op.isPut] using hi
    simp only [Function.update_of_ne hi'.2]
    exact h.todo i hi'.1
  · have hij : i ≠ j := fun hij => hi _ List.mem_cons_self hij.symm
    simp only [Function.update_of_ne hij]
    exact h.before i (fun a ha => hi a (List.mem_cons_of_mem _ ha)) w'
  · have hi' : i ∉ writers p.shared.log ∧ i ≠ j := by simpa [writers, Op.isPut] using hi
    simp only [Function.update_of_ne hi'.2]
    refine h.before i (fun a ha hai => hnot (.inl ⟨hi'.2.symm, rfl, a, ha, hai⟩)) _

/-- One step of one update. -/
theorem Serial.advance (h : Serial updates w p) (j : ι) :
    Serial updates w (p.advance (clients ι) j) := by
  obtain hp | ⟨o, k, ho, hp⟩ := p.advance_cases (clients ι) j
  · rwa [hp]
  · have hj : j ∉ writers p.shared.log := by
      intro hj
      obtain ⟨r, hr⟩ := h.done j hj
      rw [hr] at ho
      cases ho
    have hw := h.todo j hj
    rw [ho] at hw
    rw [hp]
    rcases hw ((clients ι).perform j o (p.loc j) p.shared).1 with ⟨hread, hk⟩ | ⟨hput, r, hr⟩
    · cases o with
      | thread => exact h.thread_step hk hj fun w' => by rw [ho]; rfl
      | setThread t => exact h.thread_step hk hj fun w' => by rw [ho]; rfl
      | get u =>
        simp only [clients_get, Function.update_eq_self]
        exact h.get_step ho hk hj
      | _ => cases hread
    · cases o with
      | put u v =>
        simp only [clients_put, Function.update_eq_self]
        exact h.put_step ho hr hj
      | _ => cases hput

theorem serial_run (updates : ι → Update) (w : World) (schedule : List ι) :
    Serial updates w ((pool updates w).run (clients ι) schedule) := by
  suffices h : ∀ p, Serial updates w p → Serial updates w (p.run (clients ι) schedule) from
    h _ serial_start
  induction schedule with
  | nil => exact fun p hp => hp
  | cons j js ih => exact fun p hp => ih _ (hp.advance j)

/-- The store of the run is the one that the successful updates leave when they are executed one
after the other in some order. -/
def Serializable (updates : ι → Update) (w : World) (schedule : List ι) : Prop :=
  ∃ order : List ι, order.Nodup ∧
    (∀ i, i ∈ order ↔ ∃ r, ((pool updates w).run (clients ι) schedule).prog i = .pure r) ∧
    ∃ w', serially updates w order = some w' ∧
      w'.store = ((pool updates w).run (clients ι) schedule).shared.store

/-- **Gate updates are serializable in every run in which no update is overtaken**: nobody else writes
between its first read and its write. -/
theorem gate_updates_serialized (updates : ι → Update) (w : World) (schedule : List ι)
    (h : Isolated ((pool updates w).run (clients ι) schedule).shared.log) :
    Serializable updates w schedule := by
  have hs := serial_run updates w schedule
  refine ⟨writers ((pool updates w).run (clients ι) schedule).shared.log, hs.nodup, fun i => ?_,
    _, hs.world h, rfl⟩
  refine ⟨hs.done i, fun ⟨r, hr⟩ => ?_⟩
  by_contra hi
  have hw := hs.todo i hi
  rw [hr] at hw
  exact hw

end GateUpdates

/-! ### A lost update -/

namespace LostUpdate

open GateUpdates
open scoped Dc

/-- The privilege that is to be revoked. -/
def alice : Component := .single ["alice"]

/-- A gate that grants the privilege, and a blob with a new image for it. -/
def world : World := .quiet (.idle publicLabel)
  ((Store.empty.put 1 (.encode (⟨publicLabel, .direct
      { privilege := alice, invokerIntegrityClearance := .dcTrue, declassify := .dcTrue
        function := { memory := 128, appImage := "old", runtimeImage := "python", kernel := "linux" } }⟩ :
        Labeled Gate))).put
    2 (.encode (⟨publicLabel, "new"⟩ : Labeled Blob)))

/-- A thread that has opened the gate as 1 and the blob as 2. -/
def thread : Thread :=
  { Thread.idle publicLabel with
    privilege := alice
    dents := fun fd => if fd = 1 then some (.gate 1) else if fd = 2 then some (.blob 2) else none }

/-- One thread lowers the privilege of the gate, the other replaces its image. -/
def updates : Bool → Update
  | false => ⟨thread, 1, .direct
      { privilege := some (.ofComponent .dcTrue), invokerIntegrityClearance := none
        function := none, declassify := none }⟩
  | true => ⟨thread, 1, .direct
      { privilege := none, invokerIntegrityClearance := none
        function := some { memory := 0, appImage := 2, runtime := 0, kernel := 0 }
        declassify := none }⟩

/-- One update after the other: both are in effect. -/
theorem one_after_the_other :
    Isolated ((pool updates world).run (clients Bool)
      (List.replicate 10 false ++ List.replicate 14 true)).shared.log ∧
    Serializable updates world (List.replicate 10 false ++ List.replicate 14 true) ∧
    ((pool updates world).run (clients Bool)
      (List.replicate 10 false ++ List.replicate 14 true)).shared.store 1 =
      some (.encode (⟨publicLabel, .direct
        { privilege := .dcTrue, invokerIntegrityClearance := .dcTrue, declassify := .dcTrue
          function := { memory := 128, appImage := "new", runtimeImage := "python"
                        kernel := "linux" } }⟩ : Labeled Gate)) :=
  ⟨by decide, gate_updates_serialized updates world _ (by decide), rfl⟩

/-- The schedule in which the second thread reads the gate before the first thread lowers its
privilege, and writes it back afterwards. -/
def overlapping : List Bool :=
  List.replicate 2 true ++ List.replicate 10 false ++ List.replicate 12 true

/-- Both updates succeed, and the privilege that was revoked is granted again: the run is like
neither order of the two. -/
theorem revoked_privilege_is_back :
    (∃ r, ((pool updates world).run (clients Bool) overlapping).prog false = .pure r) ∧
    (∃ r, ((pool updates world).run (clients Bool) overlapping).prog true = .pure r) ∧
    ¬Serializable updates world overlapping := by
  have hfalse : ∃ r, ((pool updates world).run (clients Bool) overlapping).prog false = .pure r :=
    ⟨_, rfl⟩
  have htrue : ∃ r, ((pool updates world).run (clients Bool) overlapping).prog true = .pure r :=
    ⟨_, rfl⟩
  refine ⟨hfalse, htrue, ?_⟩
  rintro ⟨order, hnodup, hiff, w', hw', hstore⟩
  have hf := (hiff false).2 hfalse
  have ht := (hiff true).2 htrue
  have hlen : order.length ≤ 2 := hnodup.length_le_card
  have hgate := congrFun hstore 1
  have horder : order = [false, true] ∨ order = [true, false] := by
    rcases order with _ | ⟨a, _ | ⟨b, _ | ⟨c, l⟩⟩⟩
    · cases hf
    · cases a <;> simp at hf ht
    · cases a <;> cases b <;> simp at hf ht hnodup ⊢
    · simp at hlen
  rcases horder with rfl | rfl
  · cases hw'
    exact absurd hgate (by decide)
  · cases hw'
    exact absurd hgate (by decide)

end LostUpdate

end Faasten
