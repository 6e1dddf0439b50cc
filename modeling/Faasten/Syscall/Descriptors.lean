import Mathlib
import Faasten.DcLabels
import Faasten.Syscall.Outcomes

/-!
# Descriptors are never confused

`Life` is what a processor goes through: the blobs of its task are given numbers, and syscalls are served.
Before each operation of the processor other threads may do anything to what it does not own.
`descriptors_never_confused` says for all lives of a processor that was set up by `new` that its tables
stay apart, that no descriptor is returned twice, and that a syscall changes only what its own descriptor
denotes.

The counters are natural numbers here: with fewer than `2 ^ 64` allocations those of the code do not wrap.
-/

namespace Faasten

open Std Effect SyscallProcessor

variable [LabelCrate]

/-- An act of a processor. -/
inductive Serves (h : Host) (rounds : ℕ) : Act → Thread → Thread → Prop
  | task {payload : Bytes} {bs : List (String × OpenBlob)}
      {headers : ExtTreeMap String String compare} {invoker : Component} {r : Request} {t t' : Thread}
      (ho : (onHost h).Outcome (SyscallProcessor.request payload bs headers invoker) t (.ok r) t') :
      Serves h rounds (.task (r.blobs.map Prod.snd)) t t'
  | syscall {sc : Pb.Syscall} {reply : Pb.Reply} {t t' : Thread}
      (ho : (onHost h).Outcome (doSyscall rounds sc) t (.ok (.sent reply)) t') :
      Serves h rounds (.served sc reply) t t'

/-- What a thread goes through. -/
inductive Life (h : Host) (rounds : ℕ) (t : Thread) : List Act → Thread → Prop
  | nil : Life h rounds t [] t
  | snoc {es : List Act} {e : Act} {t' t'' : Thread} (hl : Life h rounds t es t')
      (hs : Serves h rounds e t' t'') : Life h rounds t (es ++ [e]) t''

/-- The state of a processor that was set up by `new`, after these acts. -/
def Processor (h : Host) (rounds : ℕ) (es : List Act) (t : Thread) : Prop :=
  ∃ label privilege t₀ t₁, (onHost h).Outcome (SyscallProcessor.new label privilege) t₀ (.ok ()) t₁ ∧
    Life h rounds t₁ es t

/-! ### Whole lives -/

section Lives

variable {h : Host} {rounds : ℕ} {t t' : Thread} {e : Act} {es es' : List Act}

/-- What one act does. -/
theorem Serves.moves (hs : t.Separated) (hv : Serves h rounds e t t') :
    e.Moves h t t' ∧ t'.Separated := by
  cases hv with
  | task ho => exact moves_of_opens hs (outcome_request hs ho) (fun _ => rfl) fun _ _ => rfl
  | @syscall sc reply _ _ ho =>
    cases sc with
    | response r =>
      obtain ⟨_, _, -, heq, -⟩ := ho.bind_ok
      cases heq
    | _ =>
      obtain ⟨reply', t₁, hserve, heq, ht'⟩ := ho.bind_ok
      cases heq
      subst ht'
      exact moves_serve hs hserve

theorem Life.separated (hs : t.Separated) (hl : Life h rounds t es t') : t'.Separated := by
  induction hl with
  | nil => exact hs
  | snoc _ hv ih => exact (hv.moves ih).2

/-- The descriptors of entries that were returned are below the counter, and all different. -/
theorem Life.dents_nodup (hs : t.Separated) (hl : Life h rounds t es t') :
    (es.flatMap Act.dents).Nodup ∧ ∀ fd ∈ es.flatMap Act.dents, fd < t'.maxDentId := by
  induction hl with
  | nil => exact ⟨.nil, nofun⟩
  | @snoc es e t' t'' hl hv ih =>
    obtain ⟨hm, -⟩ := hv.moves (hl.separated hs)
    obtain ⟨hnodup, hlt⟩ := ih
    rw [List.flatMap_append, List.flatMap_singleton]
    refine ⟨Thread.nodup_append_of_lt hnodup hm.dents_nodup hlt fun fd hfd => (hm.dents fd hfd).1,
      fun fd hfd => ?_⟩
    rcases List.mem_append.1 hfd with hfd | hfd
    · exact (hlt fd hfd).trans_le hm.dentId
    · exact (hm.dents fd hfd).2.1

/-- The descriptors of blobs that were returned are below the counter, and all different. -/
theorem Life.blobs_nodup (hs : t.Separated) (hl : Life h rounds t es t') :
    (es.flatMap Act.blobs).Nodup ∧ ∀ fd ∈ es.flatMap Act.blobs, fd < t'.maxBlobId := by
  induction hl with
  | nil => exact ⟨.nil, nofun⟩
  | @snoc es e t' t'' hl hv ih =>
    obtain ⟨hm, -⟩ := hv.moves (hl.separated hs)
    obtain ⟨hnodup, hlt⟩ := ih
    rw [List.flatMap_append, List.flatMap_singleton]
    refine ⟨Thread.nodup_append_of_lt hnodup hm.blobs_nodup hlt fun fd hfd => (hm.blobs fd hfd).1,
      fun fd hfd => ?_⟩
    rcases List.mem_append.1 hfd with hfd | hfd
    · exact (hlt fd hfd).trans_le hm.blobId
    · exact (hm.blobs fd hfd).2.1

omit [LabelCrate] in
theorem Thread.Separated.lt_of_handle (hs : t.Separated) {fd : ℕ} {x : Handle}
    (hx : t.handle fd = some x) : fd < t.maxBlobId := by
  unfold Thread.handle at hx
  split at hx
  · exact hs.createBlobs fd (by simp [*])
  · exact hs.blobs fd (by simp [*])
  · cases hx

/-- An entry stays under its descriptor until that is closed. -/
theorem Life.dents_eq (hs : t.Separated) (hl : Life h rounds t es t') {fd : ℕ} {x : DirEntry}
    (hx : t.dents fd = some x) (hopen : ∀ e ∈ es, e.closesDent fd = false) :
    t'.dents fd = some x := by
  induction hl with
  | nil => exact hx
  | @snoc es e t' t'' hl hv ih =>
    obtain ⟨hm, -⟩ := hv.moves (hl.separated hs)
    have hx' := ih fun e he => hopen e (List.mem_append_left _ he)
    have hlt : fd < t'.maxDentId := (hl.separated hs).dents fd (by simp [hx'])
    have hnot : fd ∉ e.dents := fun hfd => by
      have := (hm.dents fd hfd).1
      omega
    rw [hm.dent fd hnot, hopen e (by simp), hx']
    rfl

omit [LabelCrate] in
/-- What an act makes of a blob that it does not close. -/
theorem Act.after_same {fd : ℕ} {x : Handle} (hopen : e.closesBlob fd = false) :
    ∃ y, e.after h fd (some x) = some y ∧ x.Same y := by
  cases e with
  | task fds => exact ⟨x, rfl, .refl x⟩
  | served sc reply =>
    cases sc with
    | blobWrite fd' bytes =>
      rcases x with b | b
      · cases reply with
        | blobResult ok _ len _ =>
          cases ok with
          | true =>
            refine ⟨_, rfl, ?_⟩
            split_ifs
            · exact List.prefix_append _ _
            · exact .refl _
          | false => exact ⟨_, rfl, .refl _⟩
        | _ => exact ⟨_, rfl, .refl _⟩
      · cases reply with
        | blobResult ok _ _ _ => cases ok <;> exact ⟨_, rfl, .refl _⟩
        | _ => exact ⟨_, rfl, .refl _⟩
    | blobFinalize fd' =>
      rcases x with b | b
      · cases reply with
        | blobResult ok _ _ _ =>
          by_cases hfd : fd = fd'
          · cases ok with
            | true =>
              refine ⟨.reading ⟨h.digestHex b.digest, b.file⟩, ?_, List.prefix_refl b.file⟩
              simp [Act.after, hfd]
            | false => simp [Act.closesBlob, hfd] at hopen
          · exact ⟨.writing b, by simp [Act.after, hfd], .refl _⟩
        | _ => exact ⟨_, rfl, .refl _⟩
      · cases reply <;> exact ⟨_, rfl, .refl _⟩
    | blobClose fd' =>
      have hfd : fd ≠ fd' := by simpa [Act.closesBlob] using hopen
      rcases x with b | b
      · exact ⟨_, rfl, .refl _⟩
      · exact ⟨.reading b, by simp [Act.after, hfd], .refl _⟩
    | _ => exact ⟨x, rfl, .refl x⟩

/-- A blob stays under its descriptor until that is closed. -/
theorem Life.handle_same (hs : t.Separated) (hl : Life h rounds t es t') {fd : ℕ} {x : Handle}
    (hx : t.handle fd = some x) (hopen : ∀ e ∈ es, e.closesBlob fd = false) :
    ∃ y, t'.handle fd = some y ∧ x.Same y := by
  induction hl with
  | nil => exact ⟨x, hx, .refl x⟩
  | @snoc es e t' t'' hl hv ih =>
    obtain ⟨hm, -⟩ := hv.moves (hl.separated hs)
    obtain ⟨y, hy, hsame⟩ := ih fun e he => hopen e (List.mem_append_left _ he)
    have hlt := (hl.separated hs).lt_of_handle hy
    have hnot : fd ∉ e.blobs := fun hfd => by
      have := (hm.blobs fd hfd).1
      omega
    obtain ⟨z, hz, hsame'⟩ := e.after_same (h := h) (x := y) (hopen e (by simp))
    exact ⟨z, by rw [hm.handle fd hnot, hy, hz], hsame.trans hsame'⟩

/-- A new processor has the root directory open, and nothing else. -/
theorem outcome_new {label : Buckle} {privilege : Component}
    (ho : (onHost h).Outcome (SyscallProcessor.new label privilege) t (.ok ()) t') :
    t'.Separated ∧ t'.maxDentId = 1 ∧ t'.dents 0 = some (.directory FS.rootRef) ∧
      ∀ fd, t'.handle fd = none := by
  obtain ⟨_, t₁, -, ho⟩ := ho.bind_ok
  obtain ⟨_, t₂, -, ho⟩ := ho.bind_ok
  obtain ⟨_, t₃, -, ho⟩ := ho.bind_ok
  have ht' := outcome_amend ho
  subst ht'
  refine ⟨⟨fun fd hfd => ?_, fun fd hfd => absurd rfl hfd, fun fd hfd => absurd rfl hfd,
    fun _ => .inl rfl⟩, rfl, rfl, fun _ => rfl⟩
  by_contra hle
  refine hfd (if_neg ?_)
  rintro rfl
  exact hle Nat.one_pos

/-- **Descriptors are never confused.** After any acts of a processor the keys of its tables are below
their counters and the two tables of blobs have no key in common, so that a blob that is finalized takes
the place of no other one. The descriptors that were returned are all different. The next act opens only
descriptors that were never used, and changes what another one denotes only if it is made on that one.
In whatever follows, a descriptor denotes the same entry, or the same blob, until it is closed. -/
theorem descriptors_never_confused (hp : Processor h rounds es t) :
    t.Separated ∧ (es.flatMap Act.dents).Nodup ∧ (es.flatMap Act.blobs).Nodup ∧
      (∀ fd ∈ es.flatMap Act.dents, fd < t.maxDentId) ∧
      (∀ fd ∈ es.flatMap Act.blobs, fd < t.maxBlobId) ∧
      (∀ e t', Serves h rounds e t t' → e.Moves h t t') ∧
      ∀ es' t', Life h rounds t es' t' →
        (∀ fd x, t.dents fd = some x → (∀ e ∈ es', e.closesDent fd = false) →
          t'.dents fd = some x) ∧
        ∀ fd x, t.handle fd = some x → (∀ e ∈ es', e.closesBlob fd = false) →
          ∃ y, t'.handle fd = some y ∧ x.Same y := by
  obtain ⟨label, privilege, t₀, t₁, hnew, hl⟩ := hp
  obtain ⟨hs₁, -⟩ := outcome_new hnew
  have hs := hl.separated hs₁
  obtain ⟨hdents, hdlt⟩ := hl.dents_nodup hs₁
  obtain ⟨hblobs, hblt⟩ := hl.blobs_nodup hs₁
  exact ⟨hs, hdents, hblobs, hdlt, hblt, fun e t' hv => (hv.moves hs).1, fun es' t' hl' =>
    ⟨fun fd x hx hopen => hl'.dents_eq hs hx hopen, fun fd x hx hopen => hl'.handle_same hs hx hopen⟩⟩

end Lives

end Faasten

/-! ### Two blobs -/

namespace Faasten.Numbers

open Effect SyscallProcessor
open scoped Dc

/-- A quiet world where no file operation fails. -/
def world : World := { World.quiet (.idle publicLabel) .empty with io := .const (.ok 10) }

/-- A new processor in it. -/
def start : World := (exec (SyscallProcessor.new publicLabel .dcTrue) world).2

/-- The world after a syscall. -/
def after (sc : Pb.Syscall) (w : World) : World := (exec (doSyscall 1 sc) w).2

/-- Two blobs are created, and the first one is written and saved. -/
def saved : World :=
  after (.blobFinalize 1) (after (.blobWrite 1 [7, 7]) (after (.blobCreate none)
    (after (.blobCreate none) start)))

/-- What happened. -/
def acts : List Act :=
  [.served (.blobCreate none) (.blobResult true 1 0 none),
    .served (.blobCreate none) (.blobResult true 2 0 none),
    .served (.blobWrite 1 [7, 7]) (.blobResult true 1 2 none),
    .served (.blobFinalize 1) (.blobResult true 1 2 none)]

theorem serves_after {sc : Pb.Syscall} {reply : Pb.Reply} {w : World} (hw : w.host = .mute)
    (h : (exec (doSyscall 1 sc) w).1 = .ok (.sent reply)) :
    Serves .mute 1 (.served sc reply) w.toThread (after sc w).toThread := by
  have ho := outcome_of_exec (doSyscall 1 sc) w
  rw [h, hw] at ho
  exact .syscall ho

theorem processor_saved : Processor .mute 1 acts saved.toThread := by
  refine ⟨publicLabel, .dcTrue, _, start.toThread, outcome_of_exec _ world, ?_⟩
  exact (((Life.nil.snoc (serves_after rfl rfl)).snoc (serves_after rfl rfl)).snoc
    (serves_after rfl rfl)).snoc (serves_after rfl rfl)

/-- The two blobs have different descriptors, and the first one can be read now. -/
theorem numbers_kept :
    acts.flatMap Act.blobs = [1, 2] ∧ [1, 2].Nodup ∧
      saved.handle 1 = some (.reading ⟨"", [7, 7]⟩) ∧ saved.handle 2 = some (.writing {}) :=
  ⟨rfl, (descriptors_never_confused processor_saved).2.2.1, by decide +kernel, by decide +kernel⟩

end Faasten.Numbers
