import Mathlib
import Faasten.Clients.Archive
import Faasten.Clients.Integrity

/-!
# The blobstore is content-addressed

Any number of processors take up tasks and serve guests, interleaved one operation at a time, and keep a
record of what they did. `blobs_immutable` says of every state they reach that each file has the name of
its bytes and stays as it is, and of every blob that was saved that its file holds the bytes that were
accepted for it, in order.
-/

namespace Faasten

open Std Effect SyscallProcessor

namespace Archive

variable {ι α β : Type} {h : Host} {i : ι} {t : Thread} {s s' s'' : Shared ι}

/-! ### The server -/

section Server

theorem sound_openImage (name : String) (hi : Inv h s) (ht : Own t s) :
    Sound h i Any (openImage name) t s := by
  refine .bind hi ht (sound_newBlobId hi ht) fun fd t₁ s₁ hi₁ ht₁ _ _ => ?_
  refine .bind hi₁ ht₁ (sound_openExpect name hi₁ ht₁) fun b t₂ s₂ hi₂ ht₂ _ hb => ?_
  exact .map hi₂ ht₂ (sound_putBlob hi₂ ht₂ hb) _

theorem sound_showGate (g : Gate) (hi : Inv h s) (ht : Own t s) :
    Sound h i Any (showGate g) t s := by
  cases g with
  | redirect g => exact .pure fun _ _ => trivial
  | direct g =>
    refine .bind hi ht (sound_openImage _ hi ht) fun _ t₁ s₁ hi₁ ht₁ _ _ => ?_
    refine .bind hi₁ ht₁ (sound_openImage _ hi₁ ht₁) fun _ t₂ s₂ hi₂ ht₂ _ _ => ?_
    exact .map hi₂ ht₂ (sound_openImage _ hi₂ ht₂) _

theorem sound_openBlobs (bs : List (String × String)) (hi : Inv h s) (ht : Own t s) :
    Sound h i (fun r s => ∀ k b, (k, b) ∈ r → Archived s b) (openBlobs bs) t s := by
  induction bs generalizing t s with
  | nil => exact .pure fun _ _ => nofun
  | cons b bs ih =>
    obtain ⟨k, b⟩ := b
    refine .bind hi ht (sound_openExpect b hi ht) fun x t₁ s₁ hi₁ ht₁ _ hx => ?_
    refine .bind hi₁ ht₁ (ih hi₁ ht₁) fun r t₂ s₂ _ _ hs₂ hr => .pure fun s' hs' k' b' hb' => ?_
    rcases List.mem_cons.1 hb' with heq | hb'
    · cases heq
      exact (hs₂.trans hs') _ _ hx
    · exact hs' _ _ (hr k' b' hb')

theorem sound_insertBlobs {bs : List (String × OpenBlob)} (hi : Inv h s) (ht : Own t s)
    (hbs : ∀ k b, (k, b) ∈ bs → Archived s b) : Sound h i Any (insertBlobs bs) t s := by
  induction bs generalizing t s with
  | nil => exact .pure fun _ _ => trivial
  | cons b bs ih =>
    obtain ⟨k, b⟩ := b
    refine .bind hi ht (sound_newBlobId hi ht) fun fd t₁ s₁ hi₁ ht₁ hs₁ _ => ?_
    refine .bind hi₁ ht₁ (sound_putBlob hi₁ ht₁ (hs₁ _ _ (hbs k b List.mem_cons_self)))
      fun _ t₂ s₂ hi₂ ht₂ hs₂ _ => ?_
    refine .map hi₂ ht₂ (ih hi₂ ht₂ fun k b hb => ?_) _
    exact (hs₁.trans hs₂) _ _ (hbs k b (List.mem_cons_of_mem _ hb))

theorem sound_toBlob (content : Bytes) (hi : Inv h s) (ht : Own t s) :
    Sound h i Any (toBlob content) t s := by
  refine .bind hi ht (sound_storeExpect content hi ht) fun b t₁ s₁ hi₁ ht₁ _ hb => ?_
  refine .bind hi₁ ht₁ (sound_newBlobId hi₁ ht₁) fun fd t₂ s₂ hi₂ ht₂ hs₂ _ => ?_
  exact .map hi₂ ht₂ (sound_putBlob hi₂ ht₂ (hs₂ _ _ hb)) _

theorem sound_blobCreate (hi : Inv h s) (ht : Own t s) : Sound h i Any blobCreate t s := by
  refine .bind hi ht (sound_create hi ht) fun r t₁ s₁ hi₁ ht₁ _ hr => ?_
  cases r with
  | error e => exact .pure fun _ _ => trivial
  | ok b =>
    refine .bind hi₁ ht₁ (sound_newBlobId hi₁ ht₁) fun fd t₂ s₂ hi₂ ht₂ _ _ => ?_
    exact .map hi₂ ht₂ (sound_amend hi₂ ht₂ fun _ _ _ ht' => ht'.putNewBlob (hr b rfl)) _

theorem sound_blobWrite (fd : ℕ) (data : Bytes) (hi : Inv h s) (ht : Own t s) :
    Sound h i Any (blobWrite fd data) t s := by
  refine .bind hi ht (sound_inspect hi ht) fun b t₁ s₁ hi₁ ht₁ _ hb => ?_
  obtain ⟨t', ht', hb⟩ := hb
  split
  · rename_i b
    have hfaithful : b.Faithful := ht'.createBlobs fd b hb.symm
    refine .bind hi₁ ht₁ (sound_write hfaithful data hi₁ ht₁) fun r t₂ s₂ hi₂ ht₂ _ hr => ?_
    split
    · exact .map hi₂ ht₂ (sound_amend hi₂ ht₂ fun _ _ _ ht' => ht'.putNewBlob (hr _ _ rfl)) _
    · exact .pure fun _ _ => trivial
  · exact .pure fun _ _ => trivial

theorem sound_blobFinalize (fd : ℕ) (hi : Inv h s) (ht : Own t s) :
    Sound h i Any (blobFinalize fd) t s := by
  refine .bind hi ht (sound_inspect hi ht) fun b t₁ s₁ hi₁ ht₁ _ hb => ?_
  obtain ⟨t', ht', hb⟩ := hb
  split
  · rename_i b
    have hfaithful : b.Faithful := ht'.createBlobs fd b hb.symm
    refine .bind hi₁ ht₁ (sound_amend hi₁ ht₁ fun _ _ _ ht' => ht'.closeNewBlob fd)
      fun _ t₂ s₂ hi₂ ht₂ _ _ => ?_
    refine .bind hi₂ ht₂ (sound_save hfaithful hi₂ ht₂) fun r t₃ s₃ hi₃ ht₃ _ hr => ?_
    split
    · exact .map hi₃ ht₃ (sound_putBlob hi₃ ht₃ (hr _ rfl)) _
    · exact .pure fun _ _ => trivial
  · exact .pure fun _ _ => trivial

theorem sound_blobClose (fd : ℕ) (hi : Inv h s) (ht : Own t s) :
    Sound h i Any (blobClose fd) t s := by
  refine .bind hi ht (sound_inspect hi ht) fun b t₁ s₁ hi₁ ht₁ _ hb => ?_
  split
  · exact .map hi₁ ht₁ (sound_amend hi₁ ht₁ fun _ _ _ ht' => ht'.closeBlob fd) _
  · exact .pure fun _ _ => trivial

theorem sound_dentClose (fd : ℕ) (hi : Inv h s) (ht : Own t s) :
    Sound h i Any (dentClose fd) t s :=
  .map hi ht (sound_amend (f := fun t => t.closeDent fd) hi ht fun _ _ _ ht' =>
    ⟨ht'.blobs, ht'.createBlobs⟩) _

variable [LabelCrate] (rounds : ℕ)

theorem sound_openEntry (dirFd : ℕ) (entry : Pb.OpenEntry) (hi : Inv h s) (ht : Own t s) :
    Sound h i Any (openEntry rounds dirFd entry) t s := by
  refine .bind hi ht (.of_keeps (keeps_dent dirFd)) fun e t₁ s₁ hi₁ ht₁ _ _ => ?_
  split
  · refine .bind hi₁ ht₁ (.of_keeps (keeps_list _)) fun entries t₂ s₂ hi₂ ht₂ _ _ => ?_
    split
    · exact .map hi₂ ht₂ (sound_newDent _ hi₂ ht₂) _
    · exact .pure fun _ _ => trivial
  · refine .bind hi₁ ht₁ (.of_keeps (.unwrap _)) fun l t₂ s₂ hi₂ ht₂ _ _ => ?_
    refine .bind hi₂ ht₂ (.of_keeps (keeps_open rounds _ l)) fun dir t₃ s₃ hi₃ ht₃ _ _ => ?_
    exact .map hi₃ ht₃ (sound_newDent _ hi₃ ht₃) _
  · split
    · refine .bind hi₁ ht₁ (.of_keeps (keeps_open rounds _ _)) fun dir t₃ s₃ hi₃ ht₃ _ _ => ?_
      exact .map hi₃ ht₃ (sound_newDent _ hi₃ ht₃) _
    · exact .pure fun _ _ => trivial
  · exact .pure fun _ _ => trivial

theorem sound_create' (label : Option Pb.Buckle) (kind : Option Pb.CreateKind) (hi : Inv h s)
    (ht : Own t s) : Sound h i Any (create rounds label kind) t s := by
  refine .bind hi ht (.of_keeps (keeps_convertLabel label)) fun l t₁ s₁ hi₁ ht₁ _ _ => ?_
  split
  · refine .bind hi₁ ht₁ (Sound.result ?_) fun r t₂ s₂ _ _ _ _ => ?_
    · refine .bind hi₁ ht₁ (.of_keeps (keeps_createEntry rounds _ _))
        fun e t₂ s₂ hi₂ ht₂ _ _ => ?_
      exact .map hi₂ ht₂ (sound_newDent e hi₂ ht₂) _
    · split <;> exact .pure fun _ _ => trivial
  · exact .pure fun _ _ => trivial

theorem sound_receive (toblob : Bool) (res : TaskReturn) (hi : Inv h s) (ht : Own t s) :
    Sound h i Any (receive toblob res) t s := by
  refine .bind hi ht (.of_keeps (keeps_labelOrPublic _)) fun l t₁ s₁ hi₁ ht₁ _ _ => ?_
  refine .bind hi₁ ht₁ (.of_keeps (keeps_withCurrentLabel _)) fun _ t₂ s₂ hi₂ ht₂ _ _ => ?_
  refine .bind hi₂ ht₂ (.of_keeps (.unwrap _)) fun p t₃ s₃ hi₃ ht₃ _ _ => ?_
  exact .ite (fun _ => .map hi₃ ht₃ (sound_toBlob _ hi₃ ht₃) _) fun _ => .pure fun _ _ => trivial

theorem sound_invokeGate (u : Uid) (sync : Bool) (payload : Bytes) (toblob : Bool)
    (parameters : ExtTreeMap String String compare) (hi : Inv h s) (ht : Own t s) :
    Sound h i Any (invokeGate rounds u sync payload toblob parameters) t s := by
  refine .bind hi ht (.of_keeps (keeps_toInvokable rounds u)) fun g t₁ s₁ hi₁ ht₁ _ _ => ?_
  refine .bind hi₁ ht₁ (.of_keeps keeps_getPrivilege) fun p t₂ s₂ hi₂ ht₂ _ _ => ?_
  refine .ite (fun _ => ?_) fun _ => .pure fun _ _ => trivial
  refine .bind hi₂ ht₂ (.of_keeps keeps_schedConn) fun conn t₃ s₃ hi₃ ht₃ _ _ => ?_
  refine .ite (fun _ => ?_) fun _ => .raise
  refine .bind hi₃ ht₃ (.of_keeps keeps_getCurrentLabel) fun l t₄ s₄ hi₄ ht₄ _ _ => ?_
  refine .bind hi₄ ht₄ (.of_keeps keeps_getPrivilege) fun q t₅ s₅ hi₅ ht₅ _ _ => ?_
  refine .bind hi₅ ht₅ (.of_keeps (keeps_schedWrite _)) fun sent t₆ s₆ hi₆ ht₆ _ _ => ?_
  refine .ite (fun _ => .ite (fun _ => ?_) fun _ => .pure fun _ _ => trivial)
    fun _ => .pure fun _ _ => trivial
  refine .bind hi₆ ht₆ (.of_keeps keeps_schedRead) fun r t₇ s₇ hi₇ ht₇ _ _ => ?_
  split
  · exact sound_receive toblob _ hi₇ ht₇
  · exact .pure fun _ _ => trivial

theorem sound_invokeService (u : Uid) (payload : Bytes) (toblob : Bool)
    (parameters : ExtTreeMap String String compare) (hi : Inv h s) (ht : Own t s) :
    Sound h i Any (invokeService u payload toblob parameters) t s := by
  refine .bind hi ht (.of_keeps (keeps_read u)) fun v t₁ s₁ hi₁ ht₁ _ _ => ?_
  refine .bind hi₁ ht₁ (.of_keeps keeps_getPrivilege) fun p t₂ s₂ hi₂ ht₂ _ _ => ?_
  refine .ite (fun _ => ?_) fun _ => .pure fun _ _ => trivial
  refine .bind hi₂ ht₂ (.of_keeps (keeps_withCurrentLabel _)) fun _ t₃ s₃ hi₃ ht₃ _ _ => ?_
  refine .bind hi₃ ht₃ (.of_keeps (keeps_httpSend _ _ _)) fun r t₄ s₄ hi₄ ht₄ _ _ => ?_
  refine .bind hi₄ ht₄ (.of_keeps (keeps_withCurrentLabel _)) fun _ t₅ s₅ hi₅ ht₅ _ _ => ?_
  split
  · refine .ite (fun _ => ?_) fun _ => .pure fun _ _ => trivial
    refine .bind hi₅ ht₅ (.of_keeps (.unwrap _)) fun body t₆ s₆ hi₆ ht₆ _ _ => ?_
    exact .map hi₆ ht₆ (sound_toBlob body hi₆ ht₆) _
  · exact .pure fun _ _ => trivial

theorem sound_dentGetBlob (fd : ℕ) (hi : Inv h s) (ht : Own t s) :
    Sound h i Any (dentGetBlob fd) t s := by
  refine .bind hi ht (.of_keeps (keeps_dent fd)) fun e t₁ s₁ hi₁ ht₁ _ _ => ?_
  split
  · refine .bind hi₁ ht₁ (.of_keeps (keeps_read _)) fun name t₂ s₂ hi₂ ht₂ _ _ => ?_
    refine .bind hi₂ ht₂ (sound_openExpect name hi₂ ht₂) fun b t₃ s₃ hi₃ ht₃ _ hb => ?_
    refine .bind hi₃ ht₃ (sound_newBlobId hi₃ ht₃) fun n t₄ s₄ hi₄ ht₄ hs₄ _ => ?_
    refine .bind hi₄ ht₄ (.of_keeps (keeps_lenExpect b)) fun len t₅ s₅ hi₅ ht₅ hs₅ _ => ?_
    exact .map hi₅ ht₅ (sound_putBlob hi₅ ht₅ ((hs₄.trans hs₅) _ _ hb)) _
  · exact .pure fun _ _ => trivial

/-- Every syscall keeps the archive. -/
theorem sound_serve (sc : Pb.Syscall) (hi : Inv h s) (ht : Own t s) :
    Sound h i Any (serve rounds sc) t s := by
  have keeps : ∀ {m : M Pb.Reply}, Keeps (·.host = h) m → Sound h i Any m t s := fun hm =>
    .of_keeps hm
  cases sc with
  | response r => exact .raise
  | subPrivilege c => exact .raise
  | buckleParse label => exact keeps (.pure _)
  | root => exact keeps (.pure _)
  | getCurrentLabel => exact keeps (.bind keeps_getCurrentLabel fun _ => .pure _)
  | taintWithLabel label =>
    exact keeps (.bind (.unwrap _) fun _ => .bind (keeps_withCurrentLabel _) fun _ => .pure _)
  | declassify c =>
    refine keeps (.bind (.unwrap _) fun _ => .bind (keeps_declassify _) fun r => ?_)
    split <;> exact .pure _
  | dentUpdate fd kind => exact keeps (keeps_update fd kind)
  | dentRead fd => exact keeps (keeps_readingSyscall fd).1
  | dentList fd => exact keeps (keeps_readingSyscall fd).2.1
  | dentLsFaceted fd clearance =>
    exact keeps (.bind (keeps_labelOrPublic _) fun _ => (keeps_readingSyscall fd).2.2 _)
  | dentLink dirFd name targetFd => exact keeps (keeps_dentLink dirFd name targetFd)
  | dentUnlink fd name => exact keeps (keeps_dentUnlink fd name)
  | blobRead fd offset length => exact keeps (keeps_blobRead _ _ _)
  | dentOpen fd entry =>
    refine .bind hi ht (.of_keeps (.unwrap entry)) fun entry t₁ s₁ hi₁ ht₁ _ _ => ?_
    refine .bind hi₁ ht₁ (sound_openEntry rounds fd entry hi₁ ht₁) fun r t₂ s₂ _ _ _ _ => ?_
    split <;> exact .pure fun _ _ => trivial
  | dentClose fd => exact sound_dentClose fd hi ht
  | dentCreate label kind => exact sound_create' rounds label kind hi ht
  | dentLsGate fd =>
    refine .bind hi ht (.of_keeps (keeps_dent fd)) fun e t₁ s₁ hi₁ ht₁ _ _ => ?_
    split
    · refine .bind hi₁ ht₁ (.of_keeps (keeps_read _)) fun g t₂ s₂ hi₂ ht₂ _ _ => ?_
      exact .map hi₂ ht₂ (sound_showGate g hi₂ ht₂) _
    · exact .pure fun _ _ => trivial
  | dentInvoke fd sync payload toblob parameters =>
    refine .bind hi ht (.of_keeps (keeps_dent fd)) fun e t₁ s₁ hi₁ ht₁ _ _ => ?_
    split
    · exact .map hi₁ ht₁ (sound_invokeGate rounds _ sync payload toblob parameters hi₁ ht₁) _
    · exact .map hi₁ ht₁ (sound_invokeService _ payload toblob parameters hi₁ ht₁) _
    · exact .pure fun _ _ => trivial
  | dentGetBlob fd => exact sound_dentGetBlob fd hi ht
  | blobCreate size => exact sound_blobCreate hi ht
  | blobWrite fd data => exact sound_blobWrite fd data hi ht
  | blobFinalize fd => exact sound_blobFinalize fd hi ht
  | blobClose fd => exact sound_blobClose fd hi ht

theorem sound_doSyscall (sc : Pb.Syscall) (hi : Inv h s) (ht : Own t s) :
    Sound h i Any (doSyscall rounds sc) t s := by
  cases sc with
  | response r =>
    refine .map hi ht (.of_keeps ?_) _
    exact .bind keeps_getPrivilege fun _ => .bind (keeps_withCurrentLabel _) fun _ => .pure _
  | _ => exact .map hi ht (sound_serve rounds _ hi ht) _

end Server

/-! ### What was accepted -/

section Accepted

/-- The bytes that a write has taken for the blob under `fd`. -/
def taken (fd : ℕ) : Act → Bytes
  | .served (.blobWrite fd' bytes) (.blobResult true _ len _) => if fd' = fd then bytes.take len else []
  | _ => []

/-- The bytes that were accepted for the blob under `fd`, in order. -/
def accepted (fd : ℕ) (es : List Act) : Bytes := es.flatMap (taken fd)

theorem accepted_snoc (fd : ℕ) (es : List Act) (e : Act) :
    accepted fd (es ++ [e]) = accepted fd es ++ taken fd e := by
  simp [accepted, List.flatMap_append]

variable [LabelCrate] {rounds : ℕ} {t t' : Thread} {e : Act} {es : List Act}

/-- A write takes bytes only for a blob that is being written. -/
theorem writing_of_taken {fd : ℕ} (hv : Serves h rounds e t t') (htaken : taken fd e ≠ []) :
    ∃ b, t.createBlobs fd = some b := by
  cases hv with
  | task ho => exact absurd rfl htaken
  | @syscall sc reply _ _ ho =>
    cases sc with
    | blobWrite fd' bytes =>
      obtain ⟨reply', t₁, hserve, heq, -⟩ := ho.bind_ok
      cases heq
      obtain ⟨x, t₂, h₂, hserve⟩ := hserve.bind_ok
      obtain ⟨hx, -⟩ := outcome_inspect h₂
      rcases hb : t.createBlobs fd' with _ | b
      · rw [hx, hb] at hserve
        cases hserve.1
        exact absurd rfl htaken
      · by_cases hfd : fd' = fd
        · exact ⟨b, hfd ▸ hb⟩
        · cases reply with
          | blobResult ok _ len _ => cases ok <;> simp [taken, hfd] at htaken
          | _ => exact absurd rfl htaken
    | _ => exact absurd rfl htaken

/-- What is saved is a blob that was being written, and its length is reported. -/
theorem writing_of_saved {fd fd' len : ℕ} {data : Option Bytes}
    (hv : Serves h rounds (.served (.blobFinalize fd) (.blobResult true fd' len data)) t t') :
    ∃ b, t.createBlobs fd = some b ∧ len = b.len := by
  cases hv with
  | syscall ho =>
    obtain ⟨reply', t₁, hserve, heq, -⟩ := ho.bind_ok
    cases heq
    obtain ⟨x, t₂, h₂, hserve⟩ := hserve.bind_ok
    obtain ⟨hx, -⟩ := outcome_inspect h₂
    rcases hb : t.createBlobs fd with _ | b
    · rw [hx, hb] at hserve
      cases hserve.1
    · rw [hx, hb] at hserve
      obtain ⟨_, t₃, -, hserve⟩ := hserve.bind_ok
      obtain ⟨r, t₄, -, hserve⟩ := hserve.bind_ok
      cases r with
      | error e => cases hserve.1
      | ok b' =>
        obtain ⟨_, t₅, -, hend⟩ := hserve.bind_ok
        cases hend.1
        exact ⟨b, rfl, rfl⟩

omit [LabelCrate] in
/-- A blob that is written after an act was written before it, and holds what the act took for it. -/
theorem writing_of_after {fd : ℕ} {x : Option Handle} {b : NewBlob}
    (hb : e.after h fd x = some (.writing b)) :
    ∃ b₀, x = some (.writing b₀) ∧ (b = b₀ ∧ taken fd e = [] ∨
      ∃ bytes len, b = b₀.append bytes len ∧ taken fd e = bytes.take len) := by
  cases e with
  | task fds => exact ⟨b, hb, .inl ⟨rfl, rfl⟩⟩
  | served sc reply =>
    cases sc with
    | blobWrite fd' bytes =>
      cases reply with
      | blobResult ok _ len _ =>
        rcases x with _ | b₀ | b₀
        · cases ok <;> cases hb
        · cases ok with
          | false => exact ⟨b, hb, .inl ⟨rfl, rfl⟩⟩
          | true =>
            simp only [Act.after, Option.some.injEq, Handle.writing.injEq] at hb
            subst hb
            by_cases hfd : fd = fd'
            · exact ⟨b₀, rfl, .inr ⟨bytes, len, by simp [hfd], by simp [taken, hfd]⟩⟩
            · exact ⟨b₀, rfl, .inl ⟨by simp [hfd], by simp [taken, Ne.symm hfd]⟩⟩
        · cases ok <;> cases hb
      | _ => exact ⟨b, hb, .inl ⟨rfl, rfl⟩⟩
    | blobFinalize fd' =>
      refine ⟨b, ?_, .inl ⟨rfl, rfl⟩⟩
      rcases x with _ | b₀ | b₀
      · cases reply <;> exact hb
      · cases reply with
        | blobResult ok _ _ _ =>
          simp only [Act.after] at hb
          split_ifs at hb
          · cases hb
          · exact hb
        | _ => exact hb
      · cases reply <;> exact hb
    | blobClose fd' =>
      refine ⟨b, ?_, .inl ⟨rfl, rfl⟩⟩
      rcases x with _ | b₀ | b₀
      · exact hb
      · exact hb
      · simp only [Act.after] at hb
        split_ifs at hb
        exact hb
    | _ => exact ⟨b, hb, .inl ⟨rfl, rfl⟩⟩

/-- A blob that is being written holds the bytes that were accepted for it. -/
structure Accepts (es : List Act) (t : Thread) : Prop where
  unused : ∀ fd, t.maxBlobId ≤ fd → accepted fd es = []
  writing : ∀ fd b, t.handle fd = some (.writing b) → b.Faithful ∧ b.file = accepted fd es

theorem Accepts.snoc (hs : t.Separated) (ha : Accepts es t) (hv : Serves h rounds e t t') :
    Accepts (es ++ [e]) t' := by
  obtain ⟨hm, -⟩ := hv.moves hs
  have hnone : ∀ fd, t.maxBlobId ≤ fd → taken fd e = [] := by
    intro fd hle
    by_contra hne
    obtain ⟨b, hb⟩ := writing_of_taken hv hne
    have := hs.createBlobs fd (by simp [hb])
    omega
  refine ⟨fun fd hle => ?_, fun fd b hb => ?_⟩
  · have hle' := hm.blobId.trans hle
    rw [accepted_snoc, ha.unused fd hle', hnone fd hle']
    rfl
  · rw [accepted_snoc]
    by_cases hfd : fd ∈ e.blobs
    · obtain ⟨hle, -, x, hx, hfresh⟩ := hm.blobs fd hfd
      rw [hb] at hx
      cases hx
      cases hfresh
      rw [ha.unused fd hle, hnone fd hle]
      exact ⟨⟨rfl, rfl⟩, rfl⟩
    · rw [hm.handle fd hfd] at hb
      -- The blob was being written before, and the act may have been a write to it.
      obtain ⟨b₀, hb₀, ⟨rfl, hempty⟩ | ⟨bytes, len, rfl, htake⟩⟩ := writing_of_after hb
      · rw [hempty, List.append_nil]
        exact ha.writing fd b hb₀
      · obtain ⟨hfaithful, hfile⟩ := ha.writing fd b₀ hb₀
        refine ⟨hfaithful.append bytes len, ?_⟩
        rw [htake, ← hfile]
        rfl

theorem Life.accepts {t₀ : Thread} (hs : t₀.Separated) (ha : Accepts [] t₀)
    (hl : Life h rounds t₀ es t) : Accepts es t := by
  induction hl with
  | nil => exact ha
  | snoc hl hv ih => exact ih.snoc (hl.separated hs) hv

omit [LabelCrate] in
theorem blobs_of_reading {fd : ℕ} {b : OpenBlob} (hb : t.handle fd = some (.reading b)) :
    t.blobs fd = some b := by
  unfold Thread.handle at hb
  split at hb
  · cases hb
  · rename_i hopen
    rw [hopen]
    simpa using hb
  · cases hb

/-- What is known of a processor when a blob has just been saved. -/
theorem saved_last {fd fd' len : ℕ} {data : Option Bytes} (hs : t.Separated) (ha : Accepts es t)
    (hv : Serves h rounds (.served (.blobFinalize fd) (.blobResult true fd' len data)) t t') :
    len = (accepted fd es).length ∧
      t'.handle fd = some (.reading ⟨h.digestHex (accepted fd es), accepted fd es⟩) := by
  obtain ⟨b, hb, rfl⟩ := writing_of_saved hv
  have hwriting : t.handle fd = some (.writing b) := by simp [Thread.handle, hb]
  obtain ⟨hfaithful, hfile⟩ := ha.writing fd b hwriting
  refine ⟨by rw [hfaithful.len, hfile], ?_⟩
  have hafter := (hv.moves hs).1.handle fd (by rintro ⟨⟩)
  rw [hwriting, Act.after, if_pos rfl, if_pos rfl, hfaithful.digest, hfile] at hafter
  exact hafter

/-- A blob that can be read stays open as it is until it is closed. -/
theorem reading_of_serves {fd : ℕ} {b : OpenBlob} (hs : t.Separated) (hv : Serves h rounds e t t')
    (hb : t.handle fd = some (.reading b)) (hopen : e.closesBlob fd = false) :
    t'.handle fd = some (.reading b) := by
  obtain ⟨y, hy, hsame⟩ := (Life.nil.snoc hv).handle_same hs hb (by simpa using hopen)
  cases y with
  | writing b' => exact hsame.elim
  | reading b' =>
    cases hsame
    exact hy

/-- A new processor has accepted nothing. -/
theorem Accepts.new {label : Buckle} {privilege : Component}
    (ho : (onHost h).Outcome (SyscallProcessor.new label privilege) t (.ok ()) t') :
    Accepts [] t' := by
  obtain ⟨-, -, -, hnone⟩ := outcome_new ho
  refine ⟨fun _ _ => rfl, fun fd b hb => ?_⟩
  rw [hnone fd] at hb
  cases hb

end Accepted

/-! ### Keeping a record -/

section Record

variable [LabelCrate] {rounds : ℕ}

/-- The loop of `run`, which keeps a record of what is served. -/
def record (rounds : ℕ) (guest : Guest) : ℕ → List Pb.Reply → List Act → M (List Act)
  | 0, _, es => return es
  | n + 1, replies, es =>
      match guest replies with
      | none => return es
      | some sc => do
          match ← doSyscall rounds sc with
          | .sent reply => record rounds guest n (replies ++ [reply]) (es ++ [.served sc reply])
          | .returned _ => return es

/-- Keeping a record changes nothing. -/
theorem exec_record (guest : Guest) (n : ℕ) (replies : List Pb.Reply) (es : List Act) (w : World) :
    (exec (record rounds guest n replies es) w).2 =
      (exec (SyscallProcessor.loop rounds guest n replies) w).2 := by
  induction n generalizing replies es w with
  | zero => rfl
  | succ n ih =>
    unfold record SyscallProcessor.loop
    cases guest replies with
    | none => rfl
    | some sc =>
      simp only [exec_bind]
      rcases exec (doSyscall rounds sc) w with ⟨_ | r, w'⟩
      · rfl
      · cases r with
        | sent reply => exact ih _ _ _
        | returned res => rfl

/-- A worker takes up the task and serves the guest, and keeps a record. -/
def recordTask (rounds : ℕ) (j : Integrity.Job) : M (List Act) := do
  let request ← processTask j.task
  record rounds j.guest j.syscalls [] [.task (request.blobs.map Prod.snd)]

/-- What is known of a processor by its record: the bytes that were accepted for a blob are in the file
that it was saved as, and this file stays open until the blob is closed. -/
structure Recorded (h : Host) (es : List Act) (t : Thread) (s : Shared ι) : Prop where
  separated : t.Separated
  accepts : Accepts es t
  saved : ∀ es₁ es₂ fd fd' len data,
    es = es₁ ++ .served (.blobFinalize fd) (.blobResult true fd' len data) :: es₂ →
      len = (accepted fd es₁).length ∧
        Archived s ⟨h.digestHex (accepted fd es₁), accepted fd es₁⟩ ∧
        ((∀ e ∈ es₂, e.closesBlob fd = false) →
          t.handle fd = some (.reading ⟨h.digestHex (accepted fd es₁), accepted fd es₁⟩))

/-- One more act. -/
theorem Recorded.snoc {es : List Act} {e : Act} (hr : Recorded h es t s)
    (hv : Serves h rounds e t t') (ht' : Own t' s') (hs : Kept s s') :
    Recorded h (es ++ [e]) t' s' := by
  refine ⟨(hv.moves hr.separated).2, hr.accepts.snoc hr.separated hv, ?_⟩
  intro es₁ es₂ fd fd' len data heq
  rcases es₂.eq_nil_or_concat with rfl | ⟨es₂, e', rfl⟩
  · -- It is the last act that saved the blob.
    obtain ⟨rfl, hlast⟩ := List.append_inj' heq rfl
    cases hlast
    obtain ⟨hlen, hopen⟩ := saved_last hr.separated hr.accepts hv
    exact ⟨hlen, ht'.blobs fd _ (blobs_of_reading hopen), fun _ => hopen⟩
  · rw [List.concat_eq_append, ← List.cons_append, ← List.append_assoc] at heq
    obtain ⟨hes, hlast⟩ := List.append_inj' heq rfl
    cases hlast
    obtain ⟨hlen, hfile, hopen⟩ := hr.saved es₁ es₂ fd fd' len data hes
    refine ⟨hlen, hs _ _ hfile, fun hclose => ?_⟩
    refine reading_of_serves hr.separated hv (hopen fun e he => hclose e ?_) (hclose e ?_)
    · simp [he]
    · simp

omit [LabelCrate] in
theorem Recorded.kept {es : List Act} (hr : Recorded h es t s) (hs : Kept s s') :
    Recorded h es t s' :=
  ⟨hr.separated, hr.accepts, fun es₁ es₂ fd fd' len data heq =>
    have hsaved := hr.saved es₁ es₂ fd fd' len data heq
    ⟨hsaved.1, hs _ _ hsaved.2.1, hsaved.2.2⟩⟩

omit [LabelCrate] in
theorem Recorded.relabeled {es : List Act} (hr : Recorded h es t s) (ht : t.Relabeled t') :
    Recorded h es t' s := by
  obtain ⟨l, rfl⟩ := ht
  have hs := hr.separated
  exact ⟨⟨hs.dents, hs.createBlobs, hs.blobs, hs.disjoint⟩,
    ⟨hr.accepts.unused, hr.accepts.writing⟩, hr.saved⟩

/-- A response only changes the label of the processor. -/
theorem relabeled_of_returned {sc : Pb.Syscall} {res : TaskReturn}
    (ho : (onHost h).Outcome (doSyscall rounds sc) t (.ok (.returned res)) t') : t.Relabeled t' := by
  cases sc with
  | response r =>
    obtain ⟨_, t₁, h₁, -, rfl⟩ := ho.bind_ok
    obtain ⟨_, t₂, h₂, ho⟩ := h₁.bind_ok
    obtain ⟨_, t₃, h₃, -, rfl⟩ := ho.bind_ok
    exact (keeps_getPrivilege.outcome h₂).trans ((keeps_withCurrentLabel _).outcome h₃)
  | _ =>
    obtain ⟨_, _, -, heq, -⟩ := ho.bind_ok
    cases heq

/-- What a recorder ends with. -/
def Known (h : Host) (r : Except Raised (List Act)) (t : Thread) (s : Shared ι) : Prop :=
  ∀ es, r = .ok es → Recorded h es t s

theorem steady_record (guest : Guest) (n : ℕ) (replies : List Pb.Reply) {es : List Act}
    (hi : Inv h s) (ht : Own t s) (hr : Recorded h es t s) :
    (discipline ι h).Steady i (Known h) (record rounds guest n replies es) t s := by
  have done : ∀ {t : Thread} {s : Shared ι} {es : List Act}, Recorded h es t s →
      (discipline ι h).Steady i (Known h) (pure es : M (List Act)) t s := by
    intro t s es hr
    refine Discipline.Steady.pure fun s' hs => ?_
    rintro _ ⟨⟩
    exact hr.kept hs.env
  induction n generalizing t s replies es with
  | zero => exact done hr
  | succ n ih =>
    unfold record
    cases guest replies with
    | none => exact done hr
    | some sc =>
      have hserve := Locale.steady_outcome (fun o t s hi _ => sees (ι := ι) (i := i) hi)
        (sound_doSyscall (i := i) rounds sc hi ht)
      refine Discipline.Steady.bind hi ht hserve (fun r t' s' hi' ht' hB => ?_)
        fun e _ _ _ _ _ _ => nofun
      obtain ⟨⟨hs, -⟩, ho⟩ := hB
      cases r with
      | sent reply => exact ih _ hi' ht' (hr.snoc (.syscall ho) ht' hs)
      | returned res => exact done ((hr.kept hs).relabeled (relabeled_of_returned ho))

/-- What is known at the start of a task. -/
theorem Recorded.start {label : Buckle} {privilege : Component} {r : Request} {payload : Bytes}
    {bs : List (String × OpenBlob)} {headers : ExtTreeMap String String compare} {invoker : Component}
    {t₁ : Thread}
    (hnew : (onHost h).Outcome (SyscallProcessor.new label privilege) t (.ok ()) t₁)
    (ho : (onHost h).Outcome (SyscallProcessor.request payload bs headers invoker) t₁ (.ok r) t') :
    Recorded h [.task (r.blobs.map Prod.snd)] t' s := by
  have hserves : Serves h 0 (.task (r.blobs.map Prod.snd)) t₁ t' := .task ho
  have hsep := (outcome_new hnew).1
  refine ⟨(hserves.moves hsep).2, (Accepts.new hnew).snoc hsep hserves, ?_⟩
  intro es₁ es₂ fd fd' len data heq
  have hmem := congrArg (Act.served (.blobFinalize fd) (.blobResult true fd' len data) ∈ ·) heq
  simp at hmem

omit [LabelCrate] in
theorem outcome_unwrap {α : Type} {a : Option α} {b : α}
    (ho : (onHost h).Outcome (unwrap a) t (.ok b) t') : t' = t := by
  cases a with
  | none => cases ho.1
  | some a => exact ho.2

/-- A worker sets up a processor, and then builds the request for its guest. -/
theorem outcome_processTask {m : LabeledInvoke} {r : Request}
    (ho : (onHost h).Outcome (processTask m) t (.ok r) t') :
    ∃ label privilege blobs invoker t₀ t₁,
      (onHost h).Outcome (SyscallProcessor.new label privilege) t₀ (.ok ()) t₁ ∧
        (onHost h).Outcome (SyscallProcessor.request m.payload blobs m.headers invoker) t₁ (.ok r)
          t' := by
  obtain ⟨_, _, -, ho⟩ := ho.bind_ok
  obtain ⟨label, _, -, ho⟩ := ho.bind_ok
  obtain ⟨_, _, -, ho⟩ := ho.bind_ok
  obtain ⟨privilege, _, -, ho⟩ := ho.bind_ok
  obtain ⟨blobs, t₀, -, ho⟩ := ho.bind_ok
  obtain ⟨_, t₁, hnew, ho⟩ := ho.bind_ok
  obtain ⟨_, t₂, h₂, ho⟩ := ho.bind_ok
  obtain ⟨invoker, t₃, h₃, ho⟩ := ho.bind_ok
  rw [outcome_unwrap h₃, outcome_unwrap h₂] at ho
  exact ⟨label, privilege, blobs, invoker, t₀, t₁, hnew, ho⟩

theorem sound_new (label : Buckle) (privilege : Component) (hi : Inv h s) (ht : Own t s) :
    Sound h i Any (SyscallProcessor.new label privilege) t s := by
  refine .bind hi ht (.of_keeps (keeps_withCurrentLabel _)) fun _ t₁ s₁ hi₁ ht₁ _ _ => ?_
  refine .bind hi₁ ht₁ (.of_keeps (keeps_withCurrentLabel _)) fun _ t₂ s₂ hi₂ ht₂ _ _ => ?_
  refine .bind hi₂ ht₂ (sound_amend hi₂ ht₂ fun _ _ _ ht' => ⟨ht'.blobs, ht'.createBlobs⟩)
    fun _ t₃ s₃ hi₃ ht₃ _ _ => ?_
  exact sound_amend hi₃ ht₃ fun _ _ _ _ => ⟨nofun, nofun⟩

theorem sound_processTask (m : LabeledInvoke) (hi : Inv h s) (ht : Own t s) :
    Sound h i Any (processTask m) t s := by
  refine .bind hi ht (.of_keeps (.unwrap _)) fun x t₁ s₁ hi₁ ht₁ _ _ => ?_
  refine .bind hi₁ ht₁ (.of_keeps (.unwrap _)) fun label t₂ s₂ hi₂ ht₂ _ _ => ?_
  refine .bind hi₂ ht₂ (.of_keeps (.unwrap _)) fun y t₃ s₃ hi₃ ht₃ _ _ => ?_
  refine .bind hi₃ ht₃ (.of_keeps (.unwrap _)) fun privilege t₄ s₄ hi₄ ht₄ _ _ => ?_
  refine .bind hi₄ ht₄ (sound_openBlobs _ hi₄ ht₄) fun blobs t₅ s₅ hi₅ ht₅ _ hblobs => ?_
  refine .bind hi₅ ht₅ (sound_new label privilege hi₅ ht₅) fun _ t₆ s₆ hi₆ ht₆ hs₆ _ => ?_
  refine .bind hi₆ ht₆ (.of_keeps (.unwrap _)) fun z t₇ s₇ hi₇ ht₇ hs₇ _ => ?_
  refine .bind hi₇ ht₇ (.of_keeps (.unwrap _)) fun invoker t₈ s₈ hi₈ ht₈ hs₈ _ => ?_
  refine .bind hi₈ ht₈ (sound_insertBlobs hi₈ ht₈ fun k b hb => ?_) fun fds t₉ s₉ hi₉ ht₉ _ _ => ?_
  · exact (hs₆.trans (hs₇.trans hs₈)) _ _ (hblobs k b hb)
  · exact .map hi₉ ht₉ (.of_keeps (keeps_invokerPrincipalList _)) _

/-- A worker that keeps a record keeps the archive, and its record is right. -/
theorem steady_recordTask (j : Integrity.Job) (hi : Inv h s) (ht : Own t s) :
    (discipline ι h).Steady i (Known h) (recordTask rounds j) t s := by
  have htask := Locale.steady_outcome (fun o t s hi _ => sees (ι := ι) (i := i) hi)
    (sound_processTask (i := i) j.task hi ht)
  refine Discipline.Steady.bind hi ht htask (fun r t' s' hi' ht' hB => ?_) fun e _ _ _ _ _ _ => nofun
  obtain ⟨label, privilege, blobs, invoker, t₀, t₁, hnew, ho⟩ := outcome_processTask hB.2
  exact steady_record j.guest j.syscalls [] hi' ht' (.start hnew ho)

end Record

/-! ### The blobstore -/

variable [LabelCrate] [DecidableEq ι] (rounds : ℕ) (jobs : ι → Integrity.Job) (labels : ι → Buckle)
  (w : World)

/-- One processor for each job, before any of them has begun. Worker `i` is left with the label
`labels i` by what it did before. -/
def recorders : Pool monitor Raised (List Act) ι Thread (Shared ι) where
  shared := .start w
  loc i := .idle (labels i)
  prog i := recordTask rounds (jobs i)

/-- The processors after a schedule. -/
def runRecorders (schedule : List ι) : Pool monitor Raised (List Act) ι Thread (Shared ι) :=
  (recorders rounds jobs labels w).run (clients ι) schedule

/-- Under every schedule the processors keep the archive, and their records are right. -/
theorem runRecorders_holds (hinj : Function.Injective w.host.digestHex)
    (hstart : ∀ name c, w.blobstore name = some c → w.host.digestHex c = name) (schedule : List ι) :
    (discipline ι w.host).Holds (fun _ => Known w.host)
      (runRecorders rounds jobs labels w schedule) := by
  have hi : Inv w.host (.start w : Shared ι) := ⟨rfl, hinj, hstart⟩
  have ht : ∀ i, Own (.idle (labels i)) (.start w : Shared ι) := fun _ => ⟨nofun, nofun⟩
  exact Discipline.Holds.run ⟨hi, ht, fun i => steady_recordTask (jobs i) hi (ht i)⟩ schedule

/-- The file is there, and to open it gives its bytes. -/
def Opens (p : Pool monitor Raised (List Act) ι Thread (Shared ι)) (name : String) (c : Bytes) : Prop :=
  p.shared.world.blobstore name = some c ∧ ∀ i n, p.shared.world.io.head = .ok n →
    (exec (Blobstore.openExpect name) (p.shared.world.withThread (p.loc i))).1 = .ok ⟨name, c⟩

omit [LabelCrate] [DecidableEq ι] in
theorem opens_of_archived {p : Pool monitor Raised (List Act) ι Thread (Shared ι)} {name : String}
    {c : Bytes} (hname : Blobstore.splitsAtTwo name = true)
    (hc : p.shared.world.blobstore name = some c) : Opens p name c := by
  refine ⟨hc, fun i n hn => ?_⟩
  have hio : (p.shared.world.withThread (p.loc i)).io.head = .ok n := hn
  have hfile : (p.shared.world.withThread (p.loc i)).blobstore name = some c := hc
  simp [Blobstore.openExpect, hname, exec_bind, hio, hfile, unwrap]

/-- **The blobstore is content-addressed and immutable.** In every state that any number of processors
reach, whatever each of their writes took, each file has the name of its bytes, and goes on being
there as it is: to open it gives these bytes. A blob that is being written holds what was accepted for
it, in order, and its length is the length of that. A blob that was saved has its bytes in the file of that
name, and stays open as that under its descriptor until it is closed. -/
theorem blobs_immutable (hinj : Function.Injective w.host.digestHex)
    (hdigest : ∀ bytes, Blobstore.splitsAtTwo (w.host.digestHex bytes) = true)
    (hstart : ∀ name c, w.blobstore name = some c → w.host.digestHex c = name) (schedule : List ι) :
    (∀ name c, (runRecorders rounds jobs labels w schedule).shared.world.blobstore name = some c →
      w.host.digestHex c = name ∧
        ∀ later, Opens (runRecorders rounds jobs labels w (schedule ++ later)) name c) ∧
    ∀ i es, (runRecorders rounds jobs labels w schedule).prog i = .pure es →
      (∀ fd b, ((runRecorders rounds jobs labels w schedule).loc i).createBlobs fd = some b →
        b.file = accepted fd es ∧ b.len = (accepted fd es).length) ∧
      ∀ es₁ es₂ fd fd' len data,
        es = es₁ ++ .served (.blobFinalize fd) (.blobResult true fd' len data) :: es₂ →
          len = (accepted fd es₁).length ∧
          (∀ later, Opens (runRecorders rounds jobs labels w (schedule ++ later))
            (w.host.digestHex (accepted fd es₁)) (accepted fd es₁)) ∧
          ((∀ e ∈ es₂, e.closesBlob fd = false) →
            ((runRecorders rounds jobs labels w schedule).loc i).blobs fd =
              some ⟨w.host.digestHex (accepted fd es₁), accepted fd es₁⟩) := by
  have hp := runRecorders_holds rounds jobs labels w hinj hstart schedule
  have hopens : ∀ c later,
      (runRecorders rounds jobs labels w schedule).shared.world.blobstore (w.host.digestHex c) =
        some c → Opens (runRecorders rounds jobs labels w (schedule ++ later)) (w.host.digestHex c) c := by
    intro c later hc
    refine opens_of_archived (hdigest c) ?_
    have hkept : Kept (runRecorders rounds jobs labels w schedule).shared
        (runRecorders rounds jobs labels w (schedule ++ later)).shared := by
      unfold runRecorders
      rw [Pool.run_append]
      exact hp.run_rel (fun hi hg => kept_perform hi hg) later
    exact hkept _ _ hc
  refine ⟨fun name c hc => ?_, fun i es hes => ?_⟩
  · obtain rfl := hp.inv.named name c hc
    exact ⟨rfl, fun later => hopens c later hc⟩
  · have hr := hp.ok hes es rfl
    refine ⟨fun fd b hb => ?_, fun es₁ es₂ fd fd' len data heq => ?_⟩
    · have hwriting : ((runRecorders rounds jobs labels w schedule).loc i).handle fd =
          some (.writing b) := by
        simp [Thread.handle, hb]
      obtain ⟨hfaithful, hfile⟩ := hr.accepts.writing fd b hwriting
      exact ⟨hfile, by rw [hfaithful.len, hfile]⟩
    · obtain ⟨hlen, hfile, hopen⟩ := hr.saved es₁ es₂ fd fd' len data heq
      exact ⟨hlen, fun later => hopens _ later hfile, fun hclose => blobs_of_reading (hopen hclose)⟩

end Archive

end Faasten

/-! ### Two processors that save the same bytes -/

namespace Faasten.SameBytes

open Effect SyscallProcessor Archive
open scoped Dc

/-- A world whose host names blobs by their bytes, and where a write takes one byte at a time. -/
def world : World :=
  { World.quiet (.idle publicLabel) .empty with
    io := fun _ => .ok 1
    host := { Host.mute with
      digestHex := fun bytes => String.ofList ('0' :: '0' :: bytes.map UInt8.toChar) } }

/-- Of the first write only one byte is taken. -/
def guest : Guest := fun replies =>
  ([.blobCreate none, .blobWrite 1 [7, 7], .blobWrite 1 [8], .blobFinalize 1] :
    List Pb.Syscall)[replies.length]?

def jobs (_ : ℕ) : Integrity.Job := ⟨SharedBlob.task .dcTrue, guest, 4⟩

/-- The two processors in turn, until both have ended. -/
def schedule : List ℕ := (List.range 64).map (· % 2)

/-- What each of them does. -/
def acts : List Act :=
  [.task [], .served (.blobCreate none) (.blobResult true 1 0 none),
    .served (.blobWrite 1 [7, 7]) (.blobResult true 1 1 none),
    .served (.blobWrite 1 [8]) (.blobResult true 1 1 none),
    .served (.blobFinalize 1) (.blobResult true 1 2 none)]

theorem digestHex_injective : Function.Injective world.host.digestHex := by
  intro a b h
  change String.ofList _ = String.ofList _ at h
  have hlist := String.ofList_injective h
  have hinj : Function.Injective UInt8.toChar := by
    intro x y hxy
    have := congrArg (fun c => c.val.toNat) hxy
    simpa [UInt8.toChar, UInt8.toNat_inj] using this
  exact List.map_injective_iff.2 hinj ((List.cons_inj_right _).1 ((List.cons_inj_right _).1 hlist))

theorem digestHex_splits (bytes : Bytes) :
    Blobstore.splitsAtTwo (world.host.digestHex bytes) = true := by
  change Blobstore.splitsAtTwo (String.ofList _) = true
  rw [Blobstore.splitsAtTwo, String.toList_ofList]
  rfl

/-- What the first processor has recorded. -/
theorem prog_after :
    (runRecorders 1 jobs (fun _ => publicLabel) world schedule).prog 0 = .pure acts := rfl

/-- Both saved the bytes that were taken, and whatever follows they are in the file of their name. -/
theorem both_saved :
    (∀ later, Opens (runRecorders 1 jobs (fun _ => publicLabel) world (schedule ++ later))
      (world.host.digestHex [7, 8]) [7, 8]) ∧
      ((runRecorders 1 jobs (fun _ => publicLabel) world schedule).loc 0).blobs 1 =
        some ⟨world.host.digestHex [7, 8], [7, 8]⟩ := by
  have hsplit : acts = acts.take 4 ++ [.served (.blobFinalize 1) (.blobResult true 1 2 none)] := rfl
  have htaken : accepted 1 (acts.take 4) = [7, 8] := rfl
  have hsaved := ((blobs_immutable 1 jobs (fun _ => publicLabel) world digestHex_injective
    digestHex_splits nofun schedule).2 0 acts prog_after).2 (acts.take 4) [] 1 1 2 none hsplit
  rw [htaken] at hsaved
  exact ⟨hsaved.2.1, hsaved.2.2 (by simp)⟩

end Faasten.SameBytes
