import Mathlib
import Faasten.Clients.Machine
import Faasten.Syscall.Descriptors

/-!
# The blobstore as an archive

Any number of threads create, write and save blobs. The discipline of this module says what each of
their operations does for it that the blobstore stays content-addressed: a file is put in place only
under the name that the digest of its bytes gives. Under it a file stays as it is once it is there, since
no other file has its name.

`Sound` is the triple of this discipline, with the rules for it and the parts of the server that touch
blobs. What leaves the tables alone (`Keeps`) is sound at once.
-/

namespace Faasten

open Std Effect

/-- The digest has been fed what is in the file, and the length is that of the file. -/
structure NewBlob.Faithful (b : NewBlob) : Prop where
  digest : b.digest = b.file
  len : b.len = b.file.length

theorem NewBlob.Faithful.append {b : NewBlob} (h : b.Faithful) (bytes : Bytes) (n : ℕ) :
    (b.append bytes n).Faithful := by
  constructor
  · show b.digest ++ bytes.take n = b.file ++ bytes.take n
    rw [h.digest]
  · show b.len + (bytes.take n).length = (b.file ++ bytes.take n).length
    rw [h.len, List.length_append]

namespace Archive

variable {ι α β : Type} {h : Host} {i : ι} {t : Thread} {s s' s'' : Shared ι}

/-- The file at the path of a name is there. -/
def Archived (s : Shared ι) (b : OpenBlob) : Prop := s.world.blobstore b.name = some b.content

/-- The files that were there still are. -/
def Kept (s s' : Shared ι) : Prop :=
  ∀ name c, s.world.blobstore name = some c → s'.world.blobstore name = some c

instance : Std.Refl (Kept (ι := ι)) where
  refl _ _ _ hc := hc

instance : IsTrans (Shared ι) Kept where
  trans _ _ _ hs hs' name c hc := hs' name c (hs name c hc)

theorem Kept.refl (s : Shared ι) : Kept s s := fun _ _ hc => hc

theorem Kept.trans (hs : Kept s s') (hs' : Kept s' s'') : Kept s s'' := IsTrans.trans _ _ _ hs hs'

/-- Every file has the name of its bytes, and different bytes have different names. -/
structure Inv (h : Host) (s : Shared ι) : Prop where
  host : s.world.host = h
  injective : Function.Injective h.digestHex
  named : ∀ name c, s.world.blobstore name = some c → h.digestHex c = name

/-- The blobs of a thread are in order: those that it has open are there, and those that it writes are
faithful. -/
structure Own (t : Thread) (s : Shared ι) : Prop where
  blobs : ∀ fd b, t.blobs fd = some b → Archived s b
  createBlobs : ∀ fd b, t.createBlobs fd = some b → b.Faithful

theorem Own.kept (ht : Own t s) (hs : Kept s s') : Own t s' :=
  ⟨fun fd b hb => hs _ _ (ht.blobs fd b hb), ht.createBlobs⟩

/-- What is asked of an operation. -/
def Guar (h : Host) (o : Op) (s : Shared ι) : Prop :=
  match o with
  | .setThread t => Own t s
  | .blobPut name c => h.digestHex c = name
  | _ => True

/-- The blobstore after an operation. -/
theorem clients_blobstore (i : ι) (o : Op) (t : Thread) (s : Shared ι) :
    ((clients ι).perform i o t s).2.2.world.blobstore =
      match o with
      | .blobPut name c => Function.update s.world.blobstore name (some c)
      | _ => s.world.blobstore := by
  cases o with
  | add u v =>
    rw [clients_add]
    split_ifs <;> rfl
  | cas u e v =>
    rw [clients_cas]
    split_ifs <;> rfl
  | schedWrite m =>
    simp only [clients, perform_schedWrite]
    split_ifs <;> rfl
  | _ => rfl

theorem kept_perform (hi : Inv h s) {o : Op} (hg : Guar h o s) :
    Kept s ((clients ι).perform i o t s).2.2 := by
  intro name c hc
  rw [clients_blobstore]
  cases o with
  | blobPut name' c' =>
    by_cases heq : name = name'
    · subst heq
      have hsame : c' = c := hi.injective (hg.trans (hi.named _ _ hc).symm)
      simp [hsame]
    · simpa [Function.update_of_ne heq] using hc
  | _ => exact hc

theorem inv_perform (hi : Inv h s) {o : Op} (hg : Guar h o s) :
    Inv h ((clients ι).perform i o t s).2.2 := by
  refine ⟨(perform_host o _).trans hi.host, hi.injective, fun name c hc => ?_⟩
  rw [clients_blobstore] at hc
  cases o with
  | blobPut name' c' =>
    by_cases heq : name = name'
    · subst heq
      simp only [Function.update_self, Option.some.injEq] at hc
      exact hc ▸ hg
    · simp only [Function.update_of_ne heq] at hc
      exact hi.named _ _ hc
  | _ => exact hi.named _ _ hc

/-- The operations keep the archive. -/
def discipline (ι : Type) (h : Host) : Discipline (clients ι) where
  inv := Inv h
  own _ t s := Own t s
  guar _ o _ s := Guar h o s
  env _ := Kept
  env_refl _ := Kept.refl
  env_trans := Kept.trans
  inv_step hi _ hg := inv_perform hi hg
  own_step {i o t s} hi ht hg := by
    have hkept : Kept s ((clients ι).perform i o t s).2.2 := kept_perform hi hg
    by_cases hset : ∃ t', o = .setThread t'
    · obtain ⟨t', rfl⟩ := hset
      exact Own.kept hg hkept
    · have hthread : ((clients ι).perform i o t s).2.1 = t :=
        perform_toThread (fun t' ht' => hset ⟨t', ht'⟩) _
      rw [hthread]
      exact ht.kept hkept
  env_step _ hi _ hg := kept_perform hi hg
  own_env _ _ ht hs := ht.kept hs

/-! ### Triples -/

/-- The program keeps the archive, and its result meets `R`. -/
def Sound (h : Host) (i : ι) (R : α → Shared ι → Prop) (m : M α) (t : Thread) (s : Shared ι) : Prop :=
  (discipline ι h).Steady i (fun r _ s' => Kept s s' ∧ ∀ a, r = .ok a → R a s') m t s

/-- Nothing is said of a result. -/
def Any (_ : α) (_ : Shared ι) : Prop := True

section Rules

variable {R R' : α → Shared ι → Prop}

theorem Sound.pure {a : α} (hR : ∀ s', Kept s s' → R a s') : Sound h i R (pure a) t s :=
  Discipline.Steady.pure fun s' hs => ⟨hs.env, by rintro _ ⟨⟩; exact hR s' hs.env⟩

theorem Sound.raise {e : Raised} : Sound h i R (.raise e : M α) t s :=
  Discipline.Steady.raise fun _ hs => ⟨hs.env, nofun⟩

theorem Sound.mono {m : M α} (hm : Sound h i R m t s)
    (hR : ∀ a s', Kept s s' → R a s' → R' a s') : Sound h i R' m t s :=
  Discipline.Steady.mono hm fun _ _ s' _ _ hr => ⟨hr.1, fun a ha => hR a s' hr.1 (hr.2 a ha)⟩

theorem Sound.any {m : M α} (hm : Sound h i R m t s) : Sound h i Any m t s :=
  hm.mono fun _ _ _ _ => trivial

theorem Sound.bind {B : β → Shared ι → Prop} {m : M β} {f : β → M α} (hi : Inv h s) (ht : Own t s)
    (hm : Sound h i B m t s)
    (hf : ∀ b t' s', Inv h s' → Own t' s' → Kept s s' → B b s' → Sound h i R (f b) t' s') :
    Sound h i R (m >>= f) t s := by
  refine Discipline.Steady.bind hi ht hm (fun b t' s' hi' ht' hB => ?_) fun e _ _ _ _ he => ⟨he.1, nofun⟩
  refine Discipline.Steady.mono (hf b t' s' hi' ht' hB.1 (hB.2 b rfl)) fun _ _ s'' _ _ hr => ?_
  exact ⟨hB.1.trans hr.1, hr.2⟩

/-- A program of whose result nothing is said, followed by a function on it. -/
theorem Sound.map {m : M β} (hi : Inv h s) (ht : Own t s) (hm : Sound h i Any m t s) (g : β → α) :
    Sound h i Any (do return g (← m)) t s :=
  .bind hi ht hm fun _ _ _ _ _ _ _ => .pure fun _ _ => trivial

theorem Sound.ite {c : Prop} [Decidable c] {m n : M α} (hm : c → Sound h i R m t s)
    (hn : ¬c → Sound h i R n t s) : Sound h i R (if c then m else n) t s := by
  split_ifs with hc
  · exact hm hc
  · exact hn hc

theorem Sound.result {m : M α} (hm : Sound h i Any m t s) : Sound h i Any (result m) t s :=
  Discipline.Steady.attempt (Discipline.Steady.mono hm fun _ _ _ _ _ hr => ⟨hr.1, fun _ _ => trivial⟩)

/-- What the thread sees of the shared world. -/
theorem sees {o : Op} (hi : Inv h s) :
    onHost h o t ((clients ι).perform i o t s).1 ((clients ι).perform i o t s).2.1 :=
  ⟨s.world, hi.host, rfl, rfl⟩

/-- A single operation. -/
theorem Sound.call {o : Op} {R : Op.Res o → Shared ι → Prop}
    (hg : ∀ s', Kept s s' → Inv h s' → Own t s' → Guar h o s')
    (hR : ∀ s' s'', Kept s s' → Inv h s' → Kept ((clients ι).perform i o t s').2.2 s'' →
      R ((clients ι).perform i o t s').1 s'') :
    Sound h i R (.call (S := monitor) o : M (Op.Res o)) t s := by
  refine Discipline.Steady.call_bind (f := .pure) fun s₁ h₁ => ?_
  have hguar := hg s₁ h₁.env h₁.inv h₁.own
  refine ⟨hguar, Discipline.Steady.pure fun s₂ h₂ => ⟨?_, ?_⟩⟩
  · exact h₁.env.trans ((kept_perform h₁.inv hguar).trans h₂.env)
  · rintro _ ⟨⟩
    exact hR s₁ s₂ h₁.env h₁.inv h₂.env

/-- A program that leaves the tables alone. -/
theorem Sound.of_keeps {m : M α} (hm : Keeps (·.host = h) m) :
    Sound h i Any m t s := by
  have hsteady : (discipline ι h).Steady i (fun r t' _ => t.Relabeled t') m t s := by
    refine (hm t).steady (fun o t s hi _ => sees hi) fun o t s _ ht hl => ?_
    cases o with
    | setThread t' =>
      obtain ⟨l, rfl⟩ := hl
      exact ⟨ht.blobs, ht.createBlobs⟩
    | blobPut name c => exact hl.elim
    | _ => trivial
  exact (Discipline.Steady.rel (fun henv => henv) (fun hi hg => kept_perform hi hg) hsteady).mono
    fun _ _ _ _ _ hr => ⟨hr.2, fun _ _ => trivial⟩

theorem sound_inspect {f : Thread → α} (hi : Inv h s) (ht : Own t s) :
    Sound h i (fun a s => ∃ t', Own t' s ∧ a = f t') (inspect f) t s := by
  refine .bind (B := fun r s => Own r s) hi ht (.call (fun _ _ _ _ => trivial) fun s₁ s₂ hs₁ _ hs₂ => ?_)
    fun r t₁ s₁ hi₁ ht₁ hs₁ hr => .pure fun s' hs' => ⟨r, hr.kept hs', rfl⟩
  exact ht.kept (hs₁.trans hs₂)

theorem sound_amend {f : Thread → Thread} (hi : Inv h s) (ht : Own t s)
    (hf : ∀ t' s', Kept s s' → Own t' s' → Own (f t') s') : Sound h i Any (amend f) t s := by
  refine .bind (B := fun r s => Own r s) hi ht (.call (fun _ _ _ _ => trivial) fun s₁ s₂ hs₁ _ hs₂ => ?_)
    fun r t₁ s₁ hi₁ ht₁ hs₁ hr => .call (fun s' hs' _ _ => ?_) fun _ _ _ _ _ => trivial
  · exact ht.kept (hs₁.trans hs₂)
  · exact hf r s' (hs₁.trans hs') (hr.kept hs')

end Rules

/-! ### The tables -/

section Tables

theorem Own.putBlob (ht : Own t s) {fd : ℕ} {b : OpenBlob} (hb : Archived s b) :
    Own (t.putBlob fd b) s := by
  refine ⟨fun fd' b' hb' => ?_, ht.createBlobs⟩
  by_cases hfd : fd' = fd
  · simp only [Thread.putBlob_blobs, hfd, Function.update_self, Option.some.injEq] at hb'
    exact hb' ▸ hb
  · rw [Thread.putBlob_blobs, Function.update_of_ne hfd] at hb'
    exact ht.blobs fd' b' hb'

theorem Own.putNewBlob (ht : Own t s) {fd : ℕ} {b : NewBlob} (hb : b.Faithful) :
    Own (t.putNewBlob fd b) s := by
  refine ⟨ht.blobs, fun fd' b' hb' => ?_⟩
  by_cases hfd : fd' = fd
  · simp only [Thread.putNewBlob_createBlobs, hfd, Function.update_self, Option.some.injEq] at hb'
    exact hb' ▸ hb
  · rw [Thread.putNewBlob_createBlobs, Function.update_of_ne hfd] at hb'
    exact ht.createBlobs fd' b' hb'

theorem Own.closeBlob (ht : Own t s) (fd : ℕ) : Own (t.closeBlob fd) s := by
  refine ⟨fun fd' b' hb' => ?_, ht.createBlobs⟩
  by_cases hfd : fd' = fd
  · simp [hfd] at hb'
  · rw [Thread.closeBlob_blobs, Function.update_of_ne hfd] at hb'
    exact ht.blobs fd' b' hb'

theorem Own.closeNewBlob (ht : Own t s) (fd : ℕ) : Own (t.closeNewBlob fd) s := by
  refine ⟨ht.blobs, fun fd' b' hb' => ?_⟩
  by_cases hfd : fd' = fd
  · simp [hfd] at hb'
  · rw [Thread.closeNewBlob_createBlobs, Function.update_of_ne hfd] at hb'
    exact ht.createBlobs fd' b' hb'

theorem sound_newDent (e : DirEntry) (hi : Inv h s) (ht : Own t s) :
    Sound h i Any (newDent e) t s :=
  .bind hi ht (sound_inspect hi ht) fun _ _ _ hi₁ ht₁ _ _ =>
    .bind hi₁ ht₁ (sound_amend hi₁ ht₁ fun _ _ _ ht' => ⟨ht'.blobs, ht'.createBlobs⟩)
      fun _ _ _ _ _ _ _ => .pure fun _ _ => trivial

theorem sound_newBlobId (hi : Inv h s) (ht : Own t s) : Sound h i Any newBlobId t s :=
  .bind hi ht (sound_inspect hi ht) fun _ _ _ hi₁ ht₁ _ _ =>
    .bind hi₁ ht₁ (sound_amend hi₁ ht₁ fun _ _ _ ht' => ⟨ht'.blobs, ht'.createBlobs⟩)
      fun _ _ _ _ _ _ _ => .pure fun _ _ => trivial

theorem sound_putBlob {fd : ℕ} {b : OpenBlob} (hi : Inv h s) (ht : Own t s) (hb : Archived s b) :
    Sound h i Any (amend (·.putBlob fd b)) t s :=
  sound_amend hi ht fun _ _ hs ht' => ht'.putBlob (hs _ _ hb)

end Tables

/-! ### The blobstore -/

section Blobs

theorem sound_nextIo : Sound h i Any nextIo t s :=
  .of_keeps keeps_nextIo

/-- What is opened is the file that is there. -/
theorem sound_openExpect (name : String) (hi : Inv h s) (ht : Own t s) :
    Sound h i (fun b s => Archived s b) (Blobstore.openExpect name) t s := by
  refine .ite (fun _ => ?_) fun _ => .raise
  refine .bind hi ht sound_nextIo fun r t₁ s₁ hi₁ ht₁ _ _ => ?_
  cases r with
  | error e => exact .raise
  | ok n =>
    refine .bind (B := fun r s => ∀ c, r = some c → s.world.blobstore name = some c) hi₁ ht₁
      (.call (fun _ _ _ _ => trivial) fun s' s'' _ _ hs'' c hc => hs'' _ _ hc)
      fun r t₂ s₂ hi₂ ht₂ _ hr => ?_
    cases r with
    | none => exact .raise
    | some c => exact .pure fun s' hs' => hs' _ _ (hr c rfl)

theorem sound_create (hi : Inv h s) (ht : Own t s) :
    Sound h i (fun r _ => ∀ b, r = .ok b → b.Faithful) Blobstore.create t s := by
  refine .bind hi ht sound_nextIo fun r t₁ s₁ _ _ _ _ => ?_
  cases r with
  | error e => exact .pure fun _ _ => nofun
  | ok n =>
    refine .pure fun _ _ => ?_
    rintro b ⟨⟩
    exact ⟨rfl, rfl⟩

/-- A write feeds the digest and the file the same bytes. -/
theorem sound_write {b : NewBlob} (hb : b.Faithful) (bytes : Bytes) (hi : Inv h s) (ht : Own t s) :
    Sound h i (fun r _ => ∀ n b', r = .ok (n, b') → b'.Faithful) (b.write bytes) t s := by
  refine .bind hi ht sound_nextIo fun r t₁ s₁ _ _ _ _ => ?_
  cases r with
  | error e => exact .pure fun _ _ => nofun
  | ok n =>
    refine .pure fun _ _ => ?_
    rintro _ b' ⟨⟩
    exact hb.append bytes n

theorem sound_writeAllLoop (k : ℕ) {b : NewBlob} {bytes : Bytes} (hb : b.Faithful) (hi : Inv h s)
    (ht : Own t s) :
    Sound h i (fun b' _ => b'.Faithful) (NewBlob.writeAllLoop k b bytes) t s := by
  induction k generalizing t s b bytes with
  | zero =>
    cases bytes with
    | nil => exact .pure fun _ _ => hb
    | cons => exact .raise
  | succ k ih =>
    cases bytes with
    | nil => exact .pure fun _ _ => hb
    | cons c cs =>
      refine .bind hi ht (sound_write hb _ hi ht) fun r t₁ s₁ hi₁ ht₁ _ hr => ?_
      split
      · exact .raise
      · exact .raise
      · exact ih (hr _ _ rfl) hi₁ ht₁

/-- What is saved is there, under the name of its bytes. -/
theorem sound_save {b : NewBlob} (hb : b.Faithful) (hi : Inv h s) (ht : Own t s) :
    Sound h i (fun r s => ∀ b', r = .ok b' → Archived s b') (Blobstore.save b) t s := by
  have failed : ∀ {t s} {e : Bytes},
      Sound h i (fun r s => ∀ b', r = .ok b' → Archived s b')
        (pure (.error e) : M (Except Bytes OpenBlob)) t s := .pure fun _ _ => nofun
  refine .bind (B := fun x _ => x = h) hi ht
    (.call (fun _ _ _ _ => trivial) fun s' _ _ hi' _ => hi'.host) fun x t₁ s₁ hi₁ ht₁ _ hx => ?_
  subst hx
  refine .bind hi₁ ht₁ sound_nextIo fun r t₂ s₂ hi₂ ht₂ _ _ => ?_
  rcases r with e | n
  · exact failed
  refine .bind (B := fun _ s => s.world.blobstore (x.digestHex b.digest) = some b.file) hi₂ ht₂
    (.call (fun _ _ _ _ => ?_) fun s' s'' _ _ hs'' => ?_) fun _ t₃ s₃ hi₃ ht₃ _ hsaved => ?_
  · show x.digestHex b.file = x.digestHex b.digest
    rw [hb.digest]
  · refine hs'' _ _ ?_
    rw [clients_blobstore]
    simp
  refine .bind hi₃ ht₃ sound_nextIo fun r t₄ s₄ hi₄ ht₄ hs₄ _ => ?_
  rcases r with e | n
  · exact failed
  refine .bind hi₄ ht₄ sound_nextIo fun r t₅ s₅ hi₅ ht₅ hs₅ _ => ?_
  rcases r with e | n
  · exact failed
  refine .pure fun s' hs' => ?_
  rintro b' ⟨⟩
  exact (hs₄.trans (hs₅.trans hs')) _ _ hsaved

theorem sound_storeExpect (content : Bytes) (hi : Inv h s) (ht : Own t s) :
    Sound h i (fun b s => Archived s b) (Blobstore.storeExpect content) t s := by
  refine .bind hi ht (sound_create hi ht) fun r t₁ s₁ hi₁ ht₁ _ hr => ?_
  cases r with
  | error e => exact .raise
  | ok b =>
    refine .bind hi₁ ht₁ (sound_writeAllLoop _ (hr b rfl) hi₁ ht₁) fun b' t₂ s₂ hi₂ ht₂ _ hb' => ?_
    refine .bind hi₂ ht₂ (sound_save hb' hi₂ ht₂) fun r t₃ s₃ hi₃ ht₃ _ hr => ?_
    cases r with
    | error e => exact .raise
    | ok b => exact .pure fun s' hs' => hs' _ _ (hr b rfl)

end Blobs

end Archive

end Faasten
