import Mathlib
import Faasten.Syscall.Handles

/-!
# The outcomes of syscalls

What each part of the server does to the tables of its processor, whatever other threads do before each of
its operations; up to `moves_serve`, which says it of every syscall.
-/

namespace Faasten

open Std Effect SyscallProcessor

/-! ### The parts of the server that open descriptors -/

section Server

variable {α : Type} {A : World → Prop} {t t' : Thread}

theorem Keeps.outcome {m : M α} {r : Except Raised α} (hm : Keeps A m)
    (ho : (threadLocale A).Outcome m t r t') : t.Relabeled t' := (hm t).outcome ho

theorem outcome_inspect {f : Thread → α} {a : α}
    (ho : (threadLocale A).Outcome (inspect f) t (.ok a) t') : a = f t ∧ t' = t := by
  obtain ⟨x, t₁, ⟨w, -, rfl, rfl⟩, heq, rfl⟩ := ho
  cases heq
  exact ⟨rfl, rfl⟩

theorem outcome_amend {f : Thread → Thread} {a : Unit}
    (ho : (threadLocale A).Outcome (amend f) t (.ok a) t') : t' = f t := by
  obtain ⟨x, t₁, ⟨w, -, rfl, rfl⟩, y, t₂, ⟨w', -, -, rfl⟩, -, rfl⟩ := ho
  rfl

theorem outcome_newDent {e : DirEntry} {fd : ℕ}
    (ho : (threadLocale A).Outcome (newDent e) t (.ok fd) t') : t.Opens [fd] [] t' := by
  obtain ⟨n, t₁, h₁, ho⟩ := ho.bind_ok
  obtain ⟨_, t₂, h₂, ho⟩ := ho.bind_ok
  obtain ⟨rfl, rfl⟩ := outcome_inspect h₁
  obtain rfl := outcome_amend h₂
  obtain ⟨heq, rfl⟩ := ho
  cases heq
  exact t₁.opens_addDent e

theorem outcome_newBlobId {fd : ℕ} (ho : (threadLocale A).Outcome newBlobId t (.ok fd) t') :
    fd = t.maxBlobId ∧ t' = t.nextBlob := by
  obtain ⟨n, t₁, h₁, ho⟩ := ho.bind_ok
  obtain ⟨_, t₂, h₂, ho⟩ := ho.bind_ok
  obtain ⟨rfl, rfl⟩ := outcome_inspect h₁
  obtain rfl := outcome_amend h₂
  obtain ⟨heq, rfl⟩ := ho
  cases heq
  exact ⟨rfl, rfl⟩

theorem outcome_openImage {name : String} {fd : ℕ} (hs : t.Separated)
    (ho : (threadLocale A).Outcome (openImage name) t (.ok fd) t') : t.Opens [] [fd] t' := by
  obtain ⟨n, t₁, h₁, ho⟩ := ho.bind_ok
  obtain ⟨b, t₂, h₂, ho⟩ := ho.bind_ok
  obtain ⟨_, t₃, h₃, ho⟩ := ho.bind_ok
  obtain ⟨rfl, rfl⟩ := outcome_newBlobId h₁
  obtain rfl := outcome_amend h₃
  obtain ⟨heq, rfl⟩ := ho
  cases heq
  exact Thread.opens_putBlob b hs ((keeps_openExpect name).outcome h₂)

theorem outcome_insertBlobs {bs : List (String × OpenBlob)} {fds : List (String × ℕ)}
    (hs : t.Separated) (ho : (threadLocale A).Outcome (insertBlobs bs) t (.ok fds) t') :
    t.Opens [] (fds.map Prod.snd) t' := by
  induction bs generalizing t fds with
  | nil =>
    obtain ⟨heq, rfl⟩ := ho
    cases heq
    exact (Thread.Relabeled.refl t').opens
  | cons b bs ih =>
    obtain ⟨k, b⟩ := b
    obtain ⟨n, t₁, h₁, ho⟩ := ho.bind_ok
    obtain ⟨_, t₂, h₂, ho⟩ := ho.bind_ok
    obtain ⟨rest, t₃, h₃, hend⟩ := ho.bind_ok
    obtain ⟨rfl, rfl⟩ := outcome_newBlobId h₁
    obtain rfl := outcome_amend h₂
    obtain ⟨heq, rfl⟩ := hend
    cases heq
    have hfirst := Thread.opens_putBlob b hs (.refl _)
    exact hfirst.trans (ih (hfirst.separated hs) h₃)

theorem keeps_invokerPrincipalList (c : Component) : Keeps A (invokerPrincipalList c) := by
  have hfirst : ∀ cs, Keeps A (firstPrincipals cs) := by
    intro cs
    induction cs with
    | nil => exact .pure _
    | cons c cs ih => exact .bind (.unwrap _) fun _ => .bind ih fun _ => .pure _
  cases c with
  | dcFalse => exact .raise _
  | dcFormula cs => exact hfirst _

/-- The request for a guest gives numbers to the blobs of the task. -/
theorem outcome_request {payload : Bytes} {bs : List (String × OpenBlob)}
    {headers : ExtTreeMap String String compare} {invoker : Component} {r : Request}
    (hs : t.Separated)
    (ho : (threadLocale A).Outcome (request payload bs headers invoker) t (.ok r) t') :
    t.Opens [] (r.blobs.map Prod.snd) t' := by
  obtain ⟨fds, t₁, h₁, ho⟩ := ho.bind_ok
  obtain ⟨ps, t₂, h₂, hend⟩ := ho.bind_ok
  have hkeep := ((keeps_invokerPrincipalList invoker).outcome h₂).opens
  obtain ⟨heq, ht'⟩ := hend
  cases heq
  subst ht'
  have hall := (outcome_insertBlobs hs h₁).trans hkeep
  rwa [List.append_nil, List.append_nil] at hall

/-- Only one operation changes the thread. -/
theorem outcome_call {o : Op} {r : Except Raised (Op.Res o)} (hset : ∀ t, o ≠ .setThread t)
    (ho : (threadLocale A).Outcome (.call (S := monitor) o : M (Op.Res o)) t r t') : t' = t := by
  obtain ⟨x, t₁, ⟨w, -, -, rfl⟩, -, rfl⟩ := ho
  exact perform_toThread hset _

theorem outcome_host {h x : Host} (ho : (threadLocale (·.host = h)).Outcome host t (.ok x) t') :
    x = h ∧ t' = t := by
  obtain ⟨y, t₁, ⟨w, rfl, rfl, rfl⟩, heq, rfl⟩ := ho
  cases heq
  exact ⟨rfl, rfl⟩

/-- A blob that is saved has the name that its digest gives, and the bytes of its file. -/
theorem outcome_save {h : Host} {b : NewBlob} {r : Except Bytes OpenBlob}
    (ho : (threadLocale (·.host = h)).Outcome (Blobstore.save b) t (.ok r) t') :
    t' = t ∧ ∀ b', r = .ok b' → b' = ⟨h.digestHex b.digest, b.file⟩ := by
  obtain ⟨x, t₁, h₁, ho⟩ := ho.bind_ok
  obtain ⟨r₂, t₂, h₂, ho⟩ := ho.bind_ok
  obtain ⟨rfl, rfl⟩ := outcome_host h₁
  obtain rfl := outcome_call (o := Op.io) nofun h₂
  cases r₂ with
  | error e =>
    obtain ⟨heq, rfl⟩ := ho
    cases heq
    exact ⟨rfl, nofun⟩
  | ok n =>
    obtain ⟨_, t₃, h₃, ho⟩ := ho.bind_ok
    obtain ⟨r₄, t₄, h₄, ho⟩ := ho.bind_ok
    obtain rfl := outcome_call (o := Op.blobPut _ _) nofun h₃
    obtain rfl := outcome_call (o := Op.io) nofun h₄
    cases r₄ with
    | error e =>
      obtain ⟨heq, rfl⟩ := ho
      cases heq
      exact ⟨rfl, nofun⟩
    | ok n =>
      obtain ⟨r₅, t₅, h₅, ho⟩ := ho.bind_ok
      obtain rfl := outcome_call (o := Op.io) nofun h₅
      cases r₅ with
      | error e =>
        obtain ⟨heq, rfl⟩ := ho
        cases heq
        exact ⟨rfl, nofun⟩
      | ok n =>
        obtain ⟨heq, rfl⟩ := ho
        cases heq
        refine ⟨rfl, ?_⟩
        rintro b' ⟨⟩
        rfl

theorem keeps_writeAllLoop (k : ℕ) (b : NewBlob) (bytes : Bytes) :
    Keeps A (NewBlob.writeAllLoop k b bytes) := by
  induction k generalizing b bytes with
  | zero =>
    cases bytes with
    | nil => exact .pure _
    | cons => exact .raise _
  | succ k ih =>
    cases bytes with
    | nil => exact .pure _
    | cons c cs =>
      refine .bind (keeps_newBlobWrite b _) fun r => ?_
      split
      · exact .raise _
      · exact .raise _
      · exact ih _ _

theorem outcome_storeExpect {h : Host} {content : Bytes} {b : OpenBlob}
    (ho : (threadLocale (·.host = h)).Outcome (Blobstore.storeExpect content) t (.ok b) t') :
    t.Relabeled t' := by
  obtain ⟨r₁, t₁, h₁, ho⟩ := ho.bind_ok
  have hfirst := keeps_blobstoreCreate.outcome h₁
  cases r₁ with
  | error e => cases ho.1
  | ok nb =>
    obtain ⟨nb', t₂, h₂, ho⟩ := ho.bind_ok
    obtain ⟨r₃, t₃, h₃, ho⟩ := ho.bind_ok
    have hsecond := (keeps_writeAllLoop _ _ _).outcome h₂
    obtain ⟨rfl, -⟩ := outcome_save h₃
    cases r₃ with
    | error e => cases ho.1
    | ok b' =>
      obtain ⟨-, rfl⟩ := ho
      exact hfirst.trans hsecond

theorem outcome_toBlob {h : Host} {content : Bytes} {fd : ℕ} (hs : t.Separated)
    (ho : (threadLocale (·.host = h)).Outcome (toBlob content) t (.ok fd) t') :
    t.Opens [] [fd] t' := by
  obtain ⟨b, t₁, h₁, ho⟩ := ho.bind_ok
  obtain ⟨n, t₂, h₂, ho⟩ := ho.bind_ok
  obtain ⟨_, t₃, h₃, hend⟩ := ho.bind_ok
  have hstore := (outcome_storeExpect h₁).opens
  obtain ⟨rfl, rfl⟩ := outcome_newBlobId h₂
  obtain rfl := outcome_amend h₃
  obtain ⟨heq, rfl⟩ := hend
  cases heq
  exact hstore.trans (Thread.opens_putBlob b (hstore.separated hs) (.refl _))

/-- What an invocation delivers as a blob is under a new descriptor. -/
theorem outcome_deliver {h : Host} {content : Bytes} {headers : ExtTreeMap String Bytes compare}
    {d : Delivered} (hs : t.Separated)
    (ho : (threadLocale (·.host = h)).Outcome
      (do return { blobFd := some (← toBlob content), headers := headers }) t (.ok d) t') :
    t.Opens [] d.blobFd.toList t' := by
  obtain ⟨fd, t₁, h₁, hend⟩ := ho.bind_ok
  obtain ⟨heq, rfl⟩ := hend
  cases heq
  exact outcome_toBlob hs h₁

end Server

variable [LabelCrate]

/-- What one thread of the host `h` sees. -/
abbrev onHost (h : Host) : Locale monitor Thread := threadLocale (·.host = h)

section Syscalls

variable {h : Host} {rounds : ℕ} {t t' : Thread}

theorem outcome_openEntry {dirFd : ℕ} {entry : Pb.OpenEntry} {r : Option (ℕ × DentKind)}
    (ho : (onHost h).Outcome (openEntry rounds dirFd entry) t (.ok r) t') :
    t.Opens (r.map Prod.fst).toList [] t' := by
  have hopen : ∀ {t₁ t' : Thread} {e : DirEntry} {k : DentKind} {r : Option (ℕ × DentKind)},
      t.Relabeled t₁ →
      (onHost h).Outcome (do return some (← newDent e, k)) t₁ (.ok r) t' →
        t.Opens (r.map Prod.fst).toList [] t' := by
    intro t₁ t' e k r ht₁ ho
    obtain ⟨fd, t₂, h₂, hend⟩ := ho.bind_ok
    obtain ⟨heq, rfl⟩ := hend
    cases heq
    exact ht₁.opens.trans (outcome_newDent h₂)
  obtain ⟨e, t₁, h₁, ho⟩ := ho.bind_ok
  have ht₁ := (keeps_dent dirFd).outcome h₁
  split at ho
  · obtain ⟨entries, t₂, h₂, ho⟩ := ho.bind_ok
    have ht₂ := ht₁.trans ((keeps_list _).outcome h₂)
    split at ho
    · exact hopen ht₂ ho
    · obtain ⟨heq, rfl⟩ := ho
      cases heq
      exact ht₂.opens
  · obtain ⟨l, t₂, h₂, ho⟩ := ho.bind_ok
    obtain ⟨dir, t₃, h₃, ho⟩ := ho.bind_ok
    exact hopen (ht₁.trans (((Keeps.unwrap _).outcome h₂).trans ((keeps_open _ _ _).outcome h₃))) ho
  · split at ho
    · obtain ⟨dir, t₃, h₃, ho⟩ := ho.bind_ok
      exact hopen (ht₁.trans ((keeps_open _ _ _).outcome h₃)) ho
    · obtain ⟨heq, rfl⟩ := ho
      cases heq
      exact ht₁.opens
  · obtain ⟨heq, rfl⟩ := ho
    cases heq
    exact ht₁.opens

omit [LabelCrate] in
/-- The images of a gate that is shown get three descriptors. -/
theorem outcome_showGate {g : Gate} {k : Pb.GateKind} (hs : t.Separated)
    (ho : (onHost h).Outcome (showGate g) t (.ok k) t') (fd : ℕ) :
    t.Opens [] (Act.served (.dentLsGate fd) (.dentLsGateResult true (some k))).blobs t' := by
  cases g with
  | direct g =>
    obtain ⟨a, t₁, h₁, ho⟩ := ho.bind_ok
    obtain ⟨b, t₂, h₂, ho⟩ := ho.bind_ok
    obtain ⟨c, t₃, h₃, hend⟩ := ho.bind_ok
    obtain ⟨heq, rfl⟩ := hend
    cases heq
    have hone := outcome_openImage hs h₁
    have htwo := outcome_openImage (hone.separated hs) h₂
    have hthree := outcome_openImage (htwo.separated (hone.separated hs)) h₃
    exact hone.trans (htwo.trans hthree)
  | redirect g =>
    obtain ⟨heq, rfl⟩ := ho
    cases heq
    exact (Thread.Relabeled.refl _).opens

theorem outcome_receive {toblob : Bool} {res : TaskReturn} {d : Delivered} (hs : t.Separated)
    (ho : (onHost h).Outcome (receive toblob res) t (.ok d) t') : t.Opens [] d.blobFd.toList t' := by
  obtain ⟨l, t₁, h₁, ho⟩ := ho.bind_ok
  obtain ⟨_, t₂, h₂, ho⟩ := ho.bind_ok
  obtain ⟨payload, t₃, h₃, ho⟩ := ho.bind_ok
  have hkeep : t.Opens [] [] t₃ := (((keeps_labelOrPublic _).outcome h₁).trans
    (((keeps_withCurrentLabel _).outcome h₂).trans ((Keeps.unwrap _).outcome h₃))).opens
  split at ho
  · exact hkeep.trans (outcome_deliver (hkeep.separated hs) ho)
  · obtain ⟨heq, rfl⟩ := ho
    cases heq
    exact hkeep

theorem outcome_invokeGate {u : Uid} {sync toblob : Bool} {payload : Bytes}
    {parameters : ExtTreeMap String String compare} {d : Delivered} (hs : t.Separated)
    (ho : (onHost h).Outcome (invokeGate rounds u sync payload toblob parameters) t (.ok d) t') :
    t.Opens [] d.blobFd.toList t' := by
  obtain ⟨g, t₁, h₁, ho⟩ := ho.bind_ok
  obtain ⟨p, t₂, h₂, ho⟩ := ho.bind_ok
  have ht₂ := ((keeps_toInvokable rounds u).outcome h₁).trans (keeps_getPrivilege.outcome h₂)
  split at ho
  · obtain ⟨conn, t₃, h₃, ho⟩ := ho.bind_ok
    have ht₃ := ht₂.trans (keeps_schedConn.outcome h₃)
    split at ho
    · obtain ⟨l, t₄, h₄, ho⟩ := ho.bind_ok
      obtain ⟨q, t₅, h₅, ho⟩ := ho.bind_ok
      obtain ⟨sent, t₆, h₆, ho⟩ := ho.bind_ok
      have ht₆ := ht₃.trans ((keeps_getCurrentLabel.outcome h₄).trans
        ((keeps_getPrivilege.outcome h₅).trans ((keeps_schedWrite _).outcome h₆)))
      split at ho
      · split at ho
        · obtain ⟨res, t₇, h₇, ho⟩ := ho.bind_ok
          have ht₇ := (ht₆.trans (keeps_schedRead.outcome h₇)).opens
          cases res with
          | some res => exact ht₇.trans (outcome_receive (ht₇.separated hs) ho)
          | none =>
            obtain ⟨heq, rfl⟩ := ho
            cases heq
            exact ht₇
        · obtain ⟨heq, rfl⟩ := ho
          cases heq
          exact ht₆.opens
      · obtain ⟨heq, rfl⟩ := ho
        cases heq
        exact ht₆.opens
    · cases ho.1
  · obtain ⟨heq, rfl⟩ := ho
    cases heq
    exact ht₂.opens

theorem outcome_invokeService {u : Uid} {toblob : Bool} {payload : Bytes}
    {parameters : ExtTreeMap String String compare} {d : Delivered} (hs : t.Separated)
    (ho : (onHost h).Outcome (invokeService u payload toblob parameters) t (.ok d) t') :
    t.Opens [] d.blobFd.toList t' := by
  obtain ⟨v, t₁, h₁, ho⟩ := ho.bind_ok
  obtain ⟨p, t₂, h₂, ho⟩ := ho.bind_ok
  have ht₂ := ((keeps_read u).outcome h₁).trans (keeps_getPrivilege.outcome h₂)
  split at ho
  · obtain ⟨_, t₃, h₃, ho⟩ := ho.bind_ok
    obtain ⟨res, t₄, h₄, ho⟩ := ho.bind_ok
    obtain ⟨_, t₅, h₅, ho⟩ := ho.bind_ok
    have ht₅ := ht₂.trans (((keeps_withCurrentLabel _).outcome h₃).trans
      (((keeps_httpSend _ _ _).outcome h₄).trans ((keeps_withCurrentLabel _).outcome h₅)))
    cases res with
    | some response =>
      dsimp only at ho
      split at ho
      · obtain ⟨body, t₆, h₆, ho⟩ := ho.bind_ok
        have ht₆ := (ht₅.trans ((Keeps.unwrap _).outcome h₆)).opens
        exact ht₆.trans (outcome_deliver (ht₆.separated hs) ho)
      · obtain ⟨heq, rfl⟩ := ho
        cases heq
        exact ht₅.opens
    | none =>
      obtain ⟨heq, rfl⟩ := ho
      cases heq
      exact ht₅.opens
  · obtain ⟨heq, rfl⟩ := ho
    cases heq
    exact ht₂.opens

omit [LabelCrate] in
/-- An act that opens descriptors and does no more keeps the tables apart. -/
theorem moves_of_opens {e : Act} (hs : t.Separated) (ho : t.Opens e.dents e.blobs t')
    (hclose : ∀ fd, e.closesDent fd = false) (hafter : ∀ fd x, e.after h fd x = x) :
    e.Moves h t t' ∧ t'.Separated := ⟨ho.moves hclose hafter, ho.separated hs⟩

omit [LabelCrate] in
theorem outcome_orFailure {m : M Pb.Reply} {reply : Pb.Reply}
    (ho : (onHost h).Outcome (orFailure m) t (.ok reply) t') :
    (onHost h).Outcome m t (.ok reply) t' ∨
      ∃ e, (onHost h).Outcome m t (.error e) t' ∧ reply = .dentResult false none none := by
  obtain ⟨r, t₁, h₁, ho⟩ := ho.bind_ok
  obtain ⟨r', hr', heq⟩ := Locale.Outcome.attempt h₁
  cases r' with
  | ok a =>
    cases heq
    obtain ⟨heq, rfl⟩ := ho
    cases heq
    exact .inl hr'
  | error e =>
    cases e with
    | err e =>
      cases heq
      obtain ⟨heq, rfl⟩ := ho
      cases heq
      exact .inr ⟨_, hr', rfl⟩
    | panic => cases heq
    | diverge => cases heq

theorem moves_dentCreate {label : Option Pb.Buckle} {kind : Option Pb.CreateKind} {reply : Pb.Reply}
    (hs : t.Separated) (ho : (onHost h).Outcome (create rounds label kind) t (.ok reply) t') :
    (Act.served (.dentCreate label kind) reply).Moves h t t' ∧ t'.Separated := by
  obtain ⟨l, t₁, h₁, ho⟩ := ho.bind_ok
  have ht₁ := (keeps_convertLabel label).outcome h₁
  cases kind with
  | none =>
    obtain ⟨heq, rfl⟩ := ho
    cases heq
    exact moves_of_opens hs ht₁.opens (fun _ => rfl) fun _ _ => rfl
  | some kind =>
    rcases outcome_orFailure ho with hok | ⟨e, herr, rfl⟩
    · obtain ⟨entry, t₂, h₂, ho⟩ := hok.bind_ok
      obtain ⟨fd, t₃, h₃, hend⟩ := ho.bind_ok
      obtain ⟨heq, rfl⟩ := hend
      cases heq
      have ht₂ := ht₁.trans ((keeps_createEntry rounds kind _).outcome h₂)
      exact moves_of_opens hs (ht₂.opens.trans (outcome_newDent h₃)) (fun _ => rfl) fun _ _ => rfl
    · -- What fails is the creation: a new descriptor is only given out after it.
      have ht : t.Relabeled t' := by
        rcases herr.bind_error with ho | ⟨entry, t₂, -, ho⟩
        · exact ht₁.trans ((keeps_createEntry rounds kind _).outcome ho)
        · rcases ho.bind_error with ho | ⟨fd, t₃, -, ho⟩
          · obtain ⟨x, t₃, -, y, t₄, -, z, t₅, -, heq, -⟩ := ho
            cases heq
          · cases ho.1
      exact moves_of_opens hs ht.opens (fun _ => rfl) fun _ _ => rfl

theorem moves_dentGetBlob {fd : ℕ} {reply : Pb.Reply} (hs : t.Separated)
    (ho : (onHost h).Outcome (dentGetBlob fd) t (.ok reply) t') :
    (Act.served (.dentGetBlob fd) reply).Moves h t t' ∧ t'.Separated := by
  obtain ⟨e, t₁, h₁, ho⟩ := ho.bind_ok
  have ht₁ := (keeps_dent fd).outcome h₁
  split at ho
  · obtain ⟨name, t₂, h₂, ho⟩ := ho.bind_ok
    obtain ⟨b, t₃, h₃, ho⟩ := ho.bind_ok
    obtain ⟨n, t₄, h₄, ho⟩ := ho.bind_ok
    obtain ⟨len, t₅, h₅, ho⟩ := ho.bind_ok
    obtain ⟨_, t₆, h₆, hend⟩ := ho.bind_ok
    have ht₃ := (ht₁.trans (((keeps_read _).outcome h₂).trans ((keeps_openExpect _).outcome h₃))).opens
    obtain ⟨rfl, rfl⟩ := outcome_newBlobId h₄
    obtain rfl := outcome_amend h₆
    obtain ⟨heq, rfl⟩ := hend
    cases heq
    have hput := Thread.opens_putBlob b (ht₃.separated hs) ((keeps_lenExpect b).outcome h₅)
    exact moves_of_opens hs (ht₃.trans hput) (fun _ => rfl) fun _ _ => rfl
  · obtain ⟨heq, rfl⟩ := ho
    cases heq
    exact moves_of_opens hs ht₁.opens (fun _ => rfl) fun _ _ => rfl

omit [LabelCrate] in
theorem moves_blobCreate {size : Option ℕ} {reply : Pb.Reply} (hs : t.Separated)
    (ho : (onHost h).Outcome blobCreate t (.ok reply) t') :
    (Act.served (.blobCreate size) reply).Moves h t t' ∧ t'.Separated := by
  obtain ⟨r, t₁, h₁, ho⟩ := ho.bind_ok
  have ht₁ := (keeps_blobstoreCreate.outcome h₁).opens
  have hempty : ∀ b, r = .ok b → b = {} := by
    rintro b rfl
    obtain ⟨x, t₂, -, h₂⟩ := h₁.bind_ok
    cases x with
    | ok n =>
      cases h₂.1
      rfl
    | error e => cases h₂.1
  cases r with
  | ok b =>
    obtain rfl := hempty b rfl
    obtain ⟨n, t₂, h₂, ho⟩ := ho.bind_ok
    obtain ⟨_, t₃, h₃, hend⟩ := ho.bind_ok
    obtain ⟨rfl, rfl⟩ := outcome_newBlobId h₂
    obtain rfl := outcome_amend h₃
    obtain ⟨heq, rfl⟩ := hend
    cases heq
    exact moves_of_opens hs (ht₁.trans (Thread.opens_putNewBlob (ht₁.separated hs))) (fun _ => rfl)
      fun _ _ => rfl
  | error e =>
    obtain ⟨heq, rfl⟩ := ho
    cases heq
    exact moves_of_opens hs ht₁ (fun _ => rfl) fun _ _ => rfl

omit [LabelCrate] in
theorem outcome_newBlobWrite {b b' : NewBlob} {bytes : Bytes} {len : ℕ} {A : World → Prop}
    (ho : (threadLocale A).Outcome (b.write bytes) t (.ok (.ok (len, b'))) t') :
    b' = b.append bytes len := by
  obtain ⟨x, t₁, -, ho⟩ := ho.bind_ok
  cases x with
  | error e => cases ho.1
  | ok n =>
    cases ho.1
    simp [NewBlob.append]

omit [LabelCrate] in
theorem moves_blobWrite {fd : ℕ} {data : Bytes} {reply : Pb.Reply} (hs : t.Separated)
    (ho : (onHost h).Outcome (blobWrite fd data) t (.ok reply) t') :
    (Act.served (.blobWrite fd data) reply).Moves h t t' ∧ t'.Separated := by
  obtain ⟨x, t₁, h₁, ho⟩ := ho.bind_ok
  obtain ⟨rfl, rfl⟩ := outcome_inspect h₁
  rcases hb : t₁.createBlobs fd with _ | b
  · rw [hb] at ho
    obtain ⟨heq, rfl⟩ := ho
    cases heq
    exact moves_of_opens hs (Thread.Relabeled.refl _).opens (fun _ => rfl) fun _ _ => rfl
  · rw [hb] at ho
    obtain ⟨r, t₂, h₂, ho⟩ := ho.bind_ok
    cases r with
    | error e =>
      obtain ⟨heq, rfl⟩ := ho
      cases heq
      exact moves_of_opens hs ((keeps_newBlobWrite b data).outcome h₂).opens (fun _ => rfl)
        fun _ _ => rfl
    | ok r =>
      obtain ⟨len, b'⟩ := r
      obtain rfl := outcome_newBlobWrite h₂
      obtain ⟨l, rfl⟩ := (keeps_newBlobWrite b data).outcome h₂
      obtain ⟨_, t₃, h₃, hend⟩ := ho.bind_ok
      obtain rfl := outcome_amend h₃
      obtain ⟨heq, rfl⟩ := hend
      cases heq
      have hlt : fd < t₁.maxBlobId := hs.createBlobs fd (by simp [hb])
      refine ⟨⟨le_rfl, le_rfl, nofun, nofun, .nil, .nil, fun _ _ => rfl, fun fd' _ => ?_⟩,
        ⟨hs.dents, fun fd' hfd' => ?_, hs.blobs, fun fd' => ?_⟩⟩
      · by_cases heq : fd' = fd
        · subst heq
          simp [Thread.handle, Act.after, hb]
        · rcases hx : t₁.handle fd' with _ | b' | b' <;>
            simp_all [Thread.handle, Act.after]
      · by_cases heq : fd' = fd
        · subst heq
          exact hlt
        · rw [Thread.putNewBlob_createBlobs, Function.update_of_ne heq] at hfd'
          exact hs.createBlobs fd' hfd'
      · by_cases heq : fd' = fd
        · subst heq
          refine .inr ((hs.disjoint fd').resolve_left ?_)
          simp [hb]
        · rw [Thread.putNewBlob_createBlobs, Function.update_of_ne heq]
          exact hs.disjoint fd'

omit [LabelCrate] in
/-- The number of a blob that was written is free again in both tables. -/
theorem separated_closeNewBlob (hs : t.Separated) (fd : ℕ) : (t.closeNewBlob fd).Separated := by
  refine ⟨hs.dents, fun fd' hfd' => ?_, hs.blobs, fun fd' => ?_⟩
  · by_cases heq : fd' = fd
    · simp [heq] at hfd'
    · rw [Thread.closeNewBlob_createBlobs, Function.update_of_ne heq] at hfd'
      exact hs.createBlobs fd' hfd'
  · by_cases heq : fd' = fd
    · exact .inl (by simp [heq])
    · rw [Thread.closeNewBlob_createBlobs, Function.update_of_ne heq]
      exact hs.disjoint fd'

omit [LabelCrate] in
theorem moves_blobFinalize {fd : ℕ} {reply : Pb.Reply} (hs : t.Separated)
    (ho : (onHost h).Outcome (blobFinalize fd) t (.ok reply) t') :
    (Act.served (.blobFinalize fd) reply).Moves h t t' ∧ t'.Separated := by
  obtain ⟨x, t₁, h₁, ho⟩ := ho.bind_ok
  obtain ⟨hx, ht₁⟩ := outcome_inspect h₁
  subst hx ht₁
  rcases hb : t₁.createBlobs fd with _ | b
  · rw [hb] at ho
    obtain ⟨heq, ht'⟩ := ho
    cases heq
    subst ht'
    refine ⟨⟨le_rfl, le_rfl, by rintro _ ⟨⟩, by rintro _ ⟨⟩, .nil, .nil, fun _ _ => rfl, fun fd' _ => ?_⟩, hs⟩
    rcases hx : t'.handle fd' with _ | b' | b'
    · rfl
    · have hne : fd' ≠ fd := by
        rintro rfl
        simp only [Thread.handle, hb] at hx
        split at hx <;> simp_all
      simp [Act.after, hne]
    · rfl
  · rw [hb] at ho
    have hnone : t₁.blobs fd = none := (hs.disjoint fd).resolve_left (by simp [hb])
    have hlt : fd < t₁.maxBlobId := hs.createBlobs fd (by simp [hb])
    have hclosed := separated_closeNewBlob hs fd
    obtain ⟨_, t₂, h₂, ho⟩ := ho.bind_ok
    obtain ⟨r, t₃, h₃, ho⟩ := ho.bind_ok
    have ht₂ := outcome_amend h₂
    obtain ⟨ht₃, hsaved⟩ := outcome_save h₃
    subst ht₂ ht₃
    cases r with
    | error e =>
      obtain ⟨heq, ht'⟩ := ho
      cases heq
      subst ht'
      refine ⟨⟨le_rfl, le_rfl, by rintro _ ⟨⟩, by rintro _ ⟨⟩, .nil, .nil, fun _ _ => rfl, fun fd' _ => ?_⟩, hclosed⟩
      by_cases heq : fd' = fd
      · subst heq
        simp [Thread.handle, Act.after, hb, hnone]
      · rcases hx : t₁.handle fd' with _ | b' | b' <;>
          simp_all [Thread.handle, Act.after]
    | ok b' =>
      obtain rfl := hsaved b' rfl
      obtain ⟨_, t₄, h₄, hend⟩ := ho.bind_ok
      have ht₄ := outcome_amend h₄
      subst ht₄
      obtain ⟨heq, ht'⟩ := hend
      cases heq
      subst ht'
      refine ⟨⟨le_rfl, le_rfl, by rintro _ ⟨⟩, by rintro _ ⟨⟩, .nil, .nil, fun _ _ => rfl, fun fd' _ => ?_⟩,
        ⟨hs.dents, hclosed.createBlobs, fun fd' hfd' => ?_, fun fd' => ?_⟩⟩
      · by_cases heq : fd' = fd
        · subst heq
          simp [Thread.handle, Act.after, hb]
        · rcases hx : t₁.handle fd' with _ | b' | b' <;>
            simp_all [Thread.handle, Act.after]
      · by_cases heq : fd' = fd
        · subst heq
          exact hlt
        · rw [Thread.putBlob_blobs, Function.update_of_ne heq] at hfd'
          exact hs.blobs fd' hfd'
      · by_cases heq : fd' = fd
        · exact .inl (by simp [heq])
        · rw [Thread.putBlob_blobs, Function.update_of_ne heq]
          exact hclosed.disjoint fd'

omit [LabelCrate] in
theorem moves_blobClose {fd : ℕ} {reply : Pb.Reply} (hs : t.Separated)
    (ho : (onHost h).Outcome (blobClose fd) t (.ok reply) t') :
    (Act.served (.blobClose fd) reply).Moves h t t' ∧ t'.Separated := by
  obtain ⟨x, t₁, h₁, ho⟩ := ho.bind_ok
  obtain ⟨hx, ht₁⟩ := outcome_inspect h₁
  subst hx ht₁
  rcases hb : t₁.blobs fd with _ | b
  · rw [hb] at ho
    obtain ⟨heq, ht'⟩ := ho
    cases heq
    subst ht'
    refine ⟨⟨le_rfl, le_rfl, by rintro _ ⟨⟩, by rintro _ ⟨⟩, .nil, .nil, fun _ _ => rfl, fun fd' _ => ?_⟩, hs⟩
    rcases hx : t'.handle fd' with _ | b' | b'
    · rfl
    · rfl
    · have hne : fd' ≠ fd := by
        rintro rfl
        simp only [Thread.handle, hb] at hx
        split at hx <;> simp_all
      simp [Act.after, hne]
  · rw [hb] at ho
    obtain ⟨_, t₂, h₂, hend⟩ := ho.bind_ok
    have ht₂ := outcome_amend h₂
    subst ht₂
    obtain ⟨heq, ht'⟩ := hend
    cases heq
    subst ht'
    refine ⟨⟨le_rfl, le_rfl, by rintro _ ⟨⟩, by rintro _ ⟨⟩, .nil, .nil, fun _ _ => rfl, fun fd' _ => ?_⟩,
      ⟨hs.dents, hs.createBlobs, fun fd' hfd' => ?_, fun fd' => ?_⟩⟩
    · by_cases heq : fd' = fd
      · subst heq
        have hnone : t₁.createBlobs fd' = none := (hs.disjoint fd').resolve_right (by simp [hb])
        simp [Thread.handle, Act.after, hb, hnone]
      · rcases hx : t₁.handle fd' with _ | b' | b' <;>
          simp_all [Thread.handle, Act.after]
    · by_cases heq : fd' = fd
      · simp [heq] at hfd'
      · rw [Thread.closeBlob_blobs, Function.update_of_ne heq] at hfd'
        exact hs.blobs fd' hfd'
    · by_cases heq : fd' = fd
      · exact .inr (by simp [heq])
      · rw [Thread.closeBlob_blobs, Function.update_of_ne heq]
        exact hs.disjoint fd'

omit [LabelCrate] in
theorem moves_dentClose {fd : ℕ} {reply : Pb.Reply} (hs : t.Separated)
    (ho : (onHost h).Outcome (dentClose fd) t (.ok reply) t') :
    (Act.served (.dentClose fd) reply).Moves h t t' ∧ t'.Separated := by
  obtain ⟨_, t₁, h₁, hend⟩ := ho.bind_ok
  have ht₁ := outcome_amend h₁
  subst ht₁
  obtain ⟨heq, ht'⟩ := hend
  cases heq
  subst ht'
  refine ⟨⟨le_rfl, le_rfl, nofun, nofun, .nil, .nil, fun fd' _ => ?_, fun _ _ => rfl⟩,
    ⟨fun fd' hfd' => ?_, hs.createBlobs, hs.blobs, hs.disjoint⟩⟩
  · by_cases heq : fd' = fd
    · simp [Act.closesDent, heq]
    · simp [Act.closesDent, heq]
  · by_cases heq : fd' = fd
    · simp [heq] at hfd'
    · rw [Thread.closeDent_dents, Function.update_of_ne heq] at hfd'
      exact hs.dents fd' hfd'

theorem keeps_readingSyscall {A : World → Prop} (fd : ℕ) :
    Keeps A (dentRead fd) ∧ Keeps A (dentList fd) ∧
      ∀ clearance, Keeps A (dentListFaceted fd clearance) := by
  refine ⟨.bind (keeps_dent fd) fun e => ?_, .bind (keeps_dent fd) fun e => ?_,
    fun clearance => .bind (keeps_dent fd) fun e => ?_⟩
  · split
    · exact .bind (keeps_read _) fun _ => .pure _
    · exact .pure _
  · split
    · exact .bind (keeps_list _) fun _ => .pure _
    · exact .pure _
  · split
    · exact .bind (keeps_listFaceted _ _) fun _ => .pure _
    · exact .pure _

theorem keeps_dentLink {A : World → Prop} (dirFd : ℕ) (name : String) (targetFd : ℕ) :
    Keeps A (dentLink rounds dirFd name targetFd) := by
  refine .bind (keeps_dent dirFd) fun base => .bind (keeps_dent targetFd) fun target => ?_
  split
  · refine .bind (keeps_link rounds _ name _).result fun r => ?_
    split <;> exact .pure _
  · exact .pure _

theorem keeps_dentUnlink {A : World → Prop} (fd : ℕ) (name : String) :
    Keeps A (dentUnlink rounds fd name) := by
  refine .bind (keeps_dent fd) fun base => ?_
  split
  · refine .bind (keeps_unlink rounds _ name).result fun r => ?_
    split <;> exact .pure _
  · exact .pure _

omit [LabelCrate] in
theorem keeps_blobRead {A : World → Prop} (fd offset length : ℕ) :
    Keeps A (blobRead fd offset length) := by
  refine .bind (keeps_inspect _) fun b => ?_
  split
  · refine .ite (.bind (keeps_readAt _ offset length) fun r => ?_) (.raise _)
    split <;> exact .pure _
  · exact .pure _

theorem keeps_update {A : World → Prop} (fd : ℕ) (kind : Option Pb.UpdateKind) :
    Keeps A (update fd kind) := by
  cases kind with
  | none => exact .pure _
  | some kind => exact keeps_orFailure (.bind (keeps_updateEntry fd kind) fun _ => .pure _)

theorem keeps_declassify {A : World → Prop} (c : Component) : Keeps A (declassify c) :=
  .bind keeps_getPrivilege fun _ => keeps_withCurrentLabel _

/-- What one syscall does. -/
theorem moves_serve {sc : Pb.Syscall} {reply : Pb.Reply} (hs : t.Separated)
    (ho : (onHost h).Outcome (serve rounds sc) t (.ok reply) t') :
    (Act.served sc reply).Moves h t t' ∧ t'.Separated := by
  have plain : ∀ {m : M Pb.Reply} {e : Act}, Keeps (·.host = h) m →
      (onHost h).Outcome m t (.ok reply) t' → e.dents = [] → e.blobs = [] →
      (∀ fd, e.closesDent fd = false) → (∀ fd x, e.after h fd x = x) →
        e.Moves h t t' ∧ t'.Separated := by
    intro m e hk ho hd hb
    refine moves_of_opens hs ?_
    rw [hd, hb]
    exact (hk.outcome ho).opens
  cases sc with
  | response r => cases ho.1
  | subPrivilege c => cases ho.1
  | buckleParse label => exact plain (.pure _) ho rfl rfl (fun _ => rfl) fun _ _ => rfl
  | root => exact plain (.pure _) ho rfl rfl (fun _ => rfl) fun _ _ => rfl
  | getCurrentLabel =>
    exact plain (.bind keeps_getCurrentLabel fun _ => .pure _) ho rfl rfl (fun _ => rfl) fun _ _ => rfl
  | taintWithLabel label =>
    exact plain (.bind (.unwrap _) fun _ => .bind (keeps_withCurrentLabel _) fun _ => .pure _) ho rfl
      rfl (fun _ => rfl) fun _ _ => rfl
  | declassify c =>
    refine plain (.bind (.unwrap _) fun _ => .bind (keeps_declassify _) fun r => ?_) ho rfl rfl
      (fun _ => rfl) fun _ _ => rfl
    split <;> exact .pure _
  | dentUpdate fd kind => exact plain (keeps_update fd kind) ho rfl rfl (fun _ => rfl) fun _ _ => rfl
  | dentRead fd =>
    exact plain (keeps_readingSyscall fd).1 ho rfl rfl (fun _ => rfl) fun _ _ => rfl
  | dentList fd =>
    exact plain (keeps_readingSyscall fd).2.1 ho rfl rfl (fun _ => rfl) fun _ _ => rfl
  | dentLsFaceted fd clearance =>
    exact plain (.bind (keeps_labelOrPublic _) fun _ => (keeps_readingSyscall fd).2.2 _) ho rfl rfl
      (fun _ => rfl) fun _ _ => rfl
  | dentLink dirFd name targetFd =>
    exact plain (keeps_dentLink dirFd name targetFd) ho rfl rfl (fun _ => rfl) fun _ _ => rfl
  | dentUnlink fd name =>
    exact plain (keeps_dentUnlink fd name) ho rfl rfl (fun _ => rfl) fun _ _ => rfl
  | blobRead fd offset length =>
    exact plain (keeps_blobRead _ _ _) ho rfl rfl (fun _ => rfl) fun _ _ => rfl
  | dentOpen fd entry =>
    obtain ⟨entry', t₁, h₁, ho⟩ := ho.bind_ok
    obtain ⟨r, t₂, h₂, ho⟩ := ho.bind_ok
    have hopens := ((Keeps.unwrap entry).outcome h₁).opens.trans (outcome_openEntry h₂)
    cases r with
    | none =>
      obtain ⟨heq, ht'⟩ := ho
      cases heq
      subst ht'
      exact moves_of_opens hs hopens (fun _ => rfl) fun _ _ => rfl
    | some r =>
      obtain ⟨heq, ht'⟩ := ho
      cases heq
      subst ht'
      exact moves_of_opens hs hopens (fun _ => rfl) fun _ _ => rfl
  | dentClose fd => exact moves_dentClose hs ho
  | dentCreate label kind => exact moves_dentCreate hs ho
  | dentLsGate fd =>
    obtain ⟨e, t₁, h₁, ho⟩ := ho.bind_ok
    have ht₁ := (keeps_dent fd).outcome h₁
    split at ho
    · obtain ⟨g, t₂, h₂, ho⟩ := ho.bind_ok
      obtain ⟨k, t₃, h₃, hend⟩ := ho.bind_ok
      obtain ⟨heq, ht'⟩ := hend
      cases heq
      subst ht'
      have ht₂ := (ht₁.trans ((keeps_read _).outcome h₂)).opens
      exact moves_of_opens hs (ht₂.trans (outcome_showGate (ht₂.separated hs) h₃ fd)) (fun _ => rfl)
        fun _ _ => rfl
    · obtain ⟨heq, ht'⟩ := ho
      cases heq
      subst ht'
      exact moves_of_opens hs ht₁.opens (fun _ => rfl) fun _ _ => rfl
  | dentInvoke fd sync payload toblob parameters =>
    have delivered : ∀ {d : Delivered}, t.Opens [] d.blobFd.toList t' → d.reply = reply →
        (Act.served (.dentInvoke fd sync payload toblob parameters) reply).Moves h t t' ∧
          t'.Separated := by
      rintro d hd rfl
      refine moves_of_opens hs ?_ (fun _ => rfl) fun _ _ => rfl
      rcases d with ⟨_ | n, data, headers⟩
      · exact hd
      · exact hd
    obtain ⟨e, t₁, h₁, ho⟩ := ho.bind_ok
    have ht₁ := ((keeps_dent fd).outcome h₁).opens
    split at ho
    · obtain ⟨d, t₂, h₂, heq, ht'⟩ := ho.bind_ok
      cases heq
      subst ht'
      exact delivered (ht₁.trans (outcome_invokeGate (ht₁.separated hs) h₂)) rfl
    · obtain ⟨d, t₂, h₂, heq, ht'⟩ := ho.bind_ok
      cases heq
      subst ht'
      exact delivered (ht₁.trans (outcome_invokeService (ht₁.separated hs) h₂)) rfl
    · obtain ⟨heq, ht'⟩ := ho
      cases heq
      subst ht'
      exact delivered (d := {}) ht₁ rfl
  | dentGetBlob fd => exact moves_dentGetBlob hs ho
  | blobCreate size => exact moves_blobCreate hs ho
  | blobWrite fd data => exact moves_blobWrite hs ho
  | blobFinalize fd => exact moves_blobFinalize hs ho
  | blobClose fd => exact moves_blobClose hs ho

end Syscalls

end Faasten
