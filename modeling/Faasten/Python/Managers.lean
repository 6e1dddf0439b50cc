import Mathlib
import Faasten.DcLabels
import Faasten.Paths.Walks
import Faasten.Python.Runtime

/-!
# Context managers of the guest

A `with` statement opens something on the host for its body, and is to close it at the end. `open_at` opens
one descriptor for each component of a path and closes the last one, whatever was opened on the way;
`create_blob` sends the request that created its blob once more, where it means to close it; `get` closes
nothing. `managers_restore_iff` says exactly when they leave open what was open before, and no more.
-/

namespace Faasten

open Effect

namespace Python

variable [LabelCrate] {rounds : ℕ} {α : Type}

/-! ### What is to hold -/

/-- The same descriptors of entries are open. -/
def SameEntries (w w' : World) : Prop := ∀ fd, w'.dents fd = none ↔ w.dents fd = none

/-- The same descriptors of blobs are open, to write or to read. -/
def SameBlobs (w w' : World) : Prop :=
  ∀ fd, w'.toThread.handle fd = none ↔ w.toThread.handle fd = none

/-- A syscall that opens and closes no entry. -/
def KeepsEntries : Pb.Syscall → Prop
  | .dentOpen _ _ => False
  | .dentCreate _ _ => False
  | .dentClose _ => False
  | _ => True

/-- A syscall that opens and closes no blob. -/
def KeepsBlobs : Pb.Syscall → Prop
  | .dentLsGate _ => False
  | .dentInvoke _ _ _ _ _ => False
  | .dentGetBlob _ => False
  | .blobCreate _ => False
  | .blobFinalize _ => False
  | .blobClose _ => False
  | _ => True

/-- A syscall that writes or finalizes one blob. -/
def WritesTo (fd : ℕ) (sc : Pb.Syscall) : Prop :=
  (∃ data, sc = .blobWrite fd data) ∨ sc = .blobFinalize fd

/-! ### When it does -/

/-- The script ends with an exception. -/
def Raises (rounds : ℕ) (m : Script α) (w : World) : Prop :=
  ∃ e w', play rounds m w = (.ok (.error e), w')

/-- The name is in the directory that is open under the descriptor. -/
def Lists (w : World) (dir : ℕ) (name : String) (o : Labeled Directory) (e : DirEntry) : Prop :=
  ∃ u, w.dents dir = some (.directory u) ∧ w.store u = some (.encode o) ∧
    o.data.entries[name]? = some e

/-- The world after a name has been opened. -/
def opened (w : World) (o : Labeled Directory) (e : DirEntry) : World :=
  let w₁ := w.relabel (lub o.label w.currentLabel)
  { w₁ with toThread := w₁.toThread.addDent e }

/-- The condition for `open_at`: of a longer path the first component cannot be opened; of a path of one
component it cannot be opened, or the body does not raise; and the body for the empty path raises. -/
def Directory.Restores (rounds : ℕ) (w : World) (dir : ℕ) (body : ℕ → DentKind → Script α) :
    List String → Prop
  | [] => Raises rounds (body dir .dentDirectory) w
  | [name] => ∀ o e, Lists w dir name o e →
      ¬ Raises rounds (body w.maxDentId e.kind) (opened w o e)
  | name :: _ :: _ => ∀ o e, ¬ Lists w dir name o e

/-- The world after a blob has been created. -/
def created (w : World) : World :=
  { w with io := w.io.tail
           toThread := w.toThread.nextBlob.putNewBlob w.maxBlobId {} }

/-- The condition for `create_blob`: the host cannot create the blob; or the blob is no longer open after
the body, and the body has raised or the host cannot create another one then. -/
def BlobRestores (rounds : ℕ) (w : World) (body : ℕ → Script α) : Prop :=
  (∃ e, w.io.head = .error e) ∨
    ∃ r w₁, play rounds (body w.maxBlobId) (created w) = (.ok r, w₁) ∧
      w₁.toThread.handle w.maxBlobId = none ∧ ∀ a, r = .ok a → ∃ e, w₁.io.head = .error e

/-! ### Syscalls of a body -/

section Bodies

variable {w w' : World} {sc : Pb.Syscall} {reply : Pb.Reply}

/-- What a syscall of a guest does to the tables. -/
theorem answer_moves (hs : w.toThread.Separated) (h : exec (answer rounds sc) w = (.ok reply, w')) :
    (Act.served sc reply).Moves w.host w.toThread w'.toThread ∧ w'.toThread.Separated := by
  have ho := outcome_of_exec (SyscallProcessor.doSyscall rounds sc) w
  rw [answer_ok.1 h] at ho
  exact (Serves.syscall ho).moves hs

omit [LabelCrate] in
/-- An act makes nothing of what is not open. -/
theorem after_none (h : Host) (e : Act) (fd : ℕ) : e.after h fd none = none := by
  unfold Act.after
  split <;> simp_all

/-- The processor has the same entries open. -/
def EntriesKept (w w' : World) : Prop :=
  w.toThread.Separated → w'.toThread.Separated ∧ w'.dents = w.dents

instance : Std.Refl EntriesKept := ⟨fun _ hs => ⟨hs, rfl⟩⟩

instance : IsTrans World EntriesKept := ⟨fun _ _ _ h h' hs =>
  ⟨(h' (h hs).1).1, (h' (h hs).1).2.trans (h hs).2⟩⟩

theorem entriesKept_of_answer (hsc : KeepsEntries sc)
    (h : exec (answer rounds sc) w = (.ok reply, w')) : EntriesKept w w' := by
  intro hs
  obtain ⟨hm, hs'⟩ := answer_moves hs h
  have hnone : (Act.served sc reply).dents = [] ∧ ∀ fd, (Act.served sc reply).closesDent fd = false := by
    cases sc <;> first | exact hsc.elim | exact ⟨rfl, fun _ => rfl⟩
  refine ⟨hs', funext fun fd => ?_⟩
  rw [hm.dent fd (by rw [hnone.1]; exact List.not_mem_nil), hnone.2 fd]
  rfl

/-- The processor has the same blobs open. -/
def BlobsKept (w w' : World) : Prop :=
  w.toThread.Separated → w'.toThread.Separated ∧ SameBlobs w w'

instance : Std.Refl BlobsKept := ⟨fun _ hs => ⟨hs, fun _ => .rfl⟩⟩

instance : IsTrans World BlobsKept := ⟨fun _ _ _ h h' hs =>
  ⟨(h' (h hs).1).1, fun fd => ((h' (h hs).1).2 fd).trans ((h hs).2 fd)⟩⟩

theorem blobsKept_of_answer (hsc : KeepsBlobs sc)
    (h : exec (answer rounds sc) w = (.ok reply, w')) : BlobsKept w w' := by
  intro hs
  obtain ⟨hm, hs'⟩ := answer_moves hs h
  have hnone : (Act.served sc reply).blobs = [] := by
    cases sc <;> first | exact hsc.elim | rfl
  have hclose : ∀ fd, (Act.served sc reply).closesBlob fd = false := by
    intro fd
    cases sc <;> first | exact hsc.elim | rfl
  refine ⟨hs', fun fd => ?_⟩
  rw [hm.handle fd (by rw [hnone]; exact List.not_mem_nil)]
  rcases w.toThread.handle fd with _ | x
  · rw [after_none]
  · obtain ⟨y, hy, -⟩ := Act.after_same (h := w.host) (x := x) (hclose fd)
    rw [hy]
    simp

/-- No other blob is opened or closed, and this one is not opened. -/
def OnlyCloses (fd : ℕ) (w w' : World) : Prop :=
  w.toThread.Separated → w'.toThread.Separated ∧
    (∀ fd' ≠ fd, w'.toThread.handle fd' = w.toThread.handle fd') ∧
    (w.toThread.handle fd = none → w'.toThread.handle fd = none) ∧ w.maxBlobId ≤ w'.maxBlobId

instance (fd : ℕ) : Std.Refl (OnlyCloses fd) := ⟨fun _ hs => ⟨hs, fun _ _ => rfl, id, le_rfl⟩⟩

instance (fd : ℕ) : IsTrans World (OnlyCloses fd) := ⟨fun w w₁ w₂ h h' hs => by
  obtain ⟨hs₁, hother, hthis, hmax⟩ := h hs
  obtain ⟨hs₂, hother', hthis', hmax'⟩ := h' hs₁
  exact ⟨hs₂, fun fd' hne => (hother' fd' hne).trans (hother fd' hne), fun hn => hthis' (hthis hn),
    hmax.trans hmax'⟩⟩

omit [LabelCrate] in
theorem after_other (h : Host) {fd fd' : ℕ} (hsc : WritesTo fd sc) (hne : fd' ≠ fd)
    (x : Option Handle) : (Act.served sc reply).after h fd' x = x := by
  rcases hsc with ⟨data, rfl⟩ | rfl
  · unfold Act.after
    split <;> simp_all
  · unfold Act.after
    split <;> simp_all

theorem onlyCloses_of_answer {fd : ℕ} (hsc : WritesTo fd sc)
    (h : exec (answer rounds sc) w = (.ok reply, w')) : OnlyCloses fd w w' := by
  intro hs
  obtain ⟨hm, hs'⟩ := answer_moves hs h
  have hnone : (Act.served sc reply).blobs = [] := by
    rcases hsc with ⟨data, rfl⟩ | rfl <;> rfl
  have hhandle := fun fd' => hm.handle fd' (by rw [hnone]; exact List.not_mem_nil)
  refine ⟨hs', fun fd' hne => ?_, fun hn => ?_, hm.blobId⟩
  · rw [hhandle fd', after_other w.host hsc hne]
  · rw [hhandle fd, hn, after_none]

end Bodies

/-! ### Paths -/

section Paths

variable {w w' : World} {dir : ℕ} {name : String}

/-- What the processor replies to a `DentOpen` of a name in a directory. -/
theorem answer_dentOpen {u : Uid} {reply : Pb.Reply} (hdir : w.dents dir = some (.directory u))
    (h : exec (answer rounds (.dentOpen dir (some (.name name)))) w = (.ok reply, w')) :
    (∃ o e, Lists w dir name o e ∧ reply = .dentOpenResult true w.maxDentId e.kind ∧
      w' = opened w o e) ∨
    (∀ o e, ¬ Lists w dir name o e) ∧ reply = .dentOpenResult false 0 .dentDirectory := by
  have hdo := answer_ok.1 h
  unfold SyscallProcessor.doSyscall SyscallProcessor.serve SyscallProcessor.dentOpen
    SyscallProcessor.openEntry at hdo
  rcases ho : (w.store u).bind (Stored.decode (T := Labeled Directory)) with _ | o
  · simp only [exec_bind, exec_dent, exec_unwrap_some, hdir, Directory.list,
      ObjectRef.exec_read_none ho] at hdo
    cases hdo
  · have hstore := decode_eq_some ho
    rcases he : o.data.entries[name]? with _ | e
    · simp only [exec_bind, exec_dent, exec_unwrap_some, hdir, Directory.exec_list ho, he] at hdo
      cases hdo
      refine .inr ⟨?_, rfl⟩
      rintro o' e ⟨u', hdir', hstore', he'⟩
      cases hdir.symm.trans hdir'
      cases encode_inj hstore hstore'
      exact absurd (he.symm.trans he') (by simp)
    · simp only [exec_bind, exec_dent, exec_unwrap_some, hdir, Directory.exec_list ho, he] at hdo
      cases hdo
      exact .inl ⟨o, e, ⟨u, hdir, hstore, he⟩, rfl, rfl⟩

/-- What opening a path does to the entries: what is open stays so, and what is opened last was not. -/
theorem openPath_opens {path : List String} {cur : ℕ} {kind : DentKind}
    {r : Except PyError (ℕ × DentKind)} (hs : w.toThread.Separated)
    (h : play rounds (openPath cur kind path) w = (.ok r, w')) :
    w'.toThread.Separated ∧ (∀ fd, w.dents fd ≠ none → w'.dents fd = w.dents fd) ∧
      ∀ last, r = .ok last → path ≠ [] → w.dents last.1 = none := by
  induction path generalizing w cur kind with
  | nil =>
    cases h
    exact ⟨hs, fun _ _ => rfl, fun _ _ hne => absurd rfl hne⟩
  | cons component path ih =>
    unfold openPath at h
    obtain ⟨reply, w₁, hanswer, hrest⟩ := send_ok h
    obtain ⟨hm, hs₁⟩ := answer_moves hs hanswer
    have hkept : ∀ fd, w.dents fd ≠ none → w₁.dents fd = w.dents fd := by
      intro fd hfd
      have hlt := hs.dents fd hfd
      rw [hm.dent fd fun hmem => by have := (hm.dents fd hmem).1; omega]
      rfl
    split at hrest
    · next fd kind' =>
      obtain ⟨hs', hkept', hlast⟩ := ih hs₁ hrest
      refine ⟨hs', fun fd hfd => ?_, fun last hr _ => ?_⟩
      · rw [hkept' fd (by rwa [hkept fd hfd]), hkept fd hfd]
      · by_contra hopen
        by_cases hpath : path = []
        · subst hpath
          cases hrest
          cases hr
          have := (hm.dents fd (List.mem_singleton_self fd)).1
          have := hs.dents fd hopen
          omega
        · have hnone := hlast last hr hpath
          rw [hkept _ hopen] at hnone
          exact hopen hnone
    · cases hrest
      exact ⟨hs₁, hkept, nofun⟩

/-- A body that opens and closes no entry, and what is closed behind it. -/
theorem closed_after {m : Script α} {cur : ℕ} {r : Except PyError α} (hs : w.toThread.Separated)
    (hm : m.Only KeepsEntries)
    (h : play rounds (do
      let a ← m
      let _ ← send (.dentClose cur)
      return a) w = (.ok r, w')) :
    Raises rounds m w ∧ w'.dents = w.dents ∨
      ¬ Raises rounds m w ∧ w'.dents = Function.update w.dents cur none := by
  have hkept : ∀ {r w₁}, play rounds m w = (.ok r, w₁) → w₁.dents = w.dents := fun hplay =>
    (play_rel (R := EntriesKept) entriesKept_of_answer hm hplay hs).2
  rcases play_bind_eq_ok h with ⟨a, w₁, hbody, hclose⟩ | ⟨e, hbody, -⟩
  · obtain ⟨reply, w₂, hanswer, hend⟩ := send_ok hclose
    cases hend
    have hdo := answer_ok.1 hanswer
    cases hdo
    refine .inr ⟨?_, ?_⟩
    · rintro ⟨e, w₂, hraise⟩
      rw [hbody] at hraise
      cases hraise
    · rw [← hkept hbody]
      rfl
  · exact .inl ⟨⟨e, w', hbody⟩, hkept hbody⟩

/-- `open_at` leaves open what was open if and only if the condition holds. -/
theorem openAt_restores {u : Uid} {path : List String} {body : ℕ → DentKind → Script α}
    {r : Except PyError α} (hs : w.toThread.Separated) (hdir : w.dents dir = some (.directory u))
    (hbody : ∀ fd kind, (body fd kind).Only KeepsEntries)
    (h : play rounds (Directory.openAt dir path body) w = (.ok r, w')) :
    SameEntries w w' ↔ Directory.Restores rounds w dir body path := by
  unfold Directory.openAt at h
  cases path with
  | nil =>
    rcases closed_after hs (hbody dir .dentDirectory) h with ⟨hraise, hdents⟩ | ⟨hraise, hdents⟩
    · exact iff_of_true (fun fd => by rw [hdents]) hraise
    · refine iff_of_false (fun hsame => ?_) hraise
      have hnone : w.dents dir = none := (hsame dir).1 (by rw [hdents, Function.update_self])
      rw [hdir] at hnone
      cases hnone
  | cons name path =>
    rw [openPath, bind_assoc] at h
    obtain ⟨reply, w₁, hanswer, hrest⟩ := send_ok h
    obtain ⟨hm, hs₁⟩ := answer_moves hs hanswer
    rcases answer_dentOpen hdir hanswer with ⟨o, e, hlists, rfl, rfl⟩ | ⟨hnot, rfl⟩
    · have hfirst : w.dents w.maxDentId = none := by
        by_contra hopen
        exact lt_irrefl _ (hs.dents _ hopen)
      have hopen : (opened w o e).dents w.maxDentId = some e := by simp [opened]
      change play rounds (openPath w.maxDentId e.kind path >>= _) (opened w o e) = _ at hrest
      cases path with
      | nil =>
        -- The one descriptor that was opened is closed, unless the body raises.
        have hiff : Directory.Restores rounds w dir body [name] ↔
            ¬ Raises rounds (body w.maxDentId e.kind) (opened w o e) := by
          refine ⟨fun h => h o e hlists, ?_⟩
          rintro hnot o' e' ⟨u', hdir', hstore', he'⟩
          obtain ⟨u₀, hdir₀, hstore, he⟩ := hlists
          cases hdir₀.symm.trans hdir'
          cases encode_inj hstore hstore'
          cases he.symm.trans he'
          exact hnot
        rw [hiff]
        rcases closed_after hs₁ (hbody _ _) hrest with ⟨hraise, hdents⟩ | ⟨hraise, hdents⟩
        · refine iff_of_false (fun hsame => ?_) (not_not.2 hraise)
          have hnone := (hsame w.maxDentId).2 hfirst
          rw [hdents, hopen] at hnone
          cases hnone
        · refine iff_of_true (fun fd => ?_) hraise
          rw [hdents]
          by_cases hfd : fd = w.maxDentId
          · subst hfd
            simp [hfirst]
          · simp [opened, hfd]
      | cons name' path =>
        -- The first descriptor is not the one that is closed.
        refine iff_of_false (fun hsame => ?_) fun h => h o e hlists
        have hnone := (hsame w.maxDentId).2 hfirst
        have hopen' : (opened w o e).dents w.maxDentId ≠ none := by simp [hopen]
        rcases play_bind_eq_ok hrest with ⟨last, w₂, hpath, hend⟩ | ⟨e', hpath, -⟩
        · obtain ⟨hs₂, hkept, hlast⟩ := openPath_opens hs₁ hpath
          have hne : w.maxDentId ≠ last.1 := by
            intro heq
            exact hopen' (heq ▸ hlast last rfl (List.cons_ne_nil _ _))
          rcases closed_after hs₂ (hbody _ _) hend with ⟨-, hdents⟩ | ⟨-, hdents⟩
          · rw [hdents, hkept _ hopen'] at hnone
            exact hopen' hnone
          · rw [hdents, Function.update_of_ne hne, hkept _ hopen'] at hnone
            exact hopen' hnone
        · obtain ⟨-, hkept, -⟩ := openPath_opens hs₁ hpath
          rw [hkept _ hopen'] at hnone
          exact hopen' hnone
    · cases hrest
      have hkept : w'.dents = w.dents := funext fun fd => hm.dent fd List.not_mem_nil
      refine iff_of_true (fun fd => by rw [hkept]) ?_
      cases path with
      | nil => exact fun o e hlists => absurd hlists (hnot o e)
      | cons name' path => exact hnot

end Paths

/-! ### Blobs -/

section Blobs

variable {w w' : World}

omit [LabelCrate] in
theorem handle_unused {t : Thread} {fd : ℕ} (hs : t.Separated) (hfd : t.maxBlobId ≤ fd) :
    t.handle fd = none := by
  by_contra hopen
  obtain ⟨x, hx⟩ := Option.ne_none_iff_exists'.1 hopen
  have := hs.lt_of_handle hx
  omega

/-- What the processor replies to a `BlobCreate`. -/
theorem exec_answer_blobCreate (size : Option ℕ) (w : World) :
    exec (answer rounds (.blobCreate size)) w =
      match w.io.head with
      | .ok _ => (.ok (.blobResult true w.maxBlobId 0 none), created w)
      | .error e => (.ok (.blobResult false 0 0 (some e)), { w with io := w.io.tail }) := by
  unfold answer SyscallProcessor.doSyscall SyscallProcessor.serve SyscallProcessor.blobCreate
    Blobstore.create
  simp only [exec_bind, exec_nextIo]
  cases w.io.head <;> rfl

/-- `create_blob` leaves open what was open if and only if the condition holds. -/
theorem createBlob_restores {size : Option ℕ} {body : ℕ → Script α} {r : Except PyError α}
    (hs : w.toThread.Separated) (hbody : ∀ fd, (body fd).Only (WritesTo fd))
    (h : play rounds (createBlob size body) w = (.ok r, w')) :
    SameBlobs w w' ↔ BlobRestores rounds w body := by
  unfold createBlob at h
  obtain ⟨reply, w₁, hanswer, hrest⟩ := send_ok h
  have hs₁ := (answer_moves hs hanswer).2
  rw [exec_answer_blobCreate] at hanswer
  rcases hio : w.io.head with e | n
  · rw [hio] at hanswer
    cases hanswer
    cases hrest
    exact iff_of_true (fun _ => .rfl) (.inl ⟨e, hio⟩)
  · rw [hio] at hanswer
    cases hanswer
    have hnew : ∀ fd ≠ w.maxBlobId, (created w).toThread.handle fd = w.toThread.handle fd := by
      intro fd hne
      simp [Thread.handle, created, hne]
    have hunused := handle_unused hs (le_refl w.maxBlobId)
    have hkept : ∀ {r w₂}, play rounds (body w.maxBlobId) (created w) = (.ok r, w₂) →
        w₂.toThread.Separated ∧ w.maxBlobId < w₂.maxBlobId ∧
          (SameBlobs w w₂ ↔ w₂.toThread.handle w.maxBlobId = none) := by
      intro r w₂ hplay
      obtain ⟨hs₂, hother, -, hmax⟩ := play_rel (R := OnlyCloses w.maxBlobId) onlyCloses_of_answer
        (hbody _) hplay hs₁
      refine ⟨hs₂, Nat.lt_of_succ_le hmax, fun hsame => (hsame _).2 hunused, fun hnone fd => ?_⟩
      by_cases hfd : fd = w.maxBlobId
      · subst hfd
        exact iff_of_true hnone hunused
      · rw [hother fd hfd, hnew fd hfd]
    have hcond : ∀ {r w₂}, play rounds (body w.maxBlobId) (created w) = (.ok r, w₂) →
        (BlobRestores rounds w body ↔ w₂.toThread.handle w.maxBlobId = none ∧
          ∀ a, r = .ok a → ∃ e, w₂.io.head = .error e) := by
      intro r w₂ hplay
      constructor
      · rintro (⟨e, he⟩ | ⟨r', w₂', hplay', hrest⟩)
        · rw [hio] at he
          cases he
        · rw [hplay] at hplay'
          cases hplay'
          exact hrest
      · exact fun hrest => .inr ⟨r, w₂, hplay, hrest⟩
    rcases play_bind_eq_ok hrest with ⟨a, w₂, hplay, hend⟩ | ⟨e, hplay, rfl⟩
    · obtain ⟨hs₂, hlt, hiff⟩ := hkept hplay
      obtain ⟨reply, w₃, hanswer, hend⟩ := send_ok hend
      cases hend
      rw [exec_answer_blobCreate] at hanswer
      rw [hcond hplay]
      rcases hio₂ : w₂.io.head with e | n₂
      · rw [hio₂] at hanswer
        cases hanswer
        exact hiff.trans ⟨fun hnone => ⟨hnone, fun _ _ => ⟨e, rfl⟩⟩, And.left⟩
      · -- Another blob is created, whatever has become of the first one.
        rw [hio₂] at hanswer
        cases hanswer
        refine iff_of_false (fun hsame => ?_) fun hfailed => ?_
        · have hnone := (hsame w₂.maxBlobId).2 (handle_unused hs hlt.le)
          simp [Thread.handle, created] at hnone
        · obtain ⟨e, he⟩ := hfailed.2 a rfl
          cases he
    · rw [hcond hplay, (hkept hplay).2.2]
      exact ⟨fun hnone => ⟨hnone, by rintro _ ⟨⟩⟩, And.left⟩

/-- What the processor replies to a `DentGetBlob`. -/
theorem answer_dentGetBlob {entry : ℕ} {reply : Pb.Reply}
    (h : exec (answer rounds (.dentGetBlob entry)) w = (.ok reply, w')) :
    ((∃ u, w.dents entry = some (.blob u)) ∧ ∃ fd len, reply = .blobResult true fd len none) ∨
      (¬ ∃ u, w.dents entry = some (.blob u)) ∧ reply = .blobResult false 0 0 none := by
  obtain ⟨reply', w₁, hserve, heq⟩ := exec_bind_eq_ok (answer_ok.1 h)
  cases heq
  unfold SyscallProcessor.serve SyscallProcessor.dentGetBlob at hserve
  rw [exec_bind_ok (exec_dent entry w)] at hserve
  split at hserve
  · next u hu =>
    obtain ⟨name, w₁, -, hserve⟩ := exec_bind_eq_ok hserve
    obtain ⟨b, w₂, -, hserve⟩ := exec_bind_eq_ok hserve
    obtain ⟨fd, w₃, -, hserve⟩ := exec_bind_eq_ok hserve
    obtain ⟨len, w₄, -, hserve⟩ := exec_bind_eq_ok hserve
    obtain ⟨_, w₅, -, hserve⟩ := exec_bind_eq_ok hserve
    cases hserve
    exact .inl ⟨⟨u, hu⟩, fd, len, rfl⟩
  · next hno =>
    cases hserve
    exact .inr ⟨fun ⟨u, hu⟩ => hno u hu, rfl⟩

/-- `get` leaves open what was open if and only if there is no blob to open. -/
theorem get_restores {entry : ℕ} {body : Blob → Script α} {r : Except PyError α}
    (hs : w.toThread.Separated) (hbody : ∀ blob, (body blob).Only KeepsBlobs)
    (h : play rounds (BlobEntry.get entry body) w = (.ok r, w')) :
    SameBlobs w w' ↔ ¬ ∃ u, w.dents entry = some (.blob u) := by
  unfold BlobEntry.get at h
  obtain ⟨reply, w₁, hanswer, hrest⟩ := send_ok h
  obtain ⟨hm, hs₁⟩ := answer_moves hs hanswer
  rcases answer_dentGetBlob hanswer with ⟨hblob, fd, len, rfl⟩ | ⟨hno, rfl⟩
  · obtain ⟨hle, -, x, hx, -⟩ := hm.blobs fd (List.mem_singleton_self fd)
    obtain ⟨-, hsame₁⟩ := play_rel (R := BlobsKept) blobsKept_of_answer (hbody _) hrest hs₁
    refine iff_of_false (fun hsame => ?_) (not_not.2 hblob)
    have hnone := (hsame₁ fd).1 ((hsame fd).2 (handle_unused hs hle))
    rw [hx] at hnone
    cases hnone
  · cases hrest
    exact iff_of_true (fun fd => by rw [hm.handle fd List.not_mem_nil]; rfl) hno

end Blobs

/-- **Context managers of the guest restore its descriptors, sometimes.** In every state of a processor and
for every body that opens and closes nothing itself: at the end of `with dir.open_at(path)` the entries that
were open are open, and no others, if and only if `Directory.Restores` holds; at the end of
`with create_blob()`, whose body writes and finalizes its blob, the blobs that were open are open, and no
others, if and only if `BlobRestores` holds; and at the end of `with entry.get()` that is so if and only if
the entry is not a blob. -/
theorem managers_restore_iff {es : List Act} {w w' : World}
    (hp : Processor w.host rounds es w.toThread) :
    (∀ (dir : ℕ) (u : Uid) (path : List String) (body : ℕ → DentKind → Script α) (r : Except PyError α),
      w.dents dir = some (.directory u) → (∀ fd kind, (body fd kind).Only KeepsEntries) →
        play rounds (Directory.openAt dir path body) w = (.ok r, w') →
          (SameEntries w w' ↔ Directory.Restores rounds w dir body path)) ∧
    (∀ (size : Option ℕ) (body : ℕ → Script α) (r : Except PyError α),
      (∀ fd, (body fd).Only (WritesTo fd)) → play rounds (createBlob size body) w = (.ok r, w') →
        (SameBlobs w w' ↔ BlobRestores rounds w body)) ∧
    ∀ (entry : ℕ) (body : Blob → Script α) (r : Except PyError α),
      (∀ blob, (body blob).Only KeepsBlobs) → play rounds (BlobEntry.get entry body) w = (.ok r, w') →
        (SameBlobs w w' ↔ ¬ ∃ u, w.dents entry = some (.blob u)) := by
  obtain ⟨hs, -⟩ := descriptors_never_confused hp
  exact ⟨fun _ _ _ _ _ hdir hbody h => openAt_restores hs hdir hbody h,
    fun _ _ _ hbody h => createBlob_restores hs hbody h,
    fun _ _ _ hbody h => get_restores hs hbody h⟩

end Python

end Faasten

/-! ### What stays open -/

namespace Faasten.LeftOpen

open Effect Python SyscallProcessor
open scoped Dc

/-- The root holds a directory, and that one a file. -/
def store : Store :=
  (Store.empty.put FS.rootRef (.encode
    (⟨publicLabel, ⟨.ofList [("a", DirEntry.directory 5)]⟩⟩ : Labeled Directory))).put
    5 (.encode (⟨publicLabel, ⟨.ofList [("b", DirEntry.file 6)]⟩⟩ : Labeled Directory))

/-- A world where no file operation fails. -/
def world : World := { World.quiet (.idle publicLabel) store with io := .const (.ok 10) }

/-- A new processor in it. -/
def start : World := (exec (SyscallProcessor.new publicLabel .dcTrue) world).2

theorem processor_start : Processor start.host 1 [] start.toThread :=
  ⟨publicLabel, .dcTrue, _, _, outcome_of_exec _ world, .nil⟩

/-- The world at the end of a script. -/
def after (m : Script Unit) : World := (play 1 m start).2

theorem ends {m : Script Unit} (h : (play 1 m start).1 = .ok (.ok ())) :
    play 1 m start = (.ok (.ok ()), after m) := Prod.ext h rfl

/-- A path of one component, with a body that does nothing. -/
theorem one_component :
    SameEntries start (after (Directory.openAt 0 ["a"] fun _ _ => pure ())) := by
  have hends : play 1 (Directory.openAt 0 ["a"] fun _ _ => pure ()) start =
      (.ok (.ok ()), after (Directory.openAt 0 ["a"] fun _ _ => pure ())) := ends (by decide +kernel)
  refine ((managers_restore_iff processor_start).1 0 FS.rootRef ["a"] (fun _ _ => pure ()) (.ok ())
    rfl (fun _ _ => trivial) hends).2 ?_
  rintro o e - ⟨e', w', hraise⟩
  cases hraise

/-- What a `with` statement with a body that does nothing is to leave. -/
def Restored (Same : World → World → Prop) (m : Script Unit) : Prop :=
  (play 1 m start).1 = .ok (.ok ()) → Same start (after m)

/-- The empty path closes the directory itself, a path of two components leaves the first one open, and the
blob that was created is left open with a second one. -/
theorem not_restored :
    ¬ Restored SameEntries (Directory.openAt 0 [] fun _ _ => pure ()) ∧
      ¬ Restored SameEntries (Directory.openAt 0 ["a", "b"] fun _ _ => pure ()) ∧
        ¬ Restored SameBlobs (createBlob none fun _ => pure ()) := by
  refine ⟨fun h => ?_, fun h => ?_, fun h => ?_⟩
  · exact absurd ((h (by decide +kernel) 0).1 (by decide +kernel)) (by decide +kernel)
  · exact absurd ((h (by decide +kernel) 1).2 (by decide +kernel)) (by decide +kernel)
  · exact absurd ((h (by decide +kernel) 2).2 (by decide +kernel)) (by decide +kernel)

end Faasten.LeftOpen
