import Mathlib
import Faasten.Monitor.Frontend

/-!
# The system

Threads of the web frontend and of the workers share one store and one scheduler. A step of the
system is one request to the frontend, one task taken up by a worker, or one syscall, made by any of
the threads; a run is any interleaving of these.

* a `login` is a user that the authentication service confirmed;
* to `delegate` and to `invoke` needs a token that was issued, or none;
* a `task` is a message that was sent to the scheduler, delivered to any worker, once or again;
* a `syscall` is any message from the guest that a thread serves.

`Sys.step_obeys` reduces a step to a program and the policy it obeys, and `Sys.invariant_step` turns
an invariant of the operations into one of the system.
-/

namespace Faasten

open Std Effect

/-- The state of the system. `tokens` are the subjects of the tokens issued so far, and
`authenticated` the users that logged in. -/
structure Sys where
  world : World
  threads : ℕ → Thread
  tokens : List Component := []
  authenticated : List Component := []

/-- What one thread does. -/
inductive Event
  | login (rounds : ℕ) (user : String)
  | delegate (rounds : ℕ) (login : Component) (request : App.Delegate)
  | invoke (rounds : ℕ) (login : Option Component) (gatePath : String) (label : Option Buckle)
      (blobs : ExtTreeMap String String compare) (payload : Bytes)
      (headers : ExtTreeMap String String compare)
  | task (message : LabeledInvoke)
  | syscall (rounds : ℕ) (sc : Pb.Syscall)

/-- Tokens and messages are not forged. -/
def Event.Enabled (s : Sys) : Event → Prop
  | .delegate _ c _ => c ∈ s.tokens
  | .invoke _ c? _ _ _ _ _ => ∀ c, c? = some c → c ∈ s.tokens
  | .task message => message ∈ s.world.invokes
  | _ => True

namespace Sys

/-- The world as thread `i` finds it. -/
def view (s : Sys) (i : ℕ) : World := s.world.withThread (s.threads i)

/-- The tokens that a request to the frontend issues. -/
def issued : Except Raised (Option Component) → List Component
  | .ok (some c) => [c]
  | _ => []

variable [LabelCrate]

/-- What the event makes the thread run, with the subject of the token it issues. -/
def program : Event → M (Option Component)
  | .login n user => do return some (← App.authenticateCas n user)
  | .delegate n login request => App.delegate n login request
  | .invoke n login gatePath label blobs payload headers => do
      let _ ← init n login gatePath label blobs payload headers
      return none
  | .task message => do
      let _ ← processTask message
      return none
  | .syscall n sc => do
      let _ ← SyscallProcessor.doSyscall n sc
      return none

/-- The users that the event authenticates. -/
def authenticates : Event → List Component
  | .login _ user => [.single ["princeton.edu", user]]
  | _ => []

/-- The system after thread `i` did `e`. -/
def step (s : Sys) (i : ℕ) (e : Event) : Sys where
  world := (exec (program e) (s.view i)).2
  threads := Function.update s.threads i (exec (program e) (s.view i)).2.toThread
  tokens := issued (exec (program e) (s.view i)).1 ++ s.tokens
  authenticated := authenticates e ++ s.authenticated

theorem view_step_self (s : Sys) (i : ℕ) (e : Event) :
    (s.step i e).view i = (exec (program e) (s.view i)).2 := by
  simp only [view, step, Function.update_self]
  rfl

theorem view_step_of_ne (s : Sys) {i j : ℕ} (e : Event) (hj : j ≠ i) :
    (s.step i e).view j = (exec (program e) (s.view i)).2.withThread (s.threads j) := by
  simp only [view, step, Function.update_of_ne hj]

/-- The systems that can be reached by events that meet `Ok` where they happen. -/
inductive Run (Ok : Sys → ℕ → Event → Prop) (s₀ : Sys) : Sys → Prop
  | start : Run Ok s₀ s₀
  | step {s : Sys} (h : Run Ok s₀ s) (i : ℕ) (e : Event) (he : e.Enabled s) (hok : Ok s i e) :
      Run Ok s₀ (s.step i e)

/-- The system after thread `i` made the syscalls `scs`, one after the other. -/
def serving (i rounds : ℕ) (scs : List Pb.Syscall) (s : Sys) : Sys :=
  scs.foldl (fun s sc => s.step i (.syscall rounds sc)) s

theorem Run.serving {Ok : Sys → ℕ → Event → Prop} {s₀ s : Sys} (h : Run Ok s₀ s) {i rounds : ℕ}
    {scs : List Pb.Syscall} (hok : ∀ s, ∀ sc ∈ scs, Ok s i (.syscall rounds sc)) :
    Run Ok s₀ (s.serving i rounds scs) := by
  induction scs generalizing s with
  | nil => exact h
  | cons sc scs ih =>
    refine ih (h.step i _ trivial (hok s sc List.mem_cons_self)) fun s sc' hsc => ?_
    exact hok s sc' (List.mem_cons_of_mem _ hsc)

/-- Under which policy an event acts. -/
def Acts (s : Sys) (i : ℕ) : Event → Policy → Prop
  | .login _ user, P => P = startPolicy (.single ["princeton.edu", user])
  | .delegate _ login request, P => ∃ q, P = startPolicy q ∧
      (q = .dcTrue ∨ (App.parseSecrecy request.component = some q ∧ implies login q))
  | .invoke _ login _ _ _ _ _, P => P = startPolicy (login.getD .dcTrue)
  | .task m, P => ∃ q, P = startPolicy q ∧ (q = .dcTrue ∨ m.gatePrivilege.bind (·.into) = some q)
  | .syscall _ sc, P => P = syscallPolicy (s.view i) sc

/-- An event runs a program that obeys the policy it acts under. -/
theorem step_obeys (s : Sys) (i : ℕ) (e : Event) :
    ∃ P, s.Acts i e P ∧ Obeys P (s.view i) (program e) := by
  cases e with
  | login n user => exact ⟨_, rfl, (obeys_authenticateCas n user).bind fun _ _ _ => .pure _⟩
  | delegate n login request =>
    by_cases hq : ∃ q, App.parseSecrecy request.component = some q ∧ implies login q
    · obtain ⟨q, hq, hi⟩ := hq
      exact ⟨_, ⟨q, rfl, .inr ⟨hq, hi⟩⟩, obeys_delegate fun q' hq' _ =>
        Option.some.inj (hq.symm.trans hq')⟩
    · exact ⟨_, ⟨.dcTrue, rfl, .inl rfl⟩, obeys_delegate fun q' hq' hi => absurd ⟨q', hq', hi⟩ hq⟩
  | invoke n login gatePath label blobs payload headers =>
    exact ⟨_, rfl, (obeys_init (fun _ => trivial) n login gatePath label blobs payload headers).bind
      fun _ _ _ => .pure _⟩
  | task m =>
    rcases hq : m.gatePrivilege.bind (·.into) with _ | q
    · exact ⟨_, ⟨.dcTrue, rfl, .inl rfl⟩, (obeys_processTask (fun _ => trivial)
        fun q h => by simp [hq] at h).bind fun _ _ _ => .pure _⟩
    · exact ⟨_, ⟨q, rfl, .inr hq⟩, (obeys_processTask (fun _ => trivial) fun q' h =>
        Option.some.inj (hq.symm.trans h)).bind fun _ _ _ => .pure _⟩
  | syscall n sc => exact ⟨_, rfl, (obeys_doSyscall n sc).bind fun _ _ _ => .pure _⟩

/-- An invariant of worlds that the operations of a step keep, for the thread that performs them and
for every other, is kept by the step. -/
theorem invariant_step {I : World → Prop} {G : World → Op → Prop} {s : Sys} {i : ℕ} {e : Event}
    (hG : handler.Always G (s.view i) (program e))
    (hown : ∀ w op, G w op → I w → I (perform op w).2)
    (hother : ∀ w op t, G w op → I w → I (w.withThread t) → I ((perform op w).2.withThread t))
    (h : ∀ j, I (s.view j)) (j : ℕ) : I ((s.step i e).view j) := by
  by_cases hj : j = i
  · subst hj
    rw [view_step_self]
    exact hG.invariant hown (h j)
  · rw [view_step_of_ne s e hj]
    exact (hG.invariant (I := fun w => I w ∧ I (w.withThread (s.threads j)))
      (fun w op hp hw => ⟨hown w op hp hw.1, hother w op _ hp hw.1 hw.2⟩) ⟨h i, h j⟩).2

end Sys

end Faasten
