import Mathlib
import Faasten.DcLabels
import Faasten.Monitor.Floating
import Faasten.System

/-!
# Requests to external endpoints

A service is a way out of the system: `DentInvoke` on it sends the payload to an external endpoint.
The privilege of the service says which secrets it may declassify, and its `taint` what the endpoint
may know anyway. Just before the request is sent, the label of the thread is downgraded by the
privilege of the service; what remains of its secrecy is not looked at.

* `SendsDeclassified` is what an invocation should do: a request leaves only under a label that the
  service may send, and a thread that carries more is refused.
* `Leaks` is when it does not: the thread carries more, and yet nothing stops the request.
* `requests_declassified`: an invocation does what it should if and only if it does not leak; and in
  a run without leaks every request that ever left was one that its service may send.
-/

namespace Faasten

open Std Effect SyscallProcessor

section Send

variable {w : World} {parameters : ExtTreeMap String String compare}

/-- The request that `http_send` builds to the url. -/
def Service.request (s : Service) (url : String) (body : Option Bytes) : HttpRequest :=
  { url, verb := s.verb, headers := s.headers, body }

theorem exec_httpSend_unformatted {s : Service} (h : w.host.strfmt s.url parameters = none)
    (body : Option Bytes) : exec (httpSend s body parameters) w = (.ok none, w) := by
  unfold httpSend
  rw [exec_bind_ok (exec_host w), h]
  rfl

theorem exec_httpSend_badHeader {s : Service} {url : String}
    (h : w.host.strfmt s.url parameters = some url)
    (hh : ¬ s.headers.toList.all fun (a, b) => w.host.validHeader a b) (body : Option Bytes) :
    exec (httpSend s body parameters) w = (.error .panic, w) := by
  unfold httpSend
  rw [exec_bind_ok (exec_host w), h]
  simp only [hh]
  rfl

theorem exec_httpSend_badUrl {s : Service} {url : String}
    (h : w.host.strfmt s.url parameters = some url)
    (hh : s.headers.toList.all fun (a, b) => w.host.validHeader a b) (hu : ¬ w.host.validUrl url)
    (body : Option Bytes) : exec (httpSend s body parameters) w = (.ok none, w) := by
  unfold httpSend
  rw [exec_bind_ok (exec_host w), h]
  simp only [hh, hu]
  rfl

theorem mem_trace_httpSend {s : Service} {url : String} (h : s.Builds w.host parameters url)
    (body : Option Bytes) :
    (w, Op.http (s.request url body)) ∈ handler.trace (httpSend s body parameters) w := by
  obtain ⟨hf, hh, hu⟩ := h
  refine handler.mem_trace_bind_ok (exec_host w) ?_
  simp only [hf, hh, hu]
  exact List.mem_singleton.2 rfl

end Send

section Requests

variable [LabelCrate]

/-- The service may send what has this label: its privilege and the secrecy of its endpoint
together imply the secrecy of the label. -/
def Service.MaySend (s : Service) (l : Buckle) : Prop :=
  implies (LabelCrate.and s.privilege s.taint.secrecy) l.secrecy

/-- The label of a thread that has read the service. -/
def World.carried (w : World) (s : Labeled Service) : Buckle := lub s.label w.currentLabel

/-- The call sends requests only under labels that the service may send; and if the thread carries
more than that, the call sends none and is answered without success. -/
structure SendsDeclassified (rounds : ℕ) (sc : Pb.Syscall) (w : World) (s : Labeled Service) :
    Prop where
  sent : ∀ x ∈ handler.trace (doSyscall rounds sc) w, ∀ r, x.2 = .http r →
    s.data.MaySend x.1.currentLabel
  refused : ¬ s.data.MaySend (w.carried s) →
    (∀ x ∈ handler.trace (doSyscall rounds sc) w, ∀ r, x.2 ≠ .http r) ∧
    ∃ fd data headers, (exec (doSyscall rounds sc) w).1 =
      .ok (.sent (.dentInvokeResult false fd data headers))

/-- The thread passes the clearance of the service and carries more than the service may send; the
url can be formatted, and it is valid, or else a header is not, at which the thread panics. -/
structure Leaks (w : World) (s : Labeled Service)
    (parameters : ExtTreeMap String String compare) : Prop where
  clearance : implies w.privilege s.data.invokerIntegrityClearance
  url : ∃ url, w.host.strfmt s.data.url parameters = some url ∧
    ((s.data.headers.toList.all fun (a, b) => w.host.validHeader a b) → w.host.validUrl url)
  carried : ¬ s.data.MaySend (w.carried s)

section Call

variable {w : World} {s : Labeled Service} {fd : ℕ} {u : Uid} {sync toblob : Bool} {payload : Bytes}
  {parameters : ExtTreeMap String String compare}

/-- A service that may send a label may send it downgraded by its own privilege, and conversely. -/
theorem maySend_downgrade [LawfulDowngrade] (s : Service) (l : Buckle) :
    s.MaySend (downgrade l s.privilege) ↔ s.MaySend l := by
  unfold Service.MaySend
  rw [LawfulDowngrade.implies_downgrade]

/-- The world in which the request is sent: the service has been read, and the label downgraded. -/
def World.sending (w : World) (s : Labeled Service) : World :=
  (w.relabel (w.carried s)).relabel (downgrade (w.carried s) s.data.privilege)

theorem exec_service_read (hu : w.store u = some (.encode s)) :
    exec (Service.toInvokable u) w = (.ok s.data, w.relabel (w.carried s)) :=
  ObjectRef.exec_read_encode hu

theorem exec_service_declassify (w : World) (s : Labeled Service) :
    exec (declassifyWith s.data.privilege) (w.relabel (w.carried s)) =
      (.ok (downgrade (w.carried s) s.data.privilege), w.sending s) := rfl

theorem exec_invokeService_refused (hu : w.store u = some (.encode s))
    (hc : ¬ implies w.privilege s.data.invokerIntegrityClearance) :
    exec (invokeService u payload toblob parameters) w = (.ok {}, w.relabel (w.carried s)) := by
  unfold invokeService
  rw [exec_bind_ok (exec_service_read hu), exec_bind_ok (exec_getPrivilege _),
    World.relabel_privilege, if_neg hc]
  rfl

section Cleared

variable (hu : w.store u = some (.encode s))
  (hc : implies w.privilege s.data.invokerIntegrityClearance)

include hu hc

theorem exec_invokeService_unsent
    (h : exec (httpSend s.data (some payload) parameters) (w.sending s) = (.ok none, w.sending s)) :
    (exec (invokeService u payload toblob parameters) w).1 = .ok {} := by
  unfold invokeService
  rw [exec_bind_ok (exec_service_read hu), exec_bind_ok (exec_getPrivilege _),
    World.relabel_privilege, if_pos hc, exec_bind_ok (exec_service_declassify w s), exec_bind_ok h]
  rfl

theorem exec_invokeService_panic
    (h : exec (httpSend s.data (some payload) parameters) (w.sending s) =
      (.error .panic, w.sending s)) :
    (exec (invokeService u payload toblob parameters) w).1 = .error .panic := by
  unfold invokeService
  rw [exec_bind_ok (exec_service_read hu), exec_bind_ok (exec_getPrivilege _),
    World.relabel_privilege, if_pos hc, exec_bind_ok (exec_service_declassify w s), exec_bind_error h]

theorem mem_trace_invokeService {x : World × Op}
    (hx : x ∈ handler.trace (httpSend s.data (some payload) parameters) (w.sending s)) :
    x ∈ handler.trace (invokeService u payload toblob parameters) w := by
  refine handler.mem_trace_bind_ok (exec_service_read hu)
    (handler.mem_trace_bind_ok (exec_getPrivilege _) ?_)
  rw [World.relabel_privilege, if_pos hc]
  exact handler.mem_trace_bind_ok (exec_service_declassify w s) (handler.mem_trace_bind_left hx)

end Cleared

/-! ### The syscall around the invocation -/

theorem mem_trace_dentInvoke (rounds : ℕ) (hfd : w.dents fd = some (.service u)) {x : World × Op}
    (hx : x ∈ handler.trace (invokeService u payload toblob parameters) w) :
    x ∈ handler.trace (doSyscall rounds (.dentInvoke fd sync payload toblob parameters)) w := by
  refine handler.mem_trace_bind_left (handler.mem_trace_bind_ok (exec_dent fd w) ?_)
  rw [hfd]
  exact handler.mem_trace_bind_left hx

theorem exec_dentInvoke_service (rounds : ℕ) (hfd : w.dents fd = some (.service u)) :
    (exec (doSyscall rounds (.dentInvoke fd sync payload toblob parameters)) w).1 =
      (exec (invokeService u payload toblob parameters) w).1.map fun d => .sent d.reply := by
  change (exec (dentInvoke rounds fd sync payload toblob parameters >>= _) w).1 = _
  rw [exec_bind]
  unfold dentInvoke
  rw [exec_bind_ok (exec_dent fd w), hfd]
  simp only [exec_bind]
  rcases exec (invokeService u payload toblob parameters) w with ⟨e | d, w'⟩ <;> rfl

/-- What a request is sent under, if the call sends one. -/
theorem label_of_http (rounds : ℕ) (hfd : w.dents fd = some (.service u))
    (hu : w.store u = some (.encode s)) {x : World × Op} {r : HttpRequest}
    (hx : x ∈ handler.trace
      (doSyscall rounds (.dentInvoke fd sync payload toblob parameters)) w) (hr : x.2 = .http r) :
    implies w.privilege s.data.invokerIntegrityClearance ∧ s.data.Builds w.host parameters r.url ∧
      x.1.currentLabel = downgrade (w.carried s) s.data.privilege := by
  have hp := obeys_doSyscall rounds (.dentInvoke fd sync payload toblob parameters) x hx
  rw [hr] at hp
  obtain ⟨s', ⟨_, _, _, _, _, u', ⟨⟩, hfd', hu', hc, hb⟩, hl⟩ := hp
  cases hfd.symm.trans hfd'
  cases hu.symm.trans hu'
  exact ⟨hc, hb, hl⟩

/-- **An invocation does what it should if and only if it does not leak.** -/
theorem sendsDeclassified_iff [LawfulDowngrade] (rounds : ℕ)
    (hfd : w.dents fd = some (.service u)) (hu : w.store u = some (.encode s)) :
    SendsDeclassified rounds (.dentInvoke fd sync payload toblob parameters) w s ↔
      ¬ Leaks w s parameters := by
  constructor
  · rintro ⟨-, hrefused⟩ ⟨hc, ⟨url, hurl, hvalid⟩, hcarried⟩
    obtain ⟨hnone, fd', data, headers, hreply⟩ := hrefused hcarried
    by_cases hh : s.data.headers.toList.all fun (a, b) => w.host.validHeader a b
    · -- the request is built, and so it is sent
      have hsend := mem_trace_httpSend (w := w.sending s) ⟨hurl, hh, hvalid hh⟩ (some payload)
      exact hnone _ (mem_trace_dentInvoke rounds hfd (mem_trace_invokeService hu hc hsend)) _ rfl
    · -- the header panics, and so there is no reply
      rw [exec_dentInvoke_service rounds hfd, exec_invokeService_panic hu hc
        (exec_httpSend_badHeader (w := w.sending s) hurl hh _)] at hreply
      cases hreply
  · intro hleak
    refine ⟨fun x hx r hr => ?_, fun hcarried => ⟨fun x hx r hr => ?_, none, none, ∅, ?_⟩⟩
    · obtain ⟨hc, ⟨hurl, hh, hvalid⟩, hl⟩ := label_of_http rounds hfd hu hx hr
      rw [hl, maySend_downgrade]
      by_contra hcarried
      exact hleak ⟨hc, ⟨_, hurl, fun _ => hvalid⟩, hcarried⟩
    · obtain ⟨hc, ⟨hurl, hh, hvalid⟩, -⟩ := label_of_http rounds hfd hu hx hr
      exact hleak ⟨hc, ⟨_, hurl, fun _ => hvalid⟩, hcarried⟩
    · rw [exec_dentInvoke_service rounds hfd]
      by_cases hc : implies w.privilege s.data.invokerIntegrityClearance
      · have hunsent : exec (httpSend s.data (some payload) parameters) (w.sending s) =
            (.ok none, w.sending s) := by
          rcases hurl : w.host.strfmt s.data.url parameters with _ | url
          · exact exec_httpSend_unformatted (w := w.sending s) hurl _
          · by_cases hh : (s.data.headers.toList.all fun (a, b) => w.host.validHeader a b) →
                w.host.validUrl url
            · exact absurd ⟨hc, ⟨url, hurl, hh⟩, hcarried⟩ hleak
            · obtain ⟨hh, hv⟩ := Classical.not_imp.1 hh
              exact exec_httpSend_badUrl (w := w.sending s) hurl hh hv _
        rw [exec_invokeService_unsent hu hc hunsent]
        rfl
      · rw [exec_invokeService_refused hu hc]
        rfl

end Call

/-! ### Runs -/

/-- The syscall invokes a service, and leaks. -/
def Pb.Syscall.Leaks (sc : Pb.Syscall) (w : World) : Prop :=
  ∃ fd sync payload toblob parameters u s, sc = .dentInvoke fd sync payload toblob parameters ∧
    w.dents fd = some (.service u) ∧ w.store u = some (.object (.service s)) ∧
    Faasten.Leaks w s parameters

namespace Sys

/-- The event is not a syscall that leaks. -/
def NoLeak (s : Sys) (i : ℕ) : Event → Prop
  | .syscall _ sc => ¬ sc.Leaks (s.view i)
  | _ => True

/-- In a run without leaks, the request was sent by a syscall that invoked a service, and the
service may send what is labeled `l`. -/
def Declassified (s₀ : Sys) (r : HttpRequest) (l : Buckle) : Prop :=
  ∃ (s : Sys) (i : ℕ) (sc : Pb.Syscall) (svc : Labeled Service),
    Run NoLeak s₀ s ∧ sc.Emits (s.view i) svc r ∧ svc.data.MaySend l

variable {s₀ s : Sys}

/-- What an event that does not leak sends. -/
theorem Acts.declassified [LawfulDowngrade] {i : ℕ} {e : Event} {P : Policy} (h : Run NoLeak s₀ s)
    (hA : s.Acts i e P) (hok : s.NoLeak i e) {w : World} {r : HttpRequest} (hr : P.sends w r) :
    Declassified s₀ r w.currentLabel := by
  cases e with
  | login n user => cases hA; exact hr.elim
  | delegate n login request => obtain ⟨q, rfl, -⟩ := hA; exact hr.elim
  | invoke => cases hA; exact hr.elim
  | task m => obtain ⟨q, rfl, -⟩ := hA; exact hr.elim
  | syscall n sc =>
    cases hA
    obtain ⟨svc, hemit, hl⟩ := hr
    refine ⟨s, i, sc, svc, h, hemit, ?_⟩
    rw [hl, maySend_downgrade]
    by_contra hcarried
    obtain ⟨fd, sync, payload, toblob, parameters, u, hsc, hfd, hu, hc, hurl, -, hvalid⟩ := hemit
    exact hok ⟨fd, sync, payload, toblob, parameters, u, svc, hsc, hfd, hu, hc,
      ⟨_, hurl, fun _ => hvalid⟩, hcarried⟩

/-- One operation adds to the requests only what the policy lets it send. -/
theorem requests_perform {P : Policy} {Good : HttpRequest → Buckle → Prop} {w : World} {op : Op}
    (hP : ∀ w r, P.sends w r → Good r w.currentLabel) (h : Permits P w op)
    (hw : ∀ x ∈ w.requests, Good x.1 x.2) : ∀ x ∈ (perform op w).2.requests, Good x.1 x.2 := by
  cases op with
  | http r =>
    intro x hx
    rcases List.mem_append.1 hx with hx | hx
    · exact hw x hx
    · obtain rfl := List.mem_singleton.1 hx
      exact hP w r h
  | add v st => rw [perform_add]; split_ifs <;> exact hw
  | cas v e st => rw [perform_cas]; split_ifs <;> exact hw
  | schedWrite m => rw [perform_schedWrite]; split_ifs <;> exact hw
  | _ => exact hw

/-- In a run without leaks every request that has left is one that its service may send. -/
theorem declassified_of_run [LawfulDowngrade] (h₀ : s₀.world.requests = []) (h : Run NoLeak s₀ s) :
    ∀ x ∈ s.world.requests, Declassified s₀ x.1 x.2 := by
  induction h with
  | start => simp [h₀]
  | @step s h i e _ hok ih =>
    obtain ⟨P, hA, hobeys⟩ := step_obeys s i e
    exact hobeys.invariant (I := fun w => ∀ x ∈ w.requests, Declassified s₀ x.1 x.2)
      (fun w op hp hw => requests_perform (fun w r hr => Acts.declassified h hA hok hr) hp hw) ih

/-- **Secrets leave only through services that may declassify them**, exactly when no invocation
leaks. In any state, an invocation of a service sends only what the service may send, and refuses
a thread that carries more, if and only if it does not leak. In every state that the system reaches
without leaks, every request that has left was sent by an invocation of a service that may send what
the thread carried at that moment. -/
theorem requests_declassified [LawfulDowngrade] :
    (∀ rounds fd sync payload toblob parameters (w : World) u svc,
      w.dents fd = some (.service u) → w.store u = some (.object (.service svc)) →
      (SendsDeclassified rounds (.dentInvoke fd sync payload toblob parameters) w svc ↔
        ¬ Leaks w svc parameters)) ∧
    ∀ s₀ s : Sys, s₀.world.requests = [] → Run NoLeak s₀ s →
      ∀ x ∈ s.world.requests, Declassified s₀ x.1 x.2 :=
  ⟨fun rounds _ _ _ _ _ _ _ _ hfd hu => sendsDeclassified_iff rounds hfd hu,
    fun _ _ h₀ h => declassified_of_run h₀ h⟩

end Sys

end Requests

/-! ### A secret that leaves

A function without privilege reads a secret of `alice`, and then invokes a service that anyone may
invoke, has no privilege, and talks to a public endpoint. -/

namespace Exfiltration

open scoped Dc

/-- A service without privilege, at a public endpoint. -/
def service : Labeled Service :=
  ⟨publicLabel,
    { privilege := .dcTrue, invokerIntegrityClearance := .dcTrue, taint := publicLabel
      url := "u", verb := .post, headers := ∅ }⟩

/-- The label of the secret. -/
def secret : Buckle := ⟨.single ["alice"], .dcTrue⟩

/-- A public directory with the service and the secret. -/
def store : Store :=
  ((Store.empty.put 0 (.encode (⟨publicLabel, ⟨.ofList
      [("svc", DirEntry.service 1), ("secret", DirEntry.file 2)]⟩⟩ : Labeled Directory))).put
    1 (.encode service)).put
    2 (.encode (⟨secret, [42]⟩ : Labeled File))

/-- The function starts, public and without privilege. -/
def start : World := (exec (new publicLabel .dcTrue) (.quiet (.idle publicLabel) store)).2

/-- It has opened the service as 1 and the secret as 2. -/
def opened : World :=
  (exec (doSyscall 1 (.dentOpen 0 (some (.name "secret"))))
    (exec (doSyscall 1 (.dentOpen 0 (some (.name "svc")))) start).2).2

/-- It has read the secret. -/
def tainted : World := (exec (doSyscall 1 (.dentRead 2)) opened).2

/-- Before it has read the secret it sends a request, as it may. -/
theorem public_request_declassified :
    (exec (doSyscall 1 (.dentInvoke 1 false [42] false ∅)) opened).2.requests.length = 1 ∧
      SendsDeclassified 1 (.dentInvoke 1 false [42] false ∅) opened service := by
  have hmay : service.data.MaySend (opened.carried service) := by
    unfold Service.MaySend
    decide
  exact ⟨by decide, (Sys.requests_declassified.1 1 1 false [42] false ∅ opened 1
    service (by decide) (by decide)).2 fun h => h.carried hmay⟩

/-- Once it has read the secret it sends the request just the same. -/
theorem secret_request_sent :
    ThreadRun (fun _ _ => True) start tainted ∧
      ¬ service.data.MaySend (tainted.carried service) ∧
      (exec (doSyscall 1 (.dentInvoke 1 false [42] false ∅)) tainted).2.requests =
        [({ url := "u", verb := .post, headers := ∅, body := some [42] }, secret)] ∧
      ¬ SendsDeclassified 1 (.dentInvoke 1 false [42] false ∅) tainted service := by
  have hmay : ¬ service.data.MaySend (tainted.carried service) := by
    unfold Service.MaySend
    decide
  refine ⟨.syscall (.syscall (.syscall .start 1 _ trivial) 1 _ trivial) 1 _ trivial, hmay,
    by decide, fun h => ?_⟩
  rw [sendsDeclassified_iff (u := 1) 1 (by decide) (by decide)] at h
  exact h ⟨by decide, ⟨"u", rfl, fun _ => rfl⟩, hmay⟩

end Exfiltration

end Faasten
