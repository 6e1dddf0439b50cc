import Mathlib
import Faasten.Effect.Prog

/-!
# Programs that are served by programs

A client speaks to a server: each operation of the client is a program of the server, over an interface
of its own. Exceptions of the client are its own affair, and end only the client; when the server raises
one, the client never hears of it.

* `Prog.served`, the client with its server as one program, and `exec_served_bind`;
* `Prog.Only`: the client performs no other operations than these, whatever it is answered;
* `Only.served_rel`: what each answer does along a reflexive and transitive relation, the client does.
-/

namespace Effect

namespace Prog

variable {S T : Sig} {ε δ α β : Type}

/-- A client, with a program of the server for each of its operations. -/
def served (server : (o : T.Op) → Prog S ε (T.Res o)) : Prog T δ α → Prog S ε (Except δ α)
  | .pure a => .pure (.ok a)
  | .raise e => .pure (.error e)
  | .op o k => server o >>= fun r => (k r).served server

/-- The operations of the program are in `P`, whatever their results are. -/
def Only (P : S.Op → Prop) : Prog S ε α → Prop
  | .pure _ => True
  | .raise _ => True
  | .op o k => P o ∧ ∀ r, (k r).Only P

theorem Only.bind {P : S.Op → Prop} {m : Prog S ε α} {f : α → Prog S ε β} (hm : m.Only P)
    (hf : ∀ a, (f a).Only P) : (m >>= f).Only P := by
  change (m.bind f).Only P
  induction m with
  | pure a => exact hf a
  | raise e => trivial
  | op o k ih => exact ⟨hm.1, fun r => ih r (hm.2 r)⟩

theorem Only.mono {P Q : S.Op → Prop} {m : Prog S ε α} (hm : m.Only P) (h : ∀ o, P o → Q o) :
    m.Only Q := by
  induction m with
  | pure a => trivial
  | raise e => trivial
  | op o k ih => exact ⟨h o hm.1, fun r => ih r (hm.2 r)⟩

end Prog

namespace Handler

variable {S T : Sig} {σ ε δ α β : Type} {H : Handler S σ}
  {server : (o : T.Op) → Prog S ε (T.Res o)}

/-- A call, answered by the server. -/
theorem exec_served_call {o : T.Op} {s t : σ} {r : T.Res o} (h : H.exec (server o) s = (.ok r, t)) :
    H.exec ((Prog.call o : Prog T δ (T.Res o)).served server) s = (.ok (.ok r), t) :=
  H.exec_bind_ok h

/-- A client in two parts. -/
theorem exec_served_bind (m : Prog T δ α) (f : α → Prog T δ β) (s : σ) :
    H.exec ((m >>= f).served server) s =
      match H.exec (m.served server) s with
      | (.ok (.ok a), t) => H.exec ((f a).served server) t
      | (.ok (.error e), t) => (.ok (.error e), t)
      | (.error e, t) => (.error e, t) := by
  change H.exec ((m.bind f).served server) s = _
  induction m generalizing s with
  | pure a => rfl
  | raise e => rfl
  | op o k ih =>
    change H.exec (server o >>= fun r => ((k r).bind f).served server) s = _
    rcases ho : H.exec (server o) s with ⟨e | r, t⟩
    · rw [H.exec_bind_error ho, Prog.served, H.exec_bind_error ho]
    · rw [H.exec_bind_ok ho, Prog.served, H.exec_bind_ok ho, ih]

/-- The second part runs from where the first one ended. -/
theorem exec_served_bind_ok {m : Prog T δ α} {f : α → Prog T δ β} {s t : σ} {a : α}
    (h : H.exec (m.served server) s = (.ok (.ok a), t)) :
    H.exec ((m >>= f).served server) s = H.exec ((f a).served server) t := by
  rw [exec_served_bind, h]

/-- An end of two parts is an end of the second one, or an exception of the first. -/
theorem served_bind_ok {m : Prog T δ α} {f : α → Prog T δ β} {s t : σ} {r : Except δ β}
    (h : H.exec ((m >>= f).served server) s = (.ok r, t)) :
    (∃ a s', H.exec (m.served server) s = (.ok (.ok a), s') ∧
      H.exec ((f a).served server) s' = (.ok r, t)) ∨
    ∃ e, H.exec (m.served server) s = (.ok (.error e), t) ∧ r = .error e := by
  rw [exec_served_bind] at h
  rcases hm : H.exec (m.served server) s with ⟨e | e | a, s'⟩
  · rw [hm] at h
    cases h
  · rw [hm] at h
    cases h
    exact .inr ⟨e, rfl, rfl⟩
  · rw [hm] at h
    exact .inl ⟨a, s', rfl, h⟩

/-- A call, and what follows the answer. -/
theorem served_call_bind {o : T.Op} {f : T.Res o → Prog T δ β} {s t : σ} {r : Except δ β}
    (h : H.exec ((Prog.call o >>= f).served server) s = (.ok r, t)) :
    ∃ x s', H.exec (server o) s = (.ok x, s') ∧ H.exec ((f x).served server) s' = (.ok r, t) := by
  change H.exec (server o >>= fun x => (f x).served server) s = (.ok r, t) at h
  rcases ho : H.exec (server o) s with ⟨e | x, s'⟩
  · rw [H.exec_bind_error ho] at h
    cases h
  · rw [H.exec_bind_ok ho] at h
    exact ⟨x, s', rfl, h⟩

end Handler

namespace Prog

variable {S T : Sig} {σ ε δ α : Type} {H : Handler S σ} {server : (o : T.Op) → Prog S ε (T.Res o)}

/-- What each answer does along a reflexive and transitive relation, the client does. -/
theorem Only.served_rel {P : T.Op → Prop} {R : σ → σ → Prop} [Std.Refl R] [IsTrans σ R]
    (hR : ∀ o, P o → ∀ s r t, H.exec (server o) s = (.ok r, t) → R s t) {m : Prog T δ α}
    (hm : m.Only P) {s t : σ} {r : Except δ α} (h : H.exec (m.served server) s = (.ok r, t)) :
    R s t := by
  induction m generalizing s with
  | pure a =>
    cases h
    exact Std.Refl.refl _
  | raise e =>
    cases h
    exact Std.Refl.refl _
  | op o k ih =>
    obtain ⟨x, s', ho, hk⟩ := Handler.served_call_bind (f := k) h
    exact IsTrans.trans _ _ _ (hR o hm.1 s x s' ho) (ih x (hm.2 x) hk)

end Prog

end Effect
