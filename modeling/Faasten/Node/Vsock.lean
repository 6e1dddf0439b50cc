import Mathlib
import Faasten.Codec.Readers
import Faasten.Wire.Channel

/-!
# The socket of the node runtime

`Vsock` of `vsock/index.js`, and `_recv` of `syscalls.js`. A `read` makes a promise; the handler of the
`data` events and `read` itself look whether there are enough bytes for it, and if there are, hand its
callback to `process.nextTick`. Whoever awaits the promise goes on when the callback runs.

Bytes may arrive in any chunks, and at any moment between two callbacks. `process_caught` is the invariant
of this machine, and `process_faithful` says what it comes to: a function that awaits its reads one after
the other gets the stream piece by piece, without gaps, and waits only when there is not enough of it.
`recvs_faithful` puts this together with what the monitor sends.
-/

namespace Faasten

open Effect Frames

namespace Node

/-- `Vsock`; promises are numbered. -/
structure Vsock where
  readBuffer : Bytes := []
  readTarget : ℕ := 0
  readEvent : Option ℕ := none
  /-- the callbacks handed to `process.nextTick`: which promise they resolve, and with what -/
  ticks : List (ℕ × Bytes) := []
  /-- how many promises have been made -/
  promises : ℕ := 0

namespace Vsock

/-- `checkReadReady` -/
def checkReadReady (v : Vsock) : Vsock :=
  match v.readEvent with
  | none => v
  | some evt =>
      if v.readTarget ≤ v.readBuffer.length then
        { v with readBuffer := v.readBuffer.drop v.readTarget
                 readEvent := none
                 ticks := v.ticks ++ [(evt, v.readBuffer.take v.readTarget)] }
      else v

/-- The handler of `data` events. -/
def onData (v : Vsock) (chunk : Bytes) : Vsock :=
  { v with readBuffer := v.readBuffer ++ chunk }.checkReadReady

/-- `read`: the promise, and the socket with it. -/
def read (v : Vsock) (i : ℕ) : ℕ × Vsock :=
  (v.promises, { v with readEvent := some v.promises, readTarget := i,
                        promises := v.promises + 1 }.checkReadReady)

end Vsock

variable {ε α : Type}

/-- An asynchronous function with its socket: what it has still to do, and the promise it awaits. -/
structure Process (ε α : Type) where
  sock : Vsock
  prog : Prog (reader UInt8) ε α
  awaits : Option ℕ := none

namespace Process

/-- Run up to the next `await`. -/
def go (p : Process ε α) : Process ε α :=
  match p.prog with
  | .op i _ => { p with sock := (p.sock.read i).2, awaits := some (p.sock.read i).1 }
  | _ => p

/-- The function is called on a new socket. -/
def start (m : Prog (reader UInt8) ε α) : Process ε α := go { sock := {}, prog := m }

/-- A promise is resolved. -/
def resolve (p : Process ε α) (evt : ℕ) (buf : Bytes) : Process ε α :=
  match p.prog with
  | .op _ k => if p.awaits = some evt then go { p with prog := k buf, awaits := none } else p
  | _ => p

/-- What the event loop does next. -/
inductive Event
  | data (chunk : Bytes)
  | tick

/-- One turn of the event loop. -/
def step (p : Process ε α) : Event → Process ε α
  | .data chunk => { p with sock := p.sock.onData chunk }
  | .tick =>
      match p.sock.ticks with
      | [] => p
      | (evt, buf) :: rest => { p with sock := { p.sock with ticks := rest } }.resolve evt buf

/-- The bytes that an event brings. -/
def Event.bytes : Event → Bytes
  | .data chunk => chunk
  | .tick => []

/-- The bytes that have arrived. -/
def arrived (es : List Event) : Bytes := es.flatMap Event.bytes

/-- How far a function has come that was called as `m`, when the bytes `all` have arrived: it has ended,
it waits for more, or the callback that resolves its promise is waiting. -/
inductive Caught (m : Prog (reader UInt8) ε α) (all : Bytes) (p : Process ε α) : Prop
  | ended {d : Bytes} (hfed : Fed m d p.prog) (hend : p.prog.Ended) (hevent : p.sock.readEvent = none)
      (hticks : p.sock.ticks = []) (hall : all = d ++ p.sock.readBuffer)
  | waiting {d : Bytes} {k : Bytes → Prog (reader UInt8) ε α} {evt : ℕ}
      (hfed : Fed m d (.op (S := reader UInt8) p.sock.readTarget k))
      (hprog : p.prog = .op (S := reader UInt8) p.sock.readTarget k) (hawaits : p.awaits = some evt)
      (hevent : p.sock.readEvent = some evt) (hticks : p.sock.ticks = [])
      (hshort : p.sock.readBuffer.length < p.sock.readTarget) (hall : all = d ++ p.sock.readBuffer)
  | ready {d b : Bytes} {k : Bytes → Prog (reader UInt8) ε α} {evt : ℕ}
      (hfed : Fed m d (.op (S := reader UInt8) b.length k))
      (hprog : p.prog = .op (S := reader UInt8) b.length k) (hawaits : p.awaits = some evt)
      (hevent : p.sock.readEvent = none) (hticks : p.sock.ticks = [(evt, b)])
      (hall : all = d ++ b ++ p.sock.readBuffer)

variable {m : Prog (reader UInt8) ε α} {all d : Bytes} {p : Process ε α}

/-- Looking whether there are enough bytes for a read that is awaited. -/
theorem caught_check {k : Bytes → Prog (reader UInt8) ε α} {evt : ℕ} {v : Vsock}
    (hfed : Fed m d (.op (S := reader UInt8) v.readTarget k))
    (hprog : p.prog = .op (S := reader UInt8) v.readTarget k) (hawaits : p.awaits = some evt)
    (hevent : v.readEvent = some evt) (hticks : v.ticks = []) (hall : all = d ++ v.readBuffer) :
    Caught m all { p with sock := v.checkReadReady } := by
  unfold Vsock.checkReadReady
  rw [hevent]
  dsimp only
  split_ifs with hlen
  · have htake : (v.readBuffer.take v.readTarget).length = v.readTarget := by
      rw [List.length_take]
      omega
    refine .ready (d := d) (b := v.readBuffer.take v.readTarget) (k := k) ?_ ?_ hawaits rfl ?_ ?_
    · rw [htake]; exact hfed
    · rw [htake]; exact hprog
    · rw [hticks]; rfl
    · rw [hall, List.append_assoc, List.take_append_drop]
  · exact .waiting hfed hprog hawaits hevent hticks (not_le.1 hlen) hall

/-- Going on after what has been read so far. -/
theorem caught_go (hfed : Fed m d p.prog) (hevent : p.sock.readEvent = none)
    (hticks : p.sock.ticks = []) (hall : all = d ++ p.sock.readBuffer) : Caught m all p.go := by
  obtain ⟨sock, prog, awaits⟩ := p
  cases prog with
  | pure a => exact .ended hfed trivial hevent hticks hall
  | raise e => exact .ended hfed trivial hevent hticks hall
  | op i k =>
    exact caught_check (p := ⟨sock, .op i k, some sock.promises⟩)
      (v := { sock with readEvent := some sock.promises, readTarget := i,
                        promises := sock.promises + 1 }) hfed rfl rfl rfl hticks hall

/-- One turn of the event loop. -/
theorem Caught.step (h : Caught m all p) (e : Event) : Caught m (all ++ e.bytes) (p.step e) := by
  cases e with
  | data chunk =>
    change Caught m (all ++ chunk) { p with sock := p.sock.onData chunk }
    cases h with
    | ended hfed hend hevent hticks hall =>
      unfold Vsock.onData Vsock.checkReadReady
      simp only [hevent]
      exact .ended hfed hend rfl hticks (by rw [hall, List.append_assoc])
    | waiting hfed hprog hawaits hevent hticks hshort hall =>
      exact caught_check hfed hprog hawaits hevent hticks (by rw [hall, List.append_assoc])
    | ready hfed hprog hawaits hevent hticks hall =>
      unfold Vsock.onData Vsock.checkReadReady
      simp only [hevent]
      exact .ready hfed hprog hawaits rfl hticks (by rw [hall, List.append_assoc])
  | tick =>
    change Caught m (all ++ []) _
    rw [List.append_nil]
    unfold Process.step
    cases h with
    | ended hfed hend hevent hticks hall =>
      simp only [hticks]
      exact .ended hfed hend hevent hticks hall
    | waiting hfed hprog hawaits hevent hticks hshort hall =>
      simp only [hticks]
      exact .waiting hfed hprog hawaits hevent hticks hshort hall
    | ready hfed hprog hawaits hevent hticks hall =>
      simp only [hticks, resolve, hprog, hawaits, if_true]
      exact caught_go hfed.read hevent rfl hall

/-- After any turns of the event loop. -/
theorem process_caught (m : Prog (reader UInt8) ε α) (es : List Event) :
    Caught m (arrived es) (es.foldl step (start m)) := by
  induction es using List.reverseRecOn with
  | nil => exact caught_go .start rfl rfl rfl
  | append_singleton es e ih =>
    rw [List.foldl_append, List.foldl_cons, List.foldl_nil]
    have harrived : arrived (es ++ [e]) = arrived es ++ e.bytes := by
      simp [arrived]
    rw [harrived]
    exact ih.step e

/-- **Reads are served with the stream, in order and without gaps.** In whatever chunks the bytes arrive
and whenever they do: if the function has ended, it has ended as on the stream as a whole, whatever is
still to come, and what it has not read is in the buffer; and when no callback is waiting, it has ended
exactly if all its reads find enough in what has arrived. -/
theorem process_faithful (m : Prog (reader UInt8) ε α) (es : List Event) :
    ((es.foldl step (start m)).prog.Ended → ∀ more,
      (stream UInt8).exec m (arrived es ++ more) = (stream UInt8).exec (es.foldl step (start m)).prog
        ((es.foldl step (start m)).sock.readBuffer ++ more)) ∧
    ((es.foldl step (start m)).sock.ticks = [] →
      ((es.foldl step (start m)).prog.Ended ↔ Suffices m (arrived es))) := by
  cases process_caught m es with
  | ended hfed hend hevent hticks hall =>
    rw [hall]
    refine ⟨fun _ more => ?_, fun _ => iff_of_true hend ?_⟩
    · rw [List.append_assoc, hfed.exec]
    · exact (hfed.suffices_iff _).2 (.of_ended hend _)
  | waiting hfed hprog hawaits hevent hticks hshort hall =>
    rw [hall, hprog]
    refine ⟨False.elim, fun _ => iff_of_false id fun hs => ?_⟩
    have hs' := (hfed.suffices_iff _).1 hs
    exact absurd hs'.1 (by omega)
  | ready hfed hprog hawaits hevent hticks hall =>
    rw [hprog, hticks]
    exact ⟨False.elim, fun h => absurd h (List.cons_ne_nil _ _)⟩

/-! ### Messages -/

/-- `_recv`: the length of a message, and the message; `none` stands for an exception of
`deserializeBinary`. -/
def recv {T : Type} (deserialize : Bytes → Option T) : Prog (reader UInt8) Unit T := do
  let lenBuf ← .read 4
  let objBuff ← .read (fromBeBytes lenBuf)
  match deserialize objBuff with
  | some obj => return obj
  | none => .raise ()

/-- Receive a number of messages. -/
def recvs {T : Type} (deserialize : Bytes → Option T) : ℕ → Prog (reader UInt8) Unit (List T)
  | 0 => return []
  | n + 1 => do
      let m ← recv deserialize
      let ms ← recvs deserialize n
      return m :: ms

section Recv

variable {T : Type} {deserialize : Bytes → Option T}

/-- `_recv` on a stream that begins with a message. -/
theorem exec_recv {m : Bytes} {t : T} (hm : m.length < 2 ^ 32) (ht : deserialize m = some t)
    (rest : Bytes) :
    (stream UInt8).exec (recv deserialize) (u32Header.frame m ++ rest) = (.ok t, rest) ∧
      Suffices (recv deserialize) (u32Header.frame m ++ rest) := by
  have hframe : u32Header.frame m ++ rest = toBeBytes (asU32 m.length) ++ (m ++ rest) :=
    List.append_assoc ..
  have hlength : (toBeBytes (asU32 m.length)).length = 4 := rfl
  have hlen : fromBeBytes (toBeBytes (asU32 m.length)) = m.length := by
    rw [fromBeBytes_toBeBytes, Nat.mod_eq_of_lt hm]
  have htake : (toBeBytes (asU32 m.length) ++ (m ++ rest)).take 4 = toBeBytes (asU32 m.length) :=
    List.take_left' hlength
  have hdrop : (toBeBytes (asU32 m.length) ++ (m ++ rest)).drop 4 = m ++ rest :=
    List.drop_left' hlength
  unfold recv
  rw [hframe]
  constructor
  · rw [exec_read_bind, exec_read_bind, htake, hdrop, hlen, List.take_left, List.drop_left, ht]
    rfl
  · rw [suffices_read_bind, suffices_read_bind, htake, hdrop, hlen, List.take_left, List.drop_left,
      ht, List.length_append, List.length_append, hlength]
    exact ⟨by omega, by omega, trivial⟩

/-- Receiving the messages of a stream. -/
theorem exec_recvs {ms : List Bytes} {ts : List T} (hfits : ∀ m ∈ ms, m.length < 2 ^ 32)
    (hms : List.Forall₂ (fun m t => deserialize m = some t) ms ts) (rest : Bytes) :
    (stream UInt8).exec (recvs deserialize ms.length) (u32Header.frames ms ++ rest) = (.ok ts, rest) ∧
      Suffices (recvs deserialize ms.length) (u32Header.frames ms ++ rest) := by
  induction hms with
  | nil => exact ⟨rfl, trivial⟩
  | @cons m t ms ts ht _ ih =>
    obtain ⟨hm, hfits⟩ := List.forall_mem_cons.1 hfits
    obtain ⟨hexec, hsuff⟩ := ih hfits
    obtain ⟨hexec₁, hsuff₁⟩ := exec_recv hm ht (u32Header.frames ms ++ rest)
    have hsplit : u32Header.frames (m :: ms) ++ rest =
        u32Header.frame m ++ (u32Header.frames ms ++ rest) := by
      rw [Header.frames, List.flatMap_cons, List.append_assoc]
      rfl
    rw [hsplit, List.length_cons]
    unfold recvs
    constructor
    · rw [Handler.exec_bind_ok _ hexec₁, Handler.exec_bind_ok _ hexec]
      rfl
    · refine (suffices_bind _ _ _).2 ⟨hsuff₁, fun t' s h => ?_⟩
      cases hexec₁.symm.trans h
      refine (suffices_bind _ _ _).2 ⟨hsuff, fun ts' s' _ => trivial⟩

/-- **The node runtime receives what the monitor sends**, when each message is shorter than `2 ^ 32` bytes:
in whatever chunks the bytes arrive, and however they arrive between the callbacks of the event loop. As
long as the messages are not all there it waits; nothing that follows them is lost. -/
theorem recvs_faithful {ms : List Bytes} {ts : List T} (hfits : ∀ m ∈ ms, m.length < 2 ^ 32)
    (hms : List.Forall₂ (fun m t => deserialize m = some t) ms ts) {rest more : Bytes}
    {es : List Event} (hes : arrived es ++ more = Vm.sends ms ++ rest) :
    ((es.foldl step (start (recvs deserialize ms.length))).prog.Ended →
      (es.foldl step (start (recvs deserialize ms.length))).prog = .pure ts ∧
      (es.foldl step (start (recvs deserialize ms.length))).sock.readBuffer ++ more = rest) ∧
    ((es.foldl step (start (recvs deserialize ms.length))).sock.ticks = [] →
      ((es.foldl step (start (recvs deserialize ms.length))).prog.Ended ↔
        (Vm.sends ms).length ≤ (arrived es).length)) := by
  obtain ⟨hended, hidle⟩ := process_faithful (recvs (T := T) deserialize ms.length) es
  rw [Vm.sends_eq] at hes ⊢
  obtain ⟨hexec, -⟩ := exec_recvs hfits hms rest
  refine ⟨fun hend => ?_, fun hticks => (hidle hticks).trans ⟨fun hsuff => ?_, fun hlen => ?_⟩⟩
  · have hrun := hended hend more
    rw [hes, hexec] at hrun
    cases hprog : (es.foldl step (start (recvs deserialize ms.length))).prog with
    | pure a =>
      rw [hprog] at hrun
      cases hrun
      exact ⟨rfl, rfl⟩
    | raise e => rw [hprog] at hrun; cases hrun
    | op n k => rw [hprog] at hend; exact hend.elim
  · -- what the run leaves of the bytes that have arrived comes before `more`
    have hleft := hsuff.exec_append more
    rw [hes, hexec, Prod.mk.injEq] at hleft
    have hlen := congrArg List.length hes
    rw [hleft.2, List.length_append, List.length_append, List.length_append] at hlen
    omega
  · obtain ⟨x, hx⟩ : u32Header.frames ms <+: arrived es :=
      List.prefix_of_prefix_length_le (List.prefix_append _ rest) ⟨more, hes⟩ hlen
    rw [← hx]
    exact (exec_recvs hfits hms x).2

end Recv

end Process

end Node

/-! ### Two messages in three pieces -/

namespace ThreePieces

open Node Process

/-- The bytes of two messages and one more byte, with the turns of the event loop between them. -/
def events : List Event :=
  [.data [0, 0, 0], .tick, .data [2, 1], .tick, .data [2, 0, 0, 0, 0, 7], .tick, .tick, .tick]

/-- Both messages are received, and the byte that follows them is in the buffer. -/
theorem pieces_received :
    (events.foldl step (start (recvs some 2))).prog = .pure [[1, 2], []] ∧
      (events.foldl step (start (recvs some 2))).sock.readBuffer ++ [] = [7] :=
  have hms : List.Forall₂ (fun m t => some m = some t) [[1, 2], []] [[1, 2], ([] : Bytes)] :=
    .cons rfl (.cons rfl .nil)
  have hes : arrived events ++ [] = Vm.sends [[1, 2], []] ++ [7] := rfl
  (recvs_faithful (by decide) hms hes).1 trivial

end ThreePieces

end Faasten
