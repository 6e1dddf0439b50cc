import Mathlib
import Faasten.Codec.Frames
import Faasten.Fs.Object

/-!
# The channel between a guest and its monitor

Both sides write each message behind its length, as four bytes with the most significant one first:
`Vm::send` and `Vm::wait` of `vm.rs` on the side of the monitor, `_send` and `_recv` of the Python runtime on
the side of the guest. A connection is the list of the bytes that are still to be read. The decoder of
`prost` is a parameter of `wait`.

`Vm::send` narrows the length to 32 bits without a check, where `struct.pack` in `_send` raises an
exception. `frames_recovered_iff` says what follows: the guest recovers what the monitor sends exactly if
each message is shorter than `2 ^ 32` bytes, and the monitor recovers whatever the guest sends.
-/

namespace Faasten

open Frames

/-! ### Lengths -/

/-- `n as u32` -/
def asU32 (n : ℕ) : ℕ := n % 2 ^ 32

/-- `to_be_bytes` of a `u32`, and `struct.pack(">I", n)` -/
def toBeBytes (n : ℕ) : Bytes :=
  [.ofNat (n / 2 ^ 24), .ofNat (n / 2 ^ 16), .ofNat (n / 2 ^ 8), .ofNat n]

/-- `u32::from_be_bytes`, and `struct.unpack(">I", bytes)` -/
def fromBeBytes (bytes : Bytes) : ℕ := bytes.foldl (fun n b => n * 2 ^ 8 + b.toNat) 0

theorem fromBeBytes_toBeBytes (n : ℕ) : fromBeBytes (toBeBytes (asU32 n)) = n % 2 ^ 32 := by
  simp only [fromBeBytes, toBeBytes, asU32, List.foldl_cons, List.foldl_nil, UInt8.toNat_ofNat']
  omega

/-- The header of a message. -/
def u32Header : Header UInt8 where
  size := 4
  write n := toBeBytes (asU32 n)
  read := fromBeBytes
  length_write _ := rfl

theorem u32Header_fits_iff {n : ℕ} : u32Header.Fits n ↔ n < 2 ^ 32 := by
  change fromBeBytes (toBeBytes (asU32 n)) = n ↔ _
  rw [fromBeBytes_toBeBytes]
  omega

/-! ### The monitor -/

namespace Vm

/-- `Vm::send`: what is on the connection afterwards. -/
def send (conn bytes : Bytes) : Bytes := conn ++ toBeBytes (asU32 bytes.length) ++ bytes

/-- What is on a new connection after these messages were sent. -/
def sends (ms : List Bytes) : Bytes := ms.foldl send []

/-- `read_exact` into a buffer of `n` bytes. -/
def readExact (conn : Bytes) (n : ℕ) : Option (Bytes × Bytes) :=
  if conn.length < n then none else some (conn.splitAt n)

/-- `SyscallChannelError`, as far as it is used. -/
inductive ChannelError
  | read
  | decode
  deriving DecidableEq

variable {T : Type} (decode : Bytes → Option T)

/-- What becomes of the bytes of a message. -/
def decoded (buf : Bytes) : Except ChannelError T :=
  match decode buf with
  | some ret => .ok ret
  | none => .error .decode

/-- `Vm::wait`, with what is left on the connection. -/
def wait (conn : Bytes) : Except ChannelError T × Bytes :=
  match readExact conn 4 with
  | none => (.error .read, [])
  | some (lenbuf, conn) =>
      match readExact conn (fromBeBytes lenbuf) with
      | none => (.error .read, [])
      | some (buf, conn) => (decoded decode buf, conn)

/-- Wait for a number of messages. -/
def waits : ℕ → Bytes → List (Except ChannelError T) × Bytes
  | 0, conn => ([], conn)
  | k + 1, conn => ((wait decode conn).1 :: (waits k (wait decode conn).2).1,
      (waits k (wait decode conn).2).2)

theorem sends_eq (ms : List Bytes) : sends ms = u32Header.frames ms := by
  have hfold : ∀ conn, ms.foldl send conn = conn ++ u32Header.frames ms := by
    induction ms with
    | nil => simp [Header.frames]
    | cons m ms ih =>
      intro conn
      rw [List.foldl_cons, ih, send]
      simp [Header.frames, Header.frame, u32Header]
  exact (hfold []).trans (List.nil_append _)

variable {decode}

theorem wait_of_next {conn buf rest : Bytes} (h : u32Header.next conn = some (buf, rest)) :
    wait decode conn = (decoded decode buf, rest) := by
  unfold Header.next at h
  split_ifs at h with hsize hlen
  have h4 : ¬conn.length < 4 := hsize
  have hread : ¬(conn.drop 4).length < fromBeBytes (conn.take 4) := hlen
  unfold wait readExact
  simp only [h4, if_false, List.splitAt_eq, hread]
  rw [List.splitAt_eq, Option.some_inj, Prod.mk.injEq] at h
  obtain ⟨rfl, rfl⟩ := h
  rfl

theorem waits_of_nexts {k : ℕ} {conn rest : Bytes} {ms : List Bytes}
    (h : u32Header.nexts k conn = some (ms, rest)) :
    waits decode k conn = (ms.map (decoded decode), rest) := by
  induction k generalizing conn ms with
  | zero => cases h; rfl
  | succ k ih =>
    unfold Header.nexts at h
    rcases hx : u32Header.next conn with _ | ⟨m, s⟩
    · rw [hx] at h
      cases h
    · rw [hx] at h
      rcases hy : u32Header.nexts k s with _ | ⟨ms', s'⟩
      · simp [hy] at h
      · simp only [Option.bind_eq_bind, Option.bind_some, hy, Option.pure_def, Option.some_inj,
          Prod.mk.injEq] at h
        obtain ⟨rfl, rfl⟩ := h
        unfold waits
        rw [wait_of_next hx, ih hy]
        rfl

end Vm

/-! ### The guest -/

namespace Runtime

/-- The socket of the guest: the bytes that arrive, and how many of them each call of `recv` gets to
see at most, less one. -/
structure Sock where
  incoming : Bytes
  chunks : Stream' ℕ

/-- `sock.recv(n)`: at least one byte, unless all have been read. -/
def Sock.recv (s : Sock) (n : ℕ) : Bytes × Sock :=
  (s.incoming.take (min n (s.chunks.head + 1)),
    ⟨s.incoming.drop (min n (s.chunks.head + 1)), s.chunks.tail⟩)

/-- The loop of `recvall`; `none` stands for its `None`. -/
def recvall (n : ℕ) (data : Bytes) (s : Sock) : Option (Bytes × Sock) :=
  if data.length < n then
    if (s.recv (n - data.length)).1 = [] then none
    else recvall n (data ++ (s.recv (n - data.length)).1) (s.recv (n - data.length)).2
  else some (data, s)
termination_by n - data.length
decreasing_by
  rename_i hp
  have hpos := List.length_pos_iff.2 hp
  rw [List.length_append]
  omega

/-- `_recv`, up to the bytes of the message; `none` stands for an exception. -/
def recv (s : Sock) : Option (Bytes × Sock) :=
  if (s.incoming.take 4).length = 4 then
    recvall (fromBeBytes (s.incoming.take 4)) [] { s with incoming := s.incoming.drop 4 }
  else none

/-- Receive a number of messages. -/
def recvs : ℕ → Sock → Option (List Bytes × Sock)
  | 0, s => some ([], s)
  | k + 1, s => do
      let (m, s) ← recv s
      let (ms, s) ← recvs k s
      return (m :: ms, s)

/-- `_send`: what is on the connection afterwards; `none` stands for the exception of `struct.pack`. -/
def send (conn objData : Bytes) : Option Bytes :=
  if objData.length < 2 ^ 32 then some (conn ++ toBeBytes objData.length ++ objData) else none

/-- What is on a new connection after these messages were sent. -/
def sends (ms : List Bytes) : Option Bytes := ms.foldlM send []

section

variable {n : ℕ} {data : Bytes} {s : Sock}

theorem recvall_of_le (h : n ≤ data.length) : recvall n data s = some (data, s) := by
  unfold recvall
  exact if_neg (by omega)

theorem recvall_of_nil (h : data.length < n) (hs : s.incoming = []) : recvall n data s = none := by
  unfold recvall
  rw [if_pos h, if_pos (by rw [Sock.recv, hs, List.take_nil])]

theorem recvall_of_ne_nil (h : data.length < n) (hs : s.incoming ≠ []) :
    recvall n data s =
      recvall n (data ++ (s.recv (n - data.length)).1) (s.recv (n - data.length)).2 := by
  have hp : (s.recv (n - data.length)).1 ≠ [] := by
    intro hp
    rcases List.take_eq_nil_iff.1 hp with hzero | hnil
    · omega
    · exact hs hnil
  conv_lhs => unfold recvall
  rw [if_pos h, if_neg hp]

/-- However the bytes arrive, `recvall` gets as many as it asks for, if there are so many. -/
theorem recvall_eq (n : ℕ) (data : Bytes) (s : Sock) (h : data.length ≤ n) :
    ∃ chunks, recvall n data s =
      if s.incoming.length < n - data.length then none
      else some (data ++ s.incoming.take (n - data.length),
        ⟨s.incoming.drop (n - data.length), chunks⟩) := by
  induction hk : n - data.length using Nat.strong_induction_on generalizing data s with
  | _ k ih =>
    rcases Nat.eq_zero_or_pos k with rfl | hpos
    · refine ⟨s.chunks, ?_⟩
      rw [recvall_of_le (by omega)]
      simp
    by_cases hs : s.incoming = []
    · refine ⟨s.chunks, ?_⟩
      rw [recvall_of_nil (by omega) hs, hs, if_pos (show ([] : Bytes).length < k from hpos)]
    -- a packet of `j` bytes arrives, and `k - j` are still to be read
    obtain ⟨j, hj⟩ : ∃ j, j = min k (s.chunks.head + 1) := ⟨_, rfl⟩
    have hlen : 0 < s.incoming.length := List.length_pos_iff.2 hs
    obtain ⟨i, hi⟩ : ∃ i, i = min j s.incoming.length := ⟨_, rfl⟩
    have hpacket : (data ++ s.incoming.take j).length = data.length + i := by
      rw [List.length_append, List.length_take, hi]
    obtain ⟨chunks, hih⟩ := ih (k - i) (by omega) (data ++ s.incoming.take j)
      ⟨s.incoming.drop j, s.chunks.tail⟩ (by omega) (by omega)
    refine ⟨chunks, ?_⟩
    rw [recvall_of_ne_nil (by omega) hs, hk, Sock.recv, ← hj, hih]
    simp only [List.length_drop]
    by_cases hshort : s.incoming.length < k
    · rw [if_pos (by omega), if_pos hshort]
    · have hij : i = j := by omega
      rw [if_neg (by omega), if_neg hshort, hij, List.append_assoc, ← List.take_add, List.drop_drop,
        show j + (k - j) = k by omega]

end

/-- `_recv` reads a message as a reader of frames does. -/
theorem recv_eq (s : Sock) : ∃ chunks, recv s =
    (u32Header.next s.incoming).map fun (m, rest) => (m, ⟨rest, chunks⟩) := by
  unfold recv Header.next
  change ∃ chunks, _ = Option.map _ (if s.incoming.length < 4 then none
    else if (s.incoming.drop 4).length < fromBeBytes (s.incoming.take 4) then none
    else some ((s.incoming.drop 4).splitAt (fromBeBytes (s.incoming.take 4))))
  by_cases hsize : s.incoming.length < 4
  · refine ⟨s.chunks, ?_⟩
    rw [if_pos hsize, if_neg (by rw [List.length_take]; omega)]
    rfl
  · obtain ⟨chunks, hall⟩ := recvall_eq (fromBeBytes (s.incoming.take 4)) []
      { s with incoming := s.incoming.drop 4 } (Nat.zero_le _)
    refine ⟨chunks, ?_⟩
    rw [if_neg hsize, if_pos (by rw [List.length_take]; omega), hall]
    simp only [List.length_nil, Nat.sub_zero, List.nil_append, List.splitAt_eq]
    split_ifs <;> rfl

theorem recvs_eq (k : ℕ) (s : Sock) : ∃ chunks, recvs k s =
    (u32Header.nexts k s.incoming).map fun (ms, rest) => (ms, ⟨rest, chunks⟩) := by
  induction k generalizing s with
  | zero => exact ⟨s.chunks, rfl⟩
  | succ k ih =>
    obtain ⟨chunks, hrecv⟩ := recv_eq s
    unfold recvs Header.nexts
    rw [hrecv]
    rcases u32Header.next s.incoming with _ | ⟨m, rest⟩
    · exact ⟨chunks, rfl⟩
    · obtain ⟨chunks', hrecvs⟩ := ih ⟨rest, chunks⟩
      refine ⟨chunks', ?_⟩
      simp only [Option.map_some, Option.bind_eq_bind, Option.bind_some]
      rw [hrecvs]
      rcases u32Header.nexts k rest with _ | ⟨ms, rest'⟩ <;> rfl

/-- The messages of a stream of frames are recovered exactly if their lengths fit in 32 bits. -/
theorem recvs_frames_iff (ms : List Bytes) (chunks : Stream' ℕ) :
    (∃ chunks', recvs ms.length ⟨u32Header.frames ms, chunks⟩ = some (ms, ⟨[], chunks'⟩)) ↔
      ∀ m ∈ ms, m.length < 2 ^ 32 := by
  have hfits : (∀ m ∈ ms, m.length < 2 ^ 32) ↔
      u32Header.nexts ms.length (u32Header.frames ms) = some (ms, []) := by
    have hframes := @Header.nexts_frames_iff _ u32Header [] ms
    rw [List.append_nil] at hframes
    rw [hframes]
    exact forall₂_congr fun m _ => u32Header_fits_iff.symm
  obtain ⟨chunks', hrecvs⟩ := recvs_eq ms.length ⟨u32Header.frames ms, chunks⟩
  rw [hrecvs, hfits]
  rcases u32Header.nexts ms.length (u32Header.frames ms) with _ | ⟨ms', rest⟩
  · simp
  · simp only [Option.map_some, Option.some_inj, Prod.mk.injEq, Sock.mk.injEq]
    constructor
    · rintro ⟨_, hms, hrest, -⟩
      exact ⟨hms, hrest⟩
    · rintro ⟨hms, hrest⟩
      exact ⟨chunks', hms, hrest, rfl⟩

theorem sends_eq_some {ms : List Bytes} {conn : Bytes} (h : sends ms = some conn) :
    conn = u32Header.frames ms ∧ ∀ m ∈ ms, u32Header.Fits m.length := by
  have hfold : ∀ conn₀, ms.foldlM send conn₀ = some conn →
      conn = conn₀ ++ u32Header.frames ms ∧ ∀ m ∈ ms, u32Header.Fits m.length := by
    clear h
    induction ms with
    | nil =>
      intro conn₀ h
      cases h
      exact ⟨(List.append_nil _).symm, nofun⟩
    | cons m ms ih =>
      intro conn₀ h
      rw [List.foldlM_cons] at h
      unfold send at h
      split_ifs at h with hm
      · obtain ⟨rfl, hfits⟩ := ih _ h
        refine ⟨?_, List.forall_mem_cons.2 ⟨u32Header_fits_iff.2 hm, hfits⟩⟩
        have hlen : asU32 m.length = m.length := Nat.mod_eq_of_lt hm
        simp [Header.frames, Header.frame, u32Header, hlen]
      · cases h
  exact hfold [] h

end Runtime

/-- **The guest recovers what the monitor sends if and only if each message is shorter than `2 ^ 32`
bytes**, however the bytes arrive; and the monitor recovers whatever the guest sends. -/
theorem frames_recovered_iff {T : Type} (decode : Bytes → Option T) (ms : List Bytes) :
    (∀ chunks, (∃ chunks', Runtime.recvs ms.length ⟨Vm.sends ms, chunks⟩ = some (ms, ⟨[], chunks'⟩)) ↔
      ∀ m ∈ ms, m.length < 2 ^ 32) ∧
    ∀ conn, Runtime.sends ms = some conn →
      Vm.waits decode ms.length conn = (ms.map (Vm.decoded decode), []) := by
  refine ⟨fun chunks => ?_, fun conn hconn => ?_⟩
  · rw [Vm.sends_eq]
    exact Runtime.recvs_frames_iff ms chunks
  · obtain ⟨rfl, hfits⟩ := Runtime.sends_eq_some hconn
    have hframes := @Header.nexts_frames_iff _ u32Header [] ms
    rw [List.append_nil] at hframes
    exact Vm.waits_of_nexts (hframes.2 hfits)

/-! ### A message of four gigabytes -/

namespace FourGigabytes

/-- The body of a response, say. -/
def huge : Bytes := List.replicate (2 ^ 32) 0

theorem length_huge : huge.length = 2 ^ 32 := List.length_replicate

/-- The length of the message is sent as 0, and the guest does not recover it. -/
theorem huge_lost :
    asU32 huge.length = 0 ∧ ¬∃ chunks', Runtime.recvs [huge].length ⟨Vm.sends [huge], .const 0⟩ =
      some ([huge], ⟨[], chunks'⟩) := by
  refine ⟨by rw [length_huge]; rfl, ?_⟩
  rw [Vm.sends_eq, Runtime.recvs_frames_iff]
  intro h
  have hlen := h huge (List.mem_singleton_self _)
  rw [length_huge] at hlen
  omega

/-- Two short messages are recovered on both sides, one byte at a time. -/
theorem short_recovered :
    (∃ chunks', Runtime.recvs 2 ⟨Vm.sends [[1, 2], []], .const 0⟩ =
      some ([[1, 2], []], ⟨[], chunks'⟩)) ∧
    Vm.waits some 2 [0, 0, 0, 2, 1, 2, 0, 0, 0, 0] = ([.ok [1, 2], .ok []], []) :=
  ⟨((frames_recovered_iff some [[1, 2], []]).1 (.const 0)).2 (by decide),
    (frames_recovered_iff some [[1, 2], []]).2 _ (by decide)⟩

end FourGigabytes

end Faasten
