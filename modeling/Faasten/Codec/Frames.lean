import Mathlib

/-!
# Frames

Messages are written to a stream one after the other, each behind a header of fixed size that tells its
length. A header has room for some lengths only: `H.Fits n` says that `n` is read back.

`nexts_frames_iff` is the law of such a stream: the reader recovers the messages if and only if all
their lengths fit. One that does not fit is never read as it was written, whatever follows.
-/

namespace Frames

/-- How lengths are written in front of messages. -/
structure Header (α : Type) where
  size : ℕ
  write : ℕ → List α
  read : List α → ℕ
  length_write : ∀ n, (write n).length = size

namespace Header

variable {α : Type} (H : Header α)

/-- The length is read back as it was written. -/
def Fits (n : ℕ) : Prop := H.read (H.write n) = n

/-- A message behind its header. -/
def frame (m : List α) : List α := H.write m.length ++ m

/-- Messages one after the other. -/
def frames (ms : List (List α)) : List α := ms.flatMap H.frame

/-- The first message of a stream, and the rest; `none` if the stream is too short. -/
def next (s : List α) : Option (List α × List α) :=
  if s.length < H.size then none
  else if (s.drop H.size).length < H.read (s.take H.size) then none
  else some ((s.drop H.size).splitAt (H.read (s.take H.size)))

/-- The first messages of a stream, and the rest. -/
def nexts : ℕ → List α → Option (List (List α) × List α)
  | 0, s => some ([], s)
  | k + 1, s => do
      let (m, s) ← H.next s
      let (ms, s) ← nexts k s
      return (m :: ms, s)

variable {H} {m rest s : List α} {ms : List (List α)}

theorem next_frame : H.next (H.frame m ++ rest) =
    if (m ++ rest).length < H.read (H.write m.length) then none
    else some ((m ++ rest).splitAt (H.read (H.write m.length))) := by
  have hsize : (H.write m.length).length = H.size := H.length_write _
  have htake : (H.frame m ++ rest).take H.size = H.write m.length := by
    rw [frame, List.append_assoc, ← hsize, List.take_left]
  have hdrop : (H.frame m ++ rest).drop H.size = m ++ rest := by
    rw [frame, List.append_assoc, ← hsize, List.drop_left]
  have hlong : ¬(H.frame m ++ rest).length < H.size := by
    rw [frame, List.append_assoc, List.length_append, hsize]
    omega
  rw [next, if_neg hlong, htake, hdrop]

/-- The message is read as it was written exactly if its length fits, and then nothing more is read. -/
theorem next_frame_eq : H.next (H.frame m ++ rest) = some (m, s) ↔ H.Fits m.length ∧ s = rest := by
  rw [next_frame]
  constructor
  · intro h
    split_ifs at h with hlen
    rw [List.splitAt_eq, Option.some_inj, Prod.mk.injEq] at h
    have hfits : H.Fits m.length := by
      have hread := congrArg List.length h.1
      rw [List.length_take] at hread
      unfold Fits
      omega
    refine ⟨hfits, ?_⟩
    rw [← h.2, hfits, List.drop_left]
  · rintro ⟨hfits, rfl⟩
    have hlen : ¬(m ++ s).length < m.length := by
      rw [List.length_append]
      omega
    rw [hfits, if_neg hlen, List.splitAt_eq, List.take_left, List.drop_left]

/-- **The reader recovers the messages if and only if their lengths fit in the header.** -/
theorem nexts_frames_iff :
    H.nexts ms.length (H.frames ms ++ rest) = some (ms, rest) ↔ ∀ m ∈ ms, H.Fits m.length := by
  induction ms with
  | nil => simp [nexts, frames]
  | cons m ms ih =>
    have hsplit : H.frames (m :: ms) ++ rest = H.frame m ++ (H.frames ms ++ rest) := by
      rw [frames, List.flatMap_cons, List.append_assoc]
      rfl
    rw [hsplit, List.forall_mem_cons, ← ih, List.length_cons, nexts]
    constructor
    · intro h
      rcases hx : H.next (H.frame m ++ (H.frames ms ++ rest)) with _ | ⟨m', s⟩
      · rw [hx] at h
        cases h
      · rw [hx] at h
        rcases hy : H.nexts ms.length s with _ | ⟨ms', s'⟩
        · simp [hy] at h
        · simp only [Option.bind_eq_bind, Option.bind_some, hy, Option.pure_def, Option.some_inj,
            Prod.mk.injEq, List.cons.injEq] at h
          obtain ⟨⟨rfl, rfl⟩, rfl⟩ := h
          obtain ⟨hfits, rfl⟩ := next_frame_eq.1 hx
          exact ⟨hfits, hy⟩
    · rintro ⟨hfits, h⟩
      rw [next_frame_eq.2 ⟨hfits, rfl⟩]
      simp [h]

end Header

end Frames
