import Mathlib
import Faasten.DcLabels
import Faasten.Python.Runtime

/-!
# Reading a blob from a guest

`Blob.read(size)` asks the host for what is missing until it has all of it or the host has nothing more;
`Blob.read()` asks once, for a block. The host gives a part of what it is asked for, as much as the file
of the blob gives it. `reads_exact_iff` says for all sequences of reads and seeks, and all such parts, when
a read returns the bytes at its offset and moves the offset behind them, and that reads until an empty one
give the rest of the blob.
-/

namespace Faasten

open Effect

namespace Python

variable [LabelCrate] {rounds : ℕ}

/-! ### What is to hold -/

/-- The blob is open under the descriptor, and its file gives at least one byte at each read. -/
structure Readable (b : OpenBlob) (fd : ℕ) (w : World) : Prop where
  length_lt : b.content.length < 2 ^ 64
  blobs : w.blobs fd = some b
  io : ∀ k, ∃ n, 1 ≤ n ∧ w.io.get k = .ok n

/-- What a read is to return at an offset of the content: all that was asked for and is there, or, when no
size was given, at most a block, and something unless the end is reached. -/
def Extract (content : Bytes) (offset : ℕ) : Option ℤ → Bytes → Prop
  | some size, data => data = (content.drop offset).take size.toNat
  | none, data => ∃ k ≤ 4096, data = (content.drop offset).take k ∧
      (offset < content.length → data ≠ [])

/-- The condition under which it does: the host can make a buffer of the size, and the offset can be sent.
A read of nothing sends nothing. -/
def Blob.Fits (blob : Blob) : Option ℤ → Prop
  | some size => 0 < size → size < 2 ^ 63 ∧ blob.offset < 2 ^ 64
  | none => blob.offset < 2 ^ 64

section Request

variable (rounds) {b : OpenBlob} {w : World} {blob : Blob}

omit [LabelCrate] in
theorem Readable.tail {fd : ℕ} (h : Readable b fd w) :
    Readable b fd { w with io := w.io.tail } :=
  ⟨h.length_lt, h.blobs, fun k => h.io (k + 1)⟩

omit [LabelCrate] in
theorem uint64_ok {n : ℕ} (h : n < 2 ^ 64) : uint64 n = pure n := if_pos h

omit [LabelCrate] in
theorem uint64_large {n : ℕ} (h : ¬ n < 2 ^ 64) : uint64 n = throwPy .valueError := if_neg h

omit [LabelCrate] in
theorem optionalUint64_ok {n : ℕ} (h : n < 2 ^ 64) : optionalUint64 (some n) = pure (some n) := by
  change uint64 n >>= _ = _
  rw [uint64_ok h]
  rfl

omit [LabelCrate] in
theorem optionalUint64_large {n : ℕ} (h : ¬ n < 2 ^ 64) :
    optionalUint64 (some n) = throwPy .valueError := by
  change uint64 n >>= _ = _
  rw [uint64_large h]
  rfl

/-- The host fills a part of the buffer. -/
theorem exec_answer_blobRead {fd : ℕ} (h : Readable b fd w) (offset : ℕ) (length : Option ℕ)
    (hlen : length.getD 4096 < 2 ^ 63) :
    ∃ n, 1 ≤ n ∧ exec (answer rounds (.blobRead fd (some offset) length)) w =
      (.ok (.blobResult true fd ((b.content.drop offset).take (min n (length.getD 4096))).length
        (some ((b.content.drop offset).take (min n (length.getD 4096))))),
        { w with io := w.io.tail }) := by
  obtain ⟨n, hn, hio⟩ := h.io 0
  refine ⟨n, hn, ?_⟩
  have hread : exec (b.readAt offset (length.getD 4096)) w =
      (.ok (.ok ((b.content.drop offset).take (min n (length.getD 4096)))),
        { w with io := w.io.tail }) := by
    unfold OpenBlob.readAt
    have hhead : w.io.head = .ok n := hio
    rw [exec_bind_ok (exec_nextIo w), hhead]
    simp only [List.take_take]
    rfl
  have hserve : exec (SyscallProcessor.blobRead fd offset (length.getD 4096)) w =
      (.ok (.blobResult true fd ((b.content.drop offset).take (min n (length.getD 4096))).length
        (some ((b.content.drop offset).take (min n (length.getD 4096))))),
        { w with io := w.io.tail }) := by
    unfold SyscallProcessor.blobRead
    rw [exec_bind_ok (exec_inspect _ w)]
    simp only [h.blobs, if_pos hlen]
    rw [exec_bind_ok hread]
    rfl
  exact answer_ok.2 (exec_bind_ok hserve)

/-- A buffer that is too large makes the host panic. -/
theorem exec_answer_blobRead_large {fd : ℕ} (h : Readable b fd w) (offset : ℕ) {length : ℕ}
    (hlen : ¬ length < 2 ^ 63) :
    exec (answer rounds (.blobRead fd (some offset) (some length))) w = (.error .panic, w) := by
  have hserve : exec (SyscallProcessor.blobRead fd offset length) w = (.error .panic, w) := by
    unfold SyscallProcessor.blobRead
    rw [exec_bind_ok (exec_inspect _ w)]
    simp only [h.blobs, if_neg hlen]
    rfl
  have hdo : exec (SyscallProcessor.doSyscall rounds (.blobRead fd (some offset) (some length))) w =
      (.error .panic, w) := exec_bind_error hserve
  exact exec_bind_error hdo

/-- One request returns a part of what was asked for, and something unless the end is reached. -/
theorem exec_blobRead (h : Readable b blob.fd w) (hoff : blob.offset < 2 ^ 64) (length : Option ℕ)
    (hlen : length.getD 4096 < 2 ^ 63) :
    ∃ n, 1 ≤ n ∧ play rounds (blob.blobRead length) w =
      (.ok (.ok ((b.content.drop blob.offset).take (min n (length.getD 4096)))),
        { w with io := w.io.tail }) := by
  obtain ⟨n, hn, hanswer⟩ := exec_answer_blobRead rounds h blob.offset length hlen
  refine ⟨n, hn, ?_⟩
  have hfield : optionalUint64 length = pure length := by
    cases length with
    | none => rfl
    | some k =>
      have hk : k < 2 ^ 64 := by
        have : k < 2 ^ 63 := hlen
        omega
      exact optionalUint64_ok hk
  unfold Blob.blobRead
  rw [uint64_ok hoff, pure_bind, hfield, pure_bind, play_send hanswer]
  rfl

/-- A request that is returned fits. -/
theorem lt_of_blobRead {length : Option ℕ} {data : Bytes} {w' : World} (h : Readable b blob.fd w)
    (hread : play rounds (blob.blobRead length) w = (.ok (.ok data), w')) :
    blob.offset < 2 ^ 64 ∧ length.getD 4096 < 2 ^ 63 := by
  by_cases hoff : blob.offset < 2 ^ 64
  · refine ⟨hoff, ?_⟩
    by_contra hlen
    cases length with
    | none => exact hlen (by decide)
    | some k =>
      unfold Blob.blobRead at hread
      rw [uint64_ok hoff, pure_bind] at hread
      by_cases hk : k < 2 ^ 64
      · rw [optionalUint64_ok hk, pure_bind] at hread
        obtain ⟨x, w₁, hanswer, -⟩ := send_ok hread
        have hpanic := exec_answer_blobRead_large rounds h blob.offset hlen
        rw [Option.getD_some] at hpanic
        rw [hpanic] at hanswer
        cases hanswer
      · rw [optionalUint64_large hk] at hread
        cases hread
  · unfold Blob.blobRead at hread
    rw [uint64_large hoff] at hread
    cases hread

end Request

/-! ### Reads -/

section Reads

variable (rounds) {b : OpenBlob} {w w' : World} {blob blob' : Blob} {data : Bytes}

omit [LabelCrate] in
/-- A list up to some length is a shorter part of it with what comes behind. -/
theorem take_eq_append (x : Bytes) {m size : ℕ} (hm : m ≤ size) :
    x.take size = x.take m ++ (x.drop (x.take m).length).take (size - (x.take m).length) := by
  rcases le_total m x.length with hle | hle
  · rw [List.length_take_of_le hle, ← List.take_add, Nat.add_sub_cancel' hm]
  · rw [List.take_of_length_le hle, List.drop_length, List.take_nil, List.append_nil,
      List.take_of_length_le (hle.trans hm)]

omit [LabelCrate] in
theorem eq_nil_of_take {x : Bytes} {m : ℕ} (hm : 1 ≤ m) (h : (x.take m).length = 0) : x = [] := by
  rw [List.length_take] at h
  exact List.eq_nil_of_length_eq_zero (by omega)

/-- The loop returns all that was asked for and is there, behind what it has already. -/
theorem play_readLoop (blob : Blob) (size : ℕ) (buf : Bytes) (h : Readable b blob.fd w)
    (hoff : blob.offset < 2 ^ 64) (hsize : size < 2 ^ 63) :
    ∃ w', play rounds (blob.readLoop size buf) w =
        (.ok (.ok (buf ++ (b.content.drop blob.offset).take size,
          { blob with offset := blob.offset + ((b.content.drop blob.offset).take size).length })),
            w') ∧ Readable b blob.fd w' := by
  induction size using Nat.strong_induction_on generalizing blob buf w with
  | _ size ih =>
    unfold Blob.readLoop
    split_ifs with hpos
    · obtain ⟨n, hn, hread⟩ := exec_blobRead rounds h hoff (some size) hsize
      have hsplit := take_eq_append (b.content.drop blob.offset) (min_le_right n size)
      rw [play_bind_ok hread, Option.getD_some]
      split_ifs with hempty
      · -- The host has nothing more.
        have hend := eq_nil_of_take (le_min hn hpos) hempty
        rw [hend, List.take_nil, List.append_nil]
        exact ⟨_, rfl, h.tail⟩
      · have hlen : ((b.content.drop blob.offset).take (min n size)).length ≤
            b.content.length - blob.offset := by
          rw [← List.length_drop]
          exact List.length_take_le' _ _
        generalize (b.content.drop blob.offset).take (min n size) = data at *
        have hlt := h.length_lt
        obtain ⟨w', hplay, h'⟩ := ih (size - data.length) (by omega)
          { blob with offset := blob.offset + data.length } (buf ++ data) h.tail (by dsimp only; omega)
          (by omega)
        refine ⟨w', ?_, h'⟩
        rw [hsplit, List.drop_drop, List.length_append, ← List.append_assoc, ← Nat.add_assoc]
        exact hplay
    · have hzero : size = 0 := by omega
      subst hzero
      rw [List.take_zero, List.append_nil]
      exact ⟨w, rfl, h⟩

/-- A read that fits returns what it is to return. -/
theorem readsExactly_of_fits (h : Readable b blob.fd w) {size : Option ℤ} (hfits : blob.Fits size) :
    ∃ data w', play rounds (blob.read size) w =
        (.ok (.ok (data, { blob with offset := blob.offset + data.length })), w') ∧
      Extract b.content blob.offset size data ∧ Readable b blob.fd w' := by
  cases size with
  | none =>
    obtain ⟨n, hn, hread⟩ := exec_blobRead rounds h hfits none (by decide)
    refine ⟨_, _, play_bind_ok hread, ⟨_, min_le_right n 4096, rfl, fun hlt hnil => ?_⟩, h.tail⟩
    have hend := eq_nil_of_take (le_min hn (by decide)) (List.length_eq_zero_iff.2 hnil)
    rw [List.drop_eq_nil_iff] at hend
    omega
  | some size =>
    by_cases hpos : 0 < size
    · obtain ⟨hsize, hoff⟩ := hfits hpos
      obtain ⟨w', hplay, h'⟩ := play_readLoop rounds blob size.toNat [] h hoff (by omega)
      exact ⟨_, w', hplay, rfl, h'⟩
    · have hzero : size.toNat = 0 := by omega
      refine ⟨[], w, ?_, ?_, h⟩
      · unfold Blob.read
        simp only [hzero]
        unfold Blob.readLoop
        rfl
      · change [] = _
        rw [hzero, List.take_zero]

/-- A read that is returned fits. -/
theorem fits_of_read (h : Readable b blob.fd w) {size : Option ℤ}
    (hread : play rounds (blob.read size) w = (.ok (.ok (data, blob')), w')) : blob.Fits size := by
  cases size with
  | none =>
    rcases play_bind_eq_ok hread with ⟨data', w₁, hblob, -⟩ | ⟨e, -, heq⟩
    · exact (lt_of_blobRead rounds h hblob).1
    · cases heq
  | some size =>
    intro hpos
    change play rounds (blob.readLoop size.toNat []) w = _ at hread
    unfold Blob.readLoop at hread
    rw [if_pos (by omega)] at hread
    rcases play_bind_eq_ok hread with ⟨data', w₁, hblob, -⟩ | ⟨e, -, heq⟩
    · obtain ⟨hoff, hsize⟩ := lt_of_blobRead rounds h hblob
      rw [Option.getD_some] at hsize
      exact ⟨by omega, hoff⟩
    · cases heq

/-- A read that is returned is exact, and what is read next is readable too. -/
theorem Readable.read (h : Readable b blob.fd w) {size : Option ℤ}
    (hread : play rounds (blob.read size) w = (.ok (.ok (data, blob')), w')) :
    blob' = { blob with offset := blob.offset + data.length } ∧
      Extract b.content blob.offset size data ∧ Readable b blob.fd w' := by
  obtain ⟨data', w₁, hplay, hex, h'⟩ := readsExactly_of_fits rounds h (fits_of_read rounds h hread)
  rw [hread] at hplay
  cases hplay
  exact ⟨rfl, hex, h'⟩

omit [LabelCrate] in
/-- What is left of the content behind what a read has returned. -/
theorem Extract.append {content : Bytes} {offset : ℕ} {size : Option ℤ}
    (h : Extract content offset size data) :
    content.drop offset = data ++ content.drop (offset + data.length) := by
  have hprefix : ∃ k, data = (content.drop offset).take k := by
    cases size with
    | none =>
      obtain ⟨k, -, hk, -⟩ := h
      exact ⟨k, hk⟩
    | some size => exact ⟨_, h⟩
  obtain ⟨k, rfl⟩ := hprefix
  rw [← List.drop_drop]
  rcases le_total k (content.drop offset).length with hle | hle
  · rw [List.length_take_of_le hle, List.take_append_drop]
  · rw [List.take_of_length_le hle, List.drop_length, List.append_nil]

omit [LabelCrate] in
/-- Only at the end is a read of something empty. -/
theorem Extract.nil {content : Bytes} {offset : ℕ} {size : Option ℤ} (h : Extract content offset size [])
    (hpos : ∀ s ∈ size, 0 < s) : content.drop offset = [] := by
  cases size with
  | none =>
    obtain ⟨k, -, -, hne⟩ := h
    by_contra hdrop
    rw [List.drop_eq_nil_iff, not_le] at hdrop
    exact hne hdrop rfl
  | some size =>
    have := hpos size rfl
    exact eq_nil_of_take (m := size.toNat) (by omega) (List.length_eq_zero_iff.2 (Eq.symm h))

end Reads

end Python

end Faasten

/-! ### A file that gives two bytes at a time -/

namespace Faasten.TwoAtATime

open Python
open scoped Dc

/-- The blob. -/
def file : OpenBlob := ⟨"ab", [1, 2, 3, 4, 5]⟩

/-- Its descriptor is 1. -/
def world : World :=
  { World.quiet { Thread.idle publicLabel with blobs := fun fd => if fd = 1 then some file else none }
      .empty with io := .const (.ok 2) }

/-- What the guest has of it. -/
def blob : Python.Blob := { fd := 1, length := 5 }

end Faasten.TwoAtATime
