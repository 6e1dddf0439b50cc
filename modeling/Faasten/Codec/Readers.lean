import Mathlib
import Faasten.Effect.Prog

/-!
# Programs that read a stream

A reader asks for so many elements at a time, and goes on with what it gets. `stream` serves it from a
list that is there as a whole. Where the list arrives bit by bit, one wants to say how far the reader has
come:

* `Fed m d m'`: reads of `m` that were served with `d`, in order and without gaps, have left `m'`;
* `Suffices m s`: there is enough in `s` for every read of `m`.

What has been fed makes no difference to the rest: `Fed.exec` and `Fed.suffices_iff`.
-/

namespace Effect

/-- Reading so many elements of a stream. -/
abbrev reader (α : Type) : Sig := ⟨ℕ, fun _ => List α⟩

/-- A single read. -/
def Prog.read {α ε : Type} (n : ℕ) : Prog (reader α) ε (List α) := .call (S := reader α) n

/-- The stream as a whole; a read at its end gives what is left. -/
def stream (α : Type) : Handler (reader α) (List α) := ⟨fun n s => (s.take n, s.drop n)⟩

variable {α ε β γ : Type}

/-- The program asks for nothing more. -/
def Prog.Ended : Prog (reader α) ε β → Prop
  | .op _ _ => False
  | _ => True

/-- There is enough in the list for every read of the program. -/
def Suffices : Prog (reader α) ε β → List α → Prop
  | .op (n : ℕ) k, s => n ≤ s.length ∧ Suffices (k (s.take n)) (s.drop n)
  | _, _ => True

/-- Reads that were served with `d`, piece by piece, have left the program at `m'`. -/
inductive Fed (m : Prog (reader α) ε β) : List α → Prog (reader α) ε β → Prop
  | start : Fed m [] m
  | read {d b : List α} {k : List α → Prog (reader α) ε β}
      (h : Fed m d (.op (S := reader α) b.length k)) : Fed m (d ++ b) (k b)

variable {m m' : Prog (reader α) ε β} {d s : List α}

/-- What has been fed makes no difference to the rest of the run. -/
theorem Fed.exec (h : Fed m d m') (s : List α) :
    (stream α).exec m (d ++ s) = (stream α).exec m' s := by
  induction h generalizing s with
  | start => rfl
  | @read d b k h ih =>
    rw [List.append_assoc, ih]
    change (stream α).exec (k ((b ++ s).take b.length)) ((b ++ s).drop b.length) = _
    rw [List.take_left, List.drop_left]

/-- Nor does it to what is still needed. -/
theorem Fed.suffices_iff (h : Fed m d m') (s : List α) : Suffices m (d ++ s) ↔ Suffices m' s := by
  induction h generalizing s with
  | start => rfl
  | @read d b k h ih =>
    rw [List.append_assoc, ih]
    change b.length ≤ (b ++ s).length ∧ Suffices (k ((b ++ s).take b.length)) ((b ++ s).drop b.length) ↔ _
    rw [List.take_left, List.drop_left, List.length_append]
    exact and_iff_right (by omega)

theorem exec_read_bind (n : ℕ) (f : List α → Prog (reader α) ε β) (s : List α) :
    (stream α).exec (.read n >>= f) s = (stream α).exec (f (s.take n)) (s.drop n) := rfl

theorem suffices_read_bind (n : ℕ) (f : List α → Prog (reader α) ε β) (s : List α) :
    Suffices (.read n >>= f) s ↔ n ≤ s.length ∧ Suffices (f (s.take n)) (s.drop n) := Iff.rfl

/-- What follows the bytes that suffice is left. -/
theorem Suffices.exec_append (h : Suffices m s) (t : List α) :
    (stream α).exec m (s ++ t) = (((stream α).exec m s).1, ((stream α).exec m s).2 ++ t) := by
  induction m generalizing s with
  | pure a => rfl
  | raise e => rfl
  | op n k ih =>
    obtain ⟨hn, hk⟩ := h
    have hexec : (stream α).exec (.op n k : Prog (reader α) ε β) (s ++ t) =
        (stream α).exec (k ((s ++ t).take n)) ((s ++ t).drop n) := rfl
    rw [hexec, List.take_append_of_le_length hn, List.drop_append_of_le_length hn]
    exact ih _ hk

theorem Suffices.of_ended (h : m.Ended) (s : List α) : Suffices m s := by
  cases m with
  | op n k => exact h.elim
  | pure a => trivial
  | raise e => trivial

/-- Reading in two parts. -/
theorem suffices_bind (m : Prog (reader α) ε β) (f : β → Prog (reader α) ε γ) (s : List α) :
    Suffices (m >>= f) s ↔ Suffices m s ∧
      ∀ a t, (stream α).exec m s = (.ok a, t) → Suffices (f a) t := by
  change Suffices (m.bind f) s ↔ _
  induction m generalizing s with
  | pure a =>
    constructor
    · intro h
      refine ⟨trivial, ?_⟩
      rintro _ _ ⟨⟩
      exact h
    · exact fun h => h.2 a s rfl
  | raise e =>
    refine iff_of_true trivial ⟨trivial, ?_⟩
    rintro _ _ ⟨⟩
  | op n k ih =>
    change n ≤ s.length ∧ Suffices ((k (s.take n)).bind f) (s.drop n) ↔
      (n ≤ s.length ∧ Suffices (k (s.take n)) (s.drop n)) ∧ _
    rw [ih, and_assoc]
    rfl

end Effect
