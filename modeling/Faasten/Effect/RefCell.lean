import Mathlib

/-!
# Cells with run-time borrow checking

A `RefCell` hands out shared borrows while no exclusive one is live, and an exclusive borrow while
no borrow at all is live; any other request panics. `Access α β` is a sequence of borrows, releases
and assignments on one cell of type `α`, in the order in which they happen; `Access.run` runs it on
a cell without live borrows, and gives `none` when a borrow panics.
-/

namespace Effect

/-- A cell: its value, the number of live shared borrows, and whether an exclusive one is live. -/
structure RefCell (α : Type) where
  value : α
  shared : ℕ := 0
  exclusive : Bool := false

/-- Accesses to a cell; `none` stands for a panic. -/
abbrev Access (α : Type) := StateT (RefCell α) Option

namespace Access

variable {α β : Type}

/-- `cell.borrow()`: the value, with one more shared borrow live. -/
def borrow : Access α α := fun c =>
  if c.exclusive then none else some (c.value, { c with shared := c.shared + 1 })

/-- The end of the lifetime of a shared borrow. -/
def release : Access α Unit := fun c => some ((), { c with shared := c.shared - 1 })

/-- `cell.borrow_mut()`. -/
def borrowMut : Access α Unit := fun c =>
  if c.exclusive ∨ c.shared ≠ 0 then none else some ((), { c with exclusive := true })

/-- Assignment through the exclusive borrow. -/
def assign (v : α) : Access α Unit := fun c => some ((), { c with value := v })

/-- The end of the lifetime of the exclusive borrow. -/
def releaseMut : Access α Unit := fun c => some ((), { c with exclusive := false })

/-- `cell.borrow().clone()` as a full expression: the borrow ends with it. -/
def clone : Access α α := do
  let v ← borrow
  release
  return v

/-- `*cell.borrow_mut() = v` where the value `v` holds no borrow. -/
def set (v : α) : Access α Unit := do
  borrowMut
  assign v
  releaseMut

/-- Run on a cell that holds `v` and has no live borrow. -/
def run (m : Access α β) (v : α) : Option (β × α) :=
  (StateT.run m { value := v }).map fun r => (r.1, r.2.value)

end Access

end Effect
