import Mathlib.Data.List.Basic

/-!
# Memories with mirrors

A memory read and written at addresses, where several addresses may name one
cell: `cell` says which, and `Plain` that reads and writes go by the cell, as
far as some range of addresses. `forall_read_writeAll_iff` is the round trip:
a list of stores reads back exactly when no two of them put different values
into one cell.
-/

namespace Cells

variable {μ α κ ν : Type*}

/-- Within `range`, reads and writes go by the cell. -/
structure Plain (read : μ → α → ν) (write : μ → α → ν → μ) (cell : α → κ) (range : α → Prop) :
    Prop where
  /-- A store is read back at every address of its cell. -/
  hit : ∀ m a b v, range a → range b → cell a = cell b → read (write m a v) b = v
  /-- And at no other. -/
  miss : ∀ m a b v, range a → range b → cell a ≠ cell b → read (write m a v) b = read m b
  /-- Two addresses of a cell read alike. -/
  mirror : ∀ m a b, range a → range b → cell a = cell b → read m a = read m b

/-- The stores in order. -/
def writeAll (write : μ → α → ν → μ) (m : μ) (stores : List (α × ν)) : μ :=
  stores.foldl (fun m p => write m p.1 p.2) m

variable {read : μ → α → ν} {write : μ → α → ν → μ} {cell : α → κ} {range : α → Prop}

/-- When every store to a cell puts `x` there, `x` is read if there was one,
or if it was there before. -/
theorem read_writeAll (plain : Plain read write cell range) {stores : List (α × ν)}
    (within : ∀ p ∈ stores, range p.1) {a : α} (ha : range a) {x : ν}
    (same : ∀ p ∈ stores, cell p.1 = cell a → p.2 = x) (m : μ)
    (there : read m a = x ∨ ∃ p ∈ stores, cell p.1 = cell a) :
    read (writeAll write m stores) a = x := by
  induction stores generalizing m with
  | nil =>
      rcases there with h | ⟨p, hp, -⟩
      · exact h
      · cases hp
  | cons p stores ih =>
      obtain ⟨hrange, hwithin⟩ := List.forall_mem_cons.mp within
      obtain ⟨hfirst, hsame⟩ := List.forall_mem_cons.mp same
      refine ih hwithin hsame (write m p.1 p.2) ?_
      by_cases hcell : cell p.1 = cell a
      · left
        rw [plain.hit m p.1 a p.2 hrange ha hcell]
        exact hfirst hcell
      · rcases there with h | ⟨q, hq, hqa⟩
        · left
          rw [plain.miss m p.1 a p.2 hrange ha hcell]
          exact h
        · right
          rcases List.mem_cons.mp hq with rfl | hq
          · exact absurd hqa hcell
          · exact ⟨q, hq, hqa⟩

theorem forall_read_writeAll_iff (plain : Plain read write cell range) {stores : List (α × ν)}
    (within : ∀ p ∈ stores, range p.1) (m : μ) :
    (∀ p ∈ stores, read (writeAll write m stores) p.1 = p.2) ↔
      ∀ p ∈ stores, ∀ q ∈ stores, cell p.1 = cell q.1 → p.2 = q.2 := by
  constructor
  · intro back p hp q hq hcell
    calc p.2 = read (writeAll write m stores) p.1 := (back p hp).symm
      _ = read (writeAll write m stores) q.1 :=
        plain.mirror _ p.1 q.1 (within p hp) (within q hq) hcell
      _ = q.2 := back q hq
  · intro agree p hp
    exact read_writeAll plain within (within p hp)
      (fun q hq hcell => agree q hq p hp hcell) m (.inr ⟨p, hp, rfl⟩)

end Cells
