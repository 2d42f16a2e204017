import Mathlib.Data.List.Basic
import Mathlib.Tactic.Common

/-! # Byte memory split into blocks

A memory is a family of unbounded arrays of cells, one for each block of `β`, and a pointer is a
block with an offset. Reading and writing ranges are the only operations; the lemmas say what a
write does to a later read of the same range, of a range next to it and of a range apart from it. -/

namespace BlockMemory

variable {β α : Type*}

/-- A memory over the blocks `β` with cells of type `α`. -/
abbrev Memory (β α : Type*) := β → ℕ → α

/-- A pointer: a block and an offset into it. -/
structure Ptr (β : Type*) where
  /-- The block pointed into. -/
  block : β
  /-- The offset from the start of the block. -/
  offset : ℕ
  deriving DecidableEq, Repr

/-- Move a pointer forward by `n` cells. -/
def Ptr.add (p : Ptr β) (n : ℕ) : Ptr β := ⟨p.block, p.offset + n⟩

@[simp] theorem Ptr.add_block (p : Ptr β) (n : ℕ) : (p.add n).block = p.block := rfl

@[simp] theorem Ptr.add_offset (p : Ptr β) (n : ℕ) : (p.add n).offset = p.offset + n := rfl

@[simp] theorem Ptr.add_zero (p : Ptr β) : p.add 0 = p := rfl

/-- Two moves forward are one move by the sum. -/
@[simp] theorem Ptr.add_add (p : Ptr β) (m n : ℕ) : (p.add m).add n = p.add (m + n) := by
  simp [Ptr.add, Nat.add_assoc]

/-- The `n` cells from `p` on. -/
def Memory.read (m : Memory β α) (p : Ptr β) (n : ℕ) : List α :=
  (List.range n).map fun i => m p.block (p.offset + i)

/-- Overwrite the cells from `p` on by `xs`. -/
def Memory.write [DecidableEq β] (m : Memory β α) (p : Ptr β) (xs : List α) : Memory β α :=
  fun b i => if b = p.block ∧ p.offset ≤ i then (xs[i - p.offset]?).getD (m b i) else m b i

@[simp] theorem Memory.length_read (m : Memory β α) (p : Ptr β) (n : ℕ) :
    (m.read p n).length = n := by
  simp [Memory.read]

@[simp] theorem Memory.read_zero (m : Memory β α) (p : Ptr β) : m.read p 0 = [] := rfl

/-- Reading `m + n` cells is reading `m` cells and then the `n` cells after them. -/
theorem Memory.read_add (mem : Memory β α) (p : Ptr β) (m n : ℕ) :
    mem.read p (m + n) = mem.read p m ++ mem.read (p.add m) n := by
  simp [Memory.read, List.range_add, Function.comp_def, Nat.add_assoc]

/-- Reading `n + 1` cells is reading the first cell and then the `n` cells after it. -/
theorem Memory.read_succ (mem : Memory β α) (p : Ptr β) (n : ℕ) :
    mem.read p (n + 1) = mem p.block p.offset :: mem.read (p.add 1) n := by
  rw [Nat.add_comm, Memory.read_add]
  simp [Memory.read]

/-- The first cells of a longer read are the shorter read. -/
theorem Memory.take_read (mem : Memory β α) (p : Ptr β) {m n : ℕ} (h : m ≤ n) :
    (mem.read p n).take m = mem.read p m := by
  obtain ⟨k, rfl⟩ := Nat.exists_eq_add_of_le h
  rw [Memory.read_add, List.take_append_of_le_length (by simp), List.take_of_length_le (by simp)]

/-- Dropping the first cells of a read is reading further on. -/
theorem Memory.drop_read (mem : Memory β α) (p : Ptr β) {m n : ℕ} (h : m ≤ n) :
    (mem.read p n).drop m = mem.read (p.add m) (n - m) := by
  obtain ⟨k, rfl⟩ := Nat.exists_eq_add_of_le h
  rw [Memory.read_add, List.drop_append_of_le_length (by simp), List.drop_of_length_le (by simp)]
  simp

/-- Reads agree when the memories agree on the range. -/
theorem Memory.read_congr {mem mem' : Memory β α} {p : Ptr β} {n : ℕ}
    (h : ∀ i < n, mem p.block (p.offset + i) = mem' p.block (p.offset + i)) :
    mem.read p n = mem'.read p n := by
  refine List.map_congr_left fun i hi => h i (List.mem_range.mp hi)

section Write

variable [DecidableEq β]

@[simp] theorem Memory.write_nil (mem : Memory β α) (p : Ptr β) : mem.write p [] = mem := by
  funext b i
  simp [Memory.write]

/-- A write leaves every other block alone. -/
theorem Memory.write_of_ne (mem : Memory β α) (p : Ptr β) (xs : List α) {b : β} (i : ℕ)
    (h : b ≠ p.block) : mem.write p xs b i = mem b i := by
  simp [Memory.write, h]

/-- A write leaves the cells before its range alone. -/
theorem Memory.write_of_lt (mem : Memory β α) (p : Ptr β) (xs : List α) (b : β) {i : ℕ}
    (h : i < p.offset) : mem.write p xs b i = mem b i := by
  simp [Memory.write, Nat.not_le.mpr h]

/-- A write leaves the cells after its range alone. -/
theorem Memory.write_of_ge (mem : Memory β α) (p : Ptr β) (xs : List α) (b : β) {i : ℕ}
    (h : p.offset + xs.length ≤ i) : mem.write p xs b i = mem b i := by
  have hnone : xs[i - p.offset]? = none := List.getElem?_eq_none (by omega)
  simp [Memory.write, hnone]

/-- What was written is what a read of the same range gives. -/
theorem Memory.read_write_self (mem : Memory β α) (p : Ptr β) (xs : List α) :
    (mem.write p xs).read p xs.length = xs := by
  refine List.ext_getElem (by simp) fun i h₁ h₂ => ?_
  simp [Memory.read, Memory.write, List.getElem?_eq_getElem h₂]

/-- A read of another block does not see a write. -/
theorem Memory.read_write_of_ne (mem : Memory β α) {p q : Ptr β} (xs : List α) (n : ℕ)
    (h : q.block ≠ p.block) : (mem.write p xs).read q n = mem.read q n :=
  Memory.read_congr fun i _ => Memory.write_of_ne mem p xs (q.offset + i) h

/-- A read that ends before a write starts does not see it. -/
theorem Memory.read_write_of_le (mem : Memory β α) {p q : Ptr β} (xs : List α) {n : ℕ}
    (h : q.offset + n ≤ p.offset) : (mem.write p xs).read q n = mem.read q n :=
  Memory.read_congr fun i hi => Memory.write_of_lt mem p xs q.block (by omega)

/-- A read that starts behind a write does not see it. -/
theorem Memory.read_write_of_ge (mem : Memory β α) {p q : Ptr β} (xs : List α) (n : ℕ)
    (h : p.offset + xs.length ≤ q.offset) : (mem.write p xs).read q n = mem.read q n :=
  Memory.read_congr fun i _ => Memory.write_of_ge mem p xs q.block (by omega)

/-- Writing right after a range extends a read of that range by what was written. -/
theorem Memory.read_write_append (mem : Memory β α) (p : Ptr β) (n : ℕ) (xs : List α) :
    (mem.write (p.add n) xs).read p (n + xs.length) = mem.read p n ++ xs := by
  rw [Memory.read_add, Memory.read_write_self, Memory.read_write_of_le mem xs (by simp)]

end Write

end BlockMemory
