import PgliteBuild.Foundation.BlockMemory

/-! # One block of memory, with the cells written so far

The memory behind a buffer whose bounds the code does not check: a store always succeeds and is kept in
the history, so that staying inside the buffer is a statement about the history. -/

namespace BlockMemory

variable {α : Type*} {d : Memory Unit α} {i j n : ℕ} {xs ys : List α}

/-- A block of cells, with the indices written so far. -/
structure TracedBlock (α : Type*) where
  mem : Memory Unit α
  stores : List ℕ

namespace TracedBlock

/-- A block before the first store. -/
def fresh (mem : Memory Unit α) : TracedBlock α := ⟨mem, []⟩

/-- Store `xs` from cell `i` on. -/
def store (d : TracedBlock α) (i : ℕ) (xs : List α) : TracedBlock α :=
  ⟨d.mem.write ⟨(), i⟩ xs, d.stores ++ List.range' i xs.length⟩

/-- The `n` cells from cell `i` on. -/
def read (d : TracedBlock α) (i n : ℕ) : List α := d.mem.read ⟨(), i⟩ n

variable (d : TracedBlock α)

@[simp] theorem stores_fresh (mem : Memory Unit α) : (fresh mem).stores = [] := rfl

@[simp] theorem mem_stores_store :
    j ∈ (d.store i xs).stores ↔ j ∈ d.stores ∨ i ≤ j ∧ j < i + xs.length := by
  simp [store]

@[simp] theorem store_nil : (d.store i []).mem = d.mem := Memory.write_nil d.mem _

/-- What was stored is read back. -/
@[simp] theorem read_store_self (i : ℕ) (xs : List α) : (d.store i xs).read i xs.length = xs :=
  Memory.read_write_self _ _ xs

/-- What was stored is read back. -/
theorem read_store_of_length (h : xs.length = n) : (d.store i xs).read i n = xs := h ▸ read_store_self d i xs

/-- A store leaves the cells before it alone. -/
theorem read_store_of_le (h : j + n ≤ i) : (d.store i xs).read j n = d.read j n :=
  Memory.read_write_of_le _ _ h

/-- A store leaves the cells behind it alone. -/
theorem read_store_of_ge (h : i + xs.length ≤ j) : (d.store i xs).read j n = d.read j n :=
  Memory.read_write_of_ge _ _ _ h

/-- A store behind what was read extends it. -/
theorem read_store_append (i n : ℕ) (xs : List α) :
    (d.store (i + n) xs).read i (n + xs.length) = d.read i n ++ xs :=
  Memory.read_write_append d.mem ⟨(), i⟩ n xs

end TracedBlock

end BlockMemory
