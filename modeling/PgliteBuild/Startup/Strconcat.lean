import PgliteBuild.Foundation.CString
import PgliteBuild.Foundation.TracedBlock

/-! # `strconcat` and its callers

`strconcat` joins two strings in a buffer of `STROPS_BUF` bytes. Each of its copies is cut to the bytes
left, but not to leave one for the NUL that ends the string. -/

namespace PgliteBuild

open BlockMemory CStr

variable {head tail : CString}

/-- `STROPS_BUF`. -/
def stropsBuf : ℕ := 1024

/-- `strnlen`. -/
def strnlen (s : CString) (n : ℕ) : ℕ := min n s.length

/-- `strconcat`, with `p` as the index of the next byte. -/
def strconcat (buf : TracedBlock UInt8) (head tail : CString) : TracedBlock UInt8 :=
  let len := strnlen head stropsBuf
  let buf := buf.store 0 (head.take len)
  let p := len
  let len := strnlen tail (stropsBuf - len)
  let buf := buf.store p (tail.take len)
  buf.store (p + len) [0]

/-- `strdup` of a buffer in which a NUL comes at index `STROPS_BUF` at the latest. -/
def strdup (buf : TracedBlock UInt8) : CString := cstr (buf.read 0 (stropsBuf + 1))

/-- `strcat_alloc`, on a stack with arbitrary contents. -/
def strcatAlloc (stack : Memory Unit UInt8) (head tail : CString) : CString :=
  strdup (strconcat (.fresh stack) head tail)

/-! ## What is written -/

/-- The bytes in front of the NUL. -/
def joined (head tail : CString) : CString := (head ++ tail).take stropsBuf

/-- The joined string has the length of both, up to the size of the buffer. -/
theorem length_joined (head tail : CString) : (joined head tail).length =
    min stropsBuf (head.length + tail.length) := by
  simp [joined]

/-- The two copies are the head and the tail, cut to the size of the buffer. -/
theorem take_append_take : head.take (strnlen head stropsBuf) ++
    tail.take (strnlen tail (stropsBuf - strnlen head stropsBuf)) = joined head tail := by
  have hcut : ∀ (s : CString) (n : ℕ), s.take (strnlen s n) = s.take n := by
    intro s n
    rw [strnlen, ← List.take_eq_take_min]
  rw [hcut, hcut, joined, List.take_append, strnlen]
  congr 2
  omega

/-- **`strconcat` leaves the joined string**, with a NUL behind it. -/
theorem read_strconcat (buf : TracedBlock UInt8) (head tail : CString) :
    (strconcat buf head tail).read 0 ((joined head tail).length + 1) = joined head tail ++ [0] := by
  have hhead : (head.take (strnlen head stropsBuf)).length = strnlen head stropsBuf := by
    simp [strnlen]
  have htail : ∀ n, (tail.take (strnlen tail n)).length = strnlen tail n := by
    simp [strnlen]
  have hlen : (joined head tail).length =
      strnlen head stropsBuf + strnlen tail (stropsBuf - strnlen head stropsBuf) := by
    rw [← take_append_take, List.length_append, hhead, htail]
  -- one store after the other: the head, the tail, the NUL
  have hfirst := TracedBlock.read_store_self buf 0 (head.take (strnlen head stropsBuf))
  rw [hhead] at hfirst
  have hsecond := TracedBlock.read_store_append (buf.store 0 (head.take (strnlen head stropsBuf)))
    0 (strnlen head stropsBuf) (tail.take (strnlen tail (stropsBuf - strnlen head stropsBuf)))
  rw [hfirst, htail, take_append_take, Nat.zero_add] at hsecond
  have hthird := TracedBlock.read_store_append ((buf.store 0 (head.take (strnlen head stropsBuf))).store
    (strnlen head stropsBuf) (tail.take (strnlen tail (stropsBuf - strnlen head stropsBuf)))) 0
    (strnlen head stropsBuf + strnlen tail (stropsBuf - strnlen head stropsBuf)) [0]
  rw [hsecond, Nat.zero_add] at hthird
  rw [hlen]
  exact hthird

/-- The cells written are those of the joined string and of the NUL. -/
theorem mem_stores_strconcat (buf : TracedBlock UInt8) (head tail : CString) (i : ℕ) :
    i ∈ (strconcat buf head tail).stores ↔ i ∈ buf.stores ∨ i ≤ (joined head tail).length := by
  rw [length_joined, strconcat]
  simp only [TracedBlock.mem_stores_store, List.length_take, List.length_singleton, strnlen]
  by_cases hold : i ∈ buf.stores
  · simp [hold]
  · simp only [hold, false_or]
    omega

/-! ## The contract -/

/-- The string at the start of a buffer of `STROPS_BUF` bytes is `s`. -/
def HoldsString (buf : TracedBlock UInt8) (s : CString) : Prop :=
  s.length < stropsBuf ∧ buf.read 0 (s.length + 1) = s ++ [0]

/-- What `strconcat` owes to a buffer of `STROPS_BUF` bytes with arbitrary contents, and `strcat_alloc` to
its caller. -/
structure StrconcatContract (mem : Memory Unit UInt8) (head tail : CString) : Prop where
  inside : ∀ i ∈ (strconcat (.fresh mem) head tail).stores, i < stropsBuf
  string : HoldsString (strconcat (.fresh mem) head tail) ((head ++ tail).take (stropsBuf - 1))
  alloc : head.length + tail.length < stropsBuf → strcatAlloc mem head tail = head ++ tail

/-- A string that fits is joined as it is. -/
theorem joined_of_fits (h : head.length + tail.length < stropsBuf) : joined head tail = head ++ tail :=
  List.take_of_length_le (by rw [List.length_append]; omega)

/-- `strcat_alloc` returns a string that fits with its NUL. -/
theorem strcatAlloc_of_fits (hhead : 0 ∉ head) (htail : 0 ∉ tail) (mem : Memory Unit UInt8)
    (h : head.length + tail.length < stropsBuf) : strcatAlloc mem head tail = head ++ tail := by
  have hread := read_strconcat (.fresh mem) head tail
  rw [joined_of_fits h] at hread
  -- `strdup` reads on behind the NUL, which `cstr` cuts off
  obtain ⟨k, hk⟩ : ∃ k, stropsBuf + 1 = (head ++ tail).length + 1 + k :=
    ⟨stropsBuf - (head ++ tail).length, by rw [List.length_append]; omega⟩
  have hnul : 0 ∉ head ++ tail := by simp [hhead, htail]
  rw [strcatAlloc, strdup, TracedBlock.read, hk, Memory.read_add]
  have hfirst : (strconcat (.fresh mem) head tail).mem.read ⟨(), 0⟩ ((head ++ tail).length + 1) =
      head ++ tail ++ [0] := hread
  rw [hfirst, List.append_assoc, List.singleton_append]
  exact cstr_append_nul hnul _

/-- The NUL lands behind the buffer when the string fills it. -/
theorem stores_beyond (mem : Memory Unit UInt8) (h : stropsBuf ≤ head.length + tail.length) :
    stropsBuf ∈ (strconcat (.fresh mem) head tail).stores := by
  rw [mem_stores_strconcat, length_joined]
  exact .inr (by omega)

/-- **`strconcat` keeps its contract exactly for strings that fit in the buffer with their NUL.** -/
theorem strconcatContract_iff (mem : Memory Unit UInt8) (head tail : CString) (hhead : 0 ∉ head)
    (htail : 0 ∉ tail) : StrconcatContract mem head tail ↔ head.length + tail.length < stropsBuf := by
  constructor
  · intro h
    -- at the full length the NUL itself lands outside
    by_contra hlong
    exact absurd (h.inside _ (stores_beyond mem (by omega))) (lt_irrefl _)
  · intro hfits
    have hlen : (head ++ tail).length = head.length + tail.length := List.length_append
    have hcut : (head ++ tail).take (stropsBuf - 1) = head ++ tail := List.take_of_length_le (by omega)
    refine ⟨fun i hi => ?_, ?_, strcatAlloc_of_fits hhead htail mem⟩
    · rw [mem_stores_strconcat, length_joined] at hi
      have hle := hi.resolve_left (by simp)
      omega
    · rw [hcut]
      refine ⟨by omega, ?_⟩
      have hread := read_strconcat (.fresh mem) head tail
      rwa [joined_of_fits hfits] at hread

/-- A `PREFIX` of three bytes. -/
theorem strconcatContract_tmp : 3 + 5 < stropsBuf ∧
    StrconcatContract (fun _ _ => 1) (ascii "/db") (ascii "/base") := by
  refine ⟨by decide, (strconcatContract_iff _ _ _ ?_ ?_).mpr ?_⟩ <;> decide

/-- A `PREFIX` of 1019 bytes, to which `main_pre` appends `/base`. -/
theorem not_strconcatContract_prefix :
    ¬StrconcatContract (fun _ _ => 1) (List.replicate 1019 97) (ascii "/base") := by
  intro h
  have hlong : stropsBuf ≤ (List.replicate 1019 (97 : UInt8)).length + (ascii "/base").length := by
    rw [List.length_replicate]
    decide
  exact absurd (h.inside _ (stores_beyond _ hlong)) (lt_irrefl _)

end PgliteBuild
