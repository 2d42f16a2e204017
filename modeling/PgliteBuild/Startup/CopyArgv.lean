import PgliteBuild.Foundation.CInt
import PgliteBuild.Foundation.CString
import PgliteBuild.Foundation.TracedBlock
import Mathlib.Tactic.Ring

/-! # The arguments of the native loader

`copy_argv` copies the arguments into one block: an array of pointers, ended by a null pointer, and
behind it the bytes of the strings. `pre_main` then hands the array to `wasiInit` with a count that it
takes from the size of the pointer `g_argv`. -/

namespace PgliteBuild

open BlockMemory CInt CStr

/-- A byte of memory: a character, or the part of an address that a pointer has there. -/
inductive Cell where
  | byte (b : UInt8)
  | ptr (address part : ℕ)
  deriving DecidableEq, Repr

/-- The cells of a pointer of `w` bytes. -/
def ptrCells (w address : ℕ) : List Cell := (List.range w).map (Cell.ptr address)

/-- The cells of a string, with its NUL. -/
def strCells (s : CString) : List Cell := (s ++ [0]).map Cell.byte

@[simp] theorem length_ptrCells (w address : ℕ) : (ptrCells w address).length = w := by simp [ptrCells]

@[simp] theorem length_strCells (s : CString) : (strCells s).length = s.length + 1 := by simp [strCells]

/-! ## The code -/

/-- The first pass of `copy_argv`: the `int` that counts the bytes of the strings. -/
def argvLength (argv : List CString) : ℤ := argv.foldl (fun length s => toInt32 (length + (s.length + 1))) 0

/-- The size of the block, for pointers of `w` bytes. -/
def allocSize (w : ℕ) (argv : List CString) : ℤ := ((argv.length + 1) * w : ℕ) + argvLength argv

/-- The second pass of `copy_argv` from argument `i` on, into the block at the address `p` with `ptrArgs`
pointers. -/
def copyLoop (w p ptrArgs : ℕ) : ℕ → ℤ → List CString → TracedBlock Cell → TracedBlock Cell
  | _, _, [], d => d
  | i, length, s :: argv, d =>
      -- the strings lie behind the pointers, in the order of the arguments
      let address := ((p + ptrArgs * w : ℕ) + length).toNat
      copyLoop w p ptrArgs (i + 1) (toInt32 (length + (s.length + 1))) argv
        ((d.store (p + i * w) (ptrCells w address)).store address (strCells s))

/-- `copy_argv`, with `p` as the address that `malloc` returns. -/
def copyArgv (w p : ℕ) (argv : List CString) (mem : Memory Unit Cell) : TracedBlock Cell :=
  (copyLoop w p (argv.length + 1) 0 0 argv (.fresh mem)).store (p + argv.length * w) (ptrCells w 0)

/-- What `pre_main` assigns to `g_argc`: `sizeof(g_argv) / sizeof(char*) - 1`, with `g_argv` a pointer. -/
def gArgc (w : ℕ) : ℕ := w / w - 1

/-! ## The copy -/

/-- The bytes of the strings with their NULs. -/
def stringBytes : List CString → ℕ
  | [] => 0
  | s :: argv => s.length + 1 + stringBytes argv

/-- One addition to the `int` that counts bytes, below 2 GiB. -/
theorem toInt32_add_strlen {n : ℕ} {s : CString} (h : n + (s.length + 1) < 2147483648) :
    toInt32 ((n : ℤ) + (s.length + 1)) = ((n + (s.length + 1) : ℕ) : ℤ) := by
  rw [toInt32_of_range (by omega) (by omega)]
  push_cast
  ring

/-- The first pass counts the bytes of the strings, below 2 GiB. -/
theorem argvLength_eq {argv : List CString} (h : stringBytes argv < 2147483648) : argvLength argv =
    stringBytes argv := by
  -- from any count on, as long as the sum stays an `int`
  have hfold : ∀ (argv : List CString) (n : ℕ), n + stringBytes argv < 2147483648 →
      argv.foldl (fun length s => toInt32 (length + (s.length + 1))) (n : ℤ) = n + stringBytes argv := by
    intro argv
    induction argv with
    | nil => simp [stringBytes]
    | cons s argv ih =>
        intro n hn
        rw [stringBytes] at hn
        rw [List.foldl_cons, toInt32_add_strlen (by omega), ih _ (by omega), stringBytes]
        push_cast
        ring
  have hzero := hfold argv 0 (by omega)
  simpa [argvLength] using hzero

/-- Pointer `i` of the array at `p` leads to the string `s`. -/
def PointsTo (w p i : ℕ) (s : CString) (d : TracedBlock Cell) : Prop :=
  ∃ address, d.read (p + i * w) w = ptrCells w address ∧ d.read address (s.length + 1) = strCells s

section Copy

variable {w p ptrArgs i n : ℕ} {argv : List CString} {d : TracedBlock Cell}

/-- One round of the second pass, below 2 GiB. -/
theorem copyLoop_cons {s : CString} (h : n + (s.length + 1) < 2147483648) :
    copyLoop w p ptrArgs i n (s :: argv) d = copyLoop w p ptrArgs (i + 1) (n + (s.length + 1) : ℕ) argv
      ((d.store (p + i * w) (ptrCells w (p + ptrArgs * w + n))).store (p + ptrArgs * w + n) (strCells s)) := by
  have haddress : (((p + ptrArgs * w : ℕ) : ℤ) + (n : ℤ)).toNat = p + ptrArgs * w + n := by omega
  rw [copyLoop, toInt32_add_strlen h, haddress]

/-- The second pass writes pointers from number `i` on and strings from byte `n` on. -/
theorem stores_copyLoop (hbytes : n + stringBytes argv < 2147483648) {k : ℕ}
    (hk : k ∈ (copyLoop w p ptrArgs i n argv d).stores) : k ∈ d.stores ∨
      p + i * w ≤ k ∧ k < p + (i + argv.length) * w ∨
      p + ptrArgs * w + n ≤ k ∧ k < p + ptrArgs * w + n + stringBytes argv := by
  induction argv generalizing i n d with
  | nil => exact .inl hk
  | cons s argv ih =>
      rw [stringBytes] at hbytes ⊢
      rw [copyLoop_cons (by omega)] at hk
      have hw : (i + 1) * w = i * w + w := Nat.succ_mul i w
      have hend : (i + 1 + argv.length) * w = i * w + w + argv.length * w := by ring
      have hend' : (i + (argv.length + 1)) * w = i * w + w + argv.length * w := by ring
      rw [List.length_cons, hend']
      -- this round writes pointer `i` and the string at byte `n`
      rcases ih (by omega) hk with hold | hptr | hstr
      · simp only [TracedBlock.mem_stores_store, length_ptrCells, length_strCells] at hold
        rcases hold with (hold | hptr) | hstr
        · exact .inl hold
        · exact .inr (.inl (by omega))
        · exact .inr (.inr (by omega))
      · rw [hw, hend] at hptr
        exact .inr (.inl (by omega))
      · exact .inr (.inr (by omega))

/-- The second pass leaves alone what was copied before. -/
theorem read_copyLoop (hbytes : n + stringBytes argv < 2147483648) (hroom : i + argv.length ≤ ptrArgs) {q k : ℕ}
    (hq : q + k ≤ p + i * w ∨ p + ptrArgs * w ≤ q ∧ q + k ≤ p + ptrArgs * w + n) :
    (copyLoop w p ptrArgs i n argv d).read q k = d.read q k := by
  induction argv generalizing i n d with
  | nil => rfl
  | cons s argv ih =>
      rw [stringBytes] at hbytes
      rw [List.length_cons] at hroom
      have hw : (i + 1) * w = i * w + w := Nat.succ_mul i w
      have hle : (i + 1) * w ≤ ptrArgs * w := Nat.mul_le_mul_right w (by omega)
      have hq' : q + k ≤ p + (i + 1) * w ∨
          p + ptrArgs * w ≤ q ∧ q + k ≤ p + ptrArgs * w + (n + (s.length + 1)) := by omega
      rw [copyLoop_cons (by omega), ih (i := i + 1) (n := n + (s.length + 1)) (by omega) (by omega) hq']
      refine (TracedBlock.read_store_of_le _ (by omega)).trans ?_
      rcases hq with hq | hq
      · exact TracedBlock.read_store_of_le _ hq
      · exact TracedBlock.read_store_of_ge _ (by rw [length_ptrCells]; omega)

/-- Every argument is copied. -/
theorem pointsTo_copyLoop (hbytes : n + stringBytes argv < 2147483648) (hroom : i + argv.length ≤ ptrArgs)
    {k : ℕ}
    {s : CString} (hs : argv[k]? = some s) : ∃ address, p + ptrArgs * w ≤ address ∧
      (copyLoop w p ptrArgs i n argv d).read (p + (i + k) * w) w = ptrCells w address ∧
      (copyLoop w p ptrArgs i n argv d).read address (s.length + 1) = strCells s := by
  induction argv generalizing i n d k with
  | nil => cases hs
  | cons x argv ih =>
      rw [stringBytes] at hbytes
      rw [List.length_cons] at hroom
      have hw : (i + 1) * w = i * w + w := Nat.succ_mul i w
      have hle : (i + 1) * w ≤ ptrArgs * w := Nat.mul_le_mul_right w (by omega)
      rw [copyLoop_cons (by omega)]
      cases k with
      | succ k =>
          have hbytes' : n + (x.length + 1) + stringBytes argv < 2147483648 := by omega
          have hroom' : i + 1 + argv.length ≤ ptrArgs := by omega
          rw [show i + (k + 1) = i + 1 + k by omega]
          exact ih hbytes' hroom' hs
      | zero =>
          obtain rfl := Option.some.inj hs
          have hbytes' : n + (x.length + 1) + stringBytes argv < 2147483648 := by omega
          have hroom' : i + 1 + argv.length ≤ ptrArgs := by omega
          refine ⟨p + ptrArgs * w + n, by omega, ?_, ?_⟩
          -- later rounds write behind this pointer and behind this string
          · have hbefore : p + i * w + w ≤ p + (i + 1) * w := by omega
            rw [show i + 0 = i from rfl, read_copyLoop hbytes' hroom' (.inl hbefore)]
            refine (TracedBlock.read_store_of_le _ (by omega)).trans ?_
            exact TracedBlock.read_store_of_length _ (length_ptrCells w _)
          · rw [read_copyLoop hbytes' hroom' (.inr (by omega))]
            exact TracedBlock.read_store_of_length _ (length_strCells x)

end Copy

/-! ## The hand-over -/

/-- What `copy_argv` owes to `pre_main`: it stays inside the block at `p`, and the array holds the strings
and a null pointer behind them. -/
structure Copies (w p : ℕ) (argv : List CString) (d : TracedBlock Cell) : Prop where
  inside : ∀ k ∈ d.stores, p ≤ k ∧ (k : ℤ) < p + allocSize w argv
  strings : ∀ i s, argv[i]? = some s → PointsTo w p i s d
  null : d.read (p + argv.length * w) w = ptrCells w 0

/-- What `pre_main` owes to `wasiInit`: besides the copy, the count of the arguments. -/
structure ArgsHandedOver (w p : ℕ) (argv : List Arg) (mem : Memory Unit Cell) : Prop where
  count : gArgc w = argv.length
  copies : Copies w p (argv.map Arg.text) (copyArgv w p (argv.map Arg.text) mem)

/-- **`copy_argv` copies every argument list below 2 GiB.** -/
theorem copies_copyArgv (w p : ℕ) {argv : List CString} (mem : Memory Unit Cell)
    (h : stringBytes argv < 2147483648) : Copies w p argv (copyArgv w p argv mem) := by
  have hbytes : 0 + stringBytes argv < 2147483648 := by omega
  have hend : (argv.length + 1) * w = argv.length * w + w := Nat.succ_mul _ _
  refine ⟨fun k hk => ?_, fun i s hs => ?_, ?_⟩
  · have hsize : allocSize w argv = (argv.length * w + w + stringBytes argv : ℕ) := by
      rw [allocSize, argvLength_eq h, hend]
      push_cast
      ring
    rw [copyArgv, TracedBlock.mem_stores_store, length_ptrCells] at hk
    rw [hsize]
    rcases hk with hloop | hnull
    · rcases stores_copyLoop hbytes hloop with hold | hptr | hstr
      · simp at hold
      · rw [Nat.zero_mul, Nat.zero_add] at hptr
        omega
      · rw [hend] at hstr
        omega
    · omega
  · have hi : i < argv.length := (List.getElem?_eq_some_iff.mp hs).1
    have hle : (i + 1) * w ≤ argv.length * w := Nat.mul_le_mul_right w hi
    have hroom : 0 + argv.length ≤ argv.length + 1 := by omega
    rw [Nat.succ_mul] at hle
    -- the null pointer is stored last, between the pointers and the strings
    obtain ⟨address, hbehind, hptr, hstr⟩ :=
      pointsTo_copyLoop (d := .fresh mem) (p := p) (w := w) hbytes hroom hs
    rw [Nat.zero_add] at hptr
    refine ⟨address, ?_, ?_⟩
    · exact (TracedBlock.read_store_of_le _ (by omega)).trans hptr
    · exact (TracedBlock.read_store_of_ge _ (by rw [length_ptrCells]; omega)).trans hstr
  · exact TracedBlock.read_store_of_length _ (length_ptrCells w 0)

/-- The size of a pointer divided by itself leaves no argument to count. -/
theorem gArgc_eq_zero (w : ℕ) : gArgc w = 0 := by
  have hle : w / w ≤ 1 := Nat.div_le_of_le_mul (by omega)
  rw [gArgc]
  omega

/-- **The arguments are handed over exactly when there are none.** -/
theorem argsHandedOver_iff (w p : ℕ) (argv : List Arg) (mem : Memory Unit Cell) :
    ArgsHandedOver w p argv mem ↔ argv = [] := by
  constructor
  · intro h
    have hcount := h.count
    rw [gArgc_eq_zero] at hcount
    exact List.eq_nil_of_length_eq_zero hcount.symm
  · rintro rfl
    exact ⟨gArgc_eq_zero w, copies_copyArgv w p mem (by decide)⟩

/-- The arguments that `main` passes to `pre_main`. -/
def tmpArgv : List Arg :=
  [⟨ascii "/tmp/pglite/bin/postgres", by decide⟩, ⟨ascii "--single", by decide⟩, ⟨ascii "template1", by decide⟩]

/-- With the size of a pointer for the count no argument is handed over. -/
theorem not_argsHandedOver_main : ¬ArgsHandedOver 8 4096 tmpArgv (fun _ _ => .byte 0) := by
  intro h
  exact absurd h.count (by decide)

end PgliteBuild
