import Mathlib.Data.List.Infix
import Mathlib.Tactic.Common

/-! # C strings

A C string is the list of the bytes before its NUL. `strcmp` answers 0 on two strings exactly when
they are equal, so it is modelled by the equality of lists. -/

namespace CStr

/-- The bytes of a C string, without the NUL that ends it. -/
abbrev CString := List UInt8

/-- The bytes of an ASCII literal. -/
def ascii (s : String) : CString := s.toList.map fun ch => UInt8.ofNat ch.toNat

/-- Whether `strncmp(s, t, n)` is 0. -/
def strncmpEq (s t : CString) (n : ℕ) : Bool := s.take n == t.take n

/-- The C string at the start of a buffer that holds a NUL or is followed by one. -/
def cstr (bs : List UInt8) : CString := bs.takeWhile (· ≠ 0)

/-- An argument of a program: a string that ends with its first NUL. -/
structure Arg where
  text : CString
  nulFree : 0 ∉ text

/-- A string without NUL goes on behind it. -/
theorem cstr_append {bs : List UInt8} (h : 0 ∉ bs) (rest : List UInt8) :
    cstr (bs ++ rest) = bs ++ cstr rest := by
  have hall : ∀ x ∈ bs, decide (x ≠ 0) = true := by
    intro x hx
    rw [decide_eq_true_eq]
    rintro rfl
    exact h hx
  exact List.takeWhile_append_of_pos hall

/-- A NUL ends the string before it. -/
theorem cstr_append_nul {bs : List UInt8} (h : 0 ∉ bs) (rest : List UInt8) :
    cstr (bs ++ 0 :: rest) = bs := by
  rw [cstr_append h, cstr, List.takeWhile_cons_of_neg (by decide), List.append_nil]

/-- Comparing up to the length of `t` tests for a prefix. -/
theorem strncmpEq_length (s t : CString) : strncmpEq s t t.length = true ↔ t <+: s := by
  unfold strncmpEq
  rw [List.take_length, beq_iff_eq, List.prefix_iff_eq_take, eq_comm]

end CStr
