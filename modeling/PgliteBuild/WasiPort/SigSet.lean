import Mathlib.Data.Int.Notation
import Mathlib.Tactic.Common

/-! # Sets of signals

A set of signals is one byte, made by shifts of 32 bits for the 65 signal numbers of wasi-libc; a shift of
wasm takes its count modulo 32. The one shift whose count is a constant, in `sigfillset`, is not left to wasm:
the compiler sees that it is out of range, and no byte can be relied on. -/

namespace PgliteBuild

/-- `NSIG` of wasi-libc. -/
def nsig : ℕ := 65

/-- `sigset_t` of `sdk_port.h`, an `unsigned char`. -/
abbrev SigSet := BitVec 8

/-- `x << sig` on 32 bits. -/
def shl (x : BitVec 32) (sig : ℕ) : BitVec 32 := x <<< (sig % 32)

/-- `(set >> sig) & 1`. -/
def sigBit (set : SigSet) (sig : ℕ) : Bool := (set.setWidth 32 >>> (sig % 32)) &&& 1#32 != 0#32

/-- `set |= 1U << sig`. -/
def setBit (set : SigSet) (sig : ℕ) : SigSet := (set.setWidth 32 ||| shl 1 sig).setWidth 8

/-- `set &= ~(1U << sig)`. -/
def clearBit (set : SigSet) (sig : ℕ) : SigSet := (set.setWidth 32 &&& ~~~shl 1 sig).setWidth 8

/-- The signal numbers that the functions on sets accept. -/
def validSig (sig : ℤ) : Bool := 0 ≤ sig && sig < nsig

/-- `sigemptyset`. -/
def sigemptyset : SigSet := 0

/-- `sigfillset`. In `((2U << (NSIG - 1)) - 1) & ~ SIGABRT_COMPAT_MASK` the constant 2 is shifted by 64, more
than its type has bits, so that C says nothing of the byte: `left` is what the call leaves in the set. -/
def sigfillset (left : SigSet) : SigSet := left

/-- `sigaddset`: the set and the returned value. -/
def sigaddset (set : SigSet) (sig : ℤ) : SigSet × ℤ :=
  if validSig sig then (setBit set sig.toNat, 0) else (set, -1)

/-- `sigdelset`: the set and the returned value. -/
def sigdelset (set : SigSet) (sig : ℤ) : SigSet × ℤ :=
  if validSig sig then (clearBit set sig.toNat, 0) else (set, -1)

/-! ## Bits -/

/-- The test looks at the bit of the signal's number modulo 32. -/
theorem sigBit_eq (set : SigSet) (sig : ℕ) : sigBit set sig = set.getLsbD (sig % 32) := by
  have hbit : (set.setWidth 32 >>> (sig % 32)).getLsbD 0 = set.getLsbD (sig % 32) := by
    have hlt : sig % 32 < 32 := Nat.mod_lt _ (by decide)
    simp [hlt]
  rw [sigBit, BitVec.and_one_eq_setWidth_ofBool_getLsbD, hbit]
  cases set.getLsbD (sig % 32) <;> decide

/-- The one bit of `1U << sig`. -/
theorem getLsbD_shl_one (sig : ℕ) {k : ℕ} (hk : k < 8) : (shl 1#32 sig).getLsbD k = decide (sig % 32 = k) := by
  have hlt : k < 32 := by omega
  rw [shl, BitVec.getLsbD_shiftLeft, BitVec.getLsbD_one]
  by_cases heq : sig % 32 = k
  · simp [heq, hlt]
  · simp only [heq, decide_false, Bool.and_eq_false_iff, Bool.not_eq_false', decide_eq_true_eq,
      decide_eq_false_iff_not]
    omega

/-- Adding a signal sets its bit and keeps the others. -/
theorem getLsbD_setBit (set : SigSet) (sig : ℕ) {k : ℕ} (hk : k < 8) :
    (setBit set sig).getLsbD k = (set.getLsbD k || decide (sig % 32 = k)) := by
  simp [setBit, getLsbD_shl_one sig hk, hk]

/-- Deleting a signal clears its bit and keeps the others. -/
theorem getLsbD_clearBit (set : SigSet) (sig : ℕ) {k : ℕ} (hk : k < 8) :
    (clearBit set sig).getLsbD k = (set.getLsbD k && !decide (sig % 32 = k)) := by
  simp [clearBit, getLsbD_shl_one sig hk, hk]

/-! ## Sets -/

/-- How a program makes a set, with the byte that each call of `sigfillset` leaves. -/
inductive SetExpr where
  | empty
  | fill (left : SigSet)
  | add (e : SetExpr) (sig : ℤ)
  | del (e : SetExpr) (sig : ℤ)
  deriving DecidableEq, Repr

namespace SetExpr

/-- The byte that the functions leave. -/
def code : SetExpr → SigSet
  | empty => sigemptyset
  | fill left => sigfillset left
  | add e sig => (sigaddset e.code sig).1
  | del e sig => (sigdelset e.code sig).1

/-- Whether the signal belongs to the set that the program asked for. -/
def has : SetExpr → ℕ → Bool
  | empty, _ => false
  | fill _, k => k < nsig
  | add e sig, k => e.has k || validSig sig && sig.toNat == k
  | del e sig, k => e.has k && !(validSig sig && sig.toNat == k)

/-- Whether the set starts from `sigfillset`. -/
def filled : SetExpr → Bool
  | empty => false
  | fill _ => true
  | add e _ => e.filled
  | del e _ => e.filled

/-- Whether bit `k` was set or cleared by name. -/
def names : SetExpr → ℕ → Bool
  | empty, _ => false
  | fill _, _ => false
  | add e sig, k => e.names k || validSig sig && sig.toNat % 32 == k
  | del e sig, k => e.names k || validSig sig && sig.toNat % 32 == k

end SetExpr

/-- A set of signals that a byte can stand for: it has only signals of the bits 0 to 7, all signals of a
bit or none, and of those `signal` accepts all or none. -/
structure FitsByte (ok : ℕ → Bool) (m : ℕ → Bool) : Prop where
  low : ∀ sig < nsig, m sig = true → sig % 32 < 8
  closed : ∀ s < nsig, ∀ t < nsig, s % 32 = t % 32 → m s = m t
  alike : ∀ s < nsig, ∀ t < nsig, s % 32 = t % 32 → m s = true → ok s = ok t

/-- A set expression that means what it says: the set fits a byte, and where it starts from `sigfillset`,
each of the eight bits was set or cleared by name. -/
structure SetExpr.Fits (ok : ℕ → Bool) (e : SetExpr) : Prop where
  byte : FitsByte ok e.has
  named : e.filled = true → ∀ k < 8, e.names k = true

/-- A valid signal is below `NSIG`. -/
theorem validSig_lt {sig : ℤ} (h : validSig sig = true) : sig.toNat < nsig := by
  simp only [validSig, Bool.and_eq_true, decide_eq_true_eq] at h
  omega

/-- The byte answers for some signal of each bit: the last that was added or deleted by name. -/
theorem SetExpr.exists_has_eq (e : SetExpr) {k : ℕ} (hk : k < 8)
    (h : e.filled = false ∨ e.names k = true) :
    ∃ sig < nsig, sig % 32 = k ∧ e.has sig = e.code.getLsbD k := by
  have hlt : k < nsig := by
    unfold nsig
    omega
  induction e with
  | empty => exact ⟨k, hlt, by omega, by simp [has, code, sigemptyset]⟩
  | fill left =>
      -- no bit is named yet
      exact absurd h (by simp [filled, names])
  | add e sig ih =>
      by_cases hvalid : validSig sig = true
      · by_cases hbit : sig.toNat % 32 = k
        · refine ⟨sig.toNat, validSig_lt hvalid, hbit, ?_⟩
          simp [has, code, sigaddset, hvalid, getLsbD_setBit _ _ hk, hbit]
        · obtain ⟨t, ht, hmod, hhas⟩ := ih (by simpa [filled, names, hbit] using h)
          have hne : sig.toNat ≠ t := fun heq => hbit (heq ▸ hmod)
          refine ⟨t, ht, hmod, ?_⟩
          simp [has, code, sigaddset, hvalid, getLsbD_setBit _ _ hk, hbit, hne, hhas]
      · obtain ⟨t, ht, hmod, hhas⟩ := ih (by simpa [filled, names, hvalid] using h)
        exact ⟨t, ht, hmod, by simp [has, code, sigaddset, hvalid, hhas]⟩
  | del e sig ih =>
      by_cases hvalid : validSig sig = true
      · by_cases hbit : sig.toNat % 32 = k
        · refine ⟨sig.toNat, validSig_lt hvalid, hbit, ?_⟩
          simp [has, code, sigdelset, hvalid, getLsbD_clearBit _ _ hk, hbit]
        · obtain ⟨t, ht, hmod, hhas⟩ := ih (by simpa [filled, names, hbit] using h)
          have hne : sig.toNat ≠ t := fun heq => hbit (heq ▸ hmod)
          refine ⟨t, ht, hmod, ?_⟩
          simp [has, code, sigdelset, hvalid, getLsbD_clearBit _ _ hk, hbit, hne, hhas]
      · obtain ⟨t, ht, hmod, hhas⟩ := ih (by simpa [filled, names, hvalid] using h)
        exact ⟨t, ht, hmod, by simp [has, code, sigdelset, hvalid, hhas]⟩

/-- **A set that fits is the byte.** -/
theorem SetExpr.sigBit_code {ok : ℕ → Bool} {e : SetExpr} (h : e.Fits ok) {sig : ℕ} (hsig : sig < nsig) :
    sigBit e.code sig = e.has sig := by
  rw [sigBit_eq]
  by_cases hlow : sig % 32 < 8
  · have hcase : e.filled = false ∨ e.names (sig % 32) = true := by
      rcases Bool.eq_false_or_eq_true e.filled with hfilled | hfilled
      · exact .inr (h.named hfilled _ hlow)
      · exact .inl hfilled
    obtain ⟨t, ht, hmod, hhas⟩ := e.exists_has_eq hlow hcase
    rw [← hhas, h.byte.closed t ht sig hsig hmod]
  · have hnot : e.has sig = false := by
      by_contra hne
      exact hlow (h.byte.low sig hsig (by simpa using hne))
    rw [hnot]
    exact BitVec.getLsbD_of_ge _ _ (by omega)

end PgliteBuild
