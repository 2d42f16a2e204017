import PgliteBuild.Foundation.CellLoop
import PgliteBuild.WasiPort.Signals
import Mathlib.Data.List.Induction

/-! # Runs of the signal code

The loops of `sigprocmask` treat one signal a round. What they leave for each signal, and the bits of the
blocked set, agree with the meaning of the masks as long as the sets fit a byte. -/

namespace PgliteBuild

open CellLoop

/-! ## One signal's cell -/

/-- What the tables hold for one signal. -/
structure SigCell (H : Type*) where
  pending : Bool
  old : Option (Handler H)
  installed : Handler H
  delivered : List H

namespace SigCell

variable {H : Type*}

/-- The cell after a successful round over `to_block`. -/
def block (c : SigCell H) : SigCell H := ⟨false, some c.installed, .blocked, c.delivered⟩

/-- The cell after a round that puts the handler `h` back, and raises what was received. -/
def unblock (c : SigCell H) (h : H) : SigCell H :=
  ⟨false, c.old, .app h, if c.pending then c.delivered ++ [h] else c.delivered⟩

end SigCell

namespace Signals

variable {H : Type*} {ok : ℕ → Bool}

/-- What the state holds for one signal. -/
def cell (s : Signals H) (sig : ℕ) : SigCell H :=
  ⟨s.pendingArray sig, s.oldHandlers sig, s.installed sig, s.delivered sig⟩

/-- A call of a handler is a delivery of its signal. -/
theorem delivered_append (s : Signals H) (sig : ℕ) (h : H) (j : ℕ) :
    ({ s with calls := s.calls ++ [(sig, h)] } : Signals H).delivered j =
      if sig = j then s.delivered j ++ [h] else s.delivered j := by
  by_cases heq : sig = j <;> simp [delivered, List.filter_append, heq]

/-- The rounds over `to_block`. -/
theorem round_blockRound (ok : ℕ → Bool) (toBlock : SigSet) : Round (blockRound (H := H) ok toBlock) cell blockedSet
    (fun _ _ => True)
    (fun sig c => if sigBit toBlock sig then
      if ok sig then c.block else ⟨false, none, c.installed, c.delivered⟩ else c)
    (fun sig b => if sigBit toBlock sig && ok sig then setBit b sig else b) := by
  intro s sig _
  by_cases hbit : sigBit toBlock sig = true
  · by_cases hok : ok sig = true
    · simp only [blockRound, signal, hbit, hok, if_true, Option.isSome_some, Option.some.injEq, exists_eq_left']
      refine ⟨rfl, ?_, fun j hj => ?_⟩
      · simp [cell, SigCell.block, delivered]
      · simp [cell, delivered, hj]
    -- `signal` returns `SIG_ERR`
    · simp only [blockRound, signal, hbit, hok, if_true, Option.isSome_none, Bool.false_eq_true, if_false,
        Option.some.injEq, exists_eq_left']
      refine ⟨rfl, ?_, fun j hj => ?_⟩
      · simp [cell, delivered]
      · simp [cell, delivered, hj]
  · exact ⟨s, by simp [blockRound, hbit], by simp [hbit], by simp [hbit], fun _ _ => rfl⟩

/-- The rounds over `to_unblock`, where `blocked_handler` is still installed for what they unblock. -/
theorem round_unblockRound (ok : ℕ → Bool) (toUnblock : SigSet) (old : ℕ → H) : Round (unblockRound (H := H) ok toUnblock)
    (fun s sig => (s.1.cell sig, s.2 sig)) (fun s => s.1.blockedSet)
    (fun sig c => sigBit toUnblock sig = true →
      ok sig = true ∧ c.1.installed = .blocked ∧ c.1.old = some (.app (old sig)))
    (fun sig c => if sigBit toUnblock sig then (⟨false, c.1.old, .app (old sig), c.1.delivered⟩, c.1.pending)
      else (c.1, false))
    (fun sig b => if sigBit toUnblock sig then clearBit b sig else b) := by
  intro s sig hready
  by_cases hbit : sigBit toUnblock sig = true
  · obtain ⟨hok, hinstalled, hold⟩ := hready hbit
    simp only [cell] at hinstalled hold
    simp only [unblockRound, signal, hbit, hok, hinstalled, hold, if_true, Option.some.injEq, exists_eq_left']
    refine ⟨trivial, ?_, fun j hj => ?_⟩
    · simp [cell, delivered, hold]
    · simp [cell, delivered, hj]
  · simp only [unblockRound, hbit, Bool.false_eq_true, if_false, Option.some.injEq, exists_eq_left']
    exact ⟨trivial, by simp, fun j hj => by simp [hj]⟩

/-- The rounds that raise what was received, for signals with a handler of the application. -/
theorem round_raiseRound (ok : ℕ → Bool) (received : ℕ → Bool) (old : ℕ → H) :
    Round (raiseRound (H := H) ok received) cell blockedSet
    (fun sig c => received sig = true → c.installed = .app (old sig))
    (fun sig c => if received sig then { c with delivered := c.delivered ++ [old sig] } else c)
    (fun _ b => b) := by
  intro s sig hready
  by_cases hreceived : received sig = true
  · have hinstalled : s.installed sig = .app (old sig) := hready hreceived
    simp only [raiseRound, raise, hreceived, hinstalled, if_true, Option.some.injEq, exists_eq_left']
    refine ⟨trivial, ?_, fun j hj => ?_⟩
    · simp [cell, delivered_append, hinstalled]
    · simp [cell, delivered_append, Ne.symm hj]
  · exact ⟨s, by simp [raiseRound, hreceived], rfl, by simp [hreceived], fun _ _ => rfl⟩

/-- Setting the bits of some signals of a list sets a bit that is one of theirs. -/
theorem getLsbD_foldl_setBit (p : ℕ → Bool) {k : ℕ} (hk : k < 8) (l : List ℕ) (b : SigSet) :
    (l.foldl (fun b sig => if p sig then setBit b sig else b) b).getLsbD k =
      (b.getLsbD k || l.any fun sig => p sig && decide (sig % 32 = k)) := by
  induction l generalizing b with
  | nil => simp
  | cons sig l ih =>
      rw [List.foldl_cons, ih, List.any_cons]
      by_cases hp : p sig = true
      · simp [hp, getLsbD_setBit _ _ hk, Bool.or_assoc]
      · simp [hp]

/-- Clearing the bits of some signals of a list clears a bit that is one of theirs. -/
theorem getLsbD_foldl_clearBit (p : ℕ → Bool) {k : ℕ} (hk : k < 8) (l : List ℕ) (b : SigSet) :
    (l.foldl (fun b sig => if p sig then clearBit b sig else b) b).getLsbD k =
      (b.getLsbD k && !l.any fun sig => p sig && decide (sig % 32 = k)) := by
  induction l generalizing b with
  | nil => simp
  | cons sig l ih =>
      rw [List.foldl_cons, ih, List.any_cons]
      by_cases hp : p sig = true
      · simp [hp, getLsbD_clearBit _ _ hk, Bool.and_assoc]
      · simp [hp]

/-- The empty set has no signal. -/
theorem sigBit_zero (sig : ℕ) : sigBit 0#8 sig = false := by simp [sigBit_eq]

/-- **Blocking**: every signal of the set gets `blocked_handler`, and the bit is set if one of its signals
did. -/
theorem blockAll_spec (ok : ℕ → Bool) (toBlock : SigSet) (s : Signals H) :
    ∃ s', s.blockAll ok toBlock = some s' ∧
      (∀ k < 8, s'.blockedSet.getLsbD k = (s.blockedSet.getLsbD k ||
        (List.range nsig).any fun sig => (sigBit toBlock sig && ok sig) && decide (sig % 32 = k))) ∧
      ∀ sig < nsig, s'.cell sig = if sigBit toBlock sig then
        if ok sig then (s.cell sig).block else ⟨false, none, s.installed sig, s.delivered sig⟩ else s.cell
          sig := by
  by_cases hzero : toBlock = 0
  · subst hzero
    exact ⟨s, by simp [blockAll], by simp [sigBit_zero], by simp [sigBit_zero]⟩
  · obtain ⟨s', hloop, hset, hcells, -⟩ := (round_blockRound ok toBlock).foldlM List.nodup_range
      (s := s) (fun _ _ => trivial)
    refine ⟨s', by rw [blockAll, if_pos hzero, hloop], fun k hk => ?_, fun sig hsig => ?_⟩
    · rw [hset, getLsbD_foldl_setBit _ hk]
    · exact hcells sig (List.mem_range.mpr hsig)

/-- **Unblocking**, where `blocked_handler` is still installed: the old handlers return, and what was
received is raised. -/
theorem unblockAll_spec {toUnblock : SigSet} {old : ℕ → H} {s : Signals H}
    (hready : ∀ sig < nsig, sigBit toUnblock sig = true →
      ok sig = true ∧ s.installed sig = .blocked ∧ s.oldHandlers sig = some (.app (old sig))) :
    ∃ s', s.unblockAll ok toUnblock = some s' ∧
      (∀ k < 8, s'.blockedSet.getLsbD k = (s.blockedSet.getLsbD k &&
        !(List.range nsig).any fun sig => sigBit toUnblock sig && decide (sig % 32 = k))) ∧
      ∀ sig < nsig, s'.cell sig = if sigBit toUnblock sig then (s.cell sig).unblock
        (old sig) else s.cell sig := by
  by_cases hzero : toUnblock = 0
  · subst hzero
    exact ⟨s, by simp [unblockAll], by simp [sigBit_zero], by simp [sigBit_zero]⟩
  · obtain ⟨⟨s₁, received⟩, hloop, hset, hcells, -⟩ :=
      (round_unblockRound ok toUnblock old).foldlM List.nodup_range (s := (s, fun _ => false))
        (fun sig hsig => hready sig (List.mem_range.mp hsig))
    -- what the first loop leaves, and what it noted as received
    have hcell : ∀ sig < nsig, (s₁.cell sig, received sig) = if sigBit toUnblock sig then
        (⟨false, (s.cell sig).old, .app (old sig), (s.cell sig).delivered⟩, (s.cell sig).pending)
        else (s.cell sig, false) := fun sig hsig => hcells sig (List.mem_range.mpr hsig)
    -- only signals whose handler is back are raised
    have hraise : ∀ sig ∈ List.range nsig, received sig = true → (s₁.cell sig).installed = .app (old sig) := by
      intro sig hsig hreceived
      have heq := hcell sig (List.mem_range.mp hsig)
      split at heq
      · rw [(Prod.mk.inj heq).1]
      · rw [(Prod.mk.inj heq).2] at hreceived
        cases hreceived
    obtain ⟨s₂, hloop₂, hset₂, hcells₂, -⟩ :=
      (round_raiseRound ok received old).foldlM List.nodup_range hraise
    refine ⟨s₂, ?_, fun k hk => ?_, fun sig hsig => ?_⟩
    · rw [unblockAll, if_pos hzero, hloop, Option.bind_some]
      exact hloop₂
    · rw [hset₂, List.foldl_fixed, ← getLsbD_foldl_clearBit _ hk, ← hset]
    · rw [hcells₂ sig (List.mem_range.mpr hsig)]
      have heq := hcell sig hsig
      by_cases hbit : sigBit toUnblock sig = true
      · rw [if_pos hbit] at heq ⊢
        rw [(Prod.mk.inj heq).1, (Prod.mk.inj heq).2, SigCell.unblock]
        cases (s.cell sig).pending <;> rfl
      · rw [if_neg hbit] at heq ⊢
        rw [(Prod.mk.inj heq).1, (Prod.mk.inj heq).2]
        rfl

end Signals

/-! ## The invariant -/

namespace FitsByte

variable {ok m n : ℕ → Bool}

/-- The union of two sets that fit a byte fits a byte. -/
theorem or (hm : FitsByte ok m) (hn : FitsByte ok n) : FitsByte ok fun sig => m sig || n sig where
  low sig hsig h := ((Bool.or_eq_true _ _).mp h).elim (hm.low sig hsig) (hn.low sig hsig)
  closed s hs t ht h := by rw [hm.closed s hs t ht h, hn.closed s hs t ht h]
  alike s hs t ht h hor := ((Bool.or_eq_true _ _).mp hor).elim (hm.alike s hs t ht h) (hn.alike s hs t ht h)

/-- The difference of two sets that fit a byte fits a byte. -/
theorem diff (hm : FitsByte ok m) (hn : FitsByte ok n) : FitsByte ok fun sig => m sig && !n sig where
  low sig hsig h := hm.low sig hsig ((Bool.and_eq_true _ _).mp h).1
  closed s hs t ht h := by rw [hm.closed s hs t ht h, hn.closed s hs t ht h]
  alike s hs t ht h hand := hm.alike s hs t ht h ((Bool.and_eq_true _ _).mp hand).1

end FitsByte

namespace Signals

variable {H : Type*} {ok : ℕ → Bool} {s : Signals H} {a : Masked H}

/-- The cell of a signal holds what is meant. -/
structure Stands (a : Masked H) (sig : ℕ) (c : SigCell H) : Prop where
  delivered : c.delivered = a.delivered sig
  masked : a.mask sig = true →
    c.installed = .blocked ∧ c.old = some (.app (a.handler sig)) ∧ c.pending = a.pending sig
  free : a.mask sig = false → c.installed = .app (a.handler sig)

/-- The tables hold what is meant, for every signal that `signal` accepts. -/
structure Inv (ok : ℕ → Bool) (s : Signals H) (a : Masked H) : Prop where
  fits : FitsByte ok a.mask
  bits : ∀ sig < nsig, sigBit s.blockedSet sig = (a.mask sig && ok sig)
  stands : ∀ sig < nsig, ok sig = true → Stands a sig (s.cell sig)

/-- The signals of one bit are in the same sets. -/
theorem sigBit_congr (x : SigSet) {i j : ℕ} (h : i % 32 = j % 32) : sigBit x i = sigBit x j := by
  rw [sigBit_eq, sigBit_eq, h]

/-- The union of two bytes has the signals of both. -/
theorem sigBit_or (x y : SigSet) (sig : ℕ) : sigBit (x ||| y) sig = (sigBit x sig || sigBit y sig) := by
  simp [sigBit_eq]

/-- The difference of two bytes has the signals of the first that the second has not. -/
theorem sigBit_diff (x y : SigSet) (sig : ℕ) : sigBit (x &&& ~~~y) sig = (sigBit x sig && !sigBit y sig) := by
  rw [sigBit_eq, sigBit_eq, sigBit_eq, BitVec.getLsbD_and, BitVec.getLsbD_not]
  by_cases hlow : sig % 32 < 8
  · simp [hlow]
  · rw [BitVec.getLsbD_of_ge x _ (by omega), Bool.false_and, Bool.false_and]

/-- A property that the signals of a bit share holds of one of them when it holds of each. -/
theorem any_eq_of_congr {p : ℕ → Bool} {sig : ℕ} (hsig : sig < nsig)
    (hp : ∀ t < nsig, t % 32 = sig % 32 → p t = p sig) :
    ((List.range nsig).any fun t => p t && decide (t % 32 = sig % 32)) = p sig := by
  rw [Bool.eq_iff_iff, List.any_eq_true]
  simp only [List.mem_range, Bool.and_eq_true, decide_eq_true_eq]
  constructor
  · rintro ⟨t, ht, hpt, hmod⟩
    rwa [← hp t ht hmod]
  · intro h
    exact ⟨sig, hsig, h, rfl⟩

/-- **A change of the mask keeps the invariant and does not abort.** -/
theorem Inv.changeMask (h : Inv ok s a) {n : ℕ → Bool} (hn : FitsByte ok n) {new : SigSet}
    (hnew : ∀ sig < nsig, ok sig = true → sigBit new sig = n sig)
    (hle : ∀ sig < nsig, sigBit new sig = true → n sig = true) :
    ∃ s', (s.blockAll ok (new &&& ~~~s.blockedSet)).bind (unblockAll ok (s.blockedSet &&& ~~~new)) = some s' ∧
      Inv ok s' (a.setMask n) := by
  obtain ⟨s₁, hblock, hset₁, hcell₁⟩ := blockAll_spec ok (new &&& ~~~s.blockedSet) s
  -- the bits of `to_block` and of `to_unblock`, in terms of the masks
  have hadd : ∀ sig < nsig, sigBit (new &&& ~~~s.blockedSet) sig =
      (sigBit new sig && !(a.mask sig && ok sig)) := by
    intro sig hsig
    rw [sigBit_diff, h.bits sig hsig]
  have hremove : ∀ sig < nsig, sigBit (s.blockedSet &&& ~~~new) sig =
      ((a.mask sig && ok sig) && !sigBit new sig) := by
    intro sig hsig
    rw [sigBit_diff, h.bits sig hsig]
  -- what is unblocked was blocked before, so that its round does not abort
  have hready : ∀ sig < nsig, sigBit (s.blockedSet &&& ~~~new) sig = true →
      ok sig = true ∧ s₁.installed sig = .blocked ∧ s₁.oldHandlers sig = some (.app (a.handler sig)) := by
    intro sig hsig hbit
    rw [hremove sig hsig] at hbit
    simp only [Bool.and_eq_true, Bool.not_eq_true'] at hbit
    obtain ⟨⟨hmask, hok⟩, hnot⟩ := hbit
    obtain ⟨hinstalled, hold, -⟩ := (h.stands sig hsig hok).masked hmask
    have hsame := hcell₁ sig hsig
    rw [hadd sig hsig, hnot, Bool.false_and, if_neg Bool.false_ne_true] at hsame
    rw [← hsame] at hinstalled hold
    exact ⟨hok, hinstalled, hold⟩
  obtain ⟨s₂, hunblock, hset₂, hcell₂⟩ := unblockAll_spec hready
  refine ⟨s₂, by rw [hblock, Option.bind_some, hunblock], hn, fun sig hsig => ?_, fun sig hsig hok => ?_⟩
  · show sigBit s₂.blockedSet sig = (n sig && ok sig)
    by_cases hlow : sig % 32 < 8
    · have hclass : ∀ t < nsig, t % 32 = sig % 32 →
          (sigBit (new &&& ~~~s.blockedSet) t && ok t) = (sigBit (new &&& ~~~s.blockedSet) sig && ok sig) := by
        intro t ht hmod
        rw [sigBit_congr _ hmod, hadd sig hsig]
        by_cases hbit : sigBit new sig = true
        · rw [hn.alike sig hsig t ht hmod.symm (hle sig hsig hbit)]
        · simp [hbit]
      rw [sigBit_eq, hset₂ _ hlow, hset₁ _ hlow, any_eq_of_congr hsig hclass,
        any_eq_of_congr hsig (fun t _ hmod => sigBit_congr _ hmod), ← sigBit_eq, h.bits sig hsig, hadd sig hsig,
        hremove sig hsig]
      cases hok : ok sig
      · simp
      · rw [hnew sig hsig hok]
        cases a.mask sig <;> cases n sig <;> rfl
    -- a signal whose bit is not in the byte is in no set that fits
    · have hnot : n sig = false := by
        by_contra hne
        exact hlow (hn.low sig hsig (by simpa using hne))
      rw [hnot, sigBit_eq]
      exact BitVec.getLsbD_of_ge _ _ (by omega)
  · have hstands := h.stands sig hsig hok
    have hcell := hcell₂ sig hsig
    rw [hcell₁ sig hsig, hadd sig hsig, hremove sig hsig, hnew sig hsig hok, hok, if_pos rfl] at hcell
    rw [hcell]
    cases hmask : a.mask sig <;> cases hin : n sig
    -- neither before nor after
    · exact ⟨by simp [Masked.setMask, hmask, hstands.delivered],
        fun h => absurd h (by simp [Masked.setMask, hin]), fun _ => by simpa using hstands.free hmask⟩
    -- newly blocked
    · exact ⟨by simp [Masked.setMask, hmask, SigCell.block, hstands.delivered],
        fun _ => by simp [Masked.setMask, hmask, SigCell.block, hstands.free hmask],
        fun h => absurd h (by simp [Masked.setMask, hin])⟩
    -- newly unblocked
    · obtain ⟨-, -, hpending⟩ := hstands.masked hmask
      exact ⟨by simp [Masked.setMask, hmask, hin, SigCell.unblock, hstands.delivered, hpending],
        fun h => absurd h (by simp [Masked.setMask, hin]), fun _ => by simp [Masked.setMask, SigCell.unblock]⟩
    -- still blocked
    · obtain ⟨hinstalled, hold, hpending⟩ := hstands.masked hmask
      exact ⟨by simp [Masked.setMask, hin, hstands.delivered],
        fun _ => by simp [Masked.setMask, hmask, hin, hinstalled, hold, hpending],
        fun h => absurd h (by simp [Masked.setMask, hin])⟩

/-- A signal that an event does not concern keeps its cell. -/
theorem Stands.of_eq {a a' : Masked H} {sig : ℕ} {c c' : SigCell H} (h : Stands a sig c) (hc : c' = c)
    (hmask : a'.mask sig = a.mask sig) (hpending : a'.pending sig = a.pending sig)
    (hhandler : a'.handler sig = a.handler sig) (hdelivered : a'.delivered sig = a.delivered sig) :
    Stands a' sig c' := by
  subst hc
  exact ⟨by rw [hdelivered, h.delivered], by rw [hmask, hpending, hhandler]; exact h.masked,
    by rw [hmask, hhandler]; exact h.free⟩

/-- A call of `sigprocmask` with a set that means what it says keeps the invariant. -/
theorem Inv.procmask (h : Inv ok s a) (operation : ℤ) {set : Option SetExpr}
    (hfits : ∀ e, set = some e → e.Fits ok) :
    ∃ s', s.step ok (.procmask operation set) = some s' ∧ Inv ok s' (a.step (.procmask operation set)) := by
  cases set with
  | none => exact ⟨s, rfl, h⟩
  | some e =>
      have he : e.Fits ok := hfits e rfl
      have hcode : ∀ sig < nsig, sigBit e.code sig = e.has sig := fun sig hsig => SetExpr.sigBit_code he hsig
      -- every operation that is one asks for a mask that fits, and the code computes its byte
      have hdone : ∀ {new n}, newBlockedSet operation s.blockedSet e.code = some new →
          Masked.newMask operation a.mask e.has = some n → FitsByte ok n →
          (∀ sig < nsig, ok sig = true → sigBit new sig = n sig) →
          (∀ sig < nsig, sigBit new sig = true → n sig = true) →
          ∃ s', s.step ok (.procmask operation (some e)) = some s' ∧
            Inv ok s' (a.step (.procmask operation (some e))) := by
        intro new n hset hmask hn hnew hle
        obtain ⟨s', hcall, hinv⟩ := h.changeMask hn hnew hle
        refine ⟨s', ?_, ?_⟩
        · simp only [step, sigprocmask, Option.map_some, hset, hcall]
        · simpa only [Masked.step, hmask, Option.elim_some] using hinv
      by_cases hblock : operation = 0
      · refine hdone (if_pos hblock) (if_pos hblock) (h.fits.or he.byte) ?_ ?_
        · intro sig hsig hok
          rw [sigBit_or, h.bits sig hsig, hcode sig hsig, hok, Bool.and_true]
        · intro sig hsig hbit
          rw [sigBit_or, h.bits sig hsig, hcode sig hsig] at hbit
          simp only [Bool.or_eq_true, Bool.and_eq_true] at hbit ⊢
          exact hbit.imp And.left id
      · by_cases hsetmask : operation = 2
        · exact hdone ((if_neg hblock).trans (if_pos hsetmask))
            ((if_neg hblock).trans (if_pos hsetmask)) he.byte
            (fun sig hsig _ => hcode sig hsig) (fun sig hsig hbit => by rwa [hcode sig hsig] at hbit)
        · by_cases hunblock : operation = 1
          · refine hdone ((if_neg hblock).trans ((if_neg hsetmask).trans (if_pos hunblock)))
              ((if_neg hblock).trans ((if_neg hsetmask).trans (if_pos hunblock))) (h.fits.diff he.byte) ?_ ?_
            · intro sig hsig hok
              rw [sigBit_diff, h.bits sig hsig, hcode sig hsig, hok, Bool.and_true]
            · intro sig hsig hbit
              rw [sigBit_diff, h.bits sig hsig, hcode sig hsig] at hbit
              simp only [Bool.and_eq_true] at hbit ⊢
              exact ⟨hbit.1.1, hbit.2⟩
          -- no operation: `EINVAL`, and nothing changes
          · refine ⟨s, by simp [step, sigprocmask, newBlockedSet, hblock, hsetmask, hunblock], ?_⟩
            simpa [Masked.step, Masked.newMask, hblock, hsetmask, hunblock] using h

/-- A handler registered for a signal that is not blocked keeps the invariant. -/
theorem Inv.register (h : Inv ok s a) {sig : ℕ} (hfree : a.mask sig = false) (f : H) :
    ∃ s', s.step ok (.register sig f) = some s' ∧ Inv ok s' (a.step (.register sig f)) := by
  refine ⟨_, rfl, h.fits, fun j hj => ?_, fun j hj hokj => ?_⟩
  · have hset : (s.signal ok sig (some (.app f))).1.blockedSet = s.blockedSet := by
      unfold signal
      split_ifs <;> rfl
    rw [hset]
    exact h.bits j hj
  · have hstands := h.stands j hj hokj
    by_cases heq : j = sig
    · subst heq
      refine ⟨?_, fun hmask => ?_, fun _ => ?_⟩
      · simpa [signal, hokj, cell, Masked.step, delivered] using hstands.delivered
      · exact absurd (hfree.symm.trans hmask) Bool.false_ne_true
      · simp [signal, hokj, cell, Masked.step]
    · refine hstands.of_eq ?_ rfl rfl (Function.update_of_ne heq _ _) rfl
      unfold signal
      split_ifs
      · simp [cell, delivered, heq]
      · rfl

/-- The arrival of a signal changes the cell of that signal only. -/
theorem cell_raise_of_ne {sig j : ℕ} (hne : j ≠ sig) : (s.raise ok sig).cell j = s.cell j := by
  unfold raise
  cases s.installed sig with
  | app f => simp [cell, delivered_append, hne.symm]
  | blocked =>
      unfold blockedHandler signal
      split_ifs <;> simp [cell, delivered, hne]

/-- The arrival of a signal keeps the set of blocked signals. -/
theorem blockedSet_raise (sig : ℕ) : (s.raise ok sig).blockedSet = s.blockedSet := by
  unfold raise
  cases s.installed sig with
  | app f => rfl
  | blocked =>
      unfold blockedHandler signal
      split_ifs <;> rfl

/-- The arrival of a signal keeps the invariant. -/
theorem Inv.arrive (h : Inv ok s a) (sig : ℕ) :
    ∃ s', s.step ok (.arrive sig) = some s' ∧ Inv ok s' (a.step (.arrive sig)) := by
  refine ⟨s.raise ok sig, rfl, ?_⟩
  by_cases hmask : a.mask sig = true
  · rw [Masked.step_arrive_of_masked hmask]
    refine ⟨h.fits, fun j hj => by rw [blockedSet_raise]; exact h.bits j hj, fun j hj hokj => ?_⟩
    have hstands := h.stands j hj hokj
    by_cases heq : j = sig
    · subst heq
      obtain ⟨hinstalled, hold, -⟩ := hstands.masked hmask
      -- `blocked_handler` runs: the signal becomes pending
      have hraise : (s.raise ok j).cell j = ⟨true, s.oldHandlers j, .blocked, s.delivered j⟩ := by
        have hblocked : s.installed j = .blocked := hinstalled
        simp [raise, hblocked, blockedHandler, signal, hokj, hj, cell, delivered]
      rw [hraise]
      exact ⟨hstands.delivered, fun _ => ⟨rfl, hold, by simp⟩, fun hfree => absurd hfree (by simp [hmask])⟩
    · exact hstands.of_eq (cell_raise_of_ne heq) rfl (Function.update_of_ne heq _ _) rfl rfl
  · rw [Masked.step_arrive_of_free hmask]
    refine ⟨h.fits, fun j hj => by rw [blockedSet_raise]; exact h.bits j hj, fun j hj hokj => ?_⟩
    have hstands := h.stands j hj hokj
    by_cases heq : j = sig
    · subst heq
      -- the handler of the application runs at once
      have hfree : s.installed j = .app (a.handler j) := hstands.free (by simpa using hmask)
      have hraise : (s.raise ok j).cell j =
          ⟨s.pendingArray j, s.oldHandlers j, .app (a.handler j), s.delivered j ++ [a.handler j]⟩ := by
        simp [raise, hfree, cell, delivered_append]
      rw [hraise]
      refine ⟨?_, fun h => absurd h hmask, fun _ => rfl⟩
      have hdelivered : s.delivered j = a.delivered j := hstands.delivered
      simp [hdelivered]
    · exact hstands.of_eq (cell_raise_of_ne heq) rfl rfl rfl (Function.update_of_ne heq _ _)

/-! ## Runs -/

/-- A run of the code; `none` is a run that reached `abort()`. -/
def run (ok : ℕ → Bool) (h₀ : ℕ → H) (es : List (SigEvent H)) : Option (Signals H) :=
  es.foldlM (step ok) (boot h₀)

end Signals

/-- A run as it is meant. -/
def Masked.run {H : Type*} (h₀ : ℕ → H) (es : List (SigEvent H)) : Masked H :=
  es.foldl Masked.step (Masked.boot h₀)

/-- Every handler of the run is registered for a signal that is not blocked then. -/
def RegistersFree {H : Type*} (h₀ : ℕ → H) (es : List (SigEvent H)) : Prop :=
  ∀ es₁ sig h es₂, es = es₁ ++ .register sig h :: es₂ → (Masked.run h₀ es₁).mask sig = false

/-- Every set of the run means what it says. -/
def MasksFit {H : Type*} (ok : ℕ → Bool) (es : List (SigEvent H)) : Prop :=
  ∀ operation e, .procmask operation (some e) ∈ es → SetExpr.Fits ok e

/-- The code did not abort, and for every signal that `signal` accepts it did what is meant: the signal is
blocked if the masks say so and has its handler else, and its handler was called for what it had to be. -/
def Agrees {H : Type*} (ok : ℕ → Bool) (r : Option (Signals H)) (a : Masked H) : Prop :=
  ∃ s, r = some s ∧ ∀ sig < nsig, ok sig = true →
    s.installed sig = (if a.mask sig then .blocked else .app (a.handler sig)) ∧
      s.delivered sig = a.delivered sig

namespace Signals

variable {H : Type*} {ok : ℕ → Bool}

/-- At the start no signal is blocked, and the invariant holds. -/
theorem inv_boot (h₀ : ℕ → H) : Inv ok (boot h₀) (Masked.boot h₀) where
  fits := ⟨fun _ _ h => absurd h Bool.false_ne_true, fun _ _ _ _ _ => rfl,
    fun _ _ _ _ _ h => absurd h Bool.false_ne_true⟩
  bits sig _ := by simp [boot, Masked.boot, sigBit_zero]
  stands sig _ _ := ⟨rfl, fun h => absurd h Bool.false_ne_true, fun _ => rfl⟩

/-- The invariant holds along every run whose sets mean what they say. -/
theorem inv_run (h₀ : ℕ → H) (es : List (SigEvent H)) (hregister : RegistersFree h₀ es)
    (hmasks : MasksFit ok es) :
    ∃ s, run ok h₀ es = some s ∧ Inv ok s (Masked.run h₀ es) := by
  induction es using List.reverseRecOn with
  | nil => exact ⟨boot h₀, rfl, inv_boot h₀⟩
  | append_singleton es e ih =>
      obtain ⟨s, hrun, hinv⟩ := ih
        (fun es₁ sig f es₂ heq => hregister es₁ sig f (es₂ ++ [e]) (by simp [heq]))
        (fun operation x hx => hmasks operation x (by simp [hx]))
      -- the last event is one of the three kinds
      have hstep : ∃ s', s.step ok e = some s' ∧ Inv ok s' ((Masked.run h₀ es).step e) := by
        cases e with
        | procmask operation set =>
            exact hinv.procmask operation (fun x hx => hmasks operation x (by simp [hx]))
        | register sig f => exact hinv.register (hregister es sig f [] rfl) f
        | arrive sig => exact hinv.arrive sig
      obtain ⟨s', hs', hinv'⟩ := hstep
      refine ⟨s', ?_, ?_⟩
      · rw [run, List.foldlM_append, ← run, hrun]
        simpa using hs'
      · rw [Masked.run, List.foldl_append]
        exact hinv'

end Signals

/-- **Masks mean what they say in every run whose sets fit the byte.** -/
theorem agrees_of_masksFit {H : Type*} (ok : ℕ → Bool) (h₀ : ℕ → H) (es : List (SigEvent H))
    (hregister : RegistersFree h₀ es) (hmasks : MasksFit ok es) :
    Agrees ok (Signals.run ok h₀ es) (Masked.run h₀ es) := by
  obtain ⟨s, hrun, hinv⟩ := Signals.inv_run h₀ es hregister hmasks
  refine ⟨s, hrun, fun sig hsig hok => ?_⟩
  have hstands := hinv.stands sig hsig hok
  refine ⟨?_, hstands.delivered⟩
  cases hmask : (Masked.run h₀ es).mask sig
  · exact hstands.free hmask
  · exact (hstands.masked hmask).1

/-- `signal` of wasi-libc refuses `SIGKILL` and `SIGSTOP`. -/
def wasiSignal (sig : ℕ) : Bool := sig != 9 && sig != 19

/-- The signals 1 and 33, which share a bit, blocked while signal 1 arrives twice. -/
def hangupRun : List (SigEvent ℕ) :=
  [.procmask 0 (some (.add (.add .empty 1) 33)), .arrive 1, .arrive 1,
    .procmask 1 (some (.add (.add .empty 1) 33)), .arrive 1]

/-- The signals of a bit that are blocked together mean what they say. -/
theorem agrees_hangupRun : RegistersFree id hangupRun ∧ MasksFit wasiSignal hangupRun ∧
    Agrees wasiSignal (Signals.run wasiSignal id hangupRun) (Masked.run id hangupRun) := by
  have hregister : RegistersFree id hangupRun := by
    intro es₁ sig h es₂ heq
    have hmem : .register sig h ∈ hangupRun := by simp [heq]
    simp [hangupRun] at hmem
  have hmasks : MasksFit wasiSignal hangupRun := by
    intro operation e he
    have hset : e = .add (.add .empty 1) 33 := by
      simp only [hangupRun, List.mem_cons, SigEvent.procmask.injEq, Option.some.injEq, reduceCtorEq,
        List.not_mem_nil,
        false_or, or_false] at he
      exact he.elim And.right And.right
    subst hset
    exact ⟨⟨by decide +kernel, by decide +kernel, by decide +kernel⟩, fun h => absurd h (by decide)⟩
  exact ⟨hregister, hmasks, agrees_of_masksFit wasiSignal id hangupRun hregister hmasks⟩

/-- `SIGTERM` is blocked, and arrives. -/
def termRun : List (SigEvent ℕ) := [.procmask 0 (some (.add .empty 15)), .arrive 15]

/-- Blocking `SIGTERM` does not block it. -/
theorem not_agrees_termRun : RegistersFree id termRun ∧
    ¬Agrees wasiSignal (Signals.run wasiSignal id termRun) (Masked.run id termRun) := by
  refine ⟨fun es₁ sig h es₂ heq => ?_, ?_⟩
  · have hmem : .register sig h ∈ termRun := by simp [heq]
    simp [termRun] at hmem
  · rintro ⟨s, hrun, h⟩
    -- `1 << 15` does not fit the byte, so that `SIGTERM` is not blocked and its handler runs
    have hcode : (Signals.run wasiSignal id termRun).map (fun s => s.delivered 15) =
      some [15] := by decide +kernel
    have hmeant : (Masked.run id termRun).delivered 15 = [] := by decide +kernel
    have hsame := (h 15 (by decide) (by decide)).2
    rw [hrun, Option.map_some, hsame, hmeant] at hcode
    exact absurd hcode (by decide)

end PgliteBuild
