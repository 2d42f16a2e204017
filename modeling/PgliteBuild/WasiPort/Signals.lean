import PgliteBuild.WasiPort.SigSet
import Mathlib.Logic.Function.Basic

/-! # Signal masks

`sigprocmask` keeps the set of blocked signals in one byte and replaces the handler of a blocked signal by
`blocked_handler`, which notes the arrival. Beside the code stands what a mask means. -/

namespace PgliteBuild

/-! ## The code -/

/-- A handler that `signal` installs: one of the application, or `blocked_handler`. -/
inductive Handler (H : Type*) where
  | app (h : H)
  | blocked
  deriving DecidableEq, Repr

/-- The tables of the signal code, the handlers installed in wasi-libc, and the calls of the application's
handlers so far. -/
structure Signals (H : Type*) where
  blockedSet : SigSet
  pendingArray : ℕ → Bool
  /-- `none` is `SIG_ERR`. -/
  oldHandlers : ℕ → Option (Handler H)
  installed : ℕ → Handler H
  calls : List (ℕ × H)

namespace Signals

variable {H : Type*} (ok : ℕ → Bool)

/-- `signal`, which succeeds for the signals of `ok`; `none` is `SIG_ERR`. -/
def signal (s : Signals H) (sig : ℕ) : Option (Handler H) → Signals H × Option (Handler H)
  | none => (s, none)
  | some h =>
      if ok sig then ({ s with installed := Function.update s.installed sig h }, some (s.installed sig))
      else (s, none)

/-- `blocked_handler`. -/
def blockedHandler (s : Signals H) (sig : ℕ) : Signals H :=
  -- the handler installs itself again before it notes the signal
  let s := (s.signal ok sig (some .blocked)).1
  if sig < nsig then { s with pendingArray := Function.update s.pendingArray sig true } else s

/-- `raise`, and the arrival of a signal: wasi-libc calls the installed handler. -/
def raise (s : Signals H) (sig : ℕ) : Signals H :=
  match s.installed sig with
  | .app h => { s with calls := s.calls ++ [(sig, h)] }
  | .blocked => s.blockedHandler ok sig

/-- One round of the loop over `to_block`. -/
def blockRound (toBlock : SigSet) (s : Signals H) (sig : ℕ) : Option (Signals H) :=
  if sigBit toBlock sig then
    let s := { s with pendingArray := Function.update s.pendingArray sig false }
    let r := s.signal ok sig (some .blocked)
    let s := { r.1 with oldHandlers := Function.update r.1.oldHandlers sig r.2 }
    -- where `signal` refuses, `old_handlers` keeps `SIG_ERR` and the bit stays as it was
    if r.2.isSome then some { s with blockedSet := setBit s.blockedSet sig } else some s
  else some s

/-- One round of the loop over `to_unblock`, with the array `received`; `none` is `abort()`. -/
def unblockRound (toUnblock : SigSet) (s : Signals H × (ℕ → Bool)) (sig : ℕ) :
  Option (Signals H × (ℕ → Bool)) :=
  if sigBit toUnblock sig then
    -- `abort()` unless what was installed is `blocked_handler`
    match s.1.signal ok sig (s.1.oldHandlers sig) with
    | (s', some .blocked) =>
        some ({ s' with
          blockedSet := clearBit s'.blockedSet sig
          pendingArray := Function.update s'.pendingArray sig false },
          Function.update s.2 sig (s'.pendingArray sig))
    | _ => none
  else some (s.1, Function.update s.2 sig false)

/-- One round of the loop that raises what was received. -/
def raiseRound (received : ℕ → Bool) (s : Signals H) (sig : ℕ) : Option (Signals H) :=
  some (if received sig then s.raise ok sig else s)

/-- The part of `sigprocmask` under `if (to_block != 0)`. -/
def blockAll (toBlock : SigSet) (s : Signals H) : Option (Signals H) :=
  if toBlock ≠ 0 then (List.range nsig).foldlM (blockRound ok toBlock) s else some s

/-- The part of `sigprocmask` under `if (to_unblock != 0)`. -/
def unblockAll (toUnblock : SigSet) (s : Signals H) : Option (Signals H) :=
  if toUnblock ≠ 0 then
    -- all are unblocked before the first one is raised
    ((List.range nsig).foldlM (unblockRound ok toUnblock) (s, fun _ => false)).bind fun r =>
      (List.range nsig).foldlM (raiseRound ok r.2) r.1
  else some s

/-- The switch of `sigprocmask`: `new_blocked_set`, if the operation is one. -/
def newBlockedSet (operation : ℤ) (blocked set : SigSet) : Option SigSet :=
  -- `SIG_BLOCK`, `SIG_SETMASK` and `SIG_UNBLOCK`
  if operation = 0 then some (blocked ||| set)
  else if operation = 2 then some set
  else if operation = 1 then some (blocked &&& ~~~set)
  else none

/-- `sigprocmask`: the tables, the returned value and `*old_set`; `none` is `abort()`. -/
def sigprocmask (operation : ℤ) (set : Option SigSet) (s : Signals H) : Option (Signals H × ℤ × SigSet) :=
  match set with
  | none => some (s, 0, s.blockedSet)
  | some set =>
      match newBlockedSet operation s.blockedSet set with
      | none => some (s, -1, s.blockedSet)
      | some new =>
          ((s.blockAll ok (new &&& ~~~s.blockedSet)).bind
            (unblockAll ok (s.blockedSet &&& ~~~new))).map fun s' => (s', 0, s.blockedSet)

end Signals

/-- What happens in a run: a call of `sigprocmask`, a handler registered with `signal`, a signal. -/
inductive SigEvent (H : Type*) where
  | procmask (operation : ℤ) (set : Option SetExpr)
  | register (sig : ℕ) (h : H)
  | arrive (sig : ℕ)

namespace Signals

variable {H : Type*} (ok : ℕ → Bool)

/-- The tables before the first call, with the handlers `h₀`. -/
def boot (h₀ : ℕ → H) : Signals H :=
  ⟨0, fun _ => false, fun _ => none, fun sig => .app (h₀ sig), []⟩

/-- One event. -/
def step (s : Signals H) : SigEvent H → Option (Signals H)
  | .procmask operation set => (s.sigprocmask ok operation (set.map SetExpr.code)).map Prod.fst
  | .register sig h => some (s.signal ok sig (some (.app h))).1
  | .arrive sig => some (s.raise ok sig)

/-- The calls of the application's handler for a signal. -/
def delivered (s : Signals H) (sig : ℕ) : List H := (s.calls.filter fun c => c.1 == sig).map Prod.snd

end Signals

/-! ## Signal masks as they are meant -/

/-- What a program knows of its signals: which it blocked, which of those arrived, the handlers, and what
they were called for. -/
structure Masked (H : Type*) where
  mask : ℕ → Bool
  pending : ℕ → Bool
  handler : ℕ → H
  delivered : ℕ → List H

namespace Masked

variable {H : Type*}

/-- Nothing blocked, with the handlers `h₀`. -/
def boot (h₀ : ℕ → H) : Masked H := ⟨fun _ => false, fun _ => false, h₀, fun _ => []⟩

/-- The mask that an operation asks for, if it is one. -/
def newMask (operation : ℤ) (mask m : ℕ → Bool) : Option (ℕ → Bool) :=
  if operation = 0 then some fun sig => mask sig || m sig
  else if operation = 2 then some m
  else if operation = 1 then some fun sig => mask sig && !m sig
  else none

/-- Change the mask: a signal that is unblocked while pending goes to its handler, once. -/
def setMask (a : Masked H) (n : ℕ → Bool) : Masked H where
  mask := n
  pending sig := a.mask sig && n sig && a.pending sig
  handler := a.handler
  delivered sig :=
    if a.mask sig && !n sig && a.pending sig then a.delivered sig ++ [a.handler sig] else a.delivered sig

@[simp] theorem setMask_handler (a : Masked H) (n : ℕ → Bool) : (a.setMask n).handler = a.handler := rfl

/-- One event. A signal that arrives while it is blocked is kept. -/
def step (a : Masked H) : SigEvent H → Masked H
  | .procmask operation (some e) => (newMask operation a.mask e.has).elim a a.setMask
  | .procmask _ none => a
  | .register sig h => { a with handler := Function.update a.handler sig h }
  | .arrive sig =>
      if a.mask sig then { a with pending := Function.update a.pending sig true }
      else { a with delivered := Function.update a.delivered sig (a.delivered sig ++ [a.handler sig]) }

/-- A masked signal that arrives is pending. -/
theorem step_arrive_of_masked {a : Masked H} {sig : ℕ} (h : a.mask sig = true) :
    a.step (.arrive sig) = { a with pending := Function.update a.pending sig true } := if_pos h

/-- A free signal that arrives is delivered to its handler. -/
theorem step_arrive_of_free {a : Masked H} {sig : ℕ} (h : ¬a.mask sig = true) :
    a.step (.arrive sig) =
      { a with delivered := Function.update a.delivered sig (a.delivered sig ++ [a.handler sig]) } :=
  if_neg h

end Masked

end PgliteBuild
