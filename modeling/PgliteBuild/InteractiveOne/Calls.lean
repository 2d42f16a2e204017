import PgliteBuild.InteractiveOne.Entry
import PgliteBuild.Pqcomm.Receive

/-! # Calls of `interactive_one` by the host

What the host does around a call, how a call ends, and what the end of a call hands over. The end is
the same for every call that reaches `wire_flush`: `handOver` publishes the reply (`State.handedOver` is
its closed form), and `returnEarly` frees the request. -/

namespace PgliteBuild

open BlockMemory Effect Jumps

variable {σ : Type} {b : Build} {B : Backend σ} {s : State σ}

/-! ## Requests -/

/-- The host writes a request to the memory area and announces its size, or writes it to `PGS_IN`. The
history of bytes taken starts anew. -/
def State.request (t : Transport) (packet : List UInt8) (s : State σ) : State σ :=
  match t with
  | .cma => interactiveWrite packet.length
      { s with comm := { s.comm with mem := s.comm.mem.write ⟨.cma, 1⟩ packet, taken := [] } }
  | .file => { s with comm := { s.comm with pgsIn := some packet, taken := [] } }

/-! ## Calls -/

/-- The call made in the state `s` ends with the result `r`. -/
def Calls (b : Build) (B : Backend σ) (s : State σ) (r : EStateM.Result Stop (State σ) Unit) : Prop :=
  ∃ fuel, ∀ k, interactiveOne b B (fuel + k) s = r

/-- A call ends in one way only. -/
theorem Calls.unique {r r' : EStateM.Result Stop (State σ) Unit} (h : Calls b B s r)
    (h' : Calls b B s r') : r = r' := by
  obtain ⟨fuel, hfuel⟩ := h
  obtain ⟨fuel', hfuel'⟩ := h'
  rw [← hfuel fuel', ← hfuel' fuel, Nat.add_comm]

/-- A call ends as the code does that it reaches behind the entry. -/
theorem calls_of_ends {l : Label} {s' : State σ} {r : EStateM.Result Stop (State σ) Unit}
    (hentry : ∀ fuel, interactiveOne b B fuel s = run b B fuel l s') (hends : Ends (step b B) l s' r) :
    Calls b B s r := by
  obtain ⟨fuel, hfuel⟩ := hends.follow Stop.outOfFuel
  refine ⟨fuel, fun k => ?_⟩
  rw [hentry, run, hfuel]

/-- Opening the socket file leaves the input, the memory and `SOCKET_DATA` alone. -/
theorem openSocketFile_frame (c : Comm) :
    c.openSocketFile.recvSide = c.recvSide ∧ c.openSocketFile.mem = c.mem ∧
      c.openSocketFile.socketFile.isSome = true ∧ c.openSocketFile.socketData = c.socketData := by
  unfold Comm.openSocketFile
  split
  · exact ⟨rfl, rfl, rfl, rfl⟩
  · next content hcontent => exact ⟨rfl, rfl, by simp [hcontent], rfl⟩

/-! ## The end of a call -/

/-- `fclose(SOCKET_FILE)` of an open file. -/
theorem closeSocketFile_eq {content : List UInt8} (hfile : s.comm.socketFile = some content)
    (publish : Bool) :
    closeSocketFile publish s = .ok () (if publish then
      { s with
        comm := { s.comm with socketFile := none, pgsOlock := none, pgsOut := some content }
        trace := s.trace ++ [.rename] }
      else { s with comm := { s.comm with socketFile := none, pgsOlock := some content } }) := by
  rw [closeSocketFile, run_bind_ok (run_get _)]
  simp only [hfile]
  rw [run_bind_ok (run_modify _ _)]
  cases publish <;> rfl

/-- The state after the reply is handed over. -/
def State.handedOver (content : List UInt8) (s : State σ) : State σ :=
  if s.comm.sockfiles then
    -- the socket file is published
    { s with
      channel := if 0 < s.comm.socketData then -1 else s.channel
      cmaWsize := if 0 < s.comm.socketData then s.cmaWsize else 0
      comm := { s.comm with
        socketFile := none
        pgsOlock := none
        pgsOut := some content
        socketData := if 0 < s.comm.socketData then 0 else s.comm.socketData }
      trace := s.trace ++ [.rename] }
  else if 0 < s.comm.socketData then
    -- the reply is in the memory area
    { s with
      channel := s.comm.cmaRsize + 2
      cmaWsize := s.comm.socketData
      comm := { s.comm with socketFile := none, pgsOlock := some content, socketData := 0 } }
  else { s with cmaWsize := 0 }

/-- **Closed form of the hand-over**, with an open socket file. -/
theorem handOver_eq {content : List UInt8} (hfile : s.comm.socketFile = some content) :
    handOver s = .ok () (s.handedOver content) := by
  -- the reply is closed, and the count of its bytes reset
  have hclose : ∀ s : State σ, s.comm.socketFile = some content →
      (do
        if (← get).comm.socketFile.isSome then closeSocketFile (← get).comm.sockfiles
        modify fun s => { s with comm := { s.comm with socketData := 0 } } : PgM σ Unit) s =
      .ok () (if s.comm.sockfiles then
        { s with
          comm := { s.comm with
            socketFile := none, pgsOlock := none, pgsOut := some content, socketData := 0 }
          trace := s.trace ++ [.rename] }
        else { s with comm := { s.comm with
          socketFile := none, pgsOlock := some content, socketData := 0 } }) := by
    intro s hs
    rw [run_bind_ok (run_get _), if_pos (by simp [hs]), run_bind_ok (run_get _),
      run_bind_ok (closeSocketFile_eq hs _)]
    split_ifs <;> rfl
  rw [handOver, run_bind_ok (run_get _), State.handedOver]
  by_cases hdata : 0 < s.comm.socketData
  · rw [if_pos hdata, run_bind_ok (run_get _)]
    by_cases hsock : s.comm.sockfiles = true
    · rw [if_pos hsock, if_pos hsock, run_bind_ok (run_modify _ _)]
      refine (hclose { s with channel := -1 } hfile).trans ?_
      rw [if_pos hsock, if_pos hdata, if_pos hdata, if_pos hdata]
    · rw [if_neg hsock, if_neg hsock, if_pos hdata, run_bind_ok (run_modify _ _)]
      refine (hclose { s with
        cmaWsize := s.comm.socketData, channel := s.comm.cmaRsize + 2 } hfile).trans ?_
      rw [if_neg hsock]
  · rw [if_neg hdata, run_bind_ok (run_modify _ _), run_bind_ok (run_get _)]
    by_cases hsock : s.comm.sockfiles = true
    · rw [if_pos hsock, if_pos hsock]
      refine (closeSocketFile_eq (s := { s with cmaWsize := 0 }) hfile true).trans ?_
      rw [if_pos rfl, if_neg hdata, if_neg hdata, if_neg hdata]
    · rw [if_neg hsock, if_neg hsock, if_neg hdata]
      rfl

/-- The state in which a call returns. -/
def State.returned (s : State σ) : State σ :=
  { s with
    comm := { s.comm with
      pgsIn := if s.fp then none else s.comm.pgsIn
      cmaRsize := 0
      mem := s.comm.mem.write ⟨.cma, 1⟩ [0] }
    fp := false
    canaryEx := 0 }

/-- From `return_early` the call returns. -/
theorem ends_returnEarly (s : State σ) : Ends (step b B) .returnEarly s (.ok () s.returned) :=
  .last rfl

end PgliteBuild
