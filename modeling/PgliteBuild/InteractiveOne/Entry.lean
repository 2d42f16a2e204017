import PgliteBuild.InteractiveOne.Code

/-! # The entry of `interactive_one`

A call takes one of three ways in: it resumes after an error (`interactive_write(-1)`), it flushes what
an earlier frame left in `SOCKET_DATA`, or it meets a request. The equations of this file say which, and
what the intake does to the state for each transport. -/

namespace PgliteBuild

open Effect

variable {σ : Type} {b : Build} {B : Backend σ} {s : State σ}

/-! ## The three ways in -/

/-- The state with the locals of a new activation. -/
def State.begin (s : State σ) : State σ :=
  { s with peek := none, pipelining := true, inBuf := [], fp := false, armed := false }

/-- The state with a client port. -/
def State.connected (b : Build) (s : State σ) : State σ := if s.myProcPort then s else ioInit b s

/-- The state with a client port and an open socket file. -/
def State.opened (b : Build) (s : State σ) : State σ :=
  { s.connected b with comm := (s.connected b).comm.openSocketFile }

section Opened

variable (b : Build) (s : State σ)

@[simp] theorem opened_trace : (s.opened b).trace = s.trace := by
  unfold State.opened State.connected
  split_ifs <;> rfl

@[simp] theorem opened_sendReadyForQuery : (s.opened b).sendReadyForQuery = s.sendReadyForQuery := by
  unfold State.opened State.connected
  split_ifs <;> rfl

@[simp] theorem opened_notifyInterruptPending :
    (s.opened b).notifyInterruptPending = s.notifyInterruptPending := by
  unfold State.opened State.connected
  split_ifs <;> rfl

@[simp] theorem opened_db : (s.opened b).db = s.db := by
  unfold State.opened State.connected
  split_ifs <;> rfl

@[simp] theorem openSocketFile_cmaRsize (c : Comm) : c.openSocketFile.cmaRsize = c.cmaRsize := by
  unfold Comm.openSocketFile
  split <;> rfl

@[simp] theorem openSocketFile_pgsIn (c : Comm) : c.openSocketFile.pgsIn = c.pgsIn := by
  unfold Comm.openSocketFile
  split <;> rfl

@[simp] theorem opened_cmaRsize : (s.opened b).comm.cmaRsize = s.comm.cmaRsize := by
  unfold State.opened State.connected
  split_ifs <;> exact openSocketFile_cmaRsize _

@[simp] theorem opened_pgsIn : (s.opened b).comm.pgsIn = s.comm.pgsIn := by
  unfold State.opened State.connected
  split_ifs <;> exact openSocketFile_pgsIn _

end Opened

/-- The resume call. -/
theorem interactiveOne_resume (h : s.comm.cmaRsize < 0) (fuel : ℕ) :
    interactiveOne b B fuel s = run b B fuel .resumeOnError s.begin := by
  rw [interactiveOne, run_bind_ok (run_modify _ _), run_bind_ok (run_get _), if_pos h]
  rfl

/-- What follows `io_init`. -/
theorem interactiveOne_connected (h : ¬s.comm.cmaRsize < 0) (fuel : ℕ) :
    interactiveOne b B fuel s =
      if 0 < (s.begin.connected b).comm.socketData then
        run b B fuel .wireFlush (s.begin.connected b)
      else
        (do
          prologue b B
          let next ← intake b B
          run b B fuel next) (s.begin.opened b) := by
  have hrest : ∀ s : State σ, (do
      if 0 < (← get).comm.socketData then run b B fuel .wireFlush
      else
        modify fun s => { s with comm := s.comm.openSocketFile }
        prologue b B
        let next ← intake b B
        run b B fuel next : PgM σ Unit) s =
      if 0 < s.comm.socketData then run b B fuel .wireFlush s
      else
        (do
          prologue b B
          let next ← intake b B
          run b B fuel next) { s with comm := s.comm.openSocketFile } := by
    intro s
    rw [run_bind_ok (run_get _)]
    split_ifs
    · rfl
    · rw [run_bind_ok (run_modify _ _)]
  rw [interactiveOne, run_bind_ok (run_modify _ _), run_bind_ok (run_get _), if_neg h,
    run_bind_ok (run_get _), State.opened]
  by_cases hport : s.myProcPort = true
  · have hconn : s.begin.connected b = s.begin := if_pos hport
    have hcond : ¬(!s.begin.myProcPort) = true := by simp [State.begin, hport]
    rw [hconn]
    exact Eq.trans (congrFun (if_neg hcond) _) (hrest s.begin)
  · have hconn : s.begin.connected b = ioInit b s.begin := if_neg hport
    have hcond : (!s.begin.myProcPort) = true := by simp [State.begin, hport]
    rw [hconn]
    refine Eq.trans (congrFun (if_pos hcond) _) ?_
    rw [run_bind_ok (run_modify _ _)]
    exact hrest (ioInit b s.begin)

/-! ## Meeting a request -/

/-- The intake of a wire packet of two bytes or more in the memory area. -/
theorem intake_cma_wire (hsize : 2 ≤ s.comm.cmaRsize) (hrepl : s.isRepl = false) :
    intake b B s = .ok .incoming { s with
      peek := some (s.comm.mem .cma 1)
      whereToSendOutput := .remote
      comm := { s.comm with sockfiles := false }
      inBuf := [] } := by
  have hlen : ¬s.comm.cmaRsize.toNat < 2 := by omega
  have hne : s.comm.cmaRsize ≠ 0 := by omega
  rw [intake, run_bind_ok (run_modify _ _), run_bind_ok (run_get _), if_pos hne,
    run_bind_ok (run_modify _ _), intakeMemory, run_bind_ok (run_modify _ _), if_neg hlen]
  simp [hrepl]

/-- The state with a socket file's contents in the receive buffer, or in `inBuf` for the repl. -/
def State.presented (b : Build) (content : List UInt8) (s : State σ) : State σ :=
  if s.isRepl && !s.isWire then
    { s with peek := content.head?, inBuf := content, comm := { s.comm with sockfiles := false } }
  else
    { s with
      peek := content.head?
      whereToSendOutput := .remote
      comm := { pqRecvbufFill b content content.length s.comm with sockfiles := true } }

/-- What the intake does with a socket file depends on its first byte. -/
theorem intakeFile_eq (content : List UInt8) :
    intakeFile b B content s = (if content.head? = some 0 then do
        startupAuth b
        pure .wireFlush
      else if content.head? = some 112 then do
        startupPass b B true
        pure .wireFlush
      else pure .incoming : PgM σ Label) (s.presented b content) := by
  have hpeek : (s.presented b content).peek = content.head? := by
    unfold State.presented
    split_ifs <;> rfl
  have hrest : ∀ s : State σ, (do
      if (← get).peek = some 0 then
        startupAuth b
        pure .wireFlush
      else if (← get).peek = some 112 then
        startupPass b B true
        pure .wireFlush
      else pure .incoming : PgM σ Label) s =
      (if s.peek = some 0 then do
        startupAuth b
        pure .wireFlush
      else if s.peek = some 112 then do
        startupPass b B true
        pure .wireFlush
      else pure .incoming : PgM σ Label) s := by
    intro s
    rw [run_bind_ok (run_get _)]
    split_ifs
    · rfl
    all_goals rw [run_bind_ok (run_get _)]; simp_all
  rw [← hpeek, ← hrest, intakeFile, run_bind_ok (run_modify _ _), run_bind_ok (run_get _),
    run_bind_ok (run_get _), State.presented]
  split_ifs <;> rfl

/-- The intake of a socket file that is not empty. -/
theorem intake_file (hsize : s.comm.cmaRsize = 0) {t : UInt8} {rest : List UInt8}
    (hfile : s.comm.pgsIn = some (t :: rest)) :
    intake b B s =
      intakeFile b B (t :: rest) { s with peek := some (s.comm.mem .cma 1), fp := true } := by
  rw [intake, run_bind_ok (run_modify _ _), run_bind_ok (run_get _), if_neg (by simp [hsize])]
  simp only [hfile]
  rw [run_bind_ok (run_modify _ _)]

/-- The intake without input: what the memory area holds is for the repl. -/
theorem intake_none (hsize : s.comm.cmaRsize = 0)
    (hfile : s.comm.pgsIn.bind List.head? = none) :
    intake b B s =
      (if s.comm.mem .cma 1 = 0 then pure .returnEarly
        else intakeMemory (s.comm.strlenIO b.cmaEnd.toNat 1) : PgM σ Label)
        { s with peek := some (s.comm.mem .cma 1), fp := s.comm.pgsIn.isSome } := by
  rw [intake, run_bind_ok (run_modify _ _), run_bind_ok (run_get _), if_neg (by simp [hsize])]
  cases hcontent : s.comm.pgsIn with
  | none => rfl
  | some content =>
      cases content with
      | nil => rfl
      | cons t rest => simp [hcontent] at hfile

/-- Without notifications to deliver, the prologue only drops an owed ReadyForQuery. -/
theorem prologue_quiet (h : s.sendReadyForQuery = true → B.blockState s.db = .idle →
    s.notifyInterruptPending = false) :
    prologue b B s = .ok () { s with sendReadyForQuery := false } := by
  rw [prologue, run_bind_ok (run_get _)]
  by_cases hready : s.sendReadyForQuery = true
  · rw [if_pos hready, run_bind_ok (run_get _), run_bind_ok (run_get _)]
    have hcond : ¬(B.blockState s.db = .idle ∧ s.notifyInterruptPending = true) := fun hc => by
      simp [h hready hc.1] at hc
    exact congrFun (if_neg hcond) _
  · rw [if_neg hready]
    have hfalse : s.sendReadyForQuery = false := by simpa using hready
    rw [← hfalse]
    rfl

/-- With a client port, nothing to flush and no notifications to deliver, a call goes straight to its
request. -/
theorem interactiveOne_quiet (hsize : ¬s.comm.cmaRsize < 0) (hport : s.myProcPort = true)
    (hdata : s.comm.socketData ≤ 0) (hquiet : s.sendReadyForQuery = true → B.blockState s.db = .idle →
      s.notifyInterruptPending = false) (fuel : ℕ) :
    interactiveOne b B fuel s = (do
        let next ← intake b B
        run b B fuel next)
      { s.begin with comm := s.comm.openSocketFile, sendReadyForQuery := false } := by
  have hconn : s.begin.connected b = s.begin := if_pos hport
  have hopen : s.begin.opened b = { s.begin with comm := s.comm.openSocketFile } := by
    rw [State.opened, hconn]
    rfl
  have hnone : ¬0 < (s.begin.connected b).comm.socketData := by
    rw [hconn]
    exact not_lt.mpr hdata
  rw [interactiveOne_connected hsize, if_neg hnone, hopen]
  exact run_bind_ok (prologue_quiet hquiet)

/-! ## One step -/

/-- What a step from a label does: its block, and the handler if the block raises an error and the
handler is armed. -/
theorem wp_step (l : Label) (post : Option Label → State σ → Prop) (exn : Stop → State σ → Prop)
    (s : State σ) :
    wp (step b B l) post exn s ↔
      wp (block b B l) post (fun e s' =>
        if e = .error ∧ s'.armed = true then wp (handler b B) (fun l' => post (some l')) exn s'
        else exn e s') s := by
  unfold wp step
  cases hblock : block b B l s with
  | ok next s' => rfl
  | error e s' =>
      cases e with
      | error =>
          dsimp only
          by_cases harmed : s'.armed = true
          · rw [if_pos harmed, if_pos ⟨rfl, harmed⟩]
            cases handler b B s' <;> rfl
          · rw [if_neg harmed, if_neg fun h => harmed h.2]
      | fatal message => simp
      | abort => simp
      | trap => simp
      | outOfFuel => simp

end PgliteBuild
