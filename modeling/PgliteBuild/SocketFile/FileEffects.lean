import PgliteBuild.InteractiveOne.Calls
import PgliteBuild.InteractiveOne.Moves
import PgliteBuild.SocketFile.Handshake

/-! # What a call does to the socket files

The server of the handshake is `interactive_one` in wire mode without a packet in the memory area. A
call that finds a request in `PGS_IN` and returns has removed it, and `PGS_OUT` holds every byte that
was put during the call; a call that finds none leaves the files alone but for an open `PGS_OLOCK`. Both
take the steps of the handshake's server (`fileCall_simulates`, `emptyCall_simulates`). -/

namespace PgliteBuild

open Effect Jumps Runs

variable {σ τ : Type} {b : Build} {B : Backend σ} {c c' : Comm} {s s₀ t : State σ}

/-! ## The files of a connection -/

/-- Where the reply goes, and the socket files. -/
structure SocketFiles where
  sockfiles : Bool
  socketFile : Option (List UInt8)
  pgsIn : Option (List UInt8)
  pgsOlock : Option (List UInt8)
  pgsOut : Option (List UInt8)

/-- The socket files of a connection. -/
def Comm.socketFiles (c : Comm) : SocketFiles :=
  ⟨c.sockfiles, c.socketFile, c.pgsIn, c.pgsOlock, c.pgsOut⟩

/-- Reading leaves the files alone. -/
theorem socketFiles_of_sendSide (h : c'.sendSide = c.sendSide) : c'.socketFiles = c.socketFiles :=
  (congrArg Comm.socketFiles h :)

/-- Starting a message touches no socket file. -/
theorem startmsgread_socketFiles (b : Build) (c : Comm) :
    (c.startmsgread b).socketFiles = c.socketFiles := by
  unfold Comm.startmsgread Comm.pointBuffers
  split_ifs <;> rfl

/-- `pq_recvbuf_fill` touches no socket file. -/
theorem pqRecvbufFill_socketFiles (b : Build) (fp : List UInt8) (packetlen : ℕ) (c : Comm) :
    (pqRecvbufFill b fp packetlen c).socketFiles = c.socketFiles := by
  unfold pqRecvbufFill
  split_ifs <;> rfl

/-- Once the reply goes to the socket file, a send appends to it. -/
theorem socketFiles_send {content : List UInt8} (hsock : c.sockfiles = true)
    (hfile : c.socketFile = some content) (op : SendOp) :
    (c.send op).socketFiles = { c.socketFiles with socketFile := some (content ++ op.bytes) } := by
  cases op with
  | putbytes s => simp [Comm.send, Comm.putbytes, Comm.spill, Comm.socketFiles, SendOp.bytes, hsock, hfile]
  | flush => simp [Comm.send, Comm.socketFiles, SendOp.bytes, hsock, hfile]

/-- Sends append their bytes to the socket file that is open. -/
theorem socketFiles_sends {content : List UInt8} (hsock : c.sockfiles = true)
    (hfile : c.socketFile = some content) (ops : List SendOp) :
    (ops.foldl Comm.send c).socketFiles =
      { c.socketFiles with socketFile := some (content ++ ops.flatMap SendOp.bytes) } := by
  induction ops generalizing c content with
  | nil =>
      rw [List.flatMap_nil, List.append_nil, ← hfile]
      rfl
  | cons op ops ih =>
      have hsend := socketFiles_send hsock hfile op
      have hsock' : (c.send op).sockfiles = true := (congrArg SocketFiles.sockfiles hsend).trans hsock
      rw [List.foldl_cons, ih hsock' (congrArg SocketFiles.socketFile hsend), hsend, List.flatMap_cons,
        List.append_assoc]

/-- An operation that puts nothing leaves the files alone. -/
theorem socketFiles_step {content : List UInt8} (hsock : c.sockfiles = true)
    (hfile : c.socketFile = some content) {op : CallOp} (hbytes : op.bytes = [])
    (hstep : op.step b c c') : c'.socketFiles = c.socketFiles := by
  rw [CallOp.step] at hstep
  cases op with
  | startmsg =>
      rcases Bool.eq_false_or_eq_true c.pqCommReadingMsg with hreading | hreading
      · rw [CallOp.run, run_bind_error (pqStartmsgread_reading hreading)] at hstep
        cases hstep
      · rw [CallOp.run, run_bind_ok (pqStartmsgread_eq hreading)] at hstep
        cases hstep
        exact (socketFiles_of_sendSide (pqGetbyte_sendSide b _)).trans (startmsgread_socketFiles b c)
  | getbyte =>
      cases hstep
      exact socketFiles_of_sendSide (pqGetbyte_sendSide b c)
  | getmessage maxlen =>
      cases hstep
      obtain ⟨flag, hsend⟩ := pqGetmessage_sendSide b maxlen c
      exact (socketFiles_of_sendSide hsend).trans rfl
  | endmsgread =>
      cases hstep
      rfl
  | send op =>
      cases op with
      | putbytes bytes =>
          obtain rfl : bytes = [] := hbytes
          rw [CallOp.run, SendOp.run, internalPutbytes_eq (by simp [hfile])] at hstep
          cases hstep
          have hsend := socketFiles_send hsock hfile (.putbytes [])
          rw [SendOp.bytes, List.append_nil, ← hfile] at hsend
          exact hsend
      | flush =>
          have hsend := socketFiles_send hsock hfile .flush
          rw [SendOp.bytes, List.append_nil, ← hfile] at hsend
          cases hstep
          exact hsend

/-! ## The invariant of a call -/

/-- The call that began in `s₀` has met its request, and all that it put is in the socket file. -/
structure Answering (s₀ s : State σ) : Prop where
  repl : s.isRepl = false
  fp : s.fp = true
  reply : ∃ es, s.trace = s₀.trace ++ es ∧ s.comm.sockfiles = true ∧
    s.comm.socketFile = some (es.flatMap Event.bytes) ∧ s.comm.pgsOut = s₀.comm.pgsOut

/-- An event that puts nothing. -/
theorem Answering.note (h : Answering s₀ s) {e : Event} (he : e.bytes = []) :
    Answering s₀ { s with trace := s.trace ++ [e] } := by
  obtain ⟨es, htrace, hsock, hfile, hout⟩ := h.reply
  refine ⟨h.repl, h.fp, es ++ [e], ?_, hsock, ?_, hout⟩
  · rw [htrace, List.append_assoc]
  · rw [List.flatMap_append, List.flatMap_singleton, he, List.append_nil]
    exact hfile

/-- Reading leaves the reply alone. -/
theorem Answering.socketFiles (h : Answering s₀ s) (hsame : c'.socketFiles = s.comm.socketFiles) :
    Answering s₀ { s with comm := c' } := by
  obtain ⟨es, htrace, hsock, hfile, hout⟩ := h.reply
  have hsock' : c'.sockfiles = s.comm.sockfiles := congrArg SocketFiles.sockfiles hsame
  have hfile' : c'.socketFile = s.comm.socketFile := congrArg SocketFiles.socketFile hsame
  have hout' : c'.pgsOut = s.comm.pgsOut := congrArg SocketFiles.pgsOut hsame
  exact ⟨h.repl, h.fp, es, htrace, hsock'.trans hsock, hfile'.trans hfile, hout'.trans hout⟩

/-- An assignment to control variables is part of answering. -/
theorem Answering.control {s' : State σ} (h : Answering s₀ s) (hsame : SameFrame s s') :
    Answering s₀ s' := by
  obtain ⟨es, htrace, hsock, hfile, hout⟩ := h.reply
  refine ⟨hsame.isRepl.trans h.repl, hsame.fp.trans h.fp, es, hsame.trace.trans htrace, ?_⟩
  rw [hsame.comm]
  exact ⟨hsock, hfile, hout⟩

/-- A step that does not read is part of answering. -/
theorem Answering.sendMove {s' : State σ} (h : Answering s₀ s) (hmove : SendMove s s') :
    Answering s₀ s' := by
  obtain ⟨es, htrace, hsock, hfile, hout⟩ := h.reply
  cases hmove with
  | control hsame => exact h.control hsame
  | note he => 
      refine h.note ?_
      rename_i e
      cases e <;> first | rfl | cases he
  | put source ops =>
      have hsends := socketFiles_sends hsock hfile ops
      refine ⟨h.repl, h.fp, es ++ [.put source (ops.flatMap SendOp.bytes)], ?_, ?_, ?_, ?_⟩
      · show s.trace ++ _ = s₀.trace ++ _
        rw [htrace, List.append_assoc]
      · exact (congrArg SocketFiles.sockfiles hsends).trans hsock
      · rw [List.flatMap_append, List.flatMap_singleton]
        exact congrArg SocketFiles.socketFile hsends
      · exact (congrArg SocketFiles.pgsOut hsends).trans hout
  | flush =>
      have hsend := socketFiles_send hsock hfile .flush
      rw [SendOp.bytes, List.append_nil, ← hfile] at hsend
      exact h.socketFiles hsend
  | closed _ hnone => cases hnone.symm.trans hfile

/-- Every step of the code keeps the invariant. -/
theorem Answering.move {s' : State σ} (h : Answering s₀ s) (hmove : Move b s s') : Answering s₀ s' := by
  obtain ⟨es, htrace, hsock, hfile, hout⟩ := h.reply
  cases hmove with
  | send hsend => exact h.sendMove hsend
  | call op hbytes hstep => exact h.socketFiles (socketFiles_step hsock hfile hbytes hstep)
  | negative => exact h.socketFiles (startmsgread_socketFiles b s.comm)
  | leave hsame =>
      have hleft : Answering s₀ { s with isRepl := false } :=
        ⟨rfl, h.fp, es, htrace, hsock, hfile, hout⟩
      exact hleft.control hsame

/-! ## The labels of a call -/

/-- What the hand-over leaves for `return_early`. -/
structure Published (s₀ s : State σ) : Prop where
  fp : s.fp = true
  closed : s.comm.socketFile = none
  pgsOlock : s.comm.pgsOlock = none
  pgsOut : ∃ es, s.trace = s₀.trace ++ es ∧ s.comm.pgsOut = some (es.flatMap Event.bytes)

/-- What holds at a label. -/
def FileLabel (s₀ : State σ) : Label → State σ → Prop
  | .returnEarly, s => Published s₀ s
  | .incoming, s | .loop, s | .resumeOnError, s | .wireFlush, s => Answering s₀ s

/-- Handing the reply over publishes it. -/
theorem Answering.handedOver {content : List UInt8} (h : Answering s₀ s)
    (hfile : s.comm.socketFile = some content) : Published s₀ (s.handedOver content) := by
  obtain ⟨es, htrace, hsock, hreply, hout⟩ := h.reply
  obtain rfl : content = es.flatMap Event.bytes := Option.some.inj (hfile.symm.trans hreply)
  rw [State.handedOver, if_pos hsock]
  refine ⟨h.fp, rfl, rfl, es ++ [.rename], ?_, ?_⟩
  · show s.trace ++ _ = s₀.trace ++ _
    rw [htrace, List.append_assoc]
  · rw [List.flatMap_append, List.flatMap_singleton, Event.bytes, List.append_nil]

/-- From `incoming` an answer goes on at a label of the call. -/
theorem answering_incoming (h : Answering s₀ s) :
    wp (block b B .incoming) (fun next s' => ∃ l, next = some l ∧ FileLabel s₀ l s')
      (fun _ => Answering s₀) s := by
  rw [block]
  split_ifs
  · have harmed : Answering s₀ { s with armed := true } := ⟨h.repl, h.fp, h.reply⟩
    exact ⟨.loop, rfl, harmed.note rfl⟩
  · exact ⟨.loop, rfl, h⟩

/-- What a label leads to, or the error that is raised in it. -/
theorem answering_block {l : Label} (hl : l ≠ .returnEarly) (h : Answering s₀ s) :
    wp (block b B l) (fun next s' => ∃ l', next = some l' ∧ FileLabel s₀ l' s')
      (fun _ => Answering s₀) s := by
  have hkeeps : ∀ {α : Type} {m : PgM σ α}, Moves b m → ∀ {s : State σ}, Answering s₀ s →
      wp m (fun _ => Answering s₀) (fun _ => Answering s₀) s :=
    fun hm _ hs => hm.keeps (fun _ _ h hmove => h.move hmove) hs
  cases l with
  | incoming => exact answering_incoming h
  | loop =>
      rw [block, wp_bind, wp_get]
      split_ifs
      · rw [wp_bind]
        refine wp_mono (wp_and (hkeeps (moves_loopRound B) h) (loopRound_label B s)) ?_ fun _ _ h => h.1
        rintro l s' ⟨h', hlabel⟩
        refine ⟨l, rfl, ?_⟩
        rcases hlabel with rfl | rfl | rfl
        · exact h'
        · exact h'
        · exact h'
      · exact ⟨.resumeOnError, rfl, h⟩
  | resumeOnError =>
      rw [block, wp_bind, wp_get, if_neg (by simp [h.repl])]
      exact ⟨.wireFlush, rfl, h⟩
  | wireFlush =>
      rw [block, wp_bind, wireFlush, wp_bind, wp_record, wp_bind]
      refine wp_mono (hkeeps (moves_finishReply B) (h.note rfl)) (fun _ s' h' => ?_) fun _ _ h => h
      obtain ⟨es, -, -, hfile, -⟩ := h'.reply
      rw [wp_of_ok (handOver_eq hfile)]
      exact ⟨.returnEarly, rfl, h'.handedOver hfile⟩
  | returnEarly => exact absurd rfl hl

/-- What a call leaves of the files that found a request. -/
structure FileAnswered (s₀ t : State σ) : Prop where
  pgsIn : t.comm.pgsIn = none
  closed : t.comm.socketFile = none
  pgsOlock : t.comm.pgsOlock = none
  pgsOut : ∃ es, t.trace = s₀.trace ++ es ∧ t.comm.pgsOut = some (es.flatMap Event.bytes)

/-- One step keeps what the labels promise. -/
theorem fileLabel_step {l : Label} (h : FileLabel s₀ l s) :
    wp (step b B l) (fun next s' => next.elim (FileAnswered s₀ s') (FileLabel s₀ · s'))
      (fun _ _ => True) s := by
  by_cases hl : l = .returnEarly
  · subst hl
    obtain ⟨hfp, hclosed, hlock, hout⟩ := h
    rw [wp_step, block, wp_bind, returnEarly, wp_modify, wp_pure]
    exact ⟨if_pos hfp, hclosed, hlock, hout⟩
  · have hanswering : Answering s₀ s := by
      cases l with
      | returnEarly => exact absurd rfl hl
      | incoming | loop | resumeOnError | wireFlush => exact h
    rw [wp_step]
    refine wp_mono (answering_block hl hanswering) ?_ fun e s' h' => ?_
    · rintro _ s' ⟨l', rfl, h'⟩
      exact h'
    · split_ifs
      · have hkeeps : wp (handler b B) (fun _ => Answering s₀) (fun _ => Answering s₀) s' :=
          (sends_handler (b := b) B).keeps (fun _ _ h hmove => h.sendMove hmove) h'
        refine wp_mono (wp_and hkeeps (handler_label B s')) ?_ fun _ _ _ => trivial
        rintro l' s'' ⟨h'', rfl | rfl⟩
        · exact h''
        · exact h''

/-! ## Calls of the file server -/

/-- The server between two calls in wire mode, with nothing in the memory area and nothing written to an
open `PGS_OLOCK`. -/
structure FileServer (B : Backend σ) (s : State σ) : Prop where
  repl : s.isRepl = false
  port : s.myProcPort = true
  size : s.comm.cmaRsize = 0
  data : s.comm.socketData ≤ 0
  memory : s.comm.mem .cma 1 = 0
  lock : ∀ content, s.comm.socketFile = some content → content = []
  quiet : s.sendReadyForQuery = true → B.blockState s.db = .idle → s.notifyInterruptPending = false

/-- `PGS_OLOCK` is open and empty when the request is met. -/
theorem FileServer.openSocketFile (h : FileServer B s) : s.comm.openSocketFile.socketFile = some [] := by
  unfold Comm.openSocketFile
  cases hfile : s.comm.socketFile with
  | none => rfl
  | some content => rw [hfile, h.lock content hfile]

/-- The state in which the request is looked for. -/
def State.asked (s : State σ) : State σ :=
  { s.begin with comm := s.comm.openSocketFile, sendReadyForQuery := false }

/-- A call of the file server is the intake and the run from its label. -/
theorem FileServer.interactiveOne (h : FileServer B s) (fuel : ℕ) :
    interactiveOne b B fuel s = (do
      let next ← intake b B
      run b B fuel next) s.asked :=
  interactiveOne_quiet (by simp [h.size]) h.port h.data h.quiet fuel

/-- The state in which the request was found. -/
def State.found (s : State σ) : State σ := { s.asked with peek := some (s.comm.mem .cma 1), fp := true }

/-- Once the packet is presented the call is answering. -/
theorem FileServer.presented (h : FileServer B s) (b : Build) (content : List UInt8) :
    Answering s (s.found.presented b content) := by
  have hfill := pqRecvbufFill_socketFiles b content content.length s.comm.openSocketFile
  have hfile : (pqRecvbufFill b content content.length s.comm.openSocketFile).socketFile = some [] :=
    (congrArg SocketFiles.socketFile hfill).trans h.openSocketFile
  have hout : (pqRecvbufFill b content content.length s.comm.openSocketFile).pgsOut = s.comm.pgsOut := by
    refine (congrArg SocketFiles.pgsOut hfill).trans ?_
    unfold Comm.openSocketFile
    split <;> rfl
  have hwire : ¬(s.found.isRepl && !s.found.isWire) =
    true := by simp [State.found, State.asked, State.begin, h.repl]
  rw [State.presented, if_neg hwire]
  exact ⟨h.repl, rfl, [], (List.append_nil _).symm, rfl, hfile, hout⟩

/-- What the branch for a request leads to. -/
theorem intakeFile_answering {content : List UInt8} (h : Answering s₀ (s.presented b content)) :
    wp (intakeFile b B content) (FileLabel s₀) (fun _ _ => True) s := by
  have hkeeps : ∀ {m : PgM σ Unit}, Moves b m →
      wp (do m; pure .wireFlush : PgM σ Label) (FileLabel s₀) (fun _ _ => True) (s.presented b content) := by
    intro m hm
    rw [wp_bind]
    exact wp_mono (hm.keeps (fun _ _ h hmove => h.move hmove) h) (fun _ _ h' => h') fun _ _ _ => trivial
  rw [wp_of_eq (intakeFile_eq content)]
  split_ifs
  · exact hkeeps raises_startupAuth.moves
  · exact hkeeps (raises_startupPass B true).moves
  · exact h

/-- A call that finds a request and returns has answered it. -/
theorem fileCall_answered (h : FileServer B s) {x : UInt8} {xs : List UInt8}
    (hfile : s.comm.pgsIn = some (x :: xs)) (hcall : Calls b B s (.ok () t)) : FileAnswered s t := by
  have hpgs : s.asked.comm.pgsIn = some (x :: xs) := (openSocketFile_pgsIn _).trans hfile
  have hsize : s.asked.comm.cmaRsize = 0 := (openSocketFile_cmaRsize _).trans h.size
  obtain ⟨fuel, hfuel⟩ := hcall
  have hend : wp (interactiveOne b B fuel) (fun _ => FileAnswered s) (fun _ _ => True) s := by
    rw [wp_of_eq (h.interactiveOne fuel), wp_bind, wp_of_eq (intake_file hsize hpgs)]
    refine wp_mono (intakeFile_answering (h.presented b _)) (fun l s' hl => ?_) fun _ _ _ => trivial
    refine follow_inv (J := FileLabel s) (fun l s' h' => ?_) (fun _ _ _ => trivial) fuel hl
    refine wp_mono (fileLabel_step h') (fun next s'' h'' => ?_) fun _ _ _ => trivial
    cases next <;> exact h''
  exact hend.ok (hfuel 0)

/-- A call that finds no request leaves the files alone, but for an open `PGS_OLOCK`. -/
theorem emptyCall_returned (h : FileServer B s) (hfile : s.comm.pgsIn = none)
    (hcall : Calls b B s (.ok () t)) : t.comm.socketFiles = s.comm.openSocketFile.socketFiles := by
  have hpgs : s.asked.comm.pgsIn.bind List.head? = none := by
    rw [State.asked, openSocketFile_pgsIn, hfile]
    rfl
  have hsize : s.asked.comm.cmaRsize = 0 := (openSocketFile_cmaRsize _).trans h.size
  have hmem : s.asked.comm.mem .cma 1 = 0 := by
    rw [State.asked, ← h.memory]
    exact congrFun (congrFun (openSocketFile_frame _).2.1 _) _
  obtain ⟨fuel, hfuel⟩ := hcall
  have hreturn : interactiveOne b B (fuel + 1) s = .ok () { s.asked with
      peek := some (s.asked.comm.mem .cma 1), fp := s.asked.comm.pgsIn.isSome }.returned := by
    rw [h.interactiveOne, run_bind_ok (Eq.trans (intake_none hsize hpgs) (congrFun (if_pos hmem) _))]
    rfl
  cases (hfuel 1).symm.trans hreturn
  have hnone : s.asked.comm.pgsIn.isSome = false := by
    rw [State.asked, openSocketFile_pgsIn, hfile]
    rfl
  show Comm.socketFiles { s.asked.comm with
    pgsIn := if s.asked.comm.pgsIn.isSome then none else s.asked.comm.pgsIn, cmaRsize := 0, mem := _ } = _
  rw [hnone]
  rfl

/-! ## A call takes the steps of the handshake's server -/

/-- The files of the handshake are those of the connection. What was written to an open file counts as
in it. -/
structure FilesAgree (h : Handshake τ) (c : Comm) : Prop where
  pgsIn : h.pgsIn = c.pgsIn
  pgsOlock : h.pgsOlock = c.socketFile.or c.pgsOlock
  pgsOut : h.pgsOut = c.pgsOut
  socketFile : h.socketFile = c.socketFile.isSome

variable {h : Handshake τ} (serve : τ → List UInt8 → List (List UInt8) × τ)

/-- Opening `PGS_OLOCK` keeps the files in agreement. -/
theorem FilesAgree.openOlock (hagree : FilesAgree h c) :
    FilesAgree (FileStep.openOlock.effect serve h) c.openSocketFile := by
  obtain ⟨hin, hlock, hout, hfile⟩ := hagree
  have hopen : (if h.socketFile then h.pgsOlock else some []) =
      c.openSocketFile.socketFile.or c.openSocketFile.pgsOlock := by
    rw [hfile, hlock, Comm.openSocketFile]
    cases hc : c.socketFile with
    | none => rfl
    | some content => simp [hc]
  refine ⟨hin.trans (openSocketFile_pgsIn c).symm, hopen, hout.trans ?_, (openSocketFile_frame c).2.2.1.symm⟩
  unfold Comm.openSocketFile
  split <;> rfl

/-- Without a request the server of the handshake goes back to rest. -/
theorem effect_readIn_none (hin : h.pgsIn = none) :
    FileStep.readIn.effect serve h = { h with server := .idle } := by
  simp only [FileStep.effect, hin]

/-- A request of the handshake is served at once, and its reply is written piece by piece. -/
theorem effect_readIn_some {x : UInt8} {xs : List UInt8} (hin : h.pgsIn = some (x :: xs)) :
    FileStep.readIn.effect serve h = { h with
      server := .replying (serve h.db (x :: xs)).1
      db := (serve h.db (x :: xs)).2
      processed := h.processed ++ [x :: xs] } := by
  simp only [FileStep.effect, hin]

/-- The pieces of a reply are written one after the other. -/
theorem path_writeOlock {todo : List (List UInt8)} {written : List UInt8}
    (hserver : h.server = .replying todo) (hlock : h.pgsOlock = some written) :
    Path (FileStep.Step serve) h (List.replicate todo.length .writeOlock)
      { h with server := .replying [], pgsOlock := some (written ++ todo.flatten) } := by
  induction todo generalizing h written with
  | nil =>
      have hsame : { h with server := .replying [], pgsOlock := some (written ++ [].flatten) } = h := by
        rw [List.flatten_nil, List.append_nil, ← hserver, ← hlock]
      rw [hsame]
      exact .nil
  | cons piece todo ih =>
      have heffect : FileStep.writeOlock.effect serve h =
          { h with server := .replying todo, pgsOlock := some (written ++ piece) } := by
        simp only [FileStep.effect, hserver, hlock, Option.map_some]
      have hrest := ih (h := FileStep.writeOlock.effect serve h) 
        (by rw [heffect]) (by rw [heffect])
      rw [heffect, List.append_assoc] at hrest
      exact .cons ⟨⟨piece, todo, hserver⟩, heffect.symm⟩ hrest

/-- The steps of a server that finds a request and writes its reply in `n` pieces. -/
def serverSteps (n : ℕ) : List FileStep :=
  [.openOlock, .readIn] ++ (List.replicate n .writeOlock ++ [.renameOut, .unlinkIn])

/-- **A call that answers a request takes the server's steps**, if the reply of the handshake's backend
is what the call put. -/
theorem fileCall_simulates (hserver : FileServer B s) {x : UInt8} {xs : List UInt8}
    (hfile : s.comm.pgsIn = some (x :: xs)) (hcall : Calls b B s (.ok () t)) (hidle : h.server = .idle)
    (hagree : FilesAgree h s.comm) :
    ∃ es, t.trace = s.trace ++ es ∧
      ((serve h.db (x :: xs)).1.flatten = es.flatMap Event.bytes →
        ∃ h', Path (FileStep.Step serve) h (serverSteps (serve h.db (x :: xs)).1.length) h' ∧
          h'.server = .idle ∧ h'.processed = h.processed ++ [x :: xs] ∧ FilesAgree h' t.comm) := by
  obtain ⟨hin', hclosed, hlock', es, htrace, hout'⟩ := fileCall_answered hserver hfile hcall
  refine ⟨es, htrace, fun hreply => ?_⟩
  have hopen := hagree.openOlock serve
  -- the request is read
  have hin : (FileStep.openOlock.effect serve h).pgsIn = some (x :: xs) :=
    hopen.pgsIn.trans ((openSocketFile_pgsIn _).trans hfile)
  have hread := effect_readIn_some serve hin
  -- the reply is written
  have hlock : (FileStep.openOlock.effect serve h).pgsOlock = some [] := by
    rw [hopen.pgsOlock, hserver.openSocketFile]
    rfl
  have hwrites := path_writeOlock serve (h := { FileStep.openOlock.effect serve h with
    server := .replying (serve h.db (x :: xs)).1
    db := (serve h.db (x :: xs)).2
    processed := h.processed ++ [x :: xs] }) rfl hlock
  refine ⟨_, .cons ⟨hidle, rfl⟩ (.cons ⟨rfl, hread.symm⟩
    (hwrites.trans (.cons ⟨rfl, rfl⟩ (.cons ⟨rfl, rfl⟩ .nil)))), rfl, rfl, ?_⟩
  refine ⟨hin'.symm, ?_, ?_, ?_⟩
  · rw [hclosed, hlock']
    rfl
  · rw [hout', ← hreply]
    rfl
  · rw [hclosed]
    rfl

/-- A call that finds no request opens `PGS_OLOCK` and returns, as the server does. -/
theorem emptyCall_simulates (hserver : FileServer B s) (hfile : s.comm.pgsIn = none)
    (hcall : Calls b B s (.ok () t)) (hidle : h.server = .idle) (hagree : FilesAgree h s.comm) :
    ∃ h', Path (FileStep.Step serve) h [.openOlock, .readIn] h' ∧ h'.server = .idle ∧
      FilesAgree h' t.comm := by
  have hreturned := emptyCall_returned hserver hfile hcall
  have hopen := hagree.openOlock serve
  have hin : (FileStep.openOlock.effect serve h).pgsIn = none :=
    hopen.pgsIn.trans ((openSocketFile_pgsIn _).trans hfile)
  have hread := effect_readIn_none serve hin
  refine ⟨_, .cons ⟨hidle, rfl⟩ (.cons ⟨rfl, hread.symm⟩ .nil), rfl, ?_⟩
  have hsame : t.comm.socketFile = s.comm.openSocketFile.socketFile :=
    congrArg SocketFiles.socketFile hreturned
  refine ⟨hopen.pgsIn.trans (congrArg SocketFiles.pgsIn hreturned).symm, ?_,
    hopen.pgsOut.trans (congrArg SocketFiles.pgsOut hreturned).symm, ?_⟩
  · rw [hsame]
    exact hopen.pgsOlock.trans (congrArg (Option.or _) (congrArg SocketFiles.pgsOlock hreturned).symm)
  · rw [hsame]
    exact hopen.socketFile

end PgliteBuild
