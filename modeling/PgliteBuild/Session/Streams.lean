import PgliteBuild.InteractiveOne.ArmedHandler
import PgliteBuild.InteractiveOne.Events
import PgliteBuild.Session.Basic

/-! # Calls as readers of their packet

Whatever a call is asked to do, it reads its packet message by message. An invariant of the call that
depends on what is left of the packet, and that sending, reading and starting a message keep, is
`Conveyed` by the code: the lemmas of this file carry it through the readers, the message handlers and
a round of the loop, for an arbitrary byte string as the packet and an arbitrary backend. -/

namespace PgliteBuild

open Effect Framing

variable {σ α : Type} {b : Build} {B : Backend σ} {t : Transport} {n : ℕ} {pk : Option UInt8} {a : Bool}
  {p u v : List UInt8} {I : List UInt8 → State σ → Prop} {T : State σ → Prop} {s s' : State σ}

/-! ## Messages at the head of a stream -/

/-- A body that was read belongs to a message at the head of the stream. -/
theorem exists_msg_of_readBody {m : FrontendMsg} {w body : List UInt8}
    (h : readBody m.maxlen w = .body body v) : ∃ msg : Msg, msg.kind = m ∧ m.code :: w = msg.encode ++ v := by
  obtain ⟨hfits, rfl⟩ := eq_encodeBody_of_readBody h
  exact ⟨⟨m, body, hfits⟩, rfl, rfl⟩

/-- The type byte tells the message. -/
theorem FrontendMsg.code_injective : Function.Injective FrontendMsg.code := by
  intro m m' h
  have hof := congrArg ofCode h
  rwa [ofCode_code, ofCode_code, Option.some.injEq] at hof

/-- A message is told from what follows it. -/
theorem Msg.encode_append_inj {m msg : Msg} {v : List UInt8} (h : m.encode ++ v = msg.encode) :
    m = msg ∧ v = [] := by
  obtain ⟨kind, body, hfits⟩ := m
  obtain ⟨kind', body', hfits'⟩ := msg
  obtain ⟨hcode, hbody⟩ := List.cons.inj h
  obtain rfl : kind = kind' := FrontendMsg.code_injective hcode
  have hsame : encodeBody body ++ v = encodeBody body' := hbody
  have hread : readBody kind.maxlen (encodeBody body ++ v) = .body body v :=
    readBody_encodeBody v hfits (Msg.length_lt ⟨kind, body, hfits⟩)
  have hread' : readBody kind.maxlen (encodeBody body' ++ []) = .body body' [] :=
    readBody_encodeBody [] hfits' (Msg.length_lt ⟨kind, body', hfits'⟩)
  rw [hsame, ← List.append_nil (encodeBody body'), hread'] at hread
  obtain ⟨rfl, rfl⟩ := BodyRead.body.inj hread
  exact ⟨rfl, rfl⟩

@[simp] theorem encodeMsgs_nil : encodeMsgs [] = [] := rfl

@[simp] theorem encodeMsgs_cons (m : Msg) (ms : List Msg) :
    encodeMsgs (m :: ms) = m.encode ++ encodeMsgs ms := rfl

@[simp] theorem encodeMsgs_append (ms ms' : List Msg) :
    encodeMsgs (ms ++ ms') = encodeMsgs ms ++ encodeMsgs ms' := List.flatMap_append

/-- The next `k` messages begin before the end of the stream. -/
def StaysInside : ℕ → List UInt8 → Prop
  | 0, _ => True
  | k + 1, u => u ≠ [] ∧ ∀ (m : Msg) v, u = m.encode ++ v → StaysInside k v

/-! ## Invariants that the code conveys -/

/-- The next `pq_startmsgread` finds the stream `u`, and the invariant holds of what is read from it. -/
structure Offering (b : Build) (t : Transport) (n : ℕ) (I : List UInt8 → State σ → Prop)
    (T : State σ → Prop) (u : List UInt8) (s : State σ) : Prop where
  held : T s
  feeds : s.comm.pqCommReadingMsg = false → Feeds b t n u (s.comm.startmsgread b)
  reads : s.comm.pqCommReadingMsg = false → ∀ v c, Settled b t n v c →
    Reads (s.comm.startmsgread b) c → I v { s with comm := c }

/-- The code conveys `I`, an invariant about the rest of a packet, in an activation with the given first
byte and with its handler set or not; `T` is what it leaves when the process is stopped. -/
structure Conveyed (b : Build) (t : Transport) (n : ℕ) (pk : Option UInt8) (a : Bool)
    (I : List UInt8 → State σ → Prop) (T : State σ → Prop) : Prop where
  held {u : List UInt8} {s : State σ} : I u s → T s
  frame {s : State σ} : T s → s.isWire = true ∧ s.isRepl = false ∧ s.peek = pk ∧ s.armed = a
  size {s : State σ} : T s → t = .cma → s.comm.cmaRsize = n
  settled {u : List UInt8} {s : State σ} : I u s → Settled b t n u s.comm
  send {u : List UInt8} {s s' : State σ} : I u s → SendMove s s' → I u s'
  sendHeld {s s' : State σ} : T s → SendMove s s' → T s'
  read {u v : List UInt8} {s : State σ} {c : Comm} : I u s → Settled b t n v c → Reads s.comm c →
    I v { s with comm := c }
  reading {u : List UInt8} {s : State σ} (flag : Bool) : I u s →
    I u { s with comm := { s.comm with pqCommReadingMsg := flag } }
  start {u : List UInt8} {s : State σ} : I u s → u ≠ [] → Offering b t n I T u s

/-- `k` messages were read off the stream. -/
def After (I : List UInt8 → State σ → Prop) (k : ℕ) (u : List UInt8) (s : State σ) : Prop :=
  ∃ ms v, u = encodeMsgs ms ++ v ∧ ms.length = k ∧ I v s

/-- Before anything is read the stream is where it was. -/
theorem After.refl (h : I u s) : After I 0 u s := ⟨[], u, rfl, rfl, h⟩

/-- How code ends that raises an error: in the middle of a message, or after `k` whole ones. -/
def Fails (I : List UInt8 → State σ → Prop) (T : State σ → Prop) (k : ℕ) (u : List UInt8) (e : Stop)
    (s : State σ) : Prop :=
  T s ∧ (e = .error → s.comm.pqCommReadingMsg = true ∨ After I k u s)

namespace Conveyed

variable (C : Conveyed b t n pk a I T)

include C

/-! ## Sending and reading -/

/-- Code that only sends keeps the invariant. -/
theorem sends {m : PgM σ α} (hm : SendMoves m) (h : I u s) :
    wp m (fun _ s' => I u s') (fun _ s' => I u s') s := hm.keeps (fun _ _ => C.send) h

/-- A control variable may change. -/
theorem control (h : I u s) (hframe : SameFrame s s') : I u s' := C.send h (.control hframe)

/-- `pq_getbyte` gives the head of the stream. -/
theorem getbyte (h : I u s) : (pqGetbyte b s.comm).1 = u.head? ∧
    I u.tail { s with comm := (pqGetbyte b s.comm).2 } := by
  obtain ⟨hbyte, hsettled, hreads⟩ := pqGetbyte_spec (C.settled h).toFeeds
  exact ⟨hbyte, C.read h hsettled hreads⟩

/-- `pq_getmessage` gives the body at the head of the stream. -/
theorem getmessage (maxlen : ℕ) (h : I u s) :
    (pqGetmessage b maxlen s.comm).1 = (readBody maxlen u).body? ∧
      I (readBody maxlen u).rest { s with comm := (pqGetmessage b maxlen s.comm).2 } ∧
      (pqGetmessage b maxlen s.comm).2.pqCommReadingMsg =
        (s.comm.pqCommReadingMsg && (readBody maxlen u).body?.isNone) := by
  obtain ⟨hbody, hsettled, hreads⟩ := pqGetmessage_spec maxlen (C.settled h)
  have hflag := C.reading (s.comm.pqCommReadingMsg && (readBody maxlen u).body?.isNone) h
  have hkept := C.read (s := { s with comm := { s.comm with
    pqCommReadingMsg := s.comm.pqCommReadingMsg && (readBody maxlen u).body?.isNone } })
    hflag hsettled hreads
  exact ⟨hbody, hkept, (congrArg Comm.pqCommReadingMsg hreads.same :)⟩

end Conveyed

namespace Offering

section Frame

variable (C : Conveyed b t n pk a I T) (h : Offering b t n I T u s)

include C h

/-- The stream is still offered after a control variable changed. -/
theorem control (hframe : SameFrame s s') : Offering b t n I T u s' := by
  have hcomm := hframe.comm
  refine ⟨C.sendHeld h.held (.control hframe), ?_, ?_⟩
  · rw [hcomm]
    exact h.feeds
  · rw [hcomm]
    intro hreading v c hsettled hreads
    refine C.control (h.reads hreading v c hsettled hreads) ?_
    exact ⟨rfl, hframe.cmaWsize, hframe.channel, hframe.isWire, hframe.isRepl, hframe.myProcPort,
      hframe.peek, hframe.fp, hframe.armed, hframe.trace⟩

/-- The stream is still offered after an event was noted. -/
theorem note {e : Event} (he : e.isNote = true) :
    Offering b t n I T u { s with trace := s.trace ++ [e] } := by
  refine ⟨C.sendHeld h.held (.note he), h.feeds, fun hreading v c hsettled hreads => ?_⟩
  exact C.send (h.reads hreading v c hsettled hreads) (.note he)

end Frame

/-- A reader starts a message and reads its first byte; while another message is being read it ends the
process instead. -/
theorem startmsg (h : Offering b t n I T u s) {f : Option UInt8 → PgM σ α} {post : α → State σ → Prop}
    {exn : Stop → State σ → Prop}
    (hstop : exn (.fatal syncLost) s)
    (hf : ∀ c, s.comm.pqCommReadingMsg = false → c.pqCommReadingMsg = true → I u.tail { s with comm := c } →
      wp (f u.head?) post exn { s with comm := c }) :
    wp (do
      liftComm (pqStartmsgread b)
      let x ← liftRecv (pqGetbyte b)
      f x) post exn s := by
  rcases Bool.eq_false_or_eq_true s.comm.pqCommReadingMsg with hreading | hreading
  · rw [wp_bind, wp_liftComm, wp_of_error (pqStartmsgread_reading hreading)]
    exact hstop
  · obtain ⟨hbyte, hsettled, hreads⟩ := pqGetbyte_spec (h.feeds hreading)
    have hinv := h.reads hreading _ _ hsettled hreads
    have hstart : (s.comm.startmsgread b).pqCommReadingMsg = true := by
      unfold Comm.startmsgread Comm.pointBuffers
      split_ifs <;> rfl
    have hflag : (pqGetbyte b (s.comm.startmsgread b)).2.pqCommReadingMsg = true :=
      (congrArg Comm.pqCommReadingMsg hreads.same :).trans hstart
    rw [wp_bind, wp_liftComm, wp_of_ok (pqStartmsgread_eq hreading), wp_bind, wp_liftRecv]
    dsimp only
    rw [hbyte]
    exact hf _ hreading hflag hinv

end Offering

/-- With its first byte a second invariant comes true, that reading keeps. -/
theorem Offering.and (h : Offering b t n I T u s) {J : State σ → Prop}
    (hstart : J { s with comm := s.comm.startmsgread b })
    (hread : ∀ u s c, Feeds b t n u s.comm → J s → Reads s.comm c → J { s with comm := c }) :
    Offering b t n (fun u s => I u s ∧ J s) T u s := by
  refine ⟨h.held, h.feeds, fun hnot v c hsettled hreads => ⟨h.reads hnot v c hsettled hreads, ?_⟩⟩
  exact hread u { s with comm := s.comm.startmsgread b } c (h.feeds hnot) hstart hreads

/-- **Two invariants are conveyed together**, if what reads and what starts a message inside the packet keep the
second one too. -/
theorem Conveyed.and (C : Conveyed b t n pk a I T) {J : State σ → Prop}
    (hsend : ∀ s s', J s → SendMove s s' → J s')
    (hread : ∀ u s c, Feeds b t n u s.comm → J s → Reads s.comm c → J { s with comm := c })
    (hreading : ∀ s flag, J s → J { s with comm := { s.comm with pqCommReadingMsg := flag } })
    (hstart : ∀ u s, I u s → u ≠ [] → J s → J { s with comm := s.comm.startmsgread b }) :
    Conveyed b t n pk a (fun u s => I u s ∧ J s) T where
  held h := C.held h.1
  frame := C.frame
  size := C.size
  settled h := C.settled h.1
  send h hmove := ⟨C.send h.1 hmove, hsend _ _ h.2 hmove⟩
  sendHeld := C.sendHeld
  read h hsettled hreads := ⟨C.read h.1 hsettled hreads, hread _ _ _ (C.settled h.1).toFeeds h.2 hreads⟩
  reading flag h := ⟨C.reading flag h.1, hreading _ flag h.2⟩
  start {u s} h hu := (C.start h.1 hu).and (hstart u s h.1 hu h.2) hread

/-! ## Message handlers -/

namespace Conveyed

variable (C : Conveyed b t n pk a I T)

include C

/-- An error that is raised between two messages leaves the stream where it is. -/
theorem raises (errcode : Errcode) (errmsg : String) (h : I u s) {post : α → State σ → Prop}
    {exn : Stop → State σ → Prop} (hexn : ∀ s', I u s' → exn .error s') :
    wp (ereport errcode errmsg : PgM σ α) post exn s := by
  rw [ereport, wp_bind, wp_modify, wp_throw]
  exact hexn _ (C.control h (by constructor <;> rfl))

/-- An error that is raised in the middle of a message leaves the message unfinished. -/
theorem raises_reading (errcode : Errcode) (errmsg : String) (h : I u s)
    (hreading : s.comm.pqCommReadingMsg = true) {post : α → State σ → Prop} {exn : Stop → State σ → Prop}
    (hexn : ∀ s', T s' → s'.comm.pqCommReadingMsg = true → exn .error s') :
    wp (ereport errcode errmsg : PgM σ α) post exn s := by
  rw [ereport, wp_bind, wp_modify, wp_throw]
  exact hexn _ (C.held (C.control h (by constructor <;> rfl))) hreading

/-- COPY FROM STDIN reads one message of the packet. -/
theorem copyRead (h : I u s) (hu : u ≠ []) :
    wp (copyRead b) (fun _ s' => ∃ (m : Msg) (v : List UInt8), u = m.encode ++ v ∧ I v s')
      (fun e s' => T s' ∧ (e = .error → s'.comm.pqCommReadingMsg = true)) s := by
  have hfails : ∀ s' : State σ, T s' → s'.comm.pqCommReadingMsg = true →
      T s' ∧ (Stop.error = .error → s'.comm.pqCommReadingMsg = true) :=
    fun _ hheld hreading => ⟨hheld, fun _ => hreading⟩
  refine (C.start h hu).startmsg ⟨C.held h, fun he => by cases he⟩ fun c hnot hreading hread => ?_
  cases u with
  | nil => exact absurd rfl hu
  | cons x w =>
      dsimp only [List.head?_cons]
      cases hm : (FrontendMsg.ofCode x).filter FrontendMsg.inCopy with
      | none => exact C.raises_reading _ _ hread hreading hfails
      | some m =>
          obtain ⟨hcode, -⟩ := Option.filter_eq_some_iff.mp hm
          obtain ⟨hbody, hrest, hflag⟩ := C.getmessage m.maxlen hread
          dsimp only
          rw [wp_bind, wp_liftRecv]
          dsimp only [List.tail_cons] at hbody hrest hflag ⊢
          rw [hbody]
          cases hfound : readBody m.maxlen w with
          | short =>
              rw [hfound] at hrest hflag
              refine C.raises_reading _ _ hrest ?_ hfails
              exact hflag.trans (by simp [hreading, BodyRead.body?])
          | badLength v =>
              rw [hfound] at hrest hflag
              refine C.raises_reading _ _ hrest ?_ hfails
              exact hflag.trans (by simp [hreading, BodyRead.body?])
          | body body v =>
              obtain ⟨msg, -, hmsg⟩ := exists_msg_of_readBody hfound
              rw [FrontendMsg.code_of_ofCode hcode] at hmsg
              rw [hfound] at hrest
              exact ⟨msg, v, hmsg, hrest⟩

/-- The actions of a handler that stays inside the packet read one message for each `copyRead`. -/
theorem runActions (source : Source) (as : List Action) (h : I u s)
    (hin : StaysInside (as.count .copyRead) u) :
    wp (runActions b source as) (fun _ s' => After I (as.count .copyRead) u s')
      (fun e s' => T s' ∧ (e = .error → s'.comm.pqCommReadingMsg = true)) s := by
  induction as generalizing u s with
  | nil => exact .refl h
  | cons a as ih =>
      have hsends : SendMoves (runAction b source a : PgM σ Unit) →
          Throws (· ≠ .error) (runAction b source a : PgM σ Unit) →
          as.count .copyRead = (a :: as).count .copyRead →
          wp (PgliteBuild.runActions b source (a :: as))
            (fun _ s' => After I ((a :: as).count .copyRead) u s')
            (fun e s' => T s' ∧ (e = .error → s'.comm.pqCommReadingMsg = true)) s := by
        intro hmoves hthrows hcount
        rw [PgliteBuild.runActions, wp_bind]
        refine wp_mono (wp_and (C.sends hmoves h) (hthrows s)) (fun _ s' h' => ?_) fun _ _ h' => ?_
        · rw [← hcount] at hin ⊢
          exact ih h'.1 hin
        · exact ⟨C.held h'.1, fun he => absurd he h'.2⟩
      cases a with
      | putbytes bytes =>
          refine hsends (sends_putbytes source bytes) ?_ (by simp)
          exact throws_bind (throws_liftComm (throws_internalPutbytes bytes)) fun _ => throws_modify _
      | flush => exact hsends sends_flush (throws_liftComm (m := internalFlush) (throws_modify _)) (by simp)
      | copyRead =>
          rw [List.count_cons_self] at hin ⊢
          obtain ⟨hu, hnext⟩ := hin
          rw [PgliteBuild.runActions, wp_bind, runAction]
          refine wp_mono (C.copyRead h hu) ?_ fun _ _ h' => h'
          rintro _ s₁ ⟨m, v, hm, h₁⟩
          refine wp_mono (ih h₁ (hnext m v hm)) ?_ fun _ _ h' => h'
          rintro _ s₂ ⟨ms, v', rfl, hlen, h₂⟩
          refine ⟨m :: ms, v', ?_, by rw [List.length_cons, hlen], h₂⟩
          rw [hm, encodeMsgs_cons, List.append_assoc]

/-- **A response** reads as many messages of the packet as its actions say, if it uses the connection. -/
theorem respond (source : Source) (r : Response σ) {k : ℕ} (h : I u s) (hin : StaysInside k u)
    (hk : k = if s.whereToSendOutput = .remote then r.reads else 0) :
    wp (respond b source r) (fun _ s' => After I k u s') (Fails I T k u) s := by
  have hrest : ∀ s' : State σ, After I k u s' →
      wp (settle r) (fun _ s' => After I k u s') (Fails I T k u) s' := by
    rintro s' ⟨ms, v, hu, hlen, hinv⟩
    rw [settle, wp_bind, wp_modify]
    have hnext : I v { s' with
        db := r.next, notifyInterruptPending := s'.notifyInterruptPending || r.notify } :=
      C.control hinv (by constructor <;> rfl)
    cases r.error with
    | none => exact ⟨ms, v, hu, hlen, hnext⟩
    | some e =>
        exact C.raises e.errcode e.errmsg hnext fun _ h' => ⟨C.held h', fun _ => .inr ⟨ms, v, hu, hlen, h'⟩⟩
  refine wp_respond (fun hremote => ?_) fun hremote => ?_
  · rw [if_pos hremote] at hk
    subst hk
    exact wp_mono (C.runActions source r.actions h hin) (fun _ s₁ h₁ => hrest s₁ h₁)
      fun _ _ h' => ⟨h'.1, fun he => .inl (h'.2 he)⟩
  · rw [if_neg hremote] at hk
    subst hk
    exact hrest s (.refl h)

end Conveyed

/-! ## The flag of the loop -/

/-- A computation that leaves `pipelining` alone. -/
abbrev KeepsPipelining (m : PgM σ α) : Prop := Performs (fun s s' => s'.pipelining = s.pipelining) m

/-- `pipelining` is the same on both ways out of a computation that keeps it. -/
theorem KeepsPipelining.spec {m : PgM σ α} (h : KeepsPipelining m) (s : State σ) :
    wp m (fun _ s' => s'.pipelining = s.pipelining) (fun _ s' => s'.pipelining = s.pipelining) s :=
  h.keeps (fun _ _ hs hstep => hstep.trans hs) rfl

/-- An assignment to other variables keeps `pipelining`. -/
theorem keepsPipelining_modify {f : State σ → State σ} (hf : ∀ s, (f s).pipelining = s.pipelining) :
    KeepsPipelining (modify f : PgM σ Unit) := performs_modify hf

/-- A computation on the connection keeps `pipelining`. -/
theorem keepsPipelining_liftComm (m : CommM α) : KeepsPipelining (liftComm m : PgM σ α) := by
  intro s
  rw [wp_liftComm]
  exact wp_mono (wp_true m s.comm) (fun _ _ _ => .single rfl) fun _ _ _ => .single rfl

/-- A read that returns keeps `pipelining`. -/
theorem keepsPipelining_liftRecv (f : Comm → α × Comm) : KeepsPipelining (liftRecv f : PgM σ α) :=
  fun _ => .single rfl

/-- Raising an error keeps `pipelining`. -/
theorem keepsPipelining_ereport (errcode : Errcode) (errmsg : String) :
    KeepsPipelining (ereport errcode errmsg : PgM σ α) :=
  performs_bind (keepsPipelining_modify fun _ => rfl) fun _ => performs_throw _

/-- Putting a protocol message keeps `pipelining`. -/
theorem keepsPipelining_putmessage (source : Source) (msgtype : UInt8) (body : List UInt8) :
    KeepsPipelining (putmessage source msgtype body : PgM σ Unit) :=
  performs_bind (keepsPipelining_liftComm _) fun _ => keepsPipelining_modify fun _ => rfl

/-- Reading a COPY message keeps `pipelining`. -/
theorem keepsPipelining_copyRead : KeepsPipelining (copyRead b : PgM σ Unit) := by
  refine performs_bind (keepsPipelining_liftComm _) fun _ =>
    performs_bind (keepsPipelining_liftRecv _) fun x => ?_
  cases x with
  | none => exact keepsPipelining_ereport _ _
  | some t =>
      dsimp only
      cases (FrontendMsg.ofCode t).filter FrontendMsg.inCopy with
      | none => exact keepsPipelining_ereport _ _
      | some m =>
          refine performs_bind (keepsPipelining_liftRecv _) fun body => ?_
          cases body with
          | none => exact keepsPipelining_ereport _ _
          | some body => exact performs_pure _

/-- A response of the backend keeps `pipelining`. -/
theorem keepsPipelining_respond (source : Source) (r : Response σ) :
    KeepsPipelining (respond b source r) := by
  have hactions : ∀ as, KeepsPipelining (runActions b source as : PgM σ Unit) := by
    intro as
    induction as with
    | nil => exact performs_pure _
    | cons a as ih =>
        refine performs_bind ?_ fun _ => ih
        cases a with
        | putbytes bytes =>
            exact performs_bind (keepsPipelining_liftComm _) fun _ => keepsPipelining_modify fun _ => rfl
        | flush => exact keepsPipelining_liftComm internalFlush
        | copyRead => exact keepsPipelining_copyRead
  refine performs_respond_settle (hactions _) (performs_settle ?_ ?_)
  · exact fun _ => rfl
  · exact fun e => keepsPipelining_ereport e.errcode e.errmsg

/-- The handler does not clear the flag; the long jump that leads to it may have set it. -/
theorem handler_pipelining (s : State σ) :
    wp (handler b B) (fun _ s' => s.pipelining = true → s'.pipelining = true)
      (fun _ s' => s.pipelining = true → s'.pipelining = true) s := by
  have hreport : KeepsPipelining (emitErrorReport B) := by
    refine performs_bind performs_get fun s => ?_
    cases s.errordata with
    | none => exact performs_pure _
    | some e =>
        refine performs_bind performs_get fun s => ?_
        dsimp only
        split
        · exact performs_bind (keepsPipelining_putmessage _ _ _) fun _ =>
            performs_bind (keepsPipelining_liftComm _) fun _ => keepsPipelining_modify fun _ => rfl
        · exact keepsPipelining_modify fun _ => rfl
  have hhandler : Performs (fun s s' : State σ => s.pipelining = true → s'.pipelining = true) (handler b B) := by
    apply performs_handler
    · exact hreport.mono fun _ _ hsame htrue => hsame.trans htrue
    · exact fun _ => id
    · exact fun _ => id
    · exact fun _ => id
    · exact fun _ => id
    · exact fun s htrue => by simp [htrue]
  exact hhandler.keeps (I := fun s' => s.pipelining = true → s'.pipelining = true)
    (fun _ _ hs hstep htrue => hstep (hs htrue)) id

/-- Only the end of the session clears the flag in the protocol switch. -/
theorem keepsPipelining_protoSwitch {m : FrontendMsg} (hm : m ≠ .terminate) :
    KeepsPipelining (protoSwitch b B (some m)) := by
  have hdefer : KeepsPipelining (deferReadyForQuery : PgM σ Unit) := keepsPipelining_modify fun _ => rfl
  refine performs_bind (keepsPipelining_modify fun _ => rfl) fun _ => performs_bind performs_get fun s => ?_
  refine performs_bind (keepsPipelining_modify fun _ => rfl) fun _ => ?_
  cases m with
  | query | functionCall | sync | parse =>
      exact performs_bind (keepsPipelining_respond _ _) fun _ =>
        performs_bind (keepsPipelining_modify fun _ => rfl) fun _ => performs_pure _
  | bind | execute | describe =>
      exact performs_bind (keepsPipelining_respond _ _) fun _ => performs_bind hdefer fun _ => performs_pure _
  | close =>
      have hrest : KeepsPipelining (do
          deferReadyForQuery
          pure false : PgM σ Bool) := performs_bind hdefer fun _ => performs_pure _
      refine performs_bind (keepsPipelining_respond _ _) fun _ => performs_bind performs_get fun s => ?_
      dsimp only
      split
      · exact performs_bind (keepsPipelining_putmessage _ _ _) fun _ => hrest
      · exact hrest
  | flush =>
      refine performs_ite (keepsPipelining_ereport _ _) ?_
      dsimp only
      split
      · exact performs_bind (keepsPipelining_liftComm _) fun _ => performs_pure _
      · exact performs_pure _
  | terminate => exact absurd rfl hm
  | copyData | copyDone | copyFail => exact performs_pure _

/-- Reading a password leaves the flag alone. -/
theorem keepsPipelining_startupPass : KeepsPipelining (startupPass b B true) := by
  have hrecv : KeepsPipelining (recvPasswordPacket b : PgM σ (Option (List UInt8))) := by
    refine performs_bind (keepsPipelining_liftComm _) fun _ =>
      performs_bind (keepsPipelining_liftRecv _) fun x => ?_
    cases x with
    | none => exact performs_pure _
    | some t =>
        refine performs_ite (keepsPipelining_ereport _ _) ?_
        refine performs_bind (keepsPipelining_liftRecv _) fun body => ?_
        cases body with
        | none => exact performs_pure _
        | some body =>
            exact performs_ite (keepsPipelining_ereport _ _)
              (performs_ite (keepsPipelining_ereport _ _) (performs_pure _))
  have hputs : ∀ bodies, KeepsPipelining (putmessages .auth 83 bodies : PgM σ Unit) := by
    intro bodies
    induction bodies with
    | nil => exact performs_pure _
    | cons body bodies ih => exact performs_bind (keepsPipelining_putmessage _ _ _) fun _ => ih
  have hrest : KeepsPipelining (do
      modify fun s => { s with clientAuthInProgress := false }
      putmessage .auth 82 (word32 0)
      putmessages .auth 83 (B.gucReport (← get).db)
      putmessage .auth 75 B.backendKey
      modify fun s => { s with sendReadyForQuery := true, ignoreTillSync := false } : PgM σ Unit) := by
    refine performs_bind (keepsPipelining_modify fun _ => rfl) fun _ => ?_
    refine performs_bind (keepsPipelining_putmessage _ _ _) fun _ => performs_bind performs_get fun s => ?_
    refine performs_bind (hputs _) fun _ => performs_bind (keepsPipelining_putmessage _ _ _) fun _ => ?_
    exact keepsPipelining_modify fun _ => rfl
  refine performs_bind (keepsPipelining_modify fun _ => rfl) fun _ => ?_
  simp only [if_true]
  refine performs_bind hrecv fun passwd => ?_
  cases passwd with
  | none => exact performs_bind (performs_throw _) fun _ => hrest
  | some body => exact hrest

/-! ## A message of the loop -/

/-- What `SocketBackend` hands over: a whole message, or the end of the input, which may come too early
because of a length word that is out of range. -/
def HandsOver (I : List UInt8 → State σ → Prop) (u : List UInt8) (s : State σ) (s' : State σ) :
    Option FrontendMsg → Prop
  | none => ∃ v, I v s' ∧ (v = [] ∨
      ∃ (m : FrontendMsg) (w : List UInt8), u = m.code :: w ∧ s.comm.pqCommReadingMsg = false ∧
        readBody m.maxlen w = .badLength v)
  | some m => ∃ (msg : Msg) (v : List UInt8), msg.kind = m ∧ u = msg.encode ++ v ∧ I v s' ∧
      s.comm.pqCommReadingMsg = false ∧ s'.inBuf = msg.body ∧
        s'.ignoreTillSync = (s.ignoreTillSync && !m.endsSkip) ∧ s'.db = s.db ∧
          s'.whereToSendOutput = s.whereToSendOutput

/-- **`SocketBackend`** hands over the message at the head of the stream. -/
theorem Offering.socketBackend (C : Conveyed b t n pk a I T) (h : Offering b t n I T u s) :
    wp (socketBackend b B) (fun r s' => HandsOver I u s s' r) (fun e s' => T s' ∧ e ≠ .error) s := by
  have hnoted := Offering.note C h (e := .raising .socketBackend) rfl
  rw [PgliteBuild.socketBackend, wp_bind, wp_record]
  refine hnoted.startmsg ⟨hnoted.held, by simp⟩ fun c hnot hreading hread => ?_
  cases u with
  | nil =>
      dsimp only [List.head?_nil]
      rw [wp_bind, wp_get]
      split_ifs
      · exact ⟨[], C.control hread (by constructor <;> rfl), .inl rfl⟩
      · exact ⟨[], hread, .inl rfl⟩
  | cons x w =>
      dsimp only [List.head?_cons]
      cases hm : FrontendMsg.ofCode x with
      | none => exact ⟨C.held hread, by simp⟩
      | some m =>
          have hcode := FrontendMsg.code_of_ofCode hm
          dsimp only
          rw [wp_bind, wp_modify, wp_bind, wp_liftRecv]
          have hflags : I w { s with
              comm := c
              trace := s.trace ++ [.raising .socketBackend]
              doingExtendedQueryMessage := m.extended
              ignoreTillSync := s.ignoreTillSync && !m.endsSkip } :=
            C.control hread (by constructor <;> rfl)
          obtain ⟨hbody, hrest, -⟩ := C.getmessage m.maxlen hflags
          dsimp only at hbody hrest ⊢
          rw [hbody]
          cases hfound : readBody m.maxlen w with
          | short =>
              rw [hfound] at hrest
              exact ⟨[], hrest, .inl rfl⟩
          | badLength v =>
              rw [hfound] at hrest
              exact ⟨v, hrest, .inr ⟨m, w, by rw [hcode], hnot, hfound⟩⟩
          | body body v =>
              rw [hfound] at hrest
              obtain ⟨hfits, rfl⟩ := eq_encodeBody_of_readBody hfound
              refine ⟨⟨m, body, hfits⟩, v, rfl, by rw [← hcode]; rfl, ?_, hnot, rfl, rfl, rfl, rfl⟩
              exact C.control hrest (by constructor <;> rfl)

/-- Code that only sends keeps what was read. -/
theorem After.sends (C : Conveyed b t n pk a I T) {k : ℕ} (h : After I k u s) {m : PgM σ α}
    (hm : SendMoves m) : wp m (fun _ s' => After I k u s') (Fails I T k u) s := by
  obtain ⟨ms, v, hu, hlen, hinv⟩ := h
  refine wp_mono (C.sends hm hinv) (fun _ _ h' => ⟨ms, v, hu, hlen, h'⟩) fun _ _ h' => ?_
  exact ⟨C.held h', fun _ => .inr ⟨ms, v, hu, hlen, h'⟩⟩

namespace Conveyed

variable (C : Conveyed b t n pk a I T)

include C

/-- The end of the session reads nothing. -/
theorem closeConnection (h : I u s) : wp (closeConnection : PgM σ Unit) (fun _ s' => I u s')
    (fun _ _ => False) s := by
  have hrepl : false = s.isRepl := (C.frame (C.held h)).2.1.symm
  exact C.control h ⟨rfl, rfl, rfl, rfl, hrepl, rfl, rfl, rfl, rfl, rfl⟩

/-- At the end of the input the protocol switch closes the session. -/
theorem protoSwitch_none (h : I u s) :
    wp (protoSwitch b B none) (fun shortcut s' => shortcut = true ∧ I u s') (fun _ _ => False) s := by
  have hnoted : I u { s with trace := s.trace ++ [.raising .messageSwitch] } := C.send h (.note rfl)
  rw [PgliteBuild.protoSwitch, wp_bind, wp_record, wp_bind, wp_get]
  dsimp only
  rw [wp_bind]
  exact wp_mono (C.closeConnection hnoted) (fun _ _ h' => ⟨rfl, h'⟩) fun _ _ h' => h'

/-- **The protocol switch** lets the handler of a message read inside the packet. -/
theorem protoSwitch (msg : Msg) {k : ℕ} (h : I u s) (hbody : s.inBuf = msg.body) (hin : StaysInside k u)
    (hk : k = if s.whereToSendOutput = .remote then (B.answer s.db msg).reads else 0) :
    wp (protoSwitch b B (some msg.kind))
      (fun shortcut s' => if shortcut then msg.kind = .terminate ∧ I u s'
        else msg.kind ≠ .terminate ∧ After I k u s')
      (fun e s' => msg.kind ≠ .terminate ∧ Fails I T k u e s') s := by
  obtain ⟨kind, body, hfits⟩ := msg
  obtain rfl : s.inBuf = body := hbody
  have hnoted : I u { s with trace := s.trace ++ [.raising .messageSwitch] ++ [.dispatch kind s.inBuf] } := by
    have hraising : I u { s with trace := s.trace ++ [.raising .messageSwitch] } := C.send h (.note rfl)
    exact C.send hraising (.note rfl)
  -- a handler of the backend, and the lines behind it
  have hexec : ∀ rest : PgM σ Bool, kind ≠ .terminate →
      B.answer s.db ⟨kind, s.inBuf, hfits⟩ = B.exec s.db kind s.inBuf →
      SendMoves rest → Returns (fun shortcut => shortcut = false) rest →
      wp (do
        PgliteBuild.respond b .message (B.exec s.db kind s.inBuf)
        rest)
        (fun shortcut s' => if shortcut then kind = .terminate ∧ I u s'
          else kind ≠ .terminate ∧ After I k u s')
        (fun e s' => kind ≠ .terminate ∧ Fails I T k u e s')
        { s with trace := s.trace ++ [.raising .messageSwitch] ++ [.dispatch kind s.inBuf] } := by
    intro rest hkind hanswer hmoves hfalse
    rw [hanswer] at hk
    rw [wp_bind]
    refine wp_mono (C.respond .message _ hnoted hin hk) (fun _ s₁ h₁ => ?_) fun _ _ h' => ⟨hkind, h'⟩
    refine wp_mono (wp_and (h₁.sends C hmoves) (hfalse s₁)) ?_ fun _ _ h' => ⟨hkind, h'.1⟩
    rintro shortcut s₂ ⟨h₂, rfl⟩
    exact ⟨hkind, h₂⟩
  -- a message that the switch handles itself reads nothing
  have hnone : (B.answer s.db ⟨kind, s.inBuf, hfits⟩).reads = 0 → k = 0 := by
    intro hzero
    rw [hk, hzero, ite_self]
  have hset : ∀ f : State σ → Bool, SendMoves (modify fun s => { s with sendReadyForQuery := f s } :
    PgM σ Unit) :=
    fun f => sends_modify fun _ => by constructor <;> rfl
  have hfalse : ∀ m : PgM σ Unit, Returns (fun shortcut => shortcut = false) (do
      m
      pure false : PgM σ Bool) := fun m => returns_bind fun _ => returns_pure rfl
  rw [PgliteBuild.protoSwitch, wp_bind, wp_record, wp_bind, wp_get]
  dsimp only
  rw [wp_bind, wp_record]
  cases kind with
  | query | functionCall | sync | parse | bind | execute | describe =>
      exact hexec _ (by simp) rfl (performs_bind (hset _) fun _ => performs_pure _) (hfalse _)
  | close =>
      have hdefer : SendMoves (do
          deferReadyForQuery
          pure false : PgM σ Bool) := performs_bind (hset _) fun _ => performs_pure _
      refine hexec _ (by simp) rfl ?_ ?_
      · refine performs_bind performs_get fun s => ?_
        split
        · exact performs_bind (sends_putmessage _ _ _) fun _ => hdefer
        · exact hdefer
      · refine returns_bind fun s => ?_
        split
        · exact returns_bind fun _ => hfalse _
        · exact hfalse _
  | flush =>
      obtain rfl := hnone rfl
      have hflush : FrontendMsg.flush ≠ .terminate := by simp
      split_ifs
      · exact C.raises _ _ hnoted fun _ h' => ⟨hflush, C.held h', fun _ => .inr (.refl h')⟩
      · rw [wp_bind]
        exact wp_mono ((After.refl hnoted).sends C sends_flush) (fun _ _ h' => ⟨hflush, h'⟩)
          fun _ _ h' => ⟨hflush, h'⟩
      · exact ⟨hflush, .refl hnoted⟩
  | terminate =>
      rw [wp_bind]
      exact wp_mono (C.closeConnection hnoted) (fun _ _ h' => ⟨rfl, h'⟩) fun _ _ h' => h'.elim
  | copyData | copyDone | copyFail =>
      obtain rfl := hnone rfl
      exact ⟨by simp, .refl hnoted⟩

end Conveyed

/-! ## The head of the loop -/

/-- Of the messages with a handler only Sync ends the skipping. -/
theorem endsSkip_iff {m : FrontendMsg} (hm : m ≠ .terminate) : m.endsSkip = true ↔ m = .sync := by
  cases m <;> simp_all [FrontendMsg.endsSkip]

/-- The messages that the handler of the next message reads. -/
def State.reads (B : Backend σ) (s : State σ) (m : Msg) : ℕ :=
  if s.whereToSendOutput = .remote ∧ (s.ignoreTillSync = true → m.kind = .sync) then (B.answer s.db m).reads
  else 0

/-- What the next message of the stream and the messages that its handler reads do to the rest of the packet:
they stay inside it, they do not end where the receive buffer runs dry, and what is behind a message that ends
the loop may be left. -/
structure TurnRead (b : Build) (B : Backend σ) (t : Transport) (n : ℕ) (I : List UInt8 → State σ → Prop)
    (D : State σ → Prop) (u : List UInt8) (s : State σ) : Prop where
  terminate : ∀ (m : Msg) v, u = m.encode ++ v → m.kind = .terminate → ∀ s', I v s' → D s'
  badLength : ∀ (m : FrontendMsg) w v, u = m.code :: w → readBody m.maxlen w = .badLength v →
    ∀ s', I v s' → D s'
  inside : ∀ (m : Msg) v, u = m.encode ++ v → StaysInside (s.reads B m) v
  cuts : ∀ (m : Msg) ms v, u = encodeMsgs (m :: ms) ++ v → ms.length = s.reads B m → v ≠ [] →
    ¬t.Cut b n (n - (encodeMsgs ms ++ v).length) ∧ ¬t.Cut b n (n - v.length)

/-- At the head of the loop: the next message is offered, with `Q` known of what is left of the packet, or the
loop is over, and it leaves `D`. -/
structure AtHead (b : Build) (t : Transport) (n : ℕ) (I : List UInt8 → State σ → Prop) (T : State σ → Prop)
    (Q : List UInt8 → Prop) (D : State σ → Prop) (s : State σ) : Prop where
  more : s.pipelining = true → ∃ u, Q u ∧ Offering b t n I T u s
  done : s.pipelining = false → D s

/-- A call to which the next message is offered is at the head of its loop. -/
theorem Offering.atHead {Q : List UInt8 → Prop} {D : State σ → Prop} (h : Offering b t n I T u s) (hQ : Q u)
    (hpipe : s.pipelining = true) : AtHead b t n I T Q D s := by
  refine ⟨fun _ => ⟨u, hQ, h⟩, fun hdone => ?_⟩
  rw [hpipe] at hdone
  cases hdone

/-- What the loop may know of the rest of a packet with the first byte `pk`, and what it may leave. -/
structure Heading (t : Transport) (n : ℕ) (pk : Option UInt8) (I : List UInt8 → State σ → Prop)
    (Q : List UInt8 → Prop) (D : State σ → Prop) : Prop where
  ended {s : State σ} : I [] s → D s
  startup {u : List UInt8} : Q u → pk = some 0 → t = .cma ∧ u ≠ [] ∧ u.length = n
  password {u body v : List UInt8} : Q u → pk = some 112 → readBody 65535 u.tail = .body body v →
    (v ≠ [] → Q v) ∧ ∀ s, I v s → D s
  serving : pk ≠ some 0 ∧ pk ≠ some 112 → ∀ u, Q u

/-- How a round ends that raises an error: where data is left in the buffer, what is behind the message is known
whether the long jump keeps the flag or sets it. -/
def Breaks (I : List UInt8 → State σ → Prop) (T : State σ → Prop) (Q : List UInt8 → Prop)
    (D : State σ → Prop) (e : Stop) (s : State σ) : Prop :=
  T s ∧ (e = .error → s.comm.pqCommReadingMsg = true ∨ ∃ u, I u s ∧
    (0 < s.comm.pqBufferRemainingData → Q u) ∧
    (s.comm.pqBufferRemainingData = 0 ∨ s.pipelining = false → ∀ s', I u s' → D s'))

variable {Q : List UInt8 → Prop} {D : State σ → Prop}

section Round

variable (C : Conveyed b t n pk a I T) (H : Heading t n pk I Q D) (hbyte : pk ≠ some 0 ∧ pk ≠ some 112)

include C

/-- Off the cuts, the buffer is empty only at the end of the packet. -/
theorem Conveyed.drained_iff (h : I u s) (hcut : u ≠ [] → ¬t.Cut b n (n - u.length)) :
    s.comm.pqBufferRemainingData = 0 ↔ u = [] := by
  constructor
  · intro hzero
    by_contra hu
    have hpos := (C.settled h).remaining_pos_iff.mpr (hcut hu)
    omega
  · rintro rfl
    exact (C.settled h).remaining_nil

include H

/-- With the flag telling whether the packet goes on, the loop is at its head. -/
theorem Conveyed.atHead (h : I u s) (hQ : u ≠ [] → Q u) (hpipe : s.pipelining = true ↔ u ≠ []) :
    AtHead b t n I T Q D s := by
  refine ⟨fun hmore => ?_, fun hdone => ?_⟩
  · have hu := hpipe.mp hmore
    exact ⟨u, hQ hu, C.start h hu⟩
  · obtain rfl : u = [] := by
      by_contra hu
      rw [hpipe.mpr hu] at hdone
      cases hdone
    exact H.ended h

include hbyte

/-- The lines behind the protocol switch lead to the head of the loop. -/
theorem Conveyed.betweenMessages (h : I u s)
    (hcut : u ≠ [] → s.pipelining = true ∧ ¬t.Cut b n (n - u.length)) :
    wp (betweenMessages B) (fun _ s' => AtHead b t n I T Q D s') (fun e s' => T s' ∧ e ≠ .error) s := by
  have hready : ∀ dest, KeepsPipelining (readyForQuery B dest) := by
    intro dest
    refine performs_bind (keepsPipelining_modify fun _ => rfl) fun _ => performs_ite ?_ (performs_pure _)
    refine performs_bind performs_get fun s => ?_
    exact performs_bind (keepsPipelining_putmessage _ _ _) fun _ => keepsPipelining_liftComm internalFlush
  have hkeeps : KeepsPipelining (do
      if (← get).pipelining && (← get).sendReadyForQuery then
        readyForQuery B (← get).whereToSendOutput
        modify fun s => { s with sendReadyForQuery := false } : PgM σ Unit) := by
    refine performs_bind performs_get fun s => performs_bind performs_get fun s' => ?_
    refine performs_ite ?_ (performs_pure _)
    refine performs_bind performs_get fun s => performs_bind (hready _) fun _ => ?_
    exact keepsPipelining_modify fun _ => rfl
  have hsends : SendMoves (do
      if (← get).pipelining && (← get).sendReadyForQuery then
        readyForQuery B (← get).whereToSendOutput
        modify fun s => { s with sendReadyForQuery := false } : PgM σ Unit) := by
    refine performs_bind performs_get fun s => performs_bind performs_get fun s' => ?_
    refine performs_ite ?_ (performs_pure _)
    refine performs_bind performs_get fun s => performs_bind (raises_readyForQuery B _).sends fun _ => ?_
    exact sends_modify fun _ => by constructor <;> rfl
  have hthrows := throws_betweenMessages (B := B) s
  have hQ : u ≠ [] → Q u := fun _ => H.serving hbyte u
  have hmain : wp (PgliteBuild.betweenMessages B) (fun _ s' => AtHead b t n I T Q D s')
    (fun _ s' => T s') s := by
    rw [PgliteBuild.betweenMessages, wp_bind, wp_get]
    rcases Bool.eq_false_or_eq_true s.pipelining with htrue | hfalse
    · rw [if_pos htrue, wp_bind, wp_modify]
      have hset : I u { s with pipelining := decide (0 < s.comm.pqBufferRemainingData) } :=
        C.control h (by constructor <;> rfl)
      refine wp_mono (wp_and (C.sends hsends hset) (hkeeps.spec _)) ?_ fun _ _ h' => C.held h'.1
      rintro _ s' ⟨h', hsame⟩
      refine C.atHead H h' hQ ?_
      rw [hsame, ne_eq, ← C.drained_iff h fun hu => (hcut hu).2, decide_eq_true_iff]
      exact Nat.pos_iff_ne_zero
    · rw [if_neg (by simp [hfalse])]
      refine C.atHead H h hQ ⟨fun htrue => ?_, fun hu => (hcut hu).1⟩
      rw [hfalse] at htrue
      cases htrue
  exact wp_mono (wp_and hmain hthrows) (fun _ _ h' => h'.1) fun _ _ h' => h'

/-- Acting on a message that was handed over. -/
theorem Conveyed.actOn (msg : Msg) (h : I v s) (hbody : s.inBuf = msg.body)
    (hpipe : s.pipelining = true → v ≠ [])
    (hterminate : msg.kind = .terminate → ∀ s', I v s' → D s') (hin : StaysInside (s.reads B msg) v)
    (hcut : ∀ ms' v', v = encodeMsgs ms' ++ v' → ms'.length = s.reads B msg → v' ≠ [] →
      s.pipelining = true ∧ ¬t.Cut b n (n - v'.length)) :
    wp (actOn b B (some msg.kind))
      (fun l s' => l = .loop ∧ AtHead b t n I T Q D s' ∨ l = .wireFlush ∧ D s') (Breaks I T Q D) s := by
  have hQ : ∀ u : List UInt8, u ≠ [] → Q u := fun u _ => H.serving hbyte u
  rw [PgliteBuild.actOn, wp_bind, wp_get]
  by_cases hskip : (s.ignoreTillSync && (some msg.kind).any (· ≠ .sync)) = true
  · rw [if_pos hskip]
    obtain ⟨hignore, hkind⟩ : s.ignoreTillSync = true ∧ msg.kind ≠ .sync := by simpa using hskip
    have hnone : s.reads B msg = 0 := if_neg fun hreads => hkind (hreads.2 hignore)
    exact .inl ⟨rfl, C.atHead H h (hQ v) ⟨hpipe, fun hv => (hcut [] v rfl hnone.symm hv).1⟩⟩
  · rw [if_neg hskip, wp_bind]
    have hsync : s.ignoreTillSync = true → msg.kind = .sync := by
      intro hignore
      by_contra hkind
      simp [hignore, hkind] at hskip
    have hreads : s.reads B msg = if s.whereToSendOutput = .remote then (B.answer s.db msg).reads else 0 := by
      simp only [State.reads, and_iff_left hsync]
    -- only the Terminate at the end of the packet clears the flag
    have hkept : wp (PgliteBuild.protoSwitch b B (some msg.kind))
        (fun _ s' => msg.kind ≠ .terminate → s'.pipelining = s.pipelining)
        (fun _ s' => msg.kind ≠ .terminate → s'.pipelining = s.pipelining) s := by
      by_cases hkind : msg.kind = .terminate
      · exact wp_mono (wp_true _ s) (fun _ _ _ hne => absurd hkind hne) fun _ _ _ hne => absurd hkind hne
      · exact wp_mono ((keepsPipelining_protoSwitch hkind).spec s) (fun _ _ h' _ => h') fun _ _ h' _ => h'
    refine wp_mono (wp_and (C.protoSwitch msg h hbody hin hreads) hkept) ?_ ?_
    · rintro (_ | _) s₁ ⟨hswitch, hsame⟩
      · obtain ⟨hkind, ms', v', rfl, hlen, h₁⟩ := hswitch
        rw [if_neg (by simp), wp_bind]
        have hnext := hcut ms' v' rfl hlen
        rw [← hsame hkind] at hnext
        refine wp_mono (C.betweenMessages H hbyte h₁ hnext) (fun _ s₂ h₂ => .inl ⟨rfl, h₂⟩) ?_
        rintro e s₂ ⟨hheld, herror⟩
        exact ⟨hheld, fun he => absurd he herror⟩
      · obtain ⟨hkind, h₁⟩ := hswitch
        exact .inr ⟨rfl, hterminate hkind s₁ h₁⟩
    · rintro e s₁ ⟨⟨hkind, hheld, herror⟩, hsame⟩
      refine ⟨hheld, fun he => (herror he).imp_right ?_⟩
      rintro ⟨ms', v', rfl, hlen, h₁⟩
      have hzero := C.drained_iff h₁ fun hv' => (hcut ms' v' rfl hlen hv').2
      refine ⟨v', h₁, fun _ => H.serving hbyte v', fun hend => ?_⟩
      obtain rfl : v' = [] := by
        rcases hend with hnone | hdone
        · exact hzero.mp hnone
        · by_contra hv'
          rw [hsame hkind, (hcut ms' v' rfl hlen hv').1] at hdone
          cases hdone
      exact fun _ => H.ended

/-- **A round that reads a message.** -/
theorem Offering.message (h : Offering b t n I T u s)
    (hin : s.comm.pqCommReadingMsg = false → TurnRead b B t n I D u s) :
    wp (do
      let firstchar ← nextMessage b B
      PgliteBuild.actOn b B firstchar)
      (fun l s' => l = .loop ∧ AtHead b t n I T Q D s' ∨ l = .wireFlush ∧ D s') (Breaks I T Q D) s := by
  rw [wp_bind, nextMessage, wp_bind, wp_get, if_pos (C.frame h.held).1, wp_bind]
  refine wp_mono (h.socketBackend C) ?_ fun e s' h' => ⟨h'.1, fun he => absurd he h'.2⟩
  rintro (_ | m) s₁ hhands
  · -- the end of the input
    obtain ⟨v, h₁, hend⟩ := hhands
    have hD : ∀ s', I v s' → D s' := by
      rcases hend with rfl | ⟨m, w, rfl, hnot, hbad⟩
      · exact fun _ => H.ended
      · exact (hin hnot).badLength m w v rfl hbad
    have hset : I v { s₁ with pipelining := decide (0 < s₁.comm.pqBufferRemainingData) } :=
      C.control h₁ (by constructor <;> rfl)
    rw [wp_bind, wp_modify, wp_pure, PgliteBuild.actOn, wp_bind, wp_get, if_neg (by simp), wp_bind]
    refine wp_mono (C.protoSwitch_none hset) ?_ fun _ _ h' => h'.elim
    rintro shortcut s₂ ⟨rfl, h₂⟩
    exact .inr ⟨rfl, hD s₂ h₂⟩
  · obtain ⟨msg, v, rfl, rfl, h₁, hnot, hbody, hignore, hdb, hwhere⟩ := hhands
    have hset : I v { s₁ with pipelining := decide (0 < s₁.comm.pqBufferRemainingData) } :=
      C.control h₁ (by constructor <;> rfl)
    obtain ⟨hterminate, -, hinside, hcuts⟩ := hin hnot
    -- the handler runs as it would have before the message was read
    have hreads : State.reads B { s₁ with pipelining := decide (0 < s₁.comm.pqBufferRemainingData) } msg =
        s.reads B msg := by
      by_cases hkind : msg.kind = .terminate
      · simp [State.reads, Backend.answer, hkind, Response.reads]
      · have hsync : (s₁.ignoreTillSync = true → msg.kind = .sync) ↔
            (s.ignoreTillSync = true → msg.kind = .sync) := by
          rw [hignore, Bool.and_eq_true, Bool.not_eq_true', ← Bool.not_eq_true, endsSkip_iff hkind]
          tauto
        simp only [State.reads, hsync, hdb, hwhere]
    rw [wp_bind, wp_modify, wp_pure]
    refine C.actOn H hbyte msg hset hbody ?_ (hterminate msg v rfl) ?_ ?_
    · rintro hpos rfl
      have hzero := (C.settled h₁).remaining_nil
      simp [hzero] at hpos
    · rw [hreads]
      exact hinside msg v rfl
    · rw [hreads]
      rintro ms' v' rfl hlen hv'
      obtain ⟨hcut, hcut'⟩ := hcuts msg ms' v' (by simp) hlen hv'
      exact ⟨decide_eq_true ((C.settled h₁).remaining_pos_iff.mpr hcut), hcut'⟩

end Round

/-! ## Startup and password packets -/

/-- Reading `k` bytes drops them. -/
theorem Conveyed.discardBytes (C : Conveyed b t n pk a I T) (k : ℕ) (h : I u s) :
    wp (discardBytes b k) (fun _ s' => I (u.drop k) s') (fun _ _ => False) s := by
  induction k generalizing u s with
  | zero => exact h
  | succ k ih =>
      rw [PgliteBuild.discardBytes, wp_bind, wp_liftRecv]
      refine wp_mono (ih (C.getbyte h).2) (fun _ s' h' => ?_) fun _ _ h' => h'
      rwa [List.drop_tail] at h'

/-- `discard_input` uses up a packet in the memory area. -/
theorem Offering.discardInput (C : Conveyed b t n pk a I T) (h : Offering b t n I T u s) (hu : u ≠ [])
    (hsize : s.comm.cmaRsize = u.length) :
    wp (discardInput b) (fun _ s' => I [] s') (fun _ s' => T s') s := by
  obtain ⟨k, hk⟩ : ∃ k, u.length = k + 1 :=
    Nat.exists_eq_succ_of_ne_zero (List.length_pos_iff.mpr hu).ne'
  have hread : wp (do
      liftComm (pqStartmsgread b)
      PgliteBuild.discardBytes b (k + 1)
      liftComm pqEndmsgread : PgM σ Unit) (fun _ s' => I [] s') (fun _ s' => T s') s := by
    refine h.startmsg (f := fun _ => do PgliteBuild.discardBytes b k; liftComm pqEndmsgread) h.held
      fun c _ _ hread => ?_
    rw [wp_bind]
    refine wp_mono (C.discardBytes k hread) (fun _ s' h' => ?_) fun _ _ h' => h'.elim
    have hdone : u.tail.drop k = [] := by
      rw [List.drop_eq_nil_iff, List.length_tail]
      omega
    rw [hdone] at h'
    exact C.reading false h'
  have hne : ¬s.comm.cmaRsize = 0 := by omega
  rw [PgliteBuild.discardInput, wp_bind, wp_get, if_neg hne]
  rcases Bool.eq_false_or_eq_true s.comm.pqCommReadingMsg with hreading | hreading
  · rw [wp_bind, wp_liftComm, wp_of_error (pqStartmsgread_reading hreading)]
    exact h.held
  · have hlen : (s.comm.startmsgread b).cmaRsize.toNat = k + 1 := by
      rw [startmsgread_cmaRsize, hsize, hk, Int.toNat_natCast]
    rw [wp_bind, wp_liftComm, wp_of_ok (pqStartmsgread_eq hreading)] at hread ⊢
    rw [wp_bind, wp_get]
    dsimp only
    rw [hlen]
    exact hread

/-- `startup_auth` uses up a packet in the memory area. -/
theorem Offering.startupAuth (C : Conveyed b t n pk a I T) (h : Offering b t n I T u s) (hu : u ≠ [])
    (hsize : s.comm.cmaRsize = u.length) :
    wp (startupAuth b) (fun _ s' => I [] s') (fun e s' => T s' ∧ e ≠ .error) s := by
  have hasks : SendMoves (do
      modify fun s => { s with clientAuthInProgress := true }
      putmessage .auth 82 (word32 5 ++ [0x01, 0x23, 0x45, 0x56])
      liftComm internalFlush : PgM σ Unit) :=
    performs_bind (sends_modify fun _ => by constructor <;> rfl) fun _ =>
      performs_bind (sends_putmessage _ _ _) fun _ => sends_flush
  have hnoted : Offering b t n I T u { s with
      trace := s.trace ++ [.raising .startupAuth]
      sendReadyForQuery := false
      sfConnected := s.sfConnected + 1 } :=
    (Offering.note C h rfl).control C (by constructor <;> rfl)
  have hmain : wp (PgliteBuild.startupAuth b) (fun _ s' => I [] s') (fun _ s' => T s') s := by
    rw [PgliteBuild.startupAuth, wp_bind, wp_record, wp_bind, wp_modify, wp_bind, wp_modify, wp_bind]
    refine wp_mono (hnoted.discardInput C hu hsize) (fun _ s₁ h₁ => ?_) fun _ _ h' => h'
    exact wp_mono (C.sends hasks h₁) (fun _ _ h' => h') fun _ _ h' => C.held h'
  exact wp_mono (wp_and hmain (throws_startupAuth s)) (fun _ _ h' => h'.1) fun _ _ h' => h'

/-- `recv_password_packet` reads one message. -/
theorem Offering.recvPasswordPacket (C : Conveyed b t n pk a I T) (h : Offering b t n I T u s) :
    wp (recvPasswordPacket b)
      (fun r s' => T s' ∧ (r.isSome = true → ∃ body v, readBody 65535 u.tail = .body body v ∧ I v s'))
      (fun e s' => T s' ∧ (e = .error → s'.comm.pqCommReadingMsg = true ∧ u.head? ≠ some 112 ∨
        ∃ body v, readBody 65535 u.tail = .body body v ∧ I v s')) s := by
  refine h.startmsg ⟨h.held, fun he => by cases he⟩ fun c hnot hreading hread => ?_
  cases u.head? with
  | none => exact ⟨C.held hread, fun hsome => by cases hsome⟩
  | some x =>
      dsimp only
      split_ifs with hbyte
      · exact C.raises_reading _ _ hread hreading fun _ hheld hr =>
          ⟨hheld, fun _ => .inl ⟨hr, by simpa using hbyte⟩⟩
      · obtain ⟨hbody, hrest, -⟩ := C.getmessage 65535 hread
        rw [wp_bind, wp_liftRecv]
        dsimp only at hbody hrest ⊢
        rw [hbody]
        cases hfound : readBody 65535 u.tail with
        | short =>
            rw [hfound] at hrest
            exact ⟨C.held hrest, fun hsome => by cases hsome⟩
        | badLength v =>
            rw [hfound] at hrest
            exact ⟨C.held hrest, fun hsome => by cases hsome⟩
        | body body v =>
            rw [hfound] at hrest
            dsimp only [BodyRead.body?, BodyRead.rest] at hrest ⊢
            split_ifs
            · exact C.raises _ _ hrest fun _ h' => ⟨C.held h', fun _ => .inr ⟨body, v, rfl, h'⟩⟩
            · exact C.raises _ _ hrest fun _ h' => ⟨C.held h', fun _ => .inr ⟨body, v, rfl, h'⟩⟩
            · exact ⟨C.held hrest, fun _ => ⟨body, v, rfl, hrest⟩⟩

/-- `startup_pass` reads a password message. -/
theorem Offering.startupPass (C : Conveyed b t n pk a I T) (h : Offering b t n I T u s) :
    wp (startupPass b B true)
      (fun _ s' => s'.pipelining = s.pipelining ∧ ∃ body v, readBody 65535 u.tail = .body body v ∧ I v s')
      (fun e s' => s'.pipelining = s.pipelining ∧ T s' ∧
        (e = .error → s'.comm.pqCommReadingMsg = true ∧ u.head? ≠ some 112 ∨
          ∃ body v, readBody 65535 u.tail = .body body v ∧ I v s')) s := by
  have hnoted := Offering.note C h (e := .raising .startupPass) rfl
  have hmain : wp (PgliteBuild.startupPass b B true)
      (fun _ s' => ∃ body v, readBody 65535 u.tail = .body body v ∧ I v s')
      (fun e s' => T s' ∧ (e = .error → s'.comm.pqCommReadingMsg = true ∧ u.head? ≠ some 112 ∨
        ∃ body v, readBody 65535 u.tail = .body body v ∧ I v s')) s := by
    rw [PgliteBuild.startupPass, wp_bind, wp_record]
    simp only [if_true]
    rw [wp_bind]
    refine wp_mono (hnoted.recvPasswordPacket C) ?_ ?_
    · rintro (_ | body) s₁ ⟨hheld, hsome⟩
      · exact ⟨hheld, fun he => by cases he⟩
      · obtain ⟨body', v, hfound, h₁⟩ := hsome rfl
        refine wp_mono (C.sends (sends_accept B) h₁) (fun _ _ h' => ⟨body', v, hfound, h'⟩) fun _ _ h' => ?_
        exact ⟨C.held h', fun _ => .inr ⟨body', v, hfound, h'⟩⟩
    · rintro e s₁ ⟨hheld, herror⟩
      exact ⟨hheld, herror⟩
  exact wp_mono (wp_and (keepsPipelining_startupPass.spec s) hmain) (fun _ _ h' => h') fun _ _ h' => h'

/-! ## Rounds of the loop -/

section Loop

variable (C : Conveyed b t n pk a I T) (H : Heading t n pk I Q D)

include C H

/-- **A round of the loop** goes on in the packet, or leaves it. -/
theorem AtHead.loopRound (h : AtHead b t n I T Q D s) (hpipe : s.pipelining = true)
    (hin : pk ≠ some 0 ∧ pk ≠ some 112 → s.comm.pqCommReadingMsg = false →
      ∀ u, Feeds b t n u (s.comm.startmsgread b) → TurnRead b B t n I D u s) :
    wp (loopRound b B)
      (fun l s' => l = .loop ∧ AtHead b t n I T Q D s' ∨ (l = .resumeOnError ∨ l = .wireFlush) ∧ D s')
      (Breaks I T Q D) s := by
  obtain ⟨u, hQ, hoffer⟩ := h.more hpipe
  obtain ⟨hwire, hrepl, hpeek, -⟩ := C.frame hoffer.held
  have hround : s.round = s := if_neg (by simp [hrepl])
  rw [wp_of_eq (loopRound_eq b B s), hround, hpeek, hwire]
  split_ifs with hzero hpass
  · have hpk : pk = some 0 := by simpa using hzero
    obtain ⟨ht, hne, hlen⟩ := H.startup hQ hpk
    have hsize : s.comm.cmaRsize = u.length := by rw [C.size hoffer.held ht, hlen]
    rw [wp_bind]
    refine wp_mono (hoffer.startupAuth C hne hsize) (fun _ s₁ h₁ => .inr ⟨.inl rfl, H.ended h₁⟩) ?_
    rintro e s₁ ⟨hheld, herror⟩
    exact ⟨hheld, fun he => absurd he herror⟩
  · have hpk : pk = some 112 := by simpa using hpass
    rw [wp_bind]
    refine wp_mono (hoffer.startupPass C) ?_ ?_
    · rintro _ s₁ ⟨-, body, v, hfound, h₁⟩
      exact .inr ⟨.inl rfl, (H.password hQ hpk hfound).2 s₁ h₁⟩
    · rintro e s₁ ⟨hsame, hheld, herror⟩
      refine ⟨hheld, fun he => (herror he).imp And.left ?_⟩
      rintro ⟨body, v, hfound, h₁⟩
      obtain ⟨hnext, hD⟩ := H.password hQ hpk hfound
      refine ⟨v, h₁, fun hpos => hnext ?_, fun _ => hD⟩
      rintro rfl
      exact hpos.ne' (C.settled h₁).remaining_nil
  · have hbyte : pk ≠ some 0 ∧ pk ≠ some 112 := by simpa using And.intro hzero hpass
    refine wp_mono (hoffer.message C H hbyte fun hnot => hin hbyte hnot u (hoffer.feeds hnot)) ?_ fun _ _ h' => h'
    rintro l s₁ (hloop | ⟨hflush, h₁⟩)
    · exact .inl hloop
    · exact .inr ⟨.inr hflush, h₁⟩

omit H in
/-- The handler goes back to a packet that goes on, and leaves for `wire_flush` behind one that does not. -/
theorem Breaks.handler {s : State σ} (h : Breaks I T Q D .error s) :
    wp (handler b B) (fun l s' => l = .incoming ∧ AtHead b t n I T Q D s' ∨ l = .wireFlush ∧ D s')
      (fun e s' => T s' ∧ e ≠ .error) s := by
  obtain ⟨hheld, herror⟩ := h
  have hstopped : wp (PgliteBuild.handler b B) (fun _ s' => T s') (fun _ s' => T s') s :=
    (sends_handler B).keeps (fun _ _ => C.sendHeld) hheld
  rcases herror rfl with hreading | ⟨u, hinv, hmore, hdone⟩
  · refine wp_mono (wp_and (wp_and (handler_fork B s) (throws_handler s)) hstopped) ?_ ?_
    · rintro l s' ⟨⟨⟨-, hnot, -⟩, -⟩, -⟩
      rw [hreading] at hnot
      cases hnot
    · rintro e s' ⟨⟨-, he⟩, hheld'⟩
      exact ⟨hheld', he⟩
  · have hkept := wp_and (C.sends (sends_handler (b := b) B) hinv) (handler_pipelining s)
    refine wp_mono (wp_and (wp_and (wp_and (handler_fork B s) (throws_handler s)) hstopped) hkept) ?_ ?_
    · rintro l s' ⟨⟨⟨⟨hside, -, hl⟩, -⟩, -⟩, hinv', hpipe⟩
      by_cases hpos : 0 < s.comm.pqBufferRemainingData
      · rw [if_pos hpos] at hl
        have hu : u ≠ [] := by
          rintro rfl
          exact hpos.ne' (C.settled hinv).remaining_nil
        refine .inl ⟨hl, fun _ => ⟨u, hmore hpos, C.start hinv' hu⟩, fun hfalse => ?_⟩
        refine hdone (.inr (Bool.eq_false_iff.mpr fun htrue => ?_)) s' hinv'
        rw [hpipe htrue] at hfalse
        cases hfalse
      · rw [if_neg hpos] at hl
        exact .inr ⟨hl, hdone (.inl (by omega)) s' hinv'⟩
    · rintro e s' ⟨⟨⟨-, he⟩, hheld'⟩, -⟩
      exact ⟨hheld', he⟩

/-- **Step lemma of the loop.** An error that reaches no handler ends the call. -/
theorem AtHead.step (h : AtHead b t n I T Q D s)
    (hin : s.pipelining = true → pk ≠ some 0 ∧ pk ≠ some 112 → s.comm.pqCommReadingMsg = false →
      ∀ u, Feeds b t n u (s.comm.startmsgread b) → TurnRead b B t n I D u s) :
    wp (step b B .loop)
      (fun next s' => (next = some .loop ∨ next = some .incoming ∧ a = true) ∧ AtHead b t n I T Q D s' ∨
        (next = some .resumeOnError ∨ next = some .wireFlush) ∧ D s')
      (fun e s' => T s' ∧ (e = .error → a = false ∧ block b B .loop s = .error .error s')) s := by
  have hblock : wp (block b B .loop)
      (fun next s' => next = some .loop ∧ AtHead b t n I T Q D s' ∨
        (next = some .resumeOnError ∨ next = some .wireFlush) ∧ D s')
      (Breaks I T Q D) s := by
    rw [block, wp_bind, wp_get]
    rcases Bool.eq_false_or_eq_true s.pipelining with hpipe | hpipe
    · rw [if_pos hpipe, wp_bind]
      refine wp_mono (h.loopRound C H hpipe (hin hpipe)) ?_ fun _ _ h' => h'
      rintro l s' (⟨rfl, h'⟩ | ⟨hl, h'⟩)
      · exact .inl ⟨rfl, h'⟩
      · exact .inr ⟨hl.imp (congrArg some) (congrArg some), h'⟩
    · rw [if_neg (by simp [hpipe])]
      exact .inr ⟨.inl rfl, h.done hpipe⟩
  rw [wp_step]
  refine wp_mono (wp_and hblock (wp_self _ s)) ?_ ?_
  · rintro next s' ⟨⟨hl, h'⟩ | h', -⟩
    · exact .inl ⟨.inl hl, h'⟩
    · exact .inr h'
  · rintro e s' ⟨hbreaks, hresult⟩
    have harmed : s'.armed = a := (C.frame hbreaks.1).2.2.2
    split_ifs with hhandled
    · obtain ⟨rfl, hset⟩ := hhandled
      refine wp_mono (Breaks.handler C hbreaks) ?_ fun _ _ h' => ⟨h'.1, fun he => absurd he h'.2⟩
      rintro l s'' (⟨rfl, h''⟩ | ⟨rfl, h''⟩)
      · exact .inl ⟨.inr ⟨rfl, harmed.symm.trans hset⟩, h''⟩
      · exact .inr ⟨.inr rfl, h''⟩
    · refine ⟨hbreaks.1, ?_⟩
      rintro rfl
      refine ⟨?_, hresult⟩
      rw [← harmed, Bool.eq_false_iff]
      exact fun hset => hhandled ⟨rfl, hset⟩

end Loop

end PgliteBuild
