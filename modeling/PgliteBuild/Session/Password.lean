import PgliteBuild.Session.Call

/-! # The password packet

`startup_pass(true)` reads the packet with `recv_password_packet`, which raises an error for a body
that is no password and returns a null pointer when there is no body at all. `PasswordContract` is what
the handshake asks of it; `passwordContract_iff` says that it is kept as long as a body can be read. -/

namespace PgliteBuild

open Effect Framing

variable {σ : Type} {b : Build} {B : Backend σ} {t : Transport} {n : ℕ} {s : State σ}

/-! ## Password messages -/

/-- A complete password message at the head of a packet. -/
def StartsWithPassword (packet : List UInt8) : Prop :=
  ∃ password rest, password ≠ [] ∧ 0 ∉ password ∧ password.length + 5 ≤ 65535 ∧
    packet = 112 :: (encodeBody (password ++ [0]) ++ rest)

/-- The two checks of `recv_password_packet` on a body. -/
def PasswordBody (body : List UInt8) : Prop := strlen body + 1 = body.length ∧ body.length ≠ 1

/-- A password ends at the NUL behind it. -/
theorem strlen_append_nul {password : List UInt8} (h : 0 ∉ password) :
    strlen (password ++ [0]) = password.length := by
  have hall : ∀ x ∈ password, decide (x ≠ 0) = true := by
    intro x hx
    rw [decide_eq_true_eq]
    rintro rfl
    exact h hx
  rw [strlen, List.takeWhile_append_of_pos hall]
  simp

/-- A body whose first NUL is its last byte. -/
theorem eq_append_nul_of_strlen {body : List UInt8} (h : strlen body + 1 = body.length) :
    ∃ password, 0 ∉ password ∧ body = password ++ [0] := by
  induction body with
  | nil => cases h
  | cons x xs ih =>
      by_cases hx : x = 0
      · subst hx
        have hnil : xs = [] := List.length_eq_zero_iff.mp (Nat.succ.inj h).symm
        exact ⟨[], List.not_mem_nil, by rw [hnil]; rfl⟩
      · have hlen : strlen (x :: xs) = strlen xs + 1 := by
          simp [strlen, hx]
        rw [hlen] at h
        obtain ⟨password, hnul, rfl⟩ := ih (Nat.succ.inj h)
        refine ⟨x :: password, ?_, rfl⟩
        rintro (_ | ⟨_, hmem⟩)
        · exact hx rfl
        · exact hnul hmem

/-- The checks leave exactly the non-empty strings with their NUL. -/
theorem passwordBody_iff (body : List UInt8) :
    PasswordBody body ↔ ∃ password, password ≠ [] ∧ 0 ∉ password ∧ body = password ++ [0] := by
  constructor
  · rintro ⟨hlen, hone⟩
    obtain ⟨password, hnul, rfl⟩ := eq_append_nul_of_strlen hlen
    refine ⟨password, ?_, hnul, rfl⟩
    rintro rfl
    exact hone rfl
  · rintro ⟨password, hne, hnul, rfl⟩
    have hpos := List.length_pos_iff.mpr hne
    refine ⟨?_, ?_⟩
    · rw [strlen_append_nul hnul, List.length_append, List.length_singleton]
    · rw [List.length_append, List.length_singleton]
      omega

/-- A packet starts with a password when the body read from it is one. -/
theorem startsWithPassword_iff (xs : List UInt8) :
    StartsWithPassword (112 :: xs) ↔
      ∃ body, (readBody 65535 xs).body? = some body ∧ PasswordBody body := by
  constructor
  · rintro ⟨password, rest, hne, hnul, hlen, hpacket⟩
    have hbody : (password ++ [0]).length + 4 ≤ 65535 := by
      rw [List.length_append, List.length_singleton]
      omega
    refine ⟨password ++ [0], ?_, (passwordBody_iff _).mpr ⟨password, hne, hnul, rfl⟩⟩
    rw [(List.cons.inj hpacket).2, readBody_encodeBody rest hbody (by omega)]
    rfl
  · rintro ⟨body, hread, hpassword⟩
    obtain ⟨password, hne, hnul, rfl⟩ := (passwordBody_iff _).mp hpassword
    cases hcase : readBody 65535 xs with
    | short => rw [hcase] at hread; cases hread
    | badLength rest => rw [hcase] at hread; cases hread
    | body bytes rest =>
        rw [hcase] at hread
        cases hread
        obtain ⟨hlen, hxs⟩ := eq_encodeBody_of_readBody hcase
        rw [List.length_append, List.length_singleton] at hlen
        exact ⟨password, rest, hne, hnul, by omega, congrArg (112 :: ·) hxs⟩

/-! ## Reading the packet -/

/-- Nothing but the connection and the error stack has changed. -/
def State.OnlyComm (s s' : State σ) : Prop :=
  s' = { s with comm := s'.comm, errordata := s'.errordata }

/-- `recv_password_packet` on a packet that starts with `p`. -/
theorem recvPasswordPacket_spec {xs : List UInt8} (h : Offers b t n (112 :: xs) s.comm) :
    wp (recvPasswordPacket b)
      (fun r s' => s.OnlyComm s' ∧ s'.comm.socketFile.isSome = true ∧
        r = (readBody 65535 xs).body? ∧ ∀ body, r = some body → PasswordBody body)
      (fun e s' => s.OnlyComm s' ∧ e = .error ∧ s'.errordata.isSome = true ∧
        ∃ body, (readBody 65535 xs).body? = some body ∧ ¬PasswordBody body) s := by
  obtain ⟨hbyte, hsettled, hreads⟩ := pqGetbyte_spec h.feeds
  obtain ⟨hbody, -, hreads'⟩ := pqGetmessage_spec 65535 hsettled
  have hfile : (pqGetmessage b 65535 (pqGetbyte b (s.comm.startmsgread b)).2).2.socketFile.isSome =
      true := by
    have hbyteFile : (pqGetbyte b (s.comm.startmsgread b)).2.socketFile =
        (s.comm.startmsgread b).socketFile := (congrArg Comm.socketFile hreads.same :)
    have hbodyFile : (pqGetmessage b 65535 (pqGetbyte b (s.comm.startmsgread b)).2).2.socketFile =
        (pqGetbyte b (s.comm.startmsgread b)).2.socketFile := (congrArg Comm.socketFile hreads'.same :)
    rw [hbodyFile, hbyteFile, (startmsgread_frame b s.comm).1]
    exact h.file
  rw [recvPasswordPacket, wp_bind, wp_liftComm, wp_of_ok (pqStartmsgread_eq h.notReading), wp_bind,
    wp_liftRecv]
  simp only [hbyte, List.head?_cons, ne_eq, not_true_eq_false, if_false]
  rw [wp_bind, wp_liftRecv]
  simp only [List.tail_cons] at hbody
  simp only [hbody]
  cases hcase : (readBody 65535 xs).body? with
  | none => exact ⟨rfl, hfile, rfl, fun body hnone => by cases hnone⟩
  | some body =>
      simp only
      split_ifs with hlen hone
      · exact ⟨rfl, rfl, rfl, body, rfl, fun hpassword => hpassword.2 hone⟩
      · refine ⟨rfl, hfile, rfl, ?_⟩
        intro body' hsome
        cases hsome
        exact ⟨hlen, hone⟩
      · exact ⟨rfl, rfl, rfl, body, rfl, fun hpassword => hlen hpassword.1⟩

/-! ## The contract -/

/-- The password was accepted: AuthenticationOk is put first, and the handshake is over. -/
def Accepted (s s' : State σ) : Prop :=
  s'.clientAuthInProgress = false ∧ ∃ more, s'.trace =
    s.trace ++ [.raising .startupPass, .put .auth (82 :: encodeBody (word32 0))] ++ more

/-- The packet was refused with an error, nothing was put and the handshake is where it was. -/
def Refused (s : State σ) (e : Stop) (s' : State σ) : Prop :=
  e = .error ∧ s'.errordata.isSome = true ∧ s'.clientAuthInProgress = s.clientAuthInProgress ∧
    s'.trace = s.trace ++ [.raising .startupPass]

/-- What the handshake asks of `startup_pass(true)`: a password is accepted, and anything else is
refused. A null pointer passed to `pfree` is neither. -/
@[irreducible] def PasswordContract (b : Build) (B : Backend σ) (packet : List UInt8) (s : State σ) : Prop :=
  wp (startupPass b B true) (fun _ s' => StartsWithPassword packet ∧ Accepted s s')
    (fun e s' => ¬StartsWithPassword packet ∧ Refused s e s') s

/-- Putting a message appends it to the history. -/
theorem putmessage_appends (hfile : s.comm.socketFile.isSome = true) (source : Source)
    (msgtype : UInt8) (body : List UInt8) {post : Unit → State σ → Prop} {exn : Stop → State σ → Prop}
    (hpost : ∀ s', s'.comm.socketFile.isSome = true → s'.clientAuthInProgress = s.clientAuthInProgress →
      s'.trace = s.trace ++ [.put source (msgtype :: encodeBody body)] → post () s') :
    wp (putmessage source msgtype body) post exn s := by
  rw [putmessage, wp_bind, wp_liftComm, wp_of_ok (pqPutmessage_eq hfile msgtype body), wp_record]
  refine hpost _ ?_ rfl rfl
  show ((messageSends msgtype body).foldl Comm.send s.comm).socketFile.isSome = true
  simpa [messageSends] using hfile

/-- A row of messages appends to the socket file and to the history. -/
theorem putmessages_appends (hfile : s.comm.socketFile.isSome = true) (source : Source)
    (msgtype : UInt8) (bodies : List (List UInt8)) {post : Unit → State σ → Prop}
    {exn : Stop → State σ → Prop}
    (hpost : ∀ s' more, s'.comm.socketFile.isSome = true →
      s'.clientAuthInProgress = s.clientAuthInProgress → s'.trace = s.trace ++ more → post () s') :
    wp (putmessages source msgtype bodies) post exn s := by
  induction bodies generalizing s with
  | nil => exact hpost s [] hfile rfl (List.append_nil _).symm
  | cons body bodies ih =>
      rw [putmessages, wp_bind]
      refine putmessage_appends hfile source msgtype body fun s₁ hfile₁ hauth₁ htrace₁ => ?_
      refine ih hfile₁ fun s₂ more hfile₂ hauth₂ htrace₂ => ?_
      refine hpost s₂ (.put source (msgtype :: encodeBody body) :: more) hfile₂ (hauth₂.trans hauth₁) ?_
      rw [htrace₂, htrace₁, List.append_assoc]
      rfl

/-- The part of `startup_pass` behind the packet puts AuthenticationOk, the settings and the key. -/
theorem startupPass_answers (hfile : s.comm.socketFile.isSome = true) {exn : Stop → State σ → Prop} :
    wp (do
      modify fun s => { s with clientAuthInProgress := false }
      putmessage .auth 82 (word32 0)
      putmessages .auth 83 (B.gucReport (← get).db)
      putmessage .auth 75 B.backendKey
      modify fun s => { s with sendReadyForQuery := true, ignoreTillSync := false })
      (fun _ s' => s'.clientAuthInProgress = false ∧ ∃ more, s'.trace =
        s.trace ++ [.put .auth (82 :: encodeBody (word32 0))] ++ more) exn s := by
  rw [wp_bind, wp_modify, wp_bind]
  refine putmessage_appends (s := { s with clientAuthInProgress := false }) hfile _ _ _
    fun s₁ hfile₁ hauth₁ htrace₁ => ?_
  rw [wp_bind, wp_get, wp_bind]
  refine putmessages_appends hfile₁ _ _ _ fun s₂ more hfile₂ hauth₂ htrace₂ => ?_
  rw [wp_bind]
  refine putmessage_appends hfile₂ _ _ _ fun s₃ _ hauth₃ htrace₃ => ?_
  rw [wp_modify]
  refine ⟨hauth₃.trans (hauth₂.trans hauth₁), more ++ [.put .auth (75 :: encodeBody B.backendKey)], ?_⟩
  show s₃.trace = _
  rw [htrace₃, htrace₂, htrace₁, List.append_assoc _ more]

/-- The contract is kept as long as `pq_getmessage` finds a body. -/
theorem startupPass_contract {xs : List UInt8} (h : Offers b t n (112 :: xs) s.comm) :
    PasswordContract b B (112 :: xs) s ↔ (readBody 65535 xs).body?.isSome = true := by
  have hread : wp (recvPasswordPacket b) _ _ { s with trace := s.trace ++ [.raising .startupPass] } :=
    recvPasswordPacket_spec h
  rw [PasswordContract, startupPass, wp_bind, wp_record]
  simp only [if_true]
  constructor
  · intro hcontract
    rw [wp_bind] at hcontract
    -- without a body the null pointer goes to `pfree`
    refine Option.isSome_iff_ne_none.mpr fun hnone => ?_
    refine not_wp_false (wp_mono (wp_and hread hcontract) ?_ ?_)
    · rintro r s' ⟨⟨-, -, rfl, -⟩, htrap⟩
      rw [hnone] at htrap
      simp only [wp_bind, wp_throw] at htrap
      cases htrap.2.1
    · rintro e s' ⟨⟨-, -, -, body, hbody, -⟩, -⟩
      rw [hnone] at hbody
      cases hbody
  · intro hsome
    obtain ⟨body, hbody⟩ := Option.isSome_iff_exists.mp hsome
    rw [wp_bind]
    refine wp_mono hread ?_ ?_
    · rintro r s' ⟨honly, hfile, rfl, hpassword⟩
      rw [hbody]
      have hstarts := (startsWithPassword_iff xs).mpr ⟨body, hbody, hpassword body hbody⟩
      have htrace : s'.trace = s.trace ++ [.raising .startupPass] := by rw [honly]
      refine wp_mono (startupPass_answers hfile) ?_ fun _ _ hexn => hexn
      rintro _ s'' ⟨hauth, more, hmore⟩
      refine ⟨hstarts, hauth, more, ?_⟩
      rw [hmore, htrace]
      simp
    · rintro e s' ⟨honly, rfl, herror, body', hbody', hbad⟩
      refine ⟨?_, rfl, herror, by rw [honly], by rw [honly]⟩
      intro hstarts
      obtain ⟨body'', hbody'', hgood⟩ := (startsWithPassword_iff xs).mp hstarts
      rw [hbody'] at hbody''
      cases hbody''
      exact hbad hgood

/-- The packet holds the message that its length word announces, and the word is in the limits of
`recv_password_packet`. -/
def HasMessage (packet : List UInt8) : Prop :=
  4 ≤ wordValue (packet.tail.take 4) ∧ wordValue (packet.tail.take 4) ≤ 65535 ∧
    wordValue (packet.tail.take 4) ≤ packet.tail.length ∧ 4 ≤ packet.tail.length

instance (packet : List UInt8) : Decidable (HasMessage packet) := inferInstanceAs (Decidable (_ ∧ _))

/-- **The password packet**: `startup_pass(true)` keeps its contract on a packet that starts with `p`
just when the packet holds the message that it announces. -/
theorem passwordContract_iff {xs : List UInt8} (h : Offers b t n (112 :: xs) s.comm) :
    PasswordContract b B (112 :: xs) s ↔ HasMessage (112 :: xs) :=
  (startupPass_contract h).trans (body?_isSome_iff 65535 xs)

/-- A client that was asked for a password and has put a packet in the memory area. -/
def awaitingPassword (packet : List UInt8) : State Unit :=
  ({ useWire 1 ((State.boot ()).opened .emscripten) with clientAuthInProgress := true }).request
    .cma packet

/-- The connection that awaits a password offers the packet. -/
theorem offers_awaitingPassword (packet : List UInt8) :
    Offers .emscripten .cma packet.length packet (awaitingPassword packet).comm :=
  offers_cma rfl rfl rfl rfl rfl (BlockMemory.Memory.read_write_self _ _ _) rfl rfl rfl

/-- The password `abc` is accepted. -/
theorem passwordContract_abc :
    PasswordContract .emscripten Backend.silent [112, 0, 0, 0, 8, 97, 98, 99, 0]
      (awaitingPassword [112, 0, 0, 0, 8, 97, 98, 99, 0]) := by
  have hmessage : HasMessage [112, 0, 0, 0, 8, 97, 98, 99, 0] := by decide
  exact (passwordContract_iff (offers_awaitingPassword [112, 0, 0, 0, 8, 97, 98, 99, 0])).mpr hmessage

/-- A password packet that was cut off passes a null pointer to `pfree`. -/
theorem passwordContract_cut_off :
    ¬PasswordContract .emscripten Backend.silent [112, 0, 0, 0, 8, 97]
      (awaitingPassword [112, 0, 0, 0, 8, 97]) := by
  rw [startupPass_contract (offers_awaitingPassword [112, 0, 0, 0, 8, 97])]
  decide

end PgliteBuild
