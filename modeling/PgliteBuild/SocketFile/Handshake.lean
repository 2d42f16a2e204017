import PgliteBuild.Foundation.Runs

/-! # The socket-file handshake

A client and the server exchange requests and replies through files. The client writes `PGS_ILOCK`,
renames it to `PGS_IN`, waits for `PGS_OUT`, reads it and unlinks it. The server is one call of
`interactive_one` after the other: it opens `PGS_OLOCK` unless it is open, reads `PGS_IN` if that exists,
writes its reply to `PGS_OLOCK`, renames that to `PGS_OUT` and unlinks `PGS_IN`. Each file operation is
one step, and the steps of the two interleave in any order. -/

namespace PgliteBuild

open Runs

variable {σ : Type}

/-! ## The two parties -/

/-- Where the client is in its cycle. -/
inductive Client where
  | composing
  /-- `PGS_ILOCK` is written. -/
  | locked
  /-- `PGS_IN` is published. -/
  | waiting
  /-- `PGS_OUT` was seen. -/
  | reading
  /-- `PGS_OUT` was read. -/
  | read
  deriving DecidableEq, Repr

/-- Where the server is in a call. -/
inductive Server where
  /-- Between two calls. -/
  | idle
  /-- `PGS_OLOCK` is open. -/
  | opened
  /-- A request was read, and these pieces of its reply are still to be written. -/
  | replying (todo : List (List UInt8))
  /-- At `return_early`, with `PGS_IN` open. -/
  | unlinking
  deriving DecidableEq, Repr

/-- The files, the two parties, and what they did so far. -/
structure Handshake (σ : Type) where
  pgsIlock : Option (List UInt8)
  pgsIn : Option (List UInt8)
  pgsOlock : Option (List UInt8)
  pgsOut : Option (List UInt8)
  client : Client
  server : Server
  /-- Whether `SOCKET_FILE` is open. -/
  socketFile : Bool
  db : σ
  /-- The requests renamed to `PGS_IN`. -/
  published : List (List UInt8)
  /-- The requests that the server read. -/
  processed : List (List UInt8)
  /-- The replies that the client read. -/
  received : List (List UInt8)

/-- No files, and neither party has begun. -/
def Handshake.boot (d : σ) : Handshake σ where
  pgsIlock := none
  pgsIn := none
  pgsOlock := none
  pgsOut := none
  client := .composing
  server := .idle
  socketFile := false
  db := d
  published := []
  processed := []
  received := []

/-- The file operations. -/
inductive FileStep where
  | writeIlock (request : List UInt8)
  | renameIn
  | seeOut
  | readOut
  | unlinkOut
  | openOlock
  | readIn
  | writeOlock
  | renameOut
  | unlinkIn
  deriving DecidableEq, Repr

/-- When an operation is next. A request is a packet of a byte or more. -/
def FileStep.Enabled (s : Handshake σ) : FileStep → Prop
  | .writeIlock request => s.client = .composing ∧ request ≠ []
  | .renameIn => s.client = .locked
  | .seeOut => s.client = .waiting ∧ s.pgsOut.isSome = true
  | .readOut => s.client = .reading
  | .unlinkOut => s.client = .read
  | .openOlock => s.server = .idle
  | .readIn => s.server = .opened
  | .writeOlock => ∃ piece todo, s.server = .replying (piece :: todo)
  | .renameOut => s.server = .replying []
  | .unlinkIn => s.server = .unlinking

/-- What an operation does. `serve` says which pieces the backend writes in reply to a request. -/
def FileStep.effect (serve : σ → List UInt8 → List (List UInt8) × σ) (s : Handshake σ) :
    FileStep → Handshake σ
  | .writeIlock request => { s with pgsIlock := some request, client := .locked }
  | .renameIn =>
      { s with
        pgsIn := s.pgsIlock
        pgsIlock := none
        client := .waiting
        published := s.published ++ s.pgsIlock.toList }
  | .seeOut => { s with client := .reading }
  | .readOut => { s with client := .read, received := s.received ++ s.pgsOut.toList }
  | .unlinkOut => { s with client := .composing, pgsOut := none }
  | .openOlock =>
      { s with
        server := .opened
        pgsOlock := if s.socketFile then s.pgsOlock else some []
        socketFile := true }
  | .readIn =>
      match s.pgsIn with
      | none => { s with server := .idle }
      -- an empty file has nothing to be answered
      | some [] => { s with server := .unlinking }
      | some (c :: cs) =>
          { s with
            server := .replying (serve s.db (c :: cs)).1
            db := (serve s.db (c :: cs)).2
            processed := s.processed ++ [c :: cs] }
  | .writeOlock =>
      match s.server with
      | .replying (piece :: todo) =>
          { s with server := .replying todo, pgsOlock := s.pgsOlock.map (· ++ piece) }
      | _ => s
  | .renameOut =>
      { s with server := .unlinking, pgsOut := s.pgsOlock, pgsOlock := none, socketFile := false }
  | .unlinkIn => { s with server := .idle, pgsIn := none }

/-- One step of either party. -/
def FileStep.Step (serve : σ → List UInt8 → List (List UInt8) × σ) (s : Handshake σ) (l : FileStep)
    (t : Handshake σ) : Prop := l.Enabled s ∧ t = l.effect serve s

/-! ## What the handshake promises -/

section Replies

variable (serve : σ → List UInt8 → List (List UInt8) × σ)

/-- The complete replies to a sequence of requests. -/
def replies : σ → List (List UInt8) → List (List UInt8)
  | _, [] => []
  | d, request :: requests => (serve d request).1.flatten :: replies (serve d request).2 requests

/-- The backend after a sequence of requests. -/
def served (d : σ) (requests : List (List UInt8)) : σ := requests.foldl (fun d r => (serve d r).2) d

/-- One more request moves the served database on by one. -/
theorem served_concat (d : σ) (requests : List (List UInt8)) (request : List UInt8) :
    served serve d (requests ++ [request]) = (serve (served serve d requests) request).2 := by
  rw [served, List.foldl_append]
  rfl

/-- One more request has its own reply, behind the others. -/
theorem replies_concat (d : σ) (requests : List (List UInt8)) (request : List UInt8) :
    replies serve d (requests ++ [request]) =
      replies serve d requests ++ [(serve (served serve d requests) request).1.flatten] := by
  induction requests generalizing d with
  | nil => rfl
  | cons r rs ih => exact congrArg ((serve d r).1.flatten :: ·) (ih (serve d r).2)

/-- Every request is processed at most once and in order, one that was not processed is still in
`PGS_IN`, and the client has the complete replies to its first requests. -/
structure HandshakeKept (d : σ) (s : Handshake σ) : Prop where
  processed : s.processed <+: s.published
  unread : s.processed ≠ s.published →
    ∃ request, s.pgsIn = some request ∧ s.processed ++ [request] = s.published
  received : s.received <+: replies serve d s.processed

end Replies

/-! ## The invariant -/

variable {serve : σ → List UInt8 → List (List UInt8) × σ} {d : σ} {s t : Handshake σ}

/-- The server has no request before it. -/
def Handshake.Resting (s : Handshake σ) : Prop :=
  (s.server = .idle ∨ s.server = .opened) ∧ s.pgsIn = none ∨ s.server = .unlinking

/-- How far the exchange is. -/
inductive Phase (serve : σ → List UInt8 → List (List UInt8) × σ) (d : σ) (s : Handshake σ) : Prop
  /-- The client has every reply. -/
  | quiet : s.client = .composing ∨ s.client = .locked ∧ s.pgsIlock.isSome = true → s.Resting →
      s.processed = s.published → s.received = replies serve d s.processed → s.pgsOut = none →
      Phase serve d s
  /-- A request is in `PGS_IN`. -/
  | asked (request : List UInt8) : s.client = .waiting → s.server = .idle ∨ s.server = .opened →
      request ≠ [] → s.pgsIn = some request → s.processed ++ [request] = s.published →
      s.received = replies serve d s.processed → s.pgsOut = none → Phase serve d s
  /-- Its reply is being written. -/
  | serving (todo : List (List UInt8)) (written : List UInt8) : s.client = .waiting →
      s.server = .replying todo → s.processed = s.published → s.pgsOlock = some written →
      replies serve d s.processed = s.received ++ [written ++ todo.flatten] → s.pgsOut = none →
      Phase serve d s
  /-- Its reply is in `PGS_OUT`. -/
  | answered (reply : List UInt8) : s.client = .waiting ∨ s.client = .reading → s.Resting →
      s.processed = s.published → s.pgsOut = some reply →
      replies serve d s.processed = s.received ++ [reply] → Phase serve d s
  /-- The client has read the reply. -/
  | taken : s.client = .read → s.Resting → s.processed = s.published →
      s.received = replies serve d s.processed → Phase serve d s

/-- The invariant of the exchange. -/
structure Exchanging (serve : σ → List UInt8 → List (List UInt8) × σ) (d : σ) (s : Handshake σ) :
    Prop where
  phase : Phase serve d s
  db : s.db = served serve d s.processed
  /-- Only a reply is written to an open `PGS_OLOCK`. -/
  lock : (∀ todo, s.server ≠ .replying todo) → s.socketFile = true → s.pgsOlock = some []
  opened : s.server = .opened → s.socketFile = true
  /-- The client writes no empty request. -/
  locked : s.pgsIlock ≠ some []

/-- The invariant gives what the handshake owes. -/
theorem Exchanging.kept (h : Exchanging serve d s) : HandshakeKept serve d s := by
  cases h.phase with
  | quiet _ _ hprocessed hreceived _ =>
      exact ⟨hprocessed ▸ List.prefix_rfl, fun hne => absurd hprocessed hne,
        hreceived ▸ List.prefix_rfl⟩
  | asked request _ _ _ hin hpublished hreceived _ =>
      exact ⟨⟨[request], hpublished⟩, fun _ => ⟨request, hin, hpublished⟩, hreceived ▸ List.prefix_rfl⟩
  | serving todo written _ _ hprocessed _ hreplies _ =>
      exact ⟨hprocessed ▸ List.prefix_rfl, fun hne => absurd hprocessed hne, ⟨_, hreplies.symm⟩⟩
  | answered reply _ _ hprocessed _ hreplies =>
      exact ⟨hprocessed ▸ List.prefix_rfl, fun hne => absurd hprocessed hne, ⟨_, hreplies.symm⟩⟩
  | taken _ _ hprocessed hreceived =>
      exact ⟨hprocessed ▸ List.prefix_rfl, fun hne => absurd hprocessed hne,
        hreceived ▸ List.prefix_rfl⟩

/-- At the start nothing was exchanged. -/
theorem exchanging_boot (serve : σ → List UInt8 → List (List UInt8) × σ) (d : σ) :
    Exchanging serve d (Handshake.boot d) :=
  ⟨.quiet (.inl rfl) (.inl ⟨.inl rfl, rfl⟩) rfl rfl rfl, rfl, (fun _ h => by cases h),
    (fun h => by cases h), (fun h => by cases h)⟩

/-! ## The steps of the client -/

/-- The client writes a request when it has its last reply. -/
theorem Exchanging.writeIlock {request : List UInt8} (h : Exchanging serve d s)
    (henabled : (FileStep.writeIlock request).Enabled s) :
    Exchanging serve d ((FileStep.writeIlock request).effect serve s) := by
  obtain ⟨hclient, hne⟩ := henabled
  refine ⟨?_, h.db, h.lock, h.opened, fun heq => hne (Option.some.inj heq)⟩
  cases h.phase with
  | quiet _ hrest hprocessed hreceived hout =>
      exact .quiet (.inr ⟨rfl, rfl⟩) hrest hprocessed hreceived hout
  | asked _ hwaiting => cases hclient.symm.trans hwaiting
  | serving _ _ hwaiting => cases hclient.symm.trans hwaiting
  | answered _ hwaiting => rcases hwaiting with hwaiting | hwaiting <;> cases hclient.symm.trans hwaiting
  | taken hread => cases hclient.symm.trans hread

/-- The client may publish as long as the server is not about to unlink `PGS_IN`. -/
theorem Exchanging.renameIn (h : Exchanging serve d s) (henabled : FileStep.renameIn.Enabled s)
    (hguard : s.server ≠ .unlinking) : Exchanging serve d (FileStep.renameIn.effect serve s) := by
  have hclient : s.client = .locked := henabled
  refine ⟨?_, h.db, h.lock, h.opened, (fun heq => by cases heq)⟩
  cases h.phase with
  | quiet hlocked hrest hprocessed hreceived hout =>
      have hsome : s.pgsIlock.isSome = true := by
        rcases hlocked with hcomposing | ⟨-, hsome⟩
        · cases hclient.symm.trans hcomposing
        · exact hsome
      obtain ⟨request, hrequest⟩ := Option.isSome_iff_exists.mp hsome
      have hne : request ≠ [] := fun hnil => h.locked (hrequest.trans (congrArg some hnil))
      have hserver : s.server = .idle ∨ s.server = .opened := by
        rcases hrest with ⟨hserver, -⟩ | hunlinking
        · exact hserver
        · exact absurd hunlinking hguard
      refine .asked request rfl hserver hne hrequest ?_ hreceived hout
      show s.processed ++ [request] = s.published ++ s.pgsIlock.toList
      rw [hrequest, hprocessed]
      rfl
  | asked _ hwaiting => cases hclient.symm.trans hwaiting
  | serving _ _ hwaiting => cases hclient.symm.trans hwaiting
  | answered _ hwaiting => rcases hwaiting with hwaiting | hwaiting <;> cases hclient.symm.trans hwaiting
  | taken hread => cases hclient.symm.trans hread

/-- The client sees a reply that is published. -/
theorem Exchanging.seeOut (h : Exchanging serve d s) (henabled : FileStep.seeOut.Enabled s) :
    Exchanging serve d (FileStep.seeOut.effect serve s) := by
  obtain ⟨hclient, hsome⟩ := henabled
  refine ⟨?_, h.db, h.lock, h.opened, h.locked⟩
  cases h.phase with
  | quiet _ _ _ _ hout => rw [hout] at hsome; cases hsome
  | asked _ _ _ _ _ _ _ hout => rw [hout] at hsome; cases hsome
  | serving _ _ _ _ _ _ _ hout => rw [hout] at hsome; cases hsome
  | answered reply _ hrest hprocessed hout hreplies =>
      exact .answered reply (.inr rfl) hrest hprocessed hout hreplies
  | taken hread => cases hclient.symm.trans hread

/-- The client receives the reply of its last request. -/
theorem Exchanging.readOut (h : Exchanging serve d s) (henabled : FileStep.readOut.Enabled s) :
    Exchanging serve d (FileStep.readOut.effect serve s) := by
  have hclient : s.client = .reading := henabled
  refine ⟨?_, h.db, h.lock, h.opened, h.locked⟩
  cases h.phase with
  | quiet hlocked =>
      rcases hlocked with hcomposing | ⟨hlocked, -⟩
      · cases hclient.symm.trans hcomposing
      · cases hclient.symm.trans hlocked
  | asked _ hwaiting => cases hclient.symm.trans hwaiting
  | serving _ _ hwaiting => cases hclient.symm.trans hwaiting
  | answered reply _ hrest hprocessed hout hreplies =>
      refine .taken rfl hrest hprocessed ?_
      show s.received ++ s.pgsOut.toList = replies serve d s.processed
      rw [hout, hreplies]
      rfl
  | taken hread => cases hclient.symm.trans hread

/-- The client removes a reply that it has received. -/
theorem Exchanging.unlinkOut (h : Exchanging serve d s) (henabled : FileStep.unlinkOut.Enabled s) :
    Exchanging serve d (FileStep.unlinkOut.effect serve s) := by
  have hclient : s.client = .read := henabled
  refine ⟨?_, h.db, h.lock, h.opened, h.locked⟩
  cases h.phase with
  | quiet hlocked =>
      rcases hlocked with hcomposing | ⟨hlocked, -⟩
      · cases hclient.symm.trans hcomposing
      · cases hclient.symm.trans hlocked
  | asked _ hwaiting => cases hclient.symm.trans hwaiting
  | serving _ _ hwaiting => cases hclient.symm.trans hwaiting
  | answered _ hwaiting => rcases hwaiting with hwaiting | hwaiting <;> cases hclient.symm.trans hwaiting
  | taken _ hrest hprocessed hreceived => exact .quiet (.inl rfl) hrest hprocessed hreceived rfl

/-! ## The steps of the server -/

/-- A server that rests stays at rest while it only moves on. -/
theorem Handshake.Resting.of_opened (h : s.Resting) (hserver : s.server = .opened) : s.pgsIn = none := by
  rcases h with ⟨-, hnone⟩ | hunlinking
  · exact hnone
  · cases hserver.symm.trans hunlinking

/-- A server that is idle or waits for input writes no reply. -/
theorem not_replying (h : s.server = .idle ∨ s.server = .opened) (todo : List (List UInt8)) :
    s.server ≠ .replying todo := by
  intro hreplying
  rcases h with hidle | hopened
  · cases hreplying.symm.trans hidle
  · cases hreplying.symm.trans hopened

/-- A server at rest writes no reply. -/
theorem Handshake.Resting.not_replying (h : s.Resting) (todo : List (List UInt8)) :
    s.server ≠ .replying todo := by
  rcases h with ⟨hserver, -⟩ | hunlinking
  · exact PgliteBuild.not_replying hserver todo
  · intro hreplying
    cases hreplying.symm.trans hunlinking

/-- The server opens the file of its reply before it looks for a request. -/
theorem Exchanging.openOlock (h : Exchanging serve d s) (henabled : FileStep.openOlock.Enabled s) :
    Exchanging serve d (FileStep.openOlock.effect serve s) := by
  have hserver : s.server = .idle := henabled
  have hrests : s.Resting → (FileStep.openOlock.effect serve s).Resting := by
    rintro (⟨-, hnone⟩ | hunlinking)
    · exact .inl ⟨.inr rfl, hnone⟩
    · cases hserver.symm.trans hunlinking
  refine ⟨?_, h.db, fun _ _ => ?_, fun _ => rfl, h.locked⟩
  · cases h.phase with
    | quiet hclient hrest hprocessed hreceived hout =>
        exact .quiet hclient (hrests hrest) hprocessed hreceived hout
    | asked request hclient _ hne hin hpublished hreceived hout =>
        exact .asked request hclient (.inr rfl) hne hin hpublished hreceived hout
    | serving _ _ _ hreplying => cases hserver.symm.trans hreplying
    | answered reply hclient hrest hprocessed hout hreplies =>
        exact .answered reply hclient (hrests hrest) hprocessed hout hreplies
    | taken hclient hrest hprocessed hreceived => exact .taken hclient (hrests hrest) hprocessed hreceived
  · show (if s.socketFile then s.pgsOlock else some []) = some []
    split_ifs with hopen
    · exact h.lock (not_replying (.inl hserver)) hopen
    · rfl

/-- Without a request the call returns at once. -/
theorem Exchanging.readIn_none (h : Exchanging serve d s) (hserver : s.server = .opened)
    (hin : s.pgsIn = none) : Exchanging serve d { s with server := .idle } := by
  have hrests : Handshake.Resting { s with server := .idle } := .inl ⟨.inl rfl, hin⟩
  refine ⟨?_, h.db, fun _ => h.lock (not_replying (.inr hserver)), (fun hopened => by cases hopened),
    h.locked⟩
  cases h.phase with
  | quiet hclient _ hprocessed hreceived hout => exact .quiet hclient hrests hprocessed hreceived hout
  | asked _ _ _ _ hsome => cases hin.symm.trans hsome
  | serving _ _ _ hreplying => cases hserver.symm.trans hreplying
  | answered reply hclient _ hprocessed hout hreplies =>
      exact .answered reply hclient hrests hprocessed hout hreplies
  | taken hclient _ hprocessed hreceived => exact .taken hclient hrests hprocessed hreceived

/-- A request that is read is processed, and its reply begins in an empty file. -/
theorem Exchanging.readIn_some {request : List UInt8} (h : Exchanging serve d s)
    (hserver : s.server = .opened) (hin : s.pgsIn = some request) :
    request ≠ [] ∧ Exchanging serve d { s with
      server := .replying (serve s.db request).1
      db := (serve s.db request).2
      processed := s.processed ++ [request] } := by
  cases h.phase with
  | quiet _ hrest => cases hin.symm.trans (hrest.of_opened hserver)
  | asked request' hclient _ hne hsome hpublished hreceived hout =>
      obtain rfl : request = request' := Option.some.inj (hin.symm.trans hsome)
      have hdb : (serve s.db request).2 = served serve d (s.processed ++ [request]) := by
        rw [served_concat, h.db]
      have hlock := h.lock (not_replying (.inr hserver)) (h.opened hserver)
      refine ⟨hne, ?_, hdb, fun hno => absurd rfl (hno _), (fun hopened => by cases hopened), h.locked⟩
      refine .serving _ [] hclient rfl hpublished hlock ?_ hout
      show replies serve d (s.processed ++ [request]) = s.received ++ [[] ++ (serve s.db request).1.flatten]
      rw [replies_concat, hreceived, h.db, List.nil_append]
  | serving _ _ _ hreplying => cases hserver.symm.trans hreplying
  | answered _ _ hrest => cases hin.symm.trans (hrest.of_opened hserver)
  | taken _ hrest => cases hin.symm.trans (hrest.of_opened hserver)

/-- The server reads a request, or it finds none. -/
theorem Exchanging.readIn (h : Exchanging serve d s) (henabled : FileStep.readIn.Enabled s) :
    Exchanging serve d (FileStep.readIn.effect serve s) := by
  have hserver : s.server = .opened := henabled
  unfold FileStep.effect
  cases hin : s.pgsIn with
  | none =>
      have hnone := h.readIn_none hserver hin
      rwa [hin] at hnone
  | some request =>
      obtain ⟨hne, hread⟩ := h.readIn_some hserver hin
      cases request with
      | nil => exact absurd rfl hne
      | cons c cs =>
          rw [hin] at hread
          exact hread

/-- The server writes the next piece of its reply. -/
theorem Exchanging.writeOlock (h : Exchanging serve d s) (henabled : FileStep.writeOlock.Enabled s) :
    Exchanging serve d (FileStep.writeOlock.effect serve s) := by
  obtain ⟨piece, todo, hserver⟩ := henabled
  have heffect : FileStep.writeOlock.effect serve s =
      { s with server := .replying todo, pgsOlock := s.pgsOlock.map (· ++ piece) } := by
    simp only [FileStep.effect, hserver]
  rw [heffect]
  refine ⟨?_, h.db, fun hno => absurd rfl (hno todo), (fun hopened => by cases hopened), h.locked⟩
  cases h.phase with
  | quiet _ hrest => exact absurd hserver (hrest.not_replying _)
  | asked _ _ hidle => exact absurd hserver (not_replying hidle _)
  | serving todo' written hclient hreplying hprocessed hlock hreplies hout =>
      obtain rfl : piece :: todo = todo' := Server.replying.inj (hserver.symm.trans hreplying)
      refine .serving todo (written ++ piece) hclient rfl hprocessed ?_ ?_ hout
      · show s.pgsOlock.map (· ++ piece) = some (written ++ piece)
        rw [hlock]
        rfl
      · rw [List.append_assoc]
        exact hreplies
  | answered _ _ hrest => exact absurd hserver (hrest.not_replying _)
  | taken _ hrest => exact absurd hserver (hrest.not_replying _)

/-- A reply is published when all of it is written. -/
theorem Exchanging.renameOut (h : Exchanging serve d s) (henabled : FileStep.renameOut.Enabled s) :
    Exchanging serve d (FileStep.renameOut.effect serve s) := by
  have hserver : s.server = .replying [] := henabled
  refine ⟨?_, h.db, (fun _ hopen => by cases hopen), (fun hopened => by cases hopened), h.locked⟩
  cases h.phase with
  | quiet _ hrest => exact absurd hserver (hrest.not_replying _)
  | asked _ _ hidle => exact absurd hserver (not_replying hidle _)
  | serving todo written hclient hreplying hprocessed hlock hreplies _ =>
      obtain rfl : [] = todo := Server.replying.inj (hserver.symm.trans hreplying)
      rw [List.flatten_nil, List.append_nil] at hreplies
      exact .answered written (.inl hclient) (.inr rfl) hprocessed hlock hreplies
  | answered _ _ hrest => exact absurd hserver (hrest.not_replying _)
  | taken _ hrest => exact absurd hserver (hrest.not_replying _)

/-- The server removes a request that it has answered. -/
theorem Exchanging.unlinkIn (h : Exchanging serve d s) (henabled : FileStep.unlinkIn.Enabled s) :
    Exchanging serve d (FileStep.unlinkIn.effect serve s) := by
  have hserver : s.server = .unlinking := henabled
  have hrests : (FileStep.unlinkIn.effect serve s).Resting := .inl ⟨.inl rfl, rfl⟩
  have hno : ∀ todo, s.server ≠ .replying todo := by
    intro todo hreplying
    cases hserver.symm.trans hreplying
  refine ⟨?_, h.db, fun _ => h.lock hno, (fun hopened => by cases hopened), h.locked⟩
  cases h.phase with
  | quiet hclient _ hprocessed hreceived hout => exact .quiet hclient hrests hprocessed hreceived hout
  | asked _ _ hidle =>
      rcases hidle with hidle | hopened
      · cases hserver.symm.trans hidle
      · cases hserver.symm.trans hopened
  | serving _ _ _ hreplying => exact absurd hreplying (hno _)
  | answered reply hclient _ hprocessed hout hreplies =>
      exact .answered reply hclient hrests hprocessed hout hreplies
  | taken hclient _ hprocessed hreceived => exact .taken hclient hrests hprocessed hreceived

/-! ## Every interleaving -/

/-- The client does not publish a request while the server is between the renaming of its reply and the
unlinking of `PGS_IN`. -/
def OutsideWindow (s : Handshake σ) (l : FileStep) : Prop := l = .renameIn → s.server ≠ .unlinking

/-- One step keeps the invariant. -/
theorem Exchanging.step {l : FileStep} (h : Exchanging serve d s) (hguard : OutsideWindow s l)
    (hstep : l.Step serve s t) : Exchanging serve d t := by
  obtain ⟨henabled, rfl⟩ := hstep
  cases l with
  | writeIlock request => exact h.writeIlock henabled
  | renameIn => exact h.renameIn henabled (hguard rfl)
  | seeOut => exact h.seeOut henabled
  | readOut => exact h.readOut henabled
  | unlinkOut => exact h.unlinkOut henabled
  | openOlock => exact h.openOlock henabled
  | readIn => exact h.readIn henabled
  | writeOlock => exact h.writeOlock henabled
  | renameOut => exact h.renameOut henabled
  | unlinkIn => exact h.unlinkIn henabled

/-- **The handshake**: in every interleaving of any number of requests in which the client publishes
none inside the server's window, each request is processed once and the client has the replies to its
requests. -/
theorem handshake_kept (serve : σ → List UInt8 → List (List UInt8) × σ) (d : σ) {ls : List FileStep}
    (hrun : Reaches (FileStep.Step serve) (.boot d) ls t)
    (hguard : Guarded (FileStep.Step serve) OutsideWindow (.boot d) ls) :
    HandshakeKept serve d t := by
  have hinv : Exchanging serve d t := hrun.inv (I := fun _ s => Exchanging serve d s)
    (exchanging_boot serve d) (fun _ _ _ _ h hout hstep => h.step hout hstep) hguard
  exact hinv.kept

/-! ## Two runs -/

/-- The operations are enabled one after the other, and the guard `G` holds of each. -/
def Runnable (serve : σ → List UInt8 → List (List UInt8) × σ) (G : Handshake σ → FileStep → Prop) :
    Handshake σ → List FileStep → Prop
  | _, [] => True
  | s, l :: ls => l.Enabled s ∧ G s l ∧ Runnable serve G (l.effect serve s) ls

/-- Operations that are enabled one after the other are a guarded run. -/
theorem Runnable.guarded {G : Handshake σ → FileStep → Prop} {ls : List FileStep}
    (h : Runnable serve G s ls) :
    Reaches (FileStep.Step serve) s ls (ls.foldl (FileStep.effect serve) s) ∧
      Guarded (FileStep.Step serve) G s ls := by
  induction ls generalizing s with
  | nil => exact ⟨.nil, guarded_nil⟩
  | cons l ls ih =>
      obtain ⟨henabled, hguard, hrest⟩ := h
      obtain ⟨hrun, hguards⟩ := ih hrest
      exact ⟨.cons ⟨henabled, rfl⟩ hrun, .cons (fun _ hstep => hstep.2) hguard hguards⟩

/-- A server that answers each request with itself. -/
def echo (_ : Unit) (request : List UInt8) : List (List UInt8) × Unit := ([request], ())

/-- Two requests and their replies. The client writes its second request while the server is still to
unlink the file of the first, and publishes it after that. -/
def twoExchanges : List FileStep :=
  [.openOlock, .writeIlock [81], .renameIn, .readIn, .writeOlock, .renameOut, .seeOut, .readOut, .unlinkOut,
    .writeIlock [83], .unlinkIn, .renameIn, .openOlock, .readIn, .writeOlock, .renameOut, .unlinkIn, .seeOut,
    .readOut, .unlinkOut]

/-- The client of `twoExchanges` has both its replies. -/
theorem handshake_kept_twoExchanges :
    HandshakeKept echo () (twoExchanges.foldl (FileStep.effect echo) (.boot ())) := by
  have hrun : Runnable echo OutsideWindow (.boot ()) twoExchanges := by
    simp [twoExchanges, Runnable, FileStep.Enabled, FileStep.effect, OutsideWindow, Handshake.boot, echo]
  exact handshake_kept echo () hrun.guarded.1 hrun.guarded.2

/-- The client has its first reply and publishes its second request before the server unlinks the file
of the first. -/
def windowExchange : List FileStep :=
  [.openOlock, .writeIlock [81], .renameIn, .readIn, .writeOlock, .renameOut, .seeOut, .readOut, .unlinkOut,
    .writeIlock [83], .renameIn, .unlinkIn]

/-- The second request is removed unread. -/
theorem handshake_loses_request :
    ∃ t, Reaches (FileStep.Step echo) (.boot ()) windowExchange t ∧ ¬HandshakeKept echo () t := by
  have hrun : Runnable echo (fun _ _ => True) (.boot ()) windowExchange := by
    simp [windowExchange, Runnable, FileStep.Enabled, FileStep.effect, Handshake.boot, echo]
  refine ⟨_, hrun.guarded.1, fun hkept => ?_⟩
  obtain ⟨request, hin, -⟩ := hkept.unread (by decide)
  cases hin

end PgliteBuild
