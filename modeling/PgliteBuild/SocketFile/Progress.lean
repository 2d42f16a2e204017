import PgliteBuild.Foundation.Fairness
import PgliteBuild.SocketFile.Handshake
import Mathlib.Data.Prod.Lex
import Mathlib.Tactic.IntervalCases
import Mathlib.Data.List.Infix

/-! # Progress of the handshake

A client that waits for `PGS_OUT` can do nothing else, so the exchange goes on only if the server comes to
publish a reply. In a fair execution every published request is answered if and only if the client never
publishes one between the renaming of a reply and the unlinking of `PGS_IN`: a request published there is
removed unread, and both parties wait from then on. -/

namespace PgliteBuild

open Fairness

variable {σ : Type} {serve : σ → List UInt8 → List (List UInt8) × σ} {d : σ} {s t : Handshake σ}

/-! ## Whose turn it is -/

/-- The two sides of the handshake. -/
inductive Party where
  | client
  | server
  deriving DecidableEq, Repr

/-- Who takes a step. -/
def FileStep.party : FileStep → Party
  | .writeIlock _ | .renameIn | .seeOut | .readOut | .unlinkOut => .client
  | .openOlock | .readIn | .writeOlock | .renameOut | .unlinkIn => .server

/-- The client waits for `PGS_OUT`, and there is none. -/
def Handshake.Awaiting (s : Handshake σ) : Prop := s.client = .waiting ∧ s.pgsOut = none

instance (s : Handshake σ) : Decidable s.Awaiting := inferInstanceAs (Decidable (_ ∧ _))

/-- The server has the turn while the client waits, and the client has it otherwise. -/
def Handshake.turn (s : Handshake σ) : Party := if s.Awaiting then .server else .client

/-- How many steps the client is away from reading a reply. -/
def Client.stage : Client → ℕ
  | .read => 4
  | .composing => 3
  | .locked => 2
  | .waiting => 1
  | .reading => 0

/-- How many steps the server is away from publishing the reply to the request in `PGS_IN`. -/
def Handshake.untilReply (serve : σ → List UInt8 → List (List UInt8) × σ) (s : Handshake σ) : ℕ :=
  let pieces := (s.pgsIn.map fun request => (serve s.db request).1.length).getD 0
  match s.server with
  | .idle => pieces + 3
  | .opened => pieces + 2
  | .replying todo => todo.length + 1
  | .unlinking => 0

/-- How far the next reply is away. -/
def Handshake.rank (serve : σ → List UInt8 → List (List UInt8) × σ) (s : Handshake σ) : ℕ ×ₗ ℕ :=
  toLex (s.client.stage, if s.Awaiting then s.untilReply serve else 0)

/-! ## What one step does to the rank -/

/-- A step brings the next reply closer, or is none of the party that has the turn and leaves that party the
turn. -/
def StepsOn (serve : σ → List UInt8 → List (List UInt8) × σ) (s : Handshake σ) (l : FileStep)
    (t : Handshake σ) : Prop :=
  t.rank serve < s.rank serve ∨ t.rank serve = s.rank serve ∧ t.turn = s.turn ∧ l.party ≠ s.turn

/-- A step that takes the client to an earlier stage is progress. -/
theorem stepsOn_of_stage {l : FileStep} {c : Client} (hs : s.client = c) (h : t.client.stage < c.stage) :
    StepsOn serve s l t := by
  subst hs
  exact .inl (Prod.Lex.toLex_lt_toLex.mpr (.inl h))

/-- A step of the server that brings it closer to the reply is progress. -/
theorem stepsOn_of_untilReply {l : FileStep} (hs : s.Awaiting) (hclient : t.client = s.client)
    (h : (if t.Awaiting then t.untilReply serve else 0) < s.untilReply serve) : StepsOn serve s l t := by
  apply Or.inl
  apply Prod.Lex.toLex_lt_toLex.mpr
  apply Or.inr
  refine ⟨congrArg Client.stage hclient, ?_⟩
  rw [if_pos hs]
  exact h

/-- While the client has the turn, the server changes nothing for it. -/
theorem stepsOn_of_rest {l : FileStep} (hs : ¬s.Awaiting) (ht : ¬t.Awaiting) (hclient : t.client = s.client)
    (hparty : l.party = .server) : StepsOn serve s l t := by
  apply Or.inr
  have hrank : t.rank serve = s.rank serve := by
    unfold Handshake.rank
    rw [if_neg hs, if_neg ht, hclient]
  have hturn : s.turn = .client := if_neg hs
  refine ⟨hrank, (if_neg ht).trans hturn.symm, ?_⟩
  rw [hparty, hturn]
  decide

/-- While the client waits, the server has its request before it or writes the reply. -/
theorem Exchanging.of_awaiting (h : Exchanging serve d s) (hs : s.Awaiting) :
    (s.server = .idle ∨ s.server = .opened) ∧ (∃ request, request ≠ [] ∧ s.pgsIn = some request) ∨
      ∃ todo written, s.server = .replying todo ∧ s.pgsOlock = some written := by
  obtain ⟨hwaiting, hnone⟩ := hs
  cases h.phase with
  | quiet hclient =>
      rcases hclient with hclient | ⟨hclient, -⟩ <;> cases hwaiting.symm.trans hclient
  | asked request _ hserver hne hin => exact .inl ⟨hserver, request, hne, hin⟩
  | serving todo written _ hserver _ hlock => exact .inr ⟨todo, written, hserver, hlock⟩
  | answered reply _ _ _ hout => cases hnone.symm.trans hout
  | taken hclient => cases hwaiting.symm.trans hclient

/-- A reply is written only while the client waits. -/
theorem Exchanging.awaiting_of_replying {todo : List (List UInt8)} (h : Exchanging serve d s)
    (hserver : s.server = .replying todo) : s.Awaiting := by
  cases h.phase with
  | quiet _ hrest => exact absurd hserver (hrest.not_replying todo)
  | asked _ _ hidle => exact absurd hserver (not_replying hidle todo)
  | serving _ _ hclient _ _ _ _ hout => exact ⟨hclient, hout⟩
  | answered _ _ hrest => exact absurd hserver (hrest.not_replying todo)
  | taken _ hrest => exact absurd hserver (hrest.not_replying todo)

/-- Whoever sees `PGS_OUT` finds a reply in it. -/
theorem Exchanging.reply_of_reading (h : Exchanging serve d s) (hclient : s.client = .reading) :
    ∃ reply, s.pgsOut = some reply := by
  cases h.phase with
  | quiet hquiet =>
      rcases hquiet with hquiet | ⟨hquiet, -⟩ <;> cases hclient.symm.trans hquiet
  | asked _ hwaiting => cases hclient.symm.trans hwaiting
  | serving _ _ hwaiting => cases hclient.symm.trans hwaiting
  | answered reply _ _ _ hout => exact ⟨reply, hout⟩
  | taken hread => cases hclient.symm.trans hread

/-- A step of the server that leaves `PGS_OUT` alone. -/
theorem stepsOn_of_server {l : FileStep} (hparty : l.party = .server) (hclient : t.client = s.client)
    (hout : t.pgsOut = s.pgsOut) (hless : s.Awaiting → t.untilReply serve < s.untilReply serve) :
    StepsOn serve s l t := by
  have hiff : t.Awaiting ↔ s.Awaiting := by
    unfold Handshake.Awaiting
    rw [hclient, hout]
  by_cases hs : s.Awaiting
  · apply stepsOn_of_untilReply hs hclient
    rw [if_pos (hiff.mpr hs)]
    exact hless hs
  · exact stepsOn_of_rest hs (fun ht => hs (hiff.mp ht)) hclient hparty

/-- **A step of the exchange** has the client read a reply, or steps on towards the next one. -/
theorem Exchanging.stepsOn {l : FileStep} (h : Exchanging serve d s) (hstep : l.Step serve s t) :
    s.received.length < t.received.length ∨ t.received = s.received ∧ StepsOn serve s l t := by
  obtain ⟨henabled, rfl⟩ := hstep
  cases l with
  | writeIlock request =>
      have hclient : s.client = .composing := henabled.1
      exact .inr ⟨rfl, stepsOn_of_stage hclient (Nat.lt_succ_self _)⟩
  | renameIn =>
      have hclient : s.client = .locked := henabled
      exact .inr ⟨rfl, stepsOn_of_stage hclient (Nat.lt_succ_self _)⟩
  | seeOut =>
      have hclient : s.client = .waiting := henabled.1
      exact .inr ⟨rfl, stepsOn_of_stage hclient (Nat.lt_succ_self _)⟩
  | readOut =>
      -- the step that reads the next reply
      obtain ⟨reply, hout⟩ := h.reply_of_reading henabled
      apply Or.inl
      show s.received.length < (s.received ++ s.pgsOut.toList).length
      rw [hout, List.length_append]
      exact Nat.lt_succ_self _
  | unlinkOut =>
      have hclient : s.client = .read := henabled
      exact .inr ⟨rfl, stepsOn_of_stage hclient (Nat.lt_succ_self _)⟩
  | openOlock =>
      have hserver : s.server = .idle := henabled
      refine .inr ⟨rfl, stepsOn_of_server rfl rfl rfl fun _ => ?_⟩
      unfold Handshake.untilReply
      rw [hserver]
      exact Nat.lt_succ_self _
  | readIn =>
      have hserver : s.server = .opened := henabled
      cases hin : s.pgsIn with
      | none =>
          have heffect : FileStep.readIn.effect serve s = { s with server := .idle } := by
            simp only [FileStep.effect, hin]
          rw [heffect]
          refine .inr ⟨rfl, stepsOn_of_server rfl rfl rfl fun hs => ?_⟩
          -- a client that waits has its request in the file
          obtain ⟨-, request, -, hsome⟩ | ⟨todo, _, hreplying, -⟩ := h.of_awaiting hs
          · cases hin.symm.trans hsome
          · cases hserver.symm.trans hreplying
      | some request =>
          obtain ⟨hne, -⟩ := h.readIn_some hserver hin
          obtain ⟨c, cs, rfl⟩ := List.exists_cons_of_ne_nil hne
          have heffect : FileStep.readIn.effect serve s = { s with
              server := .replying (serve s.db (c :: cs)).1
              db := (serve s.db (c :: cs)).2
              processed := s.processed ++ [c :: cs] } := by
            simp only [FileStep.effect, hin]
          rw [heffect]
          refine .inr ⟨rfl, stepsOn_of_server rfl rfl rfl fun _ => ?_⟩
          unfold Handshake.untilReply
          rw [hserver, hin]
          exact Nat.lt_succ_self _
  | writeOlock =>
      obtain ⟨piece, todo, hserver⟩ := henabled
      have heffect : FileStep.writeOlock.effect serve s =
          { s with server := .replying todo, pgsOlock := s.pgsOlock.map (· ++ piece) } := by
        simp only [FileStep.effect, hserver]
      rw [heffect]
      refine .inr ⟨rfl, stepsOn_of_server rfl rfl rfl fun _ => ?_⟩
      unfold Handshake.untilReply
      rw [hserver]
      exact Nat.lt_succ_self _
  | renameOut =>
      have hserver : s.server = .replying [] := henabled
      have hs := h.awaiting_of_replying hserver
      have hpublished : ∃ written, s.pgsOlock = some written := by
        obtain ⟨hidle, -⟩ | ⟨_, written, -, hlock⟩ := h.of_awaiting hs
        · exact absurd hserver (not_replying hidle [])
        · exact ⟨written, hlock⟩
      obtain ⟨written, hlock⟩ := hpublished
      have hsees : ¬(FileStep.renameOut.effect serve s).Awaiting := by
        rintro ⟨-, hnone⟩
        cases hlock.symm.trans hnone
      refine .inr ⟨rfl, stepsOn_of_untilReply hs rfl ?_⟩
      rw [if_neg hsees]
      unfold Handshake.untilReply
      rw [hserver]
      exact Nat.succ_pos _
  | unlinkIn =>
      have hserver : s.server = .unlinking := henabled
      refine .inr ⟨rfl, stepsOn_of_server rfl rfl rfl fun hs => ?_⟩
      obtain ⟨hidle | hopened, -⟩ | ⟨todo, -, hreplying, -⟩ := h.of_awaiting hs
      · cases hserver.symm.trans hidle
      · cases hserver.symm.trans hopened
      · cases hserver.symm.trans hreplying

/-! ## The parties can move -/

/-- The server is never held up. -/
theorem server_canMove (s : Handshake σ) : CanMove (FileStep.Step serve) FileStep.party .server s := by
  cases hserver : s.server with
  | idle => exact ⟨.openOlock, _, rfl, hserver, rfl⟩
  | opened => exact ⟨.readIn, _, rfl, hserver, rfl⟩
  | replying todo =>
      cases todo with
      | nil => exact ⟨.renameOut, _, rfl, hserver, rfl⟩
      | cons piece todo => exact ⟨.writeOlock, _, rfl, ⟨piece, todo, hserver⟩, rfl⟩
  | unlinking => exact ⟨.unlinkIn, _, rfl, hserver, rfl⟩

/-- The client is held up only while it waits for `PGS_OUT`. -/
theorem client_canMove (hs : ¬s.Awaiting) : CanMove (FileStep.Step serve) FileStep.party .client s := by
  cases hclient : s.client with
  | composing => exact ⟨.writeIlock [0], _, rfl, ⟨hclient, List.cons_ne_nil _ _⟩, rfl⟩
  | locked => exact ⟨.renameIn, _, rfl, hclient, rfl⟩
  | waiting =>
      have hsome : s.pgsOut.isSome = true := by
        apply Option.isSome_iff_ne_none.mpr
        exact fun hnone => hs ⟨hclient, hnone⟩
      exact ⟨.seeOut, _, rfl, ⟨hclient, hsome⟩, rfl⟩
  | reading => exact ⟨.readOut, _, rfl, hclient, rfl⟩
  | read => exact ⟨.unlinkOut, _, rfl, hclient, rfl⟩

/-- The party whose turn it is can move. -/
theorem turn_canMove (s : Handshake σ) : CanMove (FileStep.Step serve) FileStep.party s.turn s := by
  unfold Handshake.turn
  split_ifs with hs
  · exact server_canMove s
  · exact client_canMove hs

/-! ## What is published and received stays -/

/-- No step takes back a published request. -/
theorem FileStep.Step.published {l : FileStep} (h : l.Step serve s t) : s.published <+: t.published := by
  obtain ⟨-, rfl⟩ := h
  cases l with
  | renameIn => exact List.prefix_append _ _
  | readIn =>
      unfold FileStep.effect
      dsimp only
      split <;> exact List.prefix_rfl
  | writeOlock =>
      unfold FileStep.effect
      dsimp only
      split <;> exact List.prefix_rfl
  | _ => exact List.prefix_rfl

/-- No step takes back a received reply. -/
theorem FileStep.Step.received {l : FileStep} (h : l.Step serve s t) : s.received <+: t.received := by
  obtain ⟨-, rfl⟩ := h
  cases l with
  | readOut => exact List.prefix_append _ _
  | readIn =>
      unfold FileStep.effect
      dsimp only
      split <;> exact List.prefix_rfl
  | writeOlock =>
      unfold FileStep.effect
      dsimp only
      split <;> exact List.prefix_rfl
  | _ => exact List.prefix_rfl

/-- Every request has one reply. -/
theorem length_replies (serve : σ → List UInt8 → List (List UInt8) × σ) (d : σ)
    (requests : List (List UInt8)) : (replies serve d requests).length = requests.length := by
  induction requests generalizing d with
  | nil => rfl
  | cons request requests ih => exact congrArg (· + 1) (ih _)

/-- The replies to the first requests are the first replies. -/
theorem replies_prefix {requests requests' : List (List UInt8)} (h : requests <+: requests') :
    replies serve d requests <+: replies serve d requests' := by
  obtain ⟨more, rfl⟩ := h
  induction requests generalizing d with
  | nil => exact List.nil_prefix
  | cons request requests ih => exact (List.prefix_cons_inj _).mpr ih

/-- The replies to some requests are there as soon as there are as many replies. -/
theorem HandshakeKept.replies_prefix {requests : List (List UInt8)} (h : HandshakeKept serve d s)
    (hpublished : requests <+: s.published) (hcount : requests.length ≤ s.received.length) :
    replies serve d requests <+: s.received := by
  have hall : s.received <+: replies serve d s.published :=
    h.received.trans (PgliteBuild.replies_prefix h.processed)
  apply List.prefix_of_prefix_length_le (PgliteBuild.replies_prefix hpublished) hall
  rw [length_replies]
  exact hcount

/-! ## Fair executions -/

variable {x : Execution (FileStep.Step serve)}

/-- The client has more and more replies. -/
theorem received_grows (hboot : x.state 0 = .boot d) (hfair : x.Fair FileStep.party)
    (hguard : x.Guarded OutsideWindow) (k : ℕ) : ∃ n, k ≤ (x.state n).received.length := by
  induction k with
  | zero => exact ⟨0, Nat.zero_le _⟩
  | succ k ih =>
      obtain ⟨n, hn⟩ := ih
      obtain hlt | heq := hn.lt_or_eq
      · exact ⟨n, hlt⟩
      · -- the client has `k` replies; the progress rule leads to one more
        have hinv : ∀ n, Exchanging serve d (x.state n) := by
          intro n
          apply x.inv (fun m _ => hguard m) (hboot ▸ exchanging_boot serve d)
          exact fun s i t h hout hstep => h.step hout hstep
        have hleads : x.LeadsTo (fun s => Exchanging serve d s ∧ s.received.length = k)
            fun s => k < s.received.length := by
          apply Execution.leadsTo_of_rank Handshake.turn (Handshake.rank serve) ?_ (fun s _ => turn_canMove s)
            hguard hfair
          rintro s l t ⟨h, hk⟩ hout hstep
          obtain hmore | ⟨hsame, hon⟩ := h.stepsOn hstep
          · exact .inl (hk ▸ hmore)
          · exact .inr ⟨⟨h.step hout hstep, hsame ▸ hk⟩, hon⟩
        obtain ⟨m, -, hm⟩ := hleads n ⟨hinv n, heq.symm⟩
        exact ⟨m, hm⟩

/-- Both parties wait: the client for a reply, the server for a request. -/
def Handshake.Stuck (s : Handshake σ) : Prop := s.Awaiting ∧ s.Resting

/-- Nothing moves any more. -/
theorem Handshake.Stuck.step {l : FileStep} (h : s.Stuck) (hstep : l.Step serve s t) :
    t.Stuck ∧ t.received = s.received := by
  obtain ⟨⟨hclient, hout⟩, hrest⟩ := h
  obtain ⟨henabled, rfl⟩ := hstep
  cases l with
  | writeIlock request => cases hclient.symm.trans henabled.1
  | renameIn => cases hclient.symm.trans henabled
  | seeOut =>
      have hsome := henabled.2
      rw [hout] at hsome
      cases hsome
  | readOut => cases hclient.symm.trans henabled
  | unlinkOut => cases hclient.symm.trans henabled
  | openOlock =>
      have hserver : s.server = .idle := henabled
      obtain ⟨-, hnone⟩ | hunlinking := hrest
      · exact ⟨⟨⟨hclient, hout⟩, .inl ⟨.inr rfl, hnone⟩⟩, rfl⟩
      · cases hserver.symm.trans hunlinking
  | readIn =>
      have hnone := hrest.of_opened henabled
      have heffect : FileStep.readIn.effect serve s = { s with server := .idle } := by
        simp only [FileStep.effect, hnone]
      rw [heffect]
      exact ⟨⟨⟨hclient, hout⟩, .inl ⟨.inl rfl, hnone⟩⟩, rfl⟩
  | writeOlock =>
      obtain ⟨piece, todo, hserver⟩ := henabled
      exact absurd hserver (hrest.not_replying _)
  | renameOut => exact absurd henabled (hrest.not_replying _)
  | unlinkIn => exact ⟨⟨⟨hclient, hout⟩, .inl ⟨.inl rfl, rfl⟩⟩, rfl⟩

/-- A request published inside the window leaves both parties waiting. -/
theorem Exchanging.stuck_of_window (h : Exchanging serve d s) (hstep : FileStep.renameIn.Step serve s t)
    (hserver : s.server = .unlinking) : t.Stuck ∧ t.received.length < t.published.length := by
  obtain ⟨henabled, rfl⟩ := hstep
  have hclient : s.client = .locked := henabled
  cases h.phase with
  | quiet hlocked _ hprocessed hreceived hout =>
      have hsome : s.pgsIlock.isSome = true := by
        rcases hlocked with hcomposing | ⟨-, hsome⟩
        · cases hclient.symm.trans hcomposing
        · exact hsome
      obtain ⟨request, hrequest⟩ := Option.isSome_iff_exists.mp hsome
      refine ⟨⟨⟨rfl, hout⟩, .inr hserver⟩, ?_⟩
      show s.received.length < (s.published ++ s.pgsIlock.toList).length
      rw [hrequest, hreceived, length_replies, hprocessed, List.length_append]
      exact Nat.lt_succ_self _
  | asked _ hwaiting => cases hclient.symm.trans hwaiting
  | serving _ _ hwaiting => cases hclient.symm.trans hwaiting
  | answered _ hwaiting => rcases hwaiting with hwaiting | hwaiting <;> cases hclient.symm.trans hwaiting
  | taken hread => cases hclient.symm.trans hread

/-- **Every request is answered**: in a fair execution the complete replies to all requests published so far
are received at some time, if and only if the client never publishes a request inside the server's window. -/
theorem requests_answered_iff (hboot : x.state 0 = .boot d) (hfair : x.Fair FileStep.party) :
    (∀ n, ∃ m, n ≤ m ∧ replies serve d (x.state n).published <+: (x.state m).received) ↔
      x.Guarded OutsideWindow := by
  constructor
  · intro hanswered n
    -- the first publication inside the window
    induction n using Nat.strong_induction_on with
    | _ n ih =>
        intro hlabel hserver
        have hinv : Exchanging serve d (x.state n) :=
          x.inv ih (hboot ▸ exchanging_boot serve d) fun s i t h hout hstep => h.step hout hstep
        have hstep := x.moves n
        rw [hlabel] at hstep
        obtain ⟨hstuck, hless⟩ := hinv.stuck_of_window hstep hserver
        -- the request that was lost is published, so it would be answered; but nothing moves from here on
        obtain ⟨m, hm, hprefix⟩ := hanswered (n + 1)
        have hsame : (x.state m).Stuck ∧ (x.state m).received = (x.state (n + 1)).received := by
          apply x.inv_from (I := fun s => s.Stuck ∧ s.received = (x.state (n + 1)).received) ?_ ⟨hstuck, rfl⟩ hm
          rintro s l t ⟨hs, hreceived⟩ hstep
          obtain ⟨ht, hkept⟩ := hs.step hstep
          exact ⟨ht, hkept.trans hreceived⟩
        have hcount := hprefix.length_le
        rw [length_replies, hsame.2] at hcount
        exact absurd hless hcount.not_gt
  · intro hguard n
    obtain ⟨m, hm⟩ := received_grows hboot hfair hguard (x.state n).published.length
    refine ⟨max n m, le_max_left n m, ?_⟩
    have hinv : Exchanging serve d (x.state (max n m)) :=
      x.inv (fun j _ => hguard j) (hboot ▸ exchanging_boot serve d) fun s i t h hout hstep => h.step hout hstep
    have hpublished : (x.state n).published <+: (x.state (max n m)).published := by
      apply x.inv_from (I := fun s => (x.state n).published <+: s.published) ?_ List.prefix_rfl (le_max_left n m)
      exact fun s l t h hstep => h.trans hstep.published
    have hreceived : (x.state m).received <+: (x.state (max n m)).received := by
      apply x.inv_from (I := fun s => (x.state m).received <+: s.received) ?_ List.prefix_rfl (le_max_right n m)
      exact fun s l t h hstep => h.trans hstep.received
    exact hinv.kept.replies_prefix hpublished (hm.trans hreceived.length_le)

/-! ## Exchange after exchange -/

/-- Between two exchanges, after `k` of them. -/
def exchanged (k : ℕ) : Handshake Unit :=
  { Handshake.boot () with
    published := List.replicate k [83]
    processed := List.replicate k [83]
    received := List.replicate k [83] }

/-- One request and its reply. -/
def oneExchange : List FileStep :=
  [.openOlock, .writeIlock [83], .renameIn, .readIn, .writeOlock, .renameOut, .unlinkIn, .seeOut, .readOut,
    .unlinkOut]

/-- The state `j` steps into the exchange after `k` exchanges. -/
def exchangedAt (k j : ℕ) : Handshake Unit := (oneExchange.take j).foldl (FileStep.effect echo) (exchanged k)

/-- Inside an exchange each operation is enabled. -/
theorem oneExchange_step (k : ℕ) {j : ℕ} (hj : j < 9) :
    (oneExchange.getD j .openOlock).Step echo (exchangedAt k j) (exchangedAt k (j + 1)) := by
  unfold exchangedAt
  interval_cases j <;>
    simp [oneExchange, FileStep.Step, FileStep.Enabled, FileStep.effect, exchanged, Handshake.boot, echo]

/-- The last operation of an exchange begins the next one. -/
theorem oneExchange_end (k : ℕ) :
    (oneExchange.getD 9 .openOlock).Step echo (exchangedAt k 9) (exchangedAt (k + 1) 0) := by
  unfold exchangedAt
  simp [oneExchange, FileStep.Step, FileStep.Enabled, FileStep.effect, exchanged, Handshake.boot, echo,
    List.replicate_succ']

/-- The steps of `oneExchange`, again and again. -/
def exchanges : Execution (FileStep.Step echo) where
  state n := exchangedAt (n / 10) (n % 10)
  label n := oneExchange.getD (n % 10) .openOlock
  moves n := by
    by_cases hlast : n % 10 = 9
    · have hnext : (n + 1) / 10 = n / 10 + 1 ∧ (n + 1) % 10 = 0 := by omega
      rw [hlast, hnext.1, hnext.2]
      exact oneExchange_end (n / 10)
    · have hnext : (n + 1) / 10 = n / 10 ∧ (n + 1) % 10 = n % 10 + 1 := by omega
      rw [hnext.1, hnext.2]
      exact oneExchange_step (n / 10) (by omega)

/-- Neither party waits for ever in the run of exchanges. -/
theorem exchanges_fair : exchanges.Fair FileStep.party := by
  intro k n _
  cases k with
  | server =>
      refine ⟨10 * n, by omega, ?_⟩
      show (oneExchange.getD (10 * n % 10) .openOlock).party = .server
      rw [Nat.mul_mod_right]
      rfl
  | client =>
      refine ⟨10 * n + 1, by omega, ?_⟩
      show (oneExchange.getD ((10 * n + 1) % 10) .openOlock).party = .client
      rw [Nat.mul_add_mod]
      rfl

/-- The run of exchanges answers every request, and it never publishes inside the window. -/
theorem requests_answered_exchanges :
    (∀ n, ∃ m, n ≤ m ∧ replies echo () (exchanges.state n).published <+: (exchanges.state m).received) ↔
      exchanges.Guarded OutsideWindow :=
  requests_answered_iff rfl exchanges_fair

end PgliteBuild
