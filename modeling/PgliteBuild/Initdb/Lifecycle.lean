import PgliteBuild.Initdb.FeedSplit
import PgliteBuild.Initdb.PgMain

/-! # The life of a database

A database is created by the first `pgl_initdb`, its script is run by a `pgl_backend` that finds
`async_restart` set, and every other `pgl_backend` resumes it. `lifeLog` is that machine without the
files; the code refines it (`lives_log`). `neverHalfResumed_iff` says for which sequences of calls and
restarts no database is resumed before its script was run, and none runs it twice. -/

namespace PgliteBuild

open Splitting

variable {σ : Type} {M : Scripts σ} {B : Backend σ} {s : Instance σ}

/-! ## Sequences of calls -/

/-- A call of an exported function, or the end of the process. -/
inductive LifeCall where
  | initdb
  | backend
  | restart
  deriving DecidableEq, Repr

/-- Make the calls in order; `none` when one does not return. -/
def lives (M : Scripts σ) (B : Backend σ) : List LifeCall → Instance σ → Option (Instance σ)
  | [], s => some s
  | .initdb :: calls, s => lives M B calls (pglInitdb M s)
  | .backend :: calls, s => (pglBackend B s).bind (lives M B calls)
  | .restart :: calls, s => lives M B calls s.restart

/-- Every process calls `pgl_initdb` before `pgl_backend`; `called` says that the current one has. -/
def InitdbFirst : Bool → List LifeCall → Prop
  | _, [] => True
  | _, .initdb :: calls => InitdbFirst true calls
  | called, .backend :: calls => called = true ∧ InitdbFirst called calls
  | _, .restart :: calls => InitdbFirst false calls

/-- A database is resumed only after its script was run, and from its first backend on the script of
every created database has been run once. -/
structure NeverHalfResumed (log : List LifeEvent) : Prop where
  resumed : ∀ earlier, earlier ++ [.resumed] <+: log → .scriptRun ∈ earlier
  once : ∀ earlier e, earlier ++ [e] <+: log → e ≠ .created →
    (earlier ++ [e]).count .scriptRun = (earlier ++ [e]).count .created

/-! ## The machine without the files -/

/-- What a sequence of calls adds to the history, from whether there is a database and whether
`async_restart` is set. -/
def lifeLog : Bool → Bool → List LifeCall → List LifeEvent
  | _, _, [] => []
  | true, _, .initdb :: calls => lifeLog true false calls
  | false, _, .initdb :: calls => .created :: lifeLog true true calls
  | database, async, .backend :: calls =>
      (if async then .scriptRun else .resumed) :: lifeLog database async calls
  | database, _, .restart :: calls => lifeLog database true calls

/-- The instance between two calls of a process that has called `pgl_initdb` or not. -/
structure Living (M : Scripts σ) (called : Bool) (s : Instance σ) : Prop where
  mode : FeedMode s.feed
  stage : s.pgVersion = false → s.idbStage = 0
  pipe : s.pgVersion = true → s.idbPipeSingle = some M.single
  called : called = true → s.pgVersion = true

/-- `pgl_initdb` leaves a database, and a created one waits for its script. -/
theorem Living.initdb {called : Bool} (h : Living M called s) :
    Living M true (pglInitdb M s) ∧ (pglInitdb M s).asyncRestart = !s.pgVersion ∧
      (pglInitdb M s).pgVersion = true ∧
      (pglInitdb M s).log = s.log ++ if s.pgVersion then [] else [.created] := by
  have hmode := h.mode
  unfold pglInitdb
  cases hversion : s.pgVersion with
  | true =>
      have hpipe := h.pipe hversion
      exact ⟨⟨hmode, (fun hno => by cases hno), fun _ => hpipe, fun _ => rfl⟩, rfl, rfl,
        (List.append_nil _).symm⟩
  | false =>
      have hstage := h.stage hversion
      simp only [bootstrapModeMain, pglInitdbMain, pglPopen, hstage]
      exact ⟨⟨⟨hmode.semi, hmode.sync, hmode.notReading⟩, (fun hno => by cases hno), fun _ => rfl,
        fun _ => rfl⟩, rfl, rfl, rfl⟩

/-- `pgl_backend` returns, after it ran the script or resumed. -/
theorem Living.backend (h : Living M true s) :
    ∃ t, pglBackend B s = some t ∧ Living M true t ∧ t.asyncRestart = s.asyncRestart ∧
      t.pgVersion = true ∧ t.log = s.log ++ [if s.asyncRestart then .scriptRun else .resumed] := by
  have hversion := h.called rfl
  have hpipe := h.pipe hversion
  have hmode : FeedMode { s.feed with useSemiNewlineNewline := true } :=
    ⟨rfl, h.mode.sync, h.mode.notReading⟩
  obtain ⟨feed, done, hrun, hmode', -⟩ := rePostgresSingleUserMain_spec B M.single_nul hmode
  rw [← hpipe] at hrun
  -- the warning is only printed
  obtain ⟨out, hwarn⟩ : ∃ out, (if s.pglIdbStatus &&& idbCalled = 0 then
      { s with
        out := s.out ++ ["# 336: initdb must be called before starting/resuming backend"] }
      else s) = { s with out := out } := by
    split_ifs
    · exact ⟨_, rfl⟩
    · exact ⟨s.out, rfl⟩
  unfold pglBackend
  simp only [hwarn, hrun]
  by_cases hasync : s.asyncRestart = true
  · rw [if_pos hasync, if_pos hasync]
    exact ⟨_, rfl, ⟨hmode', h.stage, h.pipe, h.called⟩, rfl, hversion, rfl⟩
  · rw [if_neg hasync, if_neg hasync]
    exact ⟨_, rfl, ⟨h.mode, h.stage, h.pipe, h.called⟩, rfl, hversion, rfl⟩

/-- A restarted instance is alive before its first call. -/
theorem Living.restart {called : Bool} (h : Living M called s) : Living M false s.restart :=
  ⟨⟨rfl, rfl, rfl⟩, fun _ => rfl, h.pipe, (fun hno => by cases hno)⟩

/-- An instance that boots is alive before its first call. -/
theorem living_boot (M : Scripts σ) (db : σ) : Living M false (Instance.boot db) :=
  ⟨⟨rfl, rfl, rfl⟩, fun _ => rfl, (fun hno => by cases hno), (fun hno => by cases hno)⟩

/-- **The code refines the machine**: a sequence of calls returns and adds what the machine adds. -/
theorem lives_log {called : Bool} {calls : List LifeCall} (h : Living M called s)
    (hfirst : InitdbFirst called calls) :
    ∃ t, lives M B calls s = some t ∧ t.log = s.log ++ lifeLog s.pgVersion s.asyncRestart calls := by
  induction calls generalizing called s with
  | nil => exact ⟨s, rfl, (List.append_nil _).symm⟩
  | cons call calls ih =>
      cases call with
      | initdb =>
          obtain ⟨hliving, hasync, hversion, hlog⟩ := h.initdb
          obtain ⟨t, hlives, ht⟩ := ih hliving hfirst
          refine ⟨t, hlives, ?_⟩
          rw [ht, hlog, hasync, hversion, List.append_assoc]
          cases s.pgVersion <;> rfl
      | backend =>
          obtain ⟨rfl, hrest⟩ := hfirst
          obtain ⟨s₁, hbackend, hliving, hasync, hversion, hlog⟩ := h.backend (B := B)
          obtain ⟨t, hlives, ht⟩ := ih hliving hrest
          refine ⟨t, ?_, ?_⟩
          · rw [lives, hbackend]
            exact hlives
          · rw [ht, hlog, hasync, hversion, h.called rfl, List.append_assoc]
            cases s.asyncRestart <;> rfl
      | restart =>
          obtain ⟨t, hlives, ht⟩ := ih h.restart hfirst
          refine ⟨t, hlives, ht.trans ?_⟩
          show s.log ++ lifeLog s.pgVersion true calls = _
          cases s.pgVersion <;> rfl

/-! ## Which sequences are in order -/

/-- Once `async_restart` is clear, or a new process has still to clear it, every backend resumes. -/
theorem lifeLog_settled {called async : Bool} {calls : List LifeCall}
    (hfirst : InitdbFirst called calls) (h : async = false ∨ called = false) :
    lifeLog true async calls = List.replicate (calls.count .backend) .resumed := by
  induction calls generalizing called async with
  | nil => rfl
  | cons call calls ih =>
      cases call with
      | initdb => exact ih hfirst (.inl rfl)
      | backend =>
          obtain ⟨rfl, hrest⟩ := hfirst
          obtain rfl : async = false := h.resolve_right (by simp)
          rw [List.count_cons_self, List.replicate_succ, ← ih hrest (.inl rfl)]
          rfl
      | restart => exact ih hfirst (.inr rfl)

/-- A database that was only created. -/
theorem neverHalfResumed_created : NeverHalfResumed [.created] := by
  have hcases : ∀ earlier e, earlier ++ [e] <+: [LifeEvent.created] → e = .created := by
    intro earlier e hpre
    exact List.mem_singleton.mp (hpre.subset (by simp))
  constructor
  · intro earlier hpre
    cases hcases earlier .resumed hpre
  · intro earlier e hpre hne
    exact absurd (hcases earlier e hpre) hne

/-- A database whose script was run once and that was only resumed afterwards. -/
theorem neverHalfResumed_run (k : ℕ) :
    NeverHalfResumed (.created :: .scriptRun :: List.replicate k .resumed) := by
  -- a stretch of the history is its first event, its first two, or more
  have hcases : ∀ (earlier : List LifeEvent) (e : LifeEvent),
      earlier ++ [e] <+: .created :: .scriptRun :: List.replicate k .resumed →
      e = .created ∨ earlier = [.created] ∧ e = .scriptRun ∨
        ∃ j, earlier = .created :: .scriptRun :: List.replicate j .resumed ∧ e = .resumed := by
    intro earlier e hpre
    rcases earlier with _ | ⟨x, _ | ⟨y, zs⟩⟩
    · exact .inl (List.cons_prefix_cons.mp hpre).1
    · obtain ⟨rfl, hsecond⟩ := List.cons_prefix_cons.mp hpre
      exact .inr (.inl ⟨rfl, (List.cons_prefix_cons.mp hsecond).1⟩)
    · obtain ⟨rfl, hsecond⟩ := List.cons_prefix_cons.mp hpre
      obtain ⟨rfl, hlater⟩ := List.cons_prefix_cons.mp hsecond
      have hall : ∀ z ∈ zs ++ [e], z = .resumed := fun z hz =>
        List.eq_of_mem_replicate (hlater.subset hz)
      have hzs : zs = List.replicate zs.length .resumed :=
        List.eq_replicate_of_mem fun z hz => hall z (List.mem_append_left _ hz)
      exact .inr (.inr ⟨zs.length, by rw [← hzs], hall e (by simp)⟩)
  constructor
  · intro earlier hpre
    rcases hcases earlier .resumed hpre with h | ⟨-, h⟩ | ⟨j, rfl, -⟩
    · cases h
    · cases h
    · simp
  · intro earlier e hpre hne
    rcases hcases earlier e hpre with h | ⟨rfl, rfl⟩ | ⟨j, rfl, rfl⟩
    · exact absurd h hne
    · rfl
    · simp [List.count_replicate]

/-- A database that is resumed at once has not had its script run. -/
theorem not_neverHalfResumed_resumed (log : List LifeEvent) :
    ¬NeverHalfResumed (.created :: .resumed :: log) := by
  intro h
  have hmem := h.resumed [.created] ⟨log, rfl⟩
  simp at hmem

/-- A second run of the script. -/
theorem not_neverHalfResumed_twice (log : List LifeEvent) :
    ¬NeverHalfResumed (.created :: .scriptRun :: .scriptRun :: log) := by
  intro h
  have hcount := h.once [.created, .scriptRun] .scriptRun ⟨log, rfl⟩ (by simp)
  simp at hcount

/-- A database that is never started, or started by the call right behind its creation and not by the
one after that. -/
def StartedAtOnce (calls : List LifeCall) : Prop :=
  .backend ∉ calls ∨ calls.head? = some .backend ∧ calls[1]? ≠ some .backend

/-- When nothing runs the script, a backend that starts is one too many. -/
theorem settled_iff {calls : List LifeCall} (hhead : calls.head? ≠ some .backend) :
    NeverHalfResumed (.created :: List.replicate (calls.count .backend) .resumed) ↔
      StartedAtOnce calls := by
  cases hcount : calls.count .backend with
  | zero => exact iff_of_true neverHalfResumed_created (.inl (List.count_eq_zero.mp hcount))
  | succ k =>
      have hmem : .backend ∈ calls := List.count_pos_iff.mp (by omega)
      refine iff_of_false (not_neverHalfResumed_resumed _) ?_
      rintro (hno | ⟨hstart, -⟩)
      · exact hno hmem
      · exact hhead hstart

/-- The history of a database from its creation on. -/
theorem lifeLog_created {calls : List LifeCall} (hfirst : InitdbFirst true calls) :
    NeverHalfResumed (.created :: lifeLog true true calls) ↔ StartedAtOnce calls := by
  rcases calls with _ | ⟨_ | _ | _, calls⟩
  · exact iff_of_true neverHalfResumed_created (.inl List.not_mem_nil)
  · -- a second `pgl_initdb` clears `async_restart`
    have hlog : lifeLog true true (.initdb :: calls) = _ :=
      @lifeLog_settled true false _ hfirst (.inl rfl)
    rw [hlog, ← settled_iff (by simp), List.count_cons_of_ne (by simp)]
  · obtain ⟨-, hrest⟩ := hfirst
    rcases calls with _ | ⟨_ | _ | _, calls⟩
    · exact iff_of_true (neverHalfResumed_run 0) (.inr ⟨rfl, by simp⟩)
    · refine iff_of_true ?_ (.inr ⟨rfl, by simp⟩)
      have hlog : lifeLog true false calls = _ := lifeLog_settled hrest (.inl rfl)
      show NeverHalfResumed (.created :: .scriptRun :: lifeLog true false calls)
      rw [hlog]
      exact neverHalfResumed_run _
    · refine iff_of_false (not_neverHalfResumed_twice _) ?_
      rintro (hno | ⟨-, hsecond⟩)
      · exact hno List.mem_cons_self
      · exact hsecond rfl
    · refine iff_of_true ?_ (.inr ⟨rfl, by simp⟩)
      have hlog : lifeLog true true calls = _ := lifeLog_settled hrest (.inr rfl)
      show NeverHalfResumed (.created :: .scriptRun :: lifeLog true true calls)
      rw [hlog]
      exact neverHalfResumed_run _
  · -- a new process clears it before its first backend
    have hlog : lifeLog true true (.restart :: calls) = _ :=
      @lifeLog_settled false true _ hfirst (.inr rfl)
    rw [hlog, ← settled_iff (by simp), List.count_cons_of_ne (by simp)]

/-- The calls behind the `pgl_initdb` that creates the database. -/
def behindCreation (calls : List LifeCall) : List LifeCall := (calls.dropWhile (· ≠ .initdb)).tail

/-- Before the creation there are only restarts. -/
theorem lifeLog_iff {calls : List LifeCall} (hfirst : InitdbFirst false calls) :
    NeverHalfResumed (lifeLog false true calls) ↔ StartedAtOnce (behindCreation calls) := by
  induction calls with
  | nil =>
      refine iff_of_true ⟨?_, ?_⟩ (.inl List.not_mem_nil)
      · intro earlier hpre
        exact absurd (List.prefix_nil.mp hpre) (by simp)
      · intro earlier e hpre
        exact absurd (List.prefix_nil.mp hpre) (by simp)
  | cons call calls ih =>
      cases call with
      | initdb => exact lifeLog_created hfirst
      | backend => exact absurd hfirst.1 (by simp)
      | restart => exact ih hfirst

/-- **The life of a database**: every sequence of calls returns, and it never resumes a database before
its script was run nor runs the script twice just when the first backend starts right behind the creation
and the next call is another one, or no backend starts at all. -/
theorem neverHalfResumed_iff (M : Scripts σ) (B : Backend σ) (db : σ) {calls : List LifeCall}
    (hfirst : InitdbFirst false calls) :
    ∃ t, lives M B calls (.boot db) = some t ∧
      (NeverHalfResumed t.log ↔ StartedAtOnce (behindCreation calls)) := by
  obtain ⟨t, hlives, hlog⟩ := lives_log (B := B) (living_boot M db) hfirst
  refine ⟨t, hlives, ?_⟩
  rw [hlog]
  exact lifeLog_iff hfirst

/-- Two scripts of one command each. -/
def oneCommand : Scripts Unit where
  boot := CStr.ascii "open pg_class"
  single := CStr.ascii "ANALYZE;\n\n"
  bootstrap _ _ := ()
  single_nul := by decide

/-- A database that is started, and resumed by the next process. -/
theorem neverHalfResumed_started : ∃ t,
    lives oneCommand Backend.silent [.initdb, .backend, .restart, .initdb, .backend] (.boot ()) =
      some t ∧ NeverHalfResumed t.log := by
  obtain ⟨t, hlives, hiff⟩ := neverHalfResumed_iff oneCommand Backend.silent ()
    (show InitdbFirst false [.initdb, .backend, .restart, .initdb, .backend] from ⟨rfl, rfl, trivial⟩)
  exact ⟨t, hlives, hiff.mpr (.inr ⟨rfl, by decide⟩)⟩

/-- A process that ends between `pgl_initdb` and `pgl_backend` leaves a database that the next one
resumes without its script. -/
theorem restarted_before_backend :
    InitdbFirst false [.initdb, .restart, .initdb, .backend] ∧ ∃ t,
      lives oneCommand Backend.silent [.initdb, .restart, .initdb, .backend] (.boot ()) = some t ∧
        t.log = [.created, .resumed] ∧ ¬NeverHalfResumed t.log :=
  ⟨⟨rfl, trivial⟩, _, rfl, rfl, not_neverHalfResumed_resumed []⟩

end PgliteBuild
