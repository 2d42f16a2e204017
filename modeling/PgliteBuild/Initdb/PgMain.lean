import PgliteBuild.Initdb.InteractiveFile

/-! # `pgl_initdb` and `pgl_backend`

The two exported functions of `pg_main.c` that create a database and start a backend on it. `initdb`
writes its scripts through `pgl_popen`, which hands out one file after the other; the bootstrap script
is run by `pgl_initdb`, the other one by the first `pgl_backend`. -/

namespace PgliteBuild

variable {σ : Type}

/-- The bits of `pgl_idb_status`. -/
def idbOk : ℕ := 0b11111110
def idbFailed : ℕ := 0b0001
def idbCalled : ℕ := 0b0010
def idbHasdb : ℕ := 0b0100
def idbHasuser : ℕ := 0b1000

/-- What a process did that outlives it, and the branch that `pgl_backend` took. -/
inductive LifeEvent where
  /-- `pgl_initdb` created a database. -/
  | created
  /-- `RePostgresSingleUserMain` ran the post-bootstrap script to its end. -/
  | scriptRun
  /-- `AsyncPostgresSingleUserMain` resumed the database. -/
  | resumed
  deriving DecidableEq, Repr

/-- The files of an instance and the globals of the process that works on them. -/
structure Instance (σ : Type) where
  /-- Whether `PGDATA` holds `PG_VERSION`. -/
  pgVersion : Bool
  idbPipeBoot : Option (List UInt8)
  idbPipeSingle : Option (List UInt8)
  /-- `IDB_STAGE`. -/
  idbStage : ℕ
  pglIdbStatus : ℕ
  asyncRestart : Bool
  /-- The state of the single user mode, with the database. -/
  feed : Feed σ
  /-- What was written to `stdout`. -/
  out : List String
  log : List LifeEvent

/-- No database, and a process that has just started. -/
def Instance.boot (db : σ) : Instance σ where
  pgVersion := false
  idbPipeBoot := none
  idbPipeSingle := none
  idbStage := 0
  pglIdbStatus := 0
  asyncRestart := true
  feed := .start db
  out := []
  log := []

/-- The process ends and another one starts on the same files. -/
def Instance.restart (s : Instance σ) : Instance σ :=
  { s with
    idbStage := 0
    pglIdbStatus := 0
    asyncRestart := true
    feed := .start s.feed.db }

/-- What `initdb` writes through its two pipes, and what the bootstrap script makes of the database.
The scripts are written as C strings. -/
structure Scripts (σ : Type) where
  boot : List UInt8
  single : List UInt8
  bootstrap : σ → List UInt8 → σ
  single_nul : 0 ∉ single

/-- Write a script to the file that `pgl_popen` hands out. -/
def pglPopen (script : List UInt8) (s : Instance σ) : Instance σ :=
  if 1 < s.idbStage then s
  else if s.idbStage = 0 then { s with idbPipeBoot := some script, idbStage := 1 }
  else { s with idbPipeSingle := some script, idbStage := 2 }

/-- `pgl_initdb_main`, as far as files go: `PG_VERSION` and the two scripts. -/
def pglInitdbMain (M : Scripts σ) (s : Instance σ) : Instance σ :=
  pglPopen M.single (pglPopen M.boot { s with pgVersion := true })

/-- `BootstrapModeMain` on `IDB_PIPE_BOOT`, which is removed afterwards. -/
def bootstrapModeMain (M : Scripts σ) (s : Instance σ) : Instance σ :=
  { s with
    feed := { s.feed with db := M.bootstrap s.feed.db (s.idbPipeBoot.getD []) }
    idbPipeBoot := none }

/-- `pgl_initdb`. It returns `pgl_idb_status`. -/
def pglInitdb (M : Scripts σ) (s : Instance σ) : Instance σ :=
  let s := { s with pglIdbStatus := s.pglIdbStatus ||| idbFailed }
  let s :=
    if s.pgVersion then
      { s with pglIdbStatus := s.pglIdbStatus ||| idbHasdb ||| idbHasuser, asyncRestart := false }
    else
      let s := bootstrapModeMain M (pglInitdbMain M s)
      { s with asyncRestart := true, log := s.log ++ [.created] }
  { s with pglIdbStatus := (s.pglIdbStatus ||| idbCalled) &&& idbOk }

/-- `pgl_backend`; `none` when it does not return. -/
def pglBackend (B : Backend σ) (s : Instance σ) : Option (Instance σ) :=
  let s :=
    if s.pglIdbStatus &&& idbCalled = 0 then
      { s with
        out := s.out ++ ["# 336: initdb must be called before starting/resuming backend"] }
    else s
  if s.asyncRestart then
    -- the switches hold `-j`
    match rePostgresSingleUserMain B s.idbPipeSingle { s.feed with useSemiNewlineNewline := true } with
    | .ok _ feed => some { s with feed := feed, log := s.log ++ [.scriptRun] }
    | .error _ _ => none
  else some { s with log := s.log ++ [.resumed] }

end PgliteBuild
