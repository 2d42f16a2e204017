import PgliteBuild.Foundation.Runs
import PgliteBuild.InteractiveOne.Calls

/-! # The backend as a machine

A run of the backend under its host: between two calls the host switches between wire and repl, or it
presents a request and calls `interactive_one`; during a call the code goes from label to label. The
steps are those of the code (`interactiveOne_entry` takes `interactive_one` apart into its entry and its
labels), so that what holds in every configuration of a run holds at every label of every call. -/

namespace PgliteBuild

open Effect Jumps Runs

variable {σ : Type} (b : Build) (B : Backend σ)

/-! ## Entering a call -/

/-- The code of `interactive_one` up to its first label. -/
def entry : PgM σ Label := do
  modify State.begin
  if (← get).comm.cmaRsize < 0 then pure .resumeOnError
  else
    modify (State.connected b)
    if 0 < (← get).comm.socketData then pure .wireFlush
    else
      modify fun s => { s with comm := s.comm.openSocketFile }
      prologue b B
      intake b B

/-- **`interactive_one` is its entry and its labels.** -/
theorem interactiveOne_entry (fuel : ℕ) (s : State σ) :
    interactiveOne b B fuel s = (do
      let l ← entry b B
      run b B fuel l) s := by
  by_cases hneg : s.comm.cmaRsize < 0
  · have hentry : entry b B s = .ok .resumeOnError s.begin := by
      rw [entry, run_bind_ok (run_modify _ _), run_bind_ok (run_get _)]
      exact congrFun (if_pos hneg) _
    rw [interactiveOne_resume hneg, run_bind_ok hentry]
  have hstart : entry b B s = (do
      modify (State.connected b)
      if 0 < (← get).comm.socketData then pure .wireFlush
      else
        modify fun s => { s with comm := s.comm.openSocketFile }
        prologue b B
        intake b B : PgM σ Label) s.begin := by
    rw [entry, run_bind_ok (run_modify _ _), run_bind_ok (run_get _)]
    exact congrFun (if_neg hneg) _
  rw [interactiveOne_connected hneg]
  by_cases hdata : 0 < (s.begin.connected b).comm.socketData
  · have hentry : entry b B s = .ok .wireFlush (s.begin.connected b) := by
      rw [hstart, run_bind_ok (run_modify _ _), run_bind_ok (run_get _), if_pos hdata]
      rfl
    rw [if_pos hdata, run_bind_ok hentry]
  · have hentry : entry b B s = (do
        prologue b B
        intake b B : PgM σ Label) (s.begin.opened b) := by
      rw [hstart, run_bind_ok (run_modify _ _), run_bind_ok (run_get _), if_neg hdata,
        run_bind_ok (run_modify _ _)]
      rfl
    rw [if_neg hdata, run_bind (entry b B), hentry, run_bind (prologue b B), run_bind (prologue b B)]
    cases prologue b B (s.begin.opened b) with
    | ok _ s' => exact run_bind _ _ _
    | error e s' => rfl

/-! ## Configurations -/

/-- Where the backend is. -/
inductive Config (σ : Type) where
  /-- Between two calls. -/
  | idle (s : State σ)
  /-- In a call, at a label. -/
  | inside (l : Label) (s : State σ)
  /-- Stopped for good, in this state. -/
  | stopped (e : Stop) (s : State σ)

/-- The state of a configuration. -/
def Config.state : Config σ → State σ
  | idle s | inside _ s | stopped _ s => s

/-- What happens next. -/
inductive HostStep where
  /-- The host switches to wire (`use_wire` of a positive number) or to the repl. -/
  | useWire (state : ℤ)
  /-- The host presents a request and calls `interactive_one`. -/
  | request (t : Transport) (packet : List UInt8)
  /-- The host resumes behind an error: `interactive_write(-1)` and a call. -/
  | resume
  /-- The code goes on to its next label. -/
  | code
  deriving DecidableEq, Repr

/-- Where a call is after its entry. An error that no handler catches ends the call. -/
def entered (s : State σ) : Config σ :=
  match entry b B s with
  | .ok l s' => .inside l s'
  | .error .error s' => .idle s'
  | .error e s' => .stopped e s'

/-- Where a call is after the code at a label. -/
def continued (l : Label) (s : State σ) : Config σ :=
  match step b B l s with
  | .ok (some l') s' => .inside l' s'
  | .ok none s' => .idle s'
  | .error .error s' => .idle s'
  | .error e s' => .stopped e s'

/-- One step of the machine. -/
inductive Machine : Config σ → HostStep → Config σ → Prop
  | useWire (state : ℤ) {s : State σ} : Machine (.idle s) (.useWire state) (.idle (useWire state s))
  | request (t : Transport) (packet : List UInt8) {s : State σ} :
      Machine (.idle s) (.request t packet) (entered b B (s.request t packet))
  | resume {s : State σ} : Machine (.idle s) .resume (entered b B (interactiveWrite (-1) s))
  | code {l : Label} {s : State σ} : Machine (.inside l s) .code (continued b B l s)

/-! ## Running the machine -/

/-- The next configuration, if there is one. -/
def Config.next : Config σ → HostStep → Option (Config σ)
  | .idle s, .useWire state => some (.idle (useWire state s))
  | .idle s, .request t packet => some (entered b B (s.request t packet))
  | .idle s, .resume => some (entered b B (interactiveWrite (-1) s))
  | .inside l s, .code => some (continued b B l s)
  | _, _ => none

/-- A step of the machine is what `Config.next` computes. -/
theorem machine_iff {c c' : Config σ} {i : HostStep} :
    Machine b B c i c' ↔ c.next b B i = some c' := by
  constructor
  · intro h
    cases h <;> rfl
  · intro h
    cases c with
    | idle s =>
        cases i with
        | code => cases h
        | useWire state =>
            obtain rfl := Option.some.inj h
            exact .useWire state
        | request t packet =>
            obtain rfl := Option.some.inj h
            exact .request t packet
        | resume =>
            obtain rfl := Option.some.inj h
            exact .resume
    | inside l s =>
        cases i with
        | code =>
            obtain rfl := Option.some.inj h
            exact .code
        | useWire state => cases h
        | request t packet => cases h
        | resume => cases h
    | stopped e s => cases i <;> cases h

/-- Run the machine as long as a check succeeds. -/
def Config.runs (check : Config σ → HostStep → Bool) : List HostStep → Config σ → Option (Config σ)
  | [], c => some c
  | i :: is, c => if check c i then (c.next b B i).bind (Config.runs check is) else none

/-- A run that is computed with a check at every step is a run of the machine that is guarded by the check. -/
theorem reaches_of_runs {check : Config σ → HostStep → Bool} {is : List HostStep} {c c' : Config σ}
    (h : c.runs b B check is = some c') :
    Reaches (Machine b B) c is c' ∧ Guarded (Machine b B) (fun c i => check c i = true) c is := by
  induction is generalizing c with
  | nil =>
      obtain rfl := Option.some.inj h
      exact ⟨.nil, guarded_nil⟩
  | cons i is ih =>
      rw [Config.runs] at h
      split_ifs at h with hcheck
      obtain ⟨c₁, hnext, hrest⟩ := Option.bind_eq_some_iff.mp h
      obtain ⟨hrun, hguard⟩ := ih hrest
      have hdet : ∀ c₂, Machine b B c i c₂ → c₂ = c₁ := by
        intro c₂ hstep
        have hsame := (machine_iff b B).mp hstep
        rw [hnext] at hsame
        exact (Option.some.inj hsame).symm
      exact ⟨.cons ((machine_iff b B).mpr hnext) hrun, .cons hdet hcheck hguard⟩

/-- Running goes on where it stopped. -/
theorem Config.runs_append (check : Config σ → HostStep → Bool) (is js : List HostStep) (c : Config σ) :
    c.runs b B check (is ++ js) = (c.runs b B check is).bind (Config.runs b B check js) := by
  induction is generalizing c with
  | nil => rfl
  | cons i is ih =>
      rw [List.cons_append, Config.runs, Config.runs]
      split_ifs
      · rw [Option.bind_assoc]
        exact congrArg _ (funext ih)
      · rfl

/-! ## What the machine's steps are of the code -/

variable {b B} {s t : State σ} {l : Label} {P : Config σ → Prop}

/-- What holds when a call is entered, by the code on the way to its label. -/
theorem entered_spec (h : wp (entry b B) (fun l s' => P (.inside l s'))
    (fun e s' => if e = .error then P (.idle s') else P (.stopped e s')) s) : P (entered b B s) := by
  unfold wp at h
  unfold entered
  cases hentry : entry b B s with
  | ok l s' => simpa [hentry] using h
  | error e s' => cases e <;> simpa [hentry] using h

/-- What holds behind a step of the code, by the code at the label. -/
theorem continued_spec (h : wp (step b B l) (fun next s' => P (next.elim (.idle s') (.inside · s')))
    (fun e s' => if e = .error then P (.idle s') else P (.stopped e s')) s) :
    P (continued b B l s) := by
  unfold wp at h
  unfold continued
  cases hstep : step b B l s with
  | ok next s' => cases next <;> simpa [hstep] using h
  | error e s' => cases e <;> simpa [hstep] using h

/-- Where no code runs, none goes on. -/
theorem path_code_still {c c' : Config σ} (hc : ∀ d, ¬Machine b B c .code d) {n : ℕ}
    (h : Path (Machine b B) c (List.replicate n .code) c') : c' = c := by
  cases n with
  | zero =>
      cases h
      rfl
  | succ n =>
      rw [List.replicate_succ] at h
      cases h with
      | cons hfirst _ => exact absurd hfirst (hc _)

/-- Between two calls no code runs. -/
theorem not_code_idle (d : Config σ) : ¬Machine b B (.idle s) .code d := by
  intro h
  cases h

/-- In a process that has stopped no code runs. -/
theorem not_code_stopped (e : Stop) (d : Config σ) : ¬Machine b B (.stopped e s) .code d := by
  intro h
  cases h

/-- Code that runs from a label to the end of the call ends there. -/
theorem ends_of_code {n : ℕ} (h : Path (Machine b B) (.inside l s) (List.replicate n .code) (.idle t)) :
    Ends (step b B) l s (.ok () t) ∨ Ends (step b B) l s (.error .error t) := by
  induction n generalizing l s with
  | zero => cases h
  | succ n ih =>
      rw [List.replicate_succ] at h
      cases h with
      | cons hfirst hrest =>
          cases hfirst
          unfold continued at hrest
          cases hstep : step b B l s with
          | ok next s' =>
              rw [hstep] at hrest
              cases next with
              | none =>
                  cases path_code_still not_code_idle hrest
                  exact .inl (.last hstep)
              | some l' => exact (ih hrest).imp (.jump hstep) (.jump hstep)
          | error e s' =>
              rw [hstep] at hrest
              cases e with
              | error =>
                  cases path_code_still not_code_idle hrest
                  exact .inr (.fail hstep)
              | fatal message => cases path_code_still (not_code_stopped _) hrest
              | abort => cases path_code_still (not_code_stopped _) hrest
              | trap => cases path_code_still (not_code_stopped _) hrest
              | outOfFuel => cases path_code_still (not_code_stopped _) hrest

/-- **A run of the machine through a call is that call.** -/
theorem calls_of_code {n : ℕ} (h : Path (Machine b B) (entered b B s) (List.replicate n .code) (.idle t)) :
    Calls b B s (.ok () t) ∨ Calls b B s (.error .error t) := by
  unfold entered at h
  cases hentry : entry b B s with
  | ok l s' =>
      rw [hentry] at h
      have hcall : ∀ fuel, interactiveOne b B fuel s = run b B fuel l s' := by
        intro fuel
        rw [interactiveOne_entry, run_bind_ok hentry]
      exact (ends_of_code h).imp (calls_of_ends hcall) (calls_of_ends hcall)
  | error e s' =>
      rw [hentry] at h
      cases e with
      | error =>
          cases path_code_still not_code_idle h
          refine .inr ⟨0, fun k => ?_⟩
          rw [interactiveOne_entry, run_bind_error hentry]
      | fatal message => cases path_code_still (not_code_stopped _) h
      | abort => cases path_code_still (not_code_stopped _) h
      | trap => cases path_code_still (not_code_stopped _) h
      | outOfFuel => cases path_code_still (not_code_stopped _) h

end PgliteBuild
