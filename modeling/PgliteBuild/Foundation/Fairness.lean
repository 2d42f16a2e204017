import Mathlib.Order.WellFounded
import Mathlib.Tactic.Common

/-! # Fair executions of a labelled transition system

An `Execution` takes a label in every state, forever. Every label belongs to a party, and an execution is
`Fair` when no party that can move from some state on stays still from there on. The progress rule
`leadsTo_of_rank` leads from one predicate to another: in every state the party that has the turn can move,
its steps lower a rank, and a step of any other party lowers the rank or keeps both the rank and the turn. -/

namespace Fairness

variable {σ ι κ : Type*}

/-- A run that never ends. -/
structure Execution (step : σ → ι → σ → Prop) where
  state : ℕ → σ
  label : ℕ → ι
  moves : ∀ n, step (state n) (label n) (state (n + 1))

/-- A label of the party `k` may be taken. -/
def CanMove (step : σ → ι → σ → Prop) (party : ι → κ) (k : κ) (s : σ) : Prop := ∃ i t, party i = k ∧ step s i t

namespace Execution

variable {step : σ → ι → σ → Prop} (x : Execution step)

/-- `G` holds whenever a label is taken. -/
def Guarded (G : σ → ι → Prop) : Prop := ∀ n, G (x.state n) (x.label n)

/-- A party that can move from some state on moves again. -/
def Fair (party : ι → κ) : Prop :=
  ∀ k n, (∀ m, n ≤ m → CanMove step party k (x.state m)) → ∃ m, n ≤ m ∧ party (x.label m) = k

/-- A state with `P` is one with `Q`, or one with `Q` comes later. -/
def LeadsTo (P Q : σ → Prop) : Prop := ∀ n, P (x.state n) → ∃ m, n ≤ m ∧ Q (x.state m)

variable {x} {G : σ → ι → Prop}

/-- The invariant rule, up to the state `n`. -/
theorem inv {I : σ → Prop} {n : ℕ} (hguard : ∀ m, m < n → G (x.state m) (x.label m)) (hinit : I (x.state 0))
    (hstep : ∀ s i t, I s → G s i → step s i t → I t) : I (x.state n) := by
  induction n with
  | zero => exact hinit
  | succ n ih =>
      have hbefore := ih fun m hm => hguard m (Nat.lt_succ_of_lt hm)
      exact hstep _ _ _ hbefore (hguard n n.lt_succ_self) (x.moves n)

/-- What every step keeps, the execution keeps from some state on. -/
theorem inv_from {I : σ → Prop} (hstep : ∀ s i t, I s → step s i t → I t) {n m : ℕ} (hinit : I (x.state n))
    (hle : n ≤ m) : I (x.state m) := by
  induction m, hle using Nat.le_induction with
  | base => exact hinit
  | succ m _ ih => exact hstep _ _ _ ih (x.moves m)

section Progress

variable {α : Type*} [Preorder α] {party : ι → κ} {turn : σ → κ} {rank : σ → α} {P Q : σ → Prop}

/-- As long as there is no progress, the rank and the turn stay. -/
theorem stays_of_step
    (hstep : ∀ s i t, P s → G s i → step s i t →
      Q t ∨ P t ∧ (rank t < rank s ∨ rank t = rank s ∧ turn t = turn s ∧ party i ≠ turn s))
    (hguard : x.Guarded G) {n : ℕ} (h : P (x.state n))
    (hno : ¬∃ j, n ≤ j ∧ (Q (x.state j) ∨ P (x.state j) ∧ rank (x.state j) < rank (x.state n))) {m : ℕ}
    (hle : n ≤ m) :
    P (x.state m) ∧ rank (x.state m) = rank (x.state n) ∧ turn (x.state m) = turn (x.state n) ∧
      party (x.label m) ≠ turn (x.state n) := by
  have hnext : ∀ m, n ≤ m → P (x.state m) → rank (x.state m) = rank (x.state n) →
      P (x.state (m + 1)) ∧ rank (x.state (m + 1)) = rank (x.state m) ∧
        turn (x.state (m + 1)) = turn (x.state m) ∧ party (x.label m) ≠ turn (x.state m) := by
    intro m hle hP hrank
    -- a step that reaches `Q` or lowers the rank is the progress that there is not
    obtain hQ | ⟨hP', hlower | hsame⟩ := hstep _ _ _ hP (hguard m) (x.moves m)
    · exact absurd ⟨m + 1, hle.trans m.le_succ, .inl hQ⟩ hno
    · exact absurd ⟨m + 1, hle.trans m.le_succ, .inr ⟨hP', hrank ▸ hlower⟩⟩ hno
    · exact ⟨hP', hsame⟩
  have hstays : P (x.state m) ∧ rank (x.state m) = rank (x.state n) ∧
      turn (x.state m) = turn (x.state n) := by
    induction m, hle using Nat.le_induction with
    | base => exact ⟨h, rfl, rfl⟩
    | succ m hle ih =>
        obtain ⟨hP, hrank, hturn⟩ := ih
        obtain ⟨hP', hrank', hturn', -⟩ := hnext m hle hP hrank
        exact ⟨hP', hrank'.trans hrank, hturn'.trans hturn⟩
  obtain ⟨hP, hrank, hturn⟩ := hstays
  exact ⟨hP, hrank, hturn, hturn ▸ (hnext m hle hP hrank).2.2.2⟩

/-- **The progress rule.** -/
theorem leadsTo_of_rank [WellFoundedLT α] (turn : σ → κ) (rank : σ → α)
    (hstep : ∀ s i t, P s → G s i → step s i t →
      Q t ∨ P t ∧ (rank t < rank s ∨ rank t = rank s ∧ turn t = turn s ∧ party i ≠ turn s))
    (hmoves : ∀ s, P s → CanMove step party (turn s) s) (hguard : x.Guarded G) (hfair : x.Fair party) :
    x.LeadsTo P Q := by
  intro n h
  -- by induction on the rank of the state
  induction hr : rank (x.state n) using WellFoundedLT.induction generalizing n with
  | ind r ih =>
      subst hr
      have hprogress : ∃ j, n ≤ j ∧ (Q (x.state j) ∨ P (x.state j) ∧ rank (x.state j) < rank (x.state n)) := by
        by_contra hno
        have hcan : ∀ m, n ≤ m → CanMove step party (turn (x.state n)) (x.state m) := by
          intro m hle
          obtain ⟨hP, -, hturn, -⟩ := stays_of_step hstep hguard h hno hle
          exact hturn ▸ hmoves _ hP
        -- so the party that has the turn moves, and lowers the rank
        obtain ⟨m, hle, hparty⟩ := hfair _ n hcan
        exact (stays_of_step hstep hguard h hno hle).2.2.2 hparty
      obtain ⟨j, hj, hQ | ⟨hP, hlower⟩⟩ := hprogress
      · exact ⟨j, hj, hQ⟩
      · obtain ⟨m, hm, hQ⟩ := ih _ hlower j hP rfl
        exact ⟨m, hj.trans hm, hQ⟩

end Progress

end Execution

end Fairness
