import Mathlib.Logic.Relation
import Mathlib.Tactic.Common

/-! # Weakest preconditions for computations with state and exceptions

Rules for `EStateM ε σ`: a computation that returns a value or throws an exception, with the state
kept in both cases. `wp m post exn s` says that running `m` in `s` ends in `post` when it returns
and in `exn` when it throws. `Performs R m` says that `m` acts on the state by steps of `R` only,
however it ends; it composes through sequencing and branching without a look at the values passed on,
and every invariant of the steps is an invariant of the computation (`Performs.keeps`). -/

namespace Effect

open Relation

variable {ε σ α β : Type}

/-! ## Running the primitive computations -/

/-- A sequence runs its second part on what the first returns, and stops where the first stops. -/
theorem run_bind (m : EStateM ε σ α) (f : α → EStateM ε σ β) (s : σ) :
    (m >>= f) s = match m s with
      | .ok a s' => f a s'
      | .error e s' => .error e s' := by
  show EStateM.bind m f s = _
  unfold EStateM.bind
  cases m s <;> rfl

/-- `pure a` returns `a` and leaves the state alone. -/
@[simp] theorem run_pure (a : α) (s : σ) : (pure a : EStateM ε σ α) s = .ok a s := rfl

/-- `get` returns the state. -/
@[simp] theorem run_get (s : σ) : (get : EStateM ε σ σ) s = .ok s s := rfl

/-- `set` replaces the state. -/
@[simp] theorem run_set (s s' : σ) : (set s' : EStateM ε σ PUnit) s = .ok ⟨⟩ s' := rfl

/-- `modify f` replaces the state by its image. -/
@[simp] theorem run_modify (f : σ → σ) (s : σ) :
    (modify f : EStateM ε σ PUnit) s = .ok ⟨⟩ (f s) := rfl

/-- `throw e` stops with `e` and leaves the state alone. -/
@[simp] theorem run_throw (e : ε) (s : σ) : (throw e : EStateM ε σ α) s = .error e s := rfl

/-- A first step that returns hands its value and state on. -/
theorem run_bind_ok {m : EStateM ε σ α} {f : α → EStateM ε σ β} {s s' : σ} {a : α}
    (h : m s = .ok a s') : (m >>= f) s = f a s' := by
  rw [run_bind, h]

/-- A first step that throws ends the sequence. -/
theorem run_bind_error {m : EStateM ε σ α} {f : α → EStateM ε σ β} {s s' : σ} {e : ε}
    (h : m s = .error e s') : (m >>= f) s = .error e s' := by
  rw [run_bind, h]

/-! ## Weakest preconditions -/

/-- The states from which `m` returns into `post` or throws into `exn`. -/
def wp (m : EStateM ε σ α) (post : α → σ → Prop) (exn : ε → σ → Prop) (s : σ) : Prop :=
  match m s with
  | .ok a s' => post a s'
  | .error e s' => exn e s'

/-- The condition of a run that returns is that of its end. -/
theorem wp_of_ok {m : EStateM ε σ α} {post : α → σ → Prop} {exn : ε → σ → Prop} {s s' : σ} {a : α}
    (h : m s = .ok a s') : wp m post exn s ↔ post a s' := by
  rw [wp, h]

/-- Two computations that run alike have the same condition. -/
theorem wp_of_eq {m m' : EStateM ε σ α} {post : α → σ → Prop} {exn : ε → σ → Prop} {s s' : σ}
    (h : m s = m' s') : wp m post exn s ↔ wp m' post exn s' := by
  rw [wp, wp, h]

/-- The condition of a run that stops is that of its stop. -/
theorem wp_of_error {m : EStateM ε σ α} {post : α → σ → Prop} {exn : ε → σ → Prop} {s s' : σ}
    {e : ε} (h : m s = .error e s') : wp m post exn s ↔ exn e s' := by
  rw [wp, h]

/-- The condition of `pure a` is that of `a` and of the same state. -/
@[simp] theorem wp_pure (a : α) (post : α → σ → Prop) (exn : ε → σ → Prop) (s : σ) :
    wp (pure a : EStateM ε σ α) post exn s ↔ post a s := Iff.rfl

/-- The condition of `get` is that of the state twice. -/
@[simp] theorem wp_get (post : σ → σ → Prop) (exn : ε → σ → Prop) (s : σ) :
    wp (get : EStateM ε σ σ) post exn s ↔ post s s := Iff.rfl

/-- The condition of `set` is that of the new state. -/
@[simp] theorem wp_set (s' : σ) (post : PUnit → σ → Prop) (exn : ε → σ → Prop) (s : σ) :
    wp (set s' : EStateM ε σ PUnit) post exn s ↔ post ⟨⟩ s' := Iff.rfl

/-- The condition of `modify f` is that of the image. -/
@[simp] theorem wp_modify (f : σ → σ) (post : PUnit → σ → Prop) (exn : ε → σ → Prop) (s : σ) :
    wp (modify f : EStateM ε σ PUnit) post exn s ↔ post ⟨⟩ (f s) := Iff.rfl

/-- The condition of `throw e` is that of the stop and of the same state. -/
@[simp] theorem wp_throw (e : ε) (post : α → σ → Prop) (exn : ε → σ → Prop) (s : σ) :
    wp (throw e : EStateM ε σ α) post exn s ↔ exn e s := Iff.rfl

/-- Sequencing composes weakest preconditions. -/
@[simp] theorem wp_bind (m : EStateM ε σ α) (f : α → EStateM ε σ β) (post : β → σ → Prop)
    (exn : ε → σ → Prop) (s : σ) :
    wp (m >>= f) post exn s ↔ wp m (fun a s' => wp (f a) post exn s') exn s := by
  unfold wp
  rw [run_bind]
  cases m s <;> rfl

/-- A weakest precondition is monotone in both of its endings. -/
theorem wp_mono {m : EStateM ε σ α} {post post' : α → σ → Prop} {exn exn' : ε → σ → Prop} {s : σ}
    (h : wp m post exn s) (hpost : ∀ a s', post a s' → post' a s')
    (hexn : ∀ e s', exn e s' → exn' e s') : wp m post' exn' s := by
  unfold wp at h ⊢
  cases hm : m s with
  | ok a s' => exact hpost a s' (by simpa [hm] using h)
  | error e s' => exact hexn e s' (by simpa [hm] using h)

/-- Two facts about one run hold together. -/
theorem wp_and {m : EStateM ε σ α} {post post' : α → σ → Prop} {exn exn' : ε → σ → Prop} {s : σ}
    (h : wp m post exn s) (h' : wp m post' exn' s) :
    wp m (fun a s' => post a s' ∧ post' a s') (fun e s' => exn e s' ∧ exn' e s') s := by
  unfold wp at h h' ⊢
  cases hm : m s with
  | ok a s' => exact ⟨by simpa [hm] using h, by simpa [hm] using h'⟩
  | error e s' => exact ⟨by simpa [hm] using h, by simpa [hm] using h'⟩

/-- Every computation ends in some way. -/
theorem wp_true (m : EStateM ε σ α) (s : σ) : wp m (fun _ _ => True) (fun _ _ => True) s := by
  unfold wp
  cases m s <;> trivial

/-- A run ends as it does. -/
theorem wp_self (m : EStateM ε σ α) (s : σ) :
    wp m (fun a s' => m s = .ok a s') (fun e s' => m s = .error e s') s := by
  unfold wp
  cases m s <;> rfl

/-- What a weakest precondition says of a run that returned. -/
theorem wp.ok {m : EStateM ε σ α} {post : α → σ → Prop} {exn : ε → σ → Prop} {s s' : σ} {a : α}
    (h : wp m post exn s) (hm : m s = .ok a s') : post a s' := (wp_of_ok hm).mp h

/-- What a weakest precondition says of a run that threw. -/
theorem wp.error {m : EStateM ε σ α} {post : α → σ → Prop} {exn : ε → σ → Prop} {s s' : σ} {e : ε}
    (h : wp m post exn s) (hm : m s = .error e s') : exn e s' := (wp_of_error hm).mp h

/-- A run whose value is known returned it. -/
theorem returns_of_run' {m : EStateM ε σ α} {s : σ} {a : α} (h : m.run' s = some a) : ∃ s', m s = .ok a s' := by
  unfold EStateM.run' EStateM.run at h
  cases hm : m s with
  | ok a' s' =>
      rw [hm] at h
      cases h
      exact ⟨s', rfl⟩
  | error e s' =>
      rw [hm] at h
      cases h

/-- A run that cannot throw returns. -/
theorem wp.returns {m : EStateM ε σ α} {post : α → σ → Prop} {s : σ}
    (h : wp m post (fun _ _ => False) s) : ∃ a s', m s = .ok a s' ∧ post a s' := by
  unfold wp at h
  cases hm : m s with
  | ok a s' => exact ⟨a, s', rfl, by simpa [hm] using h⟩
  | error e s' => simp [hm] at h

/-- A run that cannot return throws. -/
theorem wp.throws {m : EStateM ε σ α} {exn : ε → σ → Prop} {s : σ}
    (h : wp m (fun _ _ => False) exn s) : ∃ e s', m s = .error e s' ∧ exn e s' := by
  unfold wp at h
  cases hm : m s with
  | ok a s' => simp [hm] at h
  | error e s' => exact ⟨e, s', rfl, by simpa [hm] using h⟩

/-- Every run ends somehow. -/
theorem not_wp_false {m : EStateM ε σ α} {s : σ} : ¬wp m (fun _ _ => False) (fun _ _ => False) s := by
  unfold wp
  cases m s <;> exact id

/-! ## What a computation performs, however it ends -/

/-- `m` gets from any state to the one it ends in by steps of the relation `R`. -/
def Performs (R : σ → σ → Prop) (m : EStateM ε σ α) : Prop :=
  ∀ s, wp m (fun _ s' => ReflTransGen R s s') (fun _ s' => ReflTransGen R s s') s

variable {R : σ → σ → Prop}

/-- `pure` takes no step. -/
theorem performs_pure (a : α) : Performs R (pure a : EStateM ε σ α) := fun _ => .refl

/-- `throw` takes no step. -/
theorem performs_throw (e : ε) : Performs R (throw e : EStateM ε σ α) := fun _ => .refl

/-- `modify` takes one step. -/
theorem performs_modify {f : σ → σ} (hf : ∀ s, R s (f s)) :
    Performs R (modify f : EStateM ε σ PUnit) := fun s => .single (hf s)

/-- A sequence performs what its steps perform. -/
theorem performs_bind {m : EStateM ε σ α} {f : α → EStateM ε σ β} (hm : Performs R m)
    (hf : ∀ a, Performs R (f a)) : Performs R (m >>= f) := fun s =>
  (wp_bind m f _ _ s).mpr (wp_mono (hm s)
    (fun a s' hs' => wp_mono (hf a s') (fun _ _ h => hs'.trans h) fun _ _ h => hs'.trans h)
    fun _ _ h => h)

/-- `get` takes no step. -/
theorem performs_get : Performs R (get : EStateM ε σ σ) := fun _ => .refl

/-- A branch performs what its arms perform. -/
theorem performs_ite {p : Prop} [Decidable p] {m m' : EStateM ε σ α} (hm : Performs R m)
    (hm' : Performs R m') : Performs R (if p then m else m') := by
  split
  · exact hm
  · exact hm'

/-- Steps of a relation are steps of every larger one. -/
theorem Performs.mono {m : EStateM ε σ α} (hm : Performs R m) {R' : σ → σ → Prop}
    (h : ∀ s s', R s s' → R' s s') : Performs R' m := fun s =>
  wp_mono (hm s) (fun _ s' => ReflTransGen.mono h s s') fun _ s' => ReflTransGen.mono h s s'

/-- An invariant of the steps is kept by the computation. -/
theorem Performs.keeps {m : EStateM ε σ α} (hm : Performs R m) {I : σ → Prop}
    (hI : ∀ s s', I s → R s s' → I s') {s : σ} (hs : I s) : wp m (fun _ => I) (fun _ => I) s := by
  have hsteps : ∀ s', ReflTransGen R s s' → I s' := fun s' h => by
    induction h with
    | refl => exact hs
    | tail _ hstep ih => exact hI _ _ ih hstep
  exact wp_mono (hm s) (fun _ s' h => hsteps s' h) fun _ s' h => hsteps s' h

/-! ## Which exceptions a computation throws -/

/-- `m` throws exceptions of `E` only. -/
def Throws (E : ε → Prop) (m : EStateM ε σ α) : Prop :=
  ∀ s, wp m (fun _ _ => True) (fun e _ => E e) s

variable {E : ε → Prop}

/-- `pure` throws nothing. -/
theorem throws_pure (a : α) : Throws E (pure a : EStateM ε σ α) := fun _ => trivial

/-- `get` throws nothing. -/
theorem throws_get : Throws E (get : EStateM ε σ σ) := fun _ => trivial

/-- `modify` throws nothing. -/
theorem throws_modify (f : σ → σ) : Throws E (modify f : EStateM ε σ PUnit) := fun _ => trivial

/-- `throw` throws what it is given. -/
theorem throws_throw {e : ε} (he : E e) : Throws E (throw e : EStateM ε σ α) := fun _ => he

/-- A sequence throws what its parts throw. -/
theorem throws_bind {m : EStateM ε σ α} {f : α → EStateM ε σ β} (hm : Throws E m)
    (hf : ∀ a, Throws E (f a)) : Throws E (m >>= f) := fun s =>
  (wp_bind m f _ _ s).mpr (wp_mono (hm s) (fun a s' _ => hf a s') fun _ _ he => he)

/-- A conditional throws what its branches throw. -/
theorem throws_ite {p : Prop} [Decidable p] {m m' : EStateM ε σ α} (hm : Throws E m)
    (hm' : Throws E m') : Throws E (if p then m else m') := by
  split
  · exact hm
  · exact hm'

/-! ## Which values a computation returns -/

/-- `m` returns values of `P` only. -/
def Returns (P : α → Prop) (m : EStateM ε σ α) : Prop :=
  ∀ s, wp m (fun a _ => P a) (fun _ _ => True) s

variable {P : α → Prop}

/-- `pure` returns what it is given. -/
theorem returns_pure {a : α} (ha : P a) : Returns P (pure a : EStateM ε σ α) := fun _ => ha

/-- Only the last step of a sequence returns. -/
theorem returns_bind {m : EStateM ε σ β} {f : β → EStateM ε σ α} (hf : ∀ a, Returns P (f a)) :
    Returns P (m >>= f) := fun s =>
  (wp_bind m f _ _ s).mpr (wp_mono (wp_true m s) (fun a s' _ => hf a s') fun _ _ h => h)

/-- A conditional returns what its branches return. -/
theorem returns_ite {p : Prop} [Decidable p] {m m' : EStateM ε σ α} (hm : Returns P m)
    (hm' : Returns P m') : Returns P (if p then m else m') := by
  split
  · exact hm
  · exact hm'

end Effect
