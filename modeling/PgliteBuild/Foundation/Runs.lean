import Mathlib.Data.List.Infix
import Mathlib.Tactic.Common

/-! # Guarded runs of a labelled transition system

`Reaches step s is t` is a run from `s` that takes the labels `is` in order and ends in `t`. A run is
`Guarded` by `G` when `G` holds of every state in which a label is about to be taken. The invariant
rule `Reaches.inv` proves a relation between the labels taken so far and the state reached, from steps
that keep it under the guard. -/

namespace Runs

variable {σ ι : Type*}

/-- A run from `s` over the labels taken so far to the state reached. -/
inductive Reaches (step : σ → ι → σ → Prop) (s : σ) : List ι → σ → Prop
  | nil : Reaches step s [] s
  | snoc {is : List ι} {i : ι} {t t' : σ} :
      Reaches step s is t → step t i t' → Reaches step s (is ++ [i]) t'

/-- Along the run over `is`, `G` holds whenever a label is about to be taken. -/
def Guarded (step : σ → ι → σ → Prop) (G : σ → ι → Prop) (s : σ) (is : List ι) : Prop :=
  ∀ pre i, pre ++ [i] <+: is → ∀ t, Reaches step s pre t → G t i

variable {step : σ → ι → σ → Prop} {G : σ → ι → Prop} {s : σ}

/-- The beginning of a guarded run is guarded. -/
theorem Guarded.of_prefix {is js : List ι} (h : Guarded step G s is) (hjs : js <+: is) :
    Guarded step G s js := fun pre i hpre => h pre i (hpre.trans hjs)

/-- A run is guarded by every weaker guard. -/
theorem Guarded.mono {G' : σ → ι → Prop} {is : List ι} (h : Guarded step G s is)
    (hG : ∀ t i, G t i → G' t i) : Guarded step G' s is :=
  fun pre i hpre t hrun => hG t i (h pre i hpre t hrun)

/-- A run over one label is guarded by what holds at its start. -/
theorem guarded_singleton {i : ι} (h : G s i) : Guarded step G s [i] := by
  rintro pre j hpre t hrun
  obtain ⟨rfl, rfl⟩ : pre = [] ∧ j = i := by
    have hlen := hpre.length_le
    rw [List.length_append, List.length_singleton, List.length_singleton] at hlen
    have hnil : pre = [] := List.length_eq_zero_iff.mp (by omega)
    subst hnil
    simpa using hpre
  generalize hnil : ([] : List ι) = is at hrun
  cases hrun with
  | nil => exact h
  | snoc => simp at hnil

/-- **The invariant rule for guarded runs.** -/
theorem Reaches.inv {I : List ι → σ → Prop} (hinit : I [] s)
    (hstep : ∀ is i t t', I is t → G t i → step t i t' → I (is ++ [i]) t') {is : List ι} {t : σ}
    (hguard : Guarded step G s is) (h : Reaches step s is t) : I is t := by
  induction h with
  | nil => exact hinit
  | @snoc is i t t' hrun hlast ih =>
      have hbefore := ih (hguard.of_prefix (List.prefix_append is [i]))
      exact hstep is i t t' hbefore (hguard is i List.prefix_rfl t hrun) hlast

/-- The invariant rule for a run without a guard. -/
theorem Reaches.inv_of_step {I : List ι → σ → Prop} (hinit : I [] s)
    (hstep : ∀ is i t t', I is t → step t i t' → I (is ++ [i]) t') {is : List ι} {t : σ}
    (h : Reaches step s is t) : I is t := by
  induction h with
  | nil => exact hinit
  | snoc _ hlast ih => exact hstep _ _ _ _ ih hlast

/-! ## Runs taken from the left -/

/-- A run that takes its first label first. -/
inductive Path (step : σ → ι → σ → Prop) : σ → List ι → σ → Prop
  | nil {s : σ} : Path step s [] s
  | cons {i : ι} {is : List ι} {s t u : σ} : step s i t → Path step t is u → Path step s (i :: is) u

/-- A path may be extended by one step. -/
theorem Path.snoc {i : ι} {is : List ι} {t u : σ} (h : Path step s is t) (hlast : step t i u) :
    Path step s (is ++ [i]) u := by
  induction h with
  | nil => exact .cons hlast .nil
  | cons hfirst _ ih => exact .cons hfirst (ih hlast)

/-- Two paths in a row are a path. -/
theorem Path.trans {is js : List ι} {t u : σ} (h : Path step s is t) (h' : Path step t js u) :
    Path step s (is ++ js) u := by
  induction h with
  | nil => exact h'
  | cons hfirst _ ih => exact .cons hfirst (ih h')

/-- What a run reaches is at the end of a path. -/
theorem Reaches.path {is : List ι} {t : σ} (h : Reaches step s is t) : Path step s is t := by
  induction h with
  | nil => exact .nil
  | snoc _ hlast ih => exact ih.snoc hlast

/-- A run may take one more label in front. -/
theorem Reaches.cons {i : ι} {is : List ι} {t u : σ} (h : step s i t) (hrun : Reaches step t is u) :
    Reaches step s (i :: is) u := by
  induction hrun with
  | nil => exact Reaches.nil.snoc h
  | snoc _ hlast ih => exact .snoc ih hlast

/-- The end of a path is reached by a run. -/
theorem Path.reaches {is : List ι} {t : σ} (h : Path step s is t) : Reaches step s is t := by
  induction h with
  | nil => exact .nil
  | cons hfirst _ ih => exact .cons hfirst ih

/-- Two runs in a row are a run. -/
theorem Reaches.trans {is js : List ι} {t u : σ} (h : Reaches step s is t) (h' : Reaches step t js u) :
    Reaches step s (is ++ js) u := (h.path.trans h'.path).reaches

/-- What a guard says of the rest of a run. -/
theorem Guarded.after {is js : List ι} {t : σ} (h : Guarded step G s (is ++ js)) (hrun : Reaches step s is t) :
    Guarded step G t js := by
  intro pre i hpre u hu
  refine h (is ++ pre) i ?_ u (hrun.trans hu)
  rw [List.append_assoc]
  exact (List.prefix_append_right_inj is).mpr hpre

/-- The empty run is guarded. -/
theorem guarded_nil : Guarded step G s [] := by
  intro pre i hpre
  simpa using hpre.length_le

/-- When a label leads to one state only, a run is guarded if its first label and the rest of it are. -/
theorem Guarded.cons {i : ι} {is : List ι} {t : σ} (hdet : ∀ t', step s i t' → t' = t) (hG : G s i)
    (h : Guarded step G t is) : Guarded step G s (i :: is) := by
  rintro (_ | ⟨j, pre⟩) k hpre u hrun
  · obtain ⟨rfl, -⟩ := List.cons_prefix_cons.mp hpre
    cases hrun.path
    exact hG
  · obtain ⟨rfl, hrest⟩ := List.cons_prefix_cons.mp hpre
    cases hrun.path with
    | cons hfirst hpath =>
        obtain rfl := hdet _ hfirst
        exact h pre k hrest u hpath.reaches

/-! ## Runs that come to an end -/

/-- **The ranking rule.** A run that keeps on taking one label comes to an end, when every state before the end has a
step to a state of smaller rank; the rank bounds the number of steps. -/
theorem exists_path_of_rank {i : ι} {P Exit : σ → Prop} {rank : σ → ℕ}
    (hstep : ∀ s, P s → ¬Exit s → ∃ t, step s i t ∧ P t ∧ rank t < rank s) {s : σ} (h : P s) :
    ∃ n ≤ rank s, ∃ t, Path step s (List.replicate n i) t ∧ Exit t := by
  induction hrank : rank s using Nat.strong_induction_on generalizing s with
  | _ r ih =>
      subst hrank
      by_cases hexit : Exit s
      · exact ⟨0, Nat.zero_le _, s, .nil, hexit⟩
      · obtain ⟨t, hfirst, ht, hless⟩ := hstep s h hexit
        obtain ⟨n, hn, u, hpath, hu⟩ := ih (rank t) hless ht rfl
        exact ⟨n + 1, hn.trans_lt hless, u, .cons hfirst hpath, hu⟩

end Runs
