import PgliteBuild.Foundation.Effect

/-! # Code made of labels and jumps

A function with `goto`s is a computation for each label, which returns the label to go to next. `follow`
runs it from a label under a step budget, and `Ends` says how it ends when the budget does not matter
(`Ends.follow`). `follow_inv` is the proof rule: an assertion for each label, kept by every jump. -/

namespace Jumps

open Effect

variable {ε σ L : Type}

/-- Follow the jumps from a label until there is no next one. -/
def follow (block : L → EStateM ε σ (Option L)) (exhausted : ε) : ℕ → L → EStateM ε σ Unit
  | 0, _ => throw exhausted
  | fuel + 1, l => do
    match ← block l with
    | none => pure ()
    | some l' => follow block exhausted fuel l'

/-- The code from label `l` in state `s` ends with the result `r`. -/
inductive Ends (block : L → EStateM ε σ (Option L)) : L → σ → EStateM.Result ε σ Unit → Prop
  | last {l : L} {s s' : σ} : block l s = .ok none s' → Ends block l s (.ok () s')
  | fail {l : L} {s s' : σ} {e : ε} : block l s = .error e s' → Ends block l s (.error e s')
  | jump {l l' : L} {s s' : σ} {r : EStateM.Result ε σ Unit} :
      block l s = .ok (some l') s' → Ends block l' s' r → Ends block l s r

variable {block : L → EStateM ε σ (Option L)} {exhausted : ε}

/-- Code that ends does so under every budget that is large enough. -/
theorem Ends.follow {l : L} {s : σ} {r : EStateM.Result ε σ Unit} (h : Ends block l s r)
    (exhausted : ε) : ∃ fuel, ∀ k, follow block exhausted (fuel + k) l s = r := by
  induction h with
  | last hblock =>
      refine ⟨1, fun k => ?_⟩
      rw [Nat.add_comm, Jumps.follow, run_bind_ok hblock]
      rfl
  | fail hblock =>
      refine ⟨1, fun k => ?_⟩
      rw [Nat.add_comm, Jumps.follow, run_bind_error hblock]
  | jump hblock _ ih =>
      obtain ⟨fuel, hfuel⟩ := ih
      refine ⟨fuel + 1, fun k => ?_⟩
      rw [Nat.add_right_comm, Jumps.follow, run_bind_ok hblock]
      exact hfuel k

/-- Jumps lead from one label and state to another. -/
inductive Leads (block : L → EStateM ε σ (Option L)) : L → σ → L → σ → Prop
  | refl {l : L} {s : σ} : Leads block l s l s
  | jump {l l' l'' : L} {s s' s'' : σ} :
      block l s = .ok (some l') s' → Leads block l' s' l'' s'' → Leads block l s l'' s''

/-- One jump leads to its label. -/
theorem Leads.single {l l' : L} {s s' : σ} (h : block l s = .ok (some l') s') :
    Leads block l s l' s' := .jump h .refl

/-- Jumps in a row lead where the last of them leads. -/
theorem Leads.trans {l l' l'' : L} {s s' s'' : σ} (h : Leads block l s l' s')
    (h' : Leads block l' s' l'' s'') : Leads block l s l'' s'' := by
  induction h with
  | refl => exact h'
  | jump hblock _ ih => exact .jump hblock (ih h')

/-- Code ends as the code it leads to ends. -/
theorem Leads.ends {l l' : L} {s s' : σ} {r : EStateM.Result ε σ Unit} (h : Leads block l s l' s')
    (h' : Ends block l' s' r) : Ends block l s r := by
  induction h with
  | refl => exact h'
  | jump hblock _ ih => exact .jump hblock (ih h')

/-- Jumps take some of the budget, and leave the rest to the code they lead to. -/
theorem Leads.follow {l l' : L} {s s' : σ} (h : Leads block l s l' s') (exhausted : ε) :
    ∃ n, ∀ fuel, follow block exhausted (fuel + n) l s = follow block exhausted fuel l' s' := by
  induction h with
  | refl => exact ⟨0, fun _ => rfl⟩
  | jump hblock _ ih =>
      obtain ⟨n, hn⟩ := ih
      refine ⟨n + 1, fun fuel => ?_⟩
      rw [← Nat.add_assoc, Jumps.follow, run_bind_ok hblock]
      exact hn fuel

/-- **The proof rule for jumps**: assertions for the labels that every jump keeps hold until the code
ends or the budget is used up. -/
theorem follow_inv {J : L → σ → Prop} {post : σ → Prop} {exn : ε → σ → Prop}
    (hblock : ∀ l s, J l s → wp (block l)
      (fun next s' => match next with
        | none => post s'
        | some l' => J l' s') exn s)
    (hexhausted : ∀ l s, J l s → exn exhausted s) (fuel : ℕ) {l : L} {s : σ} (h : J l s) :
    wp (follow block exhausted fuel l) (fun _ => post) exn s := by
  induction fuel generalizing l s with
  | zero => exact hexhausted l s h
  | succ fuel ih =>
      rw [Jumps.follow, wp_bind]
      refine wp_mono (hblock l s h) (fun next s' hnext => ?_) (fun e s' he => he)
      cases next with
      | none => exact hnext
      | some l' => exact ih hnext

end Jumps
