import Mathlib.Data.List.Nodup
import Mathlib.Tactic.Common

/-! # Loops over an array of cells

A loop whose round for index `i` changes the cell of `i` alone and something shared by all rounds. The
cells that such a loop leaves are those of its rounds, taken one by one. -/

namespace CellLoop

variable {S ι V A : Type*} {f : S → ι → Option S} {cell : S → ι → V} {shared : S → A} {ready : ι → V → Prop}
  {g : ι → V → V} {h : ι → A → A}

/-- The round `f s i` succeeds where the cell of `i` is `ready`, changes it by `g i` and what is shared by
`h i`, and leaves the other cells alone. -/
def Round (f : S → ι → Option S) (cell : S → ι → V) (shared : S → A) (ready : ι → V → Prop) (g : ι → V → V)
    (h : ι → A → A) : Prop :=
  ∀ s i, ready i (cell s i) → ∃ s', f s i = some s' ∧ shared s' = h i (shared s) ∧
    cell s' i = g i (cell s i) ∧ ∀ j, j ≠ i → cell s' j = cell s j

/-- **A loop over distinct indices treats every cell once.** -/
theorem Round.foldlM (hround : Round f cell shared ready g h) {l : List ι} (hnodup : l.Nodup) {s : S}
    (hready : ∀ i ∈ l, ready i (cell s i)) : ∃ s', l.foldlM f s = some s' ∧
      shared s' = l.foldl (fun a i => h i a) (shared s) ∧ (∀ i ∈ l, cell s' i = g i (cell s i)) ∧
      ∀ j, j ∉ l → cell s' j = cell s j := by
  induction l generalizing s with
  | nil => exact ⟨s, rfl, rfl, by simp, fun _ _ => rfl⟩
  | cons i l ih =>
      obtain ⟨hi, hl⟩ := List.nodup_cons.mp hnodup
      obtain ⟨s₁, hf, hshared, hself, hother⟩ := hround s i (hready i (by simp))
      have hready₁ : ∀ j ∈ l, ready j (cell s₁ j) := by
        intro j hj
        rw [hother j (fun h => hi (h ▸ hj))]
        exact hready j (by simp [hj])
      obtain ⟨s₂, hrest, hshared₂, hcells, hkept⟩ := ih hl hready₁
      refine ⟨s₂, ?_, ?_, ?_, ?_⟩
      · rw [List.foldlM_cons, hf]
        exact hrest
      · rw [hshared₂, hshared, List.foldl_cons]
      · intro j hj
        rcases List.mem_cons.mp hj with rfl | hj
        · rw [hkept j hi, hself]
        · rw [hcells j hj, hother j (fun h => hi (h ▸ hj))]
      · intro j hj
        rw [List.mem_cons, not_or] at hj
        rw [hkept j hj.2, hother j hj.1]

end CellLoop
