import Mathlib.Logic.Function.Basic
/-!
# Tables that change at one place

What holds of all places of a table after one was changed, from what holds of the new
entry and of the old ones elsewhere.
-/

namespace OrbisKV.Lib

open Function

variable {ι α β : Type*} [DecidableEq ι] {f : ι → α} {g : ι → β} {a : ι} {x : α} {y : β}

theorem forall_update {P : ι → α → Prop} (ha : P a x) (h : ∀ i, i ≠ a → P i (f i)) (i : ι) :
    P i (update f a x i) :=
  (forall_update_iff f P).mpr ⟨ha, h⟩ i

theorem forall_update₂ {P : ι → α → β → Prop} (ha : P a x y) (h : ∀ i, i ≠ a → P i (f i) (g i))
    (i : ι) : P i (update f a x i) (update g a y i) := by
  refine forall_update (P := fun i u => P i u (update g a y i)) ?_ ?_ i
  · rwa [update_self]
  · intro j hj
    rw [update_of_ne hj]
    exact h j hj

end OrbisKV.Lib
