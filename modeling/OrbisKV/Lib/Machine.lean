import Mathlib.Data.Option.Basic
/-!
# Machines that answer a list of inputs

A replicated state machine takes its inputs one after another and answers each of
them.
-/

namespace OrbisKV.Lib

open Option

structure Machine (σ ι ρ : Type*) where
  step : σ → ι → Option (σ × ρ)

namespace Machine

variable {σ ι ρ : Type*} (M : Machine σ ι ρ)

/-- The state after the inputs and the answers to them, in order. -/
def run : σ → List ι → Option (σ × List ρ)
  | s, [] => some (s, [])
  | s, i :: is => (M.step s i).bind fun p => (run p.1 is).map fun q => (q.1, p.2 :: q.2)

/-- Every step of the run over the inputs satisfies `P`. -/
def Along (P : σ → ι → σ → Prop) : σ → List ι → Prop
  | _, [] => True
  | s, i :: is => ∀ t r, M.step s i = some (t, r) → P s i t ∧ Along P t is

variable {is : List ι}

theorem along_cons_iff {P : σ → ι → σ → Prop} {s t : σ} {i : ι} {r : ρ}
    (hstep : M.step s i = some (t, r)) : M.Along P s (i :: is) ↔ P s i t ∧ M.Along P t is := by
  constructor
  · intro h
    exact h t r hstep
  · intro h t' r' hstep'
    rw [hstep] at hstep'
    cases hstep'
    exact h

theorem along_cons_of_none {P : σ → ι → σ → Prop} {s : σ} {i : ι} (hstep : M.step s i = none) :
    M.Along P s (i :: is) := by
  intro t r hstep'
  rw [hstep] at hstep'
  cases hstep'

instance decidableAlong (P : σ → ι → σ → Prop) [∀ s i t, Decidable (P s i t)] :
    ∀ s is, Decidable (M.Along P s is)
  | _, [] => isTrue trivial
  | s, i :: is =>
    match hstep : M.step s i with
    | none => isTrue (M.along_cons_of_none hstep)
    | some (t, _) =>
      have := decidableAlong P t is
      decidable_of_iff _ (M.along_cons_iff hstep).symm

variable {M}

theorem run_cons_eq_some {s t : σ} {i : ι} {rs : List ρ} :
    M.run s (i :: is) = some (t, rs) ↔
      ∃ u r rs', M.step s i = some (u, r) ∧ M.run u is = some (t, rs') ∧ rs = r :: rs' := by
  constructor
  · intro h
    rw [run, bind_eq_some_iff] at h
    obtain ⟨⟨u, r⟩, hstep, hrest⟩ := h
    obtain ⟨⟨v, rs'⟩, hrun, heq⟩ := map_eq_some_iff.mp hrest
    cases heq
    exact ⟨u, r, rs', hstep, hrun, rfl⟩
  · rintro ⟨u, r, rs', hstep, hrun, rfl⟩
    simp [run, hstep, hrun]

theorem run_singleton (s : σ) (i : ι) : M.run s [i] = (M.step s i).map fun p => (p.1, [p.2]) := by
  rw [run]
  cases M.step s i <;> rfl

theorem run_append (s : σ) (is js : List ι) :
    M.run s (is ++ js) =
      (M.run s is).bind fun p => (M.run p.1 js).map fun q => (q.1, p.2 ++ q.2) := by
  induction is generalizing s with
  | nil =>
    rw [List.nil_append, run, bind_some]
    cases M.run s js <;> rfl
  | cons i is ih =>
    rw [List.cons_append, run, run]
    cases M.step s i with
    | none => rfl
    | some p =>
      simp only [bind_some, ih]
      cases M.run p.1 is with
      | none => rfl
      | some q =>
        simp only [map_some, bind_some]
        cases M.run q.1 js <;> rfl

end Machine

end OrbisKV.Lib
