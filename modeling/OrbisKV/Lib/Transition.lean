import Mathlib.Logic.Relation
/-!
# Partial step functions and their runs

A concurrent program is modelled as a step function over named actions: an
action that is not enabled in a state, or whose code would stop the process,
yields `none`.
-/

namespace OrbisKV.Lib

/-- A transition system given by its initial states and a partial step
function. -/
structure System (σ α : Type*) where
  init : σ → Prop
  step : σ → α → Option σ

namespace System

variable {σ α : Type*} (sys : System σ α) (ok : σ → α → Prop)

/-- One step by an action that meets `ok` in the state before it. -/
def Step (s t : σ) : Prop := ∃ a, ok s a ∧ sys.step s a = some t

/-- Zero or more steps, each meeting `ok`. -/
def Run : σ → σ → Prop := Relation.ReflTransGen (sys.Step ok)

def Reachable (t : σ) : Prop := ∃ s, sys.init s ∧ sys.Run ok s t

def anyStep : σ → α → Prop := fun _ _ => True

/-- Take the listed actions in order, stopping at one that is not enabled. -/
def exec : σ → List α → Option σ
  | s, [] => some s
  | s, a :: as => (sys.step s a).bind fun t => exec t as

/-- Take the listed actions in order, stopping at one that is not enabled or
that does not meet `ok`. -/
def execOk [∀ s a, Decidable (ok s a)] : σ → List α → Option σ
  | s, [] => some s
  | s, a :: as =>
    if ok s a then (sys.step s a).bind fun t => execOk t as else none

variable {sys ok} {s t : σ} {ok' : σ → α → Prop} {as : List α}

theorem Run.refl (s : σ) : sys.Run ok s s := Relation.ReflTransGen.refl

theorem Run.trans {u : σ} (hst : sys.Run ok s t) (htu : sys.Run ok t u) : sys.Run ok s u :=
  Relation.ReflTransGen.trans hst htu

theorem Run.step {u : σ} {a : α} (hst : sys.Run ok s t) (hok : ok t a)
    (hu : sys.step t a = some u) : sys.Run ok s u :=
  Relation.ReflTransGen.tail hst ⟨a, hok, hu⟩

theorem Run.mono (h : ∀ s a, ok s a → ok' s a) (hrun : sys.Run ok s t) : sys.Run ok' s t := by
  induction hrun with
  | refl => exact Run.refl s
  | tail _ hlast ih =>
    obtain ⟨a, hok, hu⟩ := hlast
    exact ih.step (h _ _ hok) hu

theorem Reachable.mono (h : ∀ s a, ok s a → ok' s a) (hs : sys.Reachable ok s) :
    sys.Reachable ok' s := by
  obtain ⟨s₀, hinit, hrun⟩ := hs
  exact ⟨s₀, hinit, hrun.mono h⟩

theorem Reachable.mono_of_reachable (h : ∀ s a, sys.Reachable ok s → ok s a → ok' s a)
    (hs : sys.Reachable ok s) : sys.Reachable ok' s := by
  obtain ⟨s₀, hinit, hrun⟩ := hs
  refine ⟨s₀, hinit, ?_⟩
  induction hrun with
  | refl => exact Run.refl s₀
  | tail hrun hlast ih =>
    obtain ⟨a, hok, hu⟩ := hlast
    exact ih.step (h _ a ⟨s₀, hinit, hrun⟩ hok) hu

theorem Run.preserves {I : σ → Prop} (hstep : ∀ s a t, I s → ok s a → sys.step s a = some t → I t)
    (hs : I s) (hrun : sys.Run ok s t) : I t := by
  induction hrun with
  | refl => exact hs
  | tail _ hlast ih =>
    obtain ⟨a, ha, hu⟩ := hlast
    exact hstep _ _ _ ih ha hu

theorem Reachable.invariant {I : σ → Prop} (hinit : ∀ s, sys.init s → I s)
    (hstep : ∀ s a t, I s → ok s a → sys.step s a = some t → I t) (hs : sys.Reachable ok s) :
    I s := by
  obtain ⟨s₀, h₀, hrun⟩ := hs
  exact hrun.preserves hstep (hinit s₀ h₀)

theorem exec_append (s : σ) (as bs : List α) :
    sys.exec s (as ++ bs) = (sys.exec s as).bind fun t => sys.exec t bs := by
  induction as generalizing s with
  | nil => rfl
  | cons a as ih =>
    simp only [List.cons_append, exec]
    cases sys.step s a with
    | none => rfl
    | some t => simpa using ih t

theorem Run.of_exec (h : sys.exec s as = some t) : sys.Run anyStep s t := by
  induction as generalizing s with
  | nil =>
    simp only [exec, Option.some.injEq] at h
    exact h ▸ Run.refl s
  | cons a as ih =>
    simp only [exec, Option.bind_eq_some_iff] at h
    obtain ⟨u, hu, hrest⟩ := h
    exact ((Run.refl s).step trivial hu).trans (ih hrest)

theorem Reachable.of_exec (hs : sys.init s) (h : sys.exec s as = some t) :
    sys.Reachable anyStep t :=
  ⟨s, hs, Run.of_exec h⟩

theorem exists_of_exec (sys : System σ α) (s : σ) (as : List α) (P : σ → Prop)
    [DecidablePred P] (h : (sys.exec s as).any (fun t => decide (P t)) = true) :
    ∃ t, sys.exec s as = some t ∧ P t := by
  cases ht : sys.exec s as with
  | none => rw [ht] at h; cases h
  | some t => exact ⟨t, rfl, of_decide_eq_true (by rw [ht] at h; exact h)⟩

theorem exec_of_append {u : σ} {bs : List α} (hst : sys.exec s as = some t)
    (hsu : sys.exec s (as ++ bs) = some u) : sys.exec t bs = some u := by
  rwa [exec_append, hst, Option.bind_some] at hsu

theorem Run.of_execOk [∀ s a, Decidable (ok s a)] (h : sys.execOk ok s as = some t) :
    sys.Run ok s t := by
  induction as generalizing s with
  | nil =>
    simp only [execOk, Option.some.injEq] at h
    exact h ▸ Run.refl s
  | cons a as ih =>
    simp only [execOk] at h
    split at h
    · rename_i hok
      rw [Option.bind_eq_some_iff] at h
      obtain ⟨u, hu, hrest⟩ := h
      exact ((Run.refl s).step hok hu).trans (ih hrest)
    · cases h

theorem exists_of_execOk (sys : System σ α) (ok : σ → α → Prop) [∀ s a, Decidable (ok s a)] (s : σ)
    (as : List α) (P : σ → Prop) [DecidablePred P]
    (h : (sys.execOk ok s as).any (fun t => decide (P t)) = true) : ∃ t, sys.Run ok s t ∧ P t := by
  cases ht : sys.execOk ok s as with
  | none => rw [ht] at h; cases h
  | some t => exact ⟨t, Run.of_execOk ht, of_decide_eq_true (by rw [ht] at h; exact h)⟩

theorem exists_reachable_of_exec {P : σ → Prop} [DecidablePred P] (s : σ) (as : List α)
    (hs : sys.init s) (h : (sys.exec s as).any (fun t => decide (P t)) = true) :
    ∃ t, sys.Reachable anyStep t ∧ P t :=
  (exists_of_exec sys s as P h).imp fun _ ht => ⟨.of_exec hs ht.1, ht.2⟩

theorem exists_reachable_of_execOk {P : σ → Prop} [DecidablePred P] [∀ s a, Decidable (ok s a)]
    (s : σ) (as : List α) (hs : sys.init s)
    (h : (sys.execOk ok s as).any (fun t => decide (P t)) = true) : ∃ t, sys.Reachable ok t ∧ P t :=
  (exists_of_execOk sys ok s as P h).imp fun _ ht => ⟨⟨s, hs, ht.1⟩, ht.2⟩

end System

end OrbisKV.Lib
