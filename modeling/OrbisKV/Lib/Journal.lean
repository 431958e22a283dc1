import Mathlib.Data.List.Induction
/-!
# Write-behind storage

Writes of whole values are requested in an order and reported done in any order; what
is durable is the value of the latest request that was reported.
-/

namespace OrbisKV.Lib

open List

structure Write (σ : Type*) where
  value : σ
  done : Bool

/-- The value found at the start and the writes requested since, oldest first. -/
structure Journal (σ : Type*) where
  base : Option σ
  writes : List (Write σ)

namespace Journal

variable {id : Nat}

variable {σ : Type*}

def durable (j : Journal σ) : Option σ :=
  match (j.writes.filter (·.done)).getLast? with
  | some w => some w.value
  | none => j.base

def push (j : Journal σ) (value : σ) (done : Bool) : Journal σ :=
  { j with writes := j.writes ++ [⟨value, done⟩] }

def fire (j : Journal σ) (id : Nat) : Journal σ :=
  { j with writes := j.writes.modify id fun w => { w with done := true } }

def look (seen : List (Option σ)) (w : Write σ) : List (Option σ) :=
  if w.done then [some w.value] else seen ++ [some w.value]

def outlook (j : Journal σ) : List (Option σ) := j.writes.foldl look [j.base]

/-- Every value that may be durable from now on has the property. -/
def Secured (j : Journal σ) (P : σ → Prop) : Prop :=
  ∀ o ∈ j.outlook, ∃ v, o = some v ∧ P v

def secures (j : Journal σ) (p : σ → Bool) : Bool := j.outlook.all (·.any p)

/-- Every write from request `id` on has the property. -/
def HeldFrom (j : Journal σ) (id : Nat) (P : σ → Prop) : Prop :=
  ∀ w ∈ j.writes.drop id, P w.value

theorem outlook_push (j : Journal σ) (value : σ) (done : Bool) :
    (j.push value done).outlook = look j.outlook ⟨value, done⟩ := by
  simp [outlook, push]

theorem durable_mem_outlook (j : Journal σ) : j.durable ∈ j.outlook := by
  obtain ⟨base, writes⟩ := j
  induction writes using reverseRecOn with
  | nil => simp [durable, outlook]
  | append_singleton ws w ih =>
    have hpush : (⟨base, ws ++ [w]⟩ : Journal σ).outlook =
        look (⟨base, ws⟩ : Journal σ).outlook w :=
      outlook_push ⟨base, ws⟩ w.value w.done
    rw [hpush, look]
    by_cases hdone : w.done = true
    · simp [durable, hdone]
    · rw [if_neg hdone]
      apply mem_append_left
      simpa [durable, hdone] using ih

theorem foldl_look_modify_subset (id : Nat) (ws : List (Write σ)) (seen seen' : List (Option σ))
    (h : seen' ⊆ seen) :
    (ws.modify id fun w => { w with done := true }).foldl look seen' ⊆ ws.foldl look seen := by
  induction ws generalizing id seen seen' with
  | nil => simpa using h
  | cons w ws ih =>
    cases id with
    | zero =>
      simp only [modify_zero_cons, foldl_cons]
      -- the rest of the list is as before
      have hrest := ih ws.length (look seen w) (look seen' { w with done := true }) (by
        intro o ho
        simp only [look, if_true, mem_singleton] at ho
        rw [look]
        split <;> simp [ho])
      rwa [modify_eq_self (Nat.le_refl _)] at hrest
    | succ id =>
      simp only [modify_succ_cons, foldl_cons]
      apply ih
      intro o ho
      by_cases hdone : w.done = true
      · rw [look, if_pos hdone] at ho ⊢
        exact ho
      · rw [look, if_neg hdone, mem_append] at ho ⊢
        exact ho.imp_left (fun hin => h hin)

theorem outlook_fire_subset (j : Journal σ) (id : Nat) : (j.fire id).outlook ⊆ j.outlook :=
  foldl_look_modify_subset id j.writes _ _ (List.Subset.refl _)

variable {P Q : σ → Prop}

variable {j : Journal σ}

theorem Secured.durable (h : j.Secured P) : ∃ v, j.durable = some v ∧ P v :=
  h _ j.durable_mem_outlook

theorem secured_of_secures {p : σ → Bool} (h : j.secures p = true) :
    j.Secured fun v => p v = true := by
  intro o ho
  have hany := all_eq_true.mp h o ho
  cases o with
  | none => cases hany
  | some v => exact ⟨v, rfl, hany⟩

theorem Secured.mono (h : j.Secured P) (hPQ : ∀ v, P v → Q v) : j.Secured Q := by
  intro o ho
  obtain ⟨v, hv, hP⟩ := h o ho
  exact ⟨v, hv, hPQ v hP⟩

variable {value : σ}

theorem Secured.push (h : j.Secured P) (hv : P value) (done : Bool) :
    (j.push value done).Secured P := by
  intro o ho
  rw [outlook_push, look] at ho
  split at ho
  · exact ⟨value, mem_singleton.mp ho, hv⟩
  · rcases mem_append.mp ho with ho | ho
    · exact h o ho
    · exact ⟨value, mem_singleton.mp ho, hv⟩

theorem secured_push_done (hv : P value) : (j.push value true).Secured P := by
  intro o ho
  rw [outlook_push, look, if_pos rfl] at ho
  exact ⟨value, mem_singleton.mp ho, hv⟩

theorem Secured.fire (h : j.Secured P) (id : Nat) : (j.fire id).Secured P :=
  fun o ho => h o (j.outlook_fire_subset id ho)

theorem secured_base {base : σ} (hbase : P base) : (⟨some base, []⟩ : Journal σ).Secured P :=
  fun _ ho => ⟨base, mem_singleton.mp ho, hbase⟩

theorem HeldFrom.mono (h : j.HeldFrom id P) (hPQ : ∀ v, P v → Q v) : j.HeldFrom id Q :=
  fun w hw => hPQ _ (h w hw)

theorem HeldFrom.push (h : j.HeldFrom id P) (hv : P value) (done : Bool) :
    (j.push value done).HeldFrom id P := by
  intro w hw
  rw [Journal.push, drop_append] at hw
  rcases mem_append.mp hw with hw | hw
  · exact h w hw
  · rw [mem_singleton.mp (mem_of_mem_drop hw)]
    exact hv

theorem heldFrom_push_new (hv : P value) (done : Bool) :
    (j.push value done).HeldFrom j.writes.length P := by
  intro w hw
  rw [Journal.push, drop_left] at hw
  rw [mem_singleton.mp hw]
  exact hv

theorem HeldFrom.fire (h : j.HeldFrom id P) (k : Nat) : (j.fire k).HeldFrom id P := by
  intro w hw
  obtain ⟨i, hi⟩ := mem_iff_getElem?.mp hw
  rw [Journal.fire, List.getElem?_drop, List.getElem?_modify] at hi
  obtain ⟨v, hv, rfl⟩ := Option.map_eq_some_iff.mp hi
  have hold := h v (mem_iff_getElem?.mpr ⟨i, by rw [List.getElem?_drop]; exact hv⟩)
  split <;> exact hold

theorem foldl_look_of_forall (ws : List (Write σ)) (seen : List (Option σ))
    (hseen : ∀ o ∈ seen, ∃ v, o = some v ∧ P v) (h : ∀ w ∈ ws, P w.value) :
    ∀ o ∈ ws.foldl look seen, ∃ v, o = some v ∧ P v := by
  induction ws generalizing seen with
  | nil => exact hseen
  | cons w ws ih =>
    rw [foldl_cons]
    apply ih
    · intro o ho
      have hw : P w.value := h w mem_cons_self
      rw [look] at ho
      split at ho
      · exact ⟨w.value, mem_singleton.mp ho, hw⟩
      · rcases mem_append.mp ho with ho | ho
        · exact hseen o ho
        · exact ⟨w.value, mem_singleton.mp ho, hw⟩
    · exact fun v hv => h v (mem_cons_of_mem w hv)

theorem HeldFrom.secured (h : j.HeldFrom id P) {w : Write σ} (hw : j.writes[id]? = some w)
    (hdone : w.done = true) : j.Secured P := by
  obtain ⟨hlt, hget⟩ := List.getElem?_eq_some_iff.mp hw
  have hsplit : j.writes = j.writes.take id ++ w :: j.writes.drop (id + 1) := by
    rw [← hget, ← drop_eq_getElem_cons hlt, take_append_drop]
  have hfrom : ∀ v ∈ w :: j.writes.drop (id + 1), P v.value := by
    rw [← hget, ← drop_eq_getElem_cons hlt]
    exact h
  rw [Secured, outlook, hsplit, foldl_append, foldl_cons, look, if_pos hdone]
  apply foldl_look_of_forall
  · intro o ho
    exact ⟨w.value, mem_singleton.mp ho, hfrom w mem_cons_self⟩
  · exact fun v hv => hfrom v (mem_cons_of_mem w hv)

end Journal

end OrbisKV.Lib
