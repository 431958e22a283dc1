import Mathlib.Data.List.Basic
/-!
# Refilling a tree map from its list of entries

A map is written out as the list of its entries and read back by inserting them
one after another, possibly into a map that holds something already.
-/

namespace OrbisKV.Lib

open Std ExtTreeMap

variable {α β γ : Type*} {cmp : α → α → Ordering} [TransCmp cmp]

/-- Insert the listed entries, each value through `f`. -/
def refill (f : β → γ) (t : ExtTreeMap α γ cmp) (l : List (α × β)) : ExtTreeMap α γ cmp :=
  l.foldl (fun t item => t.insert item.1 (f item.2)) t

section

variable [LawfulEqCmp cmp] (f : β → γ) (t : ExtTreeMap α γ cmp)

theorem getElem?_refill_of_forall_ne {l : List (α × β)} {k : α} (h : ∀ item ∈ l, item.1 ≠ k) :
    (refill f t l)[k]? = t[k]? := by
  induction l generalizing t with
  | nil => rfl
  | cons item l ih =>
    have hne : item.1 ≠ k := h item List.mem_cons_self
    have hrest := ih (t.insert item.1 (f item.2)) fun x hx => h x (List.mem_cons_of_mem item hx)
    have hins : (t.insert item.1 (f item.2))[k]? = t[k]? := by
      rw [getElem?_insert, if_neg]
      rwa [LawfulEqCmp.compare_eq_iff_eq]
    exact hrest.trans hins

theorem getElem?_refill_of_mem {l : List (α × β)} (hl : l.Pairwise fun a b => a.1 ≠ b.1) {k : α}
    {v : β} (h : (k, v) ∈ l) : (refill f t l)[k]? = some (f v) := by
  induction l generalizing t with
  | nil => cases h
  | cons item l ih =>
    obtain ⟨hitem, hl⟩ := List.pairwise_cons.mp hl
    rcases List.mem_cons.mp h with rfl | h
    · have hrest := getElem?_refill_of_forall_ne f (t.insert k (f v)) (l := l) (k := k)
        fun x hx => (hitem x hx).symm
      exact hrest.trans getElem?_insert_self
    · exact ih (t.insert item.1 (f item.2)) hl h

theorem pairwise_fst_toList (m : ExtTreeMap α β cmp) : m.toList.Pairwise fun a b => a.1 ≠ b.1 := by
  refine distinct_keys_toList.imp ?_
  intro a b hab heq
  exact hab (LawfulEqCmp.compare_eq_iff_eq.mpr heq)

theorem getElem?_refill_toList (m : ExtTreeMap α β cmp) (k : α) :
    (refill f t m.toList)[k]? = (m[k]?.map f).or t[k]? := by
  cases hk : m[k]? with
  | some v =>
    exact getElem?_refill_of_mem f t (pairwise_fst_toList m)
      (mem_toList_iff_getElem?_eq_some.mpr hk)
  | none =>
    apply getElem?_refill_of_forall_ne
    rintro ⟨k', v⟩ hmem rfl
    rw [mem_toList_iff_getElem?_eq_some.mp hmem] at hk
    cases hk

theorem refill_toList (m : ExtTreeMap α β cmp) : refill id ∅ m.toList = m := by
  apply ext_getElem?
  intro k
  rw [getElem?_refill_toList]
  simp

end

end OrbisKV.Lib
