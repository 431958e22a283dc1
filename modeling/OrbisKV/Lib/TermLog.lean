import Mathlib.Data.List.Basic
import Mathlib.Data.List.TakeDrop
/-!
# Logs grown from term logs

A replicated log whose entries carry the term they were created in is described
against one list per term: the log of the only writer of that term.
-/

namespace OrbisKV.Lib.TermLog

open List

variable {i t : Nat}

variable {ε : Type*}

variable {L M : List ε}

theorem take_eq_of_isPrefix (h : L <+: M) (hi : i ≤ L.length) : M.take i = L.take i := by
  obtain ⟨rest, rfl⟩ := h
  exact take_append_of_le_length hi

theorem getElem?_of_isPrefix (h : L <+: M) {x : ε} (hx : L[i]? = some x) : M[i]? = some x := by
  obtain ⟨rest, rfl⟩ := h
  obtain ⟨hlt, _⟩ := List.getElem?_eq_some_iff.mp hx
  rw [List.getElem?_append_left hlt, hx]

theorem lt_length_of_take_eq (h : L.take (i + 1) = M.take (i + 1)) (hi : i < L.length) :
    i < M.length := by
  have hlen := congrArg List.length h
  simp only [length_take] at hlen
  omega

theorem le_length_of_take_eq (h : L.take i = M.take i) (hi : i ≤ L.length) : i ≤ M.length := by
  have hlen := congrArg List.length h
  simp only [length_take] at hlen
  omega

theorem take_eq_of_take_eq {j : Nat} (h : L.take j = M.take j) (hij : i ≤ j) :
    L.take i = M.take i := by
  have := congrArg (List.take i) h
  simpa [take_take, Nat.min_eq_left hij] using this

theorem getElem?_eq_of_take_eq {j : Nat} (h : L.take j = M.take j) (hij : i < j) :
    L[i]? = M[i]? := by
  have := congrArg (fun l => l[i]?) h
  simpa [List.getElem?_take, hij] using this

theorem prefix_of_take_eq (h : L.take L.length = M.take L.length) : L <+: M := by
  rw [take_length] at h
  exact h ▸ take_prefix _ _

variable (term : ε → Nat)

/-- The term of the entry at list position `i - 1`, zero below the first entry. -/
def termAt (L : List ε) : Nat → Nat
  | 0 => 0
  | i + 1 => (L[i]?.map term).getD 0

def lastTerm (L : List ε) : Nat := termAt term L L.length

@[simp] theorem lastTerm_nil : lastTerm term ([] : List ε) = 0 := rfl

theorem termAt_succ (L : List ε) (i : Nat) : termAt term L (i + 1) = (L[i]?.map term).getD 0 := rfl

theorem termAt_of_getElem? {e : ε} (h : L[i]? = some e) : termAt term L (i + 1) = term e := by
  simp [termAt_succ, h]

theorem termAt_eq_of_take_eq {j : Nat} (h : L.take j = M.take j) (hij : i ≤ j) :
    termAt term L i = termAt term M i := by
  cases i with
  | zero => rfl
  | succ i => rw [termAt_succ, termAt_succ, getElem?_eq_of_take_eq h (by omega)]

theorem termAt_le_of_forall (h : ∀ e ∈ L, term e ≤ t) (i : Nat) : termAt term L i ≤ t := by
  cases i with
  | zero => exact Nat.zero_le _
  | succ i =>
    rw [termAt_succ]
    cases he : L[i]? with
    | none => exact Nat.zero_le _
    | some e => exact h e (mem_of_getElem? he)

theorem termAt_lt_of_forall (ht : 0 < t) (h : ∀ e ∈ L, term e < t) (i : Nat) :
    termAt term L i < t := by
  have := termAt_le_of_forall term (L := L) (t := t - 1) (fun e he => by have := h e he; omega) i
  omega

theorem termAt_le_lastTerm (h : L.Pairwise fun a b => term a ≤ term b) (hi : i ≤ L.length) :
    termAt term L i ≤ lastTerm term L := by
  cases i with
  | zero => exact Nat.zero_le _
  | succ i =>
    obtain ⟨n, hn⟩ : ∃ n, L.length = n + 1 := Nat.exists_eq_succ_of_ne_zero (by omega)
    have hd : L[i]? = some (L[i]) := List.getElem?_eq_getElem (by omega)
    have he : L[n]? = some (L[n]) := List.getElem?_eq_getElem (by omega)
    have hlast : lastTerm term L = term (L[n]) := by
      rw [lastTerm, show termAt term L L.length = termAt term L (n + 1) from congrArg _ hn,
        termAt_of_getElem? term he]
    rw [hlast, termAt_of_getElem? term hd]
    rcases Nat.lt_or_ge i n with hin | hin
    · exact pairwise_iff_getElem.mp h i n (by omega) (by omega) hin
    · have hieq : i = n := by omega
      subst hieq
      exact Nat.le_refl _

/-- `L` is at least as up to date as `M`: a later last term, or the same last
term and at least the length. -/
def UpToDate (L M : List ε) : Prop :=
  ¬ (lastTerm term L < lastTerm term M ∨ (lastTerm term L = lastTerm term M ∧ L.length < M.length))

/-- Every entry of `L` sits on the prefix that its term's log has there. -/
def Grown (G : Nat → List ε) (L : List ε) : Prop :=
  ∀ i e, L[i]? = some e → L.take (i + 1) = (G (term e)).take (i + 1)

/-- Log matching: equal terms at one position force equal logs up to it. -/
def Matching (L M : List ε) : Prop :=
  ∀ i d e, L[i]? = some d → M[i]? = some e → term d = term e → L.take (i + 1) = M.take (i + 1)

/-- Every term log of `G` is a prefix of the same term's log in `G'`. -/
def Extends (G G' : Nat → List ε) : Prop := ∀ t, G t <+: G' t

theorem Extends.refl (G : Nat → List ε) : Extends G G := fun _ => prefix_rfl

theorem Extends.trans {G₁ G₂ G₃ : Nat → List ε} (h₁₂ : Extends G₁ G₂)
    (h₂₃ : Extends G₂ G₃) : Extends G₁ G₃ :=
  fun t => (h₁₂ t).trans (h₂₃ t)

variable {G : Nat → List ε}

theorem Extends.take {G' : Nat → List ε} (h : Extends G G') (hi : i ≤ (G t).length) :
    (G' t).take i = (G t).take i :=
  take_eq_of_isPrefix (h t) hi

theorem Extends.update (h : G t <+: L) : Extends G (Function.update G t L) := by
  intro t'
  by_cases ht : t' = t
  · subst ht
    simpa using h
  · simp [Function.update_of_ne ht]

variable {term}

theorem Grown.nil (G : Nat → List ε) : Grown term G [] := by
  intro i e h
  simp at h

theorem Grown.lt_length (h : Grown term G L) {e : ε} (he : L[i]? = some e) :
    i < (G (term e)).length :=
  lt_length_of_take_eq (h i e he) (List.getElem?_eq_some_iff.mp he).1

theorem Grown.mono {G' : Nat → List ε} (h : Grown term G L) (hG : Extends G G') :
    Grown term G' L := by
  intro i e he
  rw [h i e he, hG.take (h.lt_length he)]

theorem Grown.take (h : Grown term G L) (m : Nat) : Grown term G (L.take m) := by
  intro i e he
  rw [List.getElem?_take] at he
  split_ifs at he with him
  rw [take_take, Nat.min_eq_left (by omega)]
  exact h i e he

theorem Grown.of_isPrefix (h : Grown term G M) (hLM : L <+: M) : Grown term G L := by
  rw [prefix_iff_eq_take.mp hLM]
  exact h.take _

theorem Grown.matching (hL : Grown term G L) (hM : Grown term G M) : Matching term L M := by
  intro i d e hd he hterm
  rw [hL i d hd, hM i e he, hterm]

theorem Matching.take_eq_of_termAt (h : Matching term L M) (hiL : i ≤ L.length) (hiM : i ≤ M.length)
    (hterm : termAt term L i = termAt term M i) : L.take i = M.take i := by
  cases i with
  | zero => simp
  | succ i =>
    have hd : L[i]? = some L[i] := List.getElem?_eq_getElem (by omega)
    have he : M[i]? = some M[i] := List.getElem?_eq_getElem (by omega)
    rw [termAt_of_getElem? term hd, termAt_of_getElem? term he] at hterm
    exact h i _ _ hd he hterm

theorem Grown.prefix_lastTerm (h : Grown term G L) (hne : L ≠ []) : L <+: G (lastTerm term L) := by
  obtain ⟨n, hn⟩ : ∃ n, L.length = n + 1 := Nat.exists_eq_succ_of_ne_zero (by simpa using hne)
  obtain ⟨e, he⟩ : ∃ e, L[n]? = some e := ⟨_, List.getElem?_eq_getElem (by omega)⟩
  have hlast : lastTerm term L = term e := by
    rw [lastTerm, hn, termAt_of_getElem? term he]
  have htake := h n e he
  rw [← hn] at htake
  rw [hlast]
  exact prefix_of_take_eq htake

theorem Grown.append {e : ε} (h : Grown term G (G t)) (hterm : term e = t) :
    Grown term (Function.update G t (G t ++ [e])) (G t ++ [e]) := by
  intro i d hd
  by_cases hi : i < (G t).length
  · rw [List.getElem?_append_left hi] at hd
    have hext := Extends.update (G := G) (prefix_append (G t) [e])
    rw [take_append_of_le_length (by omega), h i d hd, hext.take (h.lt_length hd)]
  · have hlen := (List.getElem?_eq_some_iff.mp hd).1
    simp only [length_append, length_singleton] at hlen
    have hieq : i = (G t).length := by omega
    subst hieq
    rw [List.getElem?_concat_length] at hd
    cases hd
    rw [hterm, Function.update_self]

end OrbisKV.Lib.TermLog
