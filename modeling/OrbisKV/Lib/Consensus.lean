import OrbisKV.Lib.TermLog
import OrbisKV.Lib.Update
import Mathlib.Data.Finset.Card
import Mathlib.Data.Fintype.Card
import Mathlib.Logic.Relation
/-!
# An abstract leader-based replicated log

The protocol that a Raft-style implementation is meant to follow, with whole logs
instead of slices, no messages and no snapshots.
-/

namespace OrbisKV.Lib.Consensus

open Finset Function

variable {α β δ : Type*} {k t : Nat}

open TermLog

variable {ι ε : Type*} [Fintype ι]

def Majority (Q : Finset ι) : Prop := Fintype.card ι / 2 < Q.card

theorem Majority.meet [DecidableEq ι] {P Q : Finset ι} (hP : Majority P) (hQ : Majority Q) :
    ∃ v, v ∈ P ∧ v ∈ Q := by
  unfold Majority at hP hQ
  have hcard : (univ : Finset ι).card < P.card + Q.card := by
    rw [card_univ]
    omega
  obtain ⟨v, hv⟩ := inter_nonempty_of_card_lt_card_add_card (subset_univ P) (subset_univ Q) hcard
  exact ⟨v, mem_inter.mp hv⟩

def set2 {α β δ : Type*} [DecidableEq α] [DecidableEq β] (f : α → β → δ) (a : α) (b : β)
    (x : δ) : α → β → δ :=
  fun a' b' => if a' = a ∧ b' = b then x else f a' b'

@[simp] theorem set2_self [DecidableEq α] [DecidableEq β] (f : α → β → δ) (a : α) (b : β) (x : δ) :
    set2 f a b x a b = x := by
  simp [set2]

theorem set2_of_ne [DecidableEq α] [DecidableEq β] {f : α → β → δ} {a a' : α} {b b' : β} {x : δ}
    (h : ¬ (a' = a ∧ b' = b)) : set2 f a b x a' b' = f a' b' := by
  simp [set2, h]

theorem forall_set2 [DecidableEq α] [DecidableEq β] {f : α → β → δ} {a : α} {b : β} {x : δ}
    {P : α → β → δ → Prop} (hab : P a b x) (h : ∀ a' b', P a' b' (f a' b')) (a' : α) (b' : β) :
    P a' b' (set2 f a b x a' b') := by
  by_cases hne : a' = a ∧ b' = b
  · obtain ⟨rfl, rfl⟩ := hne
    rwa [set2_self]
  · rw [set2_of_ne hne]
    exact h a' b'

structure State (ι ε : Type*) where
  term : ι → Nat
  log : ι → List ε
  commit : ι → Nat
  /-- The log of each term's leader, empty before the election. -/
  termLog : Nat → List ε
  leader : Nat → Option ι
  stood : ι → Nat → Option (List ε)
  vote : ι → Nat → Option ι
  /-- The length of the prefix of the term log that a node acknowledged while in
  that term. -/
  ack : ι → Nat → Nat

namespace State

variable [DecidableEq ι] (g : State ι ε)

def advance (v : ι) (t : Nat) : State ι ε :=
  { g with term := update g.term v t }

/-- A node stands for election in the term after its own and votes for itself. -/
def stand (c : ι) : State ι ε :=
  { g with
    term := update g.term c (g.term c + 1)
    stood := set2 g.stood c (g.term c + 1) (some (g.log c))
    vote := set2 g.vote c (g.term c + 1) (some c) }

def grant (v c : ι) : State ι ε :=
  { g with vote := set2 g.vote v (g.term v) (some c) }

def elect (c : ι) : State ι ε :=
  { g with
    leader := update g.leader (g.term c) (some c)
    termLog := update g.termLog (g.term c) (g.log c)
    ack := set2 g.ack c (g.term c) (g.log c).length }

def append (c : ι) (e : ε) : State ι ε :=
  { g with
    log := update g.log c (g.log c ++ [e])
    termLog := update g.termLog (g.term c) (g.log c ++ [e])
    ack := set2 g.ack c (g.term c) ((g.log c).length + 1) }

/-- A node finds that its log already starts with the first `m` entries of its
term's log. -/
def confirm (v : ι) (m : Nat) : State ι ε :=
  { g with ack := set2 g.ack v (g.term v) (max (g.ack v (g.term v)) m) }

/-- A node gives up its log for the first `m` entries of its term's log. -/
def replace (v : ι) (m : Nat) : State ι ε :=
  { g with
    log := update g.log v ((g.termLog (g.term v)).take m)
    ack := set2 g.ack v (g.term v) m }

/-- A node learns that the first `k` entries of its log are committed. -/
def learn (v : ι) (k : Nat) : State ι ε :=
  { g with commit := update g.commit v k }

end State

variable (tm : ε → Nat)

/-- The first `k` entries of the log of term `T` end with an entry of that term. -/
def Marked (g : State ι ε) (T k : Nat) : Prop :=
  0 < k ∧ k ≤ (g.termLog T).length ∧ termAt tm (g.termLog T) k = T

/-- A majority acknowledged a marked position in its own term. -/
def Committed (g : State ι ε) (T k : Nat) : Prop :=
  Marked tm g T k ∧ ∃ Q : Finset ι, Majority Q ∧ ∀ v ∈ Q, k ≤ g.ack v T

/-- A majority acknowledged a marked position or is not past its term yet. -/
def Choosable (g : State ι ε) (T k : Nat) : Prop :=
  Marked tm g T k ∧ ∃ Q : Finset ι, Majority Q ∧ ∀ v ∈ Q, k ≤ g.ack v T ∨ g.term v ≤ T

/-- The first `k` entries of `L` are the start of a committed prefix of a term up
to `t`. -/
def CommittedPrefix (g : State ι ε) (t : Nat) (L : List ε) (k : Nat) : Prop :=
  k = 0 ∨ ∃ T i, Committed tm g T i ∧ T ≤ t ∧ k ≤ i ∧ L.take k = (g.termLog T).take k

inductive Move [DecidableEq ι] (g : State ι ε) : State ι ε → Prop
  | advance (v : ι) (t : Nat) (hterm : g.term v ≤ t) : Move g (g.advance v t)
  | stand (c : ι) : Move g (g.stand c)
  | grant (v c : ι) (L : List ε) (hfree : g.vote v (g.term v) = none)
      (hsto : g.stood c (g.term v) = some L) (hdate : UpToDate tm L (g.log v)) :
      Move g (g.grant v c)
  | elect (c : ι) (Q : Finset ι) (hnone : g.leader (g.term c) = none)
      (hsto : g.stood c (g.term c) = some (g.log c)) (hQ : Majority Q)
      (hvs : ∀ v ∈ Q, g.vote v (g.term c) = some c) : Move g (g.elect c)
  | append (c : ι) (e : ε) (hlea : g.leader (g.term c) = some c)
      (hterm : tm e = g.term c) : Move g (g.append c e)
  | confirm (v : ι) (m : Nat) (hled : g.leader (g.term v) ≠ none)
      (hm : m ≤ (g.termLog (g.term v)).length)
      (hlog : (g.log v).take m = (g.termLog (g.term v)).take m) : Move g (g.confirm v m)
  | replace (v : ι) (m x : Nat) (hother : g.leader (g.term v) ≠ some v) (hx : x < m)
      (hm : m ≤ (g.termLog (g.term v)).length)
      (hdiff : (g.log v)[x]? ≠ (g.termLog (g.term v))[x]?) : Move g (g.replace v m)
  | learn (v : ι) (k : Nat) (hmono : g.commit v ≤ k)
      (hk : CommittedPrefix tm g (g.term v) (g.log v) k) : Move g (g.learn v k)

def Moves [DecidableEq ι] : State ι ε → State ι ε → Prop := Relation.ReflTransGen (Move tm)

structure Grows (g g' : State ι ε) : Prop where
  term_le : ∀ v, g.term v ≤ g'.term v
  termLog : Extends g.termLog g'.termLog
  leader : ∀ t c, g.leader t = some c → g'.leader t = some c
  stood : ∀ c t L, g.stood c t = some L → g'.stood c t = some L
  vote : ∀ v t c, g.vote v t = some c → g'.vote v t = some c
  ack_le : ∀ v t, g.ack v t ≤ g'.ack v t

omit [Fintype ι] in
theorem Grows.refl (g : State ι ε) : Grows g g :=
  ⟨fun _ => le_rfl, Extends.refl _, fun _ _ h => h, fun _ _ _ h => h, fun _ _ _ h => h,
    fun _ _ => le_rfl⟩

omit [Fintype ι] in
theorem Grows.trans {g₁ g₂ g₃ : State ι ε} (h₁₂ : Grows g₁ g₂) (h₂₃ : Grows g₂ g₃) :
    Grows g₁ g₃ where
  term_le v := (h₁₂.term_le v).trans (h₂₃.term_le v)
  termLog := h₁₂.termLog.trans h₂₃.termLog
  leader t c h := h₂₃.leader t c (h₁₂.leader t c h)
  stood c t L h := h₂₃.stood c t L (h₁₂.stood c t L h)
  vote v t c h := h₂₃.vote v t c (h₁₂.vote v t c h)
  ack_le v t := (h₁₂.ack_le v t).trans (h₂₃.ack_le v t)

variable {tm}

variable {g g' : State ι ε}

omit [Fintype ι] in
theorem Grows.marked (h : Grows g g') {T : Nat} (hk : Marked tm g T k) : Marked tm g' T k := by
  obtain ⟨hpos, hlen, hterm⟩ := hk
  have htake := h.termLog.take (t := T) hlen
  refine ⟨hpos, hlen.trans (h.termLog T).length_le, ?_⟩
  rw [termAt_eq_of_take_eq tm htake le_rfl, hterm]

theorem Grows.committed (h : Grows g g') {T : Nat} (hk : Committed tm g T k) :
    Committed tm g' T k := by
  obtain ⟨hmark, Q, hQ, hack⟩ := hk
  exact ⟨h.marked hmark, Q, hQ, fun v hv => (hack v hv).trans (h.ack_le v T)⟩

variable {L : List ε}

theorem Grows.committedPrefix (h : Grows g g') {t' : Nat} (ht : t ≤ t')
    (hk : CommittedPrefix tm g t L k) : CommittedPrefix tm g' t' L k := by
  rcases hk with hzero | ⟨T, i, hcom, hT, hki, htake⟩
  · exact Or.inl hzero
  · have hlen : k ≤ (g.termLog T).length := hki.trans hcom.1.2.1
    exact Or.inr ⟨T, i, h.committed hcom, hT.trans ht, hki, by rw [htake, h.termLog.take hlen]⟩

section

variable (h : CommittedPrefix tm g t L k)

include h

theorem CommittedPrefix.congr {M : List ε}
    (hLM : L.take k = M.take k) : CommittedPrefix tm g t M k := by
  rcases h with hzero | ⟨T, i, hcom, hT, hki, htake⟩
  · exact Or.inl hzero
  · exact Or.inr ⟨T, i, hcom, hT, hki, hLM ▸ htake⟩

theorem CommittedPrefix.le {j : Nat} (hjk : j ≤ k) :
    CommittedPrefix tm g t L j := by
  rcases h with hzero | ⟨T, i, hcom, hT, hki, htake⟩
  · exact Or.inl (by omega)
  · exact Or.inr ⟨T, i, hcom, hT, hjk.trans hki, take_eq_of_take_eq htake hjk⟩

theorem CommittedPrefix.le_length : k ≤ L.length := by
  rcases h with rfl | ⟨T, i, hcom, _, hki, htake⟩
  · exact Nat.zero_le _
  · exact le_length_of_take_eq htake.symm (hki.trans hcom.1.2.1)

end

theorem Committed.choosable {T : Nat} (h : Committed tm g T k) : Choosable tm g T k := by
  obtain ⟨hmark, Q, hQ, hack⟩ := h
  exact ⟨hmark, Q, hQ, fun v hv => Or.inl (hack v hv)⟩

end OrbisKV.Lib.Consensus
