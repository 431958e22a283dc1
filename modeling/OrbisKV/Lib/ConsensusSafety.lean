import OrbisKV.Lib.Consensus
/-!
# Safety of the abstract replicated log

The invariant of `OrbisKV.Lib.Consensus` and its preservation, one lemma a move.
-/

namespace OrbisKV.Lib.Consensus

open Function List

variable {T k T' t m x : Nat}

open TermLog

variable {ι ε : Type*} [Fintype ι] {tm : ε → Nat}

/-- Logs, votes and acknowledgements of one state fit together. -/
structure Shape (tm : ε → Nat) (g : State ι ε) : Prop where
  log_grown : ∀ v, Grown tm g.termLog (g.log v)
  termLog_grown : ∀ t, Grown tm g.termLog (g.termLog t)
  stood_grown : ∀ c t L, g.stood c t = some L → Grown tm g.termLog L
  log_term : ∀ v, ∀ e ∈ g.log v, tm e ≤ g.term v
  termLog_term : ∀ t, ∀ e ∈ g.termLog t, tm e ≤ t
  stood_entry : ∀ c t L, g.stood c t = some L → ∀ e ∈ L, tm e < t
  termLog_sorted : ∀ t, (g.termLog t).Pairwise fun a b => tm a ≤ tm b
  termLog_led : ∀ t, g.leader t = none → g.termLog t = []
  stood_pos : ∀ c t L, g.stood c t = some L → 0 < t
  stood_term : ∀ c t L, g.stood c t = some L → t ≤ g.term c
  vote_term : ∀ v t c, g.vote v t = some c → t ≤ g.term v
  vote_stood : ∀ v t c, g.vote v t = some c → ∃ L, g.stood c t = some L
  elected : ∀ t c, g.leader t = some c → ∃ Q : Finset ι, Majority Q ∧ ∀ v ∈ Q, g.vote v t = some c
  leader_term : ∀ t c, g.leader t = some c → 0 < t ∧ t ≤ g.term c
  leader_log : ∀ c, g.leader (g.term c) = some c → g.log c = g.termLog (g.term c)
  leader_ack : ∀ t c, g.leader t = some c → g.ack c t = (g.termLog t).length
  ack_le : ∀ v t, g.ack v t ≤ (g.termLog t).length
  ack_term : ∀ v t, 0 < g.ack v t → t ≤ g.term v
  ack_log : ∀ v, (g.log v).take (g.ack v (g.term v)) =
    (g.termLog (g.term v)).take (g.ack v (g.term v))

/-- Choosable prefixes survive elections, and what nodes learned is committed. -/
structure Safe (tm : ε → Nat) (g : State ι ε) : Prop where
  complete : ∀ T T' k, Choosable tm g T k → T < T' → g.leader T' ≠ none →
    (g.termLog T').take k = (g.termLog T).take k
  retained : ∀ v T k, Choosable tm g T k → k ≤ g.ack v T → (g.log v).take k = (g.termLog T).take k
  carried : ∀ v c T T' k L, Choosable tm g T k → T < T' → g.vote v T' = some c →
    g.stood c T' = some L → k ≤ g.ack v T → L.take k = (g.termLog T).take k
  learned : ∀ v, CommittedPrefix tm g (g.term v) (g.log v) (g.commit v)

structure Inv (tm : ε → Nat) (g : State ι ε) : Prop extends Shape tm g, Safe tm g

def State.start (ι ε : Type*) : State ι ε where
  term _ := 0
  log _ := []
  commit _ := 0
  termLog _ := []
  leader _ := none
  stood _ _ := none
  vote _ _ := none
  ack _ _ := 0

variable {g : State ι ε}

theorem not_choosable_of_nil (h : g.termLog T = []) : ¬ Choosable tm g T k := by
  rintro ⟨⟨hpos, hlen, _⟩, _⟩
  rw [h, length_nil] at hlen
  omega

theorem Inv.start : Inv tm (State.start ι ε) where
  log_grown _ := Grown.nil _
  termLog_grown _ := Grown.nil _
  stood_grown _ _ _ h := by cases h
  log_term _ _ h := by cases h
  termLog_term _ _ h := by cases h
  stood_entry _ _ _ h := by cases h
  termLog_sorted _ := List.Pairwise.nil
  termLog_led _ _ := rfl
  stood_pos _ _ _ h := by cases h
  stood_term _ _ _ h := by cases h
  vote_term _ _ _ h := by cases h
  vote_stood _ _ _ h := by cases h
  elected _ _ h := by cases h
  leader_term _ _ h := by cases h
  leader_log _ h := by cases h
  leader_ack _ _ h := by cases h
  ack_le _ _ := Nat.zero_le _
  ack_term _ _ h := absurd h (Nat.lt_irrefl 0)
  ack_log _ := rfl
  complete _ _ _ h := absurd h (not_choosable_of_nil rfl)
  retained _ _ _ h := absurd h (not_choosable_of_nil rfl)
  carried _ _ _ _ _ _ h := absurd h (not_choosable_of_nil rfl)
  learned _ := .inl rfl

/-! ## Consequences of the invariant -/

variable {g' : State ι ε}

section

variable (hgrow : Grows g g') (hack : ∀ v t, g'.ack v t = g.ack v t ∨ t = g.term v)

include hgrow hack

theorem Choosable.back
    (hlen : k ≤ (g.termLog T).length) (h : Choosable tm g' T k) : Choosable tm g T k := by
  obtain ⟨⟨hpos, _, hterm⟩, Q, hQ, hmem⟩ := h
  have htake := hgrow.termLog.take (t := T) hlen
  refine ⟨⟨hpos, hlen, ?_⟩, Q, hQ, ?_⟩
  · rw [← termAt_eq_of_take_eq tm htake le_rfl, hterm]
  · intro v hv
    rcases hmem v hv with hk | hle
    · rcases hack v T with heq | heq
      · exact .inl (heq ▸ hk)
      · exact .inr heq.ge
    · exact .inr ((hgrow.term_le v).trans hle)

theorem Choosable.back_of_eq (hlog : g'.termLog T = g.termLog T)
    (h : Choosable tm g' T k) : Choosable tm g T k :=
  h.back hgrow hack (hlog ▸ h.1.2.1)

end

theorem Shape.choosable_led (hg : Shape tm g) (h : Choosable tm g T k) : 0 < T := by
  rcases hlead : g.leader T with _ | c
  · exact absurd h (not_choosable_of_nil (hg.termLog_led T hlead))
  · exact (hg.leader_term T c hlead).1

variable {c : ι}

theorem Choosable.acked_of_elected [DecidableEq ι] (hg : Shape tm g) {Q : Finset ι}
    (h : Choosable tm g T k) (hlt : T < T') (hQ : Majority Q)
    (hvs : ∀ v ∈ Q, g.vote v T' = some c) : ∃ v ∈ Q, k ≤ g.ack v T := by
  obtain ⟨_, P, hP, hmem⟩ := h
  obtain ⟨v, hvP, hvQ⟩ := hP.meet hQ
  refine ⟨v, hvQ, ?_⟩
  have hterm := hg.vote_term v T' c (hvs v hvQ)
  rcases hmem v hvP with hk | hle
  · exact hk
  · omega

variable {L : List ε}

theorem Shape.log_sorted (hg : Shape tm g) (h : Grown tm g.termLog L) :
    L.Pairwise fun a b => tm a ≤ tm b := by
  by_cases hne : L = []
  · subst hne
    exact List.Pairwise.nil
  · exact (hg.termLog_sorted _).sublist (h.prefix_lastTerm hne).sublist

variable {M : List ε}

/-- A log at least as up to date as one that holds a choosable prefix holds it too,
provided the leaders of the terms in between do. -/
theorem Inv.upToDate_take (hg : Inv tm g) (hk : Choosable tm g T k) (hL : Grown tm g.termLog L)
    (hM : Grown tm g.termLog M) (hLT : ∀ e ∈ L, tm e < T') (hdate : UpToDate tm L M)
    (htake : M.take k = (g.termLog T).take k) : L.take k = (g.termLog T).take k := by
  obtain ⟨hpos, hlen, hterm⟩ := hk.1
  have hTpos := hg.choosable_led hk
  have hkM : k ≤ M.length := le_length_of_take_eq htake.symm hlen
  have hMlast : T ≤ lastTerm tm M := by
    have := termAt_le_lastTerm tm (hg.log_sorted hM) hkM
    rwa [termAt_eq_of_take_eq tm htake le_rfl, hterm] at this
  simp only [UpToDate, not_or, not_and, not_lt] at hdate
  obtain ⟨hle, hsame⟩ := hdate
  have hLne : L ≠ [] := by
    rintro rfl
    rw [lastTerm_nil] at hle
    omega
  have hpre := hL.prefix_lastTerm hLne
  rcases Nat.lt_or_ge T (lastTerm tm L) with hlt | hge
  · -- the last entry of `L` is later than `T`, so its leader already had the prefix
    have hled : g.leader (lastTerm tm L) ≠ none := by
      intro hnone
      rw [hg.termLog_led _ hnone] at hpre
      exact hLne (prefix_nil.mp hpre)
    have hcomp := hg.complete T _ k hk hlt hled
    have hkL : k < L.length := by
      by_contra hshort
      have hterms : lastTerm tm L ≤ T := by
        have heq : termAt tm L L.length = termAt tm (g.termLog T) L.length := by
          rw [← termAt_eq_of_take_eq tm hcomp (by omega)]
          exact (termAt_eq_of_take_eq tm (take_eq_of_isPrefix hpre le_rfl) le_rfl).symm
        rw [lastTerm, heq]
        exact termAt_le_of_forall tm (hg.termLog_term T) _
      omega
    rw [← take_eq_of_isPrefix hpre hkL.le, hcomp]
  · have hLT' : lastTerm tm L = T := by omega
    have hML : M.length ≤ L.length := hsame (by omega)
    rw [hLT'] at hpre
    exact (take_eq_of_isPrefix hpre (hkM.trans hML)).symm

theorem Inv.committed_take (hg : Inv tm g) {i i' : Nat} (h : Committed tm g T i)
    (h' : Committed tm g T' i') (hk : k ≤ i) (hk' : k ≤ i') :
    (g.termLog T).take k = (g.termLog T').take k := by
  have hled : ∀ {T i}, Committed tm g T i → g.leader T ≠ none := by
    intro T i hc hnone
    exact not_choosable_of_nil (hg.termLog_led T hnone) hc.choosable
  rcases Nat.lt_trichotomy T T' with hlt | rfl | hlt
  · exact (take_eq_of_take_eq (hg.complete T T' i h.choosable hlt (hled h')) hk).symm
  · rfl
  · exact take_eq_of_take_eq (hg.complete T' T i' h'.choosable hlt (hled h)) hk'

theorem committed_agree (hg : Inv tm g) {t' : Nat} (hL : CommittedPrefix tm g t L k)
    (hM : CommittedPrefix tm g t' M k) : L.take k = M.take k := by
  rcases hL with rfl | ⟨T, i, hc, _, hki, htake⟩
  · simp
  · rcases hM with rfl | ⟨T', i', hc', _, hki', htake'⟩
    · simp
    · rw [htake, htake', hg.committed_take hc hc' hki hki']

theorem Inv.leader_complete (hg : Inv tm g) (hled : g.leader (g.term c) = some c)
    (h : CommittedPrefix tm g t L k) (ht : t ≤ g.term c) :
    CommittedPrefix tm g (g.term c) (g.log c) k := by
  rcases h with rfl | ⟨T, i, hc, hT, hki, -⟩
  · exact .inl rfl
  · refine .inr ⟨T, i, hc, hT.trans ht, hki, ?_⟩
    rw [hg.leader_log c hled]
    rcases Nat.lt_or_eq_of_le (hT.trans ht) with hlt | rfl
    · exact take_eq_of_take_eq (hg.complete T _ i hc.choosable hlt (by simp [hled])) hki
    · rfl

/-! ## Moves that leave the term logs alone -/

variable {v : ι}

variable [DecidableEq ι]

omit [Fintype ι] in
theorem Shape.grows_advance (ht : g.term v ≤ t) : Grows g (g.advance v t) :=
  { Grows.refl g with
    term_le := forall_update (P := fun w t => g.term w ≤ t) ht fun _ _ => le_rfl }

theorem Inv.advance (hg : Inv tm g) (ht : g.term v ≤ t) : Inv tm (g.advance v t) := by
  have hgrow := Shape.grows_advance ht
  have hle := hgrow.term_le
  have hback : ∀ {T k}, Choosable tm (g.advance v t) T k → Choosable tm g T k :=
    fun h => h.back_of_eq hgrow (fun _ _ => .inl rfl) rfl
  -- a node that reaches a new term has neither led nor acknowledged in it
  have hsame : ∀ w, (g.advance v t).term w = g.term w ∨ (g.term w < (g.advance v t).term w) := by
    intro w
    have := hle w
    omega
  refine { hg with
    log_term := fun w e he => (hg.log_term w e he).trans (hle w)
    stood_term := fun c s L h => (hg.stood_term c s L h).trans (hle c)
    vote_term := fun w s c h => (hg.vote_term w s c h).trans (hle w)
    leader_term := fun s c h => ⟨(hg.leader_term s c h).1, (hg.leader_term s c h).2.trans (hle c)⟩
    leader_log := ?_
    ack_term := fun w s h => (hg.ack_term w s h).trans (hle w)
    ack_log := ?_
    complete := fun T T' k h => hg.complete T T' k (hback h)
    retained := fun w T k h => hg.retained w T k (hback h)
    carried := fun w c T T' k L h => hg.carried w c T T' k L (hback h)
    learned := fun w => hgrow.committedPrefix (hle w) (hg.learned w) }
  · intro c hc
    rcases hsame c with heq | hlt
    · rw [heq] at hc ⊢
      exact hg.leader_log c hc
    · have := (hg.leader_term _ c hc).2
      omega
  · intro w
    rcases hsame w with heq | hlt
    · rw [heq]
      exact hg.ack_log w
    · have hzero : (g.advance v t).ack w ((g.advance v t).term w) = 0 := by
        by_contra hne
        have := hg.ack_term w _ (Nat.pos_of_ne_zero hne)
        omega
      rw [hzero, take_zero, take_zero]

theorem Shape.grows_stand (hg : Shape tm g) (c : ι) : Grows g (g.stand c) :=
  { Grows.refl g with
    term_le := forall_update (P := fun w t => g.term w ≤ t) (Nat.le_succ _) fun _ _ => le_rfl
    stood := forall_set2 (P := fun v t o => ∀ L, g.stood v t = some L → o = some L)
      (fun L h => absurd (hg.stood_term _ _ L h) (by omega)) fun _ _ _ h => h
    vote := forall_set2 (P := fun v t o => ∀ w, g.vote v t = some w → o = some w)
      (fun w h => absurd (hg.vote_term _ _ w h) (by omega)) fun _ _ _ h => h }

omit [Fintype ι] in
theorem Shape.stand_cases (c : ι) :
    (v = c ∧ t = g.term c + 1 ∧ (g.stand c).stood v t = some (g.log c) ∧
      (g.stand c).vote v t = some c) ∨
    ((g.stand c).stood v t = g.stood v t ∧ (g.stand c).vote v t = g.vote v t) := by
  by_cases h : v = c ∧ t = g.term c + 1
  · obtain ⟨rfl, rfl⟩ := h
    exact .inl ⟨rfl, rfl, by simp [State.stand], by simp [State.stand]⟩
  · exact .inr ⟨by simp [State.stand, set2_of_ne h], by simp [State.stand, set2_of_ne h]⟩

theorem Inv.stand (hg : Inv tm g) (c : ι) : Inv tm (g.stand c) := by
  have hgrow := hg.toShape.grows_stand c
  have hadv : Inv tm (g.advance c (g.term c + 1)) := hg.advance (Nat.le_succ _)
  have hterm : (g.stand c).term c = g.term c + 1 := update_self ..
  have hback : ∀ {T k}, Choosable tm (g.stand c) T k → Choosable tm g T k :=
    fun h => h.back_of_eq hgrow (fun _ _ => .inl rfl) rfl
  refine { hadv with
    stood_grown := forall_set2 (P := fun _ _ o => ∀ L, o = some L → Grown tm g.termLog L)
      (by rintro _ ⟨⟩; exact hg.log_grown c) hg.stood_grown
    stood_entry := forall_set2 (P := fun _ t o => ∀ L, o = some L → ∀ e ∈ L, tm e < t)
      (by rintro _ ⟨⟩ e he; exact Nat.lt_succ_of_le (hg.log_term c e he)) hg.stood_entry
    stood_pos := forall_set2 (P := fun _ t o => ∀ L, o = some L → 0 < t)
      (fun _ _ => Nat.succ_pos _) hg.stood_pos
    stood_term := forall_set2 (P := fun v t o => ∀ L, o = some L → t ≤ (g.stand c).term v)
      (fun _ _ => hterm.ge) fun v t L h => (hg.stood_term v t L h).trans (hgrow.term_le v)
    vote_term := forall_set2 (P := fun v t o => ∀ w, o = some w → t ≤ (g.stand c).term v)
      (fun _ _ => hterm.ge) fun v t w h => (hg.vote_term v t w h).trans (hgrow.term_le v)
    vote_stood := forall_set2
      (P := fun _ t o => ∀ w, o = some w → ∃ L, (g.stand c).stood w t = some L) ?_ ?_
    elected := ?_
    carried := ?_
    retained := fun w T k h => hg.retained w T k (hback h)
    complete := fun T T' k h => hg.complete T T' k (hback h)
    learned := fun w => hgrow.committedPrefix (hgrow.term_le w) (hg.learned w) }
  · rintro _ ⟨⟩
    exact ⟨_, set2_self _ _ _ _⟩
  · intro v t w h
    obtain ⟨L, hL⟩ := hg.vote_stood v t w h
    exact ⟨L, hgrow.stood w t L hL⟩
  · intro t w h
    obtain ⟨Q, hQ, hvs⟩ := hg.elected t w h
    exact ⟨Q, hQ, fun v hv => hgrow.vote v t w (hvs v hv)⟩
  · intro v w T T' k L hk hlt hvote hsto hack
    rcases Shape.stand_cases (g := g) c (v := v) (t := T') with ⟨hv, ht, hs, hw⟩ | ⟨_, hw⟩
    · -- the new candidate's own vote: it stands with the log it holds
      rw [hw] at hvote
      cases hvote
      subst hv
      rw [hs] at hsto
      cases hsto
      exact hg.retained v T k (hback hk) hack
    · rw [hw] at hvote
      obtain ⟨M, hM⟩ := hg.vote_stood v T' w hvote
      have hML := hgrow.stood w T' M hM
      rw [hsto] at hML
      cases hML
      exact hg.carried v w T T' k _ (hback hk) hlt hvote hM hack

omit [Fintype ι] in
theorem Shape.grows_grant (hfree : g.vote v (g.term v) = none) : Grows g (g.grant v c) :=
  { Grows.refl g with
    vote := forall_set2 (P := fun v t o => ∀ w, g.vote v t = some w → o = some w)
      (fun w h => by rw [hfree] at h; cases h) fun _ _ _ h => h }

theorem Inv.grant (hg : Inv tm g) (hfree : g.vote v (g.term v) = none)
    (hsto : g.stood c (g.term v) = some L) (hdate : UpToDate tm L (g.log v)) :
    Inv tm (g.grant v c) := by
  have hgrow := Shape.grows_grant (c := c) hfree
  have hback : ∀ {T k}, Choosable tm (g.grant v c) T k → Choosable tm g T k :=
    fun h => h.back_of_eq hgrow (fun _ _ => .inl rfl) rfl
  refine { hg with
    vote_term := forall_set2 (P := fun w t o => ∀ d, o = some d → t ≤ g.term w)
      (fun _ _ => le_rfl) hg.vote_term
    vote_stood := forall_set2 (P := fun _ t o => ∀ d, o = some d → ∃ L, g.stood d t = some L)
      (by rintro _ ⟨⟩; exact ⟨L, hsto⟩) hg.vote_stood
    elected := ?_
    carried := fun w d T T' => forall_set2
      (P := fun w T' o => ∀ d T k M, Choosable tm (g.grant v c) T k → T < T' → o = some d →
        g.stood d T' = some M → k ≤ g.ack w T → M.take k = (g.termLog T).take k)
      ?_ (fun w T' d T k M hk => hg.carried w d T T' k M (hback hk)) w T' d T
    retained := fun w T k h => hg.retained w T k (hback h)
    complete := fun T T' k h => hg.complete T T' k (hback h)
    learned := fun w => hgrow.committedPrefix le_rfl (hg.learned w) }
  · intro t d h
    obtain ⟨Q, hQ, hvs⟩ := hg.elected t d h
    exact ⟨Q, hQ, fun w hw => hgrow.vote w t d (hvs w hw)⟩
  · -- the new vote: the candidate's log is at least as up to date as the voter's
    rintro _ T k M hk hlt ⟨⟩ hM hack
    have hML : M = L := Option.some.inj (hM.symm.trans hsto)
    subst hML
    exact hg.upToDate_take (hback hk) (hg.stood_grown c _ M hsto) (hg.log_grown v)
      (hg.stood_entry c _ M hsto) hdate (hg.retained v T k (hback hk) hack)

theorem Inv.learn (hg : Inv tm g)
    (hk : CommittedPrefix tm g (g.term v) (g.log v) k) : Inv tm (g.learn v k) := by
  have hgrow : Grows g (g.learn v k) := { Grows.refl g with }
  exact { hg with
    learned := forall_update
      (P := fun w k' => CommittedPrefix tm (g.learn v k) (g.term w) (g.log w) k')
      (hgrow.committedPrefix le_rfl hk) fun w _ => hgrow.committedPrefix le_rfl (hg.learned w) }

/-! ## Acknowledgements -/

omit [Fintype ι] in
theorem State.set2_ack (g : State ι ε) (v : ι) (m : Nat) (w : ι) (t : Nat) :
    set2 g.ack v (g.term v) m w t = g.ack w t ∨ t = g.term w :=
  forall_set2 (P := fun w t k => k = g.ack w t ∨ t = g.term w) (.inr rfl) (fun _ _ => .inl rfl) w t

theorem Shape.ack_of_voted (hg : Shape tm g) {w : ι} (hlt : T < T')
    (hvote : g.vote w T' = some c) : set2 g.ack v (g.term v) m w T = g.ack w T := by
  rcases g.set2_ack v m w T with heq | rfl
  · exact heq
  · have := hg.vote_term w T' c hvote
    omega

theorem Shape.ack_term_set2 (hg : Shape tm g) (v : ι) (m : Nat) :
    ∀ w t, 0 < set2 g.ack v (g.term v) m w t → t ≤ g.term w :=
  forall_set2 (P := fun w t k => 0 < k → t ≤ g.term w) (fun _ => le_rfl) hg.ack_term

omit [Fintype ι] in
theorem Shape.grows_confirm (g : State ι ε) (v : ι) (m : Nat) : Grows g (g.confirm v m) :=
  { Grows.refl g with
    ack_le := forall_set2 (P := fun w t k => g.ack w t ≤ k) (le_max_left _ _) fun _ _ => le_rfl }

theorem Inv.confirm (hg : Inv tm g) (hm : m ≤ (g.termLog (g.term v)).length)
    (hlog : (g.log v).take m = (g.termLog (g.term v)).take m) : Inv tm (g.confirm v m) := by
  have hgrow := Shape.grows_confirm g v m
  have hback : ∀ {T k}, Choosable tm (g.confirm v m) T k → Choosable tm g T k :=
    fun h => h.back_of_eq hgrow (g.set2_ack v _) rfl
  have hmax : (g.log v).take (max (g.ack v (g.term v)) m) =
      (g.termLog (g.term v)).take (max (g.ack v (g.term v)) m) := by
    rcases le_total (g.ack v (g.term v)) m with hle | hle
    · rw [max_eq_right hle, hlog]
    · rw [max_eq_left hle, hg.ack_log v]
  exact { hg with
    leader_ack := fun t c => forall_set2
      (P := fun c t k => g.leader t = some c → k = (g.termLog t).length)
      (fun h => (hg.leader_ack _ v h).symm ▸ max_eq_left hm) (fun c t => hg.leader_ack t c) c t
    ack_le := forall_set2 (P := fun _ t k => k ≤ (g.termLog t).length)
      (max_le (hg.ack_le v _) hm) hg.ack_le
    ack_term := hg.ack_term_set2 v _
    ack_log := fun w => forall_set2
      (P := fun w t k => t = g.term w → (g.log w).take k = (g.termLog t).take k)
      (fun _ => hmax) (fun w t ht => ht ▸ hg.ack_log w) w _ rfl
    complete := fun T T' k h => hg.complete T T' k (hback h)
    retained := fun w T => forall_set2
      (P := fun w T a => ∀ k, Choosable tm (g.confirm v m) T k → k ≤ a →
        (g.log w).take k = (g.termLog T).take k)
      (fun _ _ hk => take_eq_of_take_eq hmax hk)
      (fun w T k hk => hg.retained w T k (hback hk)) w T
    carried := fun w c T T' k L hk hlt hvote hsto hack =>
      hg.carried w c T T' k L (hback hk) hlt hvote hsto (hg.ack_of_voted hlt hvote ▸ hack)
    learned := fun w => hgrow.committedPrefix le_rfl (hg.learned w) }

omit [Fintype ι] in
@[simp] theorem State.replace_log_self (g : State ι ε) (v : ι) (m : Nat) :
    (g.replace v m).log v = (g.termLog (g.term v)).take m := by
  simp [State.replace]

theorem le_of_take_eq_of_ne (h : L.take k = M.take k) (hdiff : L[x]? ≠ M[x]?) : k ≤ x := by
  by_contra hlt
  exact hdiff (getElem?_eq_of_take_eq h (by omega))

theorem Shape.grows_replace (hg : Shape tm g) (hx : x < m)
    (hdiff : (g.log v)[x]? ≠ (g.termLog (g.term v))[x]?) : Grows g (g.replace v m) :=
  { Grows.refl g with
    ack_le := forall_set2 (P := fun w t k => g.ack w t ≤ k)
      ((le_of_take_eq_of_ne (hg.ack_log v) hdiff).trans hx.le) fun _ _ => le_rfl }

omit [DecidableEq ι] in
theorem Inv.replace_take (hg : Inv tm g) (hx : x < m) (hm : m ≤ (g.termLog (g.term v)).length)
    (hdiff : (g.log v)[x]? ≠ (g.termLog (g.term v))[x]?) (hk : Choosable tm g T k)
    (hT : T ≤ g.term v) {j : Nat} (hj : j ≤ k) (htake : (g.log v).take j = (g.termLog T).take j) :
    ((g.termLog (g.term v)).take m).take j = (g.termLog T).take j := by
  have hcomp : (g.termLog (g.term v)).take j = (g.termLog T).take j := by
    rcases Nat.lt_or_ge T (g.term v) with hlt | hge
    · have hled : g.leader (g.term v) ≠ none := by
        intro hnone
        rw [hg.termLog_led _ hnone, length_nil] at hm
        omega
      exact take_eq_of_take_eq (hg.complete T _ k hk hlt hled) hj
    · rw [Nat.le_antisymm hT hge]
  have hjx : j ≤ x := le_of_take_eq_of_ne (htake.trans hcomp.symm) hdiff
  rw [take_take, Nat.min_eq_left (by omega), hcomp]

theorem Inv.replace (hg : Inv tm g) (hother : g.leader (g.term v) ≠ some v)
    (hx : x < m) (hm : m ≤ (g.termLog (g.term v)).length)
    (hdiff : (g.log v)[x]? ≠ (g.termLog (g.term v))[x]?) : Inv tm (g.replace v m) := by
  have hgrow := hg.toShape.grows_replace hx hdiff
  have hback : ∀ {T k}, Choosable tm (g.replace v m) T k → Choosable tm g T k :=
    fun h => h.back_of_eq hgrow (g.set2_ack v _) rfl
  refine { hg with
    log_grown := forall_update (P := fun _ L => Grown tm g.termLog L)
      ((hg.termLog_grown _).take m) fun w _ => hg.log_grown w
    log_term := forall_update (P := fun w L => ∀ e ∈ L, tm e ≤ g.term w)
      (fun e he => hg.termLog_term _ e (mem_of_mem_take he)) fun w _ => hg.log_term w
    leader_log := forall_update
      (P := fun c L => g.leader (g.term c) = some c → L = g.termLog (g.term c))
      (fun hc => absurd hc hother) fun w _ => hg.leader_log w
    leader_ack := fun t c => forall_set2
      (P := fun c t k => g.leader t = some c → k = (g.termLog t).length)
      (fun h => absurd h hother) (fun c t => hg.leader_ack t c) c t
    ack_le := forall_set2 (P := fun _ t k => k ≤ (g.termLog t).length) hm hg.ack_le
    ack_term := hg.ack_term_set2 v _
    ack_log := ?_
    complete := fun T T' k h => hg.complete T T' k (hback h)
    retained := ?_
    carried := fun w c T T' k L hk hlt hvote hsto hack =>
      hg.carried w c T T' k L (hback hk) hlt hvote hsto (hg.ack_of_voted hlt hvote ▸ hack)
    learned := forall_update
      (P := fun w L => CommittedPrefix tm (g.replace v m) (g.term w) L (g.commit w)) ?_
      fun w _ => hgrow.committedPrefix le_rfl (hg.learned w) }
  · intro w
    change (update g.log v _ w).take (set2 g.ack v (g.term v) m w (g.term w)) =
      (g.termLog (g.term w)).take (set2 g.ack v (g.term v) m w (g.term w))
    by_cases hw : w = v
    · subst hw
      rw [update_self, set2_self, take_take, Nat.min_self]
    · rw [update_of_ne hw, set2_of_ne fun h => hw h.1, hg.ack_log w]
  · intro w T k hk hack
    change (update g.log v _ w).take k = (g.termLog T).take k
    change k ≤ set2 g.ack v (g.term v) m w T at hack
    by_cases hw : w = v
    · subst hw
      rw [update_self]
      by_cases hT : T = g.term w
      · subst hT
        rw [set2_self] at hack
        rw [take_take, Nat.min_eq_left hack]
      · rw [set2_of_ne fun h => hT h.2] at hack
        have hle := hg.ack_term w T (lt_of_lt_of_le hk.1.1 hack)
        exact hg.replace_take hx hm hdiff (hback hk) hle le_rfl (hg.retained w T k (hback hk) hack)
    · rw [set2_of_ne fun h => hw h.1] at hack
      rw [update_of_ne hw]
      exact hg.retained w T k (hback hk) hack
  · rcases hg.learned v with hzero | ⟨T, i, hcom, hT, hki, htake⟩
    · exact .inl hzero
    · exact .inr ⟨T, i, hgrow.committed hcom, hT, hki,
        hg.replace_take hx hm hdiff hcom.choosable hT hki htake⟩

/-! ## Elections -/

section

omit [Fintype ι]

@[simp] theorem State.elect_termLog_self (g : State ι ε) (c : ι) :
    (g.elect c).termLog (g.term c) = g.log c := by
  simp [State.elect]

theorem State.elect_termLog_of_ne (g : State ι ε) (c : ι) (h : t ≠ g.term c) :
    (g.elect c).termLog t = g.termLog t := by
  simp [State.elect, update_of_ne h]

@[simp] theorem State.elect_leader_self (g : State ι ε) (c : ι) :
    (g.elect c).leader (g.term c) = some c := by
  simp [State.elect]

theorem State.elect_leader_of_ne (g : State ι ε) (c : ι) (h : t ≠ g.term c) :
    (g.elect c).leader t = g.leader t := by
  simp [State.elect, update_of_ne h]

end

theorem Shape.grows_elect (hg : Shape tm g) (hnone : g.leader (g.term c) = none) :
    Grows g (g.elect c) :=
  { Grows.refl g with
    termLog := Extends.update (by simp [hg.termLog_led _ hnone])
    leader := forall_update (P := fun t o => ∀ d, g.leader t = some d → o = some d)
      (fun d h => by rw [hnone] at h; cases h) fun _ _ _ h => h
    ack_le := forall_set2 (P := fun w t k => g.ack w t ≤ k)
      ((hg.ack_le c _).trans (by simp [hg.termLog_led _ hnone])) fun _ _ => le_rfl }

theorem Shape.not_choosable_elect (hg : Shape tm g)
    (hsto : g.stood c (g.term c) = some (g.log c)) : ¬ Choosable tm (g.elect c) (g.term c) k := by
  rintro ⟨⟨_, _, hterm⟩, _⟩
  rw [g.elect_termLog_self] at hterm
  have := termAt_lt_of_forall tm (hg.stood_pos c _ _ hsto) (hg.stood_entry c _ _ hsto) k
  omega

theorem Inv.elect (hg : Inv tm g) {Q : Finset ι}
    (hnone : g.leader (g.term c) = none) (hsto : g.stood c (g.term c) = some (g.log c))
    (hQ : Majority Q) (hvs : ∀ v ∈ Q, g.vote v (g.term c) = some c) : Inv tm (g.elect c) := by
  have hgrow := hg.toShape.grows_elect hnone
  have hnil := hg.termLog_led _ hnone
  have hT : ∀ {T k}, Choosable tm (g.elect c) T k → T ≠ g.term c := by
    rintro T k h rfl
    exact hg.toShape.not_choosable_elect hsto h
  have hback : ∀ {T k}, Choosable tm (g.elect c) T k → Choosable tm g T k :=
    fun h => h.back_of_eq hgrow (g.set2_ack c _) (g.elect_termLog_of_ne c (hT h))
  have hack : ∀ {T k v}, Choosable tm (g.elect c) T k → (g.elect c).ack v T = g.ack v T :=
    fun h => set2_of_ne fun hab => hT h hab.2
  refine { hg with
    log_grown := fun v => (hg.log_grown v).mono hgrow.termLog
    termLog_grown := forall_update (P := fun _ L => Grown tm (g.elect c).termLog L)
      ((hg.log_grown c).mono hgrow.termLog) fun t _ => (hg.termLog_grown t).mono hgrow.termLog
    stood_grown := fun d t L h => (hg.stood_grown d t L h).mono hgrow.termLog
    termLog_term := forall_update (P := fun t L => ∀ e ∈ L, tm e ≤ t) (hg.log_term c)
      fun t _ => hg.termLog_term t
    termLog_sorted := forall_update (P := fun _ L => List.Pairwise (fun a b => tm a ≤ tm b) L)
      (hg.log_sorted (hg.log_grown c)) fun t _ => hg.termLog_sorted t
    termLog_led := forall_update₂ (P := fun _ o L => o = none → L = [])
      nofun fun t _ => hg.termLog_led t
    elected := forall_update
      (P := fun t o => ∀ d, o = some d → ∃ Q : Finset ι, Majority Q ∧ ∀ v ∈ Q, g.vote v t = some d)
      (by rintro _ ⟨⟩; exact ⟨Q, hQ, hvs⟩) fun t _ => hg.elected t
    leader_term := forall_update (P := fun t o => ∀ d, o = some d → 0 < t ∧ t ≤ g.term d)
      (by rintro _ ⟨⟩; exact ⟨hg.stood_pos c _ _ hsto, le_rfl⟩) fun t _ => hg.leader_term t
    leader_log := fun d h => forall_update₂
      (P := fun t o L => o = some d → t = g.term d → g.log d = L)
      (by rintro ⟨⟩ _; rfl) (fun t _ h ht => ht ▸ hg.leader_log d (ht ▸ h)) (g.term d) h rfl
    leader_ack := forall_update₂
      (P := fun t o L => ∀ d, o = some d → (g.elect c).ack d t = List.length L)
      (by rintro _ ⟨⟩; exact set2_self _ _ _ _)
      fun t ht d h => (set2_of_ne fun hab => ht hab.2).trans (hg.leader_ack t d h)
    ack_le := forall_set2 (P := fun _ t k => k ≤ ((g.elect c).termLog t).length)
      (by rw [g.elect_termLog_self])
      fun v t => (hg.ack_le v t).trans (hgrow.termLog t).length_le
    ack_term := hg.ack_term_set2 c _
    ack_log := ?_
    complete := ?_
    retained := ?_
    carried := ?_
    learned := fun v => hgrow.committedPrefix le_rfl (hg.learned v) }
  · intro v
    change (g.log v).take ((g.elect c).ack v (g.term v)) =
      ((g.elect c).termLog (g.term v)).take ((g.elect c).ack v (g.term v))
    by_cases hv : v = c
    · subst hv
      rw [g.elect_termLog_self]
    · rw [show (g.elect c).ack v (g.term v) = g.ack v (g.term v) from
        set2_of_ne fun hab => hv hab.1, hgrow.termLog.take (hg.ack_le v _)]
      exact hg.ack_log v
  · intro T T' k hk hlt hled
    rw [g.elect_termLog_of_ne c (hT hk)]
    by_cases ht : T' = g.term c
    · -- the new leader: some voter acknowledged the position and carried it over
      subst ht
      rw [g.elect_termLog_self]
      obtain ⟨v, hv, hkv⟩ := (hback hk).acked_of_elected hg.toShape hlt hQ hvs
      exact hg.carried v c T _ k _ (hback hk) hlt (hvs v hv) hsto hkv
    · rw [g.elect_leader_of_ne c ht] at hled
      rw [g.elect_termLog_of_ne c ht]
      exact hg.complete T T' k (hback hk) hlt hled
  · intro v T k hk hkv
    rw [hack hk] at hkv
    rw [g.elect_termLog_of_ne c (hT hk)]
    exact hg.retained v T k (hback hk) hkv
  · intro v d T T' k L hk hlt hvote hL hkv
    rw [hack hk] at hkv
    rw [g.elect_termLog_of_ne c (hT hk)]
    exact hg.carried v d T T' k L (hback hk) hlt hvote hL hkv

/-! ## New entries -/

section

omit [Fintype ι]

@[simp] theorem State.append_termLog_self (g : State ι ε) (c : ι) (e : ε) :
    (g.append c e).termLog (g.term c) = g.log c ++ [e] := by
  simp [State.append]

theorem State.append_termLog_of_ne (g : State ι ε) (c : ι) (e : ε) (h : t ≠ g.term c) :
    (g.append c e).termLog t = g.termLog t := by
  simp [State.append, update_of_ne h]

@[simp] theorem State.append_log_self (g : State ι ε) (c : ι) (e : ε) :
    (g.append c e).log c = g.log c ++ [e] := by
  simp [State.append]

theorem State.append_log_of_ne (g : State ι ε) (e : ε) (h : v ≠ c) :
    (g.append c e).log v = g.log v := by
  simp [State.append, update_of_ne h]

end

theorem Shape.grows_append (hg : Shape tm g) (e : ε)
    (hlea : g.leader (g.term c) = some c) : Grows g (g.append c e) := by
  have hlog := hg.leader_log c hlea
  exact { Grows.refl g with
    termLog := Extends.update (hlog ▸ prefix_append _ _)
    ack_le := forall_set2 (P := fun w t k => g.ack w t ≤ k)
      (by rw [hg.leader_ack _ c hlea, hlog]; exact Nat.le_succ _) fun _ _ => le_rfl }

theorem Shape.append_ack_cases (hg : Shape tm g) {e : ε} (hk : k ≤ (g.append c e).ack v T) :
    (v = c ∧ T = g.term c) ∨ (k ≤ g.ack v T ∧ k ≤ (g.termLog T).length) := by
  by_cases h : v = c ∧ T = g.term c
  · exact .inl h
  · rw [show (g.append c e).ack v T = g.ack v T from set2_of_ne h] at hk
    exact .inr ⟨hk, hk.trans (hg.ack_le v T)⟩

theorem Inv.append (hg : Inv tm g) {e : ε} (hlea : g.leader (g.term c) = some c)
    (hterm : tm e = g.term c) : Inv tm (g.append c e) := by
  have hgrow := hg.toShape.grows_append e hlea
  have hlog := hg.leader_log c hlea
  have hterms : ∀ d ∈ g.log c ++ [e], tm d ≤ g.term c := by
    intro d hd
    rw [mem_append, mem_singleton] at hd
    rcases hd with hd | rfl
    · exact hg.log_term c d hd
    · exact hterm.le
  have hnew : Grown tm (g.append c e).termLog (g.log c ++ [e]) := by
    rw [State.append, hlog]
    exact (hg.termLog_grown _).append hterm
  have hback : ∀ {T k}, k ≤ (g.termLog T).length → Choosable tm (g.append c e) T k →
      Choosable tm g T k := fun hlen h => h.back hgrow (g.set2_ack c _) hlen
  -- a node past the leader's term cannot have acknowledged the new entry
  have hpast : ∀ {v T k}, T < g.term v → k ≤ (g.append c e).ack v T →
      k ≤ g.ack v T ∧ k ≤ (g.termLog T).length := by
    intro v T k hlt hk
    rcases hg.toShape.append_ack_cases hk with ⟨rfl, rfl⟩ | h
    · exact absurd hlt (lt_irrefl _)
    · exact h
  have hlearn : ∀ v, (g.append c e).log v = g.log v ∨ g.log v <+: (g.append c e).log v := by
    intro v
    by_cases hv : v = c
    · subst hv
      rw [g.append_log_self]
      exact .inr (prefix_append _ _)
    · exact .inl (g.append_log_of_ne e hv)
  have htake : ∀ {v k}, k ≤ (g.log v).length →
      ((g.append c e).log v).take k = (g.log v).take k := by
    intro v k hk
    rcases hlearn v with heq | hpre
    · rw [heq]
    · exact take_eq_of_isPrefix hpre hk
  refine { hg with
    log_grown := forall_update (P := fun _ L => Grown tm (g.append c e).termLog L) hnew
      fun v _ => (hg.log_grown v).mono hgrow.termLog
    termLog_grown := forall_update (P := fun _ L => Grown tm (g.append c e).termLog L) hnew
      fun t _ => (hg.termLog_grown t).mono hgrow.termLog
    stood_grown := fun d t L h => (hg.stood_grown d t L h).mono hgrow.termLog
    log_term := forall_update (P := fun v L => ∀ d ∈ L, tm d ≤ g.term v) hterms
      fun v _ => hg.log_term v
    termLog_term := forall_update (P := fun t L => ∀ d ∈ L, tm d ≤ t) hterms
      fun t _ => hg.termLog_term t
    termLog_sorted := forall_update (P := fun _ L => List.Pairwise (fun a b => tm a ≤ tm b) L) ?_
      fun t _ => hg.termLog_sorted t
    termLog_led := forall_update (P := fun t L => g.leader t = none → L = [])
      (fun h => by rw [hlea] at h; cases h) fun t _ => hg.termLog_led t
    leader_log := ?_
    leader_ack := forall_update
      (P := fun t L => ∀ d, g.leader t = some d → (g.append c e).ack d t = List.length L) ?_
      fun t ht d h => (set2_of_ne fun hab => ht hab.2).trans (hg.leader_ack t d h)
    ack_le := forall_set2 (P := fun _ t k => k ≤ ((g.append c e).termLog t).length)
      (by simp) fun v t => (hg.ack_le v t).trans (hgrow.termLog t).length_le
    ack_term := hg.ack_term_set2 c _
    ack_log := ?_
    complete := ?_
    retained := ?_
    carried := ?_
    learned := ?_ }
  · rw [pairwise_append]
    refine ⟨hg.log_sorted (hg.log_grown c), pairwise_singleton _ _, ?_⟩
    intro a ha b hb
    rw [mem_singleton.mp hb, hterm]
    exact hg.log_term c a ha
  · intro d h
    change g.leader (g.term d) = some d at h
    change (g.append c e).log d = (g.append c e).termLog (g.term d)
    by_cases hd : d = c
    · subst hd
      rw [g.append_log_self, g.append_termLog_self]
    · have ht : g.term d ≠ g.term c := by
        intro ht
        rw [ht, hlea] at h
        exact hd (Option.some.inj h).symm
      rw [g.append_log_of_ne e hd, g.append_termLog_of_ne c e ht]
      exact hg.leader_log d h
  · intro d h
    rw [hlea] at h
    cases h
    simp [State.append]
  · intro v
    change ((g.append c e).log v).take ((g.append c e).ack v (g.term v)) =
      ((g.append c e).termLog (g.term v)).take ((g.append c e).ack v (g.term v))
    by_cases hv : v = c
    · subst hv
      rw [g.append_log_self, g.append_termLog_self]
    · rw [show (g.append c e).ack v (g.term v) = g.ack v (g.term v) from
        set2_of_ne fun hab => hv hab.1, g.append_log_of_ne e hv,
        hgrow.termLog.take (hg.ack_le v _)]
      exact hg.ack_log v
  · intro T T' k hk hlt hled
    obtain ⟨d, hd⟩ := Option.ne_none_iff_exists'.mp hled
    obtain ⟨Q, hQ, hvs⟩ := hg.elected T' d hd
    -- the later election bounds how much of term `T` can still be chosen
    have ⟨_, P, hP, hmem⟩ := hk
    obtain ⟨v, hvP, hvQ⟩ := hP.meet hQ
    have hv := hg.vote_term v T' d (hvs v hvQ)
    have hkv : k ≤ (g.append c e).ack v T := by
      rcases hmem v hvP with h | h
      · exact h
      · change g.term v ≤ T at h
        omega
    have hlen := (hpast (by omega) hkv).2
    have hcomp := hg.complete T T' k (hback hlen hk) hlt hled
    have hlen' := le_length_of_take_eq hcomp.symm hlen
    rw [hgrow.termLog.take hlen, hgrow.termLog.take hlen', hcomp]
  · intro v T k hk hkv
    rcases hg.toShape.append_ack_cases hkv with ⟨rfl, rfl⟩ | ⟨hkv', hlen⟩
    · rw [g.append_log_self, g.append_termLog_self]
    · have hold := hg.retained v T k (hback hlen hk) hkv'
      rw [hgrow.termLog.take hlen, htake (le_length_of_take_eq hold.symm hlen), hold]
  · intro v d T T' k L hk hlt hvote hL hkv
    have hv := hg.vote_term v T' d hvote
    obtain ⟨hkv', hlen⟩ := hpast (by omega) hkv
    rw [hgrow.termLog.take hlen]
    exact hg.carried v d T T' k L (hback hlen hk) hlt hvote hL hkv'
  · intro v
    have hv := hg.learned v
    exact (hgrow.committedPrefix le_rfl hv).congr (htake hv.le_length).symm

/-! ## Every move -/

theorem Inv.move (hg : Inv tm g) (h : Move tm g g') : Inv tm g' := by
  cases h with
  | advance v t hterm => exact hg.advance hterm
  | stand c => exact hg.stand c
  | grant v c L hfree hsto hdate => exact hg.grant hfree hsto hdate
  | elect c Q hnone hsto hQ hvs => exact hg.elect hnone hsto hQ hvs
  | append c e hlea hterm => exact hg.append hlea hterm
  | confirm v m _ hm hlog => exact hg.confirm hm hlog
  | replace v m x hother hx hm hdiff => exact hg.replace hother hx hm hdiff
  | learn v k _ hk => exact hg.learn hk

theorem Inv.grows (hg : Inv tm g) (h : Move tm g g') : Grows g g' := by
  cases h with
  | advance v t hterm => exact Shape.grows_advance hterm
  | stand c => exact hg.toShape.grows_stand c
  | grant v c L hfree _ _ => exact Shape.grows_grant hfree
  | elect c Q hnone _ _ _ => exact hg.toShape.grows_elect hnone
  | append c e hlea _ => exact hg.toShape.grows_append e hlea
  | confirm v m _ _ _ => exact Shape.grows_confirm g v m
  | replace v m x _ hx _ hdiff => exact hg.toShape.grows_replace hx hdiff
  | learn v k _ _ => exact { Grows.refl g with }

theorem Inv.moves (hg : Inv tm g) (h : Moves tm g g') : Inv tm g' ∧ Grows g g' := by
  induction h with
  | refl => exact ⟨hg, Grows.refl g⟩
  | tail _ hlast ih => exact ⟨ih.1.move hlast, ih.2.trans (ih.1.grows hlast)⟩

theorem Move.commit_le (h : Move tm g g') (v : ι) : g.commit v ≤ g'.commit v := by
  cases h with
  | learn w k hmono _ =>
    exact forall_update (P := fun v c => g.commit v ≤ c) hmono (fun _ _ => le_rfl) v
  | _ => exact le_rfl

theorem Moves.commit_le (h : Moves tm g g') (v : ι) : g.commit v ≤ g'.commit v := by
  induction h with
  | refl => exact le_rfl
  | tail _ hlast ih => exact ih.trans (hlast.commit_le v)

/-! ## The moves of one node -/

/-- Nothing changes but what node `p` knows, its votes and its leadership. -/
structure Own (p : ι) (g g' : State ι ε) : Prop where
  term : ∀ q, q ≠ p → g'.term q = g.term q
  log : ∀ q, q ≠ p → g'.log q = g.log q
  commit : ∀ q, q ≠ p → g'.commit q = g.commit q
  stood : ∀ q, q ≠ p → g'.stood q = g.stood q
  vote : ∀ q, q ≠ p → g'.vote q = g.vote q
  leader : ∀ t, g'.leader t = g.leader t ∨ g'.leader t = some p

omit [Fintype ι] [DecidableEq ι] in
theorem Own.refl (p : ι) (g : State ι ε) : Own p g g :=
  ⟨fun _ _ => rfl, fun _ _ => rfl, fun _ _ => rfl, fun _ _ => rfl, fun _ _ => rfl,
    fun _ => .inl rfl⟩

variable {p : ι} {g₁ g₂ g₃ : State ι ε}

omit [Fintype ι] [DecidableEq ι] in
theorem Own.trans (h₁₂ : Own p g₁ g₂) (h₂₃ : Own p g₂ g₃) : Own p g₁ g₃ where
  term q hq := (h₂₃.term q hq).trans (h₁₂.term q hq)
  log q hq := (h₂₃.log q hq).trans (h₁₂.log q hq)
  commit q hq := (h₂₃.commit q hq).trans (h₁₂.commit q hq)
  stood q hq := (h₂₃.stood q hq).trans (h₁₂.stood q hq)
  vote q hq := (h₂₃.vote q hq).trans (h₁₂.vote q hq)
  leader t := by
    rcases h₂₃.leader t with heq | hp
    · rw [heq]
      exact h₁₂.leader t
    · exact .inr hp

theorem set2_of_ne_left {α β δ : Type*} [DecidableEq α] [DecidableEq β] (f : α → β → δ)
    {a a' : α} (b : β) (x : δ) (h : a' ≠ a) : set2 f a b x a' = f a' := by
  funext b'
  exact set2_of_ne fun hab => h hab.1

variable (g : State ι ε)

omit [Fintype ι] in
theorem own_advance (p : ι) (t : Nat) : Own p g (g.advance p t) :=
  { Own.refl p g with term := fun q hq => by simp [State.advance, update_of_ne hq] }

omit [Fintype ι] in
theorem own_stand (p : ι) : Own p g (g.stand p) :=
  { Own.refl p g with
    term := fun q hq => by simp [State.stand, update_of_ne hq]
    stood := fun _ hq => set2_of_ne_left _ _ _ hq
    vote := fun _ hq => set2_of_ne_left _ _ _ hq }

omit [Fintype ι] in
theorem own_grant (p c : ι) : Own p g (g.grant p c) :=
  { Own.refl p g with vote := fun _ hq => set2_of_ne_left _ _ _ hq }

omit [Fintype ι] in
theorem own_elect (p : ι) : Own p g (g.elect p) := by
  refine { Own.refl p g with leader := ?_ }
  intro t
  by_cases ht : t = g.term p
  · subst ht
    exact .inr (g.elect_leader_self p)
  · exact .inl (g.elect_leader_of_ne p ht)

omit [Fintype ι] in
theorem own_append (p : ι) (e : ε) : Own p g (g.append p e) :=
  { Own.refl p g with log := fun _ hq => g.append_log_of_ne e hq }

omit [Fintype ι] in
theorem own_confirm (p : ι) (m : Nat) : Own p g (g.confirm p m) := { Own.refl p g with }

omit [Fintype ι] in
theorem own_replace (p : ι) (m : Nat) : Own p g (g.replace p m) :=
  { Own.refl p g with log := fun _ hq => update_of_ne hq .. }

omit [Fintype ι] in
theorem own_learn (p : ι) (k : Nat) : Own p g (g.learn p k) :=
  { Own.refl p g with commit := fun q hq => by simp [State.learn, update_of_ne hq] }

variable {g}

/-- Zero or more moves of node `p`. -/
structure Turn (tm : ε → Nat) (p : ι) (g g' : State ι ε) : Prop where
  moves : Moves tm g g'
  own : Own p g g'

theorem Turn.refl (p : ι) (g : State ι ε) : Turn tm p g g :=
  ⟨Relation.ReflTransGen.refl, Own.refl p g⟩

theorem Turn.step (h : Turn tm p g₁ g₂) (hmove : Move tm g₂ g₃) (hown : Own p g₂ g₃) :
    Turn tm p g₁ g₃ :=
  ⟨Relation.ReflTransGen.tail h.moves hmove, h.own.trans hown⟩

theorem Turn.trans (h₁₂ : Turn tm p g₁ g₂) (h₂₃ : Turn tm p g₂ g₃) : Turn tm p g₁ g₃ :=
  ⟨Relation.ReflTransGen.trans h₁₂.moves h₂₃.moves, h₁₂.own.trans h₂₃.own⟩

theorem Turn.inv (h : Turn tm p g g') (hg : Inv tm g) : Inv tm g' := (hg.moves h.moves).1

theorem Turn.grows (h : Turn tm p g g') (hg : Inv tm g) : Grows g g' := (hg.moves h.moves).2

end OrbisKV.Lib.Consensus
