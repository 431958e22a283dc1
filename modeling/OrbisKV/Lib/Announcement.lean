import OrbisKV.Lib.ConsensusSafety
/-!
# How far the others can be

A node learns how far its log is committed from the leader of some term.
-/

namespace OrbisKV.Lib.Consensus

open TermLog

variable {ι ε : Type*} [Fintype ι] {tm : ε → Nat} {g g' : State ι ε}

/-- The leader of a term up to `t` has committed `k` entries in its term or before. -/
def Announced (tm : ε → Nat) (g : State ι ε) (t k : Nat) : Prop :=
  k = 0 ∨ ∃ T w L, T ≤ t ∧ g.leader T = some w ∧ CommittedPrefix tm g T L k ∧ k ≤ g.commit w

theorem Announced.mono {t t' k : Nat} (h : Announced tm g t k) (hgrow : Grows g g')
    (hcomm : ∀ v, g.commit v ≤ g'.commit v) (ht : t ≤ t') : Announced tm g' t' k := by
  rcases h with hzero | ⟨T, w, L, hT, hlead, hcom, hk⟩
  · exact Or.inl hzero
  · exact Or.inr ⟨T, w, L, hT.trans ht, hgrow.leader T w hlead,
      hgrow.committedPrefix le_rfl hcom, hk.trans (hcomm w)⟩

theorem Announced.le {t j k : Nat} (h : Announced tm g t k) (hjk : j ≤ k) : Announced tm g t j := by
  rcases h with rfl | ⟨T, w, L, hT, hlead, hcom, hk⟩
  · exact Or.inl (Nat.le_zero.mp hjk)
  · exact Or.inr ⟨T, w, L, hT, hlead, hcom.le hjk, hjk.trans hk⟩

theorem Inv.announced_commit (hg : Inv tm g) {p : ι} (hlead : g.leader (g.term p) = some p) :
    Announced tm g (g.term p) (g.commit p) :=
  Or.inr ⟨g.term p, p, g.log p, le_rfl, hlead, hg.learned p, le_rfl⟩

theorem Inv.announced_le (hg : Inv tm g) {T c t k : Nat} {p : ι} (hlead : g.leader T = some p)
    (hmark : Marked tm g T c) (hc : c ≤ g.commit p) (h : Announced tm g t k) (ht : t ≤ T) :
    k ≤ g.commit p := by
  rcases h with rfl | ⟨T', w, L, hT', hlead', hcom, hk⟩
  · exact Nat.zero_le _
  rcases Nat.lt_or_eq_of_le (hT'.trans ht) with hlt | rfl
  · -- an older leader: the entry of term `T` comes after everything committed there
    rcases hcom with rfl | ⟨T'', i, hi, hT'', hki, _⟩
    · exact Nat.zero_le _
    have htake : (g.termLog T).take i = (g.termLog T'').take i :=
      hg.complete T'' T i hi.choosable (by omega) (by simp [hlead])
    have hic : i < c := by
      by_contra hci
      have hterm : termAt tm (g.termLog T) c = termAt tm (g.termLog T'') c :=
        termAt_eq_of_take_eq tm htake (by omega)
      have hle : termAt tm (g.termLog T'') c ≤ T'' := termAt_le_of_forall tm (hg.termLog_term T'') c
      rw [← hterm, hmark.2.2] at hle
      omega
    omega
  · rw [hlead, Option.some.injEq] at hlead'
    rw [hlead']
    exact hk

end OrbisKV.Lib.Consensus
