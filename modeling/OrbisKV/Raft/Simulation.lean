import OrbisKV.Lib.ConsensusSafety
import OrbisKV.Raft.Election
import OrbisKV.Raft.LogView
/-!
# Nodes as parties of the abstract protocol

How the fields of a node, the calls in flight and the messages to the service fit a
state of `Lib.Consensus`, and for every section of a node the moves of the abstract
protocol it stands for.
-/

namespace OrbisKV

open Lib.TermLog Finset Function
open Lib.Consensus

variable {n : Nat} {Cmd : Type} {S : List (LogEntry Cmd)}

abbrev Ghost (n : Nat) (Cmd : Type) := State (Fin n) (LogEntry Cmd)

/-- A delivered command stands in a committed prefix at its index. -/
def ApplyMsg.Committed (g : Ghost n Cmd) : ApplyMsg Cmd → Prop
  | .command cmd index => 0 < index ∧ ∃ t L, CommittedPrefix LogEntry.term g t L index ∧
        (L[index - 1]?).map LogEntry.command = some cmd
  | .snapshot _ _ _ => True

variable {g g' : Ghost n Cmd}

theorem ApplyMsg.Committed.mono (hgrow : Grows g g') {msg : ApplyMsg Cmd} (h : msg.Committed g) :
    msg.Committed g' := by
  cases msg with
  | command cmd index =>
    obtain ⟨hpos, t, L, hL, hcmd⟩ := h
    exact ⟨hpos, t, L, hgrow.committedPrefix le_rfl hL, hcmd⟩
  | snapshot _ _ _ => trivial

structure Raft.Sim (g : Ghost n Cmd) (p : Fin n) (rf : Raft n Cmd) : Prop where
  term : g.term p = rf.currentTerm
  views : rf.Views (g.log p)
  commit : g.commit p = rf.commitIndex
  included : rf.lastIncludedIndex ≤ rf.commitIndex
  voted : rf.votedFor = g.vote p rf.currentTerm
  leader : rf.state = .leader → g.leader rf.currentTerm = some p
  candidate : rf.state = .candidate → g.leader rf.currentTerm ≠ some p ∧
    (g.leader rf.currentTerm = none → g.stood p rf.currentTerm = some (g.log p))
  matched : rf.state = .leader → ∀ q, q ≠ p →
    rf.matchIndex q ≤ max rf.commitIndex (g.ack q rf.currentTerm)

namespace Raft

variable {g : Ghost n Cmd} {p : Fin n} {rf : Raft n Cmd}

theorem Sim.other (h : rf.Sim g p) {g' : Ghost n Cmd} {q : Fin n} (hq : p ≠ q)
    (hown : Own q g g') (hgrow : Grows g g') : rf.Sim g' p where
  term := (hown.term p hq).trans h.term
  views := by
    rw [hown.log p hq]
    exact h.views
  commit := (hown.commit p hq).trans h.commit
  included := h.included
  voted := by
    rw [hown.vote p hq]
    exact h.voted
  leader hlead := hgrow.leader _ _ (h.leader hlead)
  candidate hcand := by
    obtain ⟨hne, hsto⟩ := h.candidate hcand
    refine ⟨?_, ?_⟩
    · rcases hown.leader rf.currentTerm with heq | heq
      · rw [heq]
        exact hne
      · rw [heq]
        exact fun hp => hq (Option.some.inj hp).symm
    · intro hnone
      rcases hown.leader rf.currentTerm with heq | heq
      · rw [hown.stood p hq, hown.log p hq]
        exact hsto (heq ▸ hnone)
      · rw [heq] at hnone
        cases hnone
  matched hlead v hv := by
    have hold := h.matched hlead v hv
    have hack := hgrow.ack_le v rf.currentTerm
    omega

theorem Sim.length (h : rf.Sim g p) : rf.getLastLogIndex = (g.log p).length :=
  h.views.getLastLogIndex

theorem Sim.committed (h : rf.Sim g p) (hg : Inv LogEntry.term g) :
    CommittedPrefix LogEntry.term g rf.currentTerm (g.log p) rf.commitIndex := by
  rw [← h.term, ← h.commit]
  exact hg.learned p

/-! ## Terms and votes -/

theorem catchUp_of_lt {term : Nat} (h : rf.currentTerm < term) :
    rf.catchUp term = rf.stepDown term := by
  rw [catchUp, if_pos h]

theorem Sim.advance (h : rf.Sim g p) (hg : Inv LogEntry.term g) {t : Nat}
    (ht : rf.currentTerm ≤ t) : (rf.catchUp t).Sim (g.advance p t) p := by
  have hterm : (g.advance p t).term p = t := by simp [State.advance]
  rcases Nat.lt_or_eq_of_le ht with hlt | rfl
  · rw [catchUp_of_lt hlt]
    refine ⟨hterm, h.views.congr rfl rfl rfl, h.commit, h.included, ?_, ?_, ?_, ?_⟩
    · -- the party has not voted in a term it has not reached
      change none = g.vote p t
      cases hvote : g.vote p t with
      | none => rfl
      | some c =>
        have := hg.vote_term p t c hvote
        rw [h.term] at this
        omega
    all_goals
      intro hrole
      cases hrole
  · rw [catchUp_of_le (Nat.lt_irrefl _)]
    exact ⟨hterm, h.views, h.commit, h.included, h.voted, h.leader, h.candidate, h.matched⟩

theorem Sim.turn_advance (h : rf.Sim g p) {t : Nat} (ht : rf.currentTerm ≤ t) :
    Turn LogEntry.term p g (g.advance p t) :=
  (Turn.refl p g).step (.advance p t (h.term.le.trans ht)) (own_advance g p t)

theorem Sim.requestVote (h : rf.Sim g p) (hg : Inv LogEntry.term g)
    {args : RequestVoteArgs n} {S : List (LogEntry Cmd)}
    (hsto : g.stood args.candidateId args.term = some S) (hS : args.Describes S) :
    ∃ g', Turn LogEntry.term p g g' ∧ (rf.requestVote args).1.Sim g' p := by
  rcases rf.requestVote_cases args with
    ⟨_, heq⟩ | ⟨hstale, heq⟩ | ⟨hstale, hout, hvote, heq⟩
  · rw [heq]
    exact ⟨g, Turn.refl p g, h⟩
  · have hle : rf.currentTerm ≤ args.term := by omega
    rw [heq]
    exact ⟨_, h.turn_advance hle, h.advance hg hle⟩
  · have hle : rf.currentTerm ≤ args.term := by omega
    have hsim := h.advance hg hle
    have hcur := rf.catchUp_currentTerm hstale
    rw [heq]
    rcases hvote with hnone | hsome
    · have hterm : (g.advance p args.term).term p = args.term := hsim.term.trans hcur
      have hfree : (g.advance p args.term).vote p ((g.advance p args.term).term p) = none := by
        have hvoted := hsim.voted
        rw [hnone, hcur] at hvoted
        rw [hterm]
        exact hvoted.symm
      have hmove : Move LogEntry.term (g.advance p args.term)
          ((g.advance p args.term).grant p args.candidateId) :=
        .grant p args.candidateId S hfree (by rw [hterm]; exact hsto)
          (hsim.views.upToDate hS hout)
      refine ⟨_, (h.turn_advance hle).step hmove (own_grant _ p _), ?_⟩
      refine ⟨hsim.term, hsim.views.congr rfl rfl rfl, hsim.commit, hsim.included, ?_,
        hsim.leader, hsim.candidate, hsim.matched⟩
      change some args.candidateId = set2 _ p _ _ p (rf.catchUp args.term).currentTerm
      rw [hterm, hcur, set2_self]
    · refine ⟨_, h.turn_advance hle, ?_⟩
      refine ⟨hsim.term, hsim.views.congr rfl rfl rfl, hsim.commit, hsim.included, ?_,
        hsim.leader, hsim.candidate, hsim.matched⟩
      change some args.candidateId = _
      rw [← hsome]
      exact hsim.voted

/-! ## Elections -/

theorem Sim.becomeLeader (h : rf.Sim g p) (hme : rf.me = p) (hg : Inv LogEntry.term g)
    (hcand : rf.state = .candidate) {Q : Finset (Fin n)} (hQ : Majority Q)
    (hvs : ∀ v ∈ Q, g.vote v rf.currentTerm = some p) :
    ∃ g', Turn LogEntry.term p g g' ∧ rf.becomeLeader.Sim g' p := by
  obtain ⟨hne, hsto⟩ := h.candidate hcand
  have hnone : g.leader rf.currentTerm = none := by
    by_contra hsome
    obtain ⟨q, hq⟩ := Option.ne_none_iff_exists'.mp hsome
    obtain ⟨P, hP, hvotesP⟩ := hg.elected _ q hq
    obtain ⟨v, hvP, hvQ⟩ := hP.meet hQ
    have heq := (hvotesP v hvP).symm.trans (hvs v hvQ)
    exact hne (by rw [hq, Option.some.inj heq])
  have hmove : Move LogEntry.term g (g.elect p) :=
    .elect p Q (by rw [h.term]; exact hnone) (by rw [h.term]; exact hsto hnone) hQ
      (by rw [h.term]; exact hvs)
  refine ⟨_, (Turn.refl p g).step hmove (own_elect g p), ?_⟩
  refine ⟨h.term, h.views.congr rfl rfl rfl, h.commit, h.included, h.voted, ?_, ?_, ?_⟩
  · intro _
    change (g.elect p).leader rf.currentTerm = some p
    rw [← h.term, g.elect_leader_self]
  · exact nofun
  · intro _ q hq
    change (if q = rf.me then rf.getLastLogIndex else 0) ≤ _
    rw [hme, if_neg hq]
    exact Nat.zero_le _

def stand (rf : Raft n Cmd) : Raft n Cmd :=
  { rf with
    state := .candidate
    currentTerm := rf.currentTerm + 1
    votedFor := some rf.me
    votes := 1 }

theorem startElection_eq (rf : Raft n Cmd) :
    rf.startElection.1 = if n / 2 < 1 then rf.stand.becomeLeader else rf.stand := rfl

theorem Sim.stand (h : rf.Sim g p) (hme : rf.me = p) (hg : Inv LogEntry.term g) :
    Turn LogEntry.term p g (g.stand p) ∧ rf.stand.Sim (g.stand p) p := by
  refine ⟨(Turn.refl p g).step (.stand p) (own_stand g p), ?_⟩
  have hunled : g.leader (rf.currentTerm + 1) ≠ some p := by
    intro hlead
    have := (hg.leader_term _ p hlead).2
    rw [h.term] at this
    omega
  refine ⟨?_, h.views.congr rfl rfl rfl, h.commit, h.included, ?_, ?_, ?_, ?_⟩
  · change Function.update g.term p (g.term p + 1) p = rf.currentTerm + 1
    rw [update_self, h.term]
  · change some rf.me = set2 g.vote p (g.term p + 1) (some p) p (rf.currentTerm + 1)
    rw [h.term, set2_self, hme]
  · exact nofun
  · intro _
    refine ⟨hunled, fun _ => ?_⟩
    change set2 g.stood p (g.term p + 1) (some (g.log p)) p (rf.currentTerm + 1) = _
    rw [h.term, set2_self]
    rfl
  · exact nofun

theorem Sim.startElection (h : rf.Sim g p) (hme : rf.me = p) (hg : Inv LogEntry.term g) :
    ∃ g', Turn LogEntry.term p g g' ∧ rf.startElection.1.Sim g' p ∧
      ∃ S, g'.stood p rf.startElection.2.term = some S ∧ rf.startElection.2.Describes S := by
  obtain ⟨hturn, hsim⟩ := h.stand hme hg
  have hterm : g.term p + 1 = rf.currentTerm + 1 := by rw [h.term]
  have hsto : (g.stand p).stood p (rf.currentTerm + 1) = some (g.log p) := by
    change set2 g.stood p (g.term p + 1) (some (g.log p)) p (rf.currentTerm + 1) = _
    rw [hterm, set2_self]
  have hargs : rf.startElection.2.term = rf.currentTerm + 1 := (rf.startElection_args).1
  have hdesc : rf.startElection.2.Describes (g.log p) := by
    have hsame := (rf.sameLog_startElection).views h.views
    have hlast : rf.startElection.2.lastLogIndex = rf.startElection.1.getLastLogIndex ∧
        rf.startElection.2.lastLogTerm = rf.startElection.1.getLastLogTerm := ⟨rfl, rfl⟩
    exact ⟨hlast.1.trans hsame.getLastLogIndex, hlast.2.trans hsame.getLastLogTerm⟩
  rw [startElection_eq, hargs]
  split
  · rename_i hone
    have hQ : Majority ({p} : Finset (Fin n)) := by
      simpa [Majority] using hone
    have hvs : ∀ v ∈ ({p} : Finset (Fin n)),
        (g.stand p).vote v rf.stand.currentTerm = some p := by
      intro v hv
      rw [Finset.mem_singleton.mp hv, ← hsim.voted]
      exact congrArg some hme
    obtain ⟨g', hturn', hsim'⟩ := hsim.becomeLeader hme (hturn.inv hg) rfl hQ hvs
    have hgrow := hturn'.grows (hturn.inv hg)
    exact ⟨g', hturn.trans hturn', hsim', _, hgrow.stood _ _ _ hsto, hdesc⟩
  · exact ⟨_, hturn, hsim, _, hsto, hdesc⟩

/-! ## Commitment -/

theorem Sim.learn (h : rf.Sim g p) {k : Nat} (hk : rf.commitIndex ≤ k)
    (hcom : CommittedPrefix LogEntry.term g rf.currentTerm (g.log p) k) :
    Turn LogEntry.term p g (g.learn p k) ∧ Sim (g.learn p k) p { rf with commitIndex := k } := by
  have hmove : Move LogEntry.term g (g.learn p k) :=
    .learn p k (h.commit.le.trans hk) (by rw [h.term]; exact hcom)
  refine ⟨(Turn.refl p g).step hmove (own_learn g p k), ?_⟩
  refine ⟨h.term, h.views.congr rfl rfl rfl, ?_, h.included.trans hk, h.voted, h.leader,
    h.candidate, ?_⟩
  · change Function.update g.commit p k p = k
    rw [update_self]
  · intro hlead q hq
    have hold := h.matched hlead q hq
    change rf.matchIndex q ≤ max k (g.ack q rf.currentTerm)
    omega

/-! ## AppendEntries -/

theorem Sim.acceptTerm (h : rf.Sim g p) (hg : Inv LogEntry.term g) {args : AppendEntriesArgs n Cmd}
    (hle : rf.currentTerm ≤ args.term) : (rf.acceptTerm args).Sim (g.advance p args.term) p := by
  have hsim := h.advance hg hle
  exact ⟨hsim.term, hsim.views.congr rfl rfl rfl, hsim.commit, hsim.included, hsim.voted,
    nofun, nofun, nofun⟩

end Raft

structure AppendEntriesArgs.Spoken (g : Ghost n Cmd) (src : Fin n)
    (args : AppendEntriesArgs n Cmd) (S : List (LogEntry Cmd)) : Prop where
  leader : g.leader args.term = some src
  carries : args.Carries S
  source : S <+: g.termLog args.term
  commit : CommittedPrefix LogEntry.term g args.term S args.leaderCommit

theorem AppendEntriesArgs.Spoken.mono (hgrow : Grows g g') {src : Fin n}
    {args : AppendEntriesArgs n Cmd} (h : args.Spoken g src S) : args.Spoken g' src S :=
  ⟨hgrow.leader _ _ h.leader, h.carries, h.source.trans (hgrow.termLog _),
    hgrow.committedPrefix le_rfl h.commit⟩

theorem AppendEntriesArgs.Carries.matched {args : AppendEntriesArgs n Cmd} (h : args.Carries S) :
    args.prevLogIndex + args.entries.length = S.length := by
  have := h.prev_le
  rw [h.entries, List.length_drop]
  omega

namespace Raft

variable {g : Ghost n Cmd} {p src : Fin n} {rf : Raft n Cmd}
  {args : AppendEntriesArgs n Cmd} {S : List (LogEntry Cmd)}

theorem Sim.merged (h : rf.Sim g p) (hg : Inv LogEntry.term g) (hfol : rf.state = .follower)
    (hargs : args.Spoken g src S) (hsrc : src ≠ p) (hterm : rf.currentTerm = args.term)
    (hmatch : rf.mismatch args = none) {log : RaftLog Cmd} {changed : Bool}
    (hmg : rf.mergeEntries (args.prevLogIndex + 1) args.entries = (log, changed)) :
    ∃ g', Turn LogEntry.term p g g' ∧ Sim g' p { rf with log := log } ∧
      S <+: g'.log p ∧ S.length ≤ g'.ack p args.term := by
  have hgt : g.term p = args.term := h.term.trans hterm
  have hled : g.leader (g.term p) = some src := by rw [hgt]; exact hargs.leader
  have hsource : (g.termLog (g.term p)).take S.length = S := by
    rw [hgt]
    exact (List.prefix_iff_eq_take.mp hargs.source).symm
  have hlen : S.length ≤ (g.termLog (g.term p)).length := by
    rw [hgt]
    exact hargs.source.length_le
  have hS : Grown LogEntry.term g.termLog S := (hg.termLog_grown args.term).of_isPrefix hargs.source
  rcases h.views.merged ((hg.log_grown p).matching hS) hargs.carries hmatch hmg with
    ⟨_, hpre, hviews⟩ | ⟨_, hviews, x, hx, hne⟩
  · have hmove : Move LogEntry.term g (g.confirm p S.length) := by
      refine .confirm p S.length (by rw [hled]; exact Option.some_ne_none _) hlen ?_
      rw [hsource]
      exact (List.prefix_iff_eq_take.mp hpre).symm
    refine ⟨_, (Turn.refl p g).step hmove (own_confirm g p _), ?_, hpre, ?_⟩
    · exact ⟨h.term, hviews, h.commit, h.included, h.voted, h.leader, h.candidate,
        fun hlead => absurd (hfol.symm.trans hlead) (by decide)⟩
    · change S.length ≤ set2 g.ack p (g.term p) _ p args.term
      rw [hgt, set2_self]
      exact le_max_right _ _
  · have hmove : Move LogEntry.term g (g.replace p S.length) := by
      refine .replace p S.length x ?_ hx hlen ?_
      · rw [hled]
        exact fun heq => hsrc (Option.some.inj heq)
      · rw [← hsource, List.getElem?_take_of_lt hx] at hne
        exact hne
    have hlog : (g.replace p S.length).log p = S := by
      rw [g.replace_log_self, hsource]
    refine ⟨_, (Turn.refl p g).step hmove (own_replace g p _), ?_, by rw [hlog], ?_⟩
    · refine ⟨h.term, by rw [hlog]; exact hviews, h.commit, h.included, h.voted, h.leader, ?_,
        fun hlead => absurd (hfol.symm.trans hlead) (by decide)⟩
      exact fun hcand => absurd (hfol.symm.trans hcand) (by decide)
    · change S.length ≤ set2 g.ack p (g.term p) _ p args.term
      rw [hgt, set2_self]

theorem Sim.learnCommit (h : rf.Sim g p) (hargs : args.Spoken g src S)
    (hterm : rf.currentTerm = args.term) (hpre : S <+: g.log p) :
    ∃ g', Turn LogEntry.term p g g' ∧ (rf.learnCommit args.leaderCommit).Sim g' p := by
  unfold Raft.learnCommit
  split
  · rename_i hlt
    -- the leader does not announce more than it sends, so the minimum is its index
    have hle : args.leaderCommit ≤ S.length := hargs.commit.le_length
    have hmin : min args.leaderCommit rf.getLastLogIndex = args.leaderCommit := by
      rw [h.length]
      exact Nat.min_eq_left (hle.trans hpre.length_le)
    have hcom : CommittedPrefix LogEntry.term g rf.currentTerm (g.log p) args.leaderCommit := by
      rw [hterm]
      exact hargs.commit.congr (take_eq_of_isPrefix hpre hle).symm
    rw [hmin]
    exact ⟨_, h.learn hlt.le hcom⟩
  · exact ⟨g, Turn.refl p g, h⟩

theorem Sim.appendEntries (h : rf.Sim g p) (hg : Inv LogEntry.term g) (hargs : args.Spoken g src S)
    (hsrc : src ≠ p) :
    ∃ g', Turn LogEntry.term p g g' ∧ (rf.appendEntries args).1.Sim g' p ∧
      ((rf.appendEntries args).2.1.success = true →
        args.prevLogIndex + args.entries.length ≤ g'.ack p args.term) := by
  rcases rf.appendEntries_cases args with
    ⟨_, heq⟩ | ⟨hstale, _, _, heq⟩ | ⟨hstale, hmatch, log, changed, hmg, heq⟩
  · rw [heq]
    exact ⟨g, Turn.refl p g, h, nofun⟩
  · have hle : rf.currentTerm ≤ args.term := by omega
    rw [heq]
    exact ⟨_, h.turn_advance hle, h.acceptTerm hg hle, nofun⟩
  · have hle : rf.currentTerm ≤ args.term := by omega
    have hturn₁ := h.turn_advance hle
    have hinv₁ := hturn₁.inv hg
    obtain ⟨g₂, hturn₂, hsim₂, hpre, hack⟩ := (h.acceptTerm hg hle).merged hinv₁ rfl
      (hargs.mono (hturn₁.grows hg)) hsrc (rf.acceptTerm_currentTerm hstale) hmatch hmg
    have hinv₂ := hturn₂.inv hinv₁
    have hargs₂ := (hargs.mono (hturn₁.grows hg)).mono (hturn₂.grows hinv₁)
    obtain ⟨g₃, hturn₃, hsim₃⟩ := hsim₂.learnCommit hargs₂ (rf.acceptTerm_currentTerm hstale) hpre
    rw [heq]
    refine ⟨g₃, (hturn₁.trans hturn₂).trans hturn₃, hsim₃, fun _ => ?_⟩
    rw [hargs.carries.matched]
    exact hack.trans ((hturn₃.grows hinv₂).ack_le _ _)

/-! ## InstallSnapshot and Snapshot -/

end Raft

structure InstallSnapshotArgs.Spoken (g : Ghost n Cmd) (src : Fin n)
    (args : InstallSnapshotArgs n) (S : List (LogEntry Cmd)) : Prop where
  leader : g.leader args.term = some src
  source : S <+: g.termLog args.term
  term : args.lastIncludedTerm = termAt LogEntry.term S args.lastIncludedIndex
  commit : CommittedPrefix LogEntry.term g args.term S args.lastIncludedIndex

theorem InstallSnapshotArgs.Spoken.mono (hgrow : Grows g g') {src : Fin n}
    {args : InstallSnapshotArgs n} (h : args.Spoken g src S) : args.Spoken g' src S :=
  ⟨hgrow.leader _ _ h.leader, h.source.trans (hgrow.termLog _), h.term,
    hgrow.committedPrefix le_rfl h.commit⟩

namespace Raft

variable {g : Ghost n Cmd} {p src : Fin n} {rf : Raft n Cmd} {rf' : Raft n Cmd} {server : Fin n}

section

variable (h : rf.Sim g p)

include h

theorem Sim.install (hg : Inv LogEntry.term g) {args : InstallSnapshotArgs n}
    {S : List (LogEntry Cmd)} (hargs : args.Spoken g src S) (hsrc : src ≠ p)
    (hterm : rf.currentTerm = args.term) (hnew : rf.lastIncludedIndex < args.lastIncludedIndex) :
    ∃ g', Turn LogEntry.term p g g' ∧ (rf.install args).Sim g' p := by
  set k := args.lastIncludedIndex with hk
  have hgt : g.term p = args.term := h.term.trans hterm
  have hled : g.leader (g.term p) = some src := by rw [hgt]; exact hargs.leader
  have hledRf : g.leader rf.currentTerm = some src := by rw [hterm]; exact hargs.leader
  have hnotLead : rf.state ≠ .leader := by
    intro hlead
    exact hsrc (Option.some.inj (hledRf.symm.trans (h.leader hlead)))
  have hlen : k ≤ S.length := hargs.commit.le_length
  have hS : Grown LogEntry.term g.termLog S := (hg.termLog_grown args.term).of_isPrefix hargs.source
  have hsource : (g.termLog (g.term p)).take k = S.take k := by
    rw [hgt]
    exact take_eq_of_isPrefix hargs.source hlen
  -- the log first, then what is known to be committed
  have hlog : ∃ g₁, Turn LogEntry.term p g g₁ ∧ (rf.install args).Views (g₁.log p) ∧
      (g₁.log p).take k = S.take k ∧ g₁.vote = g.vote ∧ g₁.leader = g.leader ∧
      g₁.term = g.term ∧ g₁.commit = g.commit := by
    rcases h.views.install (hg.log_grown p) hS hnew hlen hargs.term with
      ⟨htake, hviews⟩ | ⟨hne, hviews⟩
    · exact ⟨g, Turn.refl p g, hviews, htake, rfl, rfl, rfl, rfl⟩
    · have hmove : Move LogEntry.term g (g.replace p k) := by
        refine .replace p k (k - 1) ?_ (by omega) ?_ ?_
        · rw [hled]
          exact fun heq => hsrc (Option.some.inj heq)
        · rw [hgt]
          exact hlen.trans hargs.source.length_le
        · rw [getElem?_eq_of_take_eq hsource (by omega)]
          exact hne
      have hlog : (g.replace p k).log p = S.take k := by
        rw [g.replace_log_self, hsource]
      refine ⟨_, (Turn.refl p g).step hmove (own_replace g p k), by rw [hlog]; exact hviews,
        ?_, rfl, rfl, rfl, rfl⟩
      rw [hlog, List.take_take, Nat.min_self]
  obtain ⟨g₁, hturn₁, hvw₁, htake₁, hvote₁, hleader₁, hterm₁, hcomm₁⟩ := hlog
  have hinv₁ := hturn₁.inv hg
  have hcom : CommittedPrefix LogEntry.term g₁ rf.currentTerm (g₁.log p)
      (max rf.commitIndex k) := by
    rcases Nat.le_total k rf.commitIndex with hle | hle
    · rw [Nat.max_eq_left hle, ← h.commit, ← h.term, ← hterm₁, ← hcomm₁]
      exact hinv₁.learned p
    · rw [Nat.max_eq_right hle, hterm]
      exact ((hturn₁.grows hg).committedPrefix le_rfl hargs.commit).congr htake₁.symm
  have hmove₂ : Move LogEntry.term g₁ (g₁.learn p (max rf.commitIndex k)) := by
    refine .learn p _ ?_ ?_
    · rw [hcomm₁, h.commit]
      exact le_max_left _ _
    · rw [hterm₁, h.term]
      exact hcom
  refine ⟨_, hturn₁.step hmove₂ (own_learn g₁ p _), ?_⟩
  refine ⟨?_, hvw₁, ?_, le_max_right _ _, ?_, ?_, ?_, ?_⟩
  · change g₁.term p = rf.currentTerm
    rw [hterm₁, h.term]
  · change Function.update g₁.commit p _ p = _
    rw [update_self]
    rfl
  · change rf.votedFor = g₁.vote p rf.currentTerm
    rw [hvote₁]
    exact h.voted
  · exact fun hlead => absurd hlead hnotLead
  · intro _
    change g₁.leader rf.currentTerm ≠ some p ∧ (g₁.leader rf.currentTerm = none → _)
    rw [hleader₁, hledRf]
    exact ⟨fun heq => hsrc (Option.some.inj heq), nofun⟩
  · exact fun hlead => absurd hlead hnotLead

theorem Sim.installSnapshot (hg : Inv LogEntry.term g)
    {args : InstallSnapshotArgs n} {S : List (LogEntry Cmd)} (hargs : args.Spoken g src S)
    (hsrc : src ≠ p) : ∃ g', Turn LogEntry.term p g g' ∧ (rf.installSnapshot args).1.Sim g' p := by
  unfold Raft.installSnapshot
  split
  · exact ⟨g, Turn.refl p g, h⟩
  · rename_i hstale
    have hle : rf.currentTerm ≤ args.term := by omega
    have hturn := h.turn_advance hle
    have hsim := h.advance hg hle
    dsimp only
    split
    · exact ⟨_, hturn, hsim⟩
    · obtain ⟨g', hturn', hsim'⟩ := hsim.install (hturn.inv hg)
        (hargs.mono (hturn.grows hg)) hsrc (rf.catchUp_currentTerm hstale) (by omega)
      exact ⟨g', hturn.trans hturn', hsim'⟩

theorem Sim.snapshot {index : Nat} {taken : Bool}
    (hsnap : rf.snapshot index = some (rf', taken)) : rf'.Sim g p := by
  have hviews := h.views.snapshot hsnap
  unfold Raft.snapshot at hsnap
  split at hsnap
  · cases hsnap
    exact h
  · split at hsnap
    · cases hsnap
      exact h
    · dsimp only at hsnap
      split at hsnap
      · cases hsnap
      · cases hsnap
        refine ⟨h.term, hviews, h.commit, ?_, h.voted, h.leader, h.candidate, h.matched⟩
        change index ≤ rf.commitIndex
        omega

/-! ## The leader -/

theorem Sim.start (hg : Inv LogEntry.term g) {command : Option Cmd}
    (hsta : rf.start command = some rf') : ∃ g', Turn LogEntry.term p g g' ∧ rf'.Sim g' p := by
  have hviews := h.views.start hsta
  unfold Raft.start at hsta
  split_ifs at hsta with hlead
  cases hsta
  have hled := h.leader hlead
  have hmove : Move LogEntry.term g (g.append p ⟨rf.currentTerm, command⟩) :=
    .append p _ (by rw [h.term]; exact hled) h.term.symm
  have hgrow := hg.grows hmove
  refine ⟨_, (Turn.refl p g).step hmove (own_append g p _), ?_⟩
  refine ⟨h.term, ?_, h.commit, h.included, h.voted, h.leader, ?_, ?_⟩
  · rw [g.append_log_self]
    exact hviews
  · exact fun hcand => absurd (hlead.symm.trans hcand) (by decide)
  · intro _ q hq
    have hold := h.matched hlead q hq
    have hack := hgrow.ack_le q rf.currentTerm
    change rf.matchIndex q ≤ max rf.commitIndex (State.ack _ q rf.currentTerm)
    omega

theorem Sim.advanceCommit (hme : rf.me = p) (hg : Inv LogEntry.term g)
    (hlead : rf.state = .leader) {N : Nat} (hN : N ≤ rf.getLastLogIndex) :
    ∃ g', Turn LogEntry.term p g g' ∧ (rf.advanceCommit N).Sim g' p := by
  induction N with
  | zero => exact ⟨g, Turn.refl p g, h⟩
  | succ N ih =>
    unfold Raft.advanceCommit
    split
    · exact ⟨g, Turn.refl p g, h⟩
    · rename_i hcomm
      split
      · exact ih (by omega)
      · rename_i hcur
        push Not at hcur
        split
        · rename_i hcount
          have hled := h.leader hlead
          have hlog : g.log p = g.termLog rf.currentTerm := by
            have := hg.leader_log p (by rw [h.term]; exact hled)
            rwa [h.term] at this
          rw [h.length] at hN
          have hincl := h.included
          -- the counted peers acknowledged the index, and so did the leader
          let Q : Finset (Fin n) :=
            insert p (univ.filter fun i => i ≠ rf.me ∧ N + 1 ≤ rf.matchIndex i)
          have hQ : Majority Q := by
            have hnot : p ∉ univ.filter
                fun i => i ≠ rf.me ∧ N + 1 ≤ rf.matchIndex i := by simp [hme]
            rw [Majority, Fintype.card_fin, card_insert_of_notMem hnot]
            unfold countReplicas at hcount
            split at hcount <;> omega
          have hack : ∀ v ∈ Q, N + 1 ≤ g.ack v rf.currentTerm := by
            intro v hv
            rcases mem_insert.mp hv with rfl | hv
            · rw [hg.leader_ack _ v hled, ← hlog]
              exact hN
            · obtain ⟨_, hvne, hvm⟩ := mem_filter.mp hv
              have := h.matched hlead v (hme ▸ hvne)
              omega
          have hmark : Marked LogEntry.term g rf.currentTerm (N + 1) := by
            refine ⟨Nat.succ_pos N, by rw [← hlog]; exact hN, ?_⟩
            rw [← hlog, ← h.views.getTerm (by omega)]
            exact hcur.2
          have hcom : CommittedPrefix LogEntry.term g rf.currentTerm (g.log p) (N + 1) :=
            Or.inr ⟨rf.currentTerm, N + 1, ⟨hmark, Q, hQ, hack⟩, le_rfl, le_rfl, by rw [hlog]⟩
          exact ⟨_, h.learn (by omega) hcom⟩
        · exact ih (by omega)

theorem Sim.handleAppendReply (hme : rf.me = p) (hg : Inv LogEntry.term g)
    {args : AppendEntriesArgs n Cmd} {reply : AppendEntriesReply}
    (hack : reply.success = true →
      args.prevLogIndex + args.entries.length ≤ g.ack server args.term) :
    ∃ g', Turn LogEntry.term p g g' ∧ (rf.handleAppendReply server args reply).1.Sim g' p := by
  rcases rf.handleAppendReply_cases server args reply with
    heq | ⟨_, hlt, heq⟩ | ⟨hlead, hterm, heq, _⟩
  · rw [heq]
    exact ⟨g, Turn.refl p g, h⟩
  · rw [heq, ← catchUp_of_lt hlt]
    exact ⟨_, h.turn_advance hlt.le, h.advance hg hlt.le⟩
  · rw [heq]
    have hnote : (rf.noteReply server args reply).Sim g p := by
      unfold noteReply
      split
      · rename_i hsucc
        refine ⟨h.term, h.views.congr rfl rfl rfl, h.commit, h.included, h.voted, h.leader,
          h.candidate, ?_⟩
        intro _ q hq
        change Function.update rf.matchIndex server _ q ≤ max rf.commitIndex
          (g.ack q rf.currentTerm)
        by_cases hqs : q = server
        · subst hqs
          rw [update_self, ← hterm]
          exact (hack hsucc).trans (le_max_right _ _)
        · rw [update_of_ne hqs]
          exact h.matched hlead q hq
      · exact ⟨h.term, h.views.congr rfl rfl rfl, h.commit, h.included, h.voted, h.leader,
          h.candidate, h.matched⟩
    obtain ⟨next, matched, hform⟩ := rf.noteReply_eq server args reply
    refine hnote.advanceCommit ?_ hg ?_ ?_
    · rw [hform]
      exact hme
    · rw [hform]
      exact hlead
    · rw [hform]
      exact le_rfl

theorem Sim.handleInstallReply (hg : Inv LogEntry.term g) {reply : InstallSnapshotReply} :
    ∃ g', Turn LogEntry.term p g g' ∧ (rf.handleInstallReply server reply).1.Sim g' p := by
  unfold Raft.handleInstallReply
  split
  · rename_i hlt
    rw [← catchUp_of_lt hlt]
    exact ⟨_, h.turn_advance hlt.le, h.advance hg hlt.le⟩
  · refine ⟨g, Turn.refl p g, h.term, h.views.congr rfl rfl rfl, h.commit, h.included, h.voted,
      h.leader, h.candidate, ?_⟩
    -- the snapshot index is committed, so it never helps to commit anything
    intro hlead q hq
    change Function.update rf.matchIndex server rf.lastIncludedIndex q ≤
      max rf.commitIndex (g.ack q rf.currentTerm)
    by_cases hqs : q = server
    · subst hqs
      rw [update_self]
      exact h.included.trans (le_max_left _ _)
    · rw [update_of_ne hqs]
      exact h.matched hlead q hq

/-! ## Requests and messages -/

theorem Sim.touch (votes lastApplied persistedIndex : Nat) (nextIndex : Fin n → Nat) :
    Sim g p { rf with
      votes := votes
      lastApplied := lastApplied
      persistedIndex := persistedIndex
      nextIndex := nextIndex } :=
  ⟨h.term, h.views.congr rfl rfl rfl, h.commit, h.included, h.voted, h.leader, h.candidate,
    h.matched⟩

theorem Sim.buildRequest (hg : Inv LogEntry.term g) (hlead : rf.state = .leader) {data : Bytes}
    {request : Option (Request n Cmd)} (hbd : rf.buildRequest server data = some (rf', request)) :
    rf'.Sim g p ∧ match request with
      | none => True
      | some (.append args) => ∃ S, args.Spoken g p S
      | some (.install args) => ∃ S, args.Spoken g p S := by
  have hled := h.leader hlead
  have hlog : g.log p = g.termLog rf.currentTerm := by
    have := hg.leader_log p (by rw [h.term]; exact hled)
    rwa [h.term] at this
  have hsource : g.log p <+: g.termLog rf.currentTerm := by rw [hlog]
  have hcom := h.committed hg
  obtain ⟨⟨next, hrf⟩, hcases⟩ := buildRequest_cases hbd
  refine ⟨?_, ?_⟩
  · rw [hrf]
    exact h.touch _ _ _ next
  · rcases hcases with rfl | ⟨_, _, rfl⟩ | ⟨prevTerm, _, _, rfl⟩
    · trivial
    · exact ⟨g.log p, hled, hsource, h.views.term, hcom.le h.included⟩
    · exact ⟨g.log p, hled, h.views.carries hbd, hsource, hcom⟩

theorem Sim.applier (hg : Inv LogEntry.term g) :
    rf.applier.1.Sim g p ∧ ∀ msg ∈ rf.applier.2, msg.Committed g := by
  refine ⟨?_, ?_⟩
  · obtain ⟨k, hk⟩ := collect_eq rf.commitIndex rf
    rw [Raft.applier, hk]
    exact h.touch _ k _ _
  · intro msg hmsg
    cases msg with
    | command cmd index =>
      obtain ⟨hinc, hcomm, _, entry, hent, rfl⟩ := mem_collect hmsg
      rw [h.views.entryAt hinc] at hent
      refine ⟨by omega, rf.currentTerm, g.log p, (h.committed hg).le hcomm, ?_⟩
      rw [hent]
      rfl
    | snapshot _ _ _ => trivial

theorem Sim.handleVoteResponse (hme : rf.me = p) (hg : Inv LogEntry.term g)
    (reply : RequestVoteReply) (hvs : reply.voteGranted = true → reply.term = rf.currentTerm →
      rf.state = .candidate → ∃ Q : Finset (Fin n), Q.card = rf.votes + 1 ∧
        ∀ v ∈ Q, g.vote v rf.currentTerm = some p) :
    ∃ g', Turn LogEntry.term p g g' ∧ (rf.handleVoteResponse reply).1.Sim g' p := by
  unfold Raft.handleVoteResponse
  split
  · rename_i hlt
    rw [← catchUp_of_lt hlt]
    exact ⟨_, h.turn_advance hlt.le, h.advance hg hlt.le⟩
  · split
    · exact ⟨g, Turn.refl p g, h⟩
    · split
      · exact ⟨g, Turn.refl p g, h⟩
      · rename_i hcand
        rw [not_not] at hcand
        split
        · rename_i hgr
          have hcount : Sim g p { rf with votes := rf.votes + 1 } := h.touch _ _ _ _
          dsimp only
          split
          · rename_i hwin
            obtain ⟨Q, hcard, hQ⟩ := hvs hgr (by omega) hcand
            have hmaj : Majority Q := by
              rw [Majority, Fintype.card_fin, hcard]
              exact hwin
            exact hcount.becomeLeader hme hg hcand hmaj hQ
          · exact ⟨g, Turn.refl p g, hcount⟩
        · exact ⟨g, Turn.refl p g, h⟩

end

end Raft

end OrbisKV
