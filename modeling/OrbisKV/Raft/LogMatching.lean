import OrbisKV.Raft.Election
import OrbisKV.Raft.LogView
/-!
# Log matching

Crash-free runs of a group that takes no snapshots.
-/

namespace OrbisKV

open Lib.TermLog Function List Node

variable {n : Nat} {Cmd : Type}

namespace Node

variable {nd nd' : Node n Cmd}

structure Plain (nd : Node n Cmd) : Prop where
  index : nd.rf.lastIncludedIndex = 0
  term : nd.rf.lastIncludedTerm = 0
  found : nd.persister.foundSnapshot = []
  saves : ∀ r ∈ nd.persister.saves, r.snapshot = []

section

variable (h : nd.Plain)

include h

theorem Plain.views : nd.rf.Views nd.rf.log.entries := by
  refine ⟨?_, ?_, ?_⟩
  · rw [h.index, drop_zero]
  · rw [h.index]
    exact Nat.zero_le _
  · rw [h.index, h.term]
    rfl

theorem Plain.entries_of_views {L : List (LogEntry Cmd)}
    (hL : nd.rf.Views L) : nd.rf.log.entries = L := by
  rw [hL.entries, h.index, drop_zero]

theorem Plain.readSnapshot : nd.persister.readSnapshot = [] := by
  unfold Persister.readSnapshot
  split
  · rename_i r hr
    exact h.saves r (mem_of_mem_filter (mem_of_getLast? hr))
  · exact h.found

section

variable (hix : nd'.rf.lastIncludedIndex = nd.rf.lastIncludedIndex)
  (hterm : nd'.rf.lastIncludedTerm = nd.rf.lastIncludedTerm)

include hix hterm

theorem Plain.of_same (hsav : nd.persister.SameSaves nd'.persister) : nd'.Plain := by
  refine ⟨hix.trans h.index, hterm.trans h.term, hsav.snapshot.trans h.found, ?_⟩
  rw [hsav.saves]
  exact h.saves

theorem Plain.of_adds {r : SaveRequest n Cmd}
    (hr : r.snapshot = []) (hsav : nd.persister.Adds nd'.persister r) : nd'.Plain := by
  refine ⟨hix.trans h.index, hterm.trans h.term, hsav.snapshot.trans h.found, ?_⟩
  rw [hsav.saves]
  intro q hq
  rw [mem_append, mem_singleton] at hq
  rcases hq with hq | rfl
  · exact h.saves q hq
  · exact hr

end

theorem Plain.finishSave (id : Nat) :
    Plain { nd with persister := nd.persister.finishSave id } := by
  refine ⟨h.index, h.term, h.found, ?_⟩
  intro r hr
  change r ∈ nd.persister.saves.modify id SaveRequest.fire at hr
  obtain ⟨j, hj, rfl⟩ := getElem_of_mem hr
  have hlt : j < nd.persister.saves.length := by simpa using hj
  have hold := h.saves nd.persister.saves[j] (getElem_mem hlt)
  rw [getElem_modify]
  split <;> exact hold

theorem Plain.act {sec : Section Cmd} {body : Option (CallBody n Cmd)}
    (hact : nd.act sec = some (nd', body))
    (hsnap : ∀ index data, sec ≠ .snapshot index data) : nd'.Plain := by
  have hlog := sameLog_act hact
  have hsav := sameSaves_act hact
  cases acts hact with
  | start command rf hrf =>
    unfold Raft.start at hrf
    split at hrf <;> cases hrf
    exact h.of_adds rfl rfl rfl ⟨rfl, rfl, rfl⟩
  | saveDone id => exact h.finishSave id
  | _ =>
    have hlog := hlog (by simp) hsnap
    exact h.of_same hlog.index hlog.term (hsav (by simp) hsnap (by simp))

end

end Node

theorem Node.Plain.appendEntries {nd nd' : Node n Cmd} (h : nd.Plain)
    {args : AppendEntriesArgs n Cmd} {body : CallBody n Cmd}
    (hsv : nd.serve (.appendRequested args) = some (nd', body)) : nd'.Plain := by
  cases serves hsv
  obtain ⟨hix, hterm⟩ := nd.rf.appendEntries_included args
  rcases nd.finishAppend_saves (nd.rf.appendEntries args).1 args (nd.rf.appendEntries args).2.1
    (nd.rf.appendEntries args).2.2 with ⟨_, hsav⟩ | ⟨_, hsav⟩
  · refine h.of_same ?_ ?_ hsav <;> rw [finishAppend_rf]
    · exact hix
    · exact hterm
  · refine h.of_adds ?_ ?_ rfl hsav <;> rw [finishAppend_rf]
    · exact hix
    · exact hterm

def Call.Sound (G : Nat → List (LogEntry Cmd)) (c : Call n Cmd) : Prop :=
  match c.body with
  | .appendRequested args => ∃ S, Grown LogEntry.term G S ∧ args.Carries S
  | .installRequested _ => False
  | _ => True

theorem Call.Sound.mono {G G' : Nat → List (LogEntry Cmd)} (hG : Extends G G')
    {c : Call n Cmd} (h : c.Sound G) : c.Sound G' := by
  unfold Sound at h ⊢
  split
  · rename_i args hbody
    rw [hbody] at h
    obtain ⟨S, hS, hargs⟩ := h
    exact ⟨S, hS.mono hG, hargs⟩
  · rename_i args hbody
    rw [hbody] at h
    exact h
  · trivial

theorem Call.sound_of_ne {G : Nat → List (LogEntry Cmd)} {c : Call n Cmd}
    (happ : ∀ args, c.body ≠ .appendRequested args)
    (hins : ∀ args, c.body ≠ .installRequested args) : c.Sound G := by
  unfold Sound
  split
  · exact absurd ‹_› (happ _)
  · exact absurd ‹_› (hins _)
  · trivial

theorem Node.serve_ne_requested {nd nd' : Node n Cmd} {body body' : CallBody n Cmd}
    (h : nd.serve body = some (nd', body')) :
    (∀ args, body' ≠ .appendRequested args) ∧ ∀ args, body' ≠ .installRequested args := by
  cases serve_follows h <;> simp

namespace Cluster

variable {s s' : Cluster n Cmd} {G : Nat → List (LogEntry Cmd)} {led : Nat → Option (Fin n)}
  {nd : Node n Cmd}

def logOf (s : Cluster n Cmd) (p : Fin n) : List (LogEntry Cmd) := (s.node p).rf.log.entries

structure Matching (s : Cluster n Cmd) (G : Nat → List (LogEntry Cmd))
    (led : Nat → Option (Fin n)) : Prop where
  elections : s.Elections
  plain : ∀ p, (s.node p).Plain
  grown : ∀ p, Grown LogEntry.term G (s.logOf p)
  sound : ∀ c ∈ s.calls, c.Sound G
  leader : ∀ p, (s.node p).rf.state = .leader →
    led (s.node p).rf.currentTerm = some p ∧ G (s.node p).rf.currentTerm = s.logOf p
  led_elected : ∀ t p, led t = some p → s.Elected p t ∧ (t < (s.node p).rf.currentTerm ∨
      (t = (s.node p).rf.currentTerm ∧ (s.node p).rf.state ≠ .candidate))
  unled : ∀ t, led t = none → G t = []

theorem Matching.of_calm (h : s.Matching G led) (hE : s'.Elections) (hcast : CastLe s s')
    (hpl : ∀ p, (s'.node p).Plain) (hcalm : ∀ p, Raft.Calm (s.node p).rf (s'.node p).rf)
    (hgrown : ∀ p, Grown LogEntry.term G (s'.logOf p))
    (hlead : ∀ p, (s'.node p).rf.state = .leader → s'.logOf p = s.logOf p)
    (hsound : ∀ c ∈ s'.calls, c.Sound G) : s'.Matching G led := by
  refine ⟨hE, hpl, hgrown, hsound, ?_, ?_, h.unled⟩
  · intro p hp
    rcases (hcalm p).role with hfol | ⟨hst, hterm, _⟩
    · rw [hfol] at hp
      cases hp
    · rw [hterm, hlead p hp]
      exact h.leader p (hst ▸ hp)
  · intro t p hled
    obtain ⟨hele, hpast⟩ := h.led_elected t p hled
    refine ⟨hcast.elected hele, ?_⟩
    have hle := HardState.term_le (hcalm p).le
    change (s.node p).rf.currentTerm ≤ (s'.node p).rf.currentTerm at hle
    rcases hpast with hlt | ⟨heq, hcand⟩
    · exact .inl (by omega)
    · rcases (hcalm p).role with hfol | ⟨hst, hterm, _⟩
      · rcases Nat.lt_or_ge t (s'.node p).rf.currentTerm with hlt | hge
        · exact .inl hlt
        · exact .inr ⟨by omega, by rw [hfol]; decide⟩
      · exact .inr ⟨by omega, by rw [hst]; exact hcand⟩

theorem Matching.crown (h : s.Matching G led) (hE : s'.Elections) (hcast : CastLe s s')
    {p : Fin n} (hp : (s'.node p).rf.state = .leader)
    (hnew : (s.node p).rf.currentTerm < (s'.node p).rf.currentTerm ∨
      ((s.node p).rf.currentTerm = (s'.node p).rf.currentTerm ∧ (s.node p).rf.state = .candidate))
    (hpl : ∀ q, (s'.node q).Plain) (hother : ∀ q, q ≠ p → s'.node q = s.node q)
    (hlog : ∀ q, s'.logOf q = s.logOf q) (hsound : ∀ c ∈ s'.calls, c.Sound G) :
    s'.Matching (update G (s'.node p).rf.currentTerm (s'.logOf p))
      (update led (s'.node p).rf.currentTerm (some p)) := by
  have hnone : led (s'.node p).rf.currentTerm = none := by
    by_contra hsome
    obtain ⟨q, hq⟩ := Option.ne_none_iff_exists'.mp hsome
    obtain ⟨hele, hpast⟩ := h.led_elected _ q hq
    obtain rfl := hE.elected_unique (hcast.elected hele) (hE.leader p hp)
    rcases hnew with hlt | ⟨heq, hcand⟩
    · omega
    · rcases hpast with hlt | ⟨_, hne⟩
      · omega
      · exact hne hcand
  have hG : Extends G (update G (s'.node p).rf.currentTerm (s'.logOf p)) := by
    apply Extends.update
    rw [h.unled _ hnone]
    exact nil_prefix
  refine ⟨hE, hpl, ?_, fun c hc => (hsound c hc).mono hG, ?_, ?_, ?_⟩
  · intro q
    rw [hlog q]
    exact (h.grown q).mono hG
  · intro q hq
    by_cases hqp : q = p
    · subst hqp
      rw [update_self, update_self]
      exact ⟨rfl, rfl⟩
    · rw [hother q hqp] at hq ⊢
      obtain ⟨hled, hlogq⟩ := h.leader q hq
      have hne : (s.node q).rf.currentTerm ≠ (s'.node p).rf.currentTerm := by
        intro heq
        rw [heq, hnone] at hled
        cases hled
      rw [update_of_ne hne, update_of_ne hne, hlog q]
      exact ⟨hled, hlogq⟩
  · intro t q hled
    by_cases ht : t = (s'.node p).rf.currentTerm
    · subst ht
      rw [update_self] at hled
      cases hled
      exact ⟨hE.leader p hp, .inr ⟨rfl, by rw [hp]; decide⟩⟩
    · rw [update_of_ne ht] at hled
      obtain ⟨hele, hpast⟩ := h.led_elected t q hled
      refine ⟨hcast.elected hele, ?_⟩
      by_cases hqp : q = p
      · subst hqp
        rcases hpast with hlt | ⟨heq, hne⟩
        · exact .inl (by omega)
        · rcases hnew with hlt | ⟨_, hcand⟩
          · exact .inl (by omega)
          · exact absurd hcand hne
      · rw [hother q hqp]
        exact hpast
  · intro t ht
    by_cases heq : t = (s'.node p).rf.currentTerm
    · subst heq
      rw [update_self] at ht
      cases ht
    · rw [update_of_ne heq] at ht ⊢
      exact h.unled t ht

def noSnapshot : Action n Cmd → Bool
  | .crash _ _ => false
  | .run _ (.snapshot _ _) => false
  | _ => true

theorem plain_update (h : ∀ p, (s.node p).Plain) {q : Fin n} (hnode : s'.node = update s.node q nd)
    (hq : nd.Plain) (p : Fin n) : (s'.node p).Plain :=
  forall_node (P := fun _ nd => nd.Plain) hnode hq (fun p _ => h p) p

theorem logOf_update {q : Fin n} (hnode : s'.node = update s.node q nd)
    (hq : nd.rf.log.entries = s.logOf q) (p : Fin n) : s'.logOf p = s.logOf p :=
  forall_node (P := fun p nd => nd.rf.log.entries = s.logOf p) hnode hq (fun _ _ => rfl) p

section

variable (h : s.Matching G led)

include h

theorem Matching.of_sameLog (hE : s'.Elections) (hcast : CastLe s s')
    {q : Fin n} (hnode : s'.node = update s.node q nd) (hpl : nd.Plain)
    (hcalm : Raft.Calm (s.node q).rf nd.rf) (hlog : Raft.SameLog (s.node q).rf nd.rf)
    (hsound : ∀ c ∈ s'.calls, c.Sound G) : s'.Matching G led := by
  have hsame := logOf_update hnode (congrArg RaftLog.entries hlog.log)
  refine h.of_calm hE hcast (plain_update h.plain hnode hpl) (calm_update hnode hcalm) ?_
    (fun p _ => hsame p) hsound
  intro p
  rw [hsame p]
  exact h.grown p

theorem Matching.start {p : Fin n} {command : Option Cmd}
    (hstep : s.step (.run p (.start command)) = some s') : ∃ G', s'.Matching G' led := by
  have hE := h.elections.step hstep
  have hcast := (h.elections.recorded_step hstep).2
  obtain ⟨nd, body, hact, hnode, hcalls⟩ := step_run hstep
  have hpl := (h.plain p).act hact (by simp)
  cases acts hact
  rename_i rf hrf
  have hsta := hrf
  unfold Raft.start at hrf
  split_ifs at hrf with hlead
  obtain ⟨hled, hG⟩ := h.leader p hlead
  -- the entry goes on top of the log of the term
  set t := (s.node p).rf.currentTerm with ht
  set e : LogEntry Cmd := ⟨t, command⟩ with he
  have hgrown : Grown LogEntry.term G (G t) := hG ▸ h.grown p
  have hext : Extends G (update G t (G t ++ [e])) := Extends.update (prefix_append _ _)
  have hother : ∀ q, q ≠ p → s'.node q = s.node q := fun q hq => by
    rw [hnode, update_of_ne hq]
  have hp : (s'.node p).rf = rf := by rw [hnode, update_self]
  have hlog : s'.logOf p = G t ++ [e] := by
    rw [logOf, hp, hG]
    cases hrf
    rfl
  have hst : (s'.node p).rf.state = .leader ∧ (s'.node p).rf.currentTerm = t := by
    rw [hp]
    cases hrf
    exact ⟨hlead, rfl⟩
  refine ⟨update G t (G t ++ [e]), hE, plain_update h.plain hnode hpl, ?_, ?_, ?_, ?_, ?_⟩
  · intro q
    by_cases hq : q = p
    · subst hq
      rw [hlog]
      exact hgrown.append rfl
    · rw [logOf, hother q hq]
      exact (h.grown q).mono hext
  · intro c hc
    rw [hcalls, spawn, append_nil] at hc
    exact (h.sound c hc).mono hext
  · intro q hq
    by_cases hqp : q = p
    · subst hqp
      rw [hst.2, update_self, hlog]
      exact ⟨hled, rfl⟩
    · rw [hother q hqp] at hq ⊢
      obtain ⟨hledq, hGq⟩ := h.leader q hq
      have hne : (s.node q).rf.currentTerm ≠ t := by
        intro heq
        rw [heq, hled] at hledq
        exact hqp (Option.some.inj hledq).symm
      rw [update_of_ne hne, logOf, hother q hqp]
      exact ⟨hledq, hGq⟩
  · intro t' q hq
    obtain ⟨hele, hpast⟩ := h.led_elected t' q hq
    refine ⟨hcast.elected hele, ?_⟩
    by_cases hqp : q = p
    · subst hqp
      rw [hst.1, hst.2]
      rcases hpast with hlt | ⟨heq, _⟩
      · exact .inl hlt
      · exact .inr ⟨heq, by decide⟩
    · rw [hother q hqp]
      exact hpast
  · intro t' ht'
    have hne : t' ≠ t := by
      rintro rfl
      rw [hled] at ht'
      cases ht'
    rw [update_of_ne hne]
    exact h.unled t' ht'

theorem Matching.run {p : Fin n} {sec : Section Cmd}
    (hok : noSnapshot (.run p sec : Action n Cmd) = true)
    (hstep : s.step (.run p sec) = some s') : ∃ G' led', s'.Matching G' led' := by
  by_cases hsta : ∃ command, sec = .start command
  · obtain ⟨command, rfl⟩ := hsta
    obtain ⟨G', hG'⟩ := h.start hstep
    exact ⟨G', led, hG'⟩
  · push Not at hsta
    have hsnap : ∀ index data, sec ≠ .snapshot index data := by
      rintro index data rfl
      cases hok
    have hE := h.elections.step hstep
    have hcast := (h.elections.recorded_step hstep).2
    obtain ⟨nd, body, hact, hnode, hcalls⟩ := step_run hstep
    have hpl := (h.plain p).act hact hsnap
    have hlog := sameLog_act hact hsta hsnap
    have hsound : ∀ c ∈ s'.calls, c.Sound G := by
      intro c hc
      rw [hcalls, mem_append] at hc
      rcases hc with hc | hc
      · exact h.sound c hc
      · obtain ⟨_, _, _, hbody⟩ := mem_spawn hc
        by_cases hsec : sec = .startElection
        · subst hsec
          rw [hbody] at hact
          cases hb : c.body with
          | voteRequested args => exact Call.sound_of_ne (by simp [hb]) (by simp [hb])
          | _ =>
            rw [hb] at hact
            cases acts hact
        · rcases act_body hact hsec with hb | ⟨hb, _⟩
          · rw [hbody] at hb
            cases hb
          · rw [hbody, Option.some.injEq] at hb
            exact Call.sound_of_ne (by simp [hb]) (by simp [hb])
    by_cases hsec : sec = .startElection
    · subst hsec
      have hrf : (s'.node p).rf = (s.node p).rf.startElection.1 := by
        cases acts hact
        rw [hnode, update_self]
        rfl
      have hterm : (s'.node p).rf.currentTerm = (s.node p).rf.currentTerm + 1 := by
        rw [hrf]
        exact congrArg HardState.currentTerm (Raft.startElection_hardState _)
      have hsame := logOf_update hnode (congrArg RaftLog.entries hlog.log)
      have hother : ∀ q, q ≠ p → s'.node q = s.node q := fun q hq => by
        rw [hnode, update_of_ne hq]
      rcases (s.node p).rf.startElection_state with ⟨_, hlead⟩ | ⟨_, hcand⟩
      · -- a group of one node elects it at once
        exact ⟨_, _, h.crown hE hcast (hrf ▸ hlead) (.inl (by omega))
          (plain_update h.plain hnode hpl) hother hsame hsound⟩
      · refine ⟨G, led, hE, plain_update h.plain hnode hpl, ?_, hsound, ?_, ?_, h.unled⟩
        · intro q
          rw [hsame q]
          exact h.grown q
        · intro q hq
          by_cases hqp : q = p
          · subst hqp
            rw [hrf, hcand] at hq
            cases hq
          · rw [hother q hqp] at hq ⊢
            rw [hsame q]
            exact h.leader q hq
        · intro t q hq
          obtain ⟨hele, hpast⟩ := h.led_elected t q hq
          refine ⟨hcast.elected hele, ?_⟩
          by_cases hqp : q = p
          · subst hqp
            left
            rcases hpast with hlt | ⟨heq, _⟩ <;> omega
          · rw [hother q hqp]
            exact hpast
    · exact ⟨G, led, h.of_sameLog hE hcast hnode hpl (calm_act hact hsec) hlog hsound⟩

theorem Matching.serve {i : Nat} (hstep : s.step (.serve i) = some s') : s'.Matching G led := by
  have hE := h.elections.step hstep
  have hcast := (h.elections.recorded_step hstep).2
  obtain ⟨c, nd, body, hc, hsv, hnode, hcalls⟩ := step_serve hstep
  have hcmem := mem_of_getElem? hc
  have hcalm := calm_serve hsv
  have hsound : ∀ d ∈ s'.calls, d.Sound G := by
    intro d hd
    rw [hcalls] at hd
    rcases mem_or_eq_of_mem_set hd with hd | rfl
    · exact h.sound d hd
    · obtain ⟨happ, hins⟩ := serve_ne_requested hsv
      exact Call.sound_of_ne happ hins
  have hcs := h.sound c hcmem
  by_cases hins : ∃ args, c.body = .installRequested args
  · obtain ⟨args, hbody⟩ := hins
    rw [Call.Sound, hbody] at hcs
    exact hcs.elim
  · push Not at hins
    by_cases happ : ∃ args, c.body = .appendRequested args
    · obtain ⟨args, hbody⟩ := happ
      rw [Call.Sound, hbody] at hcs
      obtain ⟨S, hS, hargs⟩ := hcs
      rw [hbody] at hsv
      have hpl := (h.plain c.dst).appendEntries hsv
      have hlog : nd.rf.log.entries = s.logOf c.dst ∨
          (nd.rf.log.entries = S ∧ nd.rf.state = .follower) := by
        have hrf : nd.rf = ((s.node c.dst).rf.appendEntries args).1 := by
          cases serves hsv
          exact finishAppend_rf ..
        rcases (h.plain c.dst).views.appendEntries (h.grown c.dst) hS hargs with
          hold | ⟨hnew, hfol⟩
        · exact .inl (hpl.entries_of_views (hrf ▸ hold))
        · exact .inr ⟨hpl.entries_of_views (hrf ▸ hnew), hrf ▸ hfol⟩
      have hlogs : ∀ p, s'.logOf p = s.logOf p ∨
          (s'.logOf p = S ∧ (s'.node p).rf.state = .follower) := by
        refine forall_node (P := fun p nd => nd.rf.log.entries = s.logOf p ∨
          (nd.rf.log.entries = S ∧ nd.rf.state = .follower)) hnode hlog ?_
        exact fun _ _ => .inl rfl
      refine h.of_calm hE hcast (plain_update h.plain hnode hpl) (calm_update hnode hcalm)
        ?_ ?_ hsound
      · intro p
        rcases hlogs p with heq | ⟨heq, _⟩
        · rw [heq]
          exact h.grown p
        · rw [heq]
          exact hS
      · intro p hlead
        rcases hlogs p with heq | ⟨_, hfol⟩
        · exact heq
        · rw [hfol] at hlead
          cases hlead
    · push Not at happ
      have hlog := sameLog_serve hsv happ hins
      have hsav := sameSaves_serve hsv happ hins
      exact h.of_sameLog hE hcast hnode
        ((h.plain c.dst).of_same hlog.index hlog.term hsav) hcalm hlog hsound

theorem Matching.resume {i : Nat}
    (hstep : s.step (.resume i) = some s') : ∃ G' led', s'.Matching G' led' := by
  have hE := h.elections.step hstep
  have hcast := (h.elections.recorded_step hstep).2
  obtain ⟨c, nd, body, hc, _, hres, hnode, hcalls⟩ := step_resume hstep
  have hlog := sameLog_resume hres
  have hpl := (h.plain c.src).of_same hlog.index hlog.term (sameSaves_resume hres)
  have hsound : ∀ d ∈ s'.calls, d.Sound G := by
    intro d hd
    rw [hcalls] at hd
    rcases mem_setCall hd with hd | ⟨b, rfl, rfl⟩
    · exact h.sound d hd
    · have hspa := (resume_some hres).1
      rw [hspa] at hres
      obtain ⟨rf, request, hbd, _, hreq⟩ := resume_spawned hres
      rw [(h.plain c.src).readSnapshot] at hbd
      rcases request with _ | ⟨args | args⟩
      · cases hreq
      · cases hreq
        exact ⟨_, h.grown c.src, (h.plain c.src).views.carries hbd⟩
      · rcases (Raft.buildRequest_cases hbd).2 with hn | ⟨hdata, _⟩ | ⟨_, _, _, heq⟩
        · cases hn
        · exact absurd rfl hdata
        · cases heq
  by_cases hvote : ∃ args reply, c.body = .voteReplied args reply
  · obtain ⟨args, reply, hbody⟩ := hvote
    rw [hbody] at hres
    cases resumes hres
    rcases (s.node c.src).rf.handleVoteResponse_cases reply with
      ⟨hcalm, _⟩ | ⟨_, hcand, _, heq⟩
    · exact ⟨G, led, h.of_sameLog hE hcast hnode hpl hcalm hlog hsound⟩
    · have hrf : (s'.node c.src).rf = (if n / 2 < (s.node c.src).rf.votes + 1 then
          Raft.becomeLeader { (s.node c.src).rf with votes := (s.node c.src).rf.votes + 1 }
          else { (s.node c.src).rf with votes := (s.node c.src).rf.votes + 1 }) := by
        rw [hnode, update_self, heq]
        rfl
      have hterm : (s.node c.src).rf.currentTerm = (s'.node c.src).rf.currentTerm := by
        rw [hrf]
        split <;> rfl
      have hsame := logOf_update hnode (congrArg RaftLog.entries hlog.log)
      have hother : ∀ q, q ≠ c.src → s'.node q = s.node q := fun q hq => by
        rw [hnode, update_of_ne hq]
      by_cases hwin : n / 2 < (s.node c.src).rf.votes + 1
      · rw [if_pos hwin] at hrf
        have hlead : (s'.node c.src).rf.state = .leader := by rw [hrf]; rfl
        exact ⟨_, _, h.crown hE hcast hlead (.inr ⟨hterm, hcand⟩)
          (plain_update h.plain hnode hpl) hother hsame hsound⟩
      · rw [if_neg hwin] at hrf
        -- one more vote, and still a candidate of the same term
        have hst : ∀ p, (s'.node p).rf.state = (s.node p).rf.state ∧
            (s'.node p).rf.currentTerm = (s.node p).rf.currentTerm := by
          intro p
          by_cases hp : p = c.src
          · subst hp
            exact ⟨by rw [hrf], hterm.symm⟩
          · rw [hother p hp]
            exact ⟨rfl, rfl⟩
        refine ⟨G, led, hE, plain_update h.plain hnode hpl, ?_, hsound, ?_, ?_, h.unled⟩
        · intro p
          rw [hsame p]
          exact h.grown p
        · intro p hp
          rw [(hst p).2, hsame p]
          exact h.leader p ((hst p).1 ▸ hp)
        · intro t p hp
          rw [(hst p).1, (hst p).2]
          obtain ⟨hele, hpast⟩ := h.led_elected t p hp
          exact ⟨hcast.elected hele, hpast⟩
  · push Not at hvote
    exact ⟨G, led, h.of_sameLog hE hcast hnode hpl (calm_resume hres hvote) hlog hsound⟩

theorem Matching.step {a : Action n Cmd} (hok : noSnapshot a = true)
    (hstep : s.step a = some s') : ∃ G' led', s'.Matching G' led' := by
  cases a with
  | run p sec => exact h.run hok hstep
  | serve i => exact ⟨G, led, h.serve hstep⟩
  | resume i => exact h.resume hstep
  | crash p id => cases hok

end

theorem matching_boot :
    (boot : Cluster n Cmd).Matching (fun _ => []) (fun _ => none) where
  elections := elections_boot
  plain _ := ⟨rfl, rfl, rfl, nofun⟩
  grown _ := Grown.nil _
  sound _ h := by cases h
  leader _ h := by cases h
  led_elected _ _ h := by cases h
  unled _ _ := rfl

theorem matching_of_reachable (h : (system n Cmd).Reachable (fun _ a => noSnapshot a = true) s) :
    ∃ G led, s.Matching G led := by
  refine h.invariant (I := fun t => ∃ G led, t.Matching G led) ?_ ?_
  · rintro _ rfl
    exact ⟨_, _, matching_boot⟩
  · rintro t a u ⟨G, led, hm⟩ hok hstep
    exact hm.step hok hstep

/-- In every crash-free run without snapshots: where two logs hold entries of the same
term at an index, they hold the same entries up to this index. -/
theorem log_matching (hs : (system n Cmd).Reachable (fun _ a => noSnapshot a = true) s)
    {p q : Fin n} {i : Nat} {d e : LogEntry Cmd} (hd : (s.node p).rf.entryAt i = some d)
    (he : (s.node q).rf.entryAt i = some e) (hterm : d.term = e.term) {j : Nat} (hj : j ≤ i) :
    (s.node p).rf.entryAt j = (s.node q).rf.entryAt j := by
  obtain ⟨G, led, h⟩ := matching_of_reachable hs
  have hent : ∀ r k, (s.node r).rf.entryAt (k + 1) = (s.logOf r)[k]? := by
    intro r k
    rw [(h.plain r).views.entryAt (by rw [(h.plain r).index]; omega)]
    rfl
  have hzero : ∀ r, (s.node r).rf.entryAt 0 = none := fun r => by simp [Raft.entryAt]
  cases i with
  | zero =>
    rw [hzero] at hd
    cases hd
  | succ i =>
    cases j with
    | zero => rw [hzero, hzero]
    | succ j =>
      rw [hent] at hd he ⊢
      rw [hent]
      exact getElem?_eq_of_take_eq ((h.grown p).matching (h.grown q) _ _ _ hd he hterm) (by omega)

theorem log_matching_two_entries :
    ∃ s : Cluster 3 Nat, (s.node 2).rf.entryAt 2 = some ⟨1, some 8⟩ ∧
      (s.node 0).rf.entryAt 1 = (s.node 2).rf.entryAt 1 := by
  obtain ⟨s, hs, h0, h2⟩ := Lib.System.exists_of_execOk (system 3 Nat)
    (fun _ a => noSnapshot a = true) boot
    (electFirst ++ [.run 0 (.start (some 7)), .run 0 (.start (some 8)), .run 0 .sendHeartbeats,
      .resume 2, .serve 2])
    (fun s => (s.node 0).rf.entryAt 2 = some ⟨1, some 8⟩ ∧
      (s.node 2).rf.entryAt 2 = some ⟨1, some 8⟩) (by decide)
  exact ⟨s, h2, log_matching ⟨_, rfl, hs⟩ h0 h2 rfl (by decide)⟩

end Cluster

end OrbisKV
