import OrbisKV.Lib.Consensus
import OrbisKV.Raft.Roles
/-!
# Election safety across crashes

A vote counts for the proof once its hard-state request is durable: `Cast v t c`.
-/

namespace OrbisKV

open Lib.Consensus Call Finset Function Lib.System List Node Option Persister Raft

variable {n : Nat} {Cmd : Type}

/-! ## The disk of one node -/

structure Node.Recorded (p : Fin n) (nd : Node n Cmd) : Prop where
  me : nd.rf.me = p
  done_le : nd.HardDoneLe
  ordered : nd.persister.hardStates.Pairwise (· ≤ ·)
  current : ∀ h ∈ nd.persister.hardStates, h ≤ nd.rf.hardState

namespace Node

variable {p : Fin n} {nd nd' : Node n Cmd} {ps : Persister n Cmd} {id : Option Nat}

theorem Recorded.forward (h : Recorded p nd) (hfor : Forward nd nd') : Recorded p nd' := by
  have hcurr : ∀ x ∈ nd.persister.hardStates, x ≤ nd'.rf.hardState :=
    fun x hx => (h.current x hx).trans hfor.le
  refine ⟨hfor.me.trans h.me, hfor.done_le, ?_, ?_⟩
  · rcases hfor.requests with heq | heq
    · rw [heq]
      exact h.ordered
    · rw [heq, pairwise_append]
      refine ⟨h.ordered, pairwise_singleton _ _, ?_⟩
      intro x hx y hy
      rw [List.mem_singleton] at hy
      exact hy ▸ hcurr x hx
  · rcases hfor.requests with heq | heq
    · rw [heq]
      exact hcurr
    · intro x hx
      rw [heq, List.mem_append, List.mem_singleton] at hx
      rcases hx with hx | rfl
      · exact hcurr x hx
      · exact le_refl _

theorem make_hardState (p : Fin n) (ps : Persister n Cmd) :
    (make p ps).rf.hardState =
      (((fresh p).readPersist ps.durable).readHardState ps.readHardState).hardState := rfl

theorem make_me (p : Fin n) (ps : Persister n Cmd) : (make p ps).rf.me = p := by
  change ((Raft.readHardState _ _).me) = p
  unfold Raft.readHardState
  split
  · cases ps.durable <;> rfl
  · split <;> cases ps.durable <;> rfl

theorem make_state (p : Fin n) (ps : Persister n Cmd) : (make p ps).rf.state = .follower := by
  change ((Raft.readHardState _ _).state) = .follower
  unfold Raft.readHardState
  split
  · cases ps.durable <;> rfl
  · split <;> cases ps.durable <;> rfl

theorem le_readHardState (rf : Raft n Cmd) (hs : HardState n) :
    hs ≤ (rf.readHardState (some hs)).hardState := by
  unfold Raft.readHardState
  dsimp only
  split
  · exact le_refl _
  · rename_i hcond
    push Not at hcond
    rcases Nat.lt_or_ge hs.currentTerm rf.currentTerm with hlt | hge
    · exact .inl hlt
    · have heq : hs.currentTerm = rf.currentTerm := Nat.le_antisymm hcond.1 hge
      exact .inr ⟨heq, .inl (hcond.2 heq)⟩

theorem afterCrash_hardStates {ps' : Persister n Cmd} (h : ps.afterCrash id = some ps') :
    ps'.hardStates = ps.durableHardStates ∧ ps'.hardDone = ps.hardDone := by
  cases id with
  | none =>
    cases h
    exact ⟨rfl, rfl⟩
  | some id =>
    obtain ⟨r, _, rfl⟩ := map_eq_some_iff.mp h
    exact ⟨rfl, rfl⟩

theorem afterCrash_durable {ps' : Persister n Cmd} (h : ps.afterCrash id = some ps') :
    ps'.durableHardStates = ps.durableHardStates := by
  obtain ⟨hsta, hdone⟩ := afterCrash_hardStates h
  simp [durableHardStates, hsta, hdone]

theorem Recorded.crash (h : Recorded p nd) (hps : nd.persister.afterCrash id = some ps) :
    Recorded p (make p ps) := by
  obtain ⟨hsta, hdone⟩ := afterCrash_hardStates hps
  have hsub : ps.hardStates.Sublist nd.persister.hardStates := by
    rw [hsta]
    exact take_sublist _ _
  refine ⟨make_me p ps, ?_, h.ordered.sublist hsub, ?_⟩
  · change ps.hardDone ≤ ps.hardStates.length
    rw [hsta, hdone, durableHardStates, length_take]
    exact Nat.le_min.mpr ⟨le_refl _, h.done_le⟩
  · -- the node starts from the last durable request, which bounds the others
    intro x hx
    change x ∈ ps.hardStates at hx
    have hread : ps.readHardState = ps.hardStates.getLast? := by
      rw [Persister.readHardState, afterCrash_durable hps, hsta]
    obtain ⟨last, hlast⟩ : ∃ y, ps.hardStates.getLast? = some y :=
      ⟨_, getLast?_eq_some_getLast (ne_nil_of_mem hx)⟩
    have hle : x ≤ last := by
      obtain ⟨front, hfr⟩ := getLast?_eq_some_iff.mp hlast
      have hord := h.ordered.sublist hsub
      rw [hfr, pairwise_append] at hord
      rw [hfr, List.mem_append, List.mem_singleton] at hx
      rcases hx with hx | rfl
      · exact hord.2.2 x hx last (List.mem_singleton_self _)
      · exact le_refl _
    rw [make_hardState, hread, hlast]
    exact hle.trans (le_readHardState _ last)

theorem Recorded.step (h : Recorded p nd) (hstep : Cluster.NodeStep p nd nd') :
    Recorded p nd' ∧ nd.persister.durableHardStates <+: nd'.persister.durableHardStates := by
  cases hstep with
  | act sec body hact =>
    have hfor := forward_act h.done_le hact
    exact ⟨h.forward hfor, hfor.durable_isPrefix⟩
  | serve body body' hsv =>
    have hfor := forward_serve h.done_le hsv
    exact ⟨h.forward hfor, hfor.durable_isPrefix⟩
  | resume peer body body' hres =>
    have hfor := forward_resume h.done_le hres
    exact ⟨h.forward hfor, hfor.durable_isPrefix⟩
  | crash id ps hps =>
    refine ⟨h.crash hps, ?_⟩
    change _ <+: ps.durableHardStates
    rw [afterCrash_durable hps]

end Node

/-! ## Polls -/

theorem Raft.requestVote_granted {rf : Raft n Cmd} {args : RequestVoteArgs n}
    (h : (rf.requestVote args).2.1.voteGranted = true) :
    (rf.requestVote args).2.1.term = args.term ∧
      (rf.requestVote args).1.hardState = ⟨args.term, some args.candidateId⟩ ∧
      (rf.requestVote args).2.2 = true := by
  rcases rf.requestVote_cases args with ⟨_, heq⟩ | ⟨_, heq⟩ | ⟨hstale, _, _, heq⟩
  · rw [heq] at h
    cases h
  · rw [heq] at h
    cases h
  · rw [heq]
    exact ⟨rfl, by rw [hardState, rf.catchUp_currentTerm hstale], rfl⟩

def CallBody.poll? : CallBody n Cmd → Option (RequestVoteArgs n)
  | .voteRequested args => some args
  | .voteServing args _ _ => some args
  | .voteReplied args _ => some args
  | _ => none

def Call.pollKey (c : Call n Cmd) : Option (Fin n × Nat × Fin n) :=
  c.body.poll?.map fun args => (c.src, args.term, c.dst)

theorem Call.pollKey_eq_some {c : Call n Cmd} {p v : Fin n} {t : Nat} :
    c.pollKey = some (p, t, v) ↔
      c.src = p ∧ c.dst = v ∧ ∃ args, c.body.poll? = some args ∧ args.term = t := by
  unfold Call.pollKey
  rw [map_eq_some_iff]
  constructor
  · rintro ⟨args, hargs, heq⟩
    cases heq
    exact ⟨rfl, rfl, args, hargs, rfl⟩
  · rintro ⟨rfl, rfl, args, hargs, rfl⟩
    exact ⟨args, hargs, rfl⟩

theorem Node.serve_poll? {nd nd' : Node n Cmd} {body body' : CallBody n Cmd}
    (h : nd.serve body = some (nd', body')) : body'.poll? = body.poll? := by
  cases serve_follows h <;> rfl

theorem Node.resume_poll? {nd nd' : Node n Cmd} {peer : Fin n} {body body' : CallBody n Cmd}
    (h : nd.resume peer body = some (nd', some body')) : body'.poll? = none := by
  rcases (resume_some h).2 with ⟨_, rfl⟩ | ⟨_, rfl⟩ <;> rfl

namespace Cluster

variable {s s' : Cluster n Cmd} {p : Fin n} {t i : Nat} {c : Call n Cmd} {nd : Node n Cmd}

def Cast (s : Cluster n Cmd) (v : Fin n) (t : Nat) (c : Fin n) : Prop :=
  ⟨t, some c⟩ ∈ (s.node v).persister.durableHardStates

def Elected (s : Cluster n Cmd) (p : Fin n) (t : Nat) : Prop :=
  ∃ Q : Finset (Fin n), Majority Q ∧ ∀ v ∈ Q, s.Cast v t p

def Answered (s : Cluster n Cmd) (c : Call n Cmd) : Prop :=
  match c.body with
  | .voteServing args reply wait => reply.voteGranted = true → reply.term = args.term ∧
      ∃ id, wait = some id ∧ (s.node c.dst).persister.hardStates[id]? = some ⟨args.term, some c.src⟩
  | .voteReplied args reply => reply.voteGranted = true → reply.term = args.term ∧
      s.Cast c.dst args.term c.src
  | _ => True

def Tally (s : Cluster n Cmd) (p : Fin n) : Prop :=
  (s.node p).rf.state = .candidate → ∃ Q : Finset (Fin n), p ∈ Q ∧ Q.card = (s.node p).rf.votes ∧
    (∀ v ∈ Q, s.Cast v (s.node p).rf.currentTerm p) ∧
    ∀ c ∈ s.calls, c.alive = true → ∀ v, c.pollKey = some (p, (s.node p).rf.currentTerm, v) → v ∉ Q

structure Elections (s : Cluster n Cmd) : Prop where
  recorded : ∀ p, (s.node p).Recorded p
  polls : ∀ c ∈ s.calls, ∀ args, c.body.poll? = some args →
    args.candidateId = c.src ∧ s.Cast c.src args.term c.src
  keys : (s.calls.filterMap Call.pollKey).Nodup
  apart : ∀ c ∈ s.calls, c.dst ≠ c.src
  answered : ∀ c ∈ s.calls, s.Answered c
  tally : ∀ p, s.Tally p
  leader : ∀ p, (s.node p).rf.state = .leader → s.Elected p (s.node p).rf.currentTerm

/-! ## Facts that later states keep -/

def CastLe (s s' : Cluster n Cmd) : Prop := ∀ v t c, s.Cast v t c → s'.Cast v t c

theorem CastLe.elected (h : CastLe s s') (he : s.Elected p t) : s'.Elected p t := by
  obtain ⟨Q, hQ, hcast⟩ := he
  exact ⟨Q, hQ, fun v hv => h v t p (hcast v hv)⟩

theorem CastLe.answered (h : CastLe s s')
    (hreq : (s.node c.dst).persister.hardStates <+: (s'.node c.dst).persister.hardStates)
    (hc : s.Answered c) : s'.Answered c := by
  unfold Answered at hc ⊢
  split
  · rename_i args reply wait hbody
    rw [hbody] at hc
    intro hgr
    obtain ⟨hterm, id, hwait, hget⟩ := hc hgr
    exact ⟨hterm, id, hwait, Lib.TermLog.getElem?_of_isPrefix hreq hget⟩
  · rename_i args reply hbody
    rw [hbody] at hc
    exact fun hgr => ⟨(hc hgr).1, h _ _ _ (hc hgr).2⟩
  · trivial

theorem Elections.cast_le_current (h : s.Elections) {v c : Fin n} (hc : s.Cast v t c) :
    (⟨t, some c⟩ : HardState n) ≤ (s.node v).rf.hardState :=
  (h.recorded v).current _ (mem_of_mem_take hc)

theorem Elections.cast_unique (h : s.Elections) {v c d : Fin n} (hc : s.Cast v t c)
    (hd : s.Cast v t d) : c = d :=
  HardState.vote_unique_of_mem (h.recorded v).ordered (mem_of_mem_take hc) (mem_of_mem_take hd)

theorem Elections.elected_unique (h : s.Elections) {q : Fin n} (hp : s.Elected p t)
    (hq : s.Elected q t) : p = q := by
  obtain ⟨P, hP, hcastP⟩ := hp
  obtain ⟨Q, hQ, hcastQ⟩ := hq
  obtain ⟨v, hvP, hvQ⟩ := hP.meet hQ
  exact h.cast_unique (hcastP v hvP) (hcastQ v hvQ)

/-! ## Steps -/

theorem Elections.recorded_step (h : s.Elections) {a : Action n Cmd}
    (hstep : s.step a = some s') : (∀ p, (s'.node p).Recorded p) ∧ CastLe s s' := by
  have hnode : ∀ p, (s'.node p).Recorded p ∧
      (s.node p).persister.durableHardStates <+: (s'.node p).persister.durableHardStates := by
    intro p
    rcases step_node hstep p with heq | hns
    · rw [heq]
      exact ⟨h.recorded p, prefix_rfl⟩
    · exact (h.recorded p).step hns
  exact ⟨fun p => (hnode p).1, fun v t c hc => (hnode v).2.subset hc⟩

def SamePoll (c c' : Call n Cmd) : Prop :=
  (c'.alive = true → c.alive = true) ∧ c'.src = c.src ∧ c'.dst = c.dst ∧
    c'.body.poll? = c.body.poll?

theorem SamePoll.pollKey {c' : Call n Cmd} (h : SamePoll c c') : c'.pollKey = c.pollKey := by
  obtain ⟨_, hsrc, hdst, hpoll⟩ := h
  rw [Call.pollKey, Call.pollKey, hsrc, hdst, hpoll]

theorem Tally.mono (h : s.Tally p) (hcast : CastLe s s')
    (hcalm : Raft.Calm (s.node p).rf (s'.node p).rf)
    (hori : ∀ c' ∈ s'.calls, c'.alive = true → ∀ t v, c'.pollKey = some (p, t, v) →
      ∃ c ∈ s.calls, c.alive = true ∧ c.pollKey = some (p, t, v)) : s'.Tally p := by
  intro hcand
  rcases hcalm.role with hfol | ⟨hst, hterm, hvs⟩
  · rw [hfol] at hcand
    cases hcand
  · obtain ⟨Q, hp, hcard, hQ, hout⟩ := h (hst ▸ hcand)
    rw [hterm, hvs]
    refine ⟨Q, hp, hcard, fun v hv => hcast _ _ _ (hQ v hv), ?_⟩
    intro c' hc' halive v hkey
    obtain ⟨c, hc, halive', hkey'⟩ := hori c' hc' halive _ v hkey
    exact hout c hc halive' v hkey'

theorem Elections.leader_mono (h : s.Elections) (hcast : CastLe s s')
    (hcalm : Raft.Calm (s.node p).rf (s'.node p).rf) (hlead : (s'.node p).rf.state = .leader) :
    s'.Elected p (s'.node p).rf.currentTerm := by
  rcases hcalm.role with hfol | ⟨hst, hterm, _⟩
  · rw [hfol] at hlead
    cases hlead
  · rw [hterm]
    exact hcast.elected (h.leader p (hst ▸ hlead))

theorem Elections.of_calm (h : s.Elections) (hrec : ∀ p, (s'.node p).Recorded p)
    (hcast : CastLe s s') (hcalm : ∀ p, Raft.Calm (s.node p).rf (s'.node p).rf)
    (hori : ∀ c' ∈ s'.calls, c'.body.poll? = none ∨ ∃ c ∈ s.calls, SamePoll c c')
    (hkeys : (s'.calls.filterMap Call.pollKey).Sublist (s.calls.filterMap Call.pollKey))
    (hapart : ∀ c ∈ s'.calls, c.dst ≠ c.src)
    (hans : ∀ c ∈ s'.calls, s'.Answered c) : s'.Elections := by
  refine ⟨hrec, ?_, h.keys.sublist hkeys, hapart, hans, ?_, fun p => h.leader_mono hcast (hcalm p)⟩
  · intro c' hc' args hargs
    rcases hori c' hc' with hnone | ⟨c, hc, _, hsrc, _, hpoll⟩
    · rw [hnone] at hargs
      cases hargs
    · obtain ⟨hid, hself⟩ := h.polls c hc args (hpoll ▸ hargs)
      rw [hsrc]
      exact ⟨hid, hcast _ _ _ hself⟩
  · intro p
    refine (h.tally p).mono hcast (hcalm p) ?_
    intro c' hc' halive t v hkey
    rcases hori c' hc' with hnone | ⟨c, hc, hsame⟩
    · rw [Call.pollKey, hnone] at hkey
      cases hkey
    · exact ⟨c, hc, hsame.1 halive, hsame.pollKey ▸ hkey⟩

theorem calm_update {q : Fin n} (hnode : s'.node = update s.node q nd)
    (hcalm : Raft.Calm (s.node q).rf nd.rf) (p : Fin n) : Raft.Calm (s.node p).rf (s'.node p).rf :=
  forall_node (P := fun p nd => Raft.Calm (s.node p).rf nd.rf) hnode hcalm (fun _ _ => .refl _) p

theorem prefix_update {q : Fin n} (hnode : s'.node = update s.node q nd)
    (hfor : (s.node q).Forward nd) (p : Fin n) :
    (s.node p).persister.hardStates <+: (s'.node p).persister.hardStates :=
  forall_node (P := fun p nd => (s.node p).persister.hardStates <+: nd.persister.hardStates) hnode
    hfor.requests_isPrefix (fun _ _ => prefix_rfl) p

theorem filterMap_set_of_eq {α β : Type*} {f : α → Option β} {l : List α} {x y : α}
    (hx : l[i]? = some x) (hf : f y = f x) : (l.set i y).filterMap f = l.filterMap f := by
  induction l generalizing i with
  | nil => rfl
  | cons a l ih =>
    cases i with
    | zero =>
      simp only [getElem?_cons_zero, Option.some.injEq] at hx
      simp [filterMap_cons, hf, hx]
    | succ i =>
      simp only [getElem?_cons_succ] at hx
      simp [filterMap_cons, ih hx]

theorem Elections.run (h : s.Elections) {sec : Section Cmd} (hsec : sec ≠ .startElection)
    (hstep : s.step (.run p sec) = some s') : s'.Elections := by
  obtain ⟨hrec, hcast⟩ := h.recorded_step hstep
  obtain ⟨nd, body, hact, hnode, hcs⟩ := step_run hstep
  have hspawn : ∀ c ∈ spawn p body, c.body = .spawned := by
    intro c hc
    obtain ⟨_, _, _, hbody⟩ := mem_spawn hc
    rcases act_body hact hsec with hnone | ⟨hsome, _⟩
    · rw [hnone] at hbody
      cases hbody
    · rw [hsome] at hbody
      exact (Option.some.inj hbody).symm
  have hpre := prefix_update hnode (forward_act (h.recorded p).done_le hact)
  have hmem : ∀ c ∈ s'.calls, c ∈ s.calls ∨ c ∈ spawn p body := fun c hc => by
    rwa [hcs, List.mem_append] at hc
  refine h.of_calm hrec hcast (calm_update hnode (calm_act hact hsec)) ?_ ?_ ?_ ?_
  · intro c hc
    rcases hmem c hc with hc | hc
    · exact .inr ⟨c, hc, id, rfl, rfl, rfl⟩
    · rw [hspawn c hc]
      exact .inl rfl
  · have hnil : (spawn p body).filterMap Call.pollKey = [] := by
      rw [filterMap_eq_nil_iff]
      intro c hc
      rw [Call.pollKey, hspawn c hc]
      rfl
    rw [hcs, filterMap_append, hnil, append_nil]
  · intro c hc
    rcases hmem c hc with hc | hc
    · exact h.apart c hc
    · obtain ⟨hsrc, hdst, _, _⟩ := mem_spawn hc
      rw [hsrc]
      exact hdst
  · intro c hc
    rcases hmem c hc with hc | hc
    · exact hcast.answered (hpre c.dst) (h.answered c hc)
    · rw [Answered, hspawn c hc]
      trivial

theorem Answered.serve {body : CallBody n Cmd} (hnode : s'.node = update s.node c.dst nd)
    (hsv : (s.node c.dst).serve c.body = some (nd, body))
    (hpoll : ∀ args, c.body.poll? = some args → args.candidateId = c.src) (hc : s.Answered c) :
    s'.Answered { c with body := body } := by
  have hdst : s'.node c.dst = nd := by rw [hnode, update_self]
  have hser := serves hsv
  generalize hbody : c.body = cbody at hser
  cases hser with
  | voteRequested args =>
    have hid := hpoll args (by rw [hbody]; rfl)
    rw [Answered]
    revert hdst
    unfold finishVote
    split
    · intro hdst hgr
      obtain ⟨hterm, hst, _⟩ := requestVote_granted hgr
      refine ⟨hterm, _, rfl, ?_⟩
      change (s'.node c.dst).persister.hardStates[_]? = _
      rw [hdst]
      simp [enqueueHardState, hst, hid]
    · rename_i hper
      intro _ hgr
      exact absurd (requestVote_granted hgr).2.2 hper
  | voteServing args reply wait hwait =>
    rw [Answered, hbody] at hc
    rw [Answered]
    intro hgr
    obtain ⟨hterm, id, hid, hget⟩ := hc hgr
    refine ⟨hterm, ?_⟩
    rw [Cast]
    change _ ∈ (s'.node c.dst).persister.durableHardStates
    rw [hdst]
    have hlt := hwait id hid
    apply mem_of_getElem?
    rw [durableHardStates, getElem?_take_of_lt hlt, hget]
  | appendRequested args =>
    rw [Answered]
    cases ((s.node c.dst).rf.appendEntries args).2.2 <;> trivial
  | _ => trivial

theorem Elections.serve (h : s.Elections) (hstep : s.step (.serve i) = some s') : s'.Elections := by
  obtain ⟨hrec, hcast⟩ := h.recorded_step hstep
  obtain ⟨c, nd, body, hc, hsv, hnode, hcs⟩ := step_serve hstep
  have hcmem := mem_of_getElem? hc
  have hpre := prefix_update hnode (forward_serve (h.recorded c.dst).done_le hsv)
  have hpoll := serve_poll? hsv
  have hmem : ∀ d ∈ s'.calls, d ∈ s.calls ∨ d = { c with body := body } := fun d hd => by
    rw [hcs] at hd
    exact mem_or_eq_of_mem_set hd
  refine h.of_calm hrec hcast (calm_update hnode (calm_serve hsv)) ?_ ?_ ?_ ?_
  · intro d hd
    rcases hmem d hd with hd | rfl
    · exact .inr ⟨d, hd, id, rfl, rfl, rfl⟩
    · exact .inr ⟨c, hcmem, id, rfl, rfl, hpoll⟩
  · have hkey : Call.pollKey { c with body := body } = c.pollKey := by
      simp only [Call.pollKey, hpoll]
    rw [hcs, filterMap_set_of_eq hc hkey]
  · intro d hd
    rcases hmem d hd with hd | rfl
    · exact h.apart d hd
    · exact h.apart c hcmem
  · intro d hd
    rcases hmem d hd with hd | rfl
    · exact hcast.answered (hpre d.dst) (h.answered d hd)
    · exact (h.answered c hcmem).serve hnode hsv fun args hargs =>
        (h.polls c hcmem args hargs).1

theorem Elections.resume_calm (h : s.Elections) (hc : s.calls[i]? = some c)
    {body : Option (CallBody n Cmd)} (hres : (s.node c.src).resume c.dst c.body = some (nd, body))
    (hnode : s'.node = update s.node c.src nd) (hcs : s'.calls = (s.setCall i c body).calls)
    (hrec : ∀ p, (s'.node p).Recorded p) (hcast : CastLe s s')
    (hcalm : Raft.Calm (s.node c.src).rf nd.rf) : s'.Elections := by
  have hcmem := mem_of_getElem? hc
  have hpre := prefix_update hnode (forward_resume (h.recorded c.src).done_le hres)
  have hmem : ∀ d ∈ s'.calls, d ∈ s.calls ∨
      ∃ b, body = some b ∧ b.poll? = none ∧ d = { c with body := b } := by
    intro d hd
    rw [hcs] at hd
    rcases mem_setCall hd with hd | ⟨b, rfl, rfl⟩
    · exact .inl hd
    · exact .inr ⟨b, rfl, resume_poll? hres, rfl⟩
  refine h.of_calm hrec hcast (calm_update hnode hcalm) ?_ ?_ ?_ ?_
  · intro d hd
    rcases hmem d hd with hd | ⟨b, _, hpoll, rfl⟩
    · exact .inr ⟨d, hd, id, rfl, rfl, rfl⟩
    · exact .inl hpoll
  · rw [hcs]
    cases body with
    | none => exact (eraseIdx_sublist _ _).filterMap _
    | some b =>
      have hspawn := (resume_some hres).1
      have hpoll := resume_poll? hres
      have hkey : Call.pollKey { c with body := b } = c.pollKey := by
        rw [Call.pollKey, Call.pollKey, hspawn, hpoll]
        rfl
      change List.Sublist ((s.calls.set i { c with body := b }).filterMap _) _
      rw [filterMap_set_of_eq hc hkey]
  · intro d hd
    rcases hmem d hd with hd | ⟨b, _, _, rfl⟩
    · exact h.apart d hd
    · exact h.apart c hcmem
  · intro d hd
    rcases hmem d hd with hd | ⟨b, _, hpoll, rfl⟩
    · exact hcast.answered (hpre d.dst) (h.answered d hd)
    · unfold Answered
      split
      · rename_i hbody
        rw [show b = _ from hbody] at hpoll
        cases hpoll
      · rename_i hbody
        rw [show b = _ from hbody] at hpoll
        cases hpoll
      · trivial

/-! ## New candidates -/

theorem Elections.pollKey_le (h : s.Elections) (hc : c ∈ s.calls) {v : Fin n}
    (hkey : c.pollKey = some (p, t, v)) : t ≤ (s.node p).rf.currentTerm := by
  rw [pollKey_eq_some] at hkey
  obtain ⟨rfl, _, args, hargs, rfl⟩ := hkey
  exact HardState.term_le (h.cast_le_current (h.polls c hc args hargs).2)

theorem pollKey_spawn {args : RequestVoteArgs n} :
    (spawn p (some (.voteRequested args : CallBody n Cmd))).filterMap Call.pollKey =
      (peers p).map fun q => (p, args.term, q) := by
  simp only [spawn, filterMap_map]
  exact filterMap_eq_map_iff_forall_eq_some.mpr fun q _ => rfl

theorem Elections.startElection (h : s.Elections)
    (hstep : s.step (.run p .startElection) = some s') : s'.Elections := by
  obtain ⟨hrec, hcast⟩ := h.recorded_step hstep
  obtain ⟨nd, body, hact, hnode, hcs⟩ := step_run hstep
  have hpre := prefix_update hnode (forward_act (h.recorded p).done_le hact)
  cases acts hact
  set rf := (s.node p).rf with hrf
  have hme : rf.me = p := (h.recorded p).me
  have hp : s'.node p = { (s.node p).settle rf.startElection.1 true with needStart := false } := by
    rw [hnode, update_self]
  have hother : ∀ q, q ≠ p → s'.node q = s.node q := fun q hq => by
    rw [hnode, update_of_ne hq]
  have hst : (s'.node p).rf.hardState = ⟨rf.currentTerm + 1, some p⟩ := by
    rw [hp]
    exact hme ▸ rf.startElection_hardState
  have hterm : (s'.node p).rf.currentTerm = rf.currentTerm + 1 := congrArg (·.1) hst
  -- the vote for itself is durable before the first request is sent
  have hself : s'.Cast p (rf.currentTerm + 1) p := by
    rw [Cast, hp]
    simp only [settle, saveHardState, durableHardStates, if_true]
    rw [rf.startElection_hardState, hme, take_of_length_le (by simp)]
    simp
  have hargs := rf.startElection_args
  have hmem : ∀ c ∈ s'.calls, c ∈ s.calls ∨
      (c.src = p ∧ c.dst ≠ p ∧ c.body = .voteRequested rf.startElection.2) := by
    intro c hc
    rw [hcs, List.mem_append] at hc
    rcases hc with hc | hc
    · exact .inl hc
    · obtain ⟨hsrc, hdst, _, hbody⟩ := mem_spawn hc
      exact .inr ⟨hsrc, hdst, (Option.some.inj hbody).symm⟩
  have hfresh : ∀ c ∈ s.calls, ∀ v, c.pollKey ≠ some (p, rf.currentTerm + 1, v) := by
    intro c hc v hkey
    have hle := h.pollKey_le hc hkey
    rw [← hrf] at hle
    omega
  refine ⟨hrec, ?_, ?_, ?_, ?_, ?_, ?_⟩
  · intro c hc args hpoll
    rcases hmem c hc with hc | ⟨hsrc, _, hbody⟩
    · obtain ⟨hid, hold⟩ := h.polls c hc args hpoll
      exact ⟨hid, hcast _ _ _ hold⟩
    · rw [hbody] at hpoll
      cases hpoll
      rw [hsrc, hargs.1]
      exact ⟨hargs.2.trans hme, hself⟩
  · rw [hcs, filterMap_append, pollKey_spawn, nodup_append]
    refine ⟨h.keys, ?_, ?_⟩
    · refine List.Nodup.map (fun a b hab => by simpa using hab) ?_
      exact (nodup_finRange n).filter _
    · intro k hk k' hk' heq
      obtain ⟨q, _, rfl⟩ := mem_map.mp hk'
      obtain ⟨c, hc, hkey⟩ := mem_filterMap.mp hk
      rw [heq, hargs.1] at hkey
      exact hfresh c hc q hkey
  · intro c hc
    rcases hmem c hc with hc | ⟨hsrc, hdst, _⟩
    · exact h.apart c hc
    · rw [hsrc]
      exact hdst
  · intro c hc
    rcases hmem c hc with hc | ⟨_, _, hbody⟩
    · exact hcast.answered (hpre c.dst) (h.answered c hc)
    · rw [Answered, hbody]
      trivial
  · intro q
    by_cases hq : q = p
    · subst hq
      intro _
      refine ⟨{q}, Finset.mem_singleton_self q, ?_, ?_, ?_⟩
      · rw [hp]
        exact (rf.startElection_votes).symm
      · intro v hv
        rw [Finset.mem_singleton.mp hv, hterm]
        exact hself
      · rw [hterm]
        intro c hc _ v hkey
        rcases hmem c hc with hc | ⟨_, hdst, _⟩
        · exact absurd hkey (hfresh c hc v)
        · rw [pollKey_eq_some] at hkey
          rw [Finset.mem_singleton, ← hkey.2.1]
          exact hdst
    · refine (h.tally q).mono hcast (by rw [hother q hq]; exact .refl _) ?_
      intro c hc halive t v hkey
      rcases hmem c hc with hc | ⟨hsrc, _, _⟩
      · exact ⟨c, hc, halive, hkey⟩
      · rw [pollKey_eq_some] at hkey
        exact absurd (hkey.1.symm.trans hsrc) hq
  · intro q hlead
    by_cases hq : q = p
    · subst hq
      rcases rf.startElection_state with ⟨hone, _⟩ | ⟨_, hcand⟩
      · refine ⟨{q}, ?_, ?_⟩
        · simpa [Majority] using hone
        · intro v hv
          rw [Finset.mem_singleton.mp hv, hterm]
          exact hself
      · rw [hp] at hlead
        exact absurd (hcand.symm.trans hlead) (by decide)
    · exact h.leader_mono hcast (by rw [hother q hq]; exact .refl _) hlead

/-! ## Counted votes -/

theorem not_mem_eraseIdx_of_nodup {α β : Type*} {f : α → Option β} {l : List α}
    (hl : (l.filterMap f).Nodup) {x y : α} {k : β} (hx : l[i]? = some x) (hfx : f x = some k)
    (hy : y ∈ l.eraseIdx i) : f y ≠ some k := by
  induction l generalizing i with
  | nil => simp at hx
  | cons a l ih =>
    cases i with
    | zero =>
      simp only [getElem?_cons_zero, Option.some.injEq] at hx
      subst hx
      rw [filterMap_cons_some hfx, nodup_cons] at hl
      intro hfy
      exact hl.1 (mem_filterMap.mpr ⟨y, hy, hfy⟩)
    | succ i =>
      simp only [getElem?_cons_succ] at hx
      simp only [List.eraseIdx_cons_succ, List.mem_cons] at hy
      rcases hy with rfl | hy
      · intro hfy
        rw [filterMap_cons_some hfy, nodup_cons] at hl
        exact hl.1 (mem_filterMap.mpr ⟨x, mem_of_getElem? hx, hfx⟩)
      · exact ih (hl.sublist (by simpa using (sublist_cons_self a l).filterMap f)) hx hy

theorem Elections.countVote (h : s.Elections) (hc : s.calls[i]? = some c) (halive : c.alive = true)
    {args : RequestVoteArgs n} {reply : RequestVoteReply} (hbody : c.body = .voteReplied args reply)
    (hgr : reply.voteGranted = true) (hterm : reply.term = (s.node c.src).rf.currentTerm)
    (hcand : (s.node c.src).rf.state = .candidate) :
    ∃ Q : Finset (Fin n), c.src ∈ Q ∧ Q.card = (s.node c.src).rf.votes + 1 ∧
      (∀ v ∈ Q, s.Cast v (s.node c.src).rf.currentTerm c.src) ∧
      ∀ d ∈ s.calls.eraseIdx i, d.alive = true → ∀ v,
        d.pollKey = some (c.src, (s.node c.src).rf.currentTerm, v) → v ∉ Q := by
  have hcmem := mem_of_getElem? hc
  have hans := h.answered c hcmem
  rw [Answered, hbody] at hans
  obtain ⟨hargs, hcast⟩ := hans hgr
  have hkey : c.pollKey = some (c.src, (s.node c.src).rf.currentTerm, c.dst) := by
    rw [pollKey_eq_some]
    exact ⟨rfl, rfl, args, by rw [hbody]; rfl, by omega⟩
  obtain ⟨Q, hp, hcard, hQ, hout⟩ := h.tally c.src hcand
  have hnew : c.dst ∉ Q := hout c hcmem halive c.dst hkey
  refine ⟨insert c.dst Q, mem_insert_of_mem hp, ?_, ?_, ?_⟩
  · rw [card_insert_of_notMem hnew, hcard]
  · intro v hv
    rcases mem_insert.mp hv with rfl | hv
    · rw [← hterm, hargs]
      exact hcast
    · exact hQ v hv
  · intro d hd halive' v hkey'
    rw [mem_insert, not_or]
    refine ⟨?_, hout d (mem_of_mem_eraseIdx hd) halive' v hkey'⟩
    rintro rfl
    exact not_mem_eraseIdx_of_nodup h.keys hc hkey hd hkey'

theorem Elections.resume (h : s.Elections) (hstep : s.step (.resume i) = some s') :
    s'.Elections := by
  obtain ⟨hrec, hcast⟩ := h.recorded_step hstep
  obtain ⟨c, nd, body, hc, halive, hres, hnode, hcs⟩ := step_resume hstep
  by_cases hvote : ∃ args reply, c.body = .voteReplied args reply
  · obtain ⟨args, reply, hbody⟩ := hvote
    have hresu := resumes hres
    rw [hbody] at hresu
    cases hresu
    rcases (s.node c.src).rf.handleVoteResponse_cases reply with
      ⟨hcalm, _⟩ | ⟨hterm, hcand, hgr, heq⟩
    · exact h.resume_calm hc hres hnode hcs hrec hcast hcalm
    · -- the vote is counted; the rest of the state is as before
      obtain ⟨Q, hp, hcard, hQ, hout⟩ := h.countVote hc halive hbody hgr hterm hcand
      have hrf : (s'.node c.src).rf = (if n / 2 < (s.node c.src).rf.votes + 1 then
          becomeLeader { (s.node c.src).rf with votes := (s.node c.src).rf.votes + 1 }
          else { (s.node c.src).rf with votes := (s.node c.src).rf.votes + 1 }) := by
        rw [hnode, update_self, heq]
        rfl
      have hcur : (s'.node c.src).rf.currentTerm = (s.node c.src).rf.currentTerm := by
        rw [hrf]
        split <;> rfl
      have hother : ∀ q, q ≠ c.src → s'.node q = s.node q := fun q hq => by
        rw [hnode, update_of_ne hq]
      have hpre := prefix_update hnode (forward_resume (h.recorded c.src).done_le hres)
      have hcs' : s'.calls = s.calls.eraseIdx i := hcs
      have hmem : ∀ d ∈ s'.calls, d ∈ s.calls := fun d hd => by
        rw [hcs'] at hd
        exact mem_of_mem_eraseIdx hd
      refine ⟨hrec, ?_, ?_, fun d hd => h.apart d (hmem d hd), ?_, ?_, ?_⟩
      · intro d hd args' hargs'
        obtain ⟨hid, hold⟩ := h.polls d (hmem d hd) args' hargs'
        exact ⟨hid, hcast _ _ _ hold⟩
      · rw [hcs']
        exact h.keys.sublist ((eraseIdx_sublist _ _).filterMap _)
      · exact fun d hd => hcast.answered (hpre d.dst) (h.answered d (hmem d hd))
      · intro q
        by_cases hq : q = c.src
        · subst hq
          intro hcand'
          rw [hcur]
          refine ⟨Q, hp, ?_, fun v hv => hcast _ _ _ (hQ v hv), ?_⟩
          · rw [hcard, hrf]
            split <;> rfl
          · rw [hcs']
            exact hout
        · refine (h.tally q).mono hcast (by rw [hother q hq]; exact .refl _) ?_
          exact fun d hd halive' t v hkey => ⟨d, hmem d hd, halive', hkey⟩
      · intro q hlead
        by_cases hq : q = c.src
        · subst hq
          rw [hcur]
          refine hcast.elected ⟨Q, ?_, hQ⟩
          rw [Majority, Fintype.card_fin, hcard]
          by_contra hfew
          rw [hrf, if_neg hfew] at hlead
          exact absurd (hcand.symm.trans hlead) (by decide)
        · exact h.leader_mono hcast (by rw [hother q hq]; exact .refl _) hlead
  · push Not at hvote
    exact h.resume_calm hc hres hnode hcs hrec hcast (calm_resume hres hvote)

/-! ## Crashes -/

theorem Elections.crash (h : s.Elections) {id : Option Nat}
    (hstep : s.step (.crash p id) = some s') : s'.Elections := by
  obtain ⟨hrec, hcast⟩ := h.recorded_step hstep
  obtain ⟨ps, hps, hnode, hcs⟩ := step_crash hstep
  have hother : ∀ q, q ≠ p → s'.node q = s.node q := fun q hq => by
    rw [hnode, update_of_ne hq]
  have hfol : (s'.node p).rf.state = .follower := by
    rw [hnode, update_self]
    exact make_state p ps
  have hmem : ∀ d ∈ s'.calls, ∃ c ∈ s.calls, c.survives p = true ∧ d = c.orphan p := by
    intro d hd
    rw [hcs] at hd
    exact mem_afterCrash hd
  have hkey : ∀ c : Call n Cmd, (c.orphan p).pollKey = c.pollKey := fun _ => rfl
  refine ⟨hrec, ?_, ?_, ?_, ?_, ?_, ?_⟩
  · intro d hd args hargs
    obtain ⟨c, hc, _, rfl⟩ := hmem d hd
    obtain ⟨hid, hold⟩ := h.polls c hc args hargs
    exact ⟨hid, hcast _ _ _ hold⟩
  · rw [hcs, filterMap_map]
    exact h.keys.sublist (filter_sublist.filterMap _)
  · intro d hd
    obtain ⟨c, hc, _, rfl⟩ := hmem d hd
    exact h.apart c hc
  · intro d hd
    obtain ⟨c, hc, hsur, rfl⟩ := hmem d hd
    have hans := h.answered c hc
    unfold Answered at hans ⊢
    -- a handler that waits runs at a node that did not crash
    cases hbody : c.body with
    | voteServing args reply wait =>
      have hne : c.dst ≠ p := by simpa [survives, hbody] using hsur
      simp only [orphan, hbody] at hans ⊢
      rw [hother c.dst hne]
      exact hans
    | voteReplied args reply =>
      simp only [orphan, hbody] at hans ⊢
      exact fun hgr => ⟨(hans hgr).1, hcast _ _ _ (hans hgr).2⟩
    | _ => simp only [orphan, hbody]
  · intro q
    by_cases hq : q = p
    · subst hq
      intro hcand
      rw [hfol] at hcand
      cases hcand
    · refine (h.tally q).mono hcast (by rw [hother q hq]; exact .refl _) ?_
      intro d hd halive t v hk
      obtain ⟨c, hc, _, rfl⟩ := hmem d hd
      exact ⟨c, hc, (Bool.and_eq_true_iff.mp halive).1, hk⟩
  · intro q hlead
    by_cases hq : q = p
    · subst hq
      rw [hfol] at hlead
      cases hlead
    · exact h.leader_mono hcast (by rw [hother q hq]; exact .refl _) hlead

/-! ## Runs -/

theorem Elections.step (h : s.Elections) {a : Action n Cmd} (hstep : s.step a = some s') :
    s'.Elections := by
  cases a with
  | run p sec =>
    by_cases hsec : sec = .startElection
    · subst hsec
      exact h.startElection hstep
    · exact h.run hsec hstep
  | serve i => exact h.serve hstep
  | resume i => exact h.resume hstep
  | crash p id => exact h.crash hstep

theorem elections_boot : (boot : Cluster n Cmd).Elections where
  recorded p := ⟨rfl, le_refl _, List.Pairwise.nil, nofun⟩
  polls _ h := by cases h
  keys := nodup_nil
  apart _ h := by cases h
  answered _ h := by cases h
  tally _ h := by cases h
  leader _ h := by cases h

theorem elections_of_reachable {ok : Cluster n Cmd → Action n Cmd → Prop}
    (h : (system n Cmd).Reachable ok s) : s.Elections := by
  refine h.invariant ?_ ?_
  · rintro _ rfl
    exact elections_boot
  · exact fun _ _ _ hI _ hstep => hI.step hstep

theorem castLe_of_run {ok : Cluster n Cmd → Action n Cmd → Prop} (h : s.Elections)
    (hrun : (system n Cmd).Run ok s s') : s'.Elections ∧ CastLe s s' := by
  refine hrun.preserves (I := fun t => t.Elections ∧ CastLe s t) ?_ ⟨h, fun _ _ _ hc => hc⟩
  rintro t a u ⟨ht, hle⟩ _ hstep
  exact ⟨ht.step hstep, fun v T c hc => (ht.recorded_step hstep).2 v T c (hle v T c hc)⟩

/-- At most one node enters the leader role in a term, in whatever states of a run,
and a node whose granted vote was sent is in a later term ever after or still holds
that vote, through any number of crashes. -/
theorem election_safety (hs : (system n Cmd).Reachable anyStep s)
    (hrun : (system n Cmd).Run anyStep s s') :
    (∀ p q, (s.node p).rf.state = .leader → (s'.node q).rf.state = .leader →
      (s.node p).rf.currentTerm = (s'.node q).rf.currentTerm → p = q) ∧
    (∀ c ∈ s.calls, ∀ args reply, c.body = .voteReplied args reply →
      reply.voteGranted = true → args.term < (s'.node c.dst).rf.currentTerm ∨
        ((s'.node c.dst).rf.currentTerm = args.term ∧
          (s'.node c.dst).rf.votedFor = some c.src)) := by
  have hE := elections_of_reachable hs
  obtain ⟨hE', hcast⟩ := castLe_of_run hE hrun
  constructor
  · intro p q hp hq hterm
    have hpe := hcast.elected (hE.leader p hp)
    rw [hterm] at hpe
    exact hE'.elected_unique hpe (hE'.leader q hq)
  · intro c hc args reply hbody hgr
    have hans := hE.answered c hc
    rw [Answered, hbody] at hans
    rcases hE'.cast_le_current (hcast _ _ _ (hans hgr).2) with hlt | ⟨heq, hvote⟩
    · exact .inl hlt
    · refine .inr ⟨heq.symm, ?_⟩
      rcases hvote with hnone | hsome
      · cases hnone
      · exact hsome.symm

theorem election_safety_vote_kept :
    ∃ s s' : Cluster 3 Nat, (s'.node 0).rf.state = .leader ∧
      ∃ c ∈ s.calls, c.src = 0 ∧ c.dst = 1 ∧ c.body = .voteReplied ⟨1, 0, 0, 0⟩ ⟨1, true⟩ ∧
        (1 < (s'.node c.dst).rf.currentTerm ∨ ((s'.node c.dst).rf.currentTerm = 1 ∧
            (s'.node c.dst).rf.votedFor = some c.src)) := by
  obtain ⟨s, hs, hcall⟩ := exists_of_exec (system 3 Nat) boot
    [.run 0 .tick, .run 0 .startElection, .serve 0, .run 1 .hardStateDone, .serve 0]
    (fun s => (⟨0, 1, true, .voteReplied ⟨1, 0, 0, 0⟩ ⟨1, true⟩⟩ : Call 3 Nat) ∈ s.calls)
    (by decide)
  obtain ⟨s', hs', hlead⟩ := exists_of_exec (system 3 Nat) boot
    ([.run 0 .tick, .run 0 .startElection, .serve 0, .run 1 .hardStateDone, .serve 0] ++
      [.crash 1 none, .resume 0])
    (fun s => (s.node 0).rf.state = .leader) (by decide)
  have hkept := election_safety (.of_exec rfl hs) (.of_exec (exec_of_append hs hs'))
  exact ⟨s, s', hlead, _, hcall, rfl, rfl, rfl, hkept.2 _ hcall _ _ rfl rfl⟩

end Cluster

end OrbisKV
