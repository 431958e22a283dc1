import OrbisKV.Lib.Update
import OrbisKV.Raft.Cluster
/-!
# What a step of the cluster can do

The inversion of `Cluster.step`: which node it changes and by which of the node
functions, and what becomes of the calls.
-/

namespace OrbisKV

namespace Node

variable {n : Nat} {Cmd : Type} {nd nd' : Node n Cmd}
  {peer : Fin n} {args : AppendEntriesArgs n Cmd} {body : CallBody n Cmd}
  {reply : AppendEntriesReply}

def requestBody : Option (Request n Cmd) → Option (CallBody n Cmd)
  | none => none
  | some (.append args) => some (.appendRequested args)
  | some (.install args) => some (.installRequested args)

theorem resume_spawned {body : Option (CallBody n Cmd)}
    (h : nd.resume peer .spawned = some (nd', body)) :
    ∃ rf request, nd.rf.buildRequest peer nd.persister.readSnapshot = some (rf, request) ∧
      nd' = { nd with rf := rf } ∧ body = requestBody request := by
  obtain ⟨⟨rf, request⟩, hrf, heq⟩ := Option.map_eq_some_iff.mp h
  simp only [Prod.mk.injEq] at heq
  obtain ⟨rfl, rfl⟩ := heq
  refine ⟨rf, request, hrf, rfl, ?_⟩
  rcases request with _ | ⟨_ | _⟩ <;> rfl

inductive Resumes (nd : Node n Cmd) (peer : Fin n) :
    CallBody n Cmd → Node n Cmd → Option (CallBody n Cmd) → Prop
  | voteReplied (args : RequestVoteArgs n) (reply : RequestVoteReply) :
    Resumes nd peer (.voteReplied args reply)
    (nd.settle (nd.rf.handleVoteResponse reply).1 (nd.rf.handleVoteResponse reply).2) none
  | spawned (rf : Raft n Cmd) (request : Option (Request n Cmd))
    (h : nd.rf.buildRequest peer nd.persister.readSnapshot = some (rf, request)) :
    Resumes nd peer .spawned { nd with rf := rf } (requestBody request)
  | appendReplied (args : AppendEntriesArgs n Cmd) (reply : AppendEntriesReply) :
    Resumes nd peer (.appendReplied args reply)
    (nd.settle (nd.rf.handleAppendReply peer args reply).1
      (nd.rf.handleAppendReply peer args reply).2) none
  | installReplied (args : InstallSnapshotArgs n) (reply : InstallSnapshotReply) :
    Resumes nd peer (.installReplied args reply)
    (nd.settle (nd.rf.handleInstallReply peer reply).1 (nd.rf.handleInstallReply peer reply).2) none

theorem resumes {body' : Option (CallBody n Cmd)} (h : nd.resume peer body = some (nd', body')) :
    nd.Resumes peer body nd' body' := by
  cases body with
  | spawned =>
    obtain ⟨rf, request, hrf, rfl, rfl⟩ := resume_spawned h
    exact .spawned rf request hrf
  | voteReplied | appendReplied | installReplied =>
    simp only [resume, Option.some.injEq, Prod.mk.injEq] at h
    obtain ⟨rfl, rfl⟩ := h
    constructor
  | _ => cases h

inductive Serves (nd : Node n Cmd) : CallBody n Cmd → Node n Cmd → CallBody n Cmd → Prop
  | voteRequested (args : RequestVoteArgs n) : Serves nd (.voteRequested args)
    (nd.finishVote (nd.rf.requestVote args).1 args (nd.rf.requestVote args).2.1
      (nd.rf.requestVote args).2.2).1
    (nd.finishVote (nd.rf.requestVote args).1 args (nd.rf.requestVote args).2.1
      (nd.rf.requestVote args).2.2).2
  | voteServing (args : RequestVoteArgs n) (reply : RequestVoteReply) (wait : Option Nat)
    (h : ∀ id, wait = some id → id < nd.persister.hardDone) :
    Serves nd (.voteServing args reply wait) nd (.voteReplied args reply)
  | appendRequested (args : AppendEntriesArgs n Cmd) : Serves nd (.appendRequested args)
    (nd.finishAppend (nd.rf.appendEntries args).1 args (nd.rf.appendEntries args).2.1
      (nd.rf.appendEntries args).2.2).1
    (nd.finishAppend (nd.rf.appendEntries args).1 args (nd.rf.appendEntries args).2.1
      (nd.rf.appendEntries args).2.2).2
  | appendServing (args : AppendEntriesArgs n Cmd) (reply : AppendEntriesReply) (wait : Wait)
    (h : nd.waitOver wait = true) :
    Serves nd (.appendServing args reply wait) (nd.notePersisted wait) (.appendReturning args reply)
  | appendReturning (args : AppendEntriesArgs n Cmd) (reply : AppendEntriesReply) :
    Serves nd (.appendReturning args reply) nd (.appendReplied args reply)
  | installRefused (args : InstallSnapshotArgs n)
    (h : (nd.rf.installSnapshot args).2.2.2 = false) : Serves nd (.installRequested args)
    (nd.settle (nd.rf.installSnapshot args).1 (nd.rf.installSnapshot args).2.2.1)
    (.installReplied args (nd.rf.installSnapshot args).2.1)
  | installRequested (args : InstallSnapshotArgs n) (mid : Node n Cmd)
    (hmid : mid = nd.settle (nd.rf.installSnapshot args).1 (nd.rf.installSnapshot args).2.2.1)
    (h : (nd.rf.installSnapshot args).2.2.2 = true) : Serves nd (.installRequested args)
    { mid with
      persister := mid.persister.save (nd.rf.installSnapshot args).1.raftState args.data }
    (.installSending args (nd.rf.installSnapshot args).2.1
      (.snapshot args.data (nd.rf.installSnapshot args).1.lastIncludedTerm
        (nd.rf.installSnapshot args).1.lastIncludedIndex))
  | installSending (args : InstallSnapshotArgs n) (reply : InstallSnapshotReply)
    (msg : ApplyMsg Cmd) : Serves nd (.installSending args reply msg)
    { nd with applied := nd.applied ++ [msg] } (.installReplied args reply)

theorem serves {body' : CallBody n Cmd} (h : nd.serve body = some (nd', body')) :
    nd.Serves body nd' body' := by
  cases body with
  | voteServing args reply wait =>
    simp only [serve] at h
    split at h <;> cases h
    rename_i hall
    refine .voteServing args reply wait ?_
    rintro id rfl
    simpa using hall
  | appendServing args reply wait =>
    simp only [serve] at h
    split at h <;> cases h
    exact .appendServing args reply wait ‹_›
  | installRequested args =>
    simp only [serve] at h
    split at h <;> cases h
    · exact .installRequested args _ rfl ‹_›
    · exact .installRefused args (Bool.eq_false_of_not_eq_true ‹_›)
  | voteRequested args =>
    obtain ⟨rfl, rfl⟩ := Prod.ext_iff.mp (Option.some.inj h)
    exact .voteRequested args
  | appendRequested args =>
    obtain ⟨rfl, rfl⟩ := Prod.ext_iff.mp (Option.some.inj h)
    exact .appendRequested args
  | appendReturning | installSending =>
    cases h
    constructor
  | _ => cases h

inductive Acts (nd : Node n Cmd) : Section Cmd → Node n Cmd → Option (CallBody n Cmd) → Prop
  | tick (h : nd.rf.state ≠ .leader) : Acts nd .tick { nd with needStart := true } none
  | startElection (h : nd.needStart = true) : Acts nd .startElection
    { nd.settle nd.rf.startElection.1 true with needStart := false }
    (some (.voteRequested nd.rf.startElection.2))
  | sendHeartbeats (h : nd.rf.state = .leader) : Acts nd .sendHeartbeats nd (some .spawned)
  | start (command : Option Cmd) (rf : Raft n Cmd) (h : nd.rf.start command = some rf) :
    Acts nd (.start command)
    { nd with
      rf := rf
      persister := nd.persister.enqueueSave rf.raftState
      completions := nd.completions ++ [(nd.persister.saves.length, rf.getLastLogIndex)] } none
  | completePersist (k id coveredIndex : Nat) (h : nd.completions[k]? = some (id, coveredIndex))
    (hdone : (nd.persister.saves[id]?).any (·.done) = true) : Acts nd (.completePersist k)
    { nd with
      rf := { nd.rf with persistedIndex := max nd.rf.persistedIndex coveredIndex }
      completions := nd.completions.eraseIdx k } none
  | snapshot (index : Nat) (data : Bytes) (rf : Raft n Cmd) (taken : Bool)
    (h : nd.rf.snapshot index = some (rf, taken)) : Acts nd (.snapshot index data)
    { nd with
      rf := rf
      persister := if taken then nd.persister.save rf.raftState data else nd.persister } none
  | applierCollect (h : nd.unsent = []) : Acts nd .applierCollect
    { nd with rf := nd.rf.applier.1, unsent := nd.rf.applier.2 } none
  | applierSend (msg : ApplyMsg Cmd) (rest : List (ApplyMsg Cmd)) (h : nd.unsent = msg :: rest) :
    Acts nd .applierSend { nd with unsent := rest, applied := nd.applied ++ [msg] } none
  | saveDone (id : Nat) (h : id < nd.persister.saves.length) : Acts nd (.saveDone id)
    { nd with persister := nd.persister.finishSave id } none
  | hardStateDone (h : nd.persister.hardDone < nd.persister.hardStates.length) :
    Acts nd .hardStateDone
    { nd with persister := { nd.persister with hardDone := nd.persister.hardDone + 1 } } none

theorem acts {sec : Section Cmd} {body : Option (CallBody n Cmd)}
    (h : nd.act sec = some (nd', body)) : nd.Acts sec nd' body := by
  cases sec with
  | start command =>
    obtain ⟨rf, hrf, heq⟩ := Option.map_eq_some_iff.mp h
    cases heq
    exact .start command rf hrf
  | snapshot index data =>
    obtain ⟨⟨rf, taken⟩, hrf, heq⟩ := Option.map_eq_some_iff.mp h
    cases heq
    exact .snapshot index data rf taken hrf
  | completePersist k =>
    simp only [act] at h
    split at h
    · cases h
    · split at h <;> cases h
      exact .completePersist k _ _ ‹_› ‹_›
  | _ =>
    simp only [act] at h
    split at h <;> cases h
    constructor
    assumption

theorem act_body {sec : Section Cmd} {body : Option (CallBody n Cmd)}
    (h : nd.act sec = some (nd', body)) (hsec : sec ≠ .startElection) :
    body = none ∨ (body = some .spawned ∧ nd.rf.state = .leader) := by
  cases acts h with
  | startElection => exact absurd rfl hsec
  | sendHeartbeats hlead => exact .inr ⟨rfl, hlead⟩
  | _ => exact .inl rfl

theorem act_some {sec : Section Cmd} (h : nd.act sec = some (nd', some body)) :
    (∃ args, body = .voteRequested args) ∨ body = .spawned := by
  by_cases hsec : sec = .startElection
  · subst hsec
    cases acts h
    exact .inl ⟨_, rfl⟩
  · rcases act_body h hsec with hbody | ⟨hbody, _⟩
    · cases hbody
    · exact .inr (Option.some.inj hbody)

inductive Follows : CallBody n Cmd → CallBody n Cmd → Prop
  | vote : Follows (.voteRequested req) (.voteServing req res wait)
  | voteReply : Follows (.voteServing req res wait) (.voteReplied req res)
  | append : Follows (.appendRequested req) (.appendServing req res wait)
  | persisted : Follows (.appendServing req res wait) (.appendReturning req res)
  | appendReply : Follows (.appendReturning req res) (.appendReplied req res)
  | install :
    Follows (.installRequested req) (.installSending req res (.snapshot req.data term index))
  | refused : Follows (.installRequested req) (.installReplied req res)
  | sent : Follows (.installSending req res msg) (.installReplied req res)

theorem serve_follows {body' : CallBody n Cmd} (h : nd.serve body = some (nd', body')) :
    Follows body body' := by
  cases serves h with
  | voteRequested args =>
    unfold finishVote
    split <;> exact .vote
  | appendRequested args => cases (nd.rf.appendEntries args).2.2 <;> exact .append
  | _ => constructor

theorem serve_ne_spawned {body' : CallBody n Cmd} (h : nd.serve body = some (nd', body')) :
    body' ≠ .spawned := by
  cases serve_follows h <;> simp

theorem resume_some {body' : CallBody n Cmd} (h : nd.resume peer body = some (nd', some body')) :
    body = .spawned ∧ ((∃ args, body' = .appendRequested args) ∨
      ∃ args, body' = .installRequested args) := by
  cases body with
  | spawned =>
    obtain ⟨rf, request, _, _, heq⟩ := resume_spawned h
    rcases request with _ | ⟨args | args⟩
    · cases heq
    · cases heq
      exact ⟨rfl, .inl ⟨args, rfl⟩⟩
    · cases heq
      exact ⟨rfl, .inr ⟨args, rfl⟩⟩
  | _ => cases resumes h

end Node

end OrbisKV

namespace OrbisKV.Cluster

variable {n : Nat} {Cmd : Type} {s s' : Cluster n Cmd} {p : Fin n}

/-- What holds of all nodes after a step that replaced one of them. -/
theorem forall_node {P : Fin n → Node n Cmd → Prop} {q : Fin n} {nd : Node n Cmd}
    (hnode : s'.node = Function.update s.node q nd) (hq : P q nd)
    (hother : ∀ p, p ≠ q → P p (s.node p)) (p : Fin n) : P p (s'.node p) := by
  rw [hnode]
  exact Lib.forall_update hq hother p

theorem step_run {sec : Section Cmd} (h : s.step (.run p sec) = some s') :
    ∃ nd body, (s.node p).act sec = some (nd, body) ∧
      s'.node = Function.update s.node p nd ∧ s'.calls = s.calls ++ spawn p body := by
  obtain ⟨⟨nd, body⟩, hact, rfl⟩ := Option.map_eq_some_iff.mp h
  exact ⟨nd, body, hact, rfl, rfl⟩

theorem step_serve {i : Nat} (h : s.step (.serve i) = some s') :
    ∃ c nd body, s.calls[i]? = some c ∧ (s.node c.dst).serve c.body = some (nd, body) ∧
      s'.node = Function.update s.node c.dst nd ∧
      s'.calls = s.calls.set i { c with body := body } := by
  obtain ⟨c, hc, hmap⟩ := Option.bind_eq_some_iff.mp h
  obtain ⟨⟨nd, body⟩, hsv, rfl⟩ := Option.map_eq_some_iff.mp hmap
  exact ⟨c, nd, body, hc, hsv, rfl, rfl⟩

theorem step_resume {i : Nat} (h : s.step (.resume i) = some s') :
    ∃ c nd body, s.calls[i]? = some c ∧ c.alive = true ∧
      (s.node c.src).resume c.dst c.body = some (nd, body) ∧
      s'.node = Function.update s.node c.src nd ∧
      s'.calls = (s.setCall i c body).calls := by
  obtain ⟨c, hc, hif⟩ := Option.bind_eq_some_iff.mp h
  split_ifs at hif with halive
  obtain ⟨⟨nd, body⟩, hres, rfl⟩ := Option.map_eq_some_iff.mp hif
  refine ⟨c, nd, body, hc, halive, hres, ?_, ?_⟩ <;> cases body <;> rfl

theorem step_crash {id : Option Nat} (h : s.step (.crash p id) = some s') :
    ∃ ps, (s.node p).persister.afterCrash id = some ps ∧
      s'.node = Function.update s.node p (Node.make p ps) ∧
      s'.calls = (s.calls.filter (·.survives p)).map (·.orphan p) := by
  obtain ⟨ps, hps, rfl⟩ := Option.map_eq_some_iff.mp h
  exact ⟨ps, hps, rfl, rfl⟩

inductive NodeStep (p : Fin n) (nd : Node n Cmd) : Node n Cmd → Prop
  | act {nd' : Node n Cmd} (sec : Section Cmd) (body : Option (CallBody n Cmd))
      (h : nd.act sec = some (nd', body)) : NodeStep p nd nd'
  | serve {nd' : Node n Cmd} (body body' : CallBody n Cmd)
      (h : nd.serve body = some (nd', body')) : NodeStep p nd nd'
  | resume {nd' : Node n Cmd} (peer : Fin n) (body : CallBody n Cmd)
      (body' : Option (CallBody n Cmd)) (h : nd.resume peer body = some (nd', body')) :
      NodeStep p nd nd'
  | crash (id : Option Nat) (ps : Persister n Cmd)
      (h : nd.persister.afterCrash id = some ps) : NodeStep p nd (Node.make p ps)

theorem step_node {a : Action n Cmd} (h : s.step a = some s') (p : Fin n) :
    s'.node p = s.node p ∨ NodeStep p (s.node p) (s'.node p) := by
  have key : ∀ {q nd}, s'.node = Function.update s.node q nd →
      (q = p → NodeStep p (s.node p) nd) →
      s'.node p = s.node p ∨ NodeStep p (s.node p) (s'.node p) := by
    intro q nd hnode hstep
    rw [hnode]
    by_cases hq : p = q
    · subst hq
      rw [Function.update_self]
      exact .inr (hstep rfl)
    · exact .inl (Function.update_of_ne hq _ _)
  cases a with
  | run q sec =>
    obtain ⟨nd, body, hact, hnode, _⟩ := step_run h
    refine key hnode ?_
    rintro rfl
    exact .act sec body hact
  | serve i =>
    obtain ⟨c, nd, body, _, hsv, hnode, _⟩ := step_serve h
    refine key hnode ?_
    rintro rfl
    exact .serve c.body body hsv
  | resume i =>
    obtain ⟨c, nd, body, _, _, hres, hnode, _⟩ := step_resume h
    refine key hnode ?_
    rintro rfl
    exact .resume c.dst c.body body hres
  | crash q id =>
    obtain ⟨ps, hps, hnode, _⟩ := step_crash h
    refine key hnode ?_
    rintro rfl
    exact .crash id ps hps

theorem mem_spawn {body : Option (CallBody n Cmd)} {c : Call n Cmd} (h : c ∈ spawn p body) :
    c.src = p ∧ c.dst ≠ p ∧ c.alive = true ∧ body = some c.body := by
  cases body with
  | none => cases h
  | some body =>
    obtain ⟨q, hq, rfl⟩ := List.mem_map.mp h
    exact ⟨rfl, by simpa [peers] using hq, rfl, rfl⟩

theorem mem_setCall {i : Nat} {c d : Call n Cmd} {body : Option (CallBody n Cmd)}
    (h : d ∈ (s.setCall i c body).calls) :
    d ∈ s.calls ∨ ∃ b, body = some b ∧ d = { c with body := b } := by
  cases body with
  | none => exact .inl (List.mem_of_mem_eraseIdx h)
  | some b =>
    rcases List.mem_or_eq_of_mem_set h with hmem | rfl
    · exact .inl hmem
    · exact .inr ⟨b, rfl, rfl⟩

theorem mem_afterCrash {d : Call n Cmd} (h : d ∈ (s.calls.filter (·.survives p)).map (·.orphan p)) :
    ∃ c ∈ s.calls, c.survives p = true ∧ d = c.orphan p := by
  obtain ⟨c, hc, rfl⟩ := List.mem_map.mp h
  rw [List.mem_filter] at hc
  exact ⟨c, hc.1, hc.2, rfl⟩

end OrbisKV.Cluster
