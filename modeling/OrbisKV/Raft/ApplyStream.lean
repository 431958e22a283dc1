import OrbisKV.Raft.Disk
/-!
# The stream of messages to the service

Two goroutines send on `applyCh` outside the lock: the applier its batch, and a handler
of `InstallSnapshot` its snapshot.
-/

namespace OrbisKV

open List Node

variable {n : Nat} {Cmd : Type}

namespace ApplyMsg

def index : ApplyMsg Cmd → Nat
  | .command _ commandIndex => commandIndex
  | .snapshot _ _ snapshotIndex => snapshotIndex

def covered (c : Nat) (msgs : List (ApplyMsg Cmd)) : Nat :=
  msgs.foldl (fun _ msg => msg.index) c

def follows (c : Nat) : ApplyMsg Cmd → Prop
  | .command _ commandIndex => commandIndex = c + 1
  | .snapshot _ _ snapshotIndex => c < snapshotIndex

def InOrder : Nat → List (ApplyMsg Cmd) → Prop
  | _, [] => True
  | c, msg :: msgs => msg.follows c ∧ InOrder msg.index msgs

theorem follows.lt {c : Nat} {msg : ApplyMsg Cmd} (h : msg.follows c) : c < msg.index := by
  cases msg with
  | command cmd commandIndex =>
    change commandIndex = c + 1 at h
    change c < commandIndex
    omega
  | snapshot data term snapshotIndex => exact h

theorem covered_append (c : Nat) (xs ys : List (ApplyMsg Cmd)) :
    covered c (xs ++ ys) = covered (covered c xs) ys := foldl_append

theorem inOrder_append (c : Nat) (xs ys : List (ApplyMsg Cmd)) :
    InOrder c (xs ++ ys) ↔ InOrder c xs ∧ InOrder (covered c xs) ys := by
  induction xs generalizing c with
  | nil => simp [InOrder, covered]
  | cons x xs ih =>
    simp only [cons_append, InOrder, ih, and_assoc]
    rfl

theorem InOrder.le_covered {c : Nat} {msgs : List (ApplyMsg Cmd)} (h : InOrder c msgs) :
    c ≤ covered c msgs := by
  induction msgs generalizing c with
  | nil => exact Nat.le_refl _
  | cons msg msgs ih =>
    have hlt := h.1.lt
    have hrest := ih h.2
    change c ≤ covered msg.index msgs
    omega

end ApplyMsg

section Service

variable {σ : Type} (apply : σ → Cmd → σ) (restore : Bytes → σ)

def deliver (state : σ) : ApplyMsg Cmd → σ
  | .command (some command) _ => apply state command
  | .command none _ => state
  | .snapshot data _ _ => restore data

def stateAt (init : σ) (history : List (Option Cmd)) (k : Nat) : σ :=
  (history.take k).foldl (fun state command => command.elim state (apply state)) init

/-- The message says what the history says: its command stands there, its snapshot is
the state at its index. -/
def ApplyMsg.Tells (init : σ) (history : List (Option Cmd)) : ApplyMsg Cmd → Prop
  | .command cmd commandIndex => history[commandIndex - 1]? = some cmd
  | .snapshot data _ snapshotIndex => restore data = stateAt apply init history snapshotIndex

theorem stateAt_succ (init : σ) {history : List (Option Cmd)} {k : Nat} {command : Option Cmd}
    (h : history[k]? = some command) :
    stateAt apply init history (k + 1) =
      command.elim (stateAt apply init history k) (apply (stateAt apply init history k)) := by
  unfold stateAt
  rw [take_add_one, h, foldl_append]
  rfl

theorem deliver_inOrder {init : σ} {history : List (Option Cmd)} {c : Nat}
    {msgs : List (ApplyMsg Cmd)} (hord : ApplyMsg.InOrder c msgs)
    (htells : ∀ msg ∈ msgs, msg.Tells apply restore init history) :
    msgs.foldl (deliver apply restore) (stateAt apply init history c) =
      stateAt apply init history (ApplyMsg.covered c msgs) := by
  induction msgs generalizing c with
  | nil => rfl
  | cons msg msgs ih =>
    have hrest := ih hord.2 fun m hm => htells m (mem_cons_of_mem msg hm)
    have hmsg := htells msg mem_cons_self
    have hone : deliver apply restore (stateAt apply init history c) msg =
        stateAt apply init history msg.index := by
      cases msg with
      | command cmd commandIndex =>
        have hnext : commandIndex = c + 1 := hord.1
        subst hnext
        change history[c + 1 - 1]? = some cmd at hmsg
        rw [Nat.add_sub_cancel] at hmsg
        change _ = stateAt apply init history (c + 1)
        rw [stateAt_succ apply init hmsg]
        cases cmd <;> rfl
      | snapshot data term snapshotIndex => exact hmsg
    rw [foldl_cons, hone]
    exact hrest

end Service

theorem Raft.collect_inOrder (fuel : Nat) (rf : Raft n Cmd)
    (hinc : rf.lastIncludedIndex ≤ rf.lastApplied) :
    ApplyMsg.InOrder rf.lastApplied (collect fuel rf).2 ∧
      ApplyMsg.covered rf.lastApplied (collect fuel rf).2 = (collect fuel rf).1.lastApplied := by
  induction fuel generalizing rf with
  | zero => exact ⟨trivial, rfl⟩
  | succ fuel ih =>
    unfold collect
    split
    · dsimp only
      rw [if_neg (by omega)]
      split
      · exact ⟨trivial, rfl⟩
      · have hrest := ih { rf with lastApplied := rf.lastApplied + 1 } (by dsimp only; omega)
        exact ⟨⟨rfl, hrest.1⟩, hrest.2⟩
    · exact ⟨trivial, rfl⟩

namespace Node

variable {nd nd' : Node n Cmd} {body : Option (CallBody n Cmd)}

def recovered (nd : Node n Cmd) : Nat := (nd.persister.found.map RaftState.lastIncludedIndex).getD 0

/-- What was received, what the applier holds and the snapshots of handlers form one
ordered stream that ends at `LastApplied`. -/
structure Streams (nd : Node n Cmd) (snapshots : List (ApplyMsg Cmd)) : Prop where
  order : ApplyMsg.InOrder nd.recovered (nd.applied ++ (nd.unsent ++ snapshots))
  covered : ApplyMsg.covered nd.recovered (nd.applied ++ (nd.unsent ++ snapshots)) =
    nd.rf.lastApplied
  included : nd.rf.lastIncludedIndex ≤ nd.rf.lastApplied
  alone : snapshots = [] ∨ nd.unsent = [] ∧ snapshots.length = 1

theorem Logs.recovered (h : nd.Logs nd') : nd'.recovered = nd.recovered := by
  have hfound : nd'.persister.found = nd.persister.found := by
    rcases h with heq | ⟨done, heq⟩ | ⟨id, heq⟩
    · exact congrArg Lib.Journal.base heq
    · exact congrArg Lib.Journal.base heq
    · exact congrArg Lib.Journal.base heq
  rw [Node.recovered, hfound]
  rfl

structure Still (nd nd' : Node n Cmd) : Prop where
  lastApplied : nd'.rf.lastApplied = nd.rf.lastApplied
  unsent : nd'.unsent = nd.unsent
  applied : nd'.applied = nd.applied

theorem Streams.still {snapshots : List (ApplyMsg Cmd)} (h : nd.Streams snapshots)
    (hlogs : nd.Logs nd') (hstill : nd.Still nd')
    (hinc : nd'.rf.lastIncludedIndex ≤ nd'.rf.lastApplied) : nd'.Streams snapshots := by
  refine ⟨?_, ?_, hinc, ?_⟩
  · rw [hlogs.recovered, hstill.applied, hstill.unsent]
    exact h.order
  · rw [hlogs.recovered, hstill.applied, hstill.unsent, hstill.lastApplied]
    exact h.covered
  · rw [hstill.unsent]
    exact h.alone

theorem Streams.still_of_index {snapshots : List (ApplyMsg Cmd)} (h : nd.Streams snapshots)
    (hlogs : nd.Logs nd') (hstill : nd.Still nd')
    (hix : nd'.rf.lastIncludedIndex = nd.rf.lastIncludedIndex) : nd'.Streams snapshots := by
  apply h.still hlogs hstill
  rw [hix, hstill.lastApplied]
  exact h.included

theorem still_act {sec : Section Cmd} (h : nd.act sec = some (nd', body))
    (hcol : sec ≠ .applierCollect) (hsend : sec ≠ .applierSend)
    (hsnap : ∀ index data, sec ≠ .snapshot index data) : nd.Still nd' := by
  cases acts h with
  | applierCollect => exact absurd rfl hcol
  | applierSend => exact absurd rfl hsend
  | snapshot index data => exact absurd rfl (hsnap index data)
  | startElection => exact ⟨nd.rf.unmoved_startElection.applied, rfl, rfl⟩
  | start command rf hrf => exact ⟨(Raft.sameMarks_start hrf).applied, rfl, rfl⟩
  | _ => exact ⟨rfl, rfl, rfl⟩

theorem still_serve {body body' : CallBody n Cmd} (h : nd.serve body = some (nd', body'))
    (hins : ∀ args, body ≠ .installRequested args)
    (hsen : ∀ args reply msg, body ≠ .installSending args reply msg) : nd.Still nd' := by
  cases serves h with
  | installRefused args | installRequested args => exact absurd rfl (hins args)
  | installSending args reply msg => exact absurd rfl (hsen args reply msg)
  | voteRequested args =>
    have happ := (nd.rf.unmoved_requestVote args).applied
    unfold finishVote
    split <;> exact ⟨happ, rfl, rfl⟩
  | appendRequested args =>
    have happ := (nd.rf.sameMarks_appendEntries args).applied
    cases (nd.rf.appendEntries args).2.2 <;> exact ⟨happ, rfl, rfl⟩
  | appendServing args reply wait => cases wait <;> exact ⟨rfl, rfl, rfl⟩
  | _ => exact ⟨rfl, rfl, rfl⟩

theorem still_resume {peer : Fin n} {body : CallBody n Cmd} {body' : Option (CallBody n Cmd)}
    (h : nd.resume peer body = some (nd', body')) : nd.Still nd' := by
  obtain ⟨hrf, _, huns, happ⟩ := untouched_resume h
  exact ⟨hrf.applied, huns, happ⟩

theorem streams_make (p : Fin n) {ps : Persister n Cmd} (hsav : ps.saves = []) :
    (make p ps).Streams [] := by
  have hix := (make_log p hsav).2
  have hrec : (make p ps).recovered = (make p ps).rf.lastIncludedIndex := by
    rw [hix]
    change (ps.found.map RaftState.lastIncludedIndex).getD 0 = _
    cases ps.found <;> rfl
  exact ⟨trivial, hrec, Nat.le_refl _, .inl rfl⟩

theorem Streams.applierCollect (h : nd.Streams [])
    (hact : nd.act .applierCollect = some (nd', body)) : nd'.Streams [] := by
  have hrec := (logs_act hact).recovered
  simp only [act] at hact
  split_ifs at hact with hempty
  cases hact
  have hbat := Raft.collect_inOrder nd.rf.commitIndex nd.rf h.included
  have hord := h.order
  have hcov := h.covered
  rw [hempty, append_nil, append_nil] at hord hcov
  refine ⟨?_, ?_, ?_, .inl rfl⟩
  · rw [append_nil, ApplyMsg.inOrder_append]
    refine ⟨hord, ?_⟩
    change ApplyMsg.InOrder (ApplyMsg.covered nd.recovered nd.applied) nd.rf.applier.2
    rw [hcov]
    exact hbat.1
  · rw [append_nil, ApplyMsg.covered_append]
    change ApplyMsg.covered (ApplyMsg.covered nd.recovered nd.applied) nd.rf.applier.2 = _
    rw [hcov]
    exact hbat.2
  · obtain ⟨k, hk⟩ := Raft.collect_eq nd.rf.commitIndex nd.rf
    have hle := hbat.1.le_covered
    rw [hbat.2] at hle
    have hinc := h.included
    change nd.rf.applier.1.lastIncludedIndex ≤ nd.rf.applier.1.lastApplied
    rw [Raft.applier, hk] at *
    dsimp only at hle ⊢
    omega

theorem Streams.applierSend {snapshots : List (ApplyMsg Cmd)} (h : nd.Streams snapshots)
    (hact : nd.act .applierSend = some (nd', body)) : nd'.Streams snapshots := by
  cases acts hact
  rename_i msg rest huns
  have hsame : (nd.applied ++ [msg]) ++ (rest ++ snapshots) =
      nd.applied ++ (nd.unsent ++ snapshots) := by
    rw [huns, append_assoc]
    rfl
  refine ⟨?_, ?_, h.included, ?_⟩
  · change ApplyMsg.InOrder nd.recovered ((nd.applied ++ [msg]) ++ (rest ++ snapshots))
    rw [hsame]
    exact h.order
  · change ApplyMsg.covered nd.recovered ((nd.applied ++ [msg]) ++ (rest ++ snapshots)) = _
    rw [hsame]
    exact h.covered
  · refine h.alone.imp_right fun hone => ?_
    rw [huns] at hone
    cases hone.1

theorem Streams.deliver {msg : ApplyMsg Cmd} (h : nd.Streams [msg]) :
    Streams { nd with applied := nd.applied ++ [msg] } [] := by
  have hempty : nd.unsent = [] := by
    rcases h.alone with hnil | hone
    · cases hnil
    · exact hone.1
  have hord := h.order
  have hcov := h.covered
  rw [hempty, nil_append] at hord hcov
  refine ⟨?_, ?_, h.included, .inl rfl⟩
  · change ApplyMsg.InOrder nd.recovered ((nd.applied ++ [msg]) ++ (nd.unsent ++ []))
    rw [hempty, append_nil, append_nil]
    exact hord
  · change ApplyMsg.covered nd.recovered ((nd.applied ++ [msg]) ++ (nd.unsent ++ [])) = _
    rw [hempty, append_nil, append_nil]
    exact hcov

theorem Streams.snapshot {snapshots : List (ApplyMsg Cmd)} (h : nd.Streams snapshots) {index : Nat}
    {data : Bytes} (hact : nd.act (.snapshot index data) = some (nd', body))
    (hbeh : index ≤ nd.rf.lastApplied) : nd'.Streams snapshots := by
  have hlogs := logs_act hact
  cases acts hact
  rename_i rf taken hrf
  rcases Raft.snapshot_cases hrf with ⟨rfl, _⟩ | ⟨_, _, _, hix, _, _, _, happ, _⟩
  · exact h.still hlogs ⟨rfl, rfl, rfl⟩ h.included
  · have hsame : rf.lastApplied = nd.rf.lastApplied := by
      rw [happ]
      omega
    apply h.still hlogs ⟨hsame, rfl, rfl⟩
    change rf.lastIncludedIndex ≤ rf.lastApplied
    omega

theorem Streams.install (h : nd.Streams []) (hempty : nd.unsent = []) (hlogs : nd.Logs nd')
    {args : InstallSnapshotArgs n} (hrf : nd'.rf = (nd.rf.catchUp args.term).install args)
    (huns : nd'.unsent = nd.unsent) (hdel : nd'.applied = nd.applied)
    (hahead : nd.rf.lastApplied < args.lastIncludedIndex) :
    nd'.Streams [.snapshot args.data args.lastIncludedTerm args.lastIncludedIndex] := by
  have hord := h.order
  have hcov := h.covered
  rw [hempty, append_nil, append_nil] at hord hcov
  have happ : nd'.rf.lastApplied = args.lastIncludedIndex := by
    rw [hrf]
    change max (nd.rf.catchUp args.term).lastApplied args.lastIncludedIndex = _
    rw [(nd.rf.unmoved_catchUp args.term).applied]
    omega
  refine ⟨?_, ?_, ?_, .inr ⟨huns.trans hempty, rfl⟩⟩
  · rw [hlogs.recovered, hdel, huns, hempty, nil_append, ApplyMsg.inOrder_append]
    refine ⟨hord, ?_, trivial⟩
    rw [hcov]
    exact hahead
  · rw [hlogs.recovered, hdel, huns, hempty, nil_append, ApplyMsg.covered_append, happ]
    rfl
  · rw [happ, hrf]
    exact Nat.le_refl _

end Node

def CallBody.snapshot? : CallBody n Cmd → Option (ApplyMsg Cmd)
  | .installSending _ _ msg => some msg
  | _ => none

theorem filterMap_set_split {α β : Type*} (f : α → Option β) {l : List α} {i : Nat} {x : α}
    (h : l[i]? = some x) (y : α) : ∃ front back, l.filterMap f = front ++ ((f x).toList ++ back) ∧
      (l.set i y).filterMap f = front ++ ((f y).toList ++ back) := by
  obtain ⟨hi, rfl⟩ := List.getElem?_eq_some_iff.mp h
  have hcons : ∀ (z : α) (zs : List α), (z :: zs).filterMap f = (f z).toList ++ zs.filterMap f := by
    intro z zs
    rw [filterMap_cons]
    cases f z <;> rfl
  refine ⟨(l.take i).filterMap f, (l.drop (i + 1)).filterMap f, ?_, ?_⟩
  · rw [← hcons, ← filterMap_append, ← drop_eq_getElem_cons hi, take_append_drop]
  · rw [set_eq_take_append_cons_drop, if_pos hi, filterMap_append, hcons]

theorem filterMap_eraseIdx_of_none {α β : Type*} {f : α → Option β} {l : List α} {i : Nat} {x : α}
    (h : l[i]? = some x) (hx : f x = none) : (l.eraseIdx i).filterMap f = l.filterMap f := by
  induction l generalizing i with
  | nil => cases h
  | cons y l ih =>
    cases i with
    | zero =>
      cases h
      rw [eraseIdx_zero, tail_cons, filterMap_cons, hx]
    | succ i =>
      rw [eraseIdx_cons_succ, filterMap_cons, filterMap_cons, ih h]

theorem Node.serve_ne_sending {nd nd' : Node n Cmd} {body : CallBody n Cmd}
    (hins : ∀ args, body ≠ .installRequested args) {args : InstallSnapshotArgs n}
    {reply : InstallSnapshotReply} {msg : ApplyMsg Cmd} :
    nd.serve body ≠ some (nd', .installSending args reply msg) := by
  intro h
  cases serve_follows h
  exact hins _ rfl

namespace Cluster

variable {s s' : Cluster n Cmd} {p : Fin n} {i : Nat}

def snapshots (s : Cluster n Cmd) (p : Fin n) : List (ApplyMsg Cmd) :=
  s.calls.filterMap fun c => if c.dst = p then c.body.snapshot? else none

/-- A snapshot is accepted when it is ahead of everything collected and nothing is on its
way to the service; the applier collects when no snapshot is; the service takes
snapshots of what was collected. -/
def deliversAhead (s : Cluster n Cmd) : Action n Cmd → Bool
  | .run p .applierCollect => (s.snapshots p).isEmpty
  | .run p (.snapshot index _) => index ≤ (s.node p).rf.lastApplied
  | .serve i => (s.calls[i]?).all fun c =>
    match c.body with
    | .installRequested args =>
      !(s.node c.dst).rf.accepts args || ((s.node c.dst).rf.lastApplied < args.lastIncludedIndex &&
          (s.node c.dst).unsent.isEmpty && (s.snapshots c.dst).isEmpty)
    | _ => true
  | _ => true

def Streaming (s : Cluster n Cmd) : Prop := ∀ p, (s.node p).Streams (s.snapshots p)

theorem Streaming.update (h : s.Streaming) {q : Fin n} {nd : Node n Cmd}
    (hnode : s'.node = Function.update s.node q nd) (hnd : nd.Streams (s'.snapshots q))
    (hother : ∀ p, p ≠ q → s'.snapshots p = s.snapshots p) : s'.Streaming := by
  refine forall_node (P := fun p nd => nd.Streams (s'.snapshots p)) hnode hnd ?_
  intro p hp
  rw [hother p hp]
  exact h p

theorem snapshots_run {sec : Section Cmd} {nd : Node n Cmd} {body : Option (CallBody n Cmd)}
    (hact : (s.node p).act sec = some (nd, body)) (hcs : s'.calls = s.calls ++ spawn p body)
    (q : Fin n) : s'.snapshots q = s.snapshots q := by
  have hnone : (spawn p body).filterMap
      (fun c => if c.dst = q then c.body.snapshot? else none) = [] := by
    apply filterMap_eq_nil_iff.mpr
    intro c hc
    rw [(mem_spawn hc).2.2.2] at hact
    rcases act_some hact with ⟨args, hbody⟩ | hbody <;> rw [hbody] <;>
      simp [CallBody.snapshot?]
  rw [snapshots, hcs, filterMap_append, hnone, append_nil]
  rfl

theorem snapshots_set {c : Call n Cmd} (hc : s.calls[i]? = some c) {body : CallBody n Cmd}
    (hcs : s'.calls = s.calls.set i { c with body := body }) (p : Fin n) : ∃ front back,
      s.snapshots p =
        front ++ ((if c.dst = p then c.body.snapshot? else none).toList ++ back) ∧
      s'.snapshots p =
        front ++ ((if c.dst = p then body.snapshot? else none).toList ++ back) := by
  rw [snapshots, snapshots, hcs]
  exact filterMap_set_split _ hc _

theorem snapshots_set_of_eq {c : Call n Cmd} (hc : s.calls[i]? = some c) {body : CallBody n Cmd}
    (hcs : s'.calls = s.calls.set i { c with body := body })
    (h : c.dst ≠ p ∨ body.snapshot? = c.body.snapshot?) : s'.snapshots p = s.snapshots p := by
  obtain ⟨front, back, hold, hnew⟩ := snapshots_set hc hcs p
  rw [hold, hnew]
  rcases h with hne | heq
  · rw [if_neg hne, if_neg hne]
  · rw [heq]

theorem Streaming.run (h : s.Streaming) {sec : Section Cmd}
    (hok : s.deliversAhead (.run p sec) = true) (hstep : s.step (.run p sec) = some s') :
    s'.Streaming := by
  obtain ⟨nd, body, hact, hnode, hcs⟩ := step_run hstep
  have hsame := snapshots_run hact hcs
  refine h.update hnode ?_ fun q _ => hsame q
  rw [hsame p]
  have hp := h p
  have hstill := hp.still_of_index (logs_act hact)
  have hsame := sameLog_act hact
  cases acts hact with
  | applierCollect =>
    have hnil : s.snapshots p = [] := isEmpty_iff.mp hok
    rw [hnil] at hp ⊢
    exact hp.applierCollect hact
  | applierSend => exact hp.applierSend hact
  | snapshot index data => exact hp.snapshot hact (of_decide_eq_true hok)
  | start command rf hrf =>
    exact hstill (still_act hact (by simp) (by simp) (by simp))
      (Raft.start_lastIncludedIndex hrf)
  | _ =>
    exact hstill (still_act hact (by simp) (by simp) (by simp))
      (hsame (by simp) (by simp)).index

theorem Streaming.serve (h : s.Streaming) (hok : s.deliversAhead (.serve i) = true)
    (hstep : s.step (.serve i) = some s') : s'.Streaming := by
  obtain ⟨c, nd, body, hc, hsv, hnode, hcs⟩ := step_serve hstep
  have hlogs := logs_serve hsv
  have hq := h c.dst
  refine h.update hnode ?_ fun p hp => snapshots_set_of_eq hc hcs (.inl hp.symm)
  by_cases hins : ∃ args, c.body = .installRequested args
  · obtain ⟨args, hbody⟩ := hins
    have hsv' := hsv
    rw [hbody] at hsv'
    obtain ⟨⟨_, huns, happ⟩, hcases⟩ := serve_installRequested_cases hsv'
    rcases hcases with ⟨_, ⟨term, hrf⟩, _, reply, rfl⟩ | ⟨hacc, hrf, _, reply, rfl⟩
    · rw [snapshots_set_of_eq hc hcs (.inr (by rw [hbody]; rfl))]
      apply hq.still_of_index hlogs
      · exact ⟨by rw [hrf]; exact ((s.node c.dst).rf.unmoved_catchUp term).applied, huns,
          happ⟩
      · rw [hrf]
        exact ((s.node c.dst).rf.sameLog_catchUp term).index
    · -- the snapshot is the only message on its way
      have hcond : ((s.node c.dst).rf.lastApplied < args.lastIncludedIndex ∧
          (s.node c.dst).unsent = []) ∧ s.snapshots c.dst = [] := by
        simpa [deliversAhead, hc, hbody, hacc] using hok
      obtain ⟨⟨hahead, hempty⟩, hnil⟩ := hcond
      obtain ⟨front, back, hold, hnew⟩ := snapshots_set hc hcs c.dst
      rw [hnil, hbody] at hold
      have hfr : front = [] ∧ back = [] := by simpa [CallBody.snapshot?] using hold.symm
      rw [hnew, hfr.1, hfr.2, if_pos rfl]
      rw [hnil] at hq
      exact hq.install hempty hlogs hrf huns happ hahead
  push Not at hins
  by_cases hsen : ∃ args reply msg, c.body = .installSending args reply msg
  · obtain ⟨args, reply, msg, hbody⟩ := hsen
    rw [hbody] at hsv
    cases serves hsv
    obtain ⟨front, back, hold, hnew⟩ := snapshots_set hc hcs c.dst
    rw [hbody, if_pos rfl] at hold
    rw [if_pos rfl] at hnew
    -- a snapshot on its way is alone
    have hone : front = [] ∧ back = [] := by
      rcases hq.alone with hnil | ⟨_, hlen⟩
      · rw [hold] at hnil
        simp [CallBody.snapshot?] at hnil
      · rw [hold] at hlen
        simp only [CallBody.snapshot?, Option.toList_some, length_append, length_singleton] at hlen
        exact ⟨eq_nil_of_length_eq_zero (by omega),
          eq_nil_of_length_eq_zero (by omega)⟩
    rw [hnew, hone.1, hone.2]
    rw [hold, hone.1, hone.2] at hq
    exact Node.Streams.deliver hq
  push Not at hsen
  have hsnap : body.snapshot? = c.body.snapshot? := by
    have hold : c.body.snapshot? = none := by
      cases hbody : c.body with
      | installSending args reply msg => exact absurd hbody (hsen args reply msg)
      | _ => rfl
    rw [hold]
    cases hbody : body with
    | installSending args reply msg =>
      rw [hbody] at hsv
      exact absurd hsv (serve_ne_sending hins)
    | _ => rfl
  rw [snapshots_set_of_eq hc hcs (.inr hsnap)]
  apply hq.still_of_index hlogs (still_serve hsv hins hsen)
  by_cases happe : ∃ args, c.body = .appendRequested args
  · obtain ⟨args, hbody⟩ := happe
    rw [hbody] at hsv
    cases serves hsv
    rw [finishAppend_rf]
    exact ((s.node c.dst).rf.appendEntries_included args).1
  · push Not at happe
    exact (sameLog_serve hsv happe hins).index

theorem Streaming.resume (h : s.Streaming) (hstep : s.step (.resume i) = some s') :
    s'.Streaming := by
  obtain ⟨c, nd, body, hc, _, hres, hnode, hcs⟩ := step_resume hstep
  -- no snapshot is on its way while the caller is at work
  have hnone : c.body.snapshot? = none := by
    cases hbody : c.body with
    | installSending args reply msg =>
      rw [hbody] at hres
      cases hres
    | _ => rfl
  have hsame : ∀ p, s'.snapshots p = s.snapshots p := by
    intro p
    rw [snapshots, snapshots, hcs]
    cases body with
    | none =>
      have hf : (if c.dst = p then c.body.snapshot? else none) = none := by
        rw [hnone, ite_self]
      exact filterMap_eraseIdx_of_none hc hf
    | some b =>
      have hbody : b.snapshot? = c.body.snapshot? := by
        rw [hnone]
        rcases (resume_some hres).2 with ⟨_, rfl⟩ | ⟨_, rfl⟩ <;> rfl
      have hset : (s.setCall i c (some b)).snapshots p = s.snapshots p :=
        snapshots_set_of_eq hc rfl (.inr hbody)
      exact hset
  refine h.update hnode ?_ fun p _ => hsame p
  rw [hsame]
  exact (h c.src).still_of_index (logs_resume hres) (still_resume hres) (sameLog_resume hres).index

theorem snapshots_crash (hcs : s'.calls = (s.calls.filter (·.survives p)).map (·.orphan p))
    (q : Fin n) : s'.snapshots q = if q = p then [] else s.snapshots q := by
  rw [snapshots, hcs, filterMap_map]
  have hkeep : ∀ c : Call n Cmd, (if c.dst = q then c.body.snapshot? else none) ≠ none →
      c.survives p = decide (q ≠ p) := by
    intro c hc
    split at hc
    · rename_i hdst
      cases hbody : c.body with
      | installSending args reply msg => simp [Call.survives, hbody, hdst]
      | _ =>
        rw [hbody] at hc
        exact absurd rfl hc
    · exact absurd rfl hc
  change (s.calls.filter (·.survives p)).filterMap
    (fun c => if c.dst = q then c.body.snapshot? else none) = _
  rw [filterMap_filter]
  by_cases hq : q = p
  · rw [if_pos hq]
    apply filterMap_eq_nil_iff.mpr
    intro c _
    by_cases hf : (if c.dst = q then c.body.snapshot? else none) = none
    · rw [hf, ite_self]
    · rw [hkeep c hf]
      simp [hq]
  · rw [if_neg hq, snapshots]
    apply filterMap_congr
    intro c _
    by_cases hf : (if c.dst = q then c.body.snapshot? else none) = none
    · rw [hf, ite_self]
    · rw [hkeep c hf]
      simp [hq]

theorem Streaming.crash (h : s.Streaming) {id : Option Nat}
    (hstep : s.step (.crash p id) = some s') : s'.Streaming := by
  obtain ⟨ps, hps, hnode, hcs⟩ := step_crash hstep
  have hsame := snapshots_crash hcs
  refine h.update hnode ?_ ?_
  · rw [hsame, if_pos rfl]
    exact streams_make p (Persister.afterCrash_saves hps)
  · intro q hq
    rw [hsame, if_neg hq]

theorem streaming_of_reachable
    (h : (system n Cmd).Reachable (fun s a => s.deliversAhead a = true) s) : s.Streaming := by
  apply h.invariant
  · rintro _ rfl
    exact fun p => streams_make p rfl
  · intro t a u ht hok hstep
    cases a with
    | run p sec => exact ht.run hok hstep
    | serve i => exact ht.serve hok hstep
    | resume i => exact ht.resume hstep
    | crash p id => exact ht.crash hstep

/-- In every run in which snapshots are accepted ahead of the stream and alone: the
messages received by a node are in order, and a service that they tell a history is
always at the state of a prefix of it, which only grows. -/
theorem apply_stream_in_order
    (hs : (system n Cmd).Reachable (fun s a => s.deliversAhead a = true) s) (p : Fin n) :
    ApplyMsg.InOrder (s.node p).recovered (s.node p).applied ∧
    ∀ (σ : Type) (apply : σ → Cmd → σ) (restore : Bytes → σ) (init : σ)
      (history : List (Option Cmd)),
      (∀ msg ∈ (s.node p).applied, msg.Tells apply restore init history) →
      ∀ msgs msgs', msgs <+: msgs' → msgs' <+: (s.node p).applied →
        msgs.foldl (deliver apply restore) (stateAt apply init history (s.node p).recovered) =
          stateAt apply init history (ApplyMsg.covered (s.node p).recovered msgs) ∧
        ApplyMsg.covered (s.node p).recovered msgs ≤
          ApplyMsg.covered (s.node p).recovered msgs' := by
  have hord : ApplyMsg.InOrder (s.node p).recovered (s.node p).applied :=
    ((ApplyMsg.inOrder_append _ _ _).mp (streaming_of_reachable hs p).order).1
  refine ⟨hord, ?_⟩
  intro σ apply restore init history htells msgs msgs' hpre hpre'
  obtain ⟨rest, rfl⟩ := hpre
  obtain ⟨tail, htail⟩ := hpre'
  rw [← htail] at hord htells
  obtain ⟨⟨hmsgs, hrest⟩, _⟩ :=
    (ApplyMsg.inOrder_append _ _ _).mp hord |>.imp_left (ApplyMsg.inOrder_append _ _ _).mp
  refine ⟨?_, ?_⟩
  · apply deliver_inOrder apply restore hmsgs
    intro msg hmsg
    exact htells msg (mem_append_left _ (mem_append_left _ hmsg))
  · rw [ApplyMsg.covered_append]
    exact hrest.le_covered

theorem apply_stream_in_order_two_entries :
    ∃ s : Cluster 3 Nat, (s.node 0).applied = [.command (some 7) 1, .command (some 8) 2] ∧
      ApplyMsg.InOrder (s.node 0).recovered (s.node 0).applied := by
  obtain ⟨s, hs, happ⟩ := Lib.System.exists_of_execOk (system 3 Nat)
    (fun s a => s.deliversAhead a = true) boot
    (electFirst ++ [.run 0 (.start (some 7)), .run 0 (.start (some 8)), .run 0 (.saveDone 0),
      .run 0 (.saveDone 1), .run 0 (.completePersist 0), .run 0 (.completePersist 0),
      .run 0 .sendHeartbeats, .resume 1, .serve 1, .run 1 (.saveDone 0), .serve 1, .serve 1,
      .resume 1, .run 0 .applierCollect, .run 0 .applierSend, .run 0 .applierSend])
    (fun s => (s.node 0).applied = [.command (some 7) 1, .command (some 8) 2]) (by decide)
  exact ⟨s, happ, (apply_stream_in_order ⟨_, rfl, hs⟩ 0).1⟩

theorem apply_stream_backwards :
    ∃ s : Cluster 3 Nat, (system 3 Nat).Reachable Lib.System.anyStep s ∧ (s.node 2).applied =
        [.command (some 7) 1, .command (some 8) 2, .snapshot [1] 1 1] ∧
      ¬ ApplyMsg.InOrder (s.node 2).recovered (s.node 2).applied := by
  obtain ⟨s, hs, happ⟩ := Lib.System.exists_of_exec (system 3 Nat) boot
    (electFirst ++ [.run 0 (.start (some 7)), .run 0 (.start (some 8)), .run 0 (.saveDone 0),
      .run 0 (.saveDone 1), .run 0 (.completePersist 0), .run 0 (.completePersist 0),
      .run 0 .sendHeartbeats, .resume 1, .serve 1, .run 1 (.saveDone 0), .serve 1, .serve 1,
      .resume 1, .resume 1, .serve 1, .run 2 (.saveDone 0), .serve 1, .run 2 .applierCollect,
      .run 2 .applierSend, .run 2 .applierSend, .run 0 .applierCollect, .run 0 .applierSend,
      .run 0 (.snapshot 1 [1]), .run 0 .sendHeartbeats, .resume 3, .serve 3, .serve 3])
    (fun s => (s.node 2).applied =
      [.command (some 7) 1, .command (some 8) 2, .snapshot [1] 1 1]) (by decide)
  refine ⟨s, .of_exec rfl hs, happ, ?_⟩
  rw [happ]
  rintro ⟨_, _, hback, _⟩
  change 2 < 1 at hback
  omega

end Cluster

end OrbisKV
