import OrbisKV.KV.Submit
import OrbisKV.Raft.CommandStream
/-!
# What a state machine has seen

Without restarts and snapshots the state machine of a node is where the commands that its
node was delivered lead, one after the other, and all nodes are delivered prefixes of one
history.
-/

namespace OrbisKV.KV

open Lib Lib.TermLog Cluster KV.Group List Option

variable {n : Nat} {σ Req Res : Type}

namespace StateMachine

variable (sm : StateMachine σ Req Res)

def execute (state : σ) : Option (Command n Req) → Option σ
  | none => some state
  | some command => (sm.doOp state command.oper.req).map Prod.fst

def replay (state : σ) (history : List (Option (Command n Req))) : Option σ :=
  history.foldlM sm.execute state

variable {sm}

theorem replay_take_succ {state here : σ} {history : List (Option (Command n Req))} {j : Nat}
    {entry : Option (Command n Req)} (hat : sm.replay state (history.take j) = some here)
    (hent : history[j]? = some entry) :
    sm.replay state (history.take (j + 1)) = sm.execute here entry := by
  rw [take_add_one, hent, replay, foldlM_append]
  change (sm.replay state (history.take j)).bind _ = _
  rw [hat]
  change (sm.execute here entry).bind some = _
  exact bind_fun_some _

end StateMachine

/-- The node at which a command was executed had been delivered it at its index, and the
value is that of `DoOp` after everything before. -/
def Execution.Recorded (sm : StateMachine σ Req Res) (state : σ)
    (delivered : List (Option (Command n Req))) (e : Execution n Req Res) : Prop :=
  ∃ j here after, e.index = j + 1 ∧ delivered[j]? = some (some e.command) ∧
    sm.replay state (delivered.take j) = some here ∧
    sm.doOp here e.command.oper.req = some (after, e.value)

theorem Execution.Recorded.mono {sm : StateMachine σ Req Res} {state : σ}
    {delivered delivered' : List (Option (Command n Req))} {e : Execution n Req Res}
    (hgrow : delivered <+: delivered') (h : e.Recorded sm state delivered) :
    e.Recorded sm state delivered' := by
  obtain ⟨j, here, after, hix, hcom, hrep, hval⟩ := h
  have hj : j < delivered.length := (List.getElem?_eq_some_iff.mp hcom).1
  refine ⟨j, here, after, hix, getElem?_of_isPrefix hgrow hcom, ?_, hval⟩
  rw [take_eq_of_isPrefix hgrow hj.le, hrep]

structure RSM.Follows (sm : StateMachine σ Req Res) (state : σ)
    (delivered : List (Option (Command n Req))) (r : RSM n σ Req Res) : Prop where
  replay : sm.replay state (delivered.take r.received) = some r.sm
  received : r.received ≤ delivered.length
  applying : ∀ idctr smSnapshot, r.applying ≠ some (.restoring idctr smSnapshot)
  routines : r.routines = []

structure RSM.Idles (r r' : RSM n σ Req Res) : Prop where
  sm : r'.sm = r.sm
  received : r'.received = r.received
  applying : r'.applying = r.applying ∨ r'.applying = none
  routines : r'.routines = r.routines
  idCounter : r.idCounter ≤ r'.idCounter

namespace RSM

variable {sm : StateMachine σ Req Res} {state : σ}
  {delivered delivered' : List (Option (Command n Req))} {r r' r'' : RSM n σ Req Res}

theorem Idles.rfl : r.Idles r := ⟨Eq.refl _, Eq.refl _, Or.inl (Eq.refl _), Eq.refl _, le_refl _⟩

theorem Idles.trans (h : r.Idles r') (h' : r'.Idles r'') : r.Idles r'' where
  sm := h'.sm.trans h.sm
  received := h'.received.trans h.received
  applying := by
    rcases h'.applying with heq | hnone
    · rw [heq]
      exact h.applying
    · exact Or.inr hnone
  routines := h'.routines.trans h.routines
  idCounter := h.idCounter.trans h'.idCounter

theorem Follows.idle (h : r.Follows sm state delivered) (hidle : r.Idles r')
    (hgrow : delivered <+: delivered') : r'.Follows sm state delivered' where
  replay := by
    rw [hidle.received, hidle.sm, take_eq_of_isPrefix hgrow h.received, h.replay]
  received := by
    rw [hidle.received]
    exact h.received.trans hgrow.length_le
  applying idctr smSnapshot := by
    rcases hidle.applying with heq | hnone
    · rw [heq]
      exact h.applying idctr smSnapshot
    · rw [hnone]
      exact some_ne_none _ ∘ Eq.symm
  routines := hidle.routines.trans h.routines

end RSM

namespace Group

variable {sm : StateMachine σ Req Res} {codec : SnapshotCodec} {state : Fin n → σ}
  {g g' g'' : Group n σ Req Res} {p : Fin n}

structure Idles (g g' : Group n σ Req Res) : Prop where
  cluster : (Cluster.system n (Command n Req)).Run (fun s a => s.plainStep a = true)
    g.cluster g'.cluster
  rsm : ∀ p, (g.rsm p).Idles (g'.rsm p)
  executed : g'.executed = g.executed
  submits : ∀ c ∈ g'.submits, (∃ d ∈ g.submits, d.oper = c.oper) ∨
    c.oper.id ≤ (g'.rsm c.oper.me).idCounter

theorem Idles.refl : g.Idles g where
  cluster := System.Run.refl _
  rsm _ := RSM.Idles.rfl
  executed := rfl
  submits c hc := Or.inl ⟨c, hc, rfl⟩

theorem Idles.update (h : g.Idles g') {f : Nat → SubmitCall n Req Res → SubmitCall n Req Res}
    (hoper : ∀ k c, (f k c).oper = c.oper) : g.Idles (g'.update f) := by
  refine { h with submits := ?_ }
  intro c hc
  obtain ⟨k, hk⟩ := List.mem_iff_getElem?.mp hc
  rw [Group.update, List.getElem?_mapIdx, Option.map_eq_some_iff] at hk
  obtain ⟨d, hd, rfl⟩ := hk
  rw [hoper]
  exact h.submits d (List.mem_of_getElem? hd)

theorem Idles.modify (h : g.Idles g') {k : Option Nat}
    {f : SubmitCall n Req Res → SubmitCall n Req Res} (hoper : ∀ c, (f c).oper = c.oper) :
    g.Idles (g'.modify k f) := by
  refine h.update ?_
  intro j c
  split
  · exact hoper c
  · rfl

theorem Idles.setRsm (h : g.Idles g') {r : RSM n σ Req Res} (hr : (g'.rsm p).Idles r) :
    g.Idles (g'.setRsm p r) := by
  have hall : ∀ q, (g'.rsm q).Idles ((g'.setRsm p r).rsm q) :=
    forall_setRsm (P := fun q r => (g'.rsm q).Idles r) hr fun _ => RSM.Idles.rfl
  refine { h with rsm := fun q => (h.rsm q).trans (hall q), submits := ?_ }
  intro c hc
  exact (h.submits c hc).imp_right fun hle => hle.trans (hall c.oper.me).idCounter

theorem idles_setCluster {a : OrbisKV.Action n (Command n Req)}
    {cluster : Cluster n (Command n Req)} (hok : g.cluster.plainStep a = true)
    (hstep : g.cluster.step a = some cluster) : g.Idles { g with cluster := cluster } :=
  { Idles.refl with cluster := (System.Run.refl _).step hok hstep }

structure Follows (sm : StateMachine σ Req Res) (state : Fin n → σ) (g : Group n σ Req Res) :
    Prop where
  reachable : (Cluster.system n (Command n Req)).Reachable (fun s a => s.plainStep a = true)
    g.cluster
  nodes : ∀ p, (g.rsm p).Follows sm (state p) (g.cluster.delivered p)
  executed : ∀ e ∈ g.executed, e.Recorded sm (state e.node) (g.cluster.delivered e.node)
  counted : ∀ c ∈ g.submits, c.oper.id ≤ (g.rsm c.oper.me).idCounter

theorem follows_boot : (boot state : Group n σ Req Res).Follows sm state where
  reachable := ⟨_, rfl, System.Run.refl _⟩
  nodes p := ⟨rfl, Nat.zero_le _, by rintro _ _ ⟨⟩, rfl⟩
  executed := by rintro e ⟨⟩
  counted := by rintro c ⟨⟩

theorem Follows.idle (h : g.Follows sm state) (hidle : g.Idles g') : g'.Follows sm state where
  reachable := by
    obtain ⟨s, hinit, hrun⟩ := h.reachable
    exact ⟨s, hinit, hrun.trans hidle.cluster⟩
  nodes p := (h.nodes p).idle (hidle.rsm p) (Cluster.delivered_run hidle.cluster p)
  executed e he := by
    rw [hidle.executed] at he
    exact (h.executed e he).mono (Cluster.delivered_run hidle.cluster e.node)
  counted c hc := by
    rcases hidle.submits c hc with ⟨d, hd, hoper⟩ | hle
    · rw [← hoper]
      exact (h.counted d hd).trans (hidle.rsm _).idCounter
    · exact hle

theorem Follows.setRsm (h : g.Follows sm state) {r : RSM n σ Req Res}
    (hr : r.Follows sm (state p) (g.cluster.delivered p))
    (hcoun : (g.rsm p).idCounter ≤ r.idCounter) : (g.setRsm p r).Follows sm state := by
  have hcou : ∀ q, (g.rsm q).idCounter ≤ ((g.setRsm p r).rsm q).idCounter :=
    forall_setRsm (P := fun q r => (g.rsm q).idCounter ≤ r.idCounter) hcoun fun _ => le_rfl
  exact { h with
    nodes := forall_setRsm hr h.nodes
    counted := fun c hc => (h.counted c hc).trans (hcou c.oper.me) }

theorem Follows.record (h : g.Follows sm state) {e : Execution n Req Res}
    (he : e.Recorded sm (state e.node) (g.cluster.delivered e.node)) :
    { g with executed := g.executed ++ [e] }.Follows sm state := by
  refine { h with executed := ?_ }
  intro x hx
  rcases List.mem_append.mp hx with hold | hnew
  · exact h.executed x hold
  · rw [mem_singleton] at hnew
    exact hnew ▸ he

/-- No node is restarted and no snapshot is taken, and only leaders build requests. -/
def plain (g : Group n σ Req Res) : Action n σ Req → Bool
  | .finishMsg _ wants => !wants
  | .localRead _ _ => false
  | .restart _ _ _ => false
  | .recover _ _ => false
  | .raft a => g.cluster.leaderBuilds a
  | _ => true

theorem noSnapshot_of_internal {Cmd : Type} {a : OrbisKV.Action n Cmd}
    (h : internal a = true) : noSnapshot a = true := by
  cases a with
  | run p sec =>
    cases sec with
    | snapshot index data => cases h
    | _ => rfl
  | crash p id => cases h
  | _ => rfl

theorem Follows.idles_step (h : g.Follows sm state) {a : Action n σ Req} (hok : g.plain a = true)
    (hmsg : ∀ p, a ≠ .receiveMsg p) (hstep : g.step sm codec a = some g') : g.Idles g' := by
  cases a with
  | submit p req =>
    simp only [Group.step, submit] at hstep
    split at hstep <;> cases hstep
    have hrsm := ((Idles.refl (g := g)).setRsm (p := p)
      (r := { g.rsm p with idCounter := (g.rsm p).idCounter + 1 })
      { RSM.Idles.rfl with idCounter := Nat.le_succ _ })
    refine { hrsm with submits := ?_ }
    intro c hc
    rcases List.mem_append.mp hc with hold | hnew
    · exact Or.inl ⟨c, hold, rfl⟩
    · rw [mem_singleton] at hnew
      subst hnew
      right
      change _ ≤ (Function.update g.rsm p _ p).idCounter
      rw [Function.update_self]
      exact le_rfl
  | start k =>
    obtain ⟨c, hc, hstep⟩ := Option.bind_eq_some_iff.mp hstep
    split at hstep
    · split at hstep
      · cases hstep
        exact Idles.refl.modify fun _ => rfl
      · rename_i cluster hclu
        cases hstep
        exact (idles_setCluster rfl hclu).modify fun _ => rfl
    · cases hstep
  | register k =>
    obtain ⟨c, hc, hstep⟩ := Option.bind_eq_some_iff.mp hstep
    split at hstep <;> cases hstep
    refine Idles.setRsm (Idles.modify (Idles.modify Idles.refl ?_) ?_) ?_
    · exact fun _ => rfl
    · exact fun _ => rfl
    · exact { RSM.Idles.rfl with }
  | finish k =>
    obtain ⟨c, hc, hstep⟩ := Option.bind_eq_some_iff.mp hstep
    split at hstep <;> cases hstep
    refine Idles.setRsm (Idles.modify Idles.refl ?_) ?_
    · exact fun _ => rfl
    · exact { RSM.Idles.rfl with }
  | receiveMsg p => exact absurd rfl (hmsg p)
  | finishMsg p wants =>
    simp only [Group.step, finishMsg] at hstep
    split at hstep
    · cases hstep
    · cases hstep
      cases wants with
      | true => cases hok
      | false =>
        exact (Idles.refl.modify fun c => SubmitCall.tell_oper _ _).setRsm
          { RSM.Idles.rfl with applying := Or.inr rfl }
    · rename_i idctr smSnapshot happ
      exact absurd happ ((h.nodes p).applying idctr smSnapshot)
  | createSnapshot p j =>
    simp only [Group.step, Group.createSnapshot, (h.nodes p).routines] at hstep
    cases hstep
  | localRead p req | restart p id st | recover p wal => cases hok
  | shutDown p =>
    cases hstep
    exact Idles.refl.setRsm { RSM.Idles.rfl with }
  | dismiss p =>
    simp only [Group.step, dismiss] at hstep
    split at hstep <;> cases hstep
    refine (Idles.refl.update ?_).setRsm { RSM.Idles.rfl with }
    intro k c
    split <;> rfl
  | raft a =>
    simp only [Group.step] at hstep
    split at hstep
    · rename_i hinternal
      obtain ⟨cluster, hclu, rfl⟩ := Option.map_eq_some_iff.mp hstep
      exact idles_setCluster (plainStep_iff.mpr ⟨hok, noSnapshot_of_internal hinternal⟩) hclu
    · cases hstep
  | _ =>
    obtain ⟨c, hc, hstep⟩ := Option.bind_eq_some_iff.mp hstep
    split at hstep <;> cases hstep
    exact Idles.refl.modify fun _ => rfl

theorem Follows.receiveMsg (h : g.Follows sm state) (hstep : g.receiveMsg sm codec p = some g') :
    g'.Follows sm state := by
  have hp := h.nodes p
  unfold Group.receiveMsg at hstep
  dsimp only at hstep
  split_ifs at hstep
  obtain ⟨msg, hmsg, hstep⟩ := Option.bind_eq_some_iff.mp hstep
  obtain ⟨cmd, rfl⟩ := applied_getElem? h.reachable hmsg
  have hent : (g.cluster.delivered p)[(g.rsm p).received]? = some cmd := by
    rw [delivered, List.getElem?_map, hmsg]
    rfl
  have hrec : (g.rsm p).received + 1 ≤ (g.cluster.delivered p).length :=
    (List.getElem?_eq_some_iff.mp hent).1
  have hrep := StateMachine.replay_take_succ hp.replay hent
  cases cmd with
  | none =>
    cases hstep
    exact h.setRsm ⟨hrep, hrec, hp.applying, hp.routines⟩ le_rfl
  | some command =>
    obtain ⟨⟨after, value⟩, hval, rfl⟩ := Option.map_eq_some_iff.mp hstep
    have hexe : sm.execute (g.rsm p).sm (some command) = some after := by
      rw [StateMachine.execute, hval, map_some]
    have hrecord : Execution.Recorded sm (state p) (g.cluster.delivered p)
        ⟨p, (g.rsm p).received + 1, command, value⟩ :=
      ⟨(g.rsm p).received, (g.rsm p).sm, after, rfl, hent, hp.replay, hval⟩
    refine (h.record hrecord).setRsm ⟨hrep.trans hexe, hrec, ?_, hp.routines⟩ le_rfl
    rintro _ _ ⟨⟩

structure Grows (g g' : Group n σ Req Res) : Prop where
  delivered : ∀ p, g.cluster.delivered p <+: g'.cluster.delivered p
  received : ∀ p, (g.rsm p).received ≤ (g'.rsm p).received

theorem Idles.grows (h : g.Idles g') : g.Grows g' where
  delivered := Cluster.delivered_run h.cluster
  received p := (h.rsm p).received.ge

theorem grows_receiveMsg (hstep : g.receiveMsg sm codec p = some g') : g.Grows g' := by
  have hset : ∀ {h : Group n σ Req Res} {r : RSM n σ Req Res}, h.cluster = g.cluster →
      h.rsm = g.rsm → (g.rsm p).received ≤ r.received → g.Grows (h.setRsm p r) := by
    intro h r hclu hrsm hr
    refine ⟨?_, ?_⟩
    · intro q
      change _ <+: h.cluster.delivered q
      rw [hclu]
    · refine forall_setRsm (P := fun q r => (g.rsm q).received ≤ r.received) hr ?_
      rw [hrsm]
      exact fun _ => le_rfl
  unfold Group.receiveMsg at hstep
  dsimp only at hstep
  split_ifs at hstep
  obtain ⟨msg, hmsg, hstep⟩ := Option.bind_eq_some_iff.mp hstep
  split at hstep
  · cases hstep
    exact hset rfl rfl (Nat.le_succ _)
  · obtain ⟨out, _, rfl⟩ := Option.map_eq_some_iff.mp hstep
    exact hset rfl rfl (Nat.le_succ _)
  · obtain ⟨out, _, rfl⟩ := Option.map_eq_some_iff.mp hstep
    exact hset rfl rfl (Nat.le_succ _)

theorem Follows.step (h : g.Follows sm state) {a : Action n σ Req} (hok : g.plain a = true)
    (hstep : g.step sm codec a = some g') : g'.Follows sm state ∧ g.Grows g' := by
  by_cases hmsg : ∃ p, a = .receiveMsg p
  · obtain ⟨p, rfl⟩ := hmsg
    exact ⟨h.receiveMsg hstep, grows_receiveMsg hstep⟩
  · have hidle := h.idles_step hok (fun p hp => hmsg ⟨p, hp⟩) hstep
    exact ⟨h.idle hidle, hidle.grows⟩

theorem Follows.freshId (h : g.Follows sm state) (a : Action n σ Req) : g.freshId a = true := by
  cases a with
  | submit p req =>
    rw [Group.freshId, List.all_eq_true]
    intro c hc
    have hle := h.counted c hc
    rw [Bool.not_eq_true', opEquals, Bool.and_eq_false_iff]
    by_cases hme : c.oper.me = p
    · rw [hme] at hle
      right
      rw [beq_eq_false_iff_ne]
      change c.oper.id ≠ (g.rsm p).idCounter + 1
      omega
    · left
      rwa [beq_eq_false_iff_ne]
  | _ => rfl

theorem Follows.mem_delivered (h : g.Follows sm state) (hinv : g.Inv) {k : Nat}
    {c : SubmitCall n Req Res} (hc : g.submits[k]? = some c) {result : Option Res}
    (hok : c.phase = .returned .ok result) : some ⟨c.oper, k⟩ ∈ g.cluster.delivered c.oper.me := by
  obtain ⟨value, _, index, _, hmem⟩ := (hinv.sound k c hc).outcome result (by rw [hok]; rfl)
  obtain ⟨j, _, _, _, hcom, _⟩ := h.executed _ hmem
  exact List.mem_of_getElem? hcom

end Group

end OrbisKV.KV
