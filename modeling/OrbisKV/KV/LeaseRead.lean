import OrbisKV.KV.Delivery
/-!
# Reads under a lease

`SubmitLeaseReadWithMode` answers a `Get` from the local state machine if the node is the
leader and its lease has not run out.
-/

namespace OrbisKV.KV

open Lib Lib.TermLog StateMachine Function

variable {n : Nat} {σ Req Res : Type}

def StateMachine.Get (sm : StateMachine σ Req Res) : Type :=
  { req : Req // ∀ state out, sm.doOp state req = some out → out.1 = state }

inductive LeaseStage (Res : Type)
  | led
  | leased
  | answered (value : Res)
  | lost
deriving DecidableEq, Repr

structure LeaseRead (n : Nat) (sm : StateMachine σ Req Res) where
  node : Fin n
  get : sm.Get
  acknowledged : List (Command n Req)
  stage : LeaseStage Res := .led

def LeaseRead.lose {sm : StateMachine σ Req Res} (r : LeaseRead n sm) : LeaseRead n sm :=
  match r.stage with
  | .answered _ => r
  | _ => { r with stage := .lost }

def Group.acknowledged (g : Group n σ Req Res) : List (Command n Req) :=
  g.submits.zipIdx.filterMap fun (c, k) =>
    match c.phase with
    | .returned .ok _ => some ⟨c.oper, k⟩
    | _ => none

structure LeaseGroup (n : Nat) (sm : StateMachine σ Req Res) where
  group : Group n σ Req Res
  now : Nat
  leaseUntil : Fin n → Nat
  reads : List (LeaseRead n sm)

namespace LeaseGroup

section Leases

variable {Cmd : Type} (rf : Raft n Cmd) (now leaseDur lease : Nat)

def leaseOnRequest : CallBody n Cmd → Nat
  | .installRequested args => if rf.currentTerm < args.term then 0 else lease
  | _ => lease

def leaseOnReply (majority : Bool) : CallBody n Cmd → Nat
  | .voteReplied _ reply =>
    if rf.currentTerm < reply.term then 0
    else if rf.state = .candidate ∧ (rf.handleVoteResponse reply).1.state = .leader then
      now + leaseDur
    else lease
  | .appendReplied args reply =>
    if rf.state ≠ .leader ∨ args.term ≠ rf.currentTerm then lease
    else if rf.currentTerm < reply.term then 0
    else if reply.success && majority then now + leaseDur
    else lease
  | .installReplied _ reply => if rf.currentTerm < reply.term then 0 else lease
  | _ => lease

end Leases

variable {sm : StateMachine σ Req Res} (codec : SnapshotCodec) (leaseDur : Fin n → Nat)
  (s : LeaseGroup n sm)

def leasesAfter (majority : Bool) : OrbisKV.Action n (Command n Req) → Fin n → Nat
  | .run p .startElection =>
    update s.leaseUntil p (if n / 2 < 1 then s.now + leaseDur p else 0)
  | .serve i =>
    match s.group.cluster.calls[i]? with
    | none => s.leaseUntil
    | some c => update s.leaseUntil c.dst
        (leaseOnRequest (s.group.cluster.node c.dst).rf (s.leaseUntil c.dst) c.body)
  | .resume i =>
    match s.group.cluster.calls[i]? with
    | none => s.leaseUntil
    | some c => update s.leaseUntil c.src
        (leaseOnReply (s.group.cluster.node c.src).rf s.now (leaseDur c.src)
          (s.leaseUntil c.src) majority c.body)
  | _ => s.leaseUntil

inductive Action (n : Nat) (sm : StateMachine σ Req Res)
  | group (a : Group.Action n σ Req) (majority : Bool)
  | tick
  | checkLeader (p : Fin n) (get : sm.Get)
  | checkLease (i : Nat)
  | read (i : Nat)

def groupStep (a : Group.Action n σ Req) (majority : Bool) : Option (LeaseGroup n sm) :=
  match a with
  | .localRead _ _ => none
  | .restart p _ _ =>
    (s.group.step sm codec a).map fun group =>
      { s with
        group := group
        leaseUntil := update s.leaseUntil p s.now
        reads := s.reads.map fun r => if r.node = p then r.lose else r }
  | .raft b =>
    (s.group.step sm codec a).map fun group =>
      { s with group := group, leaseUntil := s.leasesAfter leaseDur majority b }
  | _ => (s.group.step sm codec a).map fun group => { s with group := group }

def checkLeader (p : Fin n) (get : sm.Get) : Option (LeaseGroup n sm) :=
  if (s.group.rsm p).ready && (s.group.cluster.node p).rf.state == .leader then
    let r : LeaseRead n sm := { node := p, get := get, acknowledged := s.group.acknowledged }
    some { s with reads := s.reads ++ [r] }
  else none

def checkLease (i : Nat) : Option (LeaseGroup n sm) :=
  (s.reads[i]?).bind fun r =>
    match r.stage with
    | .led =>
      if s.now < s.leaseUntil r.node then
        some { s with reads := s.reads.set i { r with stage := .leased } }
      else none
    | _ => none

def read (i : Nat) : Option (LeaseGroup n sm) :=
  (s.reads[i]?).bind fun r =>
    match r.stage with
    | .leased =>
      (sm.doOp (s.group.rsm r.node).sm r.get.1).bind fun (_, value) =>
        (s.group.localRead sm r.node r.get.1).map fun group =>
          { s with
            group := group
            reads := s.reads.set i { r with stage := .answered value } }
    | _ => none

def step : Action n sm → Option (LeaseGroup n sm)
  | .group a majority => s.groupStep codec leaseDur a majority
  | .tick => some { s with now := s.now + 1 }
  | .checkLeader p get => s.checkLeader p get
  | .checkLease i => s.checkLease i
  | .read i => s.read i

def boot (state : Fin n → σ) : LeaseGroup n sm := ⟨Group.boot state, 0, fun _ => 0, []⟩

def system (sm : StateMachine σ Req Res) (codec : SnapshotCodec) (leaseDur : Fin n → Nat)
    (state : Fin n → σ) : System (LeaseGroup n sm) (Action n sm) where
  init s := s = boot state
  step s := s.step codec leaseDur

end LeaseGroup

variable {sm : StateMachine σ Req Res} {codec : SnapshotCodec} {leaseDur : Fin n → Nat}
  {state : Fin n → σ}

theorem Group.mem_acknowledged {g : Group n σ Req Res} {command : Command n Req}
    (h : command ∈ g.acknowledged) :
    ∃ k c result, g.submits[k]? = some c ∧ c.phase = .returned .ok result ∧
      command = ⟨c.oper, k⟩ := by
  obtain ⟨⟨c, k⟩, hmem, hsome⟩ := List.mem_filterMap.mp h
  dsimp only at hsome
  split at hsome
  · rename_i result hph
    cases hsome
    exact ⟨k, c, result, List.mem_zipIdx_iff_getElem?.mp hmem, hph, rfl⟩
  · cases hsome

/-- A leader that has committed an entry of the latest term and has executed what it has
committed has executed all commands that were answered for. -/
theorem Group.Follows.acknowledged_mem {g : Group n σ Req Res} (h : g.Follows sm state)
    (hinv : g.Inv) {p : Fin n} (hcur : g.cluster.current p = true)
    (hrec : (g.cluster.node p).rf.commitIndex ≤ (g.rsm p).received)
    {command : Command n Req} (hcom : command ∈ g.acknowledged) :
    some command ∈ (g.cluster.delivered p).take (g.rsm p).received := by
  obtain ⟨k, c, result, hc, hph, rfl⟩ := Group.mem_acknowledged hcom
  have hmem := h.mem_delivered hinv hc hph
  have hbui := h.reachable.mono fun t a hok => (Cluster.plainStep_iff.mp hok).1
  have hlen : (g.cluster.delivered c.oper.me).length ≤ (g.rsm p).received :=
    calc (g.cluster.delivered c.oper.me).length
      _ ≤ (g.cluster.node c.oper.me).rf.commitIndex :=
        Cluster.length_delivered_le h.reachable c.oper.me
      _ ≤ (g.cluster.node p).rf.commitIndex := Cluster.commitIndex_le_of_current hbui hcur c.oper.me
      _ ≤ (g.rsm p).received := hrec
  have hpre : g.cluster.delivered c.oper.me <+: g.cluster.delivered p :=
    Cluster.delivered_prefix_of_le h.reachable (hlen.trans (h.nodes p).received)
  exact (List.prefix_take_iff.mpr ⟨hpre, hlen⟩).subset hmem

namespace LeaseRead

variable {r : LeaseRead n sm}

/-- The history up to `j` has all commands that were answered for when the read began. -/
def Covered (r : LeaseRead n sm) (history : List (Option (Command n Req))) (j : Nat) : Prop :=
  ∀ command ∈ r.acknowledged, some command ∈ history.take j

def Answered (state : Fin n → σ) (r : LeaseRead n sm) (history : List (Option (Command n Req)))
    (value : Res) : Prop :=
  ∃ j here after, j ≤ history.length ∧ sm.replay (state r.node) (history.take j) = some here ∧
    sm.doOp here r.get.1 = some (after, value) ∧ r.Covered history j

structure Fresh (state : Fin n → σ) (g : Group n σ Req Res) (r : LeaseRead n sm) : Prop where
  pending : r.stage = .led ∨ r.stage = .leased →
    r.Covered (g.cluster.delivered r.node) (g.rsm r.node).received
  answered : ∀ value, r.stage = .answered value →
    r.Answered state (g.cluster.delivered r.node) value

theorem Covered.mono {history history' : List (Option (Command n Req))} {j j' : Nat}
    (h : r.Covered history j) (hgrow : history <+: history') (hj : j ≤ j') :
    r.Covered history' j' := by
  intro command hcom
  have hpre : history.take j <+: history'.take j' := by
    rw [List.prefix_take_iff]
    exact ⟨(List.take_prefix j history).trans hgrow, (List.length_take_le j history).trans hj⟩
  exact hpre.subset (h command hcom)

theorem Answered.mono {history history' : List (Option (Command n Req))} {value : Res}
    (h : r.Answered state history value) (hgrow : history <+: history') :
    r.Answered state history' value := by
  obtain ⟨j, here, after, hj, hrep, hval, hcov⟩ := h
  refine ⟨j, here, after, hj.trans hgrow.length_le, ?_, hval, hcov.mono hgrow le_rfl⟩
  rw [take_eq_of_isPrefix hgrow hj, hrep]

theorem Fresh.grow {g g' : Group n σ Req Res} (h : r.Fresh state g) (hgrow : g.Grows g') :
    r.Fresh state g' where
  pending hstg := (h.pending hstg).mono (hgrow.delivered r.node) (hgrow.received r.node)
  answered value hval := (h.answered value hval).mono (hgrow.delivered r.node)

end LeaseRead

namespace LeaseGroup

variable {s s' : LeaseGroup n sm}

def plain (s : LeaseGroup n sm) : Action n sm → Bool
  | .group a _ => s.group.plain a
  | _ => true

/-- Moreover, a read begins only at a leader that has committed an entry of the latest term
that any node has reached, and whose state machine has received what the node has committed. -/
def upToDate (s : LeaseGroup n sm) : Action n sm → Bool
  | .checkLeader p _ => s.group.cluster.current p &&
      decide ((s.group.cluster.node p).rf.commitIndex ≤ (s.group.rsm p).received)
  | a => s.plain a

structure Inv (state : Fin n → σ) (s : LeaseGroup n sm) : Prop where
  follows : s.group.Follows sm state
  inv : s.group.Inv
  reads : ∀ r ∈ s.reads, r.Fresh state s.group

theorem inv_boot : (boot state : LeaseGroup n sm).Inv state where
  follows := Group.follows_boot
  inv := Group.inv_boot state
  reads := by rintro r ⟨⟩

section

variable (h : s.Inv state)

include h

theorem Inv.group {a : Group.Action n σ Req} (hok : s.group.plain a = true)
    {group : Group n σ Req Res} (hstep : s.group.step sm codec a = some group)
    (leaseUntil : Fin n → Nat) : { s with group := group, leaseUntil := leaseUntil }.Inv state := by
  obtain ⟨hfol, hgrow⟩ := h.follows.step hok hstep
  exact ⟨hfol, h.inv.step (h.follows.freshId a) hstep, fun r hr => (h.reads r hr).grow hgrow⟩

theorem Inv.groupStep {a : Group.Action n σ Req} {majority : Bool}
    (hok : s.group.plain a = true) (hstep : s.groupStep codec leaseDur a majority = some s') :
    s'.Inv state := by
  unfold LeaseGroup.groupStep at hstep
  split at hstep
  · cases hstep
  · cases hok
  · obtain ⟨group, hgrp, rfl⟩ := Option.map_eq_some_iff.mp hstep
    exact h.group hok hgrp _
  · obtain ⟨group, hgrp, rfl⟩ := Option.map_eq_some_iff.mp hstep
    exact h.group hok hgrp _

theorem Inv.checkLeader {p : Fin n} {get : sm.Get}
    (hok : s.upToDate (.checkLeader p get) = true) (hstep : s.checkLeader p get = some s') :
    s'.Inv state := by
  simp only [upToDate, Bool.and_eq_true, decide_eq_true_eq] at hok
  unfold LeaseGroup.checkLeader at hstep
  split_ifs at hstep
  cases hstep
  refine { h with reads := ?_ }
  intro r hr
  rcases List.mem_append.mp hr with hold | hnew
  · exact h.reads r hold
  · rw [List.mem_singleton] at hnew
    subst hnew
    refine ⟨fun _ command hcom => ?_, by rintro value ⟨⟩⟩
    exact h.follows.acknowledged_mem h.inv hok.1 hok.2 hcom

theorem Inv.setRead {i : Nat} {r : LeaseRead n sm}
    (hr : r.Fresh state s.group) : { s with reads := s.reads.set i r }.Inv state := by
  refine { h with reads := ?_ }
  intro x hx
  rcases List.mem_or_eq_of_mem_set hx with hold | rfl
  · exact h.reads x hold
  · exact hr

theorem Inv.checkLease {i : Nat} (hstep : s.checkLease i = some s') :
    s'.Inv state := by
  obtain ⟨r, hr, hstep⟩ := Option.bind_eq_some_iff.mp hstep
  split at hstep
  · rename_i hstg
    split at hstep <;> cases hstep
    have hfr := h.reads r (List.mem_of_getElem? hr)
    exact h.setRead ⟨fun _ => hfr.pending (Or.inl hstg), by rintro value ⟨⟩⟩
  · cases hstep

end

theorem localRead_get {g g' : Group n σ Req Res} {p : Fin n} {get : sm.Get}
    (hstep : g.localRead sm p get.1 = some g') : g' = g := by
  unfold Group.localRead at hstep
  dsimp only at hstep
  split_ifs at hstep
  obtain ⟨⟨after, value⟩, hval, rfl⟩ := Option.map_eq_some_iff.mp hstep
  have hsame : after = (g.rsm p).sm := get.2 _ _ hval
  subst hsame
  change { g with rsm := update g.rsm p (g.rsm p) } = g
  rw [update_eq_self]

theorem Inv.read (h : s.Inv state) {i : Nat} (hstep : s.read i = some s') : s'.Inv state := by
  obtain ⟨r, hr, hstep⟩ := Option.bind_eq_some_iff.mp hstep
  split at hstep
  · rename_i hstg
    obtain ⟨⟨after, value⟩, hval, hstep⟩ := Option.bind_eq_some_iff.mp hstep
    obtain ⟨group, hread, rfl⟩ := Option.map_eq_some_iff.mp hstep
    have hsame := localRead_get hread
    subst hsame
    have hfr := h.reads r (List.mem_of_getElem? hr)
    have hnode := h.follows.nodes r.node
    refine h.setRead ⟨by rintro (⟨⟨⟩⟩ | ⟨⟨⟩⟩), ?_⟩
    rintro _ ⟨⟩
    exact ⟨_, _, after, hnode.received, hnode.replay, hval, hfr.pending (Or.inr hstg)⟩
  · cases hstep

section

variable (hs : (system sm codec leaseDur state).Reachable (fun s a => s.upToDate a = true) s)

include hs

theorem inv_of_reachable : s.Inv state := by
  apply hs.invariant
  · rintro _ rfl
    exact inv_boot
  · intro t a u h hok hstep
    cases a with
    | group a majority => exact h.groupStep hok hstep
    | tick =>
      cases hstep
      exact { h with }
    | checkLeader p get => exact h.checkLeader hok hstep
    | checkLease i => exact h.checkLease hstep
    | read i => exact h.read hstep

/-- In every run without restarts and snapshots in which only leaders build requests, and
reads begin only at leaders that are up to date: there is one history of which every node
is delivered a part, and a read under a lease returns the value of `Get` after a part of it
that has all commands that were answered for when the read began. -/
theorem lease_read_sees_acknowledged :
    ∃ history : List (Option (Command n Req)), (∀ p, s.group.cluster.delivered p <+: history) ∧
      (∀ entry ∈ history, ∃ p, entry ∈ s.group.cluster.delivered p) ∧
      (∀ e ∈ s.group.executed, e.Recorded sm (state e.node) history) ∧
      ∀ r ∈ s.reads, ∀ value, r.stage = .answered value →
        ∃ j here after, sm.replay (state r.node) (history.take j) = some here ∧
          sm.doOp here r.get.1 = some (after, value) ∧
          ∀ command ∈ r.acknowledged, some command ∈ history.take j := by
  have h := inv_of_reachable hs
  obtain ⟨history, hhis, honly⟩ := Cluster.exists_history h.follows.reachable
  refine ⟨history, hhis, honly, ?_, ?_⟩
  · intro e he
    exact (h.follows.executed e he).mono (hhis e.node)
  · intro r hr value hval
    obtain ⟨j, here, after, _, hrep, hout, hcov⟩ :=
      ((h.reads r hr).answered value hval).mono (hhis r.node)
    exact ⟨j, here, after, hrep, hout, hcov⟩

end

def registerGet : register.Get := ⟨none, by rintro state _ ⟨⟩; rfl⟩

theorem lease_read_sees_acknowledged_seven :
    ∃ (s : LeaseGroup 3 register) (r : LeaseRead 3 register)
      (history : List (Option (Command 3 (Option Nat)))),
      r ∈ s.reads ∧ r.acknowledged = [⟨⟨0, 1, some 7⟩, 0⟩] ∧ r.stage = .answered 7 ∧
      ∃ j here after, register.replay 0 (history.take j) = some here ∧
        register.doOp here r.get.1 = some (after, 7) ∧
        ∀ command ∈ r.acknowledged, some command ∈ history.take j := by
  obtain ⟨s, hs, hread⟩ := System.exists_of_execOk
    (@system 3 _ _ _ register .unary (fun _ => 1) fun _ => 0)
    (fun s a => s.upToDate a = true) (boot fun _ => 0)
    ((Group.answerSeven 0 1).map (Action.group · true) ++
      [.checkLeader 0 registerGet, .checkLease 0, .read 0])
    (fun s => (s.reads[0]?).map (fun r => (r.acknowledged, r.stage)) =
      some ([⟨⟨0, 1, some 7⟩, 0⟩], .answered 7))
    (by decide +kernel)
  obtain ⟨r, hr, heq⟩ := Option.map_eq_some_iff.mp hread
  obtain ⟨hack, hstg⟩ := Prod.mk.inj heq
  have hmem := List.mem_of_getElem? hr
  obtain ⟨history, _, _, _, hreads⟩ := lease_read_sees_acknowledged ⟨_, rfl, hs⟩
  exact ⟨s, r, history, hmem, hack, hstg, hreads r hmem 7 hstg⟩

def holdsLease (s : LeaseGroup n sm) (p : Fin n) : Bool :=
  (s.group.cluster.node p).rf.state == .leader && decide (s.now < s.leaseUntil p)

def oneLease (s : LeaseGroup n sm) : Bool :=
  decide (∀ p q, s.holdsLease p = true → s.holdsLease q = true → p = q)

theorem new_leader_reads_old_value :
    ∃ s : LeaseGroup 3 register, (system register .unary (fun _ => 1) fun _ => 0).Reachable
        (fun s a => s.oneLease = true ∧ s.plain a = true) s ∧
      s.oneLease = true ∧
      s.group.submits.map SubmitCall.phase = [.returned .ok (some 7)] ∧
      s.group.executed = [⟨0, 1, ⟨⟨0, 1, some 7⟩, 0⟩, 7⟩] ∧
      s.reads.map LeaseRead.acknowledged = [[⟨⟨0, 1, some 7⟩, 0⟩]] ∧
      s.reads.map (fun r => (r.node, r.stage)) = [(1, .answered 0)] :=
  System.exists_reachable_of_execOk (boot fun _ => 0)
    ((Group.answerSeven 0 1).map (Action.group · true) ++ [.tick] ++ List.map (Action.group · true)
      [.raft (.run 1 .tick), .raft (.run 1 .startElection), .raft (.serve 3),
        .raft (.run 2 .hardStateDone), .raft (.serve 3), .raft (.resume 3)] ++
      [.checkLeader 1 registerGet, .checkLease 0, .read 0]) rfl (by decide +kernel)

end LeaseGroup

end OrbisKV.KV
