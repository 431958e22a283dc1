import Mathlib.Data.List.Permutation
import OrbisKV.KV.Coherence
/-!
# Serializability

Transactions are ordered by the moments at which their COMMITTED decisions are recorded.
-/

namespace OrbisKV.KV

open Std Deployment KVServer List Option

namespace History

section

variable {hash : String → UInt64} {router : ShardRouter} {s t : History} {m₀ m : Entries}
  {txID : String} {session : Session}
  {gid : Int} {kv : KVServer} {sent : List Message} {answers : DecisionAnswers}
  {clock : Clock} {reply : Reply} {x key : String} {d : Deployment} {now : Int64}

theorem later_setGroup {new : PreparedTxRecord → Prop}
    (hd : t.deployment = s.deployment.setGroup gid kv sent)
    (hkept : ∀ txID raw, (s.deployment.groups gid).store.getTxRecord (txDecisionPrefix ++ txID) =
      some raw → kv.store.getTxRecord (txDecisionPrefix ++ txID) = some raw)
    (hturns : KVServer.Turns new (s.deployment.groups gid) kv) : Later s t := by
  refine ⟨by rw [hd]; exact grows_setGroup hkept, ?_, ?_⟩
  · rintro x ⟨session, hses, hwin⟩
    exact ⟨session, by rw [hd]; exact hses, hwin⟩
  · intro g x hrea
    rw [Reached, hd, setGroup_groups]
    split
    · rename_i hg
      subst hg
      rcases hrea with hpre | hfini
      · exact hturns.kept x hpre
      · exact .inr (hturns.finished x hfini)
    · exact hrea

theorem Coherent.setGroup {new : PreparedTxRecord → Prop} (hc : s.Coherent hash router)
    (hd : t.deployment = s.deployment.setGroup gid kv sent) (hbegun : t.begun = s.begun)
    (hops : t.ops = s.ops) (hseen : t.seen = s.seen) (horder : s.order ⊆ t.order)
    (hsound : t.deployment.Sound hash) (hl : Later s t)
    (hturns : KVServer.Turns new (s.deployment.groups gid) kv)
    (hnew : ∀ rec, new rec → ∃ session, s.Fixed rec.txID session ∧
      gid ∈ session.handle.allGroups (router.resolve hash) ∧
      rec.writeKeys = session.handle.groupWriteKeys (router.resolve hash) gid)
    (hsent : ∀ msg ∈ sent, t.Sent hash router msg) : t.Coherent hash router := by
  have hsess : t.deployment.sessions = s.deployment.sessions := by rw [hd]; rfl
  have hnet : s.deployment.network ⊆ t.deployment.network := by
    rw [hd]
    exact subset_append_right _ _
  refine ⟨hsound, ?_, by rw [hbegun]; exact hc.nodup, ?_, ?_, ?_, ?_⟩
  · intro x session hses
    rw [hsess] at hses
    exact (hc.clients x session hses).frame hnet (by rw [hsess]) (by rw [hops])
      (by rw [hseen]) horder
  · rw [hbegun, hsess]
    exact hc.begun
  · rw [hsess, hops, hseen]
    exact hc.idle
  · intro msg hmsg
    rw [hd] at hmsg
    rcases mem_append.mp hmsg with hmsg | hmsg
    · exact hsent msg hmsg
    · exact (hc.messages msg hmsg).mono hl
  · intro g x rec hcac
    have hrecord : ∃ session, s.Fixed x session ∧
        g ∈ session.handle.allGroups (router.resolve hash) ∧
        rec.writeKeys = session.handle.groupWriteKeys (router.resolve hash) g := by
      rw [hd, setGroup_groups] at hcac
      split at hcac
      · rename_i hg
        subst hg
        rcases hturns.fresh x rec hcac with hold | ⟨rfl, hrec⟩
        · exact hc.records g x rec hold
        · exact hnew rec hrec
      · exact hc.records g x rec hcac
    obtain ⟨session, hfixed, hrest⟩ := hrecord
    exact ⟨session, ⟨by rw [hsess]; exact hfixed.1, hfixed.2⟩, hrest⟩

section

variable (ho : s.Ordered hash router m₀ m)

include ho

theorem Ordered.setGroup
    (hd : t.deployment = s.deployment.setGroup gid kv sent) (hops : t.ops = s.ops)
    (hseen : t.seen = s.seen) (horder : t.order = s.order) (hl : Later s t)
    (hstep : KVServer.InStep (router.resolve hash) m s.order s.seen gid kv)
    (hdecis : ∀ txID, kv.store.getTxRecord (txDecisionPrefix ++ txID) =
      (s.deployment.groups gid).store.getTxRecord (txDecisionPrefix ++ txID)) :
    t.Ordered hash router m₀ m := by
  refine ⟨?_, ?_, by rw [horder]; exact ho.nodup, ?_, by rw [horder, hops]; exact ho.serial,
    ho.outside⟩
  · intro g
    rw [hd, horder, hseen, setGroup_groups]
    split
    · rename_i hg
      rw [hg]
      exact hstep
    · exact ho.groups g
  · intro g x hdeci
    rw [horder]
    refine ho.decided g x ?_
    rw [hd, decisionAt, setGroup_groups] at hdeci
    split at hdeci
    · rename_i hg
      rw [hdecis, ← hg] at hdeci
      exact hdeci
    · exact hdeci
  · intro x hx
    rw [horder] at hx
    exact ho.order_mono hl hx

theorem Ordered.not_mem_of_aborted (hc : s.Coherent hash router)
    (hd : s.deployment.Decided hash txID .aborted) : txID ∉ s.order := by
  intro hx
  rcases (ho.order txID hx).2 with hcom | ⟨session, hses, hnil⟩
  · cases hcom.unique hd
  · obtain ⟨gid, ⟨session', hses', -, hco⟩, -⟩ := hd
    cases hses.symm.trans hses'
    rw [coordinator, (hc.clients txID session hses).fixed, hnil] at hco
    cases hco

theorem Ordered.mem_of_committed
    (hd : s.deployment.Decided hash txID .committed) : txID ∈ s.order := by
  obtain ⟨gid, -, hat⟩ := hd
  exact ho.decided gid txID hat

theorem Ordered.answered (hc : s.Coherent hash router)
    (hbacks : s.deployment.backs answers = true) (gid : Int) :
    KVServer.InStep.Answered s.order (answers.net false) (s.deployment.groups gid) := by
  intro x rec hcac
  obtain ⟨rfl, hplan⟩ := (hc.sound.records gid).cached x rec hcac
  have hans := hc.sound.answers false hbacks (s.deployment.groups gid) rfl rec hplan
  exact ⟨fun hq => ho.mem_of_committed (hans.1 hq).1,
    fun hq => ho.not_mem_of_aborted hc (hans.2 hq)⟩

end

theorem Coherent.fits (hc : s.Coherent hash router) {args : PrepareTxArgs}
    (hcall : .call gid (.prepareTx args) ∈ s.deployment.network) :
    KVServer.InStep.Fits (router.resolve hash) s.seen gid args := by
  obtain ⟨session, ⟨hses, -⟩, -, hargs⟩ := hc.messages _ hcall
  have hcli := hc.clients args.txID session hses
  have hpro := hc.sound.clients args.txID session hses
  have hwri : args.writeKeys =
      session.handle.groupWriteKeys (router.resolve hash) gid := by rw [hargs]; rfl
  have hreads : args.readKeys = (session.handle.groupReadKeys (router.resolve hash) gid).map
        fun rk => ⟨rk.key, "", rk.expectedVersion⟩ := by rw [hargs]; rfl
  refine ⟨?_, ?_, ?_⟩
  · intro wk hwk
    rw [hwri] at hwk
    obtain ⟨hin, -, hgid⟩ := TxHandle.mem_groupWriteKeys.mp hwk
    exact ⟨hpro.user wk hin, hgid⟩
  · intro item hitem
    exact ⟨(hcli.traced.resolved item hitem).1, hcli.traced.answered item hitem⟩
  · intro item hitem hgid hok
    obtain ⟨rk, hrk, hver⟩ := hcli.traced.recorded item hitem hok
    have hkey := hcli.traced.reads item.1 rk hrk
    rw [hreads]
    refine ⟨_, mem_map_of_mem ?_, hkey, hver⟩
    rw [TxHandle.groupReadKeys, mem_filter]
    refine ⟨TxHandle.mem_reads.mpr ⟨item.1, hrk⟩, ?_⟩
    rw [hkey, decide_eq_true_eq]
    exact ⟨(hcli.traced.resolved item hitem).2, hgid⟩

theorem Coherent.prepared_of_winning (hc : s.Coherent hash router)
    (hses : s.deployment.sessions txID = some session) (hwin : session.phase.isWinning = true)
    (hgid : gid ∈ session.handle.allGroups (router.resolve hash))
    (hopen : (s.deployment.groups gid).store.finished txID = false) :
    ∃ rec, (s.deployment.groups gid).txMgr.preparedTxs[txID]? = some rec ∧
      rec.writeKeys = session.handle.groupWriteKeys (router.resolve hash) gid := by
  rcases hc.reached hses hwin hgid with hpre | hfini
  · obtain ⟨rec, hcac⟩ := isSome_iff_exists.mp hpre
    obtain ⟨session', hfixed, -, hkeys⟩ := hc.records gid txID rec hcac
    cases hses.symm.trans hfixed.1
    exact ⟨rec, hcac, hkeys⟩
  · rw [hopen] at hfini
    cases hfini

theorem Ordered.not_mem_of_undecided (ho : s.Ordered hash router m₀ m)
    (hc : s.Coherent hash router) (hco : s.deployment.Coordinates hash txID gid)
    (hnone : s.deployment.decisionAt gid txID = none) : txID ∉ s.order := by
  intro hx
  rcases (ho.order txID hx).2 with hdecid | ⟨session, hses, hnil⟩
  · exact hco.undecided hnone _ hdecid
  · obtain ⟨session', hses', -, hhead⟩ := hco
    cases hses.symm.trans hses'
    rw [coordinator, (hc.clients txID session hses).fixed, hnil] at hhead
    cases hhead

theorem Coherent.prepared_of_undecided (hc : s.Coherent hash router)
    (hco : s.deployment.Coordinates hash txID gid) (hnone : s.deployment.decisionAt gid txID = none)
    (hses : s.deployment.sessions txID = some session) (hwin : session.phase.isWinning = true)
    {g : Int} (hg : g ∈ session.handle.allGroups (router.resolve hash)) :
    (s.deployment.groups g).txMgr.preparedTxs[txID]?.isSome = true := by
  have hopen : (s.deployment.groups g).store.finished txID = false := by
    by_contra hfin
    rw [Bool.not_eq_false, finished_iff_hasRecord] at hfin
    rcases hfin with hmark | hmark
    · exact hco.undecided hnone _ (hc.sound.commits g txID hmark)
    · exact hco.undecided hnone _ (hc.sound.aborts g txID hmark)
  obtain ⟨rec, hcac, -⟩ := hc.prepared_of_winning hses hwin hg hopen
  rw [hcac]
  rfl

theorem decision_of_recordDecision {args : RecordTxDecisionArgs} {d : TxStatus}
    (h : ((kv.recordDecision args).1.store.getTxRecord (txDecisionPrefix ++ x)).bind
      (fun raw => raw.toDecision?.map (·.decision)) = some d) :
    (kv.store.getTxRecord (txDecisionPrefix ++ x)).bind
        (fun raw => raw.toDecision?.map (·.decision)) = some d ∨
      x = args.txID ∧ d = args.decision := by
  rcases recordDecision_cases kv args with heq | ⟨-, heq⟩ <;> rw [heq] at h
  · exact .inl h
  · rw [Store.getTxRecord_putTxRecord] at h
    split at h
    · rename_i heq
      refine .inr ⟨by simpa using heq.symm, ?_⟩
      simpa [Document.toDecision?] using h.symm
    · exact .inl h

theorem unsettled {a : Deployment.Action} (h : s.settled d a = []) :
    { s with deployment := d, order := s.order ++ s.settled d a } =
      ({ s with deployment := d } : History) := by
  rw [h, append_nil]

theorem of_consult {asks : Bool} {resp : Option GetReply}
    (hresp : s.consult hash router asks key now = some resp) :
    resp.isSome = asks ∧ ∀ r, resp = some r → 0 ≤ router.resolve hash key ∧
      (r.err = .ok ∨ r.err = .noKey) := by
  unfold consult at hresp
  split at hresp
  · rename_i hasks
    obtain ⟨r, hr, rfl⟩ := map_eq_some_iff.mp hresp
    refine ⟨hasks.symm, ?_⟩
    rintro r' hr'
    cases hr'
    unfold answer at hr
    dsimp only at hr
    split_ifs at hr with hgrp herr
    cases hr
    exact ⟨hgrp, herr⟩
  · rename_i hasks
    cases hresp
    exact ⟨by simpa using hasks, nofun⟩

section

variable (hc : s.Coherent hash router) (ho : s.Ordered hash router m₀ m)

include hc ho

theorem inv_prepare {args : PrepareTxArgs}
    (hcall : .call gid (.prepareTx args) ∈ s.deployment.network)
    (hbacks : s.deployment.backs answers = true)
    (hord : (s.deployment.groups gid).orderly (.prepareTx args) = true)
    (hcalm : KVServer.InStep.Undisturbed (router.resolve hash) s.order s.seen gid
      (s.deployment.groups gid) args)
    (hop : (s.deployment.groups gid).doOp hash (answers.net false) clock (.prepareTx args) =
      some (kv, reply)) (ht : t = { s with
      deployment := s.deployment.setGroup gid kv [.reply gid (.prepareTx args) reply] })
    (hsound : t.deployment.Sound hash) :
    t.Inv hash router m₀ := by
  obtain ⟨e, hprep, rfl⟩ := of_doOp_prepareTx hop
  have hsent := hc.messages _ hcall
  obtain ⟨session, hfixed, hgid, hargs⟩ := hsent
  have hkeys : args.writeKeys =
      session.handle.groupWriteKeys (router.resolve hash) gid := by rw [hargs]; rfl
  have hend := ended_prepare (E := fun _ => True) (fun _ hr => hr.1)
    (hc.sound.records gid) (fun _ _ => ⟨fun _ => trivial, fun _ => trivial⟩)
    (hc.sound.messages _ hcall) hprep
  have hsame : ∀ old, (s.deployment.groups gid).txMgr.preparedTxs[args.txID]? = some old →
      old.writeKeys = args.writeKeys := by
    intro old hcac
    obtain ⟨session', hfixed', -, hkeys'⟩ := hc.records gid args.txID old hcac
    cases hfixed.1.symm.trans hfixed'.1
    rw [hkeys', hkeys]
  have hagain : args.txID ∈ s.order → ∀ wk ∈ args.writeKeys, m wk.key = wk.left := by
    intro hx wk hwk
    obtain ⟨⟨session', hses', hwin⟩, -⟩ := ho.order args.txID hx
    cases hfixed.1.symm.trans hses'
    have hopen : (s.deployment.groups gid).store.finished args.txID = false := by
      rw [orderly, Bool.and_eq_true, Bool.and_eq_true, Bool.not_eq_true'] at hord
      exact hord.1.2
    obtain ⟨rec, hcac, hrec⟩ := hc.prepared_of_winning hfixed.1 hwin hgid hopen
    refine (ho.groups gid).pending args.txID hx rec hcac wk ?_
    rwa [hrec, ← hkeys]
  obtain ⟨hstep, hturns, hok⟩ := (ho.groups gid).prepare (ho.answered hc hbacks gid) hord
    (hc.fits hcall) hcalm hsame hagain hprep
  have hl : Later s t := by
    refine later_setGroup (by rw [ht]) (fun x raw hraw => ?_) hturns
    rw [hend.decisions]
    exact hraw
  subst ht
  refine ⟨hc.setGroup rfl rfl rfl rfl (List.Subset.refl _) hsound hl hturns ?_ ?_,
    m, ho.setGroup rfl rfl rfl rfl hl hstep hend.decisions⟩
  · rintro rec rfl
    exact ⟨session, hfixed, hgid, hkeys⟩
  · intro msg hmsg
    rw [mem_singleton] at hmsg
    subst hmsg
    cases e with
    | ok =>
      refine ⟨⟨session, hfixed⟩, .inl ?_⟩
      rw [setGroup_groups, if_pos rfl]
      exact hok rfl
    | _ => trivial

theorem inv_thins {req : Request} {P : PreparedTxRecord → Prop} {E : Outcome → Prop}
    (hstep : KVServer.InStep (router.resolve hash) m s.order s.seen gid kv)
    (hthins : KVServer.Thins (s.deployment.groups gid) kv)
    (hend : KVServer.Ended P E (s.deployment.groups gid) kv)
    (ht : t = { s with deployment := s.deployment.setGroup gid kv [.reply gid req reply] })
    (hsound : t.deployment.Sound hash) (hsent : t.Sent hash router (.reply gid req reply)) :
    t.Inv hash router m₀ := by
  have hturns := hthins.turns fun _ => False
  have hl : Later s t := by
    refine later_setGroup (by rw [ht]) (fun x raw hraw => ?_) hturns
    rw [hend.decisions]
    exact hraw
  subst ht
  refine ⟨hc.setGroup rfl rfl rfl rfl (List.Subset.refl _) hsound hl hturns ?_ ?_,
    m, ho.setGroup rfl rfl rfl rfl hl hstep hend.decisions⟩
  · intro rec hrec
    exact hrec.elim
  · intro msg hmsg
    rw [mem_singleton] at hmsg
    rw [hmsg]
    exact hsent

theorem inv_commitTx {args : CommitTxArgs} {net : Net}
    (hcall : .call gid (.commitTx args) ∈ s.deployment.network)
    (hord : (s.deployment.groups gid).orderly (.commitTx args) = true)
    (hop : (s.deployment.groups gid).doOp hash net clock (.commitTx args) = some (kv, reply))
    (ht : t = { s with
      deployment := s.deployment.setGroup gid kv [.reply gid (.commitTx args) reply] })
    (hsound : t.deployment.Sound hash) :
    t.Inv hash router m₀ := by
  obtain ⟨e, hcomm, rfl⟩ := of_doOp_commitTx hop
  obtain ⟨hstep, hthins⟩ := (ho.groups gid).commit hord
    (ho.mem_of_committed (hc.sound.messages _ hcall)) hcomm
  have hend := ended_commit (E := fun _ => True) (fun _ hr => hr.1)
    (hc.sound.records gid) (fun _ _ _ => trivial) hcomm
  exact inv_thins hc ho hstep hthins hend ht hsound trivial

theorem inv_abortTx {net : Net}
    (hcall : .call gid (.abortTx txID) ∈ s.deployment.network)
    (hop : (s.deployment.groups gid).doOp hash net clock (.abortTx txID) = some (kv, reply))
    (ht : t = { s with
      deployment := s.deployment.setGroup gid kv [.reply gid (.abortTx txID) reply] })
    (hsound : t.deployment.Sound hash) :
    t.Inv hash router m₀ := by
  obtain ⟨e, hab, rfl⟩ := of_doOp_abortTx hop
  obtain ⟨hstep, hthins⟩ := (ho.groups gid).abort
    (ho.not_mem_of_aborted hc (hc.sound.messages _ hcall)) hab
  have hend := ended_abort (E := fun _ => True) (hc.sound.records gid) trivial hab
  exact inv_thins hc ho hstep hthins hend ht hsound trivial

theorem inv_record {args : RecordTxDecisionArgs}
    (hcall : .call gid (.recordTxDecision args) ∈ s.deployment.network)
    (hop : (s.deployment.groups gid).doOp hash (answers.net false) clock
      (.recordTxDecision args) = some (kv, reply))
    (hd : d = s.deployment.setGroup gid kv [.reply gid (.recordTxDecision args) reply])
    (ht : t = { s with
      deployment := d
      order := s.order ++ s.settled d (.deliver gid (.recordTxDecision args) answers clock) })
    (hsound : d.Sound hash) : t.Inv hash router m₀ := by
  obtain ⟨rfl, rfl⟩ := of_doOp_recordTxDecision hop
  have hco : s.deployment.Coordinates hash args.txID gid := hc.sound.messages _ hcall
  have hturns := ((ho.groups gid).recordDecision args).2.turns fun _ => False
  have hl : Later s t :=
    later_setGroup (by rw [ht, hd]) (hc.sound.advances_recordDecision hco).kept hturns
  have hcoh : t.Coherent hash router := by
    refine hc.setGroup (by rw [ht, hd]) (by rw [ht]) (by rw [ht]) (by rw [ht]) ?_ ?_ hl hturns ?_ ?_
    · rw [ht]
      exact subset_append_left _ _
    · rw [ht]
      exact hsound
    · intro rec hrec
      exact hrec.elim
    · intro msg hmsg
      rw [mem_singleton] at hmsg
      subst hmsg
      trivial
  have hgroups : ∀ g, t.deployment.groups g = if g = gid then
      ((s.deployment.groups gid).recordDecision args).1 else s.deployment.groups g := by
    intro g
    rw [ht, hd]
    rfl
  -- decisions of `t` that are not those of `s`
  have hback : ∀ g x dec, t.deployment.decisionAt g x = some dec →
      s.deployment.decisionAt g x = some dec ∨ g = gid ∧ x = args.txID ∧ dec = args.decision := by
    intro g x dec hat
    rw [decisionAt, hgroups] at hat
    split at hat
    · rename_i hg
      subst hg
      rcases decision_of_recordDecision hat with hold | hnew
      · exact .inl hold
      · exact .inr ⟨rfl, hnew⟩
    · exact .inl hat
  have htd : t.deployment = d := by rw [ht]
  refine ⟨hcoh, ?_⟩
  by_cases hnew : s.deployment.decisionAt gid args.txID = none ∧
      d.decisionAt gid args.txID = some .committed
  · obtain ⟨hnone, hat⟩ := hnew
    have hdeci : args.decision = .committed := by
      rw [← htd] at hat
      rcases hback gid args.txID _ hat with hold | ⟨-, -, hdec⟩
      · rw [hnone] at hold
        cases hold
      · exact hdec.symm
    have hout := ho.not_mem_of_undecided hc hco hnone
    obtain ⟨session, hses, hwin⟩ := hc.messages _ hcall hdeci
    have hcli := hc.clients args.txID session hses
    have habsent := (hcli.started (ne_active_of_winning hwin)).2
    obtain ⟨m', hstep, hser, houts⟩ := ho.settle hc hses hout
      (hcli.acked hses hwin).1 (fun item hitem => hcli.group_of_seen habsent hitem)
      (fun g hg => hc.prepared_of_undecided hco hnone hses hwin hg)
    have horder : t.order = s.order ++ [args.txID] := by
      rw [ht, settled, if_pos ⟨hnone, hat⟩]
    refine ⟨m', ?_, ?_, by rw [horder]; exact ho.nodup_snoc hout, ?_, ?_, houts⟩
    · intro g
      rw [hgroups, horder, show t.seen = s.seen by rw [ht]]
      split
      · rename_i hg
        rw [hg]
        exact ((hstep gid).recordDecision args).1
      · exact hstep g
    · intro g x hx
      rw [horder]
      rcases hback g x _ hx with hold | ⟨-, rfl, -⟩
      · exact mem_append_left _ (ho.decided g x hold)
      · exact mem_append_right _ (mem_singleton_self _)
    · intro x hx
      by_cases hold : x ∈ s.order
      · exact ho.order_mono hl hold
      · obtain rfl : x = args.txID := by simpa [horder, hold] using hx
        refine ⟨hl.winning _ ⟨session, hses, hwin⟩, .inl ⟨gid, hco.mono hl.grows, ?_⟩⟩
        rw [htd]
        exact hat
    · rw [horder, show t.ops = s.ops by rw [ht]]
      exact hser
  · have horder : t.order = s.order := by
      rw [ht, settled, if_neg hnew, append_nil]
    refine ⟨m, ?_, ?_, by rw [horder]; exact ho.nodup, ?_, ?_, ho.outside⟩
    · intro g
      rw [hgroups, horder, show t.seen = s.seen by rw [ht]]
      split
      · rename_i hg
        rw [hg]
        exact ((ho.groups gid).recordDecision args).1
      · exact ho.groups g
    · intro g x hat
      rw [horder]
      rcases hback g x _ hat with hold | ⟨rfl, rfl, -⟩
      · exact ho.decided g x hold
      · cases hold : s.deployment.decisionAt g args.txID with
        | none => exact absurd ⟨hold, htd ▸ hat⟩ hnew
        | some dec =>
          have hkept := hl.grows.decisions g args.txID dec hold
          rw [hat] at hkept
          cases hkept
          exact ho.decided g args.txID hold
    · intro x hx
      rw [horder] at hx
      exact ho.order_mono hl hx
    · rw [horder, show t.ops = s.ops by rw [ht]]
      exact ho.serial

theorem inv_query {dec : String}
    (ht : t = { s with deployment := s.deployment.send [.decision gid x dec] })
    (hsound : t.deployment.Sound hash) :
    t.Inv hash router m₀ := by
  subst ht
  have hl : Later s { s with deployment := s.deployment.send [.decision gid x dec] } :=
    ⟨grows_send _, fun _ hw => hw, fun _ _ hr => hr⟩
  refine ⟨⟨hsound, ?_, hc.nodup, hc.begun, hc.idle, ?_, hc.records⟩,
    m, ho.frame hl rfl rfl (fun _ _ => rfl) fun _ _ _ => rfl⟩
  · intro id session hses
    exact (hc.clients id session hses).frame (subset_append_right _ _) rfl rfl rfl
      (List.Subset.refl _)
  · intro msg hmsg
    rcases mem_append.mp hmsg with hmsg | hmsg
    · rw [mem_singleton] at hmsg
      subst hmsg
      trivial
    · exact (hc.messages msg hmsg).mono hl

theorem inv_protocol {a : Deployment.ClientAction}
    (ha : (∃ gid result, a = .prepared gid result) ∨ a = .decide ∨ ∃ known, a = .decided known)
    (hwaits : ∀ session, s.deployment.sessions txID = some session →
      a = .decided false → session.phase.isCommitting = false)
    (hstep : s.deployment.step hash (.client txID a) = some d)
    (ht : t = { s with deployment := d }) :
    t.Inv hash router m₀ := by
  obtain ⟨session, hses, hcli⟩ := bind_eq_some_iff.mp hstep
  obtain ⟨session', sent, rfl, hturn⟩ := turn hcli
  obtain ⟨phase, rfl, hcont⟩ := continues_turn ha (hwaits session hses) hturn
  have hok : s.deployment.disciplined (.client txID a) ∧
      callsCommit txID (.client txID a) = false := by
    rcases ha with ⟨gid, result, rfl⟩ | rfl | ⟨known, rfl⟩ <;> exact ⟨trivial, rfl⟩
  have hcommi := ((hc.clients txID session hses).started hcont.started).1
  exact inv_continues hc ho hses hcont (hc.sound.step hok.1 hstep) (hcommi.step hok.2 hstep) ht

theorem inv_deliver {req : Request}
    (hok : s.undisturbed hash router (.protocol (.deliver gid req answers clock)))
    (hstep : s.deployment.step hash (.deliver gid req answers clock) = some d) (ht : t = { s with
      deployment := d
      order := s.order ++ s.settled d (.deliver gid req answers clock) }) :
    t.Inv hash router m₀ := by
  have hsound := hc.sound.step (a := .deliver gid req answers clock) trivial hstep
  rw [Deployment.step] at hstep
  split_ifs at hstep with hguard
  obtain ⟨hcall, hbacks⟩ := hguard
  obtain ⟨⟨kv, reply⟩, hop, hd⟩ := map_eq_some_iff.mp hstep
  have hmsg := hc.messages _ hcall
  have hbac := hc.sound.messages _ hcall
  cases req with
  | recordTxDecision args => exact inv_record hc ho hcall hop hd.symm ht hsound
  | prepareTx args =>
    rw [unsettled rfl] at ht
    subst hd
    exact inv_prepare hc ho hcall hbacks hok.1 hok.2 hop ht (by rw [ht]; exact hsound)
  | commitTx args =>
    rw [unsettled rfl] at ht
    subst hd
    exact inv_commitTx hc ho hcall hok hop ht (by rw [ht]; exact hsound)
  | abortTx x =>
    rw [unsettled rfl] at ht
    subst hd
    exact inv_abortTx hc ho hcall hop ht (by rw [ht]; exact hsound)
  | resolveTxStatus x => exact hmsg.elim
  | setShardState _ | get _ | put _ | delete _ | cleanupShard _ | scan _ | expire _ =>
    exact hbac.elim

theorem inv_get (huser : isUserKey key = true)
    (hstep : s.step hash router (.get txID key now) = some t) : t.Inv hash router m₀ := by
  obtain ⟨session, hses, hrest⟩ := bind_eq_some_iff.mp hstep
  obtain ⟨resp, hresp, hrest⟩ := bind_eq_some_iff.mp hrest
  obtain ⟨d, hd, rfl⟩ := map_eq_some_iff.mp hrest
  have hsound := hc.sound.step (a := .client txID (.get key resp)) trivial hd
  rw [Deployment.step, hses, Option.bind_some] at hd
  obtain ⟨session', sent, rfl, hturn⟩ := turn hd
  have hph : session.phase = .active := by
    cases hturn
    assumption
  cases hturn
  obtain ⟨hasks, hkey⟩ := of_consult hresp
  exact inv_edit hc ho hses hph hsound ((hc.clients txID session hses).traced.get hasks
    fun r hr => ⟨⟨huser, (hkey r hr).1⟩, (hkey r hr).2⟩)

theorem inv_put {value : String} {version : Tversion} (huser : isUserKey key = true)
    (hstep : s.step hash router (.put txID key value version) = some t) : t.Inv hash router m₀ := by
  obtain ⟨d, hd, rfl⟩ := map_eq_some_iff.mp hstep
  have hsound := hc.sound.step (a := .client txID (.put key value version)) huser hd
  obtain ⟨session, hses, hd⟩ := bind_eq_some_iff.mp hd
  obtain ⟨session', sent, rfl, hturn⟩ := turn hd
  have hph : session.phase = .active := by
    cases hturn
    assumption
  cases hturn
  have hcli := hc.clients txID session hses
  have htra := hcli.traced.put key value version
  rw [← hcli.fixed] at htra
  refine inv_edit hc ho hses hph hsound ?_
  rw [append_nil, ← hcli.fixed]
  exact htra

theorem inv_delete (huser : isUserKey key = true)
    (hstep : s.step hash router (.delete txID key now) = some t) : t.Inv hash router m₀ := by
  obtain ⟨session, hses, hrest⟩ := bind_eq_some_iff.mp hstep
  obtain ⟨resp, hresp, hrest⟩ := bind_eq_some_iff.mp hrest
  obtain ⟨d, hd, rfl⟩ := map_eq_some_iff.mp hrest
  have hsound := hc.sound.step (a := .client txID (.delete key resp)) huser hd
  rw [Deployment.step, hses, Option.bind_some] at hd
  obtain ⟨session', sent, rfl, hturn⟩ := turn hd
  have hph : session.phase = .active := by
    cases hturn
    assumption
  cases hturn
  obtain ⟨hasks, hkey⟩ := of_consult hresp
  have hcli := hc.clients txID session hses
  have htra := hcli.traced.delete hasks fun r hr => ⟨⟨huser, (hkey r hr).1⟩, (hkey r hr).2⟩
  refine inv_edit hc ho hses hph hsound ?_
  rw [hcli.fixed]
  exact htra

theorem inv_step {e : Event} (hok : s.undisturbed hash router e)
    (hstep : s.step hash router e = some t) : t.Inv hash router m₀ := by
  cases e with
  | begin txID =>
    obtain ⟨d, hd, rfl⟩ := map_eq_some_iff.mp hstep
    exact inv_begin hc ho hd
  | get txID key now => exact inv_get hc ho hok hstep
  | put txID key value version => exact inv_put hc ho hok hstep
  | delete txID key now => exact inv_delete hc ho hok hstep
  | protocol action =>
    rw [step] at hstep
    split_ifs at hstep with hcomm
    obtain ⟨d, hd, rfl⟩ := map_eq_some_iff.mp hstep
    cases action with
    | client txID action =>
      cases action with
      | commit => exact inv_commit hc ho hok hd rfl
      | prepared gid result =>
        exact inv_protocol hc ho (.inl ⟨_, _, rfl⟩) nofun hd
          (unsettled (a := .client txID (.prepared gid result)) rfl)
      | decide =>
        exact inv_protocol hc ho (.inr (.inl rfl)) nofun hd
          (unsettled (a := .client txID .decide) rfl)
      | decided known =>
        have hwaits : ∀ session, s.deployment.sessions txID = some session →
            Deployment.ClientAction.decided known = .decided false →
            session.phase.isCommitting = false := by
          rintro session hses ⟨⟩
          rw [undisturbed, hses, all_some, Bool.not_eq_true'] at hok
          exact hok
        exact inv_protocol hc ho (.inr (.inr ⟨_, rfl⟩)) hwaits hd
          (unsettled (a := .client txID (.decided known)) rfl)
      | _ => cases hcomm
    | deliver gid req answers clock => exact inv_deliver hc ho hok hd rfl
    | query gid x =>
      have hsound := hc.sound.step (a := .query gid x) trivial hd
      obtain ⟨dec, -, rfl⟩ := map_eq_some_iff.mp hd
      exact inv_query hc ho (unsettled (a := .query gid x) rfl) hsound
    | _ => cases hcomm

end

theorem inv_init (hinit : (system hash router).init s)
    (hpl : ∀ gid key, isUserKey key = true → (s.deployment.groups gid).Plain key) :
    s.Inv hash router (s.entries hash router) := by
  obtain ⟨hd, hbegun, hlogs, horder⟩ := hinit
  have hsound := sound_init hd
  obtain ⟨hnetw, hsess, hgroups⟩ := hd
  have hnone : ∀ gid (x : String), (s.deployment.groups gid).txMgr.preparedTxs[x]? = none := by
    intro gid x
    rw [(hgroups gid).2.1]
    exact ExtTreeMap.getElem?_empty
  refine ⟨⟨hsound, ?_, by rw [hbegun]; exact nodup_nil, ?_, fun x _ => hlogs x, ?_, ?_⟩,
    s.entries hash router,
    ?_, ?_, by rw [horder]; exact nodup_nil, ?_, by rw [horder]; rfl, ?_⟩
  · intro x session hses
    rw [hsess] at hses
    cases hses
  · intro x
    simp [hbegun, hsess]
  · intro msg hmsg
    rw [hnetw] at hmsg
    cases hmsg
  · intro gid x rec hcac
    rw [hnone] at hcac
    cases hcac
  · intro gid
    refine ⟨?_, hpl gid, ?_, ?_, ?_, ?_⟩
    · exact tidy_of_init ⟨(hgroups gid).2.1, (hgroups gid).2.2⟩
    · intro x hx
      rw [horder] at hx
      cases hx
    · rintro key huser rfl -
      exact if_pos huser
    · intro x rec hcac
      rw [hnone] at hcac
      cases hcac
    · intro x y rec rec' hcac
      rw [hnone] at hcac
      cases hcac
  · intro gid x hat
    rw [decisionAt, (hgroups gid).2.2] at hat
    cases hat
  · intro x hx
    rw [horder] at hx
    cases hx
  · intro key hkey
    rw [entries, if_neg (by rw [hkey]; decide)]

section

variable (ho : s.Ordered hash router m₀ m) (hc : s.Coherent hash router)
  (hquiet : s.Quiescent hash router)

include ho hc hquiet

theorem Ordered.committed_of_mem (hx : x ∈ s.order) :
    ∃ session, s.deployment.sessions x = some session ∧
      Deployment.Committed session ∧ ∀ gid ∈ session.handle.allGroups (router.resolve hash),
        (s.deployment.groups gid).hasRecord txCommitPrefix x = true := by
  obtain ⟨⟨session, hses, hwin⟩, -⟩ := ho.order x hx
  have hbegun : x ∈ s.begun := by
    rw [hc.begun, hses]
    rfl
  obtain ⟨hidle, hdone⟩ := hquiet x hbegun session hses
  suffices hok : Deployment.Committed session from ⟨session, hses, hok, hdone hok⟩
  unfold Deployment.Committed
  cases hph : session.phase with
  | committing plan =>
    rw [hph] at hidle
    cases hidle
  | returned plan err =>
    rw [hph, Phase.isWinning, decide_eq_true_eq] at hwin
    exact ⟨plan, by rw [hwin]⟩
  | active | preparing | aborting | rollingBack | rolledBack =>
    rw [hph] at hwin
    cases hwin

theorem Ordered.perm_committed : s.order.Perm s.committed := by
  unfold committed
  refine (perm_ext_iff_of_nodup ho.nodup (hc.nodup.filter _)).mpr fun x => ?_
  rw [mem_filter, hc.begun]
  constructor
  · intro hx
    obtain ⟨session, hses, hok, -⟩ := ho.committed_of_mem hc hquiet hx
    rw [hses]
    exact ⟨rfl, decide_eq_true hok⟩
  · rintro ⟨-, hany⟩
    obtain ⟨session, hses, hok⟩ := (any_eq_true _ _).mp hany
    exact (hc.clients x session hses).settled (of_decide_eq_true hok)

theorem Ordered.entries_eq : m = s.entries hash router := by
  funext key
  by_cases huser : isUserKey key = true
  · rw [entries, if_pos huser]
    refine (ho.groups _).current key huser rfl fun x hx rec hcac => ?_
    obtain ⟨session, hses, -, hdone⟩ := ho.committed_of_mem hc hquiet hx
    obtain ⟨session', hfixed, hgid, -⟩ := hc.records _ x rec hcac
    cases hses.symm.trans hfixed.1
    have hmark := hdone _ hgid
    have hopen := (ho.groups _).tidy.pending x rec hcac
    rw [(finished_iff_hasRecord _ x).mpr (.inl hmark)] at hopen
    cases hopen
  · rw [entries, if_neg huser]
    exact ho.outside key (by simpa using huser)

end

end

/-- In every run in which each `Prepare` finds its transaction undisturbed and no client
gives up on a decision, the transactions whose `Commit` returned OK are serializable in
the order in which their decisions were recorded. -/
theorem serializable_of_undisturbed (hash : String → UInt64) (router : ShardRouter)
    {s₀ s : History} (hinit : (system hash router).init s₀)
    (hpl : ∀ gid key, isUserKey key = true → (s₀.deployment.groups gid).Plain key)
    (hrun : (system hash router).Run (undisturbed hash router) s₀ s)
    (hquiet : s.Quiescent hash router) : Serializable hash router s₀ s := by
  obtain ⟨hc, m, ho⟩ := hrun.preserves
    (fun _ _ _ ⟨hc, _, ho⟩ hok hstep => inv_step hc ho hok hstep) (inv_init hinit hpl)
  refine ⟨s.order, ho.perm_committed hc hquiet, ?_⟩
  rw [ho.serial, ho.entries_eq hc hquiet]

def twoEntries : History :=
  { deployment := ⟨fun gid => newKVServer gid
      (if gid = 1 then (∅ : Store).insert "k" (.entry ⟨"a", 1, 0⟩)
        else (∅ : Store).insert "l" (.entry ⟨"b", 1, 0⟩)), [], fun _ => none⟩ }

def oneOrTwo : String → UInt64 := fun key => if key = "k" then 0 else 1

theorem twoEntries_init : (system oneOrTwo twoShards).init twoEntries := by
  refine ⟨⟨rfl, fun _ => rfl, fun gid => ⟨rfl, rfl, fun x => ?_⟩⟩, rfl, fun _ => ⟨rfl, rfl⟩, rfl⟩
  have huser : isUserKey "k" = true ∧ isUserKey "l" = true := by decide
  simp only [twoEntries, newKVServer, Store.getTxRecord]
  split
  · rw [Store.getElem?_insert, if_neg (txKey_ne huser.1 x).symm]
    rfl
  · rw [Store.getElem?_insert, if_neg (txKey_ne huser.2 x).symm]
    rfl

theorem twoEntries_plain (gid : Int) (key : String) :
    (twoEntries.deployment.groups gid).Plain key := by
  intro d hd
  simp only [twoEntries, newKVServer] at hd
  split at hd <;> rw [Store.getElem?_insert] at hd <;> split at hd
  · cases hd
    exact ⟨_, rfl, Int64.le_refl 0⟩
  · cases hd
  · cases hd
    exact ⟨_, rfl, Int64.le_refl 0⟩
  · cases hd

def clientOf (txID : String) (action : Deployment.ClientAction) : Event :=
  .protocol (.client txID action)

def reaches (gid : Int) (req : Request) : Event := .protocol (.deliver gid req [] ⟨0, 0⟩)

def prepareBoth (txID : String) (rks : List ReadKey) (wks : List WriteKey) : Request :=
  .prepareTx ⟨txID, rks, wks, 10000, 1, [1, 2]⟩

def sampleHistory : List Event :=
  let l : WriteKey := ⟨"l", "x", 1, false⟩
  let gone : WriteKey := ⟨"l", "", 2, true⟩
  [.begin "t", .begin "u", .get "t" "k" 0, .get "u" "l" 0, .put "t" "l" "x" 1, .put "u" "l" "y" 1,
    clientOf "t" .commit, reaches 1 (prepareBoth "t" [⟨"k", "", 1⟩] []),
    reaches 2 (prepareBoth "t" [] [l]), clientOf "u" .commit,
    reaches 2 (.prepareTx ⟨"u", [⟨"l", "", 1⟩], [⟨"l", "y", 1, false⟩], 10000, 2, [2]⟩),
    clientOf "u" (.prepared 2 (some .txConflict)), clientOf "u" .decide,
    reaches 2 (.recordTxDecision ⟨"u", .aborted, [2], []⟩), clientOf "u" (.decided true),
    clientOf "t" (.prepared 1 (some .ok)), clientOf "t" (.prepared 2 (some .ok)),
    clientOf "t" .decide, reaches 1 (.recordTxDecision ⟨"t", .committed, [1, 2], [l]⟩),
    clientOf "t" (.decided true), reaches 2 (.commitTx ⟨"t", [l]⟩), .begin "v", .get "v" "l" 0,
    .delete "v" "l" 0, .get "v" "k" 0, reaches 1 (.commitTx ⟨"t", []⟩), clientOf "v" .commit,
    reaches 1 (prepareBoth "v" [⟨"k", "", 1⟩] []),
    reaches 2 (prepareBoth "v" [⟨"l", "", 2⟩] [gone]), clientOf "v" (.prepared 1 (some .ok)),
    clientOf "v" (.prepared 2 (some .ok)), clientOf "v" .decide,
    reaches 1 (.recordTxDecision ⟨"v", .committed, [1, 2], [gone]⟩), clientOf "v" (.decided true),
    reaches 1 (.commitTx ⟨"v", []⟩), reaches 2 (.commitTx ⟨"v", [gone]⟩)]

theorem serializable_sample : ∃ s : History,
    s.committed = ["t", "v"] ∧ s.ops "v" =
      [.get "l" ("x", 2, .ok), .delete "l", .get "k" ("a", 1, .ok)] ∧
      Serializable oneOrTwo twoShards twoEntries s := by
  obtain ⟨s, hrun, hquiet, hcom, hops⟩ := Lib.System.exists_of_execOk
    (system oneOrTwo twoShards) (undisturbed oneOrTwo twoShards) twoEntries
    sampleHistory (fun s => s.Quiescent oneOrTwo twoShards ∧ s.committed = ["t", "v"] ∧
      s.ops "v" = [.get "l" ("x", 2, .ok), .delete "l", .get "k" ("a", 1, .ok)])
    (by decide +kernel)
  exact ⟨s, hcom, hops, serializable_of_undisturbed oneOrTwo twoShards
    twoEntries_init (fun gid key _ => twoEntries_plain gid key) hrun hquiet⟩

def skewedHistory : List Event :=
  let l : WriteKey := ⟨"l", "x", 1, false⟩
  let k : WriteKey := ⟨"k", "y", 1, false⟩
  [.begin "t", .begin "u", .get "t" "k" 0, .get "u" "l" 0, .put "t" "l" "x" 1, .put "u" "k" "y" 1,
    clientOf "t" .commit, clientOf "u" .commit, reaches 1 (prepareBoth "t" [⟨"k", "", 1⟩] []),
    reaches 2 (prepareBoth "t" [] [l]), reaches 1 (prepareBoth "u" [] [k]),
    reaches 2 (prepareBoth "u" [⟨"l", "", 1⟩] []), clientOf "t" (.prepared 1 (some .ok)),
    clientOf "t" (.prepared 2 (some .ok)), clientOf "u" (.prepared 1 (some .ok)),
    clientOf "u" (.prepared 2 (some .ok)), clientOf "t" .decide, clientOf "u" .decide,
    reaches 1 (.recordTxDecision ⟨"t", .committed, [1, 2], [l]⟩),
    reaches 1 (.recordTxDecision ⟨"u", .committed, [1, 2], [k]⟩), clientOf "t" (.decided true),
    clientOf "u" (.decided true), reaches 1 (.commitTx ⟨"t", []⟩), reaches 2 (.commitTx ⟨"t", [l]⟩),
    reaches 1 (.commitTx ⟨"u", [k]⟩), reaches 2 (.commitTx ⟨"u", []⟩)]

theorem write_skew_commits : ∃ s, (system oneOrTwo twoShards).init twoEntries ∧
    (system oneOrTwo twoShards).Run Lib.System.anyStep twoEntries s ∧
      s.Quiescent oneOrTwo twoShards ∧ s.committed = ["t", "u"] ∧
      ¬Serializable oneOrTwo twoShards twoEntries s := by
  obtain ⟨s, hrun, hquiet, hcom, hnone⟩ := Lib.System.exists_of_exec
    (system oneOrTwo twoShards) twoEntries skewedHistory
    (fun s => s.Quiescent oneOrTwo twoShards ∧ s.committed = ["t", "u"] ∧
      ∀ order ∈ [["t", "u"], ["u", "t"]], ((order.map fun txID => (txID, s.ops txID)).foldlM
        (Entries.run (twoShards.resolve oneOrTwo))
        (twoEntries.entries oneOrTwo twoShards)).isNone = true)
    (by decide +kernel)
  refine ⟨s, twoEntries_init, .of_exec hrun, hquiet, hcom, ?_⟩
  rintro ⟨order, hperm, hser⟩
  rw [hcom, perm_pair] at hperm
  have hfails := hnone order (by simpa using hperm)
  rw [hser] at hfails
  cases hfails

end History

end OrbisKV.KV
