import OrbisKV.KV.History
/-!
# Coherent histories

What holds in every state of an undisturbed history: the handles are what the operations
made of the answers, every message and every prepared record is of a transaction whose
reads and writes are fixed, and the groups keep step with the serial execution of the
transactions whose COMMITTED decision is recorded.
-/

namespace OrbisKV.KV

open Std Deployment Function List Option TxHandle

namespace Deployment

def Follows (h : TxHandle) (phase : Phase) (m : Message) : Prop :=
  (∃ gid args, m = .call gid (.recordTxDecision args) ∧ args.txID = h.txID ∧
    (args.decision = .committed → phase.isWinning = true)) ∨
  (∃ gid args, m = .call gid (.commitTx args)) ∨ ∃ gid txID, m = .call gid (.abortTx txID)

structure Continues (s : Deployment) (session : Session) (phase : Phase) (sent : List Message) :
    Prop where
  started : session.phase ≠ .active
  running : phase ≠ .active
  sent : ∀ m ∈ sent, Follows session.handle phase m
  winning : session.phase.isWinning = true → phase.isWinning = true
  decided : ∀ plan, phase = .returned plan .ok →
    (∃ gid args, args.txID = session.handle.txID ∧ args.decision = .committed ∧
      .reply gid (.recordTxDecision args) (.recordTxDecision .ok) ∈ s.network) ∨
    ∃ plan' prepared, session.phase = .aborting plan' prepared (some .ok)

section

variable {hash : String → UInt64} {s t : Deployment} {txID : String} {session : Session}

theorem continues_turn {a : ClientAction} {session' : Session} {sent : List Message}
    (ha : (∃ gid result, a = .prepared gid result) ∨ a = .decide ∨ ∃ known, a = .decided known)
    (hwaits : a = .decided false → session.phase.isCommitting = false)
    (hturn : s.Turn hash txID session a session' sent) :
    ∃ phase, session' = { session with phase := phase } ∧ s.Continues session phase sent := by
  cases hturn with
  | prepared gid result plan waiting oks oks' err err' hph =>
    refine ⟨_, rfl, by simp [hph], by simp, by simp, ?_, by simp⟩
    simp [hph, Phase.isWinning]
  | loses plan oks err gid hph =>
    refine ⟨_, rfl, by simp [hph], by simp, ?_, by simp [hph, Phase.isWinning], by simp⟩
    intro m hm
    rw [mem_singleton] at hm
    refine .inl ⟨_, _, hm, rfl, fun hd => ?_⟩
    cases hd
  | wins plan oks err gid hph =>
    refine ⟨_, rfl, by simp [hph], by simp, ?_, fun _ => rfl, by simp⟩
    intro m hm
    rw [mem_singleton] at hm
    exact .inl ⟨_, _, hm, rfl, fun _ => rfl⟩
  | committed plan gid hph hrep =>
    refine ⟨_, rfl, by simp [hph], by simp, ?_, fun _ => rfl, fun _ _ => .inl ?_⟩
    · intro m hm
      obtain ⟨gid, -, rfl⟩ := mem_map.mp hm
      exact .inr (.inl ⟨_, _, rfl⟩)
    · exact ⟨_, _, rfl, rfl, hrep⟩
  | aborted plan oks err gid hph =>
    refine ⟨_, rfl, by simp [hph], by simp, ?_, ?_, fun plan' hok => .inr ?_⟩
    · intro m hm
      obtain ⟨gid, -, rfl⟩ := mem_map.mp hm
      exact .inr (.inr ⟨_, _, rfl⟩)
    · simp [hph, Phase.isWinning]
    · refine ⟨plan, oks, ?_⟩
      rw [hph]
      cases err with
      | none => simp at hok
      | some e =>
        simp only [getD_some, Phase.returned.injEq] at hok
        rw [hok.2]
  | rolledBack groups gid hph =>
    refine ⟨_, rfl, by simp [hph], by simp, ?_, by simp [hph, Phase.isWinning], by simp⟩
    intro m hm
    obtain ⟨gid, -, rfl⟩ := mem_map.mp hm
    exact .inr (.inr ⟨_, _, rfl⟩)
  | undecided plan hph =>
    rcases hph with hph | ⟨oks, err, hph⟩
    · have hnot := hwaits rfl
      rw [hph] at hnot
      cases hnot
    · exact ⟨_, rfl, by simp [hph], by simp, by simp, by simp [hph, Phase.isWinning], by simp⟩
  | stuck groups hph =>
    exact ⟨_, rfl, by simp [hph], by simp, by simp, by simp [hph, Phase.isWinning], by simp⟩
  | _ => simp at ha

theorem Coordinates.undecided {gid : Int} (hco : s.Coordinates hash txID gid)
    (hnone : s.decisionAt gid txID = none) (d : TxStatus) : ¬s.Decided hash txID d := by
  rintro ⟨g, hco', hat⟩
  rw [hco'.unique hco, hnone] at hat
  cases hat

end

end Deployment

namespace History

section

variable (hash : String → UInt64) (router : ShardRouter)

def Fixed (s : History) (txID : String) (session : Session) : Prop :=
  s.deployment.sessions txID = some session ∧ session.phase ≠ .active

def Winning (s : History) (txID : String) : Prop :=
  ∃ session, s.deployment.sessions txID = some session ∧ session.phase.isWinning = true

def Reached (s : History) (gid : Int) (txID : String) : Prop :=
  (s.deployment.groups gid).txMgr.preparedTxs[txID]?.isSome = true ∨
    (s.deployment.groups gid).store.finished txID = true

def Sent (s : History) : Message → Prop
  | .call gid (.prepareTx args) => ∃ session, s.Fixed args.txID session ∧
      gid ∈ session.handle.allGroups (router.resolve hash) ∧
      args = session.handle.prepareTxArgs (session.handle.plan (router.resolve hash)) gid
  | .call _ (.recordTxDecision args) => args.decision = .committed → s.Winning args.txID
  | .call _ (.resolveTxStatus _) => False
  | .reply gid (.prepareTx args) (.prepareTx .ok) =>
    (∃ session, s.Fixed args.txID session) ∧ s.Reached gid args.txID
  | _ => True

structure Client (s : History) (txID : String) (session : Session) : Prop where
  fixed : session.router = router
  traced : Traced (router.resolve hash) txID (s.ops txID) (s.seen txID) session.handle
  started : session.phase ≠ .active →
    s.deployment.Committing txID session.handle (session.handle.plan (router.resolve hash)) ∧
      s.writesAbsent txID session.handle = true
  settled : Deployment.Committed session → txID ∈ s.order

structure Coherent (s : History) : Prop where
  sound : s.deployment.Sound hash
  clients : ∀ txID session, s.deployment.sessions txID = some session →
    s.Client hash router txID session
  nodup : s.begun.Nodup
  begun : ∀ txID, txID ∈ s.begun ↔ (s.deployment.sessions txID).isSome = true
  idle : ∀ txID, s.deployment.sessions txID = none → s.ops txID = [] ∧ s.seen txID = []
  messages : ∀ m ∈ s.deployment.network, s.Sent hash router m
  records : ∀ gid txID rec, (s.deployment.groups gid).txMgr.preparedTxs[txID]? = some rec →
    ∃ session, s.Fixed txID session ∧ gid ∈ session.handle.allGroups (router.resolve hash) ∧
      rec.writeKeys = session.handle.groupWriteKeys (router.resolve hash) gid

structure Ordered (m₀ m : Entries) (s : History) : Prop where
  groups : ∀ gid, KVServer.InStep (router.resolve hash) m s.order s.seen gid
    (s.deployment.groups gid)
  decided : ∀ gid txID, s.deployment.decisionAt gid txID = some .committed → txID ∈ s.order
  nodup : s.order.Nodup
  order : ∀ txID ∈ s.order, s.Winning txID ∧ (s.deployment.Decided hash txID .committed ∨
    ∃ session, s.deployment.sessions txID = some session ∧
      session.handle.allGroups (router.resolve hash) = [])
  serial : (s.order.map fun txID => (txID, s.ops txID)).foldlM
    (Entries.run (router.resolve hash)) m₀ = some m
  outside : ∀ key, isUserKey key = false → m key = none

def Inv (m₀ : Entries) (s : History) : Prop :=
  s.Coherent hash router ∧ ∃ m, s.Ordered hash router m₀ m

structure Later (s t : History) : Prop where
  grows : Deployment.Grows s.deployment t.deployment
  winning : ∀ txID, s.Winning txID → t.Winning txID
  reached : ∀ gid txID, s.Reached gid txID → t.Reached gid txID

end

section

variable {hash : String → UInt64} {router : ShardRouter} {s t : History} {m₀ m : Entries}
  {txID : String} {session : Session} {phase : Phase} {sent : List Message}

theorem Fixed.mono (h : s.Fixed txID session) (hl : Later s t) :
    ∃ session', t.Fixed txID session' ∧ session'.handle = session.handle := by
  obtain ⟨session', hses, hph, hhan, -⟩ := hl.grows.sessions txID session h.1 h.2
  exact ⟨session', ⟨hses, hph⟩, hhan⟩

theorem Sent.mono {msg : Message} (h : s.Sent hash router msg) (hl : Later s t) :
    t.Sent hash router msg := by
  unfold Sent at h ⊢
  split at h
  · obtain ⟨session, hfixed, hgid, hargs⟩ := h
    obtain ⟨session', hfixed', hhan⟩ := hfixed.mono hl
    exact ⟨session', hfixed', by rwa [hhan], by rwa [hhan]⟩
  · exact fun hd => hl.winning _ (h hd)
  · exact h
  · obtain ⟨⟨session, hfixed⟩, hrea⟩ := h
    obtain ⟨session', hfixed', -⟩ := hfixed.mono hl
    exact ⟨⟨session', hfixed'⟩, hl.reached _ _ hrea⟩
  · trivial

section

variable (h : s.Client hash router txID session)

include h

theorem Client.frame (hnet : s.deployment.network ⊆ t.deployment.network)
    (hsame : t.deployment.sessions txID = s.deployment.sessions txID)
    (hops : t.ops txID = s.ops txID) (hseen : t.seen txID = s.seen txID)
    (hord : s.order ⊆ t.order) : t.Client hash router txID session := by
  refine ⟨h.fixed, ?_, fun hph => ⟨?_, ?_⟩, fun hok => hord (h.settled hok)⟩
  · rw [hops, hseen]
    exact h.traced
  · exact (h.started hph).1.frame hnet hsame
  · rw [writesAbsent, hseen]
    exact (h.started hph).2

theorem Client.group_of_seen (habsent : s.writesAbsent txID session.handle = true)
    {item : String × Answer} (hitem : item ∈ s.seen txID) :
    router.resolve hash item.1 ∈ session.handle.allGroups (router.resolve hash) := by
  have hreso := (h.traced.resolved item hitem).2
  rw [mem_allGroups]
  by_cases hok : item.2.2.2 = .ok
  · obtain ⟨rk, hrk, -⟩ := h.traced.recorded item hitem hok
    refine .inr (mem_readGroups.mpr ⟨⟨rk, ?_, ?_⟩, hreso⟩)
    · exact mem_reads.mpr ⟨item.1, hrk⟩
    · rw [h.traced.reads item.1 rk hrk]
  · rw [writesAbsent, List.all_eq_true] at habsent
    have hsome := habsent item hitem
    rw [Bool.or_eq_true, decide_eq_true_eq] at hsome
    obtain ⟨wk, hwk⟩ := isSome_iff_exists.mp (hsome.resolve_left hok)
    exact .inl (h.traced.joined item.1 wk hwk hreso)

theorem Client.group_of_write {wk : WriteKey}
    (hwk : wk ∈ session.handle.writes) (hreso : 0 ≤ router.resolve hash wk.key) :
    router.resolve hash wk.key ∈ session.handle.allGroups (router.resolve hash) := by
  obtain ⟨key, hkey⟩ := mem_writes.mp hwk
  have hname := h.traced.writes key wk hkey
  rw [mem_allGroups, hname]
  rw [hname] at hreso
  exact .inl (h.traced.joined key wk hkey hreso)

end

theorem ne_active_of_winning (h : phase.isWinning = true) : phase ≠ .active := by
  rintro rfl
  cases h

theorem Client.acked (h : s.Client hash router txID session)
    (hses : s.deployment.sessions txID = some session) (hwin : session.phase.isWinning = true) :
    (session.handle.plan (router.resolve hash)).grouped.length = session.handle.writes.length ∧
      ∀ gid ∈ session.handle.allGroups (router.resolve hash), s.deployment.Acked session.handle
        (session.handle.plan (router.resolve hash)) gid := by
  obtain ⟨⟨session', hses', -, hp⟩, -⟩ := h.started (ne_active_of_winning hwin)
  rw [hses] at hses'
  cases hses'
  cases hph : session.phase with
  | committing plan =>
    rw [hph] at hp
    exact ⟨hp.2.1, hp.2.2⟩
  | returned plan err =>
    rw [hph, Phase.isWinning, decide_eq_true_eq] at hwin
    rw [hph] at hp
    obtain ⟨-, hall, hdone⟩ := hp hwin
    exact ⟨hall, fun gid hgid => (hdone gid hgid).1⟩
  | active | preparing | aborting | rollingBack | rolledBack =>
    rw [hph] at hwin
    cases hwin

theorem Coherent.reached (h : s.Coherent hash router)
    (hses : s.deployment.sessions txID = some session)
    (hwin : session.phase.isWinning = true) {gid : Int}
    (hgid : gid ∈ session.handle.allGroups (router.resolve hash)) : s.Reached gid txID := by
  have hack := ((h.clients txID session hses).acked hses hwin).2 gid hgid
  have hsent := (h.messages _ hack).2
  rwa [prepareTxArgs, (h.sound.clients txID session hses).named] at hsent

theorem Coherent.setSession (h : s.Coherent hash router)
    (hd : t.deployment = s.deployment.setSession txID session sent)
    (hsound : t.deployment.Sound hash) (hl : Later s t)
    (hcli : t.Client hash router txID session) (hsent : ∀ msg ∈ sent, t.Sent hash router msg)
    (hother : ∀ x, x ≠ txID → t.ops x = s.ops x ∧ t.seen x = s.seen x) (hord : s.order ⊆ t.order)
    (hnodup : t.begun.Nodup) (hbegun : ∀ x, x ∈ t.begun ↔ x = txID ∨ x ∈ s.begun) :
    t.Coherent hash router := by
  have hown : t.deployment.sessions txID = some session := by rw [hd]; exact if_pos rfl
  have hsame : ∀ x, x ≠ txID → t.deployment.sessions x = s.deployment.sessions x := by
    intro x hx
    rw [hd]
    exact if_neg hx
  have hnet : s.deployment.network ⊆ t.deployment.network := by
    rw [hd]
    exact network_setSession
  refine ⟨hsound, ?_, hnodup, ?_, ?_, ?_, ?_⟩
  · intro x session' hses
    by_cases hx : x = txID
    · subst hx
      rw [hown] at hses
      cases hses
      exact hcli
    · have hold := hses
      rw [hsame x hx] at hold
      exact (h.clients x session' hold).frame hnet (hsame x hx) (hother x hx).1 (hother x hx).2 hord
  · intro x
    rw [hbegun]
    by_cases hx : x = txID
    · simp [hx, hown]
    · rw [hsame x hx, ← h.begun x]
      simp [hx]
  · intro x hnone
    have hx : x ≠ txID := by
      rintro rfl
      rw [hown] at hnone
      cases hnone
    rw [(hother x hx).1, (hother x hx).2]
    rw [hsame x hx] at hnone
    exact h.idle x hnone
  · intro msg hmsg
    rw [hd] at hmsg
    rcases mem_append.mp hmsg with hmsg | hmsg
    · exact hsent msg hmsg
    · exact (h.messages msg hmsg).mono hl
  · intro gid x rec hcac
    rw [hd] at hcac
    obtain ⟨session', hfixed, hgid, hkeys⟩ := h.records gid x rec hcac
    obtain ⟨session'', hfixed', hhan⟩ := hfixed.mono hl
    exact ⟨session'', hfixed', by rwa [hhan], by rwa [hhan]⟩

theorem Ordered.order_mono (h : s.Ordered hash router m₀ m) (hl : Later s t) {x : String}
    (hx : x ∈ s.order) : t.Winning x ∧ (t.deployment.Decided hash x .committed ∨
      ∃ session, t.deployment.sessions x = some session ∧
        session.handle.allGroups (router.resolve hash) = []) := by
  obtain ⟨hwin, hrest⟩ := h.order x hx
  refine ⟨hl.winning x hwin, ?_⟩
  rcases hrest with hdec | ⟨session, hses, hgroups⟩
  · exact .inl (hdec.mono hl.grows)
  · obtain ⟨session', hses', hwins⟩ := hwin
    cases hses.symm.trans hses'
    obtain ⟨session', hfixed, hhan⟩ := Fixed.mono ⟨hses, ne_active_of_winning hwins⟩ hl
    exact .inr ⟨session', hfixed.1, by rw [hhan]; exact hgroups⟩

theorem Ordered.frame (h : s.Ordered hash router m₀ m) (hl : Later s t)
    (hgroups : t.deployment.groups = s.deployment.groups) (hord : t.order = s.order)
    (hops : ∀ x ∈ s.order, t.ops x = s.ops x)
    (hseen : ∀ gid (x : String), (s.deployment.groups gid).txMgr.preparedTxs[x]?.isSome = true →
      t.seen x = s.seen x) : t.Ordered hash router m₀ m := by
  refine ⟨?_, ?_, by rw [hord]; exact h.nodup, ?_, ?_, h.outside⟩
  · intro gid
    rw [hord, hgroups]
    exact (h.groups gid).of_seen (hseen gid)
  · intro gid x hd
    rw [decisionAt, hgroups] at hd
    rw [hord]
    exact h.decided gid x hd
  · intro x hx
    rw [hord] at hx
    exact h.order_mono hl hx
  · rw [hord, ← h.serial]
    refine congrArg (fun txs => foldlM _ m₀ txs) (map_congr_left fun x hx => ?_)
    rw [hops x hx]

theorem later_setSession (hd : t.deployment = s.deployment.setSession txID session sent)
    (hfixed : ∀ old, s.deployment.sessions txID = some old → old.phase ≠ .active →
      session.phase ≠ .active ∧ session.handle = old.handle ∧ session.router = old.router)
    (hwin : ∀ old, s.deployment.sessions txID = some old → old.phase.isWinning = true →
      session.phase.isWinning = true) : Later s t := by
  refine ⟨by rw [hd]; exact grows_setSession hfixed, ?_, ?_⟩
  · rintro x ⟨old, hold, hwinn⟩
    by_cases hx : x = txID
    · subst hx
      exact ⟨session, by rw [hd]; exact if_pos rfl, hwin old hold hwinn⟩
    · exact ⟨old, by rw [hd]; exact (if_neg hx).trans hold, hwinn⟩
  · intro gid x hrea
    rw [Reached, hd]
    exact hrea

theorem later_of_active {session' : Session}
    (hd : t.deployment = s.deployment.setSession txID session' sent)
    (hses : s.deployment.sessions txID = some session) (hph : session.phase = .active) :
    Later s t := by
  refine later_setSession hd ?_ ?_ <;> intro old hold <;> cases hses.symm.trans hold <;>
    rw [hph]
  · exact fun hne => absurd rfl hne
  · exact nofun

theorem Coherent.begun_iff (hc : s.Coherent hash router)
    (hses : s.deployment.sessions txID = some session) (x : String) :
    x ∈ s.begun ↔ x = txID ∨ x ∈ s.begun := by
  refine ⟨Or.inr, fun hx => hx.elim ?_ id⟩
  rintro rfl
  rw [hc.begun, hses]
  rfl

section

variable (hc : s.Coherent hash router) (ho : s.Ordered hash router m₀ m)

include hc ho

theorem inv_begin {d : Deployment} (hstep : s.deployment.step hash (.begin txID router) = some d) :
    ({ s with deployment := d, begun := s.begun ++ [txID] } : History).Inv hash router m₀ := by
  have hsound := hc.sound.step (a := .begin txID router) trivial hstep
  rw [Deployment.step] at hstep
  split at hstep
  · rename_i hnone
    cases hstep
    have hl : Later s { s with
        deployment := s.deployment.setSession txID ⟨{ txID := txID }, router, .active⟩ []
        begun := s.begun ++ [txID] } := by
      refine later_setSession rfl ?_ ?_
      · intro old hold
        rw [hnone] at hold
        cases hold
      · intro old hold
        rw [hnone] at hold
        cases hold
    have hfr : txID ∉ s.begun := by
      rw [hc.begun, hnone]
      decide
    refine ⟨hc.setSession rfl hsound hl ?_ (by simp) (fun _ _ => ⟨rfl, rfl⟩)
      (List.Subset.refl _) ?_ ?_, m, ho.frame hl rfl rfl (fun _ _ => rfl) fun _ _ _ => rfl⟩
    · obtain ⟨hops, hseen⟩ := hc.idle txID hnone
      refine ⟨rfl, ?_, fun hph => absurd rfl hph, ?_⟩
      · dsimp only
        rw [hops, hseen]
        exact .init
      · rintro ⟨plan, hph⟩
        cases hph
    · exact nodup_append.mpr ⟨hc.nodup, nodup_singleton _, by
        rintro x hx y hy rfl
        rw [mem_singleton] at hy
        exact hfr (hy ▸ hx)⟩
    · intro x
      simp [or_comm]
  · cases hstep

theorem inv_edit {handle : TxHandle} {op : TxOp} {answers : List (String × Answer)}
    (hses : s.deployment.sessions txID = some session) (hph : session.phase = .active)
    (hsound : (s.deployment.setSession txID { session with handle := handle } []).Sound hash)
    (htra : Traced (router.resolve hash) txID (s.ops txID ++ [op]) (s.seen txID ++ answers)
      handle) :
    (s.log txID (s.deployment.setSession txID { session with handle := handle } []) op
      answers).Inv hash router m₀ := by
  have hl : Later s (s.log txID
      (s.deployment.setSession txID { session with handle := handle } []) op answers) :=
    later_of_active rfl hses hph
  have hnot : ∀ {x : String} {old : Session}, s.Fixed x old → x ≠ txID := by
    rintro x old ⟨hold, hne⟩ rfl
    rw [hses] at hold
    cases hold
    exact hne hph
  refine ⟨hc.setSession rfl hsound hl ?_ (by simp) ?_ (List.Subset.refl _) hc.nodup
    (hc.begun_iff hses), m, ho.frame hl rfl rfl ?_ ?_⟩
  · refine ⟨(hc.clients txID session hses).fixed, ?_, fun hne => absurd hph hne, ?_⟩
    · dsimp only [log]
      rw [update_self, update_self]
      exact htra
    · rintro ⟨plan, hret⟩
      dsimp only at hret
      rw [hph] at hret
      cases hret
  · intro x hx
    exact ⟨update_of_ne hx _ _, update_of_ne hx _ _⟩
  · intro x hx
    obtain ⟨⟨old, hold, hwin⟩, -⟩ := ho.order x hx
    exact update_of_ne (hnot ⟨hold, ne_active_of_winning hwin⟩) _ _
  · intro gid x hpre
    obtain ⟨rec, hcac⟩ := isSome_iff_exists.mp hpre
    obtain ⟨old, hfixed, -⟩ := hc.records gid x rec hcac
    exact update_of_ne (hnot hfixed) _ _

theorem inv_continues (hses : s.deployment.sessions txID = some session)
    (hcont : s.deployment.Continues session phase sent)
    (hsound : (s.deployment.setSession txID { session with phase := phase } sent).Sound hash)
    (hcom : (s.deployment.setSession txID { session with phase := phase }
      sent).Committing txID session.handle (session.handle.plan (router.resolve hash)))
    (ht : t = { s with
      deployment := s.deployment.setSession txID { session with phase := phase } sent }) :
    t.Inv hash router m₀ := by
  subst ht
  have hl : Later s { s with
      deployment := s.deployment.setSession txID { session with phase := phase } sent } := by
    refine later_setSession rfl ?_ ?_ <;> intro old hold <;> cases hses.symm.trans hold
    · exact fun _ => ⟨hcont.running, rfl, rfl⟩
    · exact hcont.winning
  have hcli := hc.clients txID session hses
  have hpro := hc.sound.clients txID session hses
  refine ⟨hc.setSession rfl hsound hl ?_ ?_ (fun _ _ => ⟨rfl, rfl⟩) (List.Subset.refl _) hc.nodup
    (hc.begun_iff hses), m, ho.frame hl rfl rfl (fun _ _ => rfl) fun _ _ _ => rfl⟩
  · refine ⟨hcli.fixed, hcli.traced, fun _ =>
      ⟨hcom, (hcli.started hcont.started).2⟩, ?_⟩
    rintro ⟨plan, hok⟩
    rcases hcont.decided plan hok with ⟨gid, args, hname, hdeci, hrep⟩ | ⟨plan', prepared, hph⟩
    · have hdec : s.deployment.Decided hash args.txID args.decision := hc.sound.messages _ hrep
      rw [hname, hpro.named, hdeci] at hdec
      obtain ⟨gid, -, hat⟩ := hdec
      exact ho.decided gid txID hat
    · obtain ⟨session', hses', -, hp⟩ := (hcli.started hcont.started).1
      rw [hses] at hses'
      cases hses'
      rw [hph] at hp
      exact absurd rfl hp
  · intro msg hmsg
    rcases hcont.sent msg hmsg with ⟨gid, args, rfl, hname, hwin⟩ | ⟨gid, args, rfl⟩ | ⟨gid, x, rfl⟩
    · intro hd
      rw [hname, hpro.named]
      exact ⟨_, if_pos rfl, hwin hd⟩
    · trivial
    · trivial

end

theorem Ordered.settle (ho : s.Ordered hash router m₀ m) (hc : s.Coherent hash router)
    (hses : s.deployment.sessions txID = some session) (hout : txID ∉ s.order)
    (hgrou : (session.handle.plan (router.resolve hash)).grouped.length =
      session.handle.writes.length) (hseen : ∀ item ∈ s.seen txID,
      router.resolve hash item.1 ∈ session.handle.allGroups (router.resolve hash))
    (hpre : ∀ gid ∈ session.handle.allGroups (router.resolve hash),
      (s.deployment.groups gid).txMgr.preparedTxs[txID]?.isSome = true) :
    ∃ m', (∀ gid, KVServer.InStep (router.resolve hash) m' (s.order ++ [txID]) s.seen gid
        (s.deployment.groups gid)) ∧
      ((s.order ++ [txID]).map fun txID => (txID, s.ops txID)).foldlM
        (Entries.run (router.resolve hash)) m₀ = some m' ∧
      ∀ key, isUserKey key = false → m' key = none := by
  have hcli := hc.clients txID session hses
  have hkeys : ∀ gid rec, (s.deployment.groups gid).txMgr.preparedTxs[txID]? = some rec →
      rec.writeKeys = session.handle.groupWriteKeys (router.resolve hash) gid := by
    intro gid rec hcac
    obtain ⟨session', hfixed, -, hkeys⟩ := hc.records gid txID rec hcac
    cases hses.symm.trans hfixed.1
    exact hkeys
  -- every write is in a record of the group of its key
  have hplan : ∀ wk ∈ session.handle.writes, ∃ rec,
      (s.deployment.groups (router.resolve hash wk.key)).txMgr.preparedTxs[txID]? = some rec ∧
        wk ∈ rec.writeKeys := by
    intro wk hwk
    have hres : 0 ≤ router.resolve hash wk.key :=
      of_decide_eq_true (length_filter_eq_length_iff.mp hgrou wk hwk)
    obtain ⟨rec, hcac⟩ := isSome_iff_exists.mp (hpre _ (hcli.group_of_write hwk hres))
    refine ⟨rec, hcac, ?_⟩
    rw [hkeys _ rec hcac]
    exact mem_groupWriteKeys.mpr ⟨hwk, hres, rfl⟩
  have hver : ∀ wk ∈ session.handle.writes, m.version wk.key = wk.version.toUInt64 := by
    intro wk hwk
    obtain ⟨rec, hcac, hin⟩ := hplan wk hwk
    exact ((ho.groups _).valid txID rec hcac hout).1 wk hin
  have hans : ∀ item ∈ s.seen txID, m.answer item.1 = item.2 := by
    intro item hitem
    obtain ⟨rec, hcac⟩ := isSome_iff_exists.mp (hpre _ (hseen item hitem))
    exact ((ho.groups _).valid txID rec hcac hout).2 item hitem rfl
  obtain ⟨m', hm', hleft, hframe⟩ := Entries.exists_commit (pairwise_writes hcli.traced.writes) hver
  refine ⟨m', fun gid => (ho.groups gid).settle hout ?_ ?_ ?_, ?_, ?_⟩
  · intro rec hcac wk hwk
    rw [hkeys gid rec hcac] at hwk
    exact hleft wk (mem_groupWriteKeys.mp hwk).1
  · intro key hgid hfree
    refine hframe key fun wk hwk heq => ?_
    obtain ⟨rec, hcac, hin⟩ := hplan wk hwk
    rw [heq, hgid] at hcac
    exact hfree rec hcac ⟨wk, hin, heq⟩
  · intro x rec hcac wk hwk
    obtain ⟨session', -, -, hkeys'⟩ := hc.records gid x rec hcac
    rw [hkeys'] at hwk
    exact (mem_groupWriteKeys.mp hwk).2.2
  · rw [map_append, foldlM_append, ho.serial]
    simp only [map_cons, map_nil, foldlM_cons, foldlM_nil, bind_eq_bind, bind_some]
    rw [hcli.traced.run hgrou hans hm']
    rfl
  · intro key hkey
    rw [hframe key ?_]
    · exact ho.outside key hkey
    · rintro wk hwk rfl
      rw [(hc.sound.clients txID session hses).user wk hwk] at hkey
      cases hkey

theorem Ordered.nodup_snoc (ho : s.Ordered hash router m₀ m) (hout : txID ∉ s.order) :
    (s.order ++ [txID]).Nodup := by
  refine nodup_append.mpr ⟨ho.nodup, nodup_singleton _, ?_⟩
  rintro x hx y hy rfl
  rw [mem_singleton] at hy
  exact hout (hy ▸ hx)

theorem Coherent.start (hc : s.Coherent hash router)
    (hses : s.deployment.sessions txID = some session) (hph : session.phase = .active)
    (habsent : s.writesAbsent txID session.handle = true)
    (hsound : (s.deployment.setSession txID { session with phase := phase } sent).Sound hash)
    (hcom : (s.deployment.setSession txID { session with phase := phase }
      sent).Committing txID session.handle (session.handle.plan (router.resolve hash)))
    {new : List String} (ht : t = { s with
      deployment := s.deployment.setSession txID { session with phase := phase } sent
      order := s.order ++ new })
    (hset : Deployment.Committed { session with phase := phase } → txID ∈ t.order)
    (hsent : ∀ msg ∈ sent, t.Sent hash router msg) : t.Coherent hash router ∧ Later s t := by
  have hcli := hc.clients txID session hses
  have hl : Later s t := later_of_active (by rw [ht]) hses hph
  subst ht
  exact ⟨hc.setSession rfl hsound hl ⟨hcli.fixed, hcli.traced, fun _ =>
    ⟨hcom, habsent⟩, hset⟩ hsent (fun _ _ => ⟨rfl, rfl⟩)
    (subset_append_left _ _) hc.nodup (hc.begun_iff hses), hl⟩

theorem settled_commit {session' : Session} :
    s.settled (s.deployment.setSession txID session' sent) (.client txID .commit) =
      if Deployment.Committed session' then [txID] else [] := by
  simp [settled, setSession]

theorem Ordered.unsettled (ho : s.Ordered hash router m₀ m) (hl : Later s t) (ht : t = { s with
      deployment := s.deployment.setSession txID session sent, order := s.order ++ [] }) :
    t.Ordered hash router m₀ m := by
  subst ht
  exact ho.frame hl rfl (append_nil _) (fun _ _ => rfl) fun _ _ _ => rfl

theorem inv_commit {d : Deployment} (hc : s.Coherent hash router) (ho : s.Ordered hash router m₀ m)
    (hok : s.undisturbed hash router (.protocol (.client txID .commit)))
    (hstep : s.deployment.step hash (.client txID .commit) = some d)
    (ht : t = { s with deployment := d, order := s.order ++ s.settled d (.client txID .commit) }) :
    t.Inv hash router m₀ := by
  obtain ⟨session, hses, -⟩ := bind_eq_some_iff.mp hstep
  have hsound := hc.sound.step (a := .client txID .commit) trivial hstep
  obtain rfl := of_step_commit hses hstep
  have hcli := hc.clients txID session hses
  have hpro := hc.sound.clients txID session hses
  obtain rfl := hcli.fixed
  have hcom : (s.deployment.startCommit hash txID session).Committing txID session.handle
      (session.handle.plan (session.router.resolve hash)) := Deployment.Committing.start
  rw [undisturbed, hses, all_some, Bool.and_eq_true] at hok
  obtain ⟨hact, habsent⟩ := hok
  have hph : session.phase = .active := by
    cases hp : session.phase <;> rw [hp] at hact <;> first | rfl | cases hact
  unfold startCommit at hsound hcom ht
  dsimp only at hsound hcom ht
  split_ifs at hsound hcom ht with hlen hgroups
  · rw [settled_commit, if_neg (by rintro ⟨plan, hp⟩; cases hp)] at ht
    obtain ⟨hcoh, hl⟩ := hc.start hses hph habsent hsound hcom ht
      (by rintro ⟨plan, hp⟩; cases hp) (by simp)
    exact ⟨hcoh, m, ho.unsettled hl ht⟩
  · rw [settled_commit, if_pos ⟨_, rfl⟩] at ht
    have hin : txID ∈ t.order := by
      rw [ht]
      exact mem_append_right _ (mem_singleton_self _)
    obtain ⟨hcoh, hl⟩ := hc.start hses hph habsent hsound hcom ht (fun _ => hin) (by simp)
    have hout : txID ∉ s.order := by
      intro hx
      obtain ⟨⟨old, hold, hwin⟩, -⟩ := ho.order txID hx
      cases hses.symm.trans hold
      exact ne_active_of_winning hwin hph
    have hnil : session.handle.allGroups (session.router.resolve hash) = [] := hgroups
    obtain ⟨m', hstep', hser, houts⟩ := ho.settle hc hses hout
      (Nat.le_antisymm (length_filter_le _ _) (Nat.le_of_not_lt hlen))
      (fun item hitem => hcli.group_of_seen habsent hitem)
      (fun gid hgid => by rw [hnil] at hgid; cases hgid)
    refine ⟨hcoh, m', ?_⟩
    refine ⟨?_, ?_, ?_, ?_, ?_, houts⟩
    · subst ht
      exact hstep'
    · intro gid x hd
      subst ht
      exact mem_append_left _ (ho.decided gid x hd)
    · subst ht
      exact ho.nodup_snoc hout
    · intro x hx
      by_cases hold : x ∈ s.order
      · exact ho.order_mono hl hold
      · subst ht
        obtain rfl : x = txID := by simpa [hold] using hx
        exact ⟨⟨_, if_pos rfl, rfl⟩, .inr ⟨_, if_pos rfl, hnil⟩⟩
    · subst ht
      exact hser
  · rw [settled_commit, if_neg (by rintro ⟨plan, hp⟩; cases hp)] at ht
    obtain ⟨session', hfixed, hhan⟩ : ∃ session', t.Fixed txID session' ∧
        session'.handle = session.handle := by
      rw [ht]
      exact ⟨_, ⟨if_pos rfl, by simp⟩, rfl⟩
    have hsent : ∀ msg ∈ (session.handle.plan (session.router.resolve hash)).groups.map fun gid =>
        Message.call gid (.prepareTx (session.handle.prepareTxArgs
          (session.handle.plan (session.router.resolve hash)) gid)),
        t.Sent hash session.router msg := by
      intro msg hmsg
      obtain ⟨gid, hgid, rfl⟩ := mem_map.mp hmsg
      refine ⟨session', ?_, by rw [hhan]; exact hgid, by rw [hhan]⟩
      rw [prepareTxArgs, hpro.named]
      exact hfixed
    obtain ⟨hcoh, hl⟩ := hc.start hses hph habsent hsound hcom ht
      (by rintro ⟨plan, hp⟩; cases hp) hsent
    exact ⟨hcoh, m, ho.unsettled hl ht⟩

end

end History

end OrbisKV.KV
