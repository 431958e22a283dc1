import OrbisKV.KV.Agreement
/-!
# Where the writes of a transaction go

`Put` and `Delete` note the group of a key when they buffer the write; `Commit` asks
the routing table again when it groups the writes, and prepares the groups noted
before.
-/

namespace OrbisKV.KV

open Std List Option TxHandle

namespace TxHandle

variable {h : TxHandle} {resolve : String → Int} {gid : Int}

theorem mem_allGroups :
    gid ∈ h.allGroups resolve ↔ gid ∈ h.groups ∨ gid ∈ h.readGroups resolve := by
  rw [allGroups, ExtTreeSet.mem_toList, ExtTreeSet.mem_insertMany_list, contains_iff_mem]

theorem mem_readGroups :
    gid ∈ h.readGroups resolve ↔ (∃ rk ∈ h.reads, resolve rk.key = gid) ∧ 0 ≤ gid := by
  simp [readGroups]

theorem mem_groupWriteKeys {wk : WriteKey} :
    wk ∈ h.groupWriteKeys resolve gid ↔
      wk ∈ h.writes ∧ 0 ≤ resolve wk.key ∧ resolve wk.key = gid := by
  simp [groupWriteKeys]

end TxHandle

/-- Every write goes to a group that takes part, by the routing table of the moment. -/
def Session.routed (hash : String → UInt64) (session : Session) : Bool :=
  session.handle.writes.all fun wk =>
    session.router.resolve hash wk.key ∈ session.handle.groups || session.handle.reads.any fun rk =>
        session.router.resolve hash rk.key = session.router.resolve hash wk.key

namespace Deployment

variable (hash : String → UInt64)

def callsCommit (txID : String) : Action → Bool
  | .client id .commit => id = txID
  | _ => false

def Acked (s : Deployment) (h : TxHandle) (plan : CommitPlan) (gid : Int) : Prop :=
  .reply gid (.prepareTx (h.prepareTxArgs plan gid)) (.prepareTx .ok) ∈ s.network

def Told (s : Deployment) (txID : String) (plan : CommitPlan) (gid : Int) : Prop :=
  .call gid (.commitTx ⟨txID, plan.writeKeys gid⟩) ∈ s.network

/-- Every write of a transaction was prepared by the group that `Commit` resolved it
to, and that group is one of those the second phase writes to. -/
def Kept (s : Deployment) (txID : String) (session : Session) (plan : CommitPlan) : Prop :=
  ∀ wk ∈ session.handle.writes, ∃ gid, gid = session.router.resolve hash wk.key ∧
    (∃ args : PrepareTxArgs, wk ∈ args.writeKeys ∧
      .reply gid (.prepareTx args) (.prepareTx .ok) ∈ s.network) ∧
    gid ∈ plan.groups ∧ s.Told txID plan gid

def Progress (s : Deployment) (txID : String) (h : TxHandle) (plan : CommitPlan) : Phase → Prop
  | .preparing plan' waiting prepared firstErr =>
    plan' = plan ∧ plan.grouped.length = h.writes.length ∧
      (prepared ++ waiting).Subperm plan.groups ∧ (∀ gid ∈ prepared, s.Acked h plan gid) ∧
      firstErr ≠ some .ok
  | .committing plan' =>
    plan' = plan ∧ plan.grouped.length = h.writes.length ∧ ∀ gid ∈ plan.groups, s.Acked h plan gid
  | .aborting _ _ firstErr => firstErr ≠ some .ok
  | .returned plan' err => err = .ok → plan' = plan ∧ plan.grouped.length = h.writes.length ∧
      ∀ gid ∈ plan.groups, s.Acked h plan gid ∧ s.Told txID plan gid
  | .rollingBack _ | .rolledBack => True
  | .active => False

def Committing (s : Deployment) (txID : String) (h : TxHandle) (plan : CommitPlan) : Prop :=
  ∃ session, s.sessions txID = some session ∧ session.handle = h ∧
    s.Progress txID h plan session.phase

section

variable {hash} {s t : Deployment} {txID : String} {h : TxHandle} {plan : CommitPlan}
  {session : Session}

theorem Progress.mono {phase : Phase} (hsub : s.network ⊆ t.network)
    (hp : s.Progress txID h plan phase) : t.Progress txID h plan phase := by
  cases phase with
  | preparing plan' waiting prepared firstErr =>
    obtain ⟨hplan, hall, hsubp, hack, herr⟩ := hp
    exact ⟨hplan, hall, hsubp, fun gid hgid => hsub (hack gid hgid), herr⟩
  | committing plan' =>
    obtain ⟨hplan, hall, hack⟩ := hp
    exact ⟨hplan, hall, fun gid hgid => hsub (hack gid hgid)⟩
  | returned plan' err =>
    intro hok
    obtain ⟨hplan, hall, hdone⟩ := hp hok
    exact ⟨hplan, hall, fun gid hgid =>
      ⟨hsub (hdone gid hgid).1, hsub (hdone gid hgid).2⟩⟩
  | rollingBack groups | rolledBack => trivial
  | _ => exact hp

theorem Committing.frame (hc : s.Committing txID h plan) (hsub : s.network ⊆ t.network)
    (hsame : t.sessions txID = s.sessions txID) : t.Committing txID h plan := by
  obtain ⟨session, hses, hhan, hp⟩ := hc
  exact ⟨session, hsame.trans hses, hhan, hp.mono hsub⟩

theorem committing_setSession {sent : List Message} (hhan : session.handle = h)
    (hp : (s.setSession txID session sent).Progress txID h plan session.phase) :
    (s.setSession txID session sent).Committing txID h plan :=
  ⟨session, if_pos rfl, hhan, hp⟩

theorem network_setSession {sent : List Message} :
    s.network ⊆ (s.setSession txID session sent).network := subset_append_right _ _

theorem Committing.turn {action : ClientAction} {session' : Session} {sent : List Message}
    (hhan : session.handle = h) (hp : s.Progress txID h plan session.phase)
    (hact : callsCommit txID (.client txID action) = false)
    (hturn : s.Turn hash txID session action session' sent) :
    (s.setSession txID session' sent).Committing txID h plan := by
  cases hturn with
  | get _ _ hph | put _ _ _ hph | delete _ _ hph =>
    rw [hph] at hp
    exact hp.elim
  | learnHint | moveShard => exact committing_setSession hhan (hp.mono network_setSession)
  | commit => simp [callsCommit] at hact
  | prepared gid result plan' waiting oks oks' err err' hph hgid hresu =>
    rw [hph] at hp
    obtain ⟨rfl, hall, hsubp, hack, herr⟩ := hp
    rcases hresu with ⟨rfl, herr'⟩ | ⟨rfl, rfl, hrep⟩
    · -- A result that is not OK takes the group out of the count for good.
      have hlost : (oks' ++ waiting.erase gid).Subperm plan'.groups :=
        (List.Sublist.append_left erase_sublist oks').subperm.trans hsubp
      exact committing_setSession hhan ⟨rfl, hall, hlost, hack, herr'⟩
    · refine committing_setSession hhan ⟨rfl, hall, ?_, ?_, herr⟩
      · have hperm : (oks ++ [gid] ++ waiting.erase gid).Perm (oks ++ waiting) := by
          rw [append_assoc]
          exact List.Perm.append_left _ (perm_cons_erase hgid).symm
        exact hperm.subperm.trans hsubp
      · intro g hg
        rcases mem_append.mp hg with hg | hg
        · exact hack g hg
        · rw [mem_singleton] at hg
          subst hg
          rw [hhan] at hrep
          exact hrep
  | loses plan' oks err gid hph =>
    rw [hph] at hp
    exact committing_setSession hhan hp.2.2.2.2
  | wins plan' oks err gid hph hgid hlen =>
    rw [hph] at hp
    obtain ⟨rfl, hall, hsubp, hack, -⟩ := hp
    rw [append_nil] at hsubp
    have hperm := hsubp.perm_of_length_le hlen
    exact committing_setSession hhan ⟨rfl, hall, fun gid hgid =>
      network_setSession (hack gid (hperm.mem_iff.mpr hgid))⟩
  | committed plan' gid hph =>
    rw [hph] at hp
    obtain ⟨rfl, hall, hack⟩ := hp
    refine committing_setSession hhan fun _ => ⟨rfl, hall, fun gid hgid => ⟨?_, ?_⟩⟩
    · exact network_setSession (hack gid hgid)
    · exact mem_append_left _ (mem_map.mpr ⟨gid, hgid, rfl⟩)
  | aborted plan' oks err gid hph =>
    rw [hph] at hp
    refine committing_setSession hhan fun hok => ?_
    cases err with
    | none => cases hok
    | some e => exact absurd (congrArg some hok) hp
  | undecided => exact committing_setSession hhan nofun
  | rolledBack | stuck | nothing | rollback => exact committing_setSession hhan trivial

theorem Committing.step {a : Action} (hc : s.Committing txID h plan)
    (ha : callsCommit txID a = false) (hstep : step hash s a = some t) :
    t.Committing txID h plan := by
  cases a with
  | begin id router =>
    rw [Deployment.step] at hstep
    split at hstep
    · rename_i hnone
      cases hstep
      refine hc.frame network_setSession ?_
      obtain ⟨session, hses, -⟩ := hc
      refine if_neg ?_
      rintro rfl
      rw [hnone] at hses
      cases hses
    · cases hstep
  | client id action =>
    obtain ⟨session, hses, hcli⟩ := bind_eq_some_iff.mp hstep
    obtain ⟨session', sent, rfl, hturn⟩ := Deployment.turn hcli
    by_cases hid : id = txID
    · subst hid
      obtain ⟨old, hold, hhan, hp⟩ := hc
      cases hses.symm.trans hold
      exact Committing.turn hhan hp ha hturn
    · exact hc.frame network_setSession (if_neg (Ne.symm hid))
  | query gid id =>
    obtain ⟨d, -, rfl⟩ := map_eq_some_iff.mp hstep
    exact hc.frame (subset_append_right _ _) rfl
  | ask gid id | recoverCoordinator gid router =>
    cases hstep
    exact hc.frame (subset_append_right _ _) rfl
  | restart gid answers records =>
    rw [Deployment.step] at hstep
    split at hstep
    · obtain ⟨kv, -, rfl⟩ := map_eq_some_iff.mp hstep
      exact hc.frame (subset_append_right _ _) rfl
    · cases hstep
  | _ =>
    rw [Deployment.step] at hstep
    split at hstep
    · obtain ⟨r, -, rfl⟩ := map_eq_some_iff.mp hstep
      exact hc.frame (subset_append_right _ _) rfl
    · cases hstep

theorem Committing.start :
    (s.startCommit hash txID session).Committing txID session.handle
      (session.handle.plan (session.router.resolve hash)) := by
  unfold startCommit
  dsimp only
  split
  · exact committing_setSession rfl nofun
  · rename_i hlen
    have hall := Nat.le_antisymm (length_filter_le _ _) (Nat.le_of_not_lt hlen)
    split
    · rename_i hgrou
      refine committing_setSession rfl fun _ => ⟨rfl, hall, fun gid hgid => ?_⟩
      rw [hgrou] at hgid
      cases hgid
    · refine committing_setSession rfl ⟨rfl, hall, List.Subperm.refl _, ?_, by simp⟩
      intro gid hgid
      cases hgid

theorem of_step_commit (hses : s.sessions txID = some session)
    (hstep : Deployment.step hash s (.client txID .commit) = some t) :
    t = s.startCommit hash txID session := by
  rw [Deployment.step, hses, bind_some, clientStep] at hstep
  split at hstep
  · cases hstep
    rfl
  · split_ifs at hstep
    cases hstep
    rfl
  · cases hstep

end

/-- A transaction whose `Commit` returned OK has all its writes in the groups that
`Commit` resolved them to exactly when the routing table of that moment sends each of
them to a group that was noted with a write or holds a recorded read. -/
theorem commit_keeps_writes_iff {s s₁ s₂ : Deployment} {txID : String} {session session₂ : Session}
    {plan : CommitPlan} (hses : s.sessions txID = some session)
    (hcom : step hash s (.client txID .commit) = some s₁)
    (hrun : (system hash).Run (fun _ a => callsCommit txID a = false) s₁ s₂)
    (hses₂ : s₂.sessions txID = some session₂) (hok : session₂.phase = .returned plan .ok) :
    s₂.Kept hash txID session plan ↔ session.routed hash = true := by
  have hsta : s₁.Committing txID session.handle
      (session.handle.plan (session.router.resolve hash)) := by
    rw [of_step_commit hses hcom]
    exact Committing.start
  obtain ⟨session', hses', -, hp⟩ := hrun.preserves
    (I := fun s => s.Committing txID session.handle
      (session.handle.plan (session.router.resolve hash)))
    (fun _ _ _ hc ha hstep => hc.step ha hstep) hsta
  rw [hses₂] at hses'
  cases hses'
  rw [hok] at hp
  obtain ⟨rfl, hall, hdone⟩ := hp rfl
  have hgroups : ∀ wk ∈ session.handle.writes, 0 ≤ session.router.resolve hash wk.key := by
    intro wk hwk
    exact of_decide_eq_true (length_filter_eq_length_iff.mp hall wk hwk)
  rw [Session.routed, List.all_eq_true]
  constructor
  · intro hkept wk hwk
    obtain ⟨gid, rfl, -, hmem, -⟩ := hkept wk hwk
    rcases mem_allGroups.mp hmem with hnoted | hread
    · simp [hnoted]
    · obtain ⟨⟨rk, hrk, hsame⟩, -⟩ := mem_readGroups.mp hread
      rw [Bool.or_eq_true, List.any_eq_true]
      exact Or.inr ⟨rk, hrk, decide_eq_true hsame⟩
  · intro hrou wk hwk
    have hpart : session.router.resolve hash wk.key ∈
        session.handle.allGroups (session.router.resolve hash) := by
      rw [mem_allGroups, mem_readGroups]
      have hr := hrou wk hwk
      rw [Bool.or_eq_true, decide_eq_true_eq, List.any_eq_true] at hr
      rcases hr with hnoted | ⟨rk, hrk, hsame⟩
      · exact Or.inl hnoted
      · exact Or.inr ⟨⟨rk, hrk, of_decide_eq_true hsame⟩, hgroups wk hwk⟩
    obtain ⟨hack, htold⟩ := hdone _ hpart
    refine ⟨_, rfl, ⟨_, ?_, hack⟩, hpart, htold⟩
    exact mem_groupWriteKeys.mpr ⟨hwk, hgroups wk hwk, rfl⟩

def Committed (session : Session) : Prop := ∃ plan, session.phase = .returned plan .ok

instance (session : Session) : Decidable (Committed session) :=
  match hph : session.phase with
  | .returned plan err =>
    if herr : err = .ok then isTrue ⟨plan, by rw [hph, herr]⟩
    else isFalse (by rintro ⟨plan', h⟩; rw [hph] at h; cases h; exact herr rfl)
  | .active | .preparing .. | .committing .. | .aborting .. | .rollingBack .. | .rolledBack =>
    isFalse (by rintro ⟨plan', h⟩; rw [hph] at h; cases h)

theorem commit_keeps_writes_sample : ∃ (s : Deployment) (session : Session) (plan : CommitPlan),
    s.sessions "t" = some session ∧ session.phase = .returned plan .ok ∧
      session.handle.writes.length = 2 ∧ ∃ session₀, session₀.handle.writes.length = 2 ∧
        s.Kept (fun key => if key = "k" then 0 else 1) "t" session₀ plan := by
  have hall : ((system fun key => if key = "k" then 0 else 1).exec emptyGroups
      (sampleCommit.take 3)).any (fun s => (s.sessions "t").any fun session =>
        session.handle.writes.length = 2 ∧
        session.routed (fun key => if key = "k" then 0 else 1) = true ∧
        ((system fun key => if key = "k" then 0 else 1).step s (.client "t" .commit)).any
          (fun s₁ => ((system fun key => if key = "k" then 0 else 1).execOk
            (fun _ a => callsCommit "t" a = false) s₁ (sampleCommit.drop 4)).any fun s₂ =>
              (s₂.sessions "t").any fun session₂ => Committed session₂ ∧
                session₂.handle.writes.length = 2) = true) = true := by
    decide +kernel
  obtain ⟨s, -, hs⟩ := (any_eq_true _ _).mp hall
  obtain ⟨session, hses, hrest⟩ := (any_eq_true _ _).mp hs
  obtain ⟨hwri, hrou, hrest⟩ := of_decide_eq_true hrest
  obtain ⟨s₁, hcom, hrest⟩ := (any_eq_true _ _).mp hrest
  obtain ⟨s₂, hrun, hrest⟩ := (any_eq_true _ _).mp hrest
  obtain ⟨session₂, hses₂, hrest⟩ := (any_eq_true _ _).mp hrest
  obtain ⟨⟨plan, hok⟩, hwri₂⟩ := of_decide_eq_true hrest
  exact ⟨s₂, session₂, plan, hses₂, hok, hwri₂, session, hwri,
    (commit_keeps_writes_iff _ hses hcom (.of_execOk hrun) hses₂ hok).mpr hrou⟩

def sampleMoved : List Action :=
  [.begin "t" twoShards, .client "t" (.put "k" "a" 0), .client "t" (.learnHint "k" 2 ["b"] 1),
    .client "t" .commit, .deliver 1 (.prepareTx ⟨"t", [], [], 10000, 1, [1]⟩) [] ⟨0, 0⟩,
    .client "t" (.prepared 1 (some .ok)), .client "t" .decide,
    .deliver 1 (.recordTxDecision ⟨"t", .committed, [1], [⟨"k", "a", 0, false⟩]⟩) [] ⟨0, 0⟩,
    .client "t" (.decided true), .deliver 1 (.commitTx ⟨"t", []⟩) [] ⟨0, 0⟩]

theorem moved_write_is_dropped : ∃ s, (system fun _ => 0).Reachable Lib.System.anyStep s ∧
    ∃ session, s.sessions "t" = some session ∧ Committed session ∧
      session.handle.writes = [⟨"k", "a", 0, false⟩] ∧
      session.router.resolve (fun _ => 0) "k" = 2 ∧
      (∀ m ∈ s.network, ∀ req, m ≠ .call 2 req) ∧ (s.groups 1).store["k"]? = none := by
  obtain ⟨s, hrun, hmsgs, hsto, hses⟩ := Lib.System.exists_of_exec (system fun _ => 0)
    emptyGroups sampleMoved
    (fun s => (s.network.all fun | .call gid _ => gid ≠ 2 | _ => true) = true ∧
      (s.groups 1).store["k"]? = none ∧ (s.sessions "t").any (fun session => Committed session ∧
      session.handle.writes = [⟨"k", "a", 0, false⟩] ∧
      session.router.resolve (fun _ => 0) "k" = 2) = true)
    (by decide +kernel)
  obtain ⟨session, hs, hrest⟩ := (any_eq_true _ _).mp hses
  obtain ⟨hok, hwri, hres⟩ := of_decide_eq_true hrest
  have hinit : (system fun _ => 0).init emptyGroups :=
    ⟨rfl, fun _ => rfl, fun _ => ⟨rfl, rfl, fun _ => rfl⟩⟩
  refine ⟨s, .of_exec hinit hrun, session, hs, hok, hwri, hres, ?_, hsto⟩
  rintro m hm req rfl
  exact absurd (List.all_eq_true.mp hmsgs _ hm) (by simp)

end Deployment

end OrbisKV.KV
