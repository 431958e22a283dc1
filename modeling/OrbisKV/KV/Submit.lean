import OrbisKV.KV.Rsm
import OrbisKV.Raft.Provenance
/-!
# Whose command a call of Submit answers for

A waiter is found by the log index it waits at and recognised by the node and the number
in its `Op`.
-/

namespace OrbisKV.KV

open Lib Function KV.Group List Option SubmitCall

variable {n : Nat} {σ Req Res : Type}

namespace SubmitCall

variable {executed : List (Execution n Req Res)} {k : Nat} {c : SubmitCall n Req Res}

def Own (executed : List (Execution n Req Res)) (k : Nat) (c : SubmitCall n Req Res)
    (value : Res) : Prop :=
  ∃ index, c.index = some index ∧ ⟨c.oper.me, index, ⟨c.oper, k⟩, value⟩ ∈ executed

structure Sound (executed : List (Execution n Req Res)) (k : Nat)
    (c : SubmitCall n Req Res) : Prop where
  called : c.phase = .called → c.index = none
  result : ∀ value, c.result = some value → c.Own executed k value
  done : c.done = some true → c.result ≠ none
  outcome : ∀ result, c.phase.outcome = some (.ok, result) →
    ∃ value, result = some value ∧ c.Own executed k value

theorem Sound.mono {executed' : List (Execution n Req Res)}
    (hsub : ∀ e ∈ executed, e ∈ executed') (h : c.Sound executed k) : c.Sound executed' k := by
  have hown : ∀ value, c.Own executed k value → c.Own executed' k value := by
    rintro value ⟨index, hix, hmem⟩
    exact ⟨index, hix, hsub _ hmem⟩
  refine ⟨h.called, fun value hval => hown value (h.result value hval), h.done, ?_⟩
  intro result hres
  obtain ⟨value, hval, howns⟩ := h.outcome result hres
  exact ⟨value, hval, hown value howns⟩

theorem sound_make (oper : Op n Req) : (make oper : SubmitCall n Req Res).Sound executed k where
  called _ := rfl
  result := by rintro value ⟨⟩
  done := by rintro ⟨⟩
  outcome := by rintro result ⟨⟩

section

variable (h : c.Sound executed k)

include h

theorem Sound.setPhase {phase : SubmitPhase Res} (hcal : phase ≠ .called)
    (hout : ∀ result, phase.outcome = some (.ok, result) → c.phase.outcome = some (.ok, result)) :
    { c with phase := phase }.Sound executed k where
  called hph := absurd hph hcal
  result := h.result
  done := h.done
  outcome result hres := h.outcome result (hout result hres)

theorem Sound.started (hph : c.phase = .called) (index : Nat) :
    { c with index := some index, phase := .started }.Sound executed k where
  called := by rintro ⟨⟩
  result := by
    intro value hval
    obtain ⟨_, hix, _⟩ := h.result value hval
    rw [h.called hph] at hix
    cases hix
  done := h.done
  outcome := by rintro result ⟨⟩

theorem Sound.send {ok : Bool}
    (hok : ok = true → c.result ≠ none) : (c.send ok).Sound executed k where
  called := h.called
  result := h.result
  done := by
    intro hdone
    cases hold : c.done with
    | none =>
      rw [SubmitCall.send, hold] at hdone
      exact hok (Option.some.inj hdone)
    | some old =>
      rw [SubmitCall.send, hold] at hdone
      exact h.done (hold.trans hdone)
  outcome := h.outcome

theorem Sound.tell {oper : Op n Req} {value : Res}
    (hown : opEquals c.oper oper = true → c.Own executed k value) :
    (c.tell oper value).Sound executed k := by
  unfold SubmitCall.tell
  split
  · rename_i hequal
    have hsto : { c with result := some value }.Sound executed k := by
      refine ⟨h.called, ?_, by simp, h.outcome⟩
      rintro _ ⟨⟩
      exact hown hequal
    exact hsto.send (by simp)
  · exact h.send (by simp)

theorem Sound.receive {ok : Bool} (hdone : c.done = some ok) : (c.receive ok).Sound executed k where
  called := by
    cases ok <;> rintro ⟨⟩
  result := h.result
  done := by rintro ⟨⟩
  outcome := by
    intro result hres
    cases ok with
    | false => cases hres
    | true =>
      cases hres
      obtain ⟨value, hval⟩ := ne_none_iff_exists'.mp (h.done hdone)
      exact ⟨value, hval, h.result value hval⟩

theorem Sound.lose : c.lose.Sound executed k := by
  unfold SubmitCall.lose
  split
  · exact h
  · exact h.setPhase (by simp) (by rintro result ⟨⟩)

end

@[simp] theorem tell_oper (oper : Op n Req) (value : Res) : (c.tell oper value).oper = c.oper := by
  unfold tell
  split <;> rfl

@[simp] theorem tell_index (oper : Op n Req) (value : Res) :
    (c.tell oper value).index = c.index := by
  unfold tell
  split <;> rfl

@[simp] theorem lose_oper : c.lose.oper = c.oper := by
  unfold lose
  split <;> rfl

@[simp] theorem lose_index : c.lose.index = c.index := by
  unfold lose
  split <;> rfl

end SubmitCall

namespace Group

variable {p : Fin n} {k : Nat} {f : SubmitCall n Req Res → SubmitCall n Req Res}

variable {g : Group n σ Req Res}

def Issued (submits : List (SubmitCall n Req Res)) (command : Command n Req) : Prop :=
  (submits[command.call]?).map oper = some command.oper

def Waits (submits : List (SubmitCall n Req Res)) (p : Fin n) (r : RSM n σ Req Res) : Prop :=
  ∀ index k, r.waitingOps index = some k →
    ∃ c, submits[k]? = some c ∧ c.oper.me = p ∧ c.index = some index

def Applies (g : Group n σ Req Res) (p : Fin n) (r : RSM n σ Req Res) : Prop :=
  ∀ index command value, r.applying = some (.executed index command value) →
    Issued g.submits command ∧ ⟨p, index, command, value⟩ ∈ g.executed

structure Inv (g : Group n σ Req Res) : Prop where
  issued : g.cluster.From (Issued g.submits)
  unique : ∀ (j k : Nat) (c d : SubmitCall n Req Res), g.submits[j]? = some c →
    g.submits[k]? = some d → opEquals c.oper d.oper = true → j = k
  sound : ∀ (k : Nat) (c : SubmitCall n Req Res), g.submits[k]? = some c → c.Sound g.executed k
  waits : ∀ p, Waits g.submits p (g.rsm p)
  applies : ∀ p, g.Applies p (g.rsm p)

theorem inv_boot (state : Fin n → σ) : (boot state : Group n σ Req Res).Inv where
  issued := Cluster.from_boot
  unique := by rintro j k c d ⟨⟩
  sound := by rintro k c ⟨⟩
  waits := by rintro p index k ⟨⟩
  applies := by rintro p index command value ⟨⟩

theorem Inv.setCluster (h : g.Inv) {cluster : Cluster n (Command n Req)}
    (hiss : cluster.From (Issued g.submits)) : { g with cluster := cluster }.Inv :=
  { h with issued := hiss }

theorem Inv.setRsm (h : g.Inv) {r : RSM n σ Req Res} (hwaits : Waits g.submits p r)
    (happl : g.Applies p r) : (g.setRsm p r).Inv := by
  exact { h with
    waits := forall_setRsm hwaits h.waits
    applies := forall_setRsm happl h.applies }

theorem Inv.update (h : g.Inv) {f : Nat → SubmitCall n Req Res → SubmitCall n Req Res}
    (hoper : ∀ k c, (f k c).oper = c.oper)
    (hix : ∀ k c, g.submits[k]? = some c → ∀ i, c.index = some i → (f k c).index = some i)
    (hsound : ∀ k c, g.submits[k]? = some c → c.Sound g.executed k → (f k c).Sound g.executed k) :
    (g.update f).Inv := by
  have hget : ∀ k, (g.update f).submits[k]? = (g.submits[k]?).map (f k) :=
    fun k => List.getElem?_mapIdx
  have hiss : ∀ command, Issued g.submits command → Issued (g.update f).submits command := by
    intro command hcom
    rw [Issued, hget, Option.map_map, ← hcom]
    congr 1
    funext c
    exact hoper _ c
  refine ⟨h.issued.mono hiss, ?_, ?_, ?_, ?_⟩
  · intro j k c d hc hd hequal
    rw [hget, map_eq_some_iff] at hc hd
    obtain ⟨c, hc, rfl⟩ := hc
    obtain ⟨d, hd, rfl⟩ := hd
    rw [hoper, hoper] at hequal
    exact h.unique j k c d hc hd hequal
  · intro k c hc
    rw [hget, map_eq_some_iff] at hc
    obtain ⟨c, hc, rfl⟩ := hc
    exact hsound k c hc (h.sound k c hc)
  · intro p index k hk
    obtain ⟨c, hc, hme, hi⟩ := h.waits p index k hk
    refine ⟨f k c, by rw [hget, hc, map_some], by rw [hoper, hme], ?_⟩
    exact hix k c hc index hi
  · intro p index command value happ
    obtain ⟨hcom, hmem⟩ := h.applies p index command value happ
    exact ⟨hiss command hcom, hmem⟩

theorem Inv.modify (h : g.Inv) {k : Option Nat} (hoper : ∀ c, (f c).oper = c.oper)
    (hix : ∀ j c, k = some j → g.submits[j]? = some c →
      ∀ i, c.index = some i → (f c).index = some i)
    (hsound : ∀ j c, k = some j → g.submits[j]? = some c → c.Sound g.executed j →
      (f c).Sound g.executed j) : (g.modify k f).Inv := by
  refine h.update ?_ ?_ ?_
  · intro j c
    split
    · exact hoper c
    · rfl
  · intro j c hc i hi
    split
    · exact hix j c (Eq.symm ‹_›) hc i hi
    · exact hi
  · intro j c hc hold
    split
    · exact hsound j c (Eq.symm ‹_›) hc hold
    · exact hold

theorem Inv.modify_same (h : g.Inv) {k : Option Nat} (hoper : ∀ c, (f c).oper = c.oper)
    (hix : ∀ c, (f c).index = c.index)
    (hsound : ∀ j c, k = some j → g.submits[j]? = some c → c.Sound g.executed j →
      (f c).Sound g.executed j) : (g.modify k f).Inv := by
  refine h.modify hoper ?_ hsound
  intro j c _ _ i hi
  rw [hix, hi]

theorem exists_modify {k : Option Nat} (hoper : ∀ c, (f c).oper = c.oper)
    (hix : ∀ c, (f c).index = c.index) {j : Nat} {c : SubmitCall n Req Res}
    (hc : g.submits[j]? = some c) :
    ∃ d, (g.modify k f).submits[j]? = some d ∧ d.oper = c.oper ∧ d.index = c.index := by
  refine ⟨if some j = k then f c else c, ?_, ?_, ?_⟩
  · rw [modify, update, List.getElem?_mapIdx, hc, map_some]
  · split
    · exact hoper c
    · rfl
  · split
    · exact hix c
    · rfl

section

variable (h : g.Inv)

include h

theorem Inv.setRsm_same {r : RSM n σ Req Res} (hwai : r.waitingOps = (g.rsm p).waitingOps)
    (happ : r.applying = (g.rsm p).applying) : (g.setRsm p r).Inv := by
  refine h.setRsm ?_ ?_
  · intro index k hk
    rw [hwai] at hk
    exact h.waits p index k hk
  · intro index command value hr
    rw [happ] at hr
    exact h.applies p index command value hr

theorem Inv.append {oper : Op n Req} (hfr : ∀ c ∈ g.submits, opEquals c.oper oper = false) :
    { g with submits := g.submits ++ [make oper] }.Inv := by
  have hold : ∀ {k : Nat} {c}, g.submits[k]? = some c →
      (g.submits ++ [make oper])[k]? = some c := by
    intro k c hc
    rw [List.getElem?_append_left (List.getElem?_eq_some_iff.mp hc).1, hc]
  have hcases : ∀ {k : Nat} {c}, (g.submits ++ [make oper])[k]? = some c →
      g.submits[k]? = some c ∨ k = g.submits.length ∧ c = make oper := by
    intro k c hc
    rw [List.getElem?_append] at hc
    split at hc
    · exact Or.inl hc
    · rw [List.getElem?_singleton] at hc
      split_ifs at hc
      cases hc
      exact Or.inr ⟨by omega, rfl⟩
  have hiss : ∀ command, Issued g.submits command → Issued (g.submits ++ [make oper]) command := by
    intro command hcom
    obtain ⟨c, hc, hoper⟩ := map_eq_some_iff.mp hcom
    rw [Issued, hold hc, map_some, hoper]
  refine ⟨h.issued.mono hiss, ?_, ?_, ?_, ?_⟩
  · intro j k c d hc hd hequal
    rcases hcases hc with hc | ⟨rfl, rfl⟩ <;> rcases hcases hd with hd | ⟨rfl, rfl⟩
    · exact h.unique j k c d hc hd hequal
    · have hnew := hfr c (mem_of_getElem? hc)
      cases hnew.symm.trans hequal
    · have hnew := hfr d (mem_of_getElem? hd)
      rw [opEquals_comm] at hnew
      cases hnew.symm.trans hequal
    · rfl
  · intro k c hc
    rcases hcases hc with hc | ⟨_, rfl⟩
    · exact h.sound k c hc
    · exact sound_make oper
  · intro p index k hk
    obtain ⟨c, hc, hrest⟩ := h.waits p index k hk
    exact ⟨c, hold hc, hrest⟩
  · intro p index command value happ
    obtain ⟨hcom, hmem⟩ := h.applies p index command value happ
    exact ⟨hiss command hcom, hmem⟩

theorem Inv.execute (e : Execution n Req Res) : { g with executed := g.executed ++ [e] }.Inv := by
  have hsub : ∀ x ∈ g.executed, x ∈ g.executed ++ [e] := fun x hx => mem_append_left _ hx
  refine { h with sound := ?_, applies := ?_ }
  · intro k c hc
    exact (h.sound k c hc).mono hsub
  · intro p index command value happ
    obtain ⟨hcom, hmem⟩ := h.applies p index command value happ
    exact ⟨hcom, hsub _ hmem⟩

/-- The number that `genID` would give is one that no call of the node has had. -/
def freshId (g : Group n σ Req Res) : Action n σ Req → Bool
  | .submit p req => g.submits.all fun c => !opEquals c.oper ⟨p, (g.rsm p).idCounter + 1, req⟩
  | _ => true

variable {g' : Group n σ Req Res}

theorem Inv.submit {req : Req} (hok : g.freshId (.submit p req) = true)
    (hstep : g.submit p req = some g') : g'.Inv := by
  unfold Group.submit at hstep
  dsimp only at hstep
  split_ifs at hstep
  cases hstep
  have hfr : ∀ c ∈ g.submits, opEquals c.oper ⟨p, (g.rsm p).idCounter + 1, req⟩ = false := by
    intro c hc
    simpa using all_eq_true.mp hok c hc
  exact (h.append hfr).setRsm_same rfl rfl

theorem Inv.start (hstep : g.start k = some g') : g'.Inv := by
  obtain ⟨c, hc, hstep⟩ := bind_eq_some_iff.mp hstep
  split at hstep
  · rename_i hph
    split at hstep
    · cases hstep
      refine h.modify_same (fun _ => rfl) (fun _ => rfl) ?_
      intro j d _ _ hsound
      exact hsound.setPhase (by simp) (by simp [SubmitPhase.outcome])
    · rename_i cluster hclu
      cases hstep
      have hiss : cluster.From (Issued g.submits) := by
        refine h.issued.step ?_ hclu
        rintro p command ⟨⟩
        rw [Issued, hc, map_some]
      have hinv := h.setCluster hiss
      have hcal : ∀ j d, some k = some j → g.submits[j]? = some d → d.phase = .called := by
        rintro j d ⟨⟩ hd
        rw [hc] at hd
        cases hd
        exact hph
      refine hinv.modify (fun _ => rfl) ?_ ?_
      · intro j d hj hd i hi
        rw [(h.sound j d hd).called (hcal j d hj hd)] at hi
        cases hi
      · intro j d hj hd hsound
        exact hsound.started (hcal j d hj hd) _
  · cases hstep

theorem Inv.register (hstep : g.register k = some g') : g'.Inv := by
  obtain ⟨c, hc, hstep⟩ := bind_eq_some_iff.mp hstep
  split at hstep
  · rename_i index hph hix
    cases hstep
    have hsent : (g.modify ((g.rsm c.oper.me).waitingOps index) (·.send false)).Inv :=
      h.modify_same (fun _ => rfl) (fun _ => rfl) fun _ _ _ _ hsound => hsound.send (by simp)
    have hwai := hsent.modify_same (k := some k)
      (f := fun c => { c with phase := .waiting }) (fun _ => rfl) (fun _ => rfl)
      fun _ _ _ _ hsound => hsound.setPhase (by simp) (by simp [SubmitPhase.outcome])
    refine hwai.setRsm ?_ (hwai.applies c.oper.me)
    intro i j hj
    change Function.update (g.rsm c.oper.me).waitingOps index (some k) i = some j at hj
    by_cases hi : i = index
    · subst hi
      rw [update_self] at hj
      cases hj
      obtain ⟨d, hd, hoper, hi⟩ := exists_modify (k := (g.rsm c.oper.me).waitingOps i)
        (f := fun c => c.send false) (fun _ => rfl) (fun _ => rfl) hc
      obtain ⟨e, he, hoper', hi'⟩ := exists_modify (k := some k)
        (f := fun c : SubmitCall n Req Res => { c with phase := .waiting })
        (fun _ => rfl) (fun _ => rfl) hd
      exact ⟨e, he, by rw [hoper', hoper], by rw [hi', hi, hix]⟩
    · rw [update_of_ne hi] at hj
      exact hwai.waits c.oper.me i j hj
  · cases hstep

theorem Inv.receive (hstep : g.receive k = some g') : g'.Inv := by
  obtain ⟨c, hc, hstep⟩ := bind_eq_some_iff.mp hstep
  split at hstep
  · rename_i ok hph hdone
    cases hstep
    refine h.modify_same (fun _ => rfl) (fun _ => rfl) ?_
    rintro j d ⟨⟩ hd hsound
    rw [hc] at hd
    cases hd
    exact hsound.receive hdone
  · cases hstep

theorem Inv.giveUp (hstep : g.giveUp k = some g') : g'.Inv := by
  obtain ⟨c, hc, hstep⟩ := bind_eq_some_iff.mp hstep
  split at hstep
  · cases hstep
    refine h.modify_same (fun _ => rfl) (fun _ => rfl) ?_
    intro j d _ _ hsound
    exact hsound.setPhase (by simp) (by simp [SubmitPhase.outcome])
  · cases hstep

theorem Inv.finish (hstep : g.finish k = some g') : g'.Inv := by
  obtain ⟨c, hc, hstep⟩ := bind_eq_some_iff.mp hstep
  split at hstep
  · rename_i err result index hph hix
    cases hstep
    have hret : (g.modify (some k) fun c => { c with phase := .returned err result }).Inv := by
      refine h.modify_same (fun _ => rfl) (fun _ => rfl) ?_
      rintro j d ⟨⟩ hd hsound
      rw [hc] at hd
      cases hd
      refine hsound.setPhase (by simp) ?_
      rw [hph]
      exact fun _ hres => hres
    refine hret.setRsm ?_ (hret.applies c.oper.me)
    intro i j hj
    change Function.update (g.rsm c.oper.me).waitingOps index none i = some j at hj
    by_cases hi : i = index
    · subst hi
      rw [update_self] at hj
      cases hj
    · rw [update_of_ne hi] at hj
      exact hret.waits c.oper.me i j hj
  · cases hstep

variable {sm : StateMachine σ Req Res} {codec : SnapshotCodec}

theorem Inv.receiveMsg (hstep : g.receiveMsg sm codec p = some g') : g'.Inv := by
  unfold Group.receiveMsg at hstep
  dsimp only at hstep
  split_ifs at hstep
  obtain ⟨msg, hmsg, hstep⟩ := bind_eq_some_iff.mp hstep
  have hfrom := (h.issued.nodes p).applied msg (mem_of_getElem? hmsg)
  split at hstep
  · cases hstep
    exact h.setRsm_same rfl rfl
  · rename_i command index
    obtain ⟨⟨state, value⟩, _, rfl⟩ := map_eq_some_iff.mp hstep
    refine (h.execute ⟨p, index, command, value⟩).setRsm (h.waits p) ?_
    rintro _ _ _ ⟨⟩
    exact ⟨hfrom command rfl, mem_append_right _ mem_cons_self⟩
  · obtain ⟨⟨idctr, smSnapshot⟩, _, rfl⟩ := map_eq_some_iff.mp hstep
    refine h.setRsm (h.waits p) ?_
    rintro _ _ _ ⟨⟩

theorem Inv.own_of_opEquals {index : Nat} {command : Command n Req} {value : Res}
    (happ : (g.rsm p).applying = some (.executed index command value))
    (hwait : (g.rsm p).waitingOps index = some k) {c : SubmitCall n Req Res}
    (hc : g.submits[k]? = some c) (hequal : opEquals c.oper command.oper = true) :
    c.Own g.executed k value := by
  obtain ⟨hiss, hmem⟩ := h.applies p index command value happ
  obtain ⟨d, hd, hoper⟩ := map_eq_some_iff.mp hiss
  obtain ⟨c', hc', rfl, hix⟩ := h.waits p index k hwait
  rw [hc] at hc'
  cases hc'
  rw [← hoper] at hequal
  have hcall : k = command.call := h.unique k command.call c d hc hd hequal
  have hsame : c = d := by
    rw [hcall, hd] at hc
    exact (Option.some.inj hc).symm
  refine ⟨index, hix, ?_⟩
  have hcom : command = ⟨c.oper, k⟩ := by
    rw [hsame, hoper, hcall]
  rwa [hcom] at hmem

theorem Inv.finishMsg {wants : Bool} (hstep : g.finishMsg sm p wants = some g') : g'.Inv := by
  unfold Group.finishMsg at hstep
  dsimp only at hstep
  split at hstep
  · cases hstep
  · rename_i index command value happ
    cases hstep
    have htold : (g.modify ((g.rsm p).waitingOps index) (·.tell command.oper value)).Inv := by
      refine h.modify_same (by simp) (by simp) ?_
      intro k c hk hc hsound
      exact hsound.tell (h.own_of_opEquals happ hk hc)
    refine htold.setRsm (htold.waits p) ?_
    rintro _ _ _ ⟨⟩
  · cases hstep
    refine h.setRsm (h.waits p) ?_
    rintro _ _ _ ⟨⟩

theorem Inv.createSnapshot {j : Nat} (hstep : g.createSnapshot sm codec p j = some g') :
    g'.Inv := by
  unfold Group.createSnapshot at hstep
  dsimp only at hstep
  obtain ⟨⟨index, stage⟩, _, hstep⟩ := bind_eq_some_iff.mp hstep
  dsimp only at hstep
  split at hstep
  · split_ifs at hstep
    cases hstep
    exact h.setRsm_same rfl rfl
  · cases hstep
    exact h.setRsm_same rfl rfl
  · obtain ⟨cluster, hclu, rfl⟩ := map_eq_some_iff.mp hstep
    refine (h.setCluster (h.issued.step ?_ hclu)).setRsm_same rfl rfl
    rintro q command ⟨⟩

theorem Inv.localRead {req : Req} (hstep : g.localRead sm p req = some g') : g'.Inv := by
  unfold Group.localRead at hstep
  dsimp only at hstep
  split_ifs at hstep
  obtain ⟨⟨state, value⟩, _, rfl⟩ := map_eq_some_iff.mp hstep
  exact h.setRsm_same rfl rfl

theorem Inv.dismiss (hstep : g.dismiss p = some g') : g'.Inv := by
  unfold Group.dismiss at hstep
  dsimp only at hstep
  split_ifs at hstep
  cases hstep
  have hsent : (g.update fun k c =>
      if c.index.any (fun index => (g.rsm p).waitingOps index == some k) then c.send false
      else c).Inv := by
    refine h.update ?_ ?_ ?_
    · intro k c
      split <;> rfl
    · intro k c _ i hi
      split <;> exact hi
    · intro k c _ hsound
      split
      · exact hsound.send (by simp)
      · exact hsound
  refine hsent.setRsm ?_ (hsent.applies p)
  rintro index k ⟨⟩

theorem Inv.restart {id : Option Nat} {state : σ}
    (hstep : g.restart sm codec p id state = some g') : g'.Inv := by
  obtain ⟨cluster, hclu, hstep⟩ := bind_eq_some_iff.mp hstep
  obtain ⟨r, hr, rfl⟩ := map_eq_some_iff.mp hstep
  have hcra : { g with cluster := cluster }.Inv := by
    refine h.setCluster (h.issued.step ?_ hclu)
    rintro q command ⟨⟩
  have hlost := hcra.update (f := fun _ c => if c.oper.me = p then c.lose else c) (by
      intro k c
      split
      · exact lose_oper
      · rfl) (by
      intro k c _ i hi
      split
      · rw [lose_index, hi]
      · exact hi) (by
      intro k c _ hsound
      split
      · exact hsound.lose
      · exact hsound)
  have hnew : r.waitingOps = (fun _ => none) ∧ r.applying = none := by
    unfold makeRSM at hr
    split at hr
    · cases hr
      exact ⟨rfl, rfl⟩
    · obtain ⟨⟨idctr, smSnapshot⟩, _, rfl⟩ := map_eq_some_iff.mp hr
      exact ⟨rfl, rfl⟩
  refine hlost.setRsm ?_ ?_
  · intro index k hk
    rw [hnew.1] at hk
    cases hk
  · intro index command value happ
    rw [hnew.2] at happ
    cases happ

theorem Inv.recover {wal : Option (List Req × Nat)}
    (hstep : g.recover sm p wal = some g') : g'.Inv := by
  unfold Group.recover at hstep
  dsimp only at hstep
  split_ifs at hstep
  split at hstep
  · cases hstep
    exact h.setRsm_same rfl rfl
  · obtain ⟨state, _, rfl⟩ := map_eq_some_iff.mp hstep
    refine (h.setCluster ?_).setRsm_same rfl rfl
    have hnode := h.issued.nodes p
    refine ⟨h.issued.update rfl ?_, h.issued.calls⟩
    exact { hnode with log := hnode.log }

theorem Inv.raft {a : OrbisKV.Action n (Command n Req)}
    (hstep : g.step sm codec (.raft a) = some g') : g'.Inv := by
  simp only [step] at hstep
  split_ifs at hstep with hinternal
  obtain ⟨cluster, hclu, rfl⟩ := map_eq_some_iff.mp hstep
  refine h.setCluster (h.issued.step ?_ hclu)
  rintro p command rfl
  cases hinternal

theorem Inv.step {a : Action n σ Req} (hok : g.freshId a = true)
    (hstep : g.step sm codec a = some g') : g'.Inv := by
  cases a with
  | submit p req => exact h.submit hok hstep
  | start k => exact h.start hstep
  | register k => exact h.register hstep
  | receive k => exact h.receive hstep
  | giveUp k => exact h.giveUp hstep
  | finish k => exact h.finish hstep
  | receiveMsg p => exact h.receiveMsg hstep
  | finishMsg p wants => exact h.finishMsg hstep
  | createSnapshot p j => exact h.createSnapshot hstep
  | localRead p req => exact h.localRead hstep
  | shutDown p =>
    cases hstep
    exact h.setRsm_same rfl rfl
  | dismiss p => exact h.dismiss hstep
  | restart p id state => exact h.restart hstep
  | recover p wal => exact h.recover hstep
  | raft a => exact h.raft hstep

end

theorem inv_of_reachable {state : Fin n → σ}
    (hg : (system sm codec state).Reachable (fun g a => g.freshId a = true) g) : g.Inv := by
  apply hg.invariant
  · rintro _ rfl
    exact inv_boot state
  · intro g a g' h hok hstep
    exact h.step hok hstep

/-- In every run in which no number is given out twice: a call that returns OK gives back
what `DoOp` returned for the command that this call made, applied at the index that `Start`
returned to it. -/
theorem submit_answers_own_command {state : Fin n → σ}
    (hg : (system sm codec state).Reachable (fun g a => g.freshId a = true) g) {k : Nat}
    {c : SubmitCall n Req Res} (hc : g.submits[k]? = some c) {result : Option Res}
    (hok : c.phase = .returned .ok result) :
    ∃ index value, c.index = some index ∧ result = some value ∧
      ⟨c.oper.me, index, ⟨c.oper, k⟩, value⟩ ∈ g.executed := by
  obtain ⟨value, hval, index, hix, hmem⟩ :=
    ((inv_of_reachable hg).sound k c hc).outcome result (by rw [hok]; rfl)
  exact ⟨index, value, hix, hval, hmem⟩

def answerSeven (p q : Fin n) : List (Action n Nat (Option Nat)) :=
  [.raft (.run p .tick), .raft (.run p .startElection), .raft (.serve 0),
    .raft (.run q .hardStateDone), .raft (.serve 0), .raft (.resume 0), .submit p (some 7),
    .start 0, .register 0, .raft (.run p (.saveDone 0)), .raft (.run p (.completePersist 0)),
    .raft (.run p .sendHeartbeats), .raft (.resume 1), .raft (.serve 1),
    .raft (.run q (.saveDone 0)), .raft (.serve 1), .raft (.serve 1), .raft (.resume 1),
    .raft (.run p .applierCollect), .raft (.run p .applierSend), .receiveMsg p,
    .finishMsg p false, .receive 0, .finish 0]

theorem submit_answers_own_command_first :
    ∃ (g : Group 3 Nat (Option Nat) Nat) (c : SubmitCall 3 (Option Nat) Nat),
      g.submits[0]? = some c ∧ c.phase = .returned .ok (some 7) ∧
      ∃ index, c.index = some index ∧ ⟨c.oper.me, index, ⟨c.oper, 0⟩, 7⟩ ∈ g.executed := by
  obtain ⟨g, hg, hph⟩ := System.exists_of_execOk
    (@system 3 Nat (Option Nat) Nat StateMachine.register .unary fun _ => 0)
    (fun g a => g.freshId a = true) (boot fun _ => 0)
    (answerSeven 0 1)
    (fun g => (g.submits[0]?).map phase = some (.returned .ok (some 7)))
    (by decide +kernel)
  obtain ⟨c, hc, hok⟩ := map_eq_some_iff.mp hph
  obtain ⟨index, value, hix, hval, hmem⟩ := submit_answers_own_command ⟨_, rfl, hg⟩ hc hok
  cases hval
  exact ⟨g, c, hc, hok, index, hix, hmem⟩

theorem reused_id_answers_for_another :
    ∃ g : Group 3 Nat (Option Nat) Nat,
      (system StateMachine.register .unary fun _ => 0).Reachable System.anyStep g ∧
      (g.submits[1]?).map (fun c => (c.oper.req, c.index, c.phase)) =
        some (some 8, some 1, .returned .ok (some 7)) ∧
      g.executed = [⟨0, 1, ⟨⟨0, 1, some 7⟩, 0⟩, 7⟩] :=
  System.exists_reachable_of_exec (boot fun _ => 0)
    [.raft (.run 0 .tick), .raft (.run 0 .startElection), .raft (.serve 0),
      .raft (.run 1 .hardStateDone), .raft (.serve 0), .raft (.resume 0), .submit 0 (some 7),
      .start 0, .register 0, .raft (.run 0 .sendHeartbeats), .raft (.resume 1), .raft (.serve 1),
      .restart 0 none 0, .recover 0 none, .raft (.run 0 .tick), .raft (.run 0 .startElection),
      .raft (.serve 3), .raft (.run 2 .hardStateDone), .raft (.serve 3), .raft (.resume 3),
      .submit 0 (some 8), .start 1, .register 1, .raft (.run 1 .tick),
      .raft (.run 1 .startElection), .raft (.run 1 .tick), .raft (.run 1 .startElection),
      .raft (.serve 6), .raft (.run 2 .hardStateDone), .raft (.serve 6), .raft (.resume 6),
      .submit 1 (some 9), .start 2, .raft (.run 1 (.saveDone 0)), .raft (.run 1 (.saveDone 1)),
      .raft (.run 1 (.completePersist 0)), .raft (.run 1 .sendHeartbeats), .raft (.resume 6),
      .raft (.serve 6), .raft (.run 0 .hardStateDone), .raft (.serve 6), .raft (.serve 6),
      .raft (.resume 6), .raft (.run 1 .sendHeartbeats), .raft (.resume 7), .raft (.serve 7),
      .raft (.run 0 (.saveDone 0)), .raft (.run 0 (.saveDone 1)), .raft (.serve 7),
      .raft (.serve 7), .raft (.resume 7), .raft (.run 1 .sendHeartbeats), .raft (.resume 8),
      .raft (.serve 8), .raft (.run 0 .applierCollect), .raft (.run 0 .applierSend),
      .receiveMsg 0, .finishMsg 0 false, .receive 1, .finish 1] rfl (by decide +kernel)

end Group

end OrbisKV.KV
