import OrbisKV.Lib.Transition
import Mathlib.Data.List.Nodup
import Mathlib.Logic.Function.Basic
/-!
# The watch manager

Critical sections of `Subscribe`, `Unsubscribe`, `Notify`, the two loops and `Close`.
`Unsubscribe` takes the watcher out of the map in one section and closes its channel after
it; expiry and `Close` do both in one.  A watcher is known by its id, `W` is the rest of it.
-/

namespace OrbisKV.Watch

open Lib

structure Manager (W E : Type) where
  watchers : List (Nat × W) := []
  /-- The channels of the watchers, by their ids: whether they are closed, and the events
  that were sent. -/
  closed : Nat → Bool := fun _ => false
  sent : Nat → List E := fun _ => []
  nextID : Nat := 1
  eventCh : List E := []
  deadLetterCh : List E := []
  done : Bool := false
  /-- `ActiveWatchers` of the statistics. -/
  activeWatchers : Int := 0
  /-- The event that `processLoop` has taken, and whether the two loops run. -/
  current : Option E := none
  processing : Bool := true
  checking : Bool := true
  /-- `Unsubscribe` calls behind their section, with their watcher. -/
  closing : List Nat := []
  /-- `Unsubscribe` calls that have closed their channel. -/
  counting : Nat := 0
  /-- `Close` has returned. -/
  finished : Bool := false
  /-- A channel was closed twice, or a closed one was sent to. -/
  panicked : Bool := false

structure Config where
  eventBufferSize : Nat
  dlqSize : Nat
  hasTimeout : Bool

inductive Action (W E : Type)
  | subscribe (w : W)
  | unsubscribe (id : Nat)
  | closeChannel (id : Nat)
  | count
  | notify (e : E) (dlq : Bool)
  | takeEvent (dlq : Bool)
  /-- `room` says which channels have room. -/
  | distribute (room : Nat → Bool)
  | cleanupExpired (expired : Nat → Bool)
  | stopProcessing
  | stopChecking
  | closeDone
  | closeWatchers

namespace Manager

variable {W E : Type} (config : Config) (matching : W → E → Bool)

def ids (m : Manager W E) : List Nat := m.watchers.map Prod.fst

def close (m : Manager W E) (id : Nat) : Manager W E :=
  if m.closed id then { m with panicked := true }
  else { m with closed := Function.update m.closed id true }

/-- The share of one watcher in `distributeEvent`. -/
def send (e : E) (room : Nat → Bool) (m : Manager W E) (w : Nat × W) : Manager W E :=
  if !matching w.2 e then m
  else if m.closed w.1 then { m with panicked := true }
  else if room w.1 then { m with sent := Function.update m.sent w.1 (m.sent w.1 ++ [e]) }
  else m

def step (m : Manager W E) : Action W E → Option (Manager W E)
  | .subscribe w =>
    if 10000 ≤ m.watchers.length then some m
    else
      some { m with
        watchers := m.watchers ++ [(m.nextID + 1, w)]
        nextID := m.nextID + 1
        activeWatchers := m.activeWatchers + 1 }
  | .unsubscribe id =>
    if id ∈ m.ids then
      some { m with watchers := m.watchers.filter (·.1 ≠ id), closing := m.closing ++ [id] }
    else some m
  | .closeChannel id =>
    if id ∈ m.closing then
      some { m.close id with closing := m.closing.erase id, counting := m.counting + 1 }
    else none
  | .count =>
    if 0 < m.counting then
      some { m with counting := m.counting - 1, activeWatchers := m.activeWatchers - 1 }
    else none
  | .notify e dlq =>
    if dlq then
      if m.deadLetterCh.length < config.dlqSize then
        some { m with deadLetterCh := m.deadLetterCh ++ [e] }
      else none
    else if m.eventCh.length < config.eventBufferSize then
      some { m with eventCh := m.eventCh ++ [e] }
    else none
  | .takeEvent dlq =>
    if m.processing ∧ m.current.isNone then
      match (if dlq then m.deadLetterCh else m.eventCh) with
      | [] => none
      | e :: es =>
        some (if dlq then { m with current := some e, deadLetterCh := es }
          else { m with current := some e, eventCh := es })
    else none
  | .distribute room =>
    m.current.map fun e =>
      { m.watchers.foldl (send matching e room) m with current := none }
  | .cleanupExpired expired =>
    if m.checking ∧ config.hasTimeout then
      some { (m.ids.filter expired).foldl close m with
        watchers := m.watchers.filter fun w => !expired w.1
        activeWatchers := m.activeWatchers - (m.ids.filter expired).length }
    else none
  | .stopProcessing =>
    if m.done ∧ m.current.isNone then some { m with processing := false } else none
  | .stopChecking => if m.done then some { m with checking := false } else none
  | .closeDone => if m.done then none else some { m with done := true }
  | .closeWatchers =>
    if m.done ∧ !m.processing ∧ !m.checking ∧ !m.finished then
      some { m.ids.foldl close m with watchers := [], finished := true }
    else none

def system : System (Manager W E) (Action W E) where
  init m := m = {}
  step := step config matching

variable {config matching} {m m' : Manager W E} {e : E} {room : Nat → Bool}

/-- A registered watcher and one that `Unsubscribe` is about to close have open channels,
and are not the same; the counter counts both and the calls behind their `close`. -/
structure Inv (m : Manager W E) : Prop where
  nodup : (m.ids ++ m.closing).Nodup
  known : ∀ id ∈ m.ids ++ m.closing, id ≤ m.nextID
  opened : ∀ id ∈ m.ids ++ m.closing, m.closed id = false
  fresh : ∀ id, m.nextID < id → m.closed id = false
  active : m.finished = false → m.activeWatchers = m.watchers.length + m.closing.length + m.counting
  safe : m.panicked = false

theorem foldl_close {ids : List Nat} (hnodup : ids.Nodup)
    (hopen : ∀ id ∈ ids, m.closed id = false) :
    ids.foldl close m = { m with closed := fun id => decide (id ∈ ids) || m.closed id } := by
  induction ids generalizing m with
  | nil => simp
  | cons id ids ih =>
    rw [List.nodup_cons] at hnodup
    rw [List.forall_mem_cons] at hopen
    have hclose : m.close id = { m with closed := Function.update m.closed id true } := by
      rw [close, hopen.1]
      rfl
    have hne : ∀ x ∈ ids, x ≠ id := fun x hx heq => hnodup.1 (heq ▸ hx)
    rw [List.foldl_cons, hclose, ih hnodup.2 fun x hx =>
      (Function.update_of_ne (hne x hx) _ _).trans (hopen.2 x hx)]
    congr 1
    funext x
    by_cases hx : x = id
    · simp [hx]
    · simp [hx]

theorem foldl_send {ws : List (Nat × W)} (hopen : ∀ w ∈ ws, m.closed w.1 = false) :
    ∃ sent, ws.foldl (send matching e room) m = { m with sent := sent } ∧
      ∀ id, id ∉ ws.map Prod.fst → sent id = m.sent id := by
  induction ws generalizing m with
  | nil => exact ⟨m.sent, rfl, fun _ _ => rfl⟩
  | cons w ws ih =>
    rw [List.forall_mem_cons] at hopen
    have hsend : ∃ sent, send matching e room m w = { m with sent := sent } ∧
        ∀ id, id ≠ w.1 → sent id = m.sent id := by
      unfold send
      simp only [hopen.1, Bool.false_eq_true, if_false]
      split_ifs
      · exact ⟨m.sent, rfl, fun _ _ => rfl⟩
      · exact ⟨_, rfl, fun id hid => Function.update_of_ne hid _ _⟩
      · exact ⟨m.sent, rfl, fun _ _ => rfl⟩
    obtain ⟨sent, heq, hother⟩ := hsend
    rw [List.foldl_cons, heq]
    obtain ⟨sent', heq', hother'⟩ := @ih { m with sent := sent } hopen.2
    refine ⟨sent', heq', fun id hid => ?_⟩
    rw [List.map_cons, List.mem_cons, not_or] at hid
    exact (hother' id hid.2).trans (hother id hid.1)

/-- What a step from `m` leaves behind: ids are not given out twice, and only registered
watchers are sent to. -/
structure Next (m m' : Manager W E) : Prop where
  inv : m'.Inv
  next : m.nextID ≤ m'.nextID
  ids : ∀ id ≤ m.nextID, id ∈ m'.ids → id ∈ m.ids
  sent : ∀ id ∉ m.ids, m'.sent id = m.sent id

theorem Inv.same (h : m.Inv) (hwatchers : m'.watchers = m.watchers) (hclosed : m'.closed = m.closed)
    (hclosing : m'.closing = m.closing) (hnext : m'.nextID = m.nextID)
    (hactive : m'.activeWatchers - m'.counting = m.activeWatchers - m.counting)
    (hfinished : m'.finished = m.finished) (hsafe : m'.panicked = m.panicked)
    (hsent : ∀ id ∉ m.ids, m'.sent id = m.sent id) : Next m m' := by
  have hids : m'.ids = m.ids := by rw [ids, ids, hwatchers]
  refine ⟨?_, Nat.le_of_eq hnext.symm, fun id _ hid => hids ▸ hid, hsent⟩
  constructor
  · rw [hids, hclosing]
    exact h.nodup
  · rw [hids, hclosing, hnext]
    exact h.known
  · rw [hids, hclosing, hclosed]
    exact h.opened
  · rw [hnext, hclosed]
    exact h.fresh
  · intro hfin
    have := h.active (hfinished ▸ hfin)
    rw [hwatchers, hclosing]
    omega
  · exact hsafe.trans h.safe

theorem Inv.shrink (h : m.Inv) {watchers : List (Nat × W)} {closing : List Nat} {gone : Nat → Bool}
    {active : Int} {counting : Nat} {finished : Bool}
    (hsub : (watchers.map Prod.fst).Sublist m.ids)
    (hnodup : (watchers.map Prod.fst ++ closing).Nodup)
    (hleft : watchers.map Prod.fst ++ closing ⊆ m.ids ++ m.closing)
    (hopen : ∀ id, gone id → id ∈ m.ids ++ m.closing ∧ id ∉ watchers.map Prod.fst ++ closing)
    (hactive : finished = false → m.finished = false ∧
      active - watchers.length - closing.length - counting =
        m.activeWatchers - m.watchers.length - m.closing.length - m.counting) :
    Next m { m with
      watchers := watchers
      closed := fun id => gone id || m.closed id
      closing := closing
      activeWatchers := active
      counting := counting
      finished := finished } := by
  have hkept : ∀ id, ¬gone id → m.closed id = false → (gone id || m.closed id) = false := by
    intro id hgone hid
    rw [Bool.eq_false_iff.mpr hgone, hid]
    rfl
  refine ⟨?_, Nat.le_refl _, fun id _ hid => hsub.subset hid, fun _ _ => rfl⟩
  constructor
  · exact hnodup
  · exact fun id hid => h.known id (hleft hid)
  · exact fun id hid => hkept id (fun hgone => (hopen id hgone).2 hid) (h.opened id (hleft hid))
  · refine fun id hid => hkept id (fun hgone => ?_) (h.fresh id hid)
    exact absurd (h.known id (hopen id hgone).1) (Nat.not_le.mpr hid)
  · intro hfin
    have := h.active (hactive hfin).1
    have := (hactive hfin).2
    dsimp only
    omega
  · exact h.safe

theorem ids_filter (keep : Nat → Bool) :
    (m.watchers.filter fun w => keep w.1).map Prod.fst = m.ids.filter keep := by
  rw [ids, List.filter_map]
  rfl

section

variable (h : m.Inv)

include h

theorem Inv.remove (gone : Nat → Bool) {active : Int} {finished : Bool}
    (hactive : finished = false → ((m.ids.filter gone).foldl close m).finished = false ∧
      active = m.activeWatchers - (m.ids.filter gone).length) :
    Next m { (m.ids.filter gone).foldl close m with
      watchers := m.watchers.filter fun w => !gone w.1
      activeWatchers := active
      finished := finished } := by
  obtain ⟨hnodup, -, hapart⟩ := List.nodup_append.mp h.nodup
  rw [foldl_close (hnodup.filter _) fun id hid =>
    h.opened id (List.mem_append_left _ (List.mem_of_mem_filter hid))] at hactive ⊢
  have hids : (m.watchers.filter fun w => !gone w.1).map Prod.fst =
      m.ids.filter fun id => !gone id := ids_filter fun id => !gone id
  have hsub : ((m.watchers.filter fun w => !gone w.1).map Prod.fst).Sublist m.ids := by
    rw [hids]
    exact List.filter_sublist
  have hboth := hsub.append_right m.closing
  refine h.shrink hsub (h.nodup.sublist hboth) hboth.subset (fun id hid => ?_)
    fun hfin => ⟨(hactive hfin).1, ?_⟩
  · obtain ⟨hmem, hgone⟩ := List.mem_filter.mp (of_decide_eq_true hid)
    refine ⟨List.mem_append_left _ hmem, fun hleft => ?_⟩
    rcases List.mem_append.mp hleft with hkept | hother
    · rw [hids] at hkept
      simp [hgone] at hkept
    · exact hapart id hmem id hother rfl
  · have hlen := congrArg List.length hids
    have hsplit := List.length_eq_length_filter_add gone (l := m.ids)
    rw [List.length_map] at hlen
    rw [ids, List.length_map, ← ids] at hsplit
    have := (hactive hfin).2
    dsimp only
    omega

theorem Next.refl : Next m m :=
  ⟨h, Nat.le_refl _, fun _ _ hid => hid, fun _ _ => rfl⟩

theorem Inv.subscribe {w : W}
    (hstep : m.step config matching (.subscribe w) = some m') : Next m m' := by
  simp only [Manager.step] at hstep
  split_ifs at hstep
  · cases hstep
    exact .refl h
  · cases hstep
    have hperm : ((m.watchers ++ [(m.nextID + 1, w)]).map Prod.fst ++ m.closing).Perm
        ((m.nextID + 1) :: (m.ids ++ m.closing)) := by
      rw [List.map_append, List.append_assoc]
      exact List.perm_middle
    have hnew : m.nextID + 1 ∉ m.ids ++ m.closing := fun hid =>
      absurd (h.known _ hid) (by omega)
    refine ⟨?_, Nat.le_succ _, fun id hle hid => ?_, fun _ _ => rfl⟩
    · refine ⟨hperm.nodup_iff.mpr (List.nodup_cons.mpr ⟨hnew, h.nodup⟩), fun id hid => ?_,
        fun id hid => ?_, fun id hid => h.fresh id (Nat.lt_of_succ_lt hid),
        fun hfin => ?_, h.safe⟩
      · rcases List.mem_cons.mp (hperm.mem_iff.mp hid) with rfl | hid
        · exact Nat.le_refl _
        · exact Nat.le_succ_of_le (h.known id hid)
      · rcases List.mem_cons.mp (hperm.mem_iff.mp hid) with rfl | hid
        · exact h.fresh _ (Nat.lt_succ_self _)
        · exact h.opened id hid
      · have := h.active hfin
        simp only [List.length_append, List.length_singleton]
        omega
    · simp only [ids, List.map_append, List.mem_append] at hid
      refine hid.resolve_right fun hlast => ?_
      have := List.mem_singleton.mp hlast
      omega

theorem Inv.unsubscribe {id : Nat}
    (hstep : m.step config matching (.unsubscribe id) = some m') : Next m m' := by
  simp only [Manager.step] at hstep
  split_ifs at hstep with hid
  · cases hstep
    have hids : (m.watchers.filter (·.1 ≠ id)).map Prod.fst = m.ids.erase id := by
      rw [(List.nodup_append.mp h.nodup).1.erase_eq_filter, ids_filter fun x => decide (x ≠ id)]
      exact List.filter_congr fun x _ => by simp [bne, beq_eq_decide]
    have hperm : ((m.watchers.filter (·.1 ≠ id)).map Prod.fst ++ (m.closing ++ [id])).Perm
        (m.ids ++ m.closing) := by
      rw [hids, ← List.append_assoc]
      exact (List.perm_append_singleton id _).trans
        ((List.perm_cons_erase hid).symm.append_right m.closing)
    have hnone : ∀ x, false = true → x ∈ m.ids ++ m.closing ∧
        x ∉ (m.watchers.filter (·.1 ≠ id)).map Prod.fst ++ (m.closing ++ [id]) := nofun
    refine h.shrink (hids ▸ List.erase_sublist) (hperm.nodup_iff.mpr h.nodup) hperm.subset hnone
      fun hfin => ⟨hfin, ?_⟩
    have hlen := hperm.length_eq
    simp only [List.length_append, List.length_map, ids] at hlen ⊢
    omega
  · cases hstep
    exact .refl h

theorem Inv.closeChannel {id : Nat}
    (hstep : m.step config matching (.closeChannel id) = some m') : Next m m' := by
  obtain ⟨-, hclosing, hapart⟩ := List.nodup_append.mp h.nodup
  simp only [Manager.step] at hstep
  split_ifs at hstep with hid
  cases hstep
  have hclose : m.close id = { m with closed := fun x => decide (x = id) || m.closed x } := by
    have := @foldl_close _ _ m [id] (List.nodup_singleton id) fun x hx =>
      h.opened x (List.mem_append_right _ (List.mem_singleton.mp hx ▸ hid))
    simpa using this
  rw [hclose]
  have hsub : (m.ids ++ m.closing.erase id).Sublist (m.ids ++ m.closing) :=
    List.erase_sublist.append_left m.ids
  refine h.shrink (List.Sublist.refl _) (h.nodup.sublist hsub) hsub.subset (fun x hx => ?_)
    fun hfin => ⟨hfin, ?_⟩
  · obtain rfl := of_decide_eq_true hx
    refine ⟨List.mem_append_right _ hid, fun hleft => ?_⟩
    rcases List.mem_append.mp hleft with hx | hx
    · exact hapart x hx x hid rfl
    · exact hclosing.not_mem_erase hx
  · have := List.length_erase_of_mem hid
    have := List.length_pos_of_mem hid
    dsimp only
    omega

theorem Inv.step {a : Action W E} (hstep : m.step config matching a = some m') :
    Next m m' := by
  cases a with
  | subscribe w => exact h.subscribe hstep
  | unsubscribe id => exact h.unsubscribe hstep
  | closeChannel id => exact h.closeChannel hstep
  | count =>
    simp only [Manager.step] at hstep
    split_ifs at hstep with hpos
    cases hstep
    exact h.same rfl rfl rfl rfl (by dsimp only; omega) rfl rfl fun _ _ => rfl
  | notify e dlq =>
    simp only [Manager.step] at hstep
    split_ifs at hstep <;> cases hstep <;> exact h.same rfl rfl rfl rfl rfl rfl rfl fun _ _ => rfl
  | takeEvent dlq =>
    simp only [Manager.step] at hstep
    split at hstep
    · split at hstep
      · cases hstep
      · cases hstep
        cases dlq <;> exact h.same rfl rfl rfl rfl rfl rfl rfl fun _ _ => rfl
    · cases hstep
  | distribute room =>
    obtain ⟨e, -, rfl⟩ := Option.map_eq_some_iff.mp hstep
    obtain ⟨sent, heq, hother⟩ := @foldl_send _ _ matching m e room m.watchers fun w hw =>
      h.opened w.1 (List.mem_append_left _ (List.mem_map_of_mem hw))
    rw [heq]
    exact h.same rfl rfl rfl rfl rfl rfl rfl hother
  | cleanupExpired expired =>
    simp only [Manager.step] at hstep
    split_ifs at hstep
    cases hstep
    exact h.remove expired fun hfin => ⟨hfin, rfl⟩
  | closeWatchers =>
    simp only [Manager.step] at hstep
    split_ifs at hstep
    cases hstep
    have hall := @Inv.remove _ _ _ h (fun _ => true) (m.ids.foldl close m).activeWatchers true nofun
    rw [List.filter_true] at hall
    simpa using hall
  | _ =>
    simp only [Manager.step] at hstep
    split_ifs at hstep
    cases hstep
    exact h.same rfl rfl rfl rfl rfl rfl rfl fun _ _ => rfl

end

theorem Inv.of_reachable (h : (system config matching).Reachable anyStep m) : m.Inv := by
  refine h.invariant ?_ fun s a t hs _ hstep => (hs.step hstep).inv
  rintro s rfl
  exact ⟨List.nodup_nil, nofun, nofun, fun _ _ => rfl, fun _ => rfl, rfl⟩

/-- Nothing is sent on a closed channel and none is closed twice (`panicked`); an id that was
given out and is not registered any more is sent nothing; and the counter is right whenever no
`Unsubscribe` is between its section and its end. -/
theorem watcher_channels_safe (h : (system config matching).Reachable anyStep m) :
    m.panicked = false ∧ (m.finished = false → m.closing = [] → m.counting = 0 →
        m.activeWatchers = m.watchers.length) ∧
      ∀ id, id ≤ m.nextID → id ∉ m.ids → ∀ m', (system config matching).Run anyStep m m' →
        id ∉ m'.ids ∧ m'.sent id = m.sent id := by
  have hinv := Inv.of_reachable h
  refine ⟨hinv.safe, fun hfin hclosing hcounting => ?_, fun id hle hid m' hrun => ?_⟩
  · rw [hinv.active hfin, hclosing, hcounting]
    simp
  · have hkept : m'.Inv ∧ id ≤ m'.nextID ∧ id ∉ m'.ids ∧ m'.sent id = m.sent id := by
      refine hrun.preserves (I := fun s =>
        s.Inv ∧ id ≤ s.nextID ∧ id ∉ s.ids ∧ s.sent id = m.sent id) ?_ ⟨hinv, hle, hid, rfl⟩
      rintro s a t ⟨hs, hle, hid, hsent⟩ - hstep
      have hnext := hs.step hstep
      exact ⟨hnext.inv, Nat.le_trans hle hnext.next, fun hmem => hid (hnext.ids id hle hmem),
        (hnext.sent id hid).trans hsent⟩
    exact ⟨hkept.2.2.1, hkept.2.2.2⟩

theorem watcher_channels_safe_sample :
    ∃ m m' : Manager Unit Nat, m.sent 2 = [7] ∧ m'.sent 3 = [8] ∧ m'.sent 2 = m.sent 2 := by
  let sys : System (Manager Unit Nat) (Action Unit Nat) := system ⟨1, 1, true⟩ fun _ _ => true
  let publish (n : Nat) : List (Action Unit Nat) :=
    [.subscribe (), .notify n false, .takeEvent false, .distribute fun _ => true]
  obtain ⟨m, hm, hsent, hle, hid⟩ := System.exists_of_exec sys {} (publish 7 ++ [.unsubscribe 2])
    (fun m => m.sent 2 = [7] ∧ 2 ≤ m.nextID ∧ 2 ∉ m.ids) (by decide)
  obtain ⟨m', hm', hsent'⟩ := System.exists_of_exec sys {}
    (publish 7 ++ [.unsubscribe 2] ++ publish 8)
    (fun m => m.sent 3 = [8]) (by decide)
  obtain ⟨-, -, hkept⟩ := watcher_channels_safe (.of_exec rfl hm)
  exact ⟨m, m', hsent, hsent', (hkept 2 hle hid m' (.of_exec (System.exec_of_append hm hm'))).2⟩

end Manager

end OrbisKV.Watch
