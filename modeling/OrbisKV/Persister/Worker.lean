import OrbisKV.Persister.Appends
/-!
# The worker of the persister

Requests wait in one channel for each kind.
-/

namespace OrbisKV.Persist

open Lib List Option

def Request.takeEffect (pair : Bytes × Bytes) : Request → Bytes × Bytes
  | save raftstate snapshot => (raftstate, snapshot.getD pair.2)
  | append payload => ((applied pair.1 payload).getD pair.1, pair.2)

structure SaveRequest where
  raftstate : Bytes
  snapshot : Option Bytes
  number : Nat
deriving DecidableEq, Repr

structure AppendStateRequest where
  data : Bytes
  number : Nat
deriving DecidableEq, Repr

def SaveRequest.call (r : SaveRequest) : Request := .save r.raftstate r.snapshot

def AppendStateRequest.call (r : AppendStateRequest) : Request := .append r.data

/-- `append([]byte(nil), snapshot...)`, which is nil for an empty snapshot as well. -/
def copySnapshot : Option Bytes → Option Bytes
  | some [] => none
  | snapshot => snapshot

structure Worker where
  fp : FilePersister
  reqCh : List SaveRequest := []
  hardReqCh : List Bytes := []
  appendReqCh : List AppendStateRequest := []
  batch : List SaveRequest := []
  hardBatch : List Bytes := []
  appendBatch : List AppendStateRequest := []
  stopped : Bool := false
  start : Bytes × Bytes
  requests : List Request := []
  /-- What the done channels delivered: the number of the request, and whether there was no
  error. -/
  done : List (Nat × Bool) := []

namespace Worker

def defaultBatchSize : Nat := 64

def channelSize : Nat := 1024

def flushHard (w : Worker) : Worker :=
  match w.hardBatch.getLast? with
  | none => w
  | some latestHard => { w with fp := w.fp.commitHardState latestHard, hardBatch := [] }

def flushSaves (w : Worker) : Worker :=
  match w.batch.getLast? with
  | none => w
  | some latest =>
    { w with
      fp := w.fp.commitGeneration latest.raftstate latest.snapshot
      batch := []
      done := w.done ++ w.batch.map fun r => (r.number, true) }

def flushAppends (crc32 : Bytes → UInt32) (w : Worker) : Worker :=
  if w.appendBatch = [] then w
  else
    match w.fp.commitAppendRaftState crc32 (w.appendBatch.map AppendStateRequest.data) with
    | none =>
      { w with
        appendBatch := []
        done := w.done ++ w.appendBatch.map fun r => (r.number, false) }
    | some fp =>
      { w with
        fp := fp
        appendBatch := []
        done := w.done ++ w.appendBatch.map fun r => (r.number, true) }

def flush (crc32 : Bytes → UInt32) (w : Worker) : Worker :=
  w.flushHard.flushSaves.flushAppends crc32

inductive Action
  | enqueueSave (raftstate : Bytes) (snapshot : Option Bytes)
  | enqueueSaveHardState (hardstate : Bytes)
  | enqueueAppendRaftState (data : Bytes)
  | receive
  | receiveHard
  | receiveAppend
  | tick
  | stop

def next (w : Worker) : Nat := w.requests.length

/-- One call of an enqueue function or one round of `runWorker`; `none` where a channel is
full or empty. -/
def step (crc32 : Bytes → UInt32) (w : Worker) : Action → Option Worker
  | .enqueueSave raftstate snapshot =>
    let w' : Worker := { w with requests := w.requests ++ [.save raftstate snapshot] }
    if w.stopped then some { w' with done := w.done ++ [(w.next, false)] }
    else if w.reqCh.length < channelSize then
      some { w' with reqCh := w.reqCh ++ [⟨raftstate, copySnapshot snapshot, w.next⟩] }
    else none
  | .enqueueSaveHardState hardstate =>
    if w.stopped then some w
    else if w.hardReqCh.length < channelSize then
      some { w with hardReqCh := w.hardReqCh ++ [hardstate] }
    else none
  | .enqueueAppendRaftState data =>
    let w' : Worker := { w with requests := w.requests ++ [.append data] }
    if w.stopped then some { w' with done := w.done ++ [(w.next, false)] }
    else if w.appendReqCh.length < channelSize then
      some { w' with appendReqCh := w.appendReqCh ++ [⟨data, w.next⟩] }
    else none
  | .receive =>
    match w.stopped, w.reqCh with
    | false, req :: rest =>
      let w := { w with reqCh := rest, batch := w.batch ++ [req] }
      some (if defaultBatchSize ≤ w.batch.length then w.flush crc32 else w)
    | _, _ => none
  | .receiveHard =>
    match w.stopped, w.hardReqCh with
    | false, req :: rest =>
      let w := { w with hardReqCh := rest, hardBatch := w.hardBatch ++ [req] }
      some (if defaultBatchSize ≤ w.hardBatch.length then w.flush crc32 else w)
    | _, _ => none
  | .receiveAppend =>
    match w.stopped, w.appendReqCh with
    | false, req :: rest =>
      let w := { w with appendReqCh := rest, appendBatch := w.appendBatch ++ [req] }
      some (if defaultBatchSize ≤ w.appendBatch.length then w.flush crc32 else w)
    | _, _ => none
  | .tick => if w.stopped then none else some (w.flush crc32)
  | .stop => if w.stopped then none else some { w.flush crc32 with stopped := true }

/-- The state and the snapshot that the first `k` requests are to lead to. -/
def foldTo (w : Worker) (k : Nat) : Bytes × Bytes :=
  (w.requests.take k).foldl Request.takeEffect w.start

def folded (w : Worker) : Bytes × Bytes := w.requests.foldl Request.takeEffect w.start

/-- Every append is built on the state that the requests before it lead to. -/
def Built (w : Worker) : Action → Prop
  | .enqueueAppendRaftState data => (applied w.folded.1 data).isSome = true
  | _ => True

def saves (w : Worker) : List SaveRequest := w.batch ++ w.reqCh

def appends (w : Worker) : List AppendStateRequest := w.appendBatch ++ w.appendReqCh

/-- A request that does not overtake another one, and that no other one replaces: no append
waits when a save is enqueued, and no save when an append is; and a save without a snapshot
is not enqueued behind a save with one that waits. -/
def InOrder (w : Worker) : Action → Prop
  | .enqueueSave _ snapshot =>
    w.appends = [] ∧ snapshot ≠ some [] ∧ (snapshot = none → ∀ r ∈ w.saves, r.snapshot = none)
  | .enqueueAppendRaftState data => w.saves = [] ∧ data.length < 2 ^ 32
  | _ => True

instance (w : Worker) (action : Action) : Decidable (w.Built action) := by
  cases action <;> dsimp only [Built] <;> infer_instance

instance (w : Worker) (action : Action) : Decidable (w.InOrder action) := by
  cases action <;> dsimp only [InOrder] <;> infer_instance

def NoErrors (w : Worker) : Prop := ∀ n, (n, false) ∉ w.done

def AllDone (w : Worker) : Prop := ∀ n < w.requests.length, ∃ ok, (n, ok) ∈ w.done

/-- A persister with a whole delta file and no snapshot of an older layout, and its worker. -/
def system (crc32 : Bytes → UInt32) : System Worker Action where
  init w := ∃ fp state, FilePersister.Holds crc32 fp state ∧ fp.KeepsSnapshot none ∧
    w = { fp := fp, start := fp.pair crc32 }
  step := step crc32

open FilePersister

/-- The files hold what the first `k` requests lead to, these are the ones that were
acknowledged, and the others wait in order. -/
structure Ordered (crc32 : Bytes → UInt32) (w : Worker) (k : Nat) : Prop where
  holds : Holds crc32 w.fp (w.foldTo k).1
  snapshot : w.fp.readSnapshot = (w.foldTo k).2
  keeps : w.fp.KeepsSnapshot none
  le : k ≤ w.requests.length
  pending : w.requests.drop k = w.saves.map SaveRequest.call ++
    w.appends.map AppendStateRequest.call
  numbers : w.saves.map SaveRequest.number ++ w.appends.map AppendStateRequest.number =
    List.range' k (w.requests.length - k)
  oneKind : w.saves = [] ∨ w.appends = []
  /-- A save without a snapshot has none with one in front of it. -/
  snapshots : w.saves.Pairwise fun r r' => r'.snapshot = none → r.snapshot = none
  built : w.saves = [] →
    appliedAll (w.foldTo k).1 (w.appends.map AppendStateRequest.data) = some w.folded.1
  fit : ∀ r ∈ w.appends, r.data.length < 2 ^ 32
  done : ∀ n, (n, true) ∈ w.done ↔ n < k

variable {crc32 : Bytes → UInt32} {w w' : Worker} {k : Nat}

theorem Ordered.moved (h : Ordered crc32 w k) (hfp : w'.fp = w.fp) (hreq : w'.requests = w.requests)
    (hsv : w'.saves = w.saves) (happ : w'.appends = w.appends) (hdone : w'.done = w.done)
    (hsta : w'.start = w.start) : Ordered crc32 w' k := by
  have hfoldTo : w'.foldTo k = w.foldTo k := by rw [foldTo, foldTo, hreq, hsta]
  have hfol : w'.folded = w.folded := by rw [folded, folded, hreq, hsta]
  constructor <;> simp only [hfp, hreq, hsv, happ, hdone, hfoldTo, hfol]
  exacts [h.holds, h.snapshot, h.keeps, h.le, h.pending, h.numbers, h.oneKind, h.snapshots, h.built,
    h.fit, h.done]

theorem Ordered.flushHard (h : Ordered crc32 w k) : Ordered crc32 w.flushHard k := by
  unfold Worker.flushHard
  split
  · exact h
  · rename_i latest _
    obtain ⟨hholds, hsnap⟩ := h.holds.commitHardState latest
    refine ⟨hholds, hsnap.trans h.snapshot, ?_, h.le, h.pending, h.numbers, h.oneKind, h.snapshots,
      h.built, h.fit, h.done⟩
    intro hnone hrel
    exact hsnap.trans (h.keeps hnone hrel)

theorem foldl_saves {rs : List SaveRequest} {latest : SaveRequest}
    (hlast : rs.getLast? = some latest)
    (hsnap : rs.Pairwise fun r r' => r'.snapshot = none → r.snapshot = none)
    (pair : Bytes × Bytes) :
    (rs.map SaveRequest.call).foldl Request.takeEffect pair =
      (latest.raftstate, latest.snapshot.getD pair.2) := by
  induction rs generalizing pair with
  | nil => cases hlast
  | cons r rs ih =>
    rw [List.map_cons, List.foldl_cons]
    cases hrs : rs.getLast? with
    | none =>
      rw [List.getLast?_eq_none_iff] at hrs
      subst hrs
      cases hlast
      rfl
    | some last =>
      have hlat : last = latest := by
        rw [List.getLast?_cons, hrs] at hlast
        exact Option.some.inj hlast
      subst hlat
      rw [List.pairwise_cons] at hsnap
      rw [ih hrs hsnap.2]
      have hmem : last ∈ rs := List.mem_of_getLast? hrs
      cases hs : last.snapshot with
      | some data => rfl
      | none => simp [SaveRequest.call, Request.takeEffect, hsnap.1 last hmem hs]

theorem range'_split {xs ys : List Nat} {n : Nat} (h : xs ++ ys = List.range' k n) :
    xs = List.range' k xs.length ∧ ys = List.range' (k + xs.length) (n - xs.length) := by
  have hlen : xs.length + ys.length = n := by
    have hall := congrArg List.length h
    simpa using hall
  have hsplit : List.range' k n =
      List.range' k xs.length ++ List.range' (k + xs.length) (n - xs.length) := by
    rw [List.range'_append_1]
    congr 1
    omega
  rw [hsplit] at h
  exact List.append_inj h (by simp)

theorem foldTo_add (w : Worker) (k n : Nat) :
    w.foldTo (k + n) = ((w.requests.drop k).take n).foldl Request.takeEffect (w.foldTo k) := by
  rw [foldTo, List.take_add, List.foldl_append]
  rfl

theorem foldTo_of_drop (h : w.requests.drop k = []) : w.foldTo k = w.folded := by
  rw [foldTo, List.take_of_length_le (List.drop_eq_nil_iff.mp h)]
  rfl

theorem le_of_drop {α : Type} {requests : List Request} {batch : List α} {call : α → Request}
    {rest : List Request} (h : requests.drop k = batch.map call ++ rest)
    (hk : k ≤ requests.length) : k + batch.length ≤ requests.length := by
  have hlen := congrArg List.length h
  rw [List.length_drop, List.length_append, List.length_map] at hlen
  omega

theorem done_batch {done : List (Nat × Bool)} {numbers : List Nat} {n : Nat}
    (hdone : ∀ n, (n, true) ∈ done ↔ n < k) (hnum : numbers = List.range' k numbers.length) :
    (n, true) ∈ done ++ numbers.map (fun i => (i, true)) ↔ n < k + numbers.length := by
  have hmem : (n, true) ∈ numbers.map (fun i => (i, true)) ↔ k ≤ n ∧ n < k + numbers.length := by
    rw [List.mem_map]
    constructor
    · rintro ⟨i, hi, heq⟩
      obtain rfl : i = n := (Prod.mk.inj heq).1
      rw [hnum, List.mem_range'_1] at hi
      exact hi
    · intro hn
      refine ⟨n, ?_, rfl⟩
      rw [hnum, List.mem_range'_1]
      exact hn
  rw [List.mem_append, hdone, hmem]
  omega

theorem Ordered.flushSaves (h : Ordered crc32 w k) :
    Ordered crc32 w.flushSaves (k + w.batch.length) := by
  unfold Worker.flushSaves
  split
  · rename_i hnone
    rw [List.getLast?_eq_none_iff] at hnone
    rw [hnone]
    exact h
  · rename_i latest hlast
    have hmem : latest ∈ w.batch := List.mem_of_getLast? hlast
    have happ : w.appends = [] := by
      rcases h.oneKind with hnil | hnil
      · rw [saves, List.append_eq_nil_iff] at hnil
        rw [hnil.1] at hmem
        cases hmem
      · exact hnil
    have hpen : w.requests.drop k =
        w.batch.map SaveRequest.call ++ w.reqCh.map SaveRequest.call := by
      rw [h.pending, happ, saves, List.map_append, List.map_nil, List.append_nil]
    have hnum := h.numbers
    rw [happ, saves, List.map_append, List.map_nil, List.append_nil] at hnum
    obtain ⟨hbat, hrest⟩ := range'_split hnum
    have hsnaps : w.batch.Pairwise fun r r' => r'.snapshot = none → r.snapshot = none :=
      (List.pairwise_append.mp h.snapshots).1
    -- the last save of the batch is what its saves lead to together
    have hfold : w.foldTo (k + w.batch.length) =
        (latest.raftstate, latest.snapshot.getD (w.foldTo k).2) := by
      rw [foldTo_add, hpen, take_left' (List.length_map _)]
      exact foldl_saves hlast hsnaps _
    have hkeep : w.fp.KeepsSnapshot latest.snapshot := fun _ hrel => h.keeps rfl hrel
    have hswi := (h.holds.sound.switches hkeep crc32 latest.raftstate).1
    refine ⟨?_, ?_, ?_, le_of_drop hpen h.le, ?_, ?_, Or.inr happ, ?_, ?_, ?_, ?_⟩
    · change Holds crc32 _ (w.foldTo (k + w.batch.length)).1
      rw [hfold]
      exact h.holds.sound.holds_commit crc32 latest.raftstate latest.snapshot
    · change _ = (w.foldTo (k + w.batch.length)).2
      rw [hfold, ← h.snapshot]
      exact congrArg Prod.snd hswi
    · intro _ hrel
      unfold FilePersister.commitGeneration nextManifest at hrel
      dsimp only at hrel
      split at hrel <;> cases hrel
    · change w.requests.drop _ = w.reqCh.map SaveRequest.call ++ w.appends.map _
      rw [← drop_drop, hpen, drop_left' (List.length_map _), happ]
      simp
    · change w.reqCh.map SaveRequest.number ++ w.appends.map _ = _
      rw [happ, List.map_nil, List.append_nil, hrest, List.length_map, Nat.sub_sub]
    · exact (List.pairwise_append.mp h.snapshots).2.1
    · intro hnil
      have hdrop : w.requests.drop (k + w.batch.length) = [] := by
        have hreqCh : w.reqCh = [] := hnil
        rw [← drop_drop, hpen, drop_left' (List.length_map _), hreqCh]
        rfl
      change appliedAll (w.foldTo (k + w.batch.length)).1 (w.appends.map _) = _
      rw [happ, foldTo_of_drop hdrop]
      rfl
    · exact h.fit
    · intro n
      have hdone := done_batch (n := n) h.done hbat
      rw [List.map_map, List.length_map] at hdone
      exact hdone

theorem foldl_appends {rs : List AppendStateRequest} {pair : Bytes × Bytes} {next : Bytes}
    (h : appliedAll pair.1 (rs.map AppendStateRequest.data) = some next) :
    (rs.map AppendStateRequest.call).foldl Request.takeEffect pair = (next, pair.2) := by
  induction rs generalizing pair with
  | nil =>
    cases h
    rfl
  | cons r rs ih =>
    obtain ⟨mid, hmid, hrest⟩ := Option.bind_eq_some_iff.mp h
    have heff : Request.takeEffect pair r.call = (mid, pair.2) := by
      simp [AppendStateRequest.call, Request.takeEffect, hmid]
    rw [List.map_cons, List.foldl_cons, heff]
    exact ih hrest

theorem Ordered.flushAppends (h : Ordered crc32 w k) (herr : (w.flushAppends crc32).NoErrors) :
    Ordered crc32 (w.flushAppends crc32) (k + w.appendBatch.length) := by
  unfold Worker.flushAppends at herr ⊢
  split
  · rename_i hnil
    rw [hnil]
    exact h
  · rename_i hne
    obtain ⟨r, hr⟩ := List.exists_mem_of_ne_nil _ hne
    have hsv : w.saves = [] := by
      rcases h.oneKind with hnil | hnil
      · exact hnil
      · rw [appends, List.append_eq_nil_iff] at hnil
        exact absurd hnil.1 hne
    have hpen : w.requests.drop k = w.appendBatch.map AppendStateRequest.call ++
        w.appendReqCh.map AppendStateRequest.call := by
      rw [h.pending, hsv, appends, List.map_append]
      rfl
    have hnum := h.numbers
    rw [hsv, appends, List.map_append, List.map_nil, List.nil_append] at hnum
    obtain ⟨hbat, hrest⟩ := range'_split hnum
    have hbuilt := h.built hsv
    rw [appends, List.map_append, appliedAll_append, Option.bind_eq_some_iff] at hbuilt
    obtain ⟨next, hnext, hlater⟩ := hbuilt
    have hfold : w.foldTo (k + w.appendBatch.length) = (next, (w.foldTo k).2) := by
      rw [foldTo_add, hpen, take_left' (List.length_map _)]
      exact foldl_appends hnext
    rw [if_neg hne] at herr
    cases hpath : w.fp.currentRaftDeltaPath with
    | none =>
      -- there is no delta file, and the batch has an error
      exfalso
      have herror : w.fp.commitAppendRaftState crc32
          (w.appendBatch.map AppendStateRequest.data) = none := by
        simp [commitAppendRaftState, hne, hpath]
      rw [herror] at herr
      exact herr r.number (List.mem_append_right _ (mem_map_of_mem hr))
    | some path =>
      have hfit : ∀ q ∈ w.appendBatch.map AppendStateRequest.data, q.length < 2 ^ 32 := by
        intro q hq
        obtain ⟨r, hr, rfl⟩ := List.mem_map.mp hq
        exact h.fit r (mem_append_left _ hr)
      obtain ⟨fp', hcom, hholds, hsome, hsnap⟩ := h.holds.commitAppendRaftState hpath hfit hnext
      rw [hcom]
      refine ⟨?_, ?_, ?_, le_of_drop hpen h.le, ?_, ?_, Or.inl hsv, h.snapshots, ?_, ?_, ?_⟩
      · change Holds crc32 fp' (w.foldTo (k + w.appendBatch.length)).1
        rw [hfold]
        exact hholds
      · change _ = (w.foldTo (k + w.appendBatch.length)).2
        rw [hfold]
        exact hsnap.trans h.snapshot
      · obtain ⟨path', hpath'⟩ := Option.isSome_iff_exists.mp hsome
        exact hholds.sound.keepsSnapshot hpath'
      · change w.requests.drop _ = w.saves.map _ ++ w.appendReqCh.map AppendStateRequest.call
        rw [← drop_drop, hpen, drop_left' (List.length_map _), hsv]
        rfl
      · change w.saves.map _ ++ w.appendReqCh.map AppendStateRequest.number = _
        rw [hsv, List.map_nil, List.nil_append, hrest, List.length_map, Nat.sub_sub]
      · intro _
        change appliedAll (w.foldTo (k + w.appendBatch.length)).1 _ = _
        rw [hfold]
        exact hlater
      · exact fun r hr => h.fit r (List.mem_append_right _ hr)
      · intro n
        have hdone := done_batch (n := n) h.done hbat
        rw [List.map_map, List.length_map] at hdone
        exact hdone

theorem Ordered.flush (h : Ordered crc32 w k) (herr : (w.flush crc32).NoErrors) :
    ∃ k, Ordered crc32 (w.flush crc32) k :=
  ⟨_, h.flushHard.flushSaves.flushAppends herr⟩

theorem range'_next {n : Nat} (h : k ≤ n) :
    List.range' k (n + 1 - k) = List.range' k (n - k) ++ [n] := by
  have hone : n + 1 - k = n - k + 1 := by omega
  have hlast : k + (n - k) = n := by omega
  rw [hone, List.range'_1_concat, hlast]

theorem Ordered.enqueueSave (h : Ordered crc32 w k) {raftstate : Bytes} {snapshot : Option Bytes}
    (hok : w.InOrder (.enqueueSave raftstate snapshot)) :
    Ordered crc32 { w with
      requests := w.requests ++ [.save raftstate snapshot]
      reqCh := w.reqCh ++ [⟨raftstate, copySnapshot snapshot, w.next⟩] } k := by
  obtain ⟨happ, hne, hsnaps⟩ := hok
  have hcopy : copySnapshot snapshot = snapshot := by
    unfold copySnapshot
    split
    · exact absurd rfl hne
    · rfl
  generalize hw' : ({ w with
      requests := w.requests ++ [.save raftstate snapshot]
      reqCh := w.reqCh ++ [⟨raftstate, copySnapshot snapshot, w.next⟩] } : Worker) = w'
  have hfoldTo : w'.foldTo k = w.foldTo k := by
    rw [← hw', foldTo, foldTo, List.take_append_of_le_length h.le]
  have hsv : w'.saves = w.saves ++ [⟨raftstate, snapshot, w.next⟩] := by
    rw [← hw', saves, saves, hcopy, List.append_assoc]
  have happ' : w'.appends = [] := by
    rw [← hw']
    exact happ
  have hreq : w'.requests = w.requests ++ [.save raftstate snapshot] := by rw [← hw']
  have hfp : w'.fp = w.fp := by rw [← hw']
  refine ⟨?_, ?_, ?_, ?_, ?_, ?_, Or.inr happ', ?_, ?_, ?_, ?_⟩
  · rw [hfp, hfoldTo]
    exact h.holds
  · rw [hfp, hfoldTo]
    exact h.snapshot
  · rw [hfp]
    exact h.keeps
  · rw [hreq, List.length_append]
    exact Nat.le_add_right_of_le h.le
  · have hpen := h.pending
    rw [happ, List.map_nil, List.append_nil] at hpen
    rw [hreq, hsv, happ', drop_append_of_le_length h.le, hpen]
    simp [SaveRequest.call]
  · have hnum := h.numbers
    rw [happ, List.map_nil, List.append_nil] at hnum
    rw [hreq, hsv, happ', List.length_append, length_singleton, range'_next h.le,
      List.map_append, hnum, List.map_nil, List.append_nil]
    rfl
  · rw [hsv, List.pairwise_append]
    refine ⟨h.snapshots, pairwise_singleton _ _, ?_⟩
    intro r hr r' hr' hnone
    obtain rfl := List.mem_singleton.mp hr'
    exact hsnaps hnone r hr
  · intro hnil
    rw [hsv] at hnil
    exact absurd hnil (by simp)
  · rw [happ']
    exact nofun
  · rw [← hw']
    exact h.done

theorem Ordered.enqueueAppendRaftState (h : Ordered crc32 w k) {data : Bytes}
    (hbuilt : w.Built (.enqueueAppendRaftState data))
    (hok : w.InOrder (.enqueueAppendRaftState data)) :
    Ordered crc32 { w with
      requests := w.requests ++ [.append data]
      appendReqCh := w.appendReqCh ++ [⟨data, w.next⟩] } k := by
  obtain ⟨hsv, hdata⟩ := hok
  obtain ⟨next, hnext⟩ := Option.isSome_iff_exists.mp hbuilt
  generalize hw' : ({ w with
      requests := w.requests ++ [.append data]
      appendReqCh := w.appendReqCh ++ [⟨data, w.next⟩] } : Worker) = w'
  have hfoldTo : w'.foldTo k = w.foldTo k := by
    rw [← hw', foldTo, foldTo, List.take_append_of_le_length h.le]
  have happ : w'.appends = w.appends ++ [⟨data, w.next⟩] := by
    rw [← hw', appends, appends, List.append_assoc]
  have hsv' : w'.saves = [] := by
    rw [← hw']
    exact hsv
  have hreq : w'.requests = w.requests ++ [.append data] := by rw [← hw']
  have hfp : w'.fp = w.fp := by rw [← hw']
  refine ⟨?_, ?_, ?_, ?_, ?_, ?_, Or.inl hsv', ?_, ?_, ?_, ?_⟩
  · rw [hfp, hfoldTo]
    exact h.holds
  · rw [hfp, hfoldTo]
    exact h.snapshot
  · rw [hfp]
    exact h.keeps
  · rw [hreq, List.length_append]
    exact Nat.le_add_right_of_le h.le
  · have hpen := h.pending
    rw [hsv, List.map_nil, List.nil_append] at hpen
    rw [hreq, happ, hsv', drop_append_of_le_length h.le, hpen]
    simp [AppendStateRequest.call]
  · have hnum := h.numbers
    rw [hsv, List.map_nil, List.nil_append] at hnum
    rw [hreq, happ, hsv', List.length_append, length_singleton, range'_next h.le,
      List.map_append, hnum]
    rfl
  · rw [hsv']
    exact List.Pairwise.nil
  · intro _
    have hfol : w'.folded.1 = next := by
      rw [← hw', folded, List.foldl_append]
      change (applied w.folded.1 data).getD w.folded.1 = next
      rw [hnext]
      rfl
    rw [hfoldTo, happ, hfol, List.map_append, appliedAll_append, h.built hsv,
      bind_some, map_singleton, appliedAll_singleton, hnext]
  · intro r hr
    rw [happ, List.mem_append, List.mem_singleton] at hr
    rcases hr with hr | rfl
    · exact h.fit r hr
    · exact hdata
  · rw [← hw']
    exact h.done

theorem done_sub_flush (crc32 : Bytes → UInt32) (w : Worker) : w.done ⊆ (w.flush crc32).done := by
  have hhard : w.flushHard.done = w.done := by
    unfold flushHard
    split <;> rfl
  have hsv : w.flushHard.done ⊆ w.flushHard.flushSaves.done := by
    generalize w.flushHard = w
    unfold flushSaves
    split
    · exact List.Subset.refl _
    · exact List.subset_append_left ..
  have happ : w.flushHard.flushSaves.done ⊆ (w.flush crc32).done := by
    rw [flush]
    generalize w.flushHard.flushSaves = w
    unfold flushAppends
    split
    · exact List.Subset.refl _
    · split <;> exact List.subset_append_left ..
  rw [← hhard]
  exact List.Subset.trans hsv happ

theorem NoErrors.of_sub (h : w'.NoErrors) (hsub : w.done ⊆ w'.done) : w.NoErrors :=
  fun n hn => h n (hsub hn)

/-- A step from a state in order leads to one, or to an error. -/
def Progress (crc32 : Bytes → UInt32) (w : Worker) : Prop := w.NoErrors → ∃ k, Ordered crc32 w k

theorem Progress.flush (h : Progress crc32 w) : Progress crc32 (w.flush crc32) := by
  intro herr
  obtain ⟨k, hk⟩ := h (herr.of_sub (done_sub_flush crc32 w))
  exact hk.flush herr

theorem Progress.flushIf (h : Progress crc32 w) (full : Prop) [Decidable full] :
    Progress crc32 (if full then w.flush crc32 else w) := by
  split
  · exact h.flush
  · exact h

theorem Progress.step (h : Progress crc32 w) {action : Action} (hbuilt : w.Built action)
    (hok : w.InOrder action) (hstep : step crc32 w action = some w') : Progress crc32 w' := by
  cases action with
  | enqueueSave raftstate snapshot =>
    simp only [Worker.step] at hstep
    split_ifs at hstep
    · cases hstep
      exact fun herr => absurd (List.mem_append_right _ List.mem_cons_self) (herr w.next)
    · cases hstep
      intro herr
      obtain ⟨k, hk⟩ := h herr
      exact ⟨k, hk.enqueueSave hok⟩
  | enqueueSaveHardState hardstate =>
    simp only [Worker.step] at hstep
    split_ifs at hstep
    · cases hstep
      exact h
    · cases hstep
      intro herr
      obtain ⟨k, hk⟩ := h herr
      exact ⟨k, hk.moved rfl rfl rfl rfl rfl rfl⟩
  | enqueueAppendRaftState data =>
    simp only [Worker.step] at hstep
    split_ifs at hstep
    · cases hstep
      exact fun herr => absurd (List.mem_append_right _ List.mem_cons_self) (herr w.next)
    · cases hstep
      intro herr
      obtain ⟨k, hk⟩ := h herr
      exact ⟨k, hk.enqueueAppendRaftState hbuilt hok⟩
  | receive =>
    simp only [Worker.step] at hstep
    split at hstep
    · rename_i req rest _ hch
      cases hstep
      apply Progress.flushIf
      intro herr
      obtain ⟨k, hk⟩ := h herr
      refine ⟨k, hk.moved rfl rfl ?_ rfl rfl rfl⟩
      rw [saves, saves, hch, List.append_assoc]
      rfl
    · cases hstep
  | receiveHard =>
    simp only [Worker.step] at hstep
    split at hstep
    · cases hstep
      apply Progress.flushIf
      intro herr
      obtain ⟨k, hk⟩ := h herr
      exact ⟨k, hk.moved rfl rfl rfl rfl rfl rfl⟩
    · cases hstep
  | receiveAppend =>
    simp only [Worker.step] at hstep
    split at hstep
    · rename_i req rest _ hch
      cases hstep
      apply Progress.flushIf
      intro herr
      obtain ⟨k, hk⟩ := h herr
      refine ⟨k, hk.moved rfl rfl rfl ?_ rfl rfl⟩
      rw [appends, appends, hch, List.append_assoc]
      rfl
    · cases hstep
  | tick =>
    simp only [Worker.step] at hstep
    split_ifs at hstep
    cases hstep
    exact h.flush
  | stop =>
    simp only [Worker.step] at hstep
    split_ifs at hstep
    cases hstep
    intro herr
    obtain ⟨k, hk⟩ := h.flush herr
    exact ⟨k, hk.moved rfl rfl rfl rfl rfl rfl⟩

theorem progress_init {fp : FilePersister} {state : Bytes} (h : Holds crc32 fp state)
    (hkeep : fp.KeepsSnapshot none) : Progress crc32 { fp := fp, start := fp.pair crc32 } := by
  intro _
  refine ⟨0, ?_, rfl, hkeep, Nat.le_refl 0, rfl, rfl, Or.inl rfl, List.Pairwise.nil, fun _ => rfl,
    nofun, ?_⟩
  · have hread := h.readRaftState
    change Holds crc32 fp (fp.readRaftState crc32)
    rwa [hread]
  · intro n
    simp

/-- Requests take effect in the order in which they were enqueued: without errors, the files
hold what the first requests lead to, these are the acknowledged ones, and once all are
acknowledged it is what all of them lead to. -/
theorem requests_take_effect_in_order (crc32 : Bytes → UInt32) {w : Worker}
    (hw : (system crc32).Reachable (fun w action => w.Built action ∧ w.InOrder action) w)
    (herr : w.NoErrors) :
    (w.AllDone → w.fp.pair crc32 = w.folded) ∧
      ∃ k, w.fp.pair crc32 = w.foldTo k ∧ ∀ n, (n, true) ∈ w.done ↔ n < k := by
  have hpro : Progress crc32 w := by
    apply hw.invariant
    · rintro _ ⟨fp, state, hholds, hkeep, rfl⟩
      exact progress_init hholds hkeep
    · intro s action t hs hok hstep
      exact hs.step hok.1 hok.2 hstep
  obtain ⟨k, hk⟩ := hpro herr
  have hpair : w.fp.pair crc32 = w.foldTo k := Prod.ext hk.holds.readRaftState hk.snapshot
  refine ⟨?_, k, hpair, hk.done⟩
  intro hall
  rw [hpair]
  apply foldTo_of_drop
  apply List.drop_eq_nil_of_le
  by_contra hlt
  obtain ⟨ok, hmem⟩ := hall k (by omega)
  cases ok with
  | true => exact absurd ((hk.done k).mp hmem) (Nat.lt_irrefl k)
  | false => exact herr k hmem

def afterSave : Worker where
  fp := saved [1] [7]
  start := ([1], [7])

theorem init_afterSave : (system checksumIEEE).init afterSave := by
  have hkeep : (saved [1] [7]).KeepsSnapshot none := by
    intro _ hrel
    cases hrel
  have hpair : (saved [1] [7]).pair checksumIEEE = ([1], [7]) := by decide +kernel
  have hholds := fresh_nil.sound.holds_commit checksumIEEE [1] (some [7])
  refine ⟨saved [1] [7], [1], hholds, hkeep, ?_⟩
  rw [hpair]
  rfl

theorem requests_take_effect_in_order_append : ∃ w,
    (system checksumIEEE).Reachable (fun w action => w.Built action ∧ w.InOrder action) w ∧
      w.NoErrors ∧ w.AllDone ∧ w.fp.pair checksumIEEE = w.folded ∧ w.folded = ([3], [8]) := by
  obtain ⟨w, hrun, hdone, hlen, hfol⟩ := (system checksumIEEE).exists_of_execOk
    (fun w action => w.Built action ∧ w.InOrder action) afterSave
    [.enqueueSave [1] (some [8]), .receive, .tick, .enqueueAppendRaftState (patchTo 2),
      .enqueueAppendRaftState (patchTo 3), .receiveAppend, .receiveAppend, .tick]
    (fun w => w.done = [(0, true), (1, true), (2, true)] ∧ w.requests.length = 3 ∧
      w.folded = ([3], [8]))
    (by decide +kernel)
  have herr : w.NoErrors := by simp [NoErrors, hdone]
  have hall : w.AllDone := by
    intro n hn
    rw [hdone]
    obtain rfl | rfl | rfl : n = 0 ∨ n = 1 ∨ n = 2 := by omega
    all_goals exact ⟨true, by simp⟩
  have hreach := And.intro init_afterSave hrun
  exact ⟨w, ⟨_, hreach⟩, herr, hall,
    (requests_take_effect_in_order checksumIEEE ⟨_, hreach⟩ herr).1 hall, hfol⟩

theorem append_overtaken_by_save : ∃ w,
    (system checksumIEEE).Reachable Built w ∧ w.NoErrors ∧ w.AllDone ∧
      w.fp.pair checksumIEEE = ([2], [7]) ∧ w.folded = ([5], [7]) := by
  obtain ⟨w, hrun, hdone, hlen, hpair, hfol⟩ := (system checksumIEEE).exists_of_execOk
    Built afterSave
    [.enqueueAppendRaftState (patchTo 2), .enqueueSave [5] none, .receiveAppend, .receive, .tick]
    (fun w => w.done = [(1, true), (0, true)] ∧ w.requests.length = 2 ∧
      w.fp.pair checksumIEEE = ([2], [7]) ∧ w.folded = ([5], [7]))
    (by decide +kernel)
  refine ⟨w, ⟨_, init_afterSave, hrun⟩, by simp [NoErrors, hdone], ?_, hpair, hfol⟩
  intro n hn
  refine ⟨true, ?_⟩
  rw [hdone]
  obtain rfl | rfl : n = 0 ∨ n = 1 := by omega
  · exact mem_cons_of_mem _ List.mem_cons_self
  · exact List.mem_cons_self

end Worker

end OrbisKV.Persist
