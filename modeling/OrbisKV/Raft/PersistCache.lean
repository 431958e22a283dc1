import OrbisKV.Persister.Frames
import OrbisKV.Raft.Encoding
/-!
# The cache of the incremental encoder

A node keeps the encoding of its state in memory and brings only what changed up to date when
it persists: the header, and the entries from a dirty mark on.
-/

namespace OrbisKV.Incremental

open Lib.LittleEndian Encoding List

def persistAppendPayloadMagic : UInt32 := 0x52504131

def persistAppendPayloadSize : Nat := 28

def fits : Persist.Request → Bool
  | .save .. => true
  | .append payload =>
    payload.length < persistAppendPayloadSize + persistHeaderSize + UInt32.size

/-- The fields of `Raft` that are persisted, those that decide what its handlers do to the
log, and the cache of the encoder. -/
structure Node (Cmd : Type) extends Header where
  state : Role
  commitIndex : Int64
  log : List (Entry Cmd)
  persistState : Bytes := []
  persistEntryEnd : List Nat := []
  persistLogCount : Nat := 0
  persistDirtyFrom : Nat := 0
  persistReady : Bool := false
  persistPersistedLen : Nat := 0
  persistPersistedLogCount : Nat := 0
  persistQueuedLen : Nat := 0
  persistQueuedLogCount : Nat := 0
  /-- The lengths with which requests that are under way will be reported. -/
  pending : List (Nat × Nat) := []
  loaded : Bytes
  requests : List Persist.Request := []
deriving DecidableEq

namespace Node

variable {Cmd : Type} (codec : CommandCodec Cmd) (rf : Node Cmd)

/-- What the requests lead to, in the order in which they were enqueued. -/
def folded : Option Bytes := rf.requests.foldlM Persist.Request.apply rf.loaded

def makePersistHeader : Bytes :=
  putUInt32 persistFormatMagic ++ List.replicate (persistHeaderSize - 4) 0

def putPersistHeaderFields (buf : Bytes) (header : Header) (logCount : Nat) : Option Bytes :=
  if buf.length < persistHeaderSize then none
  else some (headerBytes header logCount ++ buf.drop persistHeaderSize)

def initPersistCache : Node Cmd :=
  { rf with
    persistState := makePersistHeader
    persistEntryEnd := []
    persistLogCount := 0
    persistDirtyFrom := 0
    persistReady := true }

def invalidatePersistCache : Node Cmd :=
  { rf with
    persistState := []
    persistEntryEnd := []
    persistLogCount := 0
    persistDirtyFrom := 0
    persistReady := false
    persistPersistedLen := 0
    persistPersistedLogCount := 0
    persistQueuedLen := 0
    persistQueuedLogCount := 0 }

def markPersistPersisted (stateLen logCount : Nat) : Node Cmd :=
  { rf with
    persistPersistedLen := max stateLen rf.persistPersistedLen
    persistPersistedLogCount := max logCount rf.persistPersistedLogCount }

def markPersistQueued (stateLen logCount : Nat) : Node Cmd :=
  { rf with persistQueuedLen := stateLen, persistQueuedLogCount := logCount }

def markPersistDirtyFrom (pos : Nat) : Node Cmd :=
  if !rf.persistReady then rf
  else { rf with persistDirtyFrom := min rf.persistDirtyFrom (min pos rf.log.length) }

/-- `truncatePersistToLocked`, `none` where it returns false. -/
def truncatePersistTo (keep : Nat) : Option (Node Cmd) :=
  if !rf.persistReady then none
  else if keep = 0 then
    some { rf with
      persistState := rf.persistState.take persistHeaderSize
      persistEntryEnd := []
      persistLogCount := 0 }
  else
    match rf.persistEntryEnd[keep - 1]? with
    | none => none
    | some stop =>
      if stop < persistHeaderSize ∨ rf.persistState.length < stop then none
      else
        some { rf with
          persistState := rf.persistState.take stop
          persistEntryEnd := rf.persistEntryEnd.take keep
          persistLogCount := keep }

/-- `appendPersistEntryLocked` on the entry at `persistLogCount`. -/
def appendPersistEntry (entry : Entry Cmd) : Option (Node Cmd) :=
  let entry := ensureEntryCommandEncoded codec entry
  let state := rf.persistState ++ entryBytes entry
  if maxLen ≤ state.length then none
  else
    some { rf with
      log := rf.log.set rf.persistLogCount entry
      persistState := state
      persistEntryEnd := rf.persistEntryEnd ++ [state.length]
      persistLogCount := rf.persistLogCount + 1 }

/-- The loop of `encodePersistentStateIncrementalLocked`, for at most `fuel` rounds. -/
def appendPersistEntries : Nat → Node Cmd → Option (Node Cmd)
  | 0, rf => some rf
  | fuel + 1, rf =>
    match rf.log[rf.persistLogCount]? with
    | none => some rf
    | some entry =>
      match rf.appendPersistEntry codec entry with
      | none => none
      | some rf => appendPersistEntries fuel rf

def cutPersistTo (keep : Nat) : Node Cmd :=
  if keep < rf.persistLogCount then (rf.truncatePersistTo keep).getD rf.initPersistCache else rf

/-- `encodePersistentStateIncrementalLocked` in front of its loop. -/
def cutPersistCache : Node Cmd :=
  let rf := if rf.persistReady then rf else rf.initPersistCache
  let rf := { rf with persistDirtyFrom := min rf.persistDirtyFrom rf.log.length }
  let rf := rf.cutPersistTo rf.log.length
  rf.cutPersistTo rf.persistDirtyFrom

/-- `encodePersistentStateIncrementalLocked`: the node, and whether it succeeded. -/
def encodePersistentStateIncremental : Option (Node Cmd × Bool) :=
  let rf := rf.cutPersistCache
  match appendPersistEntries codec (rf.log.length - rf.persistLogCount) rf with
  | none => none
  | some rf =>
    match putPersistHeaderFields rf.persistState rf.toHeader rf.log.length with
    | none => some (rf, false)
    | some state =>
      some ({ rf with persistState := state, persistDirtyFrom := rf.log.length }, true)

def canUsePersistAppend (state : Bytes) (prevLen : Nat) : Bool :=
  persistHeaderSize ≤ prevLen && prevLen ≤ state.length && persistHeaderSize ≤ state.length

def buildPersistAppendPayload (state : Bytes) (prevLen : Nat) : Option Bytes :=
  if !canUsePersistAppend state prevLen then none
  else
    let delta := state.drop prevLen
    some (putUInt32 persistAppendPayloadMagic ++ (putUInt64 (UInt64.ofNat prevLen) ++
      (putUInt64 (UInt64.ofNat state.length) ++ (putUInt32 (UInt32.ofNat persistHeaderSize) ++
        (putUInt32 (UInt32.ofNat delta.length) ++ (state.take persistHeaderSize ++ delta))))))

def canPersistAppend (snapshot : Option Bytes) (state : Bytes) (dirtyFromBefore : Nat) : Bool :=
  snapshot.isNone && rf.persistReady && rf.persistQueuedLogCount ≤ rf.log.length &&
    rf.persistQueuedLogCount ≤ dirtyFromBefore && canUsePersistAppend state rf.persistQueuedLen

/-- `enqueuePersistLocked`: the node, and the lengths it returns, `none` for -1. -/
def enqueuePersist (snapshot : Option Bytes) : Option (Node Cmd × Option (Nat × Nat)) :=
  match rf.encodePersistentStateIncremental codec with
  | none => none
  | some (rf, false) => some (rf.invalidatePersistCache, none)
  | some (rf', true) =>
    let state := rf'.persistState
    let lengths := (state.length, rf'.log.length)
    let queued := rf'.markPersistQueued state.length rf'.log.length
    let payload :=
      if rf'.canPersistAppend snapshot state rf.persistDirtyFrom then
        buildPersistAppendPayload state rf'.persistQueuedLen
      else none
    match payload with
    | some payload =>
      some ({ queued with requests := queued.requests ++ [.append payload] }, some lengths)
    | none =>
      some ({ queued with requests := queued.requests ++ [.save state snapshot] }, some lengths)

/-- A handler that persists without waiting: the lengths are reported later. -/
def enqueueLater : Option (Node Cmd) :=
  match rf.enqueuePersist codec none with
  | none => none
  | some (rf, lengths) => some { rf with pending := rf.pending ++ lengths.toList }

def persist (snapshot : Option Bytes) : Option (Node Cmd) :=
  match rf.enqueuePersist codec snapshot with
  | none => none
  | some (rf, none) => some rf
  | some (rf, some (stateLen, logCount)) => some (rf.markPersistPersisted stateLen logCount)

variable {codec} {rf rf' : Node Cmd} {old : List (Entry Cmd)}

structure Encodes (old : List (Entry Cmd)) (rf : Node Cmd) : Prop where
  ready : rf.persistReady = true
  size : persistHeaderSize ≤ rf.persistState.length
  short : rf.persistState.length < maxLen
  body : rf.persistState.drop persistHeaderSize = old.flatMap entryBytes
  ends : rf.persistEntryEnd = (withEnds persistHeaderSize old).map Prod.snd
  count : rf.persistLogCount = old.length

/-- Only the bytes of the cache, their ends and their count are not the same. -/
def SameButBytes (rf rf' : Node Cmd) : Prop :=
  ∃ state ends count, rf' = { rf with
    persistState := state, persistEntryEnd := ends, persistLogCount := count }

theorem Encodes.length_persistState (h : Encodes old rf) :
    rf.persistState.length = persistHeaderSize + (old.flatMap entryBytes).length := by
  have hbody := congrArg List.length h.body
  rw [length_drop] at hbody
  have hsize := h.size
  omega

theorem encodes_initPersistCache (rf : Node Cmd) : Encodes [] rf.initPersistCache := by
  refine ⟨rfl, ?_, ?_, ?_, rfl, rfl⟩ <;>
    simp [initPersistCache, makePersistHeader, persistHeaderSize, maxLen]

theorem take_flatMap_entryBytes (keep : Nat) (log : List (Entry Cmd)) :
    (log.flatMap entryBytes).take ((log.take keep).flatMap entryBytes).length =
      (log.take keep).flatMap entryBytes := by
  conv_lhs => rw [← take_append_drop keep log, flatMap_append]
  rw [take_append_drop, take_left]

theorem Encodes.truncatePersistTo (h : Encodes old rf) {keep : Nat} (hkeep : keep ≤ old.length) :
    ∃ rf', rf.truncatePersistTo keep = some rf' ∧ SameButBytes rf rf' ∧
      Encodes (old.take keep) rf' := by
  have hlength := h.length_persistState
  have hshort := h.short
  have hle : ((old.take keep).flatMap entryBytes).length ≤ (old.flatMap entryBytes).length := by
    rw [← take_flatMap_entryBytes, length_take]
    exact min_le_right ..
  have hrdy : ¬(!rf.persistReady) = true := by simp [h.ready]
  rw [Node.truncatePersistTo, if_neg hrdy]
  by_cases hzero : keep = 0
  · rw [if_pos hzero]
    subst hzero
    refine ⟨_, rfl, ⟨_, _, _, rfl⟩, h.ready, ?_, ?_, ?_, rfl, rfl⟩
    · rw [length_take]
      omega
    · rw [length_take]
      omega
    · simp
  · have hstop : rf.persistEntryEnd[keep - 1]? =
        some (persistHeaderSize + ((old.take keep).flatMap entryBytes).length) := by
      rw [h.ends, getElem?_withEnds (by omega), Nat.sub_add_cancel (by omega)]
    rw [if_neg hzero, hstop]
    dsimp only
    rw [if_neg (by omega)]
    refine ⟨_, rfl, ⟨_, _, _, rfl⟩, h.ready, ?_, ?_, ?_, ?_, ?_⟩
    · rw [length_take]
      omega
    · rw [length_take]
      omega
    · dsimp only
      rw [drop_take, h.body, Nat.add_sub_cancel_left, take_flatMap_entryBytes]
    · dsimp only
      rw [h.ends, withEnds_take, map_take]
    · dsimp only
      rw [length_take, min_eq_left hkeep]

theorem Encodes.appendPersistEntries (hlog : ∀ e ∈ rf.log, e.Decoded codec.decode) {k : Nat}
    (hk : k ≤ rf.log.length) (h : Encodes (rf.log.take k) rf)
    (hrun : appendPersistEntries codec (rf.log.length - k) rf = some rf') :
    SameButBytes rf rf' ∧ Encodes rf.log rf' := by
  generalize hfuel : rf.log.length - k = fuel at hrun
  induction fuel generalizing rf k with
  | zero =>
    obtain rfl := Option.some.inj hrun
    have hall : k = rf.log.length := by omega
    rw [hall, take_length] at h
    exact ⟨⟨_, _, _, rfl⟩, h⟩
  | succ fuel ih =>
    have hlt : k < rf.log.length := by omega
    have hcount : rf.persistLogCount = k := by rw [h.count, length_take, min_eq_left hk]
    have hget : rf.log[rf.persistLogCount]? = some rf.log[k] := by
      rw [hcount, getElem?_eq_getElem hlt]
    have hens := (hlog rf.log[k] (getElem_mem hlt)).ensured codec
    rw [Node.appendPersistEntries, hget] at hrun
    simp only [appendPersistEntry, hens, hcount, set_getElem_self] at hrun
    split at hrun
    · cases hrun
    · rename_i next hnext
      split_ifs at hnext with hlong
      have htake : rf.log.take (k + 1) = rf.log.take k ++ [rf.log[k]] :=
        take_succ_eq_append_getElem hlt
      have hlength := h.length_persistState
      have hsame : next.log = rf.log := by rw [← Option.some.inj hnext]
      have hstep : Encodes (next.log.take (k + 1)) next := by
        rw [hsame, ← Option.some.inj hnext]
        refine ⟨h.ready, ?_, not_le.mp hlong, ?_, ?_, ?_⟩
        · dsimp only
          rw [length_append]
          exact le_trans h.size (Nat.le_add_right ..)
        · dsimp only
          rw [drop_append_of_le_length h.size, h.body, htake, flatMap_append, flatMap_singleton]
        · dsimp only
          rw [h.ends, htake, withEnds_append, map_append, length_append, hlength]
          rfl
        · dsimp only
          rw [length_take, min_eq_left hlt]
      have hrest : next.log.length - (k + 1) = fuel := by
        rw [hsame]
        omega
      rw [← hsame] at hlog hlt
      obtain ⟨⟨state, ends, count, rfl⟩, hdone⟩ := ih hlog hlt hstep hrest hrun
      rw [hsame] at hdone
      cases hnext
      exact ⟨⟨_, _, _, rfl⟩, hdone⟩

theorem Encodes.cutPersistTo (h : Encodes old rf) (keep : Nat) :
    SameButBytes rf (rf.cutPersistTo keep) ∧ Encodes (old.take keep) (rf.cutPersistTo keep) := by
  rw [Node.cutPersistTo]
  split_ifs with hlt
  · rw [h.count] at hlt
    obtain ⟨rf', htrunc, hsame, hcut⟩ := h.truncatePersistTo (le_of_lt hlt)
    rw [htrunc]
    exact ⟨hsame, hcut⟩
  · rw [h.count] at hlt
    rw [take_of_length_le (not_lt.mp hlt)]
    exact ⟨⟨_, _, _, rfl⟩, h⟩

structure Cold (rf : Node Cmd) : Prop where
  ready : rf.persistReady = false
  queuedLen : rf.persistQueuedLen = 0
  stored : ∃ bytes, rf.folded = some bytes

/-- The cache is the encoding of the entries `old`, with which the last request was made, and
the log still has those in front of the dirty mark. -/
structure Marked (old : List (Entry Cmd)) (rf : Node Cmd) : Prop where
  encodes : Encodes old rf
  queuedLen : rf.persistQueuedLen = rf.persistState.length
  queuedCount : rf.persistQueuedLogCount = old.length
  dirty_le_old : rf.persistDirtyFrom ≤ old.length
  dirty_le_log : rf.persistDirtyFrom ≤ rf.log.length
  kept : rf.log.take rf.persistDirtyFrom = old.take rf.persistDirtyFrom
  stored : ∃ bytes, rf.folded = some bytes ∧ bytes.length = rf.persistState.length ∧
    bytes.drop persistHeaderSize = old.flatMap entryBytes

def SameButCache (rf rf' : Node Cmd) : Prop :=
  ∃ state ends count dirty ready, rf' = { rf with
    persistState := state, persistEntryEnd := ends, persistLogCount := count
    persistDirtyFrom := dirty, persistReady := ready }

def Tracks (old : List (Entry Cmd)) (rf : Node Cmd) : Prop := rf.Cold ∨ Marked old rf

theorem Tracks.stored (h : Tracks old rf) : ∃ bytes, rf.folded = some bytes := by
  rcases h with hcold | hmar
  · exact hcold.stored
  · obtain ⟨bytes, hfol, -⟩ := hmar.stored
    exact ⟨bytes, hfol⟩

theorem cutPersistCache_spec (h : Tracks old rf) :
    SameButCache rf rf.cutPersistCache ∧
      ∃ k ≤ rf.log.length, Encodes (rf.log.take k) rf.cutPersistCache := by
  rcases h with hcold | hmar
  · have hinit : rf.cutPersistCache = rf.initPersistCache := by
      simp [cutPersistCache, hcold.ready, initPersistCache, Node.cutPersistTo]
    rw [hinit]
    exact ⟨⟨_, _, _, _, _, rfl⟩, 0, Nat.zero_le _, encodes_initPersistCache rf⟩
  · have hdy : min rf.persistDirtyFrom rf.log.length = rf.persistDirtyFrom :=
      min_eq_left hmar.dirty_le_log
    obtain ⟨⟨state, ends, count, hfirst⟩, hmid⟩ := hmar.encodes.cutPersistTo rf.log.length
    obtain ⟨⟨state', ends', count', hsec⟩, hend⟩ := hmid.cutPersistTo rf.persistDirtyFrom
    have hcut : rf.cutPersistCache =
        (rf.cutPersistTo rf.log.length).cutPersistTo rf.persistDirtyFrom := by
      have hrdy : (if rf.persistReady = true then rf else rf.initPersistCache) = rf :=
        if_pos hmar.encodes.ready
      simp only [cutPersistCache, hrdy, hdy]
      change (rf.cutPersistTo rf.log.length).cutPersistTo
        (rf.cutPersistTo rf.log.length).persistDirtyFrom = _
      rw [hfirst]
    have hlist : (old.take rf.log.length).take rf.persistDirtyFrom =
        rf.log.take rf.persistDirtyFrom := by
      rw [take_take, min_eq_left hmar.dirty_le_log, hmar.kept]
    rw [hlist] at hend
    rw [hcut]
    refine ⟨?_, _, hmar.dirty_le_log, hend⟩
    rw [hsec, hfirst]
    exact ⟨_, _, _, _, _, rfl⟩

def fullState (rf : Node Cmd) : Bytes :=
  headerBytes rf.toHeader rf.log.length ++ rf.log.flatMap entryBytes

theorem encode_spec (hlog : ∀ e ∈ rf.log, e.Decoded codec.decode) (h : Tracks old rf) {ok : Bool}
    (hrun : rf.encodePersistentStateIncremental codec = some (rf', ok)) :
    ok = true ∧ SameButCache rf rf' ∧ Encodes rf.log rf' ∧
      rf'.persistState = rf.fullState ∧ rf'.persistDirtyFrom = rf.log.length := by
  obtain ⟨hsame, k, hk, henc⟩ := cutPersistCache_spec h
  have hmid : rf.cutPersistCache.log = rf.log := by
    obtain ⟨_, _, _, _, _, hcut⟩ := hsame
    rw [hcut]
  have hcount : rf.cutPersistCache.persistLogCount = k := by
    rw [henc.count, length_take, min_eq_left hk]
  simp only [encodePersistentStateIncremental, hcount] at hrun
  split at hrun
  · cases hrun
  · rename_i next hnext
    obtain ⟨hbytes, hdone⟩ := Encodes.appendPersistEntries (by rwa [hmid]) (by rwa [hmid])
      (by rwa [hmid]) hnext
    rw [hmid] at hdone
    have hput : putPersistHeaderFields next.persistState next.toHeader next.log.length =
        some (headerBytes next.toHeader next.log.length ++ rf.log.flatMap entryBytes) := by
      rw [putPersistHeaderFields, if_neg (not_lt.mpr hdone.size), hdone.body]
    rw [hput] at hrun
    obtain ⟨rfl, rfl⟩ := Prod.mk.inj (Option.some.inj hrun)
    obtain ⟨_, _, _, _, _, hcut⟩ := hsame
    obtain ⟨_, _, _, rfl⟩ := hbytes
    rw [hcut] at hdone ⊢
    have hlength := hdone.length_persistState
    have hshort := hdone.short
    refine ⟨rfl, ⟨_, _, _, _, _, rfl⟩, ⟨hdone.ready, ?_, ?_, ?_, hdone.ends, hdone.count⟩, rfl, rfl⟩
    · dsimp only
      rw [length_append, length_headerBytes]
      omega
    · dsimp only at hlength hshort ⊢
      rw [length_append, length_headerBytes]
      omega
    · dsimp only
      rw [drop_append_of_le_length (by simp), ← length_headerBytes, drop_length,
        nil_append]

theorem payload_fields {payload magic prevLen newLen headerLen deltaLen rest : Bytes}
    (h : payload = magic ++ (prevLen ++ (newLen ++ (headerLen ++ (deltaLen ++ rest)))))
    (hmagic : magic.length = 4) (hprev : prevLen.length = 8) (hnew : newLen.length = 8)
    (hhea : headerLen.length = 4) (hdelta : deltaLen.length = 4) :
    slice payload 0 4 = magic ∧ slice payload 4 12 = prevLen ∧ slice payload 12 20 = newLen ∧
      slice payload 20 24 = headerLen ∧ slice payload 24 28 = deltaLen ∧
      payload.drop 28 = rest := by
  refine ⟨slice_of_append (a := []) h rfl (by omega), slice_of_append h (by omega) (by omega),
    ?_, ?_, ?_, ?_⟩
  · rw [← append_assoc] at h
    exact slice_of_append h (by simp [hmagic, hprev]) (by omega)
  · rw [← append_assoc, ← append_assoc] at h
    exact slice_of_append h (by simp [hmagic, hprev, hnew]) (by omega)
  · rw [← append_assoc, ← append_assoc, ← append_assoc] at h
    exact slice_of_append h (by simp [hmagic, hprev, hnew, hhea]) (by omega)
  · rw [← append_assoc, ← append_assoc, ← append_assoc, ← append_assoc] at h
    rw [h, drop_left' (by simp [hmagic, hprev, hnew, hhea, hdelta])]

theorem applied_payload {state bytes payload : Bytes} (hshort : state.length < maxLen)
    (hbody : bytes.drop persistHeaderSize = (state.take bytes.length).drop persistHeaderSize)
    (hpay : buildPersistAppendPayload state bytes.length = some payload)
    (hfits : payload.length < persistAppendPayloadSize + persistHeaderSize + UInt32.size) :
    Persist.applied bytes payload = some state := by
  rw [buildPersistAppendPayload] at hpay
  split_ifs at hpay with hcan
  simp only [Bool.not_eq_true', Bool.not_eq_false, canUsePersistAppend, Bool.and_eq_true,
    decide_eq_true_eq] at hcan
  obtain ⟨⟨hlong, hle⟩, -⟩ := hcan
  obtain ⟨hmagic, hprev, hnew, hheaderLen, hdeltaLen, hrest⟩ := payload_fields
    (Option.some.inj hpay).symm (length_putUInt32 _) (length_putUInt64 _) (length_putUInt64 _)
    (length_putUInt32 _) (length_putUInt32 _)
  have hhea : (state.take persistHeaderSize).length = persistHeaderSize := by
    rw [length_take]
    omega
  have hlength : payload.length = 28 + (persistHeaderSize + (state.length - bytes.length)) := by
    have hdrop := congrArg List.length hrest
    have hsome := congrArg List.length (Option.some.inj hpay)
    simp only [length_append, length_drop, length_putUInt32, length_putUInt64, hhea] at hsome
    omega
  have hdelta : state.length - bytes.length < UInt32.size := by
    unfold persistAppendPayloadSize at hfits
    omega
  -- the parts of the payload
  have hpatch : slice payload 28 (28 + persistHeaderSize) = state.take persistHeaderSize := by
    rw [slice, hrest, Nat.add_sub_cancel_left, take_left' hhea]
  have htail : payload.drop (28 + persistHeaderSize) = state.drop bytes.length := by
    rw [← drop_drop, hrest, drop_left' hhea]
  have hjoin : state.take persistHeaderSize ++ bytes.drop persistHeaderSize ++
      state.drop bytes.length = state := by
    have htake : state.take persistHeaderSize =
        (state.take bytes.length).take persistHeaderSize := by
      rw [take_take, min_eq_left hlong]
    rw [hbody, htake, take_append_drop, take_append_drop]
  -- the checks of the persister
  have hprevInt : (getUInt64 (slice payload 4 12)).toInt64.toInt = bytes.length := by
    rw [hprev, getUInt64_putUInt64]
    exact toInt_ofNat (by omega)
  have hnewInt : (getUInt64 (slice payload 12 20)).toInt64.toInt = state.length := by
    rw [hnew, getUInt64_putUInt64]
    exact toInt_ofNat hshort
  have hheaderNat : (getUInt32 (slice payload 20 24)).toNat = persistHeaderSize := by
    rw [hheaderLen, getUInt32_putUInt32]
    rfl
  have hdeltaNat : (getUInt32 (slice payload 24 28)).toNat = state.length - bytes.length := by
    rw [hdeltaLen, getUInt32_putUInt32, length_drop]
    exact UInt32.toNat_ofNat_of_lt' hdelta
  have hsize : ¬payload.length < Persist.raftAppendPayloadHeaderSize := by
    rw [hlength]
    exact not_lt.mpr (Nat.le_add_right ..)
  have hmagicOk : getUInt32 (slice payload 0 4) = Persist.raftAppendPayloadMagic := by
    rw [hmagic, getUInt32_putUInt32]
    rfl
  rw [Persist.applied_eq_some, Persist.applyRaftAppendPayload, if_neg hsize,
    if_neg (not_not.mpr hmagicOk)]
  simp only [hprevInt, hnewInt, hheaderNat, hdeltaNat]
  rw [if_neg (by omega), if_neg (by unfold persistHeaderSize at hlong ⊢; omega),
    if_neg (by rw [hlength, Persist.raftAppendPayloadHeaderSize]; omega), if_neg (by omega)]
  have hpatch' : slice payload Persist.raftAppendPayloadHeaderSize
      (Persist.raftAppendPayloadHeaderSize + persistHeaderSize) = state.take persistHeaderSize :=
    hpatch
  have htail' : payload.drop (Persist.raftAppendPayloadHeaderSize + persistHeaderSize) =
      state.drop bytes.length := htail
  rw [hpatch', htail', hjoin]
  split_ifs with hzero
  · have hnil : state.drop bytes.length = [] := drop_eq_nil_of_le (by omega)
    rw [hnil, append_nil] at hjoin
    rw [hjoin]
  · simp

def PayloadFits (rf rf' : Node Cmd) : Prop :=
  ∀ payload, rf'.requests = rf.requests ++ [.append payload] → fits (.append payload) = true

theorem folded_snoc {request : Persist.Request} (h : rf'.requests = rf.requests ++ [request])
    (hloa : rf'.loaded = rf.loaded) :
    rf'.folded = rf.folded.bind fun stored => request.apply stored := by
  rw [folded, h, hloa, foldlM_append]
  cases hfold : rf.requests.foldlM Persist.Request.apply rf.loaded with
  | none | some stored => simp [folded, hfold]

structure Enqueued (rf rf' : Node Cmd) : Prop where
  header : rf'.toHeader = rf.toHeader
  log : rf'.log = rf.log
  requests : ∃ request, rf'.requests = rf.requests ++ [request]
  marked : Marked rf.log rf'
  folded : rf'.folded = some rf.fullState
  short : rf.fullState.length < maxLen

theorem enqueuePersist_spec (hlog : ∀ e ∈ rf.log, e.Decoded codec.decode) (h : Tracks old rf)
    {snapshot : Option Bytes} {lengths : Option (Nat × Nat)}
    (hrun : rf.enqueuePersist codec snapshot = some (rf', lengths)) (hfits : PayloadFits rf rf') :
    Enqueued rf rf' := by
  rw [enqueuePersist] at hrun
  split at hrun
  · cases hrun
  · rename_i hencode
    exact absurd (encode_spec hlog h hencode).1 Bool.false_ne_true
  · rename_i next hencode
    obtain ⟨-, ⟨state, ends, count, dirty, ready, rfl⟩, henco, hst, hdy⟩ :=
      encode_spec hlog h hencode
    obtain rfl : state = rf.fullState := hst
    obtain rfl : dirty = rf.log.length := hdy
    have hlength := henco.length_persistState
    -- whatever is enqueued leads to the encoding of the state
    have hdone : ∀ request : Persist.Request, (rf.folded.bind fun stored => request.apply stored) =
        some rf.fullState → ∀ rf'' : Node Cmd, rf'' = { rf with
          persistState := rf.fullState, persistEntryEnd := ends, persistLogCount := count
          persistDirtyFrom := rf.log.length, persistReady := ready
          persistQueuedLen := rf.fullState.length, persistQueuedLogCount := rf.log.length
          requests := rf.requests ++ [request] } → Enqueued rf rf'' := by
      intro request hreq rf'' heq
      have hfol : rf''.folded = some rf.fullState := by
        rw [← hreq]
        exact folded_snoc (by rw [heq]) (by rw [heq])
      subst heq
      refine ⟨rfl, rfl, ⟨request, rfl⟩, ⟨⟨henco.ready, henco.size, henco.short,
        henco.body, henco.ends, henco.count⟩, rfl, rfl, le_refl _, le_refl _, rfl,
        _, hfol, rfl, henco.body⟩, hfol, henco.short⟩
    dsimp only at hrun
    split at hrun
    · rename_i payload hpay
      have heq := (Prod.mk.inj (Option.some.inj hrun)).1.symm
      refine hdone (.append payload) ?_ rf' heq
      split_ifs at hpay with hcan
      simp only [canPersistAppend, Bool.and_eq_true, decide_eq_true_eq] at hcan
      have hpayloadFits := of_decide_eq_true (hfits payload (by rw [heq]; rfl))
      rcases h with hcold | hmar
      · -- without a cache there is nothing to append to
        have hzero : rf.persistQueuedLen = 0 := hcold.queuedLen
        simp [buildPersistAppendPayload, canUsePersistAppend, hzero, persistHeaderSize] at hpay
      · obtain ⟨bytes, hfol, hbytes, hdrop⟩ := hmar.stored
        have hold : rf.log.take old.length = old := by
          have hall : rf.persistDirtyFrom = old.length := by
            apply le_antisymm hmar.dirty_le_old
            rw [← hmar.queuedCount]
            exact hcan.1.2
          have hkept := hmar.kept
          rwa [hall, take_length] at hkept
        have hbody : bytes.drop persistHeaderSize =
            (rf.fullState.take bytes.length).drop persistHeaderSize := by
          have hlen : bytes.length - persistHeaderSize = (old.flatMap entryBytes).length := by
            rw [← hdrop, length_drop]
          have hfull : rf.fullState.drop persistHeaderSize = rf.log.flatMap entryBytes := henco.body
          rw [drop_take, hfull, hlen, hdrop]
          have htake := take_flatMap_entryBytes old.length rf.log
          rw [hold] at htake
          exact htake.symm
        have hbd : buildPersistAppendPayload rf.fullState bytes.length = some payload := by
          rw [hbytes, ← hmar.queuedLen]
          exact hpay
        rw [hfol]
        exact applied_payload henco.short hbody hbd hpayloadFits
    · have heq := (Prod.mk.inj (Option.some.inj hrun)).1.symm
      refine hdone (.save rf.fullState snapshot) ?_ rf' heq
      obtain ⟨bytes, hfol⟩ := h.stored
      rw [hfol]
      rfl

end Node

end OrbisKV.Incremental
