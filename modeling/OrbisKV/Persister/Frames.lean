import OrbisKV.Lib.LittleEndian
import OrbisKV.Raft.State
/-!
# The delta file of the Raft state

`EnqueueAppendRaftState` writes a payload, which patches the header of the state and
appends to its end, as one frame behind the frames that are there.
-/

namespace OrbisKV.Persist

open Lib.LittleEndian List

def appendFrameMagic : UInt32 := 0x52414644

def appendFrameHeaderSize : Nat := 16

def raftAppendPayloadMagic : UInt32 := 0x52504131

def raftAppendPayloadHeaderSize : Nat := 28

/-- `applyRaftAppendPayload`.  The conversion to `int` makes the two 64-bit lengths
signed; the two 32-bit ones stay as they are, so that the check for a negative
`deltaLen` never fires. -/
def applyRaftAppendPayload (state payload : Bytes) : Bytes × Bool :=
  if payload.length < raftAppendPayloadHeaderSize then (state, false)
  else if getUInt32 (slice payload 0 4) ≠ raftAppendPayloadMagic then (state, false)
  else
    let prevLen := (getUInt64 (slice payload 4 12)).toInt64.toInt
    let newLen := (getUInt64 (slice payload 12 20)).toInt64.toInt
    let headerLen := (getUInt32 (slice payload 20 24)).toNat
    let deltaLen := (getUInt32 (slice payload 24 28)).toNat
    if prevLen ≠ state.length then (state, false)
    else if headerLen = 0 ∨ prevLen < headerLen then (state, false)
    else if raftAppendPayloadHeaderSize + headerLen + deltaLen ≠ payload.length then (state, false)
    else if newLen ≠ prevLen + deltaLen then (state, false)
    else
      let headerPatch := slice payload raftAppendPayloadHeaderSize
        (raftAppendPayloadHeaderSize + headerLen)
      let delta := payload.drop (raftAppendPayloadHeaderSize + headerLen)
      let patched := headerPatch ++ state.drop headerLen
      if deltaLen = 0 then (patched, true)
      else (patched ++ delta, decide (((patched ++ delta).length : Int) = newLen))

/-- The state that a payload leads to, `none` where it is refused. -/
def applied (state payload : Bytes) : Option Bytes :=
  let next := applyRaftAppendPayload state payload
  if next.2 then some next.1 else none

/-- The calls of `EnqueueSave` and `EnqueueAppendRaftState`; a nil snapshot is `none`. -/
inductive Request
  | save (raftstate : Bytes) (snapshot : Option Bytes)
  | append (payload : Bytes)
deriving DecidableEq, Repr

/-- The bytes that a request leads to, `none` where a payload is refused. -/
def Request.apply (stored : Bytes) : Request → Option Bytes
  | save raftstate _ => some raftstate
  | append payload => applied stored payload

/-- The state that payloads lead to, each built on the one before. -/
def appliedAll (state : Bytes) (payloads : List Bytes) : Option Bytes :=
  payloads.foldlM applied state

@[simp] theorem appliedAll_singleton (state payload : Bytes) :
    appliedAll state [payload] = applied state payload := by
  simp [appliedAll]

theorem appliedAll_append (state : Bytes) (ps qs : List Bytes) :
    appliedAll state (ps ++ qs) = (appliedAll state ps).bind fun s => appliedAll s qs :=
  foldlM_append

theorem applied_eq_some {state payload next : Bytes} :
    applied state payload = some next ↔ applyRaftAppendPayload state payload = (next, true) := by
  unfold applied
  rw [Prod.ext_iff]
  dsimp only
  split
  · rename_i hok
    simp [hok]
  · rename_i hok
    simp [hok]

def crcBit (crc : UInt32) : UInt32 :=
  if crc &&& 1 = 1 then (crc >>> 1) ^^^ 0xEDB88320 else crc >>> 1

def crcByte (crc : UInt32) (byte : UInt8) : UInt32 :=
  Nat.iterate crcBit 8 (crc ^^^ byte.toUInt32)

def checksumIEEE (data : Bytes) : UInt32 := data.foldl crcByte 0xFFFFFFFF ^^^ 0xFFFFFFFF

example : checksumIEEE [0x31, 0x32, 0x33, 0x34, 0x35, 0x36, 0x37, 0x38, 0x39] = 0xCBF43926 := by
  decide +kernel

section

variable (crc32 : Bytes → UInt32)

def buildAppendFrame (payload : Bytes) : Bytes :=
  putUInt32 appendFrameMagic ++ (putUInt32 (UInt32.ofNat payload.length) ++
    (putUInt32 (crc32 payload) ++ (putUInt32 0 ++ payload)))

/-- The checks 1 to 5 of `replayDeltaFrames` on what is left of the file: the payload
of the frame that starts there. -/
def nextFrame (rest : Bytes) : Option Bytes :=
  if rest.length < appendFrameHeaderSize then none
  else if getUInt32 (slice rest 0 4) ≠ appendFrameMagic then none
  else
    let payloadLen := (getUInt32 (slice rest 4 8)).toNat
    let expectedCRC := getUInt32 (slice rest 8 12)
    if rest.length < appendFrameHeaderSize + payloadLen then none
    else
      let payload := slice rest appendFrameHeaderSize (appendFrameHeaderSize + payloadLen)
      if crc32 payload ≠ expectedCRC then none else some payload

def replayLoop (delta : Bytes) : Nat → Bytes → Nat → Bytes × Nat
  | 0, state, offset => (state, offset)
  | fuel + 1, state, offset =>
    match nextFrame crc32 (delta.drop offset) with
    | none => (state, offset)
    | some payload =>
      match applied state payload with
      | none => (state, offset)
      | some next => replayLoop delta fuel next (offset + appendFrameHeaderSize + payload.length)

/-- `replayDeltaFrames`.  Every round but the last passes a frame header, so the loop
is over after as many rounds as the file has bytes. -/
def replayDeltaFrames (base delta : Bytes) : Bytes × Nat :=
  replayLoop crc32 delta delta.length base 0

def framesOf (payloads : List Bytes) : Bytes := payloads.flatMap (buildAppendFrame crc32)

variable {crc32} {state rest : Bytes}

@[simp] theorem length_buildAppendFrame (payload : Bytes) :
    (buildAppendFrame crc32 payload).length = appendFrameHeaderSize + payload.length := by
  simp only [buildAppendFrame, length_append, length_putUInt32, appendFrameHeaderSize]
  omega

@[simp] theorem framesOf_nil : framesOf crc32 [] = [] := rfl

@[simp] theorem framesOf_cons (p : Bytes) (ps : List Bytes) :
    framesOf crc32 (p :: ps) = buildAppendFrame crc32 p ++ framesOf crc32 ps := rfl

@[simp] theorem framesOf_append (ps qs : List Bytes) :
    framesOf crc32 (ps ++ qs) = framesOf crc32 ps ++ framesOf crc32 qs :=
  flatMap_append

theorem length_le_framesOf (crc32 : Bytes → UInt32) (ps : List Bytes) :
    ps.length ≤ (framesOf crc32 ps).length := by
  induction ps with
  | nil => exact Nat.zero_le _
  | cons p ps ih =>
    rw [framesOf_cons, length_append, length_buildAppendFrame, length_cons, appendFrameHeaderSize]
    omega

theorem frame_fields (crc32 : Bytes → UInt32) (payload rest : Bytes) :
    getUInt32 (slice (buildAppendFrame crc32 payload ++ rest) 0 4) = appendFrameMagic ∧
    getUInt32 (slice (buildAppendFrame crc32 payload ++ rest) 4 8) = UInt32.ofNat payload.length ∧
    getUInt32 (slice (buildAppendFrame crc32 payload ++ rest) 8 12) = crc32 payload ∧
    slice (buildAppendFrame crc32 payload ++ rest) appendFrameHeaderSize
      (appendFrameHeaderSize + payload.length) = payload := by
  have hmagic : buildAppendFrame crc32 payload ++ rest = [] ++ putUInt32 appendFrameMagic ++
      (putUInt32 (UInt32.ofNat payload.length) ++
        (putUInt32 (crc32 payload) ++ (putUInt32 0 ++ (payload ++ rest)))) := by
    simp [buildAppendFrame]
  have hsize : buildAppendFrame crc32 payload ++ rest = putUInt32 appendFrameMagic ++
      putUInt32 (UInt32.ofNat payload.length) ++
        (putUInt32 (crc32 payload) ++ (putUInt32 0 ++ (payload ++ rest))) := by
    simp [buildAppendFrame]
  have hcrc : buildAppendFrame crc32 payload ++ rest =
      (putUInt32 appendFrameMagic ++ putUInt32 (UInt32.ofNat payload.length)) ++
        putUInt32 (crc32 payload) ++ (putUInt32 0 ++ (payload ++ rest)) := by
    simp [buildAppendFrame]
  have hpay : buildAppendFrame crc32 payload ++ rest =
      (putUInt32 appendFrameMagic ++ putUInt32 (UInt32.ofNat payload.length) ++
        putUInt32 (crc32 payload) ++ putUInt32 0) ++ payload ++ rest := by
    simp [buildAppendFrame]
  refine ⟨?_, ?_, ?_, ?_⟩
  · rw [hmagic, slice_field (by simp) (by simp), getUInt32_putUInt32]
  · rw [hsize, slice_field (by simp) (by simp), getUInt32_putUInt32]
  · rw [hcrc, slice_field (by simp) (by simp), getUInt32_putUInt32]
  · rw [hpay, slice_field (by simp [appendFrameHeaderSize]) (by simp [appendFrameHeaderSize])]

theorem nextFrame_build {payload : Bytes} (hlen : payload.length < 2 ^ 32) (rest : Bytes) :
    nextFrame crc32 (buildAppendFrame crc32 payload ++ rest) = some payload := by
  obtain ⟨hmagic, hsize, hcrc, hpay⟩ := frame_fields crc32 payload rest
  have hfits : (UInt32.ofNat payload.length).toNat = payload.length :=
    UInt32.toNat_ofNat_of_lt' hlen
  have htotal : (buildAppendFrame crc32 payload ++ rest).length =
      appendFrameHeaderSize + payload.length + rest.length := by
    rw [length_append, length_buildAppendFrame]
  unfold nextFrame
  rw [if_neg (by omega), if_neg (by simp [hmagic])]
  dsimp only
  rw [hsize, hfits, if_neg (by omega), hpay, if_neg (by simp [hcrc])]

theorem nextFrame_torn {payload : Bytes} (hlen : payload.length < 2 ^ 32) {k : Nat}
    (hk : k < (buildAppendFrame crc32 payload).length) :
    nextFrame crc32 ((buildAppendFrame crc32 payload).take k) = none := by
  have hfits : (UInt32.ofNat payload.length).toNat = payload.length :=
    UInt32.toNat_ofNat_of_lt' hlen
  have htotal : ((buildAppendFrame crc32 payload).take k).length = k := by
    rw [length_take]
    omega
  rw [length_buildAppendFrame] at hk
  unfold nextFrame
  by_cases hshort : k < appendFrameHeaderSize
  · rw [if_pos (by omega)]
  · -- the header is complete and names a payload that is not
    have hhea := frame_fields crc32 payload []
    rw [append_nil] at hhea
    obtain ⟨hmagic, hsize, -, -⟩ := hhea
    rw [appendFrameHeaderSize] at hshort
    rw [if_neg (by rw [htotal, appendFrameHeaderSize]; omega), slice_take (by omega),
      if_neg (by simp [hmagic])]
    dsimp only
    rw [slice_take (by omega), hsize, hfits, if_pos (by omega)]

/-- The replay goes no further than the file offset at which `rest` starts. -/
def Stops (crc32 : Bytes → UInt32) (state rest : Bytes) : Prop :=
  ∀ payload, nextFrame crc32 rest = some payload → applied state payload = none

theorem stops_of_none (h : nextFrame crc32 rest = none) : Stops crc32 state rest := by
  intro payload hsome
  rw [h] at hsome
  cases hsome

theorem stops_nil (crc32 : Bytes → UInt32) (state : Bytes) : Stops crc32 state [] :=
  stops_of_none rfl

theorem replayLoop_stop {delta : Bytes} {offset : Nat} (h : Stops crc32 state (delta.drop offset))
    (fuel : Nat) : replayLoop crc32 delta fuel state offset = (state, offset) := by
  cases fuel with
  | zero => rfl
  | succ fuel =>
    unfold replayLoop
    cases hnext : nextFrame crc32 (delta.drop offset) with
    | none => rfl
    | some payload =>
      dsimp only
      rw [h payload hnext]

theorem replayLoop_frames {ps : List Bytes} {final : Bytes} (hfit : ∀ p ∈ ps, p.length < 2 ^ 32)
    (hap : appliedAll state ps = some final) (hstop : Stops crc32 final rest) (done : Bytes)
    {fuel : Nat} (hfuel : ps.length ≤ fuel) :
    replayLoop crc32 (done ++ (framesOf crc32 ps ++ rest)) fuel state done.length =
      (final, done.length + (framesOf crc32 ps).length) := by
  induction ps generalizing state done fuel with
  | nil =>
    cases hap
    apply replayLoop_stop
    simpa using hstop
  | cons p ps ih =>
    obtain ⟨next, hnext, hrest⟩ := Option.bind_eq_some_iff.mp hap
    obtain ⟨fuel, rfl⟩ : ∃ m, fuel = m + 1 := ⟨fuel - 1, by rw [length_cons] at hfuel; omega⟩
    have hhead : nextFrame crc32 ((done ++ (framesOf crc32 (p :: ps) ++ rest)).drop done.length) =
        some p := by
      rw [drop_left, framesOf_cons, append_assoc]
      exact nextFrame_build (hfit p (mem_cons_self ..)) _
    have hoff : done.length + appendFrameHeaderSize + p.length =
        (done ++ buildAppendFrame crc32 p).length := by
      rw [length_append, length_buildAppendFrame]
      omega
    have hsplit : done ++ (framesOf crc32 (p :: ps) ++ rest) =
        (done ++ buildAppendFrame crc32 p) ++ (framesOf crc32 ps ++ rest) := by
      simp [append_assoc]
    unfold replayLoop
    rw [hhead]
    dsimp only
    rw [hnext]
    dsimp only
    rw [hoff, hsplit, ih (fun q hq => hfit q (mem_cons_of_mem _ hq)) hrest _
      (by rw [length_cons] at hfuel; omega)]
    simp only [length_append, framesOf_cons]
    congr 1
    omega

theorem replayDeltaFrames_frames {ps : List Bytes} {base final : Bytes}
    (hfit : ∀ p ∈ ps, p.length < 2 ^ 32) (hap : appliedAll base ps = some final)
    (hstop : Stops crc32 final rest) :
    replayDeltaFrames crc32 base (framesOf crc32 ps ++ rest) =
      (final, (framesOf crc32 ps).length) := by
  have hfuel : ps.length ≤ (framesOf crc32 ps ++ rest).length := by
    have hle := length_le_framesOf crc32 ps
    rw [length_append]
    omega
  have hloop := replayLoop_frames hfit hap hstop [] hfuel
  simpa [replayDeltaFrames] using hloop

end

end OrbisKV.Persist
