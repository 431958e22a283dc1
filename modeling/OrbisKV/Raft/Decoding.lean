import OrbisKV.Raft.Incremental
/-!
# Reading the persisted state

`readPersistBinary` on any bytes.
-/

namespace OrbisKV.Incremental

open Lib.LittleEndian Encoding

/-- The bytes of a `LogEntry` in memory: a number, an interface and a slice. -/
def logEntrySize : Nat := 48

/-- The bytes that the runtime reserves at most, on a machine with 48-bit addresses; `make`
panics where more are asked for. -/
def maxAlloc : Nat := 0x1000000000000

namespace Node

variable {Cmd : Type} {decode : Bytes → Option (Option Cmd)} {reserve : Nat → Bool}
  {rf rf' : Node Cmd} {data : Bytes}

theorem take_eq_headerBytes (hlong : persistHeaderSize ≤ data.length)
    (hmagic : getUInt32 (slice data 0 4) = persistFormatMagic) {count : Nat}
    (hcount : Int64.ofNat count = declaredCount data) :
    data.take persistHeaderSize = headerBytes (readHeader data) count := by
  have hfield : ∀ i, i + 8 ≤ persistHeaderSize →
      putInt64 (getUInt64 (slice data i (i + 8))).toInt64 = slice data i (i + 8) := by
    intro i hi
    apply putInt64_getUInt64
    rw [length_slice (by omega) (by omega)]
    omega
  have hfirst : putUInt32 persistFormatMagic = slice data 0 4 := by
    rw [← hmagic, putUInt32_getUInt32]
    rw [length_slice (by omega) (by rw [persistHeaderSize] at hlong; omega)]
  rw [headerBytes, readHeader, hcount, declaredCount, hfirst, hfield 4 (by decide),
    hfield 12 (by decide), hfield 20 (by decide), hfield 28 (by decide), hfield 36 (by decide),
    slice_append_slice (by omega) (by omega), slice_append_slice (by omega) (by omega),
    slice_append_slice (by omega) (by omega), slice_append_slice (by omega) (by omega),
    slice_append_slice (by omega) (by omega)]
  rfl

theorem encodeState_adopt (codec : CommandCodec Cmd) (hdata : data.length < maxLen)
    (hpos : 0 < declaredCount data) {header : Header} {decoded : List (Entry Cmd × Nat)}
    (hread : readState reserve decode data = .ok (header, decoded)) :
    encodeState codec (rf.adopt data header decoded).toHeader
      (rf.adopt data header decoded).log = data := by
  obtain ⟨log, rfl, hlong, hbody, hlog, rfl, hmagic, hcount⟩ := of_readState hdata hread
  have hne : (withEnds persistHeaderSize log).isEmpty = false := by
    cases log with
    | nil =>
      rw [← hcount, List.length_nil] at hpos
      exact absurd hpos (by decide)
    | cons entry log => rfl
  rw [adopt, hne, if_neg Bool.false_ne_true]
  dsimp only
  rw [map_fst_withEnds, encodeState_of_decoded hlog, ← hbody,
    ← take_eq_headerBytes hlong hmagic hcount, List.take_append_drop]

/-- `readPersistBinary` does not panic, leaves the node as it was on bytes that it refuses, and
reads of bytes that declare entries the state of which they are the encoding, exactly when the
process can make the slices that the header, if there is one, asks for. -/
theorem readPersistBinary_exact (reserve : Nat → Bool) (decode : Bytes → Option (Option Cmd))
    (codec : CommandCodec Cmd) (rf : Node Cmd) (data : Bytes) (hdata : data.length < maxLen) :
    (∃ rf' ok, rf.readPersistBinary reserve decode data = some (rf', ok) ∧ (ok = false → rf' = rf) ∧
      (ok = true → 0 < declaredCount data → encodeState codec rf'.toHeader rf'.log = data)) ↔
    (persistHeaderSize ≤ data.length → getUInt32 (slice data 0 4) = persistFormatMagic →
      0 ≤ declaredCount data → reserve (declaredCount data).toInt.toNat = true) := by
  have hpanic := @readState_eq_panic_iff data Cmd decode reserve
  rw [readPersistBinary]
  cases hread : readState reserve decode data with
  | error stop =>
    cases stop with
    | panic =>
      obtain ⟨hlong, hmagic, hcount, hfull⟩ := hpanic.mp hread
      refine iff_of_false (by simp) fun h => ?_
      rw [h hlong hmagic hcount] at hfull
      cases hfull
    | refused =>
      refine iff_of_true ⟨rf, false, rfl, fun _ => rfl, by simp⟩ fun hlong hmagic hcount => ?_
      by_contra hfull
      rw [hpanic.mpr ⟨hlong, hmagic, hcount, Bool.eq_false_iff.mpr hfull⟩] at hread
      cases hread
  | ok state =>
    refine iff_of_true ⟨_, true, rfl, by simp, fun _ hpos =>
      encodeState_adopt codec hdata hpos hread⟩ fun hlong hmagic hcount => ?_
    by_contra hfull
    rw [hpanic.mpr ⟨hlong, hmagic, hcount, Bool.eq_false_iff.mpr hfull⟩] at hread
    cases hread

def sampleState : Bytes :=
  encodeState byteCodec ⟨3, 1, 0, 0⟩ [⟨0, none, []⟩, ⟨2, some 7, []⟩]

theorem readPersistBinary_exact_sample : ∃ rf', (fresh []).readPersistBinary (· ≤ 2)
      byteCodec.decode sampleState = some (rf', true) ∧
    (rf'.currentTerm, rf'.votedFor, rf'.log.map (·.command)) = (3, 1, [none, some 7]) ∧
    encodeState byteCodec rf'.toHeader rf'.log = sampleState := by
  obtain ⟨rf', ok, hread, -, hexact⟩ := (readPersistBinary_exact (· ≤ 2) byteCodec.decode
    byteCodec (fresh []) sampleState (by decide +kernel)).mpr fun _ _ _ => by
      decide +kernel
  have hfacts : ((fresh []).readPersistBinary (· ≤ 2) byteCodec.decode sampleState).any (fun r =>
      r.2 && decide ((r.1.currentTerm, r.1.votedFor, r.1.log.map (·.command)) =
        (3, 1, [none, some 7]))) = true := by
    decide +kernel
  rw [hread, Option.any_some, Bool.and_eq_true, decide_eq_true_eq] at hfacts
  obtain ⟨rfl, hfie⟩ := hfacts
  exact ⟨rf', hread, hfie, hexact rfl (by decide +kernel)⟩

def hugeCount : Bytes := headerBytes ⟨3, 1, 0, 0⟩ 0x4000000000000000

theorem huge_count_panics : hugeCount.length = persistHeaderSize ∧
    declaredCount hugeCount = 0x4000000000000000 ∧
    ∀ reserve : Nat → Bool, (∀ n, reserve n = true → logEntrySize * n ≤ maxAlloc) →
      (fresh [] : Node UInt8).readPersistBinary reserve byteCodec.decode hugeCount = none := by
  refine ⟨by decide +kernel, by decide +kernel, fun reserve hlimit => ?_⟩
  have hfull : reserve (declaredCount hugeCount).toInt.toNat = false := by
    refine Bool.eq_false_iff.mpr fun hmake => absurd (hlimit _ hmake) (by decide +kernel)
  rw [readPersistBinary, readState_eq_panic_iff.mpr
    ⟨by decide +kernel, by decide +kernel, by decide +kernel, hfull⟩]

end Node

end OrbisKV.Incremental
