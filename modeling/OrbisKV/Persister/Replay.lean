import OrbisKV.Raft.PersistCache
/-!
# Replaying a chain of states

The encoder describes each state by a payload relative to the one before, the persister
frames the payloads in a file, and `replayDeltaFrames` goes back from the file to the
states.
-/

namespace OrbisKV.Persist

open Lib.LittleEndian Encoding Incremental.Node List

variable {crc32 : Bytes → UInt32}

theorem length_of_nextFrame {rest payload : Bytes} (h : nextFrame crc32 rest = some payload) :
    appendFrameHeaderSize + payload.length ≤ rest.length := by
  unfold nextFrame at h
  split_ifs at h with hhea hmagic
  dsimp only at h
  split_ifs at h with hlong hcrc
  cases h
  rw [slice, length_take, length_drop]
  omega

theorem replayLoop_ends (delta : Bytes) {fuel offset : Nat} {state : Bytes}
    (hoff : offset ≤ delta.length) (hfuel : delta.length - offset ≤ fuel) :
    (replayLoop crc32 delta fuel state offset).2 ≤ delta.length ∧
      Stops crc32 (replayLoop crc32 delta fuel state offset).1
        (delta.drop (replayLoop crc32 delta fuel state offset).2) := by
  induction fuel generalizing offset state with
  | zero =>
    refine ⟨hoff, ?_⟩
    rw [drop_eq_nil_of_le (by simp only [replayLoop]; omega)]
    exact stops_nil crc32 _
  | succ fuel ih =>
    rw [replayLoop]
    cases hnext : nextFrame crc32 (delta.drop offset) with
    | none => exact ⟨hoff, stops_of_none hnext⟩
    | some payload =>
      have hin := length_of_nextFrame hnext
      rw [length_drop, appendFrameHeaderSize] at hin
      dsimp only
      cases hap : applied state payload with
      | none =>
        refine ⟨hoff, fun p hp => ?_⟩
        rw [hnext] at hp
        cases hp
        exact hap
      | some next =>
        apply ih
        · rw [appendFrameHeaderSize]
          omega
        · rw [appendFrameHeaderSize]
          omega

theorem replayLoop_fuel (base delta : Bytes) {fuel : Nat} (hfuel : delta.length ≤ fuel) :
    replayLoop crc32 delta fuel base 0 = replayDeltaFrames crc32 base delta := by
  have hmore : ∀ fuel extra offset state, Stops crc32 (replayLoop crc32 delta fuel state offset).1
      (delta.drop (replayLoop crc32 delta fuel state offset).2) →
      replayLoop crc32 delta (fuel + extra) state offset =
        replayLoop crc32 delta fuel state offset := by
    intro fuel extra
    induction fuel with
    | zero =>
      intro offset state hstop
      exact replayLoop_stop hstop _
    | succ fuel ih =>
      intro offset state hstop
      rw [Nat.add_right_comm]
      simp only [replayLoop] at hstop ⊢
      cases hnext : nextFrame crc32 (delta.drop offset) with
      | none => rfl
      | some payload =>
        rw [hnext] at hstop
        dsimp only at hstop ⊢
        cases hap : applied state payload with
        | none => rfl
        | some next =>
          rw [hap] at hstop
          exact ih _ _ hstop
  obtain ⟨extra, rfl⟩ := Nat.exists_eq_add_of_le hfuel
  exact hmore delta.length extra 0 base
    (replayLoop_ends delta (Nat.zero_le _) (Nat.le_of_eq (Nat.sub_zero _))).2

/-- The step from `S` to `T` rewrites the header and appends a suffix, which the length fields
of the payload and of its frame can hold. -/
structure Rewrites (S T : Bytes) : Prop where
  longer : S.length ≤ T.length
  short : T.length < maxLen
  body : (T.take S.length).drop persistHeaderSize = S.drop persistHeaderSize
  fits : Incremental.persistAppendPayloadSize + persistHeaderSize + (T.length - S.length) < 2 ^ 32

instance (S T : Bytes) : Decidable (Rewrites S T) :=
  decidable_of_iff (S.length ≤ T.length ∧ T.length < maxLen ∧
    (T.take S.length).drop persistHeaderSize = S.drop persistHeaderSize ∧
    Incremental.persistAppendPayloadSize + persistHeaderSize + (T.length - S.length) < 2 ^ 32)
    ⟨fun h => ⟨h.1, h.2.1, h.2.2.1, h.2.2.2⟩, fun h => ⟨h.longer, h.short, h.body, h.fits⟩⟩

def Chained : Bytes → List Bytes → Prop
  | _, [] => True
  | S, T :: states => Rewrites S T ∧ Chained T states

instance decidableChained : (S : Bytes) → (states : List Bytes) → Decidable (Chained S states)
  | _, [] => isTrue trivial
  | S, T :: states =>
    have := decidableChained T states
    inferInstanceAs (Decidable (Rewrites S T ∧ Chained T states))

def payloadsOf : Bytes → List Bytes → List Bytes
  | _, [] => []
  | S, T :: states => (buildPersistAppendPayload T S.length).getD [] :: payloadsOf T states

@[simp] theorem length_payloadsOf (S : Bytes) (states : List Bytes) :
    (payloadsOf S states).length = states.length := by
  induction states generalizing S with
  | nil => rfl
  | cons T states ih => simp [payloadsOf, ih]

theorem Rewrites.payload {S T : Bytes} (h : Rewrites S T) (hlong : persistHeaderSize ≤ S.length) :
    ((buildPersistAppendPayload T S.length).getD []).length < 2 ^ 32 ∧
      applied S ((buildPersistAppendPayload T S.length).getD []) = some T := by
  have hlon := h.longer
  have hcan : canUsePersistAppend T S.length = true := by
    simp only [canUsePersistAppend, Bool.and_eq_true, decide_eq_true_eq]
    omega
  have hbd : ∃ payload, buildPersistAppendPayload T S.length = some payload ∧ payload.length =
        Incremental.persistAppendPayloadSize + persistHeaderSize + (T.length - S.length) := by
    refine ⟨_, by rw [buildPersistAppendPayload, hcan]; rfl, ?_⟩
    simp only [length_append, length_putUInt32, length_putUInt64, length_take,
      length_drop, Incremental.persistAppendPayloadSize]
    omega
  obtain ⟨payload, hpay, hlength⟩ := hbd
  rw [hpay, Option.getD_some]
  refine ⟨hlength.trans_lt h.fits, applied_payload h.short h.body.symm hpay ?_⟩
  rw [hlength]
  exact Nat.lt_add_left _ h.fits

theorem Chained.fits {S : Bytes} {states : List Bytes} (h : Chained S states)
    (hlong : persistHeaderSize ≤ S.length) : ∀ p ∈ payloadsOf S states, p.length < 2 ^ 32 := by
  induction states generalizing S with
  | nil => simp [payloadsOf]
  | cons T states ih =>
    intro p hp
    rcases mem_cons.mp hp with rfl | hp
    · exact (h.1.payload hlong).1
    · exact ih h.2 (hlong.trans h.1.longer) p hp

theorem Chained.applied_take {S : Bytes} {states : List Bytes} (h : Chained S states)
    (hlong : persistHeaderSize ≤ S.length) {k : Nat} (hk : k ≤ states.length) :
    ∃ T, (S :: states)[k]? = some T ∧ appliedAll S ((payloadsOf S states).take k) = some T := by
  induction states generalizing S k with
  | nil =>
    obtain rfl : k = 0 := Nat.le_zero.mp hk
    exact ⟨S, rfl, rfl⟩
  | cons T states ih =>
    cases k with
    | zero => exact ⟨S, rfl, rfl⟩
    | succ k =>
      obtain ⟨U, hU, hap⟩ := ih h.2 (hlong.trans h.1.longer) (Nat.le_of_succ_le_succ hk)
      refine ⟨U, hU, ?_⟩
      rw [payloadsOf, take_succ_cons]
      change (applied S _).bind (fun s => appliedAll s _) = some U
      rw [(h.1.payload hlong).2]
      exact hap

theorem take_framesOf {ps : List Bytes} (hfits : ∀ p ∈ ps, p.length < 2 ^ 32) {m : Nat}
    (hm : m ≤ (framesOf crc32 ps).length) :
    ∃ k ≤ ps.length, ∃ rest, (framesOf crc32 ps).take m = framesOf crc32 (ps.take k) ++ rest ∧
      (framesOf crc32 (ps.take k)).length ≤ m ∧
      (∀ j ≤ ps.length, (framesOf crc32 (ps.take j)).length ≤ m → j ≤ k) ∧
      nextFrame crc32 rest = none := by
  induction ps generalizing m with
  | nil =>
    refine ⟨0, Nat.le_refl _, [], by simp, Nat.zero_le _, fun j hj _ => hj, rfl⟩
  | cons p ps ih =>
    rw [framesOf_cons, length_append] at hm
    by_cases hwhole : (buildAppendFrame crc32 p).length ≤ m
    · -- the first frame is whole
      obtain ⟨k, hk, rest, htake, hle, hmax, hrest⟩ :=
        ih (m := m - (buildAppendFrame crc32 p).length)
          (fun q hq => hfits q (mem_cons_of_mem p hq)) (by omega)
      refine ⟨k + 1, Nat.succ_le_succ hk, rest, ?_, ?_, ?_, hrest⟩
      · rw [framesOf_cons, take_append, take_of_length_le hwhole, htake,
          take_succ_cons, framesOf_cons, append_assoc]
      · rw [take_succ_cons, framesOf_cons, length_append]
        omega
      · intro j hj hjm
        cases j with
        | zero => exact Nat.zero_le _
        | succ j =>
          rw [take_succ_cons, framesOf_cons, length_append] at hjm
          exact Nat.succ_le_succ (hmax j (Nat.le_of_succ_le_succ hj) (by omega))
    · refine ⟨0, Nat.zero_le _, (buildAppendFrame crc32 p).take m, ?_, Nat.zero_le _, ?_, ?_⟩
      · rw [framesOf_cons, take_append_of_le_length (by omega)]
        rfl
      · intro j hj hjm
        cases j with
        | zero => exact Nat.le_refl _
        | succ j =>
          rw [take_succ_cons, framesOf_cons, length_append] at hjm
          omega
      · exact nextFrame_torn (hfits p mem_cons_self) (by omega)

/-- The delta file of a chain of states, cut at any byte, is replayed to the last state whose
frames are whole, and to the end of its frame; the whole file to the last state. -/
theorem replay_finds_longest_chain (crc32 : Bytes → UInt32) {base : Bytes} {states : List Bytes}
    (hlong : persistHeaderSize ≤ base.length) (hch : Chained base states) :
    (∀ m ≤ (framesOf crc32 (payloadsOf base states)).length,
      ∃ k ≤ states.length, ∃ state, (base :: states)[k]? = some state ∧
        (framesOf crc32 ((payloadsOf base states).take k)).length ≤ m ∧
        (∀ j ≤ states.length,
          (framesOf crc32 ((payloadsOf base states).take j)).length ≤ m → j ≤ k) ∧
        replayDeltaFrames crc32 base ((framesOf crc32 (payloadsOf base states)).take m) =
          (state, (framesOf crc32 ((payloadsOf base states).take k)).length)) ∧
    (∃ last, (base :: states).getLast? = some last ∧
      replayDeltaFrames crc32 base (framesOf crc32 (payloadsOf base states)) =
        (last, (framesOf crc32 (payloadsOf base states)).length)) ∧
    ∀ delta : Bytes, (replayDeltaFrames crc32 base delta).2 ≤ delta.length ∧ ∀ fuel ≥ delta.length,
        replayLoop crc32 delta fuel base 0 = replayDeltaFrames crc32 base delta := by
  have hfits := hch.fits hlong
  refine ⟨fun m hm => ?_, ?_, fun delta => ⟨?_, fun fuel hfuel => replayLoop_fuel base delta hfuel⟩⟩
  · obtain ⟨k, hk, rest, htake, hle, hmax, hrest⟩ := take_framesOf hfits hm
    rw [length_payloadsOf] at hk hmax
    obtain ⟨state, hst, hap⟩ := hch.applied_take hlong hk
    refine ⟨k, hk, state, hst, hle, hmax, ?_⟩
    rw [htake]
    exact replayDeltaFrames_frames (fun p hp => hfits p (mem_of_mem_take hp)) hap
      (stops_of_none hrest)
  · obtain ⟨last, hlast, hap⟩ := hch.applied_take hlong (Nat.le_refl _)
    rw [take_of_length_le (by rw [length_payloadsOf])] at hap
    refine ⟨last, ?_, ?_⟩
    · rw [getLast?_eq_getElem?]
      exact hlast
    · have hrep := replayDeltaFrames_frames hfits hap (stops_nil crc32 last)
      rwa [append_nil] at hrep
  · exact (replayLoop_ends delta (Nat.zero_le _) (Nat.le_of_eq (Nat.sub_zero _))).1

def sampleBase : Bytes := headerBytes ⟨1, 0, 0, 0⟩ 0

def sampleChain : List Bytes :=
  [headerBytes ⟨1, 0, 0, 0⟩ 1 ++ [7], headerBytes ⟨2, 0, 0, 0⟩ 2 ++ [7, 8]]

theorem replay_finds_longest_chain_torn :
    (framesOf checksumIEEE (payloadsOf sampleBase sampleChain)).length = 178 ∧
    replayDeltaFrames checksumIEEE sampleBase
      ((framesOf checksumIEEE (payloadsOf sampleBase sampleChain)).take 177) =
        (headerBytes ⟨1, 0, 0, 0⟩ 1 ++ [7], 89) := by
  have hlength : (framesOf checksumIEEE (payloadsOf sampleBase sampleChain)).length = 178 ∧
      (framesOf checksumIEEE ((payloadsOf sampleBase sampleChain).take 1)).length = 89 := by
    decide +kernel
  obtain ⟨k, hk, state, hst, hle, hmax, hrep⟩ :=
    (replay_finds_longest_chain checksumIEEE (by decide +kernel)
      (by decide +kernel : Chained sampleBase sampleChain)).1 177
      (by rw [hlength.1]; decide)
  have hone : 1 ≤ k := hmax 1 (by decide) (by rw [hlength.2]; decide)
  have htwo : k ≠ 2 := by
    rintro rfl
    rw [take_of_length_le (by decide +kernel), hlength.1] at hle
    omega
  obtain rfl : k = 1 := by
    have hlen : sampleChain.length = 2 := rfl
    omega
  cases hst
  refine ⟨hlength.1, ?_⟩
  rw [hrep, hlength.2]

end OrbisKV.Persist
