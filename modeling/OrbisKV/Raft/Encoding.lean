import OrbisKV.Lib.LittleEndian
import OrbisKV.Raft.State
/-!
# The binary form of the Raft state

The persisted state is a header of fixed length with the term, the vote, the snapshot
metadata and the number of entries, and behind it the entries one after another, each with
its term and the length of its command.
-/

namespace OrbisKV.Encoding

open List

variable {offset count : Nat} {data : Bytes}

open Lib.LittleEndian

def maxLen : Nat := 0x8000000000000000

/-- The gob form of commands. -/
structure CommandCodec (Cmd : Type) where
  encode : Cmd → Bytes
  decode : Bytes → Option (Option Cmd)
  encode_ne_nil : ∀ command, encode command ≠ []
  length_encode : ∀ command, (encode command).length < maxLen
  decode_encode : ∀ command, decode (encode command) = some (some command)

/-- `LogEntry` with the bytes of its command, which are empty while they are not known. -/
structure Entry (Cmd : Type) where
  term : Int64
  command : Option Cmd := none
  commandBytes : Bytes := []
deriving DecidableEq, Repr

structure Header where
  currentTerm : Int64
  votedFor : Int64
  lastIncludedIndex : Int64
  lastIncludedTerm : Int64
deriving DecidableEq, Repr

def persistFormatMagic : UInt32 := 0x4b565233

def persistHeaderSize : Nat := 44

variable {Cmd : Type} (codec : CommandCodec Cmd)

def encodeCommandToBytes : Option Cmd → Bytes
  | none => []
  | some command => codec.encode command

/-- `decodeCommandFromBytes` where gob decodes with `decode`. -/
def decodeCommandFromBytes (decode : Bytes → Option (Option Cmd)) (data : Bytes) :
    Option (Option Cmd) :=
  if data.isEmpty then some none else decode data

def ensureEntryCommandEncoded (entry : Entry Cmd) : Entry Cmd :=
  if !entry.commandBytes.isEmpty || entry.command.isNone then entry
  else { entry with commandBytes := encodeCommandToBytes codec entry.command }

/-- `binary.LittleEndian.PutUint64` of a number that is converted. -/
def putInt64 (v : Int64) : Bytes := putUInt64 v.toUInt64

/-- The header as `putPersistHeaderFields` writes it: the fields follow the magic number
without a gap. -/
def headerBytes (header : Header) (logCount : Nat) : Bytes :=
  putUInt32 persistFormatMagic ++ (putInt64 header.currentTerm ++ (putInt64 header.votedFor ++
    (putInt64 header.lastIncludedIndex ++ (putInt64 header.lastIncludedTerm ++
      putInt64 (Int64.ofNat logCount)))))

/-- What `appendPersistEntryLocked` appends for an entry whose command is encoded. -/
def entryBytes (entry : Entry Cmd) : Bytes :=
  putInt64 entry.term ++ (putInt64 (Int64.ofNat entry.commandBytes.length) ++ entry.commandBytes)

def encodeState (header : Header) (log : List (Entry Cmd)) : Bytes :=
  headerBytes header log.length ++ log.flatMap fun entry =>
    entryBytes (ensureEntryCommandEncoded codec entry)

/-- `readInt64LE`: the number at the offset and the offset behind it. -/
def readInt64LE (src : Bytes) (offset : Nat) : Option (Int64 × Nat) :=
  if src.length < offset + 8 then none
  else some ((getUInt64 (slice src offset (offset + 8))).toInt64, offset + 8)

/-- How the reader stops without entries: the source panics, or it returns false. -/
inductive Stop
  | panic
  | refused
deriving DecidableEq, Repr

/-- `bs[i:j]`, which panics out of range. -/
def sliceAt (bs : Bytes) (i j : Nat) : Except Stop Bytes :=
  if i ≤ j ∧ j ≤ bs.length then .ok (slice bs i j) else .error .panic

/-- The loop of `readPersistBinary`: the entries, each with the offset of its end, and the
last offset. -/
def readEntries (decode : Bytes → Option (Option Cmd)) (data : Bytes) :
    Nat → Nat → Except Stop (List (Entry Cmd × Nat) × Nat)
  | 0, offset => .ok ([], offset)
  | count + 1, offset =>
    match readInt64LE data offset with
    | none => .error .refused
    | some (term, offset) =>
      match readInt64LE data offset with
      | none => .error .refused
      | some (cmdLen, offset) =>
        if cmdLen < 0 ∨ (data.length - offset : Int) < cmdLen.toInt then .error .refused
        else
          let stop := offset + cmdLen.toInt.toNat
          match sliceAt data offset stop with
          | .error e => .error e
          | .ok cmdData =>
            match decodeCommandFromBytes decode cmdData with
            | none => .error .refused
            | some command =>
              match readEntries decode data count stop with
              | .error e => .error e
              | .ok (rest, last) =>
                .ok ((⟨term, command, cmdData⟩, stop) :: rest, last)

def readHeader (data : Bytes) : Header :=
  ⟨(getUInt64 (slice data 4 12)).toInt64, (getUInt64 (slice data 12 20)).toInt64,
    (getUInt64 (slice data 20 28)).toInt64, (getUInt64 (slice data 28 36)).toInt64⟩

def declaredCount (data : Bytes) : Int64 := (getUInt64 (slice data 36 44)).toInt64

/-- `readPersistBinary` up to its assignments: what the data holds, with the ends of the
entries.  `reserve` says for how many entries the process can make the two slices. -/
def readState (reserve : Nat → Bool) (decode : Bytes → Option (Option Cmd)) (data : Bytes) :
    Except Stop (Header × List (Entry Cmd × Nat)) :=
  if data.length < persistHeaderSize then .error .refused
  else if getUInt32 (slice data 0 4) ≠ persistFormatMagic then .error .refused
  else if declaredCount data < 0 then .error .refused
  else
    let logCount := (declaredCount data).toInt.toNat
    if !reserve logCount then .error .panic
    else
      match readEntries decode data logCount persistHeaderSize with
      | .error e => .error e
      | .ok (decoded, offset) =>
        if offset ≠ data.length then .error .refused else .ok (readHeader data, decoded)

@[simp] theorem length_putInt64 (v : Int64) : (putInt64 v).length = 8 := length_putUInt64 _

@[simp] theorem toInt64_getUInt64_putInt64 (v : Int64) : (getUInt64 (putInt64 v)).toInt64 = v := by
  simp [putInt64]

theorem putInt64_getUInt64 {bs : Bytes} (h : bs.length = 8) :
    putInt64 (getUInt64 bs).toInt64 = bs := by
  rw [putInt64, UInt64.toUInt64_toInt64, putUInt64_getUInt64 h]

@[simp] theorem length_headerBytes (header : Header) (logCount : Nat) :
    (headerBytes header logCount).length = persistHeaderSize := by
  simp [headerBytes, persistHeaderSize]

@[simp] theorem length_entryBytes (entry : Entry Cmd) :
    (entryBytes entry).length = 16 + entry.commandBytes.length := by
  simp only [entryBytes, length_append, length_putInt64]
  omega

theorem toInt_ofNat {n : Nat} (h : n < maxLen) : (Int64.ofNat n).toInt = n :=
  Int64.toInt_ofNat_of_lt h

theorem not_ofNat_neg {n : Nat} (h : n < maxLen) : ¬Int64.ofNat n < 0 := by
  rw [Int64.lt_iff_toInt_lt, toInt_ofNat h]
  exact not_lt.mpr (Int.natCast_nonneg n)

variable {codec} {entry : Entry Cmd} {log : List (Entry Cmd)}
  {decode : Bytes → Option (Option Cmd)}

/-- The command is what its bytes decode to. -/
structure Entry.Decoded (decode : Bytes → Option (Option Cmd)) (entry : Entry Cmd) : Prop where
  decodes : decodeCommandFromBytes decode entry.commandBytes = some entry.command
  short : entry.commandBytes.length < maxLen

/-- The encoder has nothing to add to such an entry, with whatever its bytes were decoded. -/
theorem Entry.Decoded.ensured (codec : CommandCodec Cmd) (h : entry.Decoded decode) :
    ensureEntryCommandEncoded codec entry = entry := by
  have hdec := h.decodes
  cases hbytes : entry.commandBytes with
  | nil =>
    have hnone : entry.command = none := by
      rw [hbytes] at hdec
      exact (Option.some.inj hdec).symm
    simp [ensureEntryCommandEncoded, hnone]
  | cons b bs => simp [ensureEntryCommandEncoded, hbytes]

theorem encoded_ensureEntryCommandEncoded (term : Int64) (command : Option Cmd) :
    (ensureEntryCommandEncoded codec ⟨term, command, []⟩).Decoded codec.decode := by
  cases command with
  | none => exact ⟨rfl, by simp [ensureEntryCommandEncoded, maxLen]⟩
  | some command =>
    refine ⟨?_, codec.length_encode command⟩
    have hne := codec.encode_ne_nil command
    simp [ensureEntryCommandEncoded, encodeCommandToBytes, decodeCommandFromBytes, hne,
      codec.decode_encode]

theorem encodeState_of_decoded {header : Header} (h : ∀ e ∈ log, e.Decoded decode) :
    encodeState codec header log = headerBytes header log.length ++ log.flatMap entryBytes := by
  have hsame : log.flatMap (fun e => entryBytes (ensureEntryCommandEncoded codec e)) =
      log.flatMap entryBytes := by
    refine flatMap_congr fun e he => ?_
    rw [(h e he).ensured codec]
  rw [encodeState, hsame]

theorem readInt64LE_field {before behind : Bytes} {v : Int64} (hoff : offset = before.length) :
    readInt64LE (before ++ putInt64 v ++ behind) offset = some (v, offset + 8) := by
  have hslice : slice (before ++ putInt64 v ++ behind) offset (offset + 8) = putInt64 v :=
    slice_field hoff (by simp [hoff])
  have hlong : ¬(before ++ putInt64 v ++ behind).length < offset + 8 := by
    simp only [length_append, length_putInt64]
    omega
  rw [readInt64LE, if_neg hlong, hslice, toInt64_getUInt64_putInt64]

/-- The entries with the offsets at which they end, the first one starting at `offset`. -/
def withEnds (offset : Nat) : List (Entry Cmd) → List (Entry Cmd × Nat)
  | [] => []
  | entry :: log =>
    let stop := offset + (entryBytes entry).length
    (entry, stop) :: withEnds stop log

@[simp] theorem length_withEnds (offset : Nat) (log : List (Entry Cmd)) :
    (withEnds offset log).length = log.length := by
  induction log generalizing offset with
  | nil => rfl
  | cons entry log ih => simp [withEnds, ih]

@[simp] theorem map_fst_withEnds (offset : Nat) (log : List (Entry Cmd)) :
    (withEnds offset log).map Prod.fst = log := by
  induction log generalizing offset with
  | nil => rfl
  | cons entry log ih => simp [withEnds, ih]

theorem withEnds_append (offset : Nat) (log log' : List (Entry Cmd)) :
    withEnds offset (log ++ log') =
      withEnds offset log ++ withEnds (offset + (log.flatMap entryBytes).length) log' := by
  induction log generalizing offset with
  | nil => simp [withEnds]
  | cons entry log ih =>
    simp only [cons_append, withEnds, ih, flatMap_cons, length_append]
    rw [Nat.add_assoc]

theorem getElem?_withEnds {keep : Nat} (hkeep : keep < log.length) :
    ((withEnds offset log).map Prod.snd)[keep]? =
      some (offset + ((log.take (keep + 1)).flatMap entryBytes).length) := by
  induction log generalizing keep offset with
  | nil => simp at hkeep
  | cons entry log ih =>
    cases keep with
    | zero => simp [withEnds]
    | succ keep =>
      rw [length_cons] at hkeep
      rw [withEnds, map_cons, getElem?_cons_succ, ih (by omega), take_succ_cons,
        flatMap_cons, length_append, Nat.add_assoc]

theorem withEnds_take (offset keep : Nat) (log : List (Entry Cmd)) :
    withEnds offset (log.take keep) = (withEnds offset log).take keep := by
  induction log generalizing offset keep with
  | nil => simp [withEnds]
  | cons entry log ih =>
    cases keep with
    | zero => rfl
    | succ keep => simp [withEnds, ih]

theorem readEntries_succ {before behind : Bytes} (h : entry.Decoded decode)
    (hdata : data = before ++ (entryBytes entry ++ behind)) (count : Nat) :
    readEntries decode data (count + 1) before.length =
      match readEntries decode data count (before.length + (entryBytes entry).length) with
      | .error e => .error e
      | .ok (rest, last) =>
        .ok ((entry, before.length + (entryBytes entry).length) :: rest, last) := by
  have hterm : readInt64LE data before.length = some (entry.term, before.length + 8) := by
    rw [hdata, entryBytes, append_assoc, ← append_assoc]
    exact readInt64LE_field rfl
  have hlen : readInt64LE data (before.length + 8) =
      some (Int64.ofNat entry.commandBytes.length, before.length + 8 + 8) := by
    rw [hdata, entryBytes, append_assoc, append_assoc, ← append_assoc before,
      ← append_assoc (before ++ _)]
    exact readInt64LE_field (by simp)
  have hstop : before.length + 8 + 8 + entry.commandBytes.length =
      before.length + (entryBytes entry).length := by
    rw [length_entryBytes]
    omega
  have hcmd : slice data (before.length + 8 + 8) (before.length + (entryBytes entry).length) =
      entry.commandBytes := by
    have hsplit : data = before ++ (putInt64 entry.term ++
        putInt64 (Int64.ofNat entry.commandBytes.length)) ++ entry.commandBytes ++ behind := by
      rw [hdata, entryBytes]
      simp only [append_assoc]
    rw [hsplit]
    apply slice_field
    · simp
    · rw [← hstop]
      simp
  have hlength : data.length = before.length + ((entryBytes entry).length + behind.length) := by
    rw [hdata, length_append, length_append]
  have hroom : ¬(Int64.ofNat entry.commandBytes.length < 0 ∨
      (data.length - (before.length + 8 + 8 : Nat) : Int) < entry.commandBytes.length) := by
    rw [not_or]
    refine ⟨not_ofNat_neg h.short, ?_⟩
    omega
  have hslice : sliceAt data (before.length + 8 + 8) (before.length + (entryBytes entry).length) =
      .ok entry.commandBytes := by
    rw [sliceAt, if_pos (by omega), hcmd]
  simp only [readEntries, hterm, hlen, toInt_ofNat h.short, if_neg hroom, Int.toNat_natCast, hstop,
    hslice, h.decodes]

theorem readEntries_written (h : ∀ e ∈ log, e.Decoded decode) (data before : Bytes)
    (hdata : data = before ++ log.flatMap entryBytes) :
    readEntries decode data log.length before.length =
      .ok (withEnds before.length log, data.length) := by
  induction log generalizing before with
  | nil => simp [readEntries, withEnds, hdata]
  | cons entry log ih =>
    have hentry := h entry mem_cons_self
    have hrest := ih (fun e he => h e (mem_cons_of_mem _ he)) (before ++ entryBytes entry)
      (by rw [hdata, flatMap_cons, append_assoc])
    rw [length_append] at hrest
    rw [length_cons, readEntries_succ hentry hdata, hrest]
    rfl

section

variable (header : Header) (logCount : Nat) (behind : Bytes)

include header logCount behind

theorem slice_headerBytes_count :
    slice (headerBytes header logCount ++ behind) 36 44 = putInt64 (Int64.ofNat logCount) := by
  simp only [headerBytes, ← append_assoc]
  exact slice_field (by simp) (by simp)

theorem slice_headerBytes_magic :
    slice (headerBytes header logCount ++ behind) 0 4 = putUInt32 persistFormatMagic := by
  rw [headerBytes, append_assoc]
  exact slice_field (a := []) rfl (by simp)

theorem readHeader_headerBytes :
    readHeader (headerBytes header logCount ++ behind) = header := by
  obtain ⟨currentTerm, votedFor, lastIncludedIndex, lastIncludedTerm⟩ := header
  have hterm : slice (headerBytes ⟨currentTerm, votedFor, lastIncludedIndex, lastIncludedTerm⟩
      logCount ++ behind) 4 12 = putInt64 currentTerm := by
    rw [headerBytes, append_assoc, append_assoc, ← append_assoc]
    exact slice_field (by simp) (by simp)
  have hvote : slice (headerBytes ⟨currentTerm, votedFor, lastIncludedIndex, lastIncludedTerm⟩
      logCount ++ behind) 12 20 = putInt64 votedFor := by
    simp only [headerBytes, append_assoc]
    rw [← append_assoc, ← append_assoc]
    exact slice_field (by simp) (by simp)
  have hix : slice (headerBytes ⟨currentTerm, votedFor, lastIncludedIndex, lastIncludedTerm⟩
      logCount ++ behind) 20 28 = putInt64 lastIncludedIndex := by
    simp only [headerBytes, append_assoc]
    rw [← append_assoc, ← append_assoc, ← append_assoc]
    exact slice_field (by simp) (by simp)
  have hlast : slice (headerBytes ⟨currentTerm, votedFor, lastIncludedIndex, lastIncludedTerm⟩
      logCount ++ behind) 28 36 = putInt64 lastIncludedTerm := by
    simp only [headerBytes, append_assoc]
    rw [← append_assoc, ← append_assoc, ← append_assoc, ← append_assoc]
    exact slice_field (by simp) (by simp)
  simp only [readHeader, hterm, hvote, hix, hlast, toInt64_getUInt64_putInt64]

end

theorem le_length_flatMap_entryBytes (log : List (Entry Cmd)) :
    log.length ≤ (log.flatMap entryBytes).length := by
  induction log with
  | nil => exact Nat.zero_le _
  | cons entry log ih =>
    rw [flatMap_cons, length_append, length_cons, length_entryBytes]
    omega

theorem readState_written {reserve : Nat → Bool} (header : Header)
    (h : ∀ e ∈ log, e.Decoded decode) (hreserve : reserve log.length = true)
    (hshort : (headerBytes header log.length ++ log.flatMap entryBytes).length < maxLen) :
    readState reserve decode (headerBytes header log.length ++ log.flatMap entryBytes) =
      .ok (header, withEnds persistHeaderSize log) := by
  have hcount : log.length < maxLen := by
    have hle := le_length_flatMap_entryBytes log
    rw [length_append] at hshort
    omega
  have hlong : ¬(headerBytes header log.length ++ log.flatMap entryBytes).length <
      persistHeaderSize := by
    rw [length_append, length_headerBytes]
    omega
  have hent := readEntries_written h _ (headerBytes header log.length) rfl
  rw [length_headerBytes] at hent
  have hdeclared : declaredCount (headerBytes header log.length ++ log.flatMap entryBytes) =
      Int64.ofNat log.length := by
    rw [declaredCount, slice_headerBytes_count, toInt64_getUInt64_putInt64]
  simp only [readState, if_neg hlong, slice_headerBytes_magic, getUInt32_putUInt32, hdeclared,
    not_ofNat_neg hcount, toInt_ofNat hcount, Int.toNat_natCast, hreserve, hent,
    readHeader_headerBytes, ne_eq, not_true, if_false, Bool.not_true, Bool.false_eq_true]

theorem of_readInt64LE {src : Bytes} {next : Nat} {v : Int64}
    (h : readInt64LE src offset = some (v, next)) :
    next = offset + 8 ∧ next ≤ src.length ∧ slice src offset next = putInt64 v := by
  rw [readInt64LE] at h
  split_ifs at h with hshort
  obtain ⟨rfl, rfl⟩ := Prod.mk.inj (Option.some.inj h)
  refine ⟨rfl, by omega, ?_⟩
  rw [putInt64_getUInt64]
  rw [length_slice (by omega) (by omega)]
  omega

theorem stop_le {cmdLen : Int64} (h : ¬(cmdLen < 0 ∨ (data.length - offset : Int) < cmdLen.toInt)) :
    (cmdLen.toInt.toNat : Int) = cmdLen.toInt ∧ offset + cmdLen.toInt.toNat ≤ data.length := by
  rw [not_or, Int64.lt_iff_toInt_lt] at h
  have hnon : 0 ≤ cmdLen.toInt := not_lt.mp h.1
  have hfits := h.2
  omega

theorem readEntries_ne_panic (hoff : offset ≤ data.length) :
    readEntries decode data count offset ≠ .error .panic := by
  induction count generalizing offset with
  | zero => simp [readEntries]
  | succ count ih =>
    rw [readEntries]
    split
    · simp
    · split
      · simp
      · rename_i cmdLen offset₂ hlen
        obtain ⟨-, hle, -⟩ := of_readInt64LE hlen
        split_ifs with hroom
        · simp
        · obtain ⟨-, hstop⟩ := stop_le hroom
          have hrest := ih hstop
          dsimp only
          rw [sliceAt, if_pos ⟨Nat.le_add_right .., hstop⟩]
          dsimp only
          split
          · simp
          · split
            · rename_i e he
              rw [he] at hrest
              intro heq
              cases heq
              exact hrest rfl
            · simp

variable {decoded : List (Entry Cmd × Nat)}

theorem of_readEntries {last : Nat} (hoff : offset ≤ data.length) (hdata : data.length < maxLen)
    (h : readEntries decode data count offset = .ok (decoded, last)) :
    ∃ log : List (Entry Cmd), decoded = withEnds offset log ∧ log.length = count ∧
      offset ≤ last ∧ last ≤ data.length ∧ slice data offset last = log.flatMap entryBytes ∧
      ∀ e ∈ log, e.Decoded decode := by
  induction count generalizing offset decoded last with
  | zero =>
    obtain ⟨rfl, rfl⟩ := Prod.mk.inj (Except.ok.inj h)
    exact ⟨[], rfl, rfl, le_refl _, hoff, by simp [slice], by simp⟩
  | succ count ih =>
    rw [readEntries] at h
    split at h
    · cases h
    · rename_i term offset₁ hterm
      split at h
      · cases h
      · rename_i cmdLen offset₂ hlen
        obtain ⟨rfl, hle₁, hbytes₁⟩ := of_readInt64LE hterm
        obtain ⟨rfl, hle₂, hbytes₂⟩ := of_readInt64LE hlen
        split_ifs at h with hroom
        obtain ⟨hnat, hstop⟩ := stop_le hroom
        dsimp only at h
        rw [sliceAt, if_pos ⟨Nat.le_add_right .., hstop⟩] at h
        dsimp only at h
        split at h
        · cases h
        · rename_i command hcom
          split at h
          · cases h
          · rename_i rest last' hrest
            obtain ⟨rfl, rfl⟩ := Prod.mk.inj (Except.ok.inj h)
            obtain ⟨log, rfl, hcount, hle, hlast, hslice, hlog⟩ := ih hstop hrest
            -- the entry that was read, with the bytes it was read from
            have hsize : (slice data (offset + 8 + 8)
                (offset + 8 + 8 + cmdLen.toInt.toNat)).length = cmdLen.toInt.toNat := by
              rw [length_slice (by omega) (by omega)]
              omega
            have hlenBytes : Int64.ofNat cmdLen.toInt.toNat = cmdLen := by
              rw [← Int64.toInt_inj, toInt_ofNat (by omega)]
              omega
            have hentry : entryBytes (⟨term, command, slice data (offset + 8 + 8)
                (offset + 8 + 8 + cmdLen.toInt.toNat)⟩ : Entry Cmd) =
                slice data offset (offset + 8 + 8 + cmdLen.toInt.toNat) := by
              rw [entryBytes]
              dsimp only
              rw [hsize, hlenBytes, ← hbytes₁, ← hbytes₂, slice_append_slice (by omega) (by omega),
                slice_append_slice (by omega) (by omega)]
            have hend : offset + (entryBytes (⟨term, command, slice data (offset + 8 + 8)
                (offset + 8 + 8 + cmdLen.toInt.toNat)⟩ : Entry Cmd)).length =
                offset + 8 + 8 + cmdLen.toInt.toNat := by
              rw [length_entryBytes, hsize]
              omega
            refine ⟨⟨term, command, slice data (offset + 8 + 8)
              (offset + 8 + 8 + cmdLen.toInt.toNat)⟩ :: log, ?_, by simp [hcount], by omega,
              hlast, ?_, ?_⟩
            · simp only [withEnds, hend]
            · rw [flatMap_cons, hentry, ← hslice, slice_append_slice (by omega) (by omega)]
            · intro e he
              rcases mem_cons.mp he with rfl | he
              · exact ⟨hcom, by dsimp only; omega⟩
              · exact hlog e he

theorem of_readState {reserve : Nat → Bool} {header : Header} (hdata : data.length < maxLen)
    (h : readState reserve decode data = .ok (header, decoded)) :
    ∃ log : List (Entry Cmd), decoded = withEnds persistHeaderSize log ∧
      persistHeaderSize ≤ data.length ∧ data.drop persistHeaderSize = log.flatMap entryBytes ∧
      (∀ e ∈ log, e.Decoded decode) ∧ header = readHeader data ∧
      getUInt32 (slice data 0 4) = persistFormatMagic ∧
      Int64.ofNat log.length = declaredCount data := by
  simp only [readState] at h
  split_ifs at h with hshort hmagic hneg
  split at h
  · cases h
  · rename_i offset hread
    split_ifs at h with hoff
    rw [not_not] at hoff
    obtain ⟨rfl, rfl⟩ := Prod.mk.inj (Except.ok.inj h)
    have hlong : persistHeaderSize ≤ data.length := not_lt.mp hshort
    obtain ⟨log, hdecoded, hcount, -, -, hslice, hlog⟩ := of_readEntries hlong hdata hread
    have hbody : data.drop persistHeaderSize = log.flatMap entryBytes := by
      rw [← hslice, hoff, slice, ← length_drop, take_length]
    refine ⟨log, hdecoded, hlong, hbody, hlog, rfl, not_not.mp hmagic, ?_⟩
    have hle := le_length_flatMap_entryBytes log
    rw [← hbody, length_drop] at hle
    rw [Int64.lt_iff_toInt_lt, Int64.toInt_zero] at hneg
    rw [← Int64.toInt_inj, toInt_ofNat (by omega), hcount]
    omega

/-- The reader panics exactly where it cannot make the slices. -/
theorem readState_eq_panic_iff {reserve : Nat → Bool} :
    readState reserve decode data = .error .panic ↔ persistHeaderSize ≤ data.length ∧
      getUInt32 (slice data 0 4) = persistFormatMagic ∧ 0 ≤ declaredCount data ∧
      reserve (declaredCount data).toInt.toNat = false := by
  unfold readState
  split_ifs with hshort hmagic hneg
  · simp [hshort]
  · simp [hmagic]
  · simp [Int64.not_le.mpr hneg]
  · have hlong := not_lt.mp hshort
    have hcalm : readEntries decode data (declaredCount data).toInt.toNat persistHeaderSize ≠
        .error .panic := readEntries_ne_panic hlong
    dsimp only
    cases reserve (declaredCount data).toInt.toNat with
    | false => exact iff_of_true rfl ⟨hlong, not_not.mp hmagic, Int64.not_lt.mp hneg, rfl⟩
    | true =>
      refine iff_of_false ?_ fun h => by cases h.2.2.2
      rw [if_neg (by decide)]
      split
      · rename_i e hread
        intro heq
        cases heq
        exact hcalm hread
      · split_ifs <;> simp

end OrbisKV.Encoding
