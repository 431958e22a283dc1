import OrbisKV.Lib.FileSystem
import OrbisKV.Persister.Frames
/-!
# The file persister

The Raft state is a base file and the delta file of its generation.
-/

namespace OrbisKV.Persist

open Lib List

inductive FileName
  | manifest
  | raftState (gen : Nat)
  | raftDelta (gen : Nat)
  | snapshot (gen : Nat)
  | raftStateFile
  | snapshotFile
  | hardStateFile
  | temp (target : FileName)
deriving DecidableEq, Repr

/-- `persisterManifest` without the time; an empty path is `none`. -/
structure Manifest where
  generation : Nat := 0
  raftStateRel : Option FileName := none
  raftDeltaRel : Option FileName := none
  snapshotRel : Option FileName := none
deriving DecidableEq, Repr

inductive Content
  | bytes (data : Bytes)
  | manifest (m : Manifest)
deriving DecidableEq, Repr

namespace Content

def size : Content → Nat
  | bytes data => data.length
  | manifest _ => 1

def cut (k : Nat) : Content → Content
  | bytes data => bytes (data.take k)
  | manifest m => if k = 0 then bytes [] else manifest m

def append : Content → Content → Content
  | bytes data, bytes more => bytes (data ++ more)
  | c, _ => c

theorem cut_of_size_le {k : Nat} {c : Content} (h : c.size ≤ k) : cut k c = c := by
  cases c with
  | bytes data => rw [cut, take_of_length_le h]
  | manifest m =>
    have hk : k ≠ 0 := by
      rw [size] at h
      omega
    rw [cut, if_neg hk]

instance : Contents Content where
  append := append
  size := size
  cut := cut
  cut_of_size_le := cut_of_size_le

theorem bytes_append (data more : Bytes) : bytes data ++ bytes more = bytes (data ++ more) := rfl

end Content

abbrev Dir := Directory FileName Content

def readFile (dir : Dir) (name : FileName) : Bytes :=
  match dir.read name with
  | some (.bytes data) => data
  | _ => []

def fileExists (dir : Dir) (name : FileName) : Bool := (dir.read name).isSome

def durableWrite (target : FileName) (data : Content) : List (FileOp FileName Content) :=
  Directory.replace .temp target data

structure FilePersister where
  dir : Dir
  manifest : Manifest
  deltaCompactBytes : Int

namespace FilePersister

section

variable (fp : FilePersister)

def currentRaftStatePath : FileName := fp.manifest.raftStateRel.getD .raftStateFile

/-- `currentRaftDeltaPathLocked`, `none` for an empty path. -/
def currentRaftDeltaPath : Option FileName :=
  match fp.manifest.raftDeltaRel with
  | some rel => some rel
  | none => if 0 < fp.manifest.generation then some (.raftDelta fp.manifest.generation) else none

def currentSnapshotPath : FileName := fp.manifest.snapshotRel.getD .snapshotFile

end

def composeRaftState (crc32 : Bytes → UInt32) (dir : Dir) (basePath : FileName)
    (deltaPath : Option FileName) : Bytes × Nat :=
  let base := readFile dir basePath
  match deltaPath with
  | none => (base, 0)
  | some path =>
    let delta := readFile dir path
    if delta = [] then (base, 0) else replayDeltaFrames crc32 base delta

def readRaftState (crc32 : Bytes → UInt32) (fp : FilePersister) : Bytes :=
  (composeRaftState crc32 fp.dir fp.currentRaftStatePath fp.currentRaftDeltaPath).1

def readSnapshot (fp : FilePersister) : Bytes := readFile fp.dir fp.currentSnapshotPath

def nextManifest (m : Manifest) (snapshot : Option Bytes) : Manifest where
  generation := m.generation + 1
  raftStateRel := some (.raftState (m.generation + 1))
  raftDeltaRel := some (.raftDelta (m.generation + 1))
  snapshotRel :=
    match snapshot, m.snapshotRel with
    | none, some rel => some rel
    | _, _ => some (.snapshot (m.generation + 1))

/-- The snapshot file of `commitGeneration`: a new one, an empty one where there never
was a snapshot, or none. -/
def snapshotItem (m : Manifest) (snapshot : Option Bytes) : List (FileName × Content) :=
  match snapshot with
  | some data => [(.snapshot (m.generation + 1), .bytes data)]
  | none =>
    if m.snapshotRel = none then [(.snapshot (m.generation + 1), .bytes [])] else []

/-- The files that `commitGeneration` writes, in order. -/
def generationItems (m : Manifest) (raftstate : Bytes) (snapshot : Option Bytes) :
    List (FileName × Content) :=
  (.raftState (m.generation + 1), .bytes raftstate) :: (snapshotItem m snapshot ++
    [(.raftDelta (m.generation + 1), .bytes []), (.manifest, .manifest (nextManifest m snapshot))])

def commitOps (m : Manifest) (raftstate : Bytes) (snapshot : Option Bytes) :
    List (FileOp FileName Content) :=
  Directory.replaceAll .temp (generationItems m raftstate snapshot)

def commitGeneration (fp : FilePersister) (raftstate : Bytes) (snapshot : Option Bytes) :
    FilePersister :=
  { fp with
    dir := fp.dir.exec (commitOps fp.manifest raftstate snapshot)
    manifest := nextManifest fp.manifest snapshot }

def commitHardState (fp : FilePersister) (hardstate : Bytes) : FilePersister :=
  { fp with dir := fp.dir.exec (durableWrite .hardStateFile (.bytes hardstate)) }

def appendOps (crc32 : Bytes → UInt32) (path : FileName) (payloads : List Bytes) :
    List (FileOp FileName Content) :=
  (payloads.map fun p => Content.bytes (buildAppendFrame crc32 p)).map (.append path) ++
    [.sync path]

def appendFrames (crc32 : Bytes → UInt32) (fp : FilePersister) (path : FileName)
    (payloads : List Bytes) : FilePersister :=
  { fp with dir := fp.dir.exec (appendOps crc32 path payloads) }

/-- The state that `commitAppendRaftState` makes the base of a new generation, where the
delta file has grown to the threshold. -/
def compaction (crc32 : Bytes → UInt32) (fp : FilePersister) (path : FileName) : Option Bytes :=
  if fp.deltaCompactBytes ≤ 0 then none
  else if !fileExists fp.dir path then none
  else if ((readFile fp.dir path).length : Int) < fp.deltaCompactBytes then none
  else
    let state := (composeRaftState crc32 fp.dir fp.currentRaftStatePath (some path)).1
    if state = [] then none else some state

/-- `commitAppendRaftState`, `none` for an error. -/
def commitAppendRaftState (crc32 : Bytes → UInt32) (fp : FilePersister) (payloads : List Bytes) :
    Option FilePersister :=
  if payloads = [] then some fp
  else
    match fp.currentRaftDeltaPath with
    | none => none
    | some path =>
      let fp := fp.appendFrames crc32 path payloads
      match fp.compaction crc32 path with
      | none => some fp
      | some state => some (fp.commitGeneration state none)

def completeGenerations (dir : Dir) : List Nat :=
  dir.names.filterMap fun
    | .raftState gen => if fileExists dir (.snapshot gen) then some gen else none
    | _ => none

def latest (gens : List Nat) : Nat := gens.foldr max 0

/-- `discoverLatestCompleteGeneration`. -/
def discoverLatestCompleteGeneration (dir : Dir) : Manifest :=
  let best := latest (completeGenerations dir)
  if best = 0 then {}
  else
    { generation := best
      raftStateRel := some (.raftState best)
      raftDeltaRel := some (.raftDelta best)
      snapshotRel := some (.snapshot best) }

/-- `loadManifest`, which makes a delta file for a manifest that has none. -/
def loadManifest (dir : Dir) : Dir × Manifest :=
  match dir.read .manifest with
  | some (.manifest m) =>
    match m.raftStateRel, m.snapshotRel with
    | some raftStateRel, some snapshotRel =>
      let deltaRel := m.raftDeltaRel.getD (.raftDelta m.generation)
      if !fileExists dir raftStateRel then (dir, discoverLatestCompleteGeneration dir)
      else if !fileExists dir snapshotRel then (dir, discoverLatestCompleteGeneration dir)
      else
        (if fileExists dir deltaRel then dir else dir.exec (durableWrite deltaRel (.bytes [])),
          { m with raftDeltaRel := some deltaRel })
    | _, _ => (dir, discoverLatestCompleteGeneration dir)
  | _ => (dir, discoverLatestCompleteGeneration dir)

def defaultDeltaCompactBytes : Int := 4 * 1024 * 1024

def newFilePersister (dir : Dir) : FilePersister :=
  let (dir, manifest) := loadManifest dir
  ⟨dir, manifest, defaultDeltaCompactBytes⟩

@[simp] theorem composeRaftState_eq (crc32 : Bytes → UInt32) (dir : Dir)
    (basePath path : FileName) :
    composeRaftState crc32 dir basePath (some path) =
      replayDeltaFrames crc32 (readFile dir basePath) (readFile dir path) := by
  unfold composeRaftState
  dsimp only
  split
  · rename_i hnil
    rw [hnil]
    rfl
  · rfl

theorem readFile_congr {dir dir' : Dir} {name : FileName} (h : dir.read name = dir'.read name) :
    readFile dir name = readFile dir' name := by
  unfold readFile
  rw [h]

theorem readFile_of_read {dir : Dir} {name : FileName} {data : Bytes}
    (h : dir.read name = some (.bytes data)) : readFile dir name = data := by
  unfold readFile
  rw [h]

theorem le_latest {gens : List Nat} {gen : Nat} (h : gen ∈ gens) : gen ≤ latest gens := by
  induction gens with
  | nil => cases h
  | cons g gens ih =>
    rw [latest, foldr_cons]
    rcases mem_cons.mp h with rfl | h
    · exact Nat.le_max_left ..
    · exact Nat.le_trans (ih h) (Nat.le_max_right ..)

theorem latest_mem (gens : List Nat) : latest gens = 0 ∨ latest gens ∈ gens := by
  induction gens with
  | nil => exact Or.inl rfl
  | cons g gens ih =>
    rw [latest, foldr_cons]
    change max g (latest gens) = 0 ∨ max g (latest gens) ∈ g :: gens
    rcases Nat.le_total (latest gens) g with hle | hle
    · rw [Nat.max_eq_left hle]
      exact Or.inr mem_cons_self
    · rw [Nat.max_eq_right hle]
      exact ih.imp_right (mem_cons_of_mem _)

theorem mem_completeGenerations {dir : Dir} {gen : Nat} :
    gen ∈ completeGenerations dir ↔
      fileExists dir (.raftState gen) = true ∧ fileExists dir (.snapshot gen) = true := by
  rw [completeGenerations, mem_filterMap]
  constructor
  · rintro ⟨name, hname, hsome⟩
    cases name with
    | raftState g =>
      dsimp only at hsome
      split_ifs at hsome with hsnap
      cases hsome
      exact ⟨Directory.mem_names.mp hname, hsnap⟩
    | _ => cases hsome
  · rintro ⟨hraft, hsnap⟩
    exact ⟨.raftState gen, Directory.mem_names.mpr hraft, if_pos hsnap⟩

end FilePersister

end OrbisKV.Persist
