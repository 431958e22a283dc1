import OrbisKV.Persister.Generations
/-!
# Appends to the delta file

The delta file is whole when it is made of frames that all apply.
-/

namespace OrbisKV.Persist

open Lib Lib.Directory FilePersister List Option

namespace FilePersister

variable {crc32 : Bytes → UInt32} {fp : FilePersister} {state : Bytes}
  {path : FileName} {final : Bytes}

def DeltaIs (crc32 : Bytes → UInt32) (fp : FilePersister) (ps : List Bytes) : Prop :=
  match fp.currentRaftDeltaPath with
  | none => ps = []
  | some path => fp.dir.read path = some (.bytes (framesOf crc32 ps))

structure Holds (crc32 : Bytes → UInt32) (fp : FilePersister) (state : Bytes) : Prop where
  sound : fp.Sound
  frames : ∃ ps, (∀ p ∈ ps, p.length < 2 ^ 32) ∧ DeltaIs crc32 fp ps ∧
    appliedAll (readFile fp.dir fp.currentRaftStatePath) ps = some state

theorem Holds.readRaftState (h : Holds crc32 fp state) : fp.readRaftState crc32 = state := by
  obtain ⟨ps, hfit, hdelta, hap⟩ := h.frames
  unfold DeltaIs at hdelta
  rw [FilePersister.readRaftState]
  cases hpath : fp.currentRaftDeltaPath with
  | none =>
    rw [hpath] at hdelta
    obtain rfl : ps = [] := hdelta
    exact Option.some.inj hap
  | some path =>
    rw [hpath] at hdelta
    have hrep := replayDeltaFrames_frames hfit hap (stops_nil crc32 state)
    rw [List.append_nil] at hrep
    rw [composeRaftState_eq, readFile_of_read hdelta, hrep]

theorem Holds.hasDelta (h : Holds crc32 fp state) : fp.HasDelta := by
  obtain ⟨ps, -, hdelta, -⟩ := h.frames
  intro path hpath
  rw [DeltaIs, hpath] at hdelta
  exact congrArg isSome hdelta

structure Plain (name : FileName) : Prop where
  lasting : Lasting FileName.temp name
  hard : name ≠ .hardStateFile
  delta : ∀ gen, name ≠ .raftDelta gen

theorem Sound.plain_statePath (h : fp.Sound) : Plain fp.currentRaftStatePath := by
  unfold currentRaftStatePath
  rcases h.files with hlis | hunl
  · rw [hlis.raftStateRel]
    exact ⟨lasting_raftState _, by simp, by simp⟩
  · rw [hunl.eq_manifestOf, manifestOf]
    split
    · exact ⟨lasting_raftStateFile, by simp, by simp⟩
    · exact ⟨lasting_raftState _, by simp, by simp⟩

theorem Sound.plain_snapshotPath (h : fp.Sound) : Plain fp.currentSnapshotPath := by
  unfold currentSnapshotPath
  rcases h.snapshotRel with hnone | ⟨gen, -, hrel, -⟩
  · rw [hnone]
    exact ⟨lasting_snapshotFile, by simp, by simp⟩
  · rw [hrel]
    exact ⟨lasting_snapshot gen, by simp, by simp⟩

theorem Plain.ne_path {name : FileName} (hname : Plain name) (h : fp.Sound)
    (hpath : fp.currentRaftDeltaPath = some path) : name ≠ path :=
  (h.deltaPath hpath).1 ▸ hname.delta _

theorem Holds.of_same {fp' : FilePersister} (h : Holds crc32 fp state)
    (hman : fp'.manifest = fp.manifest) (hsound : fp'.Sound)
    (hread : ∀ name, Lasting FileName.temp name → name ≠ .hardStateFile →
      fp'.dir.read name = fp.dir.read name) :
    Holds crc32 fp' state ∧ fp'.readSnapshot = fp.readSnapshot := by
  obtain ⟨ps, hfit, hdelta, hap⟩ := h.frames
  have hpaths : fp'.currentRaftDeltaPath = fp.currentRaftDeltaPath ∧
      fp'.currentRaftStatePath = fp.currentRaftStatePath ∧
      fp'.currentSnapshotPath = fp.currentSnapshotPath := by
    rw [currentRaftDeltaPath, currentRaftStatePath, currentSnapshotPath, hman]
    exact ⟨rfl, rfl, rfl⟩
  have hbase : readFile fp'.dir fp.currentRaftStatePath = readFile fp.dir fp.currentRaftStatePath :=
    readFile_congr (hread _ h.sound.plain_statePath.lasting h.sound.plain_statePath.hard)
  refine ⟨⟨hsound, ps, hfit, ?_, ?_⟩, ?_⟩
  · rw [DeltaIs, hpaths.1]
    cases hpath : fp.currentRaftDeltaPath with
    | none =>
      rw [DeltaIs, hpath] at hdelta
      exact hdelta
    | some path =>
      rw [DeltaIs, hpath] at hdelta
      obtain ⟨rfl, -⟩ := h.sound.deltaPath hpath
      exact (hread _ (lasting_raftDelta _) (by simp)).trans hdelta
  · rw [hpaths.2.1, hbase]
    exact hap
  · rw [readSnapshot, hpaths.2.2]
    exact readFile_congr
      (hread _ h.sound.plain_snapshotPath.lasting h.sound.plain_snapshotPath.hard)

theorem Holds.commitHardState (h : Holds crc32 fp state) (hardstate : Bytes) :
    Holds crc32 (fp.commitHardState hardstate) state ∧
      (fp.commitHardState hardstate).readSnapshot = fp.readSnapshot :=
  h.of_same rfl (h.sound.commitHardState hardstate) fun _ => read_replace_of_ne

theorem Sound.holds_commit (h : fp.Sound) (crc32 : Bytes → UInt32) (raftstate : Bytes)
    (snapshot : Option Bytes) : Holds crc32 (fp.commitGeneration raftstate snapshot) raftstate := by
  have hcut := cut_exec fp.dir fp.manifest raftstate snapshot
  have hst := hcut.new _ (mem_items.mpr (Or.inl rfl))
  have hdelta := hcut.new _ (mem_items.mpr (Or.inr (Or.inr (Or.inl rfl))))
  exact ⟨h.commitGeneration raftstate snapshot, [], nofun, hdelta,
    congrArg some (readFile_of_read hst)⟩

theorem foldl_bytes (data : Bytes) (qs : List Bytes) :
    (qs.map fun q => Content.bytes (buildAppendFrame crc32 q)).foldl (· ++ ·) (.bytes data) =
      .bytes (data ++ framesOf crc32 qs) := by
  induction qs generalizing data with
  | nil => rw [map_nil, foldl_nil, framesOf_nil, List.append_nil]
  | cons q qs ih =>
    rw [map_cons, foldl_cons, Content.bytes_append, ih, framesOf_cons, append_assoc]

theorem read_appendOps {dir : Dir} {data : Bytes} (h : dir.read path = some (.bytes data))
    (qs : List Bytes) :
    (dir.exec (appendOps crc32 path qs)).read path = some (.bytes (data ++ framesOf crc32 qs)) := by
  obtain ⟨f, hf, hdata⟩ := map_eq_some_iff.mp h
  rw [Directory.read, appendOps, slot_appends_sync hf, hdata, foldl_bytes]
  rfl

theorem Holds.appendFrames (h : Holds crc32 fp state) (hpath : fp.currentRaftDeltaPath = some path)
    {qs : List Bytes} (hfit : ∀ q ∈ qs, q.length < 2 ^ 32)
    (hap : appliedAll state qs = some final) :
    Holds crc32 (fp.appendFrames crc32 path qs) final := by
  obtain ⟨ps, hps, hdelta, hst⟩ := h.frames
  rw [DeltaIs, hpath] at hdelta
  have hpath' : (fp.appendFrames crc32 path qs).currentRaftDeltaPath = some path := hpath
  refine ⟨h.sound.appendFrames crc32 hpath h.hasDelta qs, ps ++ qs, ?_, ?_, ?_⟩
  · intro p hp
    rcases mem_append.mp hp with hp | hp
    · exact hps p hp
    · exact hfit p hp
  · rw [DeltaIs, hpath', framesOf_append]
    exact read_appendOps hdelta qs
  · have hbase : readFile (fp.appendFrames crc32 path qs).dir fp.currentRaftStatePath =
        readFile fp.dir fp.currentRaftStatePath :=
      readFile_congr (read_extend_of_ne (extends_appendOps crc32 path qs)
        (h.sound.plain_statePath.ne_path h.sound hpath))
    rw [appliedAll_append]
    change (appliedAll (readFile _ fp.currentRaftStatePath) ps).bind _ = _
    rw [hbase, hst]
    exact hap

theorem readSnapshot_appendFrames (h : fp.Sound) (crc32 : Bytes → UInt32)
    (hpath : fp.currentRaftDeltaPath = some path) (qs : List Bytes) :
    (fp.appendFrames crc32 path qs).readSnapshot = fp.readSnapshot :=
  readFile_congr (read_extend_of_ne (extends_appendOps crc32 path qs)
    (h.plain_snapshotPath.ne_path h hpath))

theorem Holds.commitAppendRaftState (h : Holds crc32 fp state)
    (hpath : fp.currentRaftDeltaPath = some path) {qs : List Bytes}
    (hfit : ∀ q ∈ qs, q.length < 2 ^ 32) (hap : appliedAll state qs = some final) :
    ∃ fp', fp.commitAppendRaftState crc32 qs = some fp' ∧ Holds crc32 fp' final ∧
      fp'.currentRaftDeltaPath.isSome = true ∧ fp'.readSnapshot = fp.readSnapshot := by
  have hnext := h.appendFrames hpath hfit hap
  have hpath' : (fp.appendFrames crc32 path qs).currentRaftDeltaPath = some path := hpath
  have hsnap := readSnapshot_appendFrames h.sound crc32 hpath qs
  unfold FilePersister.commitAppendRaftState
  split
  · rename_i hnil
    subst hnil
    cases hap
    exact ⟨fp, rfl, h, by rw [hpath]; rfl, rfl⟩
  · rw [hpath]
    dsimp only
    cases hcom : (fp.appendFrames crc32 path qs).compaction crc32 path with
    | none => exact ⟨_, rfl, hnext, by rw [hpath']; rfl, hsnap⟩
    | some base =>
      -- the new base is the state that the frames lead to
      have hbase : base = final := by
        have hread := hnext.readRaftState
        rw [FilePersister.readRaftState, hpath'] at hread
        unfold compaction at hcom
        dsimp only at hcom
        split_ifs at hcom
        rw [← Option.some.inj hcom, hread]
      subst hbase
      have hkeep := hnext.sound.keepsSnapshot hpath'
      refine ⟨_, rfl, hnext.sound.holds_commit crc32 base none, rfl, ?_⟩
      have hswi := (hnext.sound.switches hkeep crc32 base).1
      exact (congrArg Prod.snd hswi).trans hsnap

theorem Sound.reopen (h : fp.Sound) (choice : FileName → Bool × Nat) :
    newFilePersister (fp.dir.crash choice) =
      ⟨fp.dir.crash choice, fp.manifest, defaultDeltaCompactBytes⟩ ∧
    (newFilePersister (fp.dir.crash choice)).Sound := by
  have hsame := same_crash h.safe choice
  have hsound := h.of_delta (fp.dir.crash choice) (fun name _ => safe_crash _ choice name)
    (fun name hname _ _ => hsame name hname)
    (fun hex => (fileExists_congr (hsame _ (lasting_raftDelta _))).trans hex)
    defaultDeltaCompactBytes
  exact ⟨hsound.2, hsound.2 ▸ hsound.1⟩

theorem Holds.reopen (h : Holds crc32 fp state) (choice : FileName → Bool × Nat) :
    Holds crc32 (newFilePersister (fp.dir.crash choice)) state := by
  obtain ⟨hopen, hsound⟩ := h.sound.reopen choice
  refine (h.of_same (by rw [hopen]) hsound ?_).1
  intro name hname _
  rw [hopen]
  exact same_crash h.sound.safe choice name hname

/-- What is left of the files when a crash hits the append of one frame and `j` bytes of it
are on the disk. -/
def tornBy (crc32 : Bytes → UInt32) (fp : FilePersister) (path : FileName) (torn : Bytes)
    (j : Nat) : Dir :=
  (fp.dir.run (.append path (.bytes (buildAppendFrame crc32 torn)))).crash fun _ =>
    (false, (readFile fp.dir path).length + j)

def appendBatches (crc32 : Bytes → UInt32) (fp : FilePersister) (batches : List (List Bytes)) :
    Option FilePersister :=
  batches.foldlM (fun fp payloads => fp.commitAppendRaftState crc32 payloads) fp

theorem read_tornBy (crc32 : Bytes → UInt32) {data : Bytes} (hsafe : (fp.dir.slot path).Safe)
    (h : fp.dir.read path = some (.bytes data)) (torn : Bytes) (j : Nat) :
    (fp.tornBy crc32 path torn j).read path =
      some (.bytes (data ++ (buildAppendFrame crc32 torn).take j)) := by
  obtain ⟨f, hf, hdata⟩ := map_eq_some_iff.mp h
  have hmax : max data.length (data.length + j) = data.length + j := by omega
  rw [tornBy, read_crash_append hsafe hf _ _ rfl, hdata, readFile_of_read h]
  change some (Content.bytes (List.take (max data.length _) _)) = _
  rw [hmax, take_length_add_append]

theorem Sound.open_tornBy (h : fp.Sound) (hpath : fp.currentRaftDeltaPath = some path)
    (crc32 : Bytes → UInt32) (torn : Bytes) (j : Nat) :
    (newFilePersister (fp.tornBy crc32 path torn j)).Sound ∧
    newFilePersister (fp.tornBy crc32 path torn j) =
      ⟨fp.tornBy crc32 path torn j, fp.manifest, defaultDeltaCompactBytes⟩ ∧
    ∀ name, Lasting FileName.temp name → name ≠ path →
      (fp.tornBy crc32 path torn j).read name = fp.dir.read name :=
  h.append_crash crc32 hpath [torn] 1 fun _ => (false, (readFile fp.dir path).length + j)

section

variable (h : Holds crc32 fp state) (hpath : fp.currentRaftDeltaPath = some path)

include h hpath

theorem Holds.tornBy_zero
    (torn : Bytes) : Holds crc32 (newFilePersister (fp.tornBy crc32 path torn 0)) state := by
  obtain ⟨ps, hfit, hdelta, hap⟩ := h.frames
  rw [DeltaIs, hpath] at hdelta
  obtain ⟨hsound, hopen, hother⟩ := h.sound.open_tornBy hpath crc32 torn 0
  refine (h.of_same (by rw [hopen]) hsound ?_).1
  intro name hname _
  rw [hopen]
  by_cases hne : name = path
  · subst hne
    have hread := read_tornBy crc32 (h.sound.safe name hname) hdelta torn 0
    rw [take_zero, List.append_nil] at hread
    rw [hdelta]
    exact hread
  · exact hother name hname hne

theorem Holds.readRaftState_tornBy {torn : Bytes} (htorn : torn.length < 2 ^ 32)
    {j : Nat} (hj : j < (buildAppendFrame crc32 torn).length) :
    (newFilePersister (fp.tornBy crc32 path torn j)).readRaftState crc32 = state := by
  obtain ⟨ps, hfit, hdelta, hap⟩ := h.frames
  rw [DeltaIs, hpath] at hdelta
  obtain ⟨-, hopen, hother⟩ := h.sound.open_tornBy hpath crc32 torn j
  have hpl := h.sound.plain_statePath
  have hbase : readFile (fp.tornBy crc32 path torn j) fp.currentRaftStatePath =
      readFile fp.dir fp.currentRaftStatePath :=
    readFile_congr (hother _ hpl.lasting (hpl.ne_path h.sound hpath))
  obtain ⟨hdeltaPath, -⟩ := h.sound.deltaPath hpath
  have hread := read_tornBy crc32
    (h.sound.safe path (hdeltaPath ▸ lasting_raftDelta _)) hdelta torn j
  have hpath' : currentRaftDeltaPath ⟨fp.tornBy crc32 path torn j, fp.manifest,
      defaultDeltaCompactBytes⟩ = some path := hpath
  have hrep := replayDeltaFrames_frames hfit hap (stops_of_none (nextFrame_torn htorn hj))
  rw [hopen, FilePersister.readRaftState, hpath', composeRaftState_eq, readFile_of_read hread]
  change (replayDeltaFrames crc32 (readFile _ fp.currentRaftStatePath) _).1 = _
  rw [hbase, hrep]

end

theorem Holds.appendBatches (h : Holds crc32 fp state)
    (hpath : fp.currentRaftDeltaPath.isSome = true) {batches : List (List Bytes)}
    (hfit : ∀ q ∈ batches.flatten, q.length < 2 ^ 32)
    (hap : appliedAll state batches.flatten = some final) :
    ∃ fp', fp.appendBatches crc32 batches = some fp' ∧ Holds crc32 fp' final := by
  induction batches generalizing fp state with
  | nil =>
    cases hap
    exact ⟨fp, rfl, h⟩
  | cons qs batches ih =>
    obtain ⟨path, hpath⟩ := isSome_iff_exists.mp hpath
    rw [flatten_cons, appliedAll_append, bind_eq_some_iff] at hap
    obtain ⟨next, hnext, hrest⟩ := hap
    rw [flatten_cons] at hfit
    obtain ⟨fp₁, hcomm, hholds, hpath₁, -⟩ := h.commitAppendRaftState hpath
      (fun q hq => hfit q (mem_append_left _ hq)) hnext
    obtain ⟨fp', hfp', hfinal⟩ := ih hholds hpath₁
      (fun q hq => hfit q (mem_append_right _ hq)) hrest
    refine ⟨fp', ?_, hfinal⟩
    rw [appendBatches, foldlM_cons, hcomm]
    exact hfp'

theorem appendBatches_of_flatten_nil {batches : List (List Bytes)} (h : batches.flatten = [])
    (fp : FilePersister) : fp.appendBatches crc32 batches = some fp := by
  induction batches with
  | nil => rfl
  | cons qs batches ih =>
    rw [flatten_cons, append_eq_nil_iff] at h
    rw [appendBatches, foldlM_cons, h.1]
    exact ih h.2

theorem Sound.readRaftState_reopen (h : fp.Sound) (choice : FileName → Bool × Nat) :
    (newFilePersister (fp.dir.crash choice)).readRaftState crc32 = fp.readRaftState crc32 := by
  have hsame := same_crash h.safe choice
  have hbase : readFile (fp.dir.crash choice) fp.currentRaftStatePath =
      readFile fp.dir fp.currentRaftStatePath := readFile_congr (hsame _ h.plain_statePath.lasting)
  rw [(h.reopen choice).1, readRaftState, readRaftState]
  change (composeRaftState crc32 _ fp.currentRaftStatePath fp.currentRaftDeltaPath).1 = _
  cases hpath : fp.currentRaftDeltaPath with
  | none => exact hbase
  | some path =>
    obtain ⟨rfl, -⟩ := h.deltaPath hpath
    rw [composeRaftState_eq, composeRaftState_eq, hbase,
      readFile_congr (hsame _ (lasting_raftDelta _))]

/-- Acknowledged appends survive a torn write in front of them if nothing of it reached the
disk, and those before it survive in any case. -/
theorem acknowledged_appends_survive (crc32 : Bytes → UInt32) {fp : FilePersister}
    (hfp : (runs crc32).Reachable CarefulStep fp) {path : FileName}
    (hpath : fp.currentRaftDeltaPath = some path) {base state final torn : Bytes} {ps : List Bytes}
    {batches : List (List Bytes)} {j : Nat} (hbase : readFile fp.dir fp.currentRaftStatePath = base)
    (hdelta : fp.dir.read path = some (.bytes (framesOf crc32 ps)))
    (hst : appliedAll base ps = some state) (hfinal : appliedAll state batches.flatten = some final)
    (hfit : ∀ p ∈ ps ++ torn :: batches.flatten, p.length < 2 ^ 32)
    (hj : j < (buildAppendFrame crc32 torn).length) (hclean : j = 0 ∨ batches.flatten = []) :
    ∃ fp', (newFilePersister (fp.tornBy crc32 path torn j)).appendBatches crc32 batches = some fp' ∧
      ∀ choice, (newFilePersister (fp'.dir.crash choice)).readRaftState crc32 = final := by
  have hholds : Holds crc32 fp state := by
    refine ⟨sound_of_reachable hfp, ps, fun p hp => hfit p (mem_append_left _ hp), ?_, ?_⟩
    · rw [DeltaIs, hpath]
      exact hdelta
    · rw [hbase, hst]
  have htail : ∀ p ∈ torn :: batches.flatten, p.length < 2 ^ 32 :=
    fun p hp => hfit p (mem_append_right _ hp)
  rcases hclean with rfl | hnone
  · have hopen := (hholds.sound.open_tornBy hpath crc32 torn 0).2.1
    have hsome : (newFilePersister (fp.tornBy crc32 path torn 0)).currentRaftDeltaPath.isSome =
        true := by
      rw [hopen]
      exact congrArg isSome hpath
    obtain ⟨fp', hfp', hend⟩ := (hholds.tornBy_zero hpath torn).appendBatches hsome
      (fun q hq => htail q (mem_cons_of_mem _ hq)) hfinal
    exact ⟨fp', hfp', fun choice => (hend.reopen choice).readRaftState⟩
  · rw [hnone] at hfinal
    cases hfinal
    refine ⟨_, appendBatches_of_flatten_nil hnone _, ?_⟩
    intro choice
    rw [(hholds.sound.open_tornBy hpath crc32 torn j).1.readRaftState_reopen choice]
    exact hholds.readRaftState_tornBy hpath (htail torn mem_cons_self) hj

def appended : FilePersister := Call.complete checksumIEEE (saved [1] [7]) (.append [patchTo 2])

theorem acknowledged_appends_survive_saved : appended.readRaftState checksumIEEE = [2] ∧
    ∃ fp', (newFilePersister (appended.tornBy checksumIEEE (.raftDelta 1) (patchTo 9)
        0)).appendBatches checksumIEEE [[patchTo 3]] = some fp' ∧
      ∀ choice, (newFilePersister (fp'.dir.crash choice)).readRaftState checksumIEEE = [3] := by
  have hbase : readFile appended.dir appended.currentRaftStatePath = [1] := by decide +kernel
  have hdelta : appended.dir.read (.raftDelta 1) =
      some (.bytes (framesOf checksumIEEE [patchTo 2])) := by decide +kernel
  have hfound : (saved [1] [7]).HasDelta := by
    intro path hpath
    rw [show (saved [1] [7]).currentRaftDeltaPath = some (.raftDelta 1) by decide +kernel] at hpath
    cases hpath
    decide +kernel
  have hstate : appliedAll [1] [patchTo 2] = some [2] := by decide +kernel
  obtain ⟨fp, hinit, hrun⟩ := reachable_saved checksumIEEE [1] [7]
  have hreach : (runs checksumIEEE).Reachable CarefulStep appended :=
    ⟨fp, hinit, hrun.step (a := .run (.append [patchTo 2])) hfound rfl⟩
  exact ⟨by decide +kernel, acknowledged_appends_survive checksumIEEE hreach (by decide +kernel)
    hbase hdelta hstate (by decide +kernel) (by decide +kernel) (by decide +kernel)
    (Or.inl rfl)⟩

theorem torn_byte_hides_append : ∃ fp', (newFilePersister
      ((saved [1] [7]).tornBy checksumIEEE (.raftDelta 1) (patchTo 2) 1)).appendBatches checksumIEEE
        [[patchTo 3]] = some fp' ∧ applied [1] (patchTo 3) = some [3] ∧
      (newFilePersister (fp'.dir.crash fun _ => (false, 0))).readRaftState checksumIEEE = [1] :=
  ⟨_, rfl, by decide +kernel, by decide +kernel⟩

end FilePersister

end OrbisKV.Persist
