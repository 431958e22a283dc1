import OrbisKV.Lib.Transition
import OrbisKV.Persister.FilePersister
/-!
# Switching generations

A persister that is opened on the files of a crash finds its old state and snapshot or
the new ones.
-/

namespace OrbisKV.Persist

open Lib Lib.Directory FileName List Option

namespace FilePersister

def pair (crc32 : Bytes → UInt32) (fp : FilePersister) : Bytes × Bytes :=
  (fp.readRaftState crc32, fp.readSnapshot)

/-! ## Directories in order -/

structure Listed (dir : Dir) (m : Manifest) : Prop where
  manifest : dir.read .manifest = some (.manifest m)
  raftStateRel : m.raftStateRel = some (.raftState m.generation)
  raftDeltaRel : m.raftDeltaRel = some (.raftDelta m.generation)
  raftState : fileExists dir (.raftState m.generation) = true
  raftDelta : fileExists dir (.raftDelta m.generation) = true
  snapshot : ∃ gen, gen ≤ m.generation ∧ m.snapshotRel = some (.snapshot gen) ∧
    fileExists dir (.snapshot gen) = true

structure Unlisted (dir : Dir) (m : Manifest) : Prop where
  manifest : dir.read .manifest = none
  found : m = discoverLatestCompleteGeneration dir
  states : ∀ gen, fileExists dir (.snapshot gen) = true → fileExists dir (.raftState gen) = true
  deltas : ∀ gen, m.generation < gen → readFile dir (.raftDelta gen) = []

structure Sound (fp : FilePersister) : Prop where
  safe : AllSafe .temp fp.dir
  files : Listed fp.dir fp.manifest ∨ Unlisted fp.dir fp.manifest

variable {dir dir' : Dir} {m : Manifest} {fp : FilePersister} {crc32 : Bytes → UInt32}
  {snapshot : Option Bytes} {path : FileName}

theorem lasting_manifest : Lasting temp .manifest := nofun

theorem lasting_raftState (gen : Nat) : Lasting temp (.raftState gen) := nofun

theorem lasting_raftDelta (gen : Nat) : Lasting temp (.raftDelta gen) := nofun

theorem lasting_snapshot (gen : Nat) : Lasting temp (.snapshot gen) := nofun

theorem lasting_raftStateFile : Lasting temp .raftStateFile := nofun

theorem lasting_snapshotFile : Lasting temp .snapshotFile := nofun

theorem fileExists_congr {name : FileName} (h : dir.read name = dir'.read name) :
    fileExists dir name = fileExists dir' name := congrArg isSome h

theorem Listed.congr (h : Listed dir m) (hman : dir'.read .manifest = dir.read .manifest)
    (hfiles : ∀ name, Lasting temp name → fileExists dir name = true →
      fileExists dir' name = true) : Listed dir' m := by
  obtain ⟨gen, hle, hrel, hex⟩ := h.snapshot
  exact ⟨hman.trans h.manifest, h.raftStateRel, h.raftDeltaRel,
    hfiles _ (lasting_raftState _) h.raftState, hfiles _ (lasting_raftDelta _) h.raftDelta,
    gen, hle, hrel, hfiles _ (lasting_snapshot _) hex⟩

theorem open_listed (h : Listed dir m) :
    newFilePersister dir = ⟨dir, m, defaultDeltaCompactBytes⟩ := by
  obtain ⟨gen, -, hrel, hex⟩ := h.snapshot
  have hm : (⟨m.generation, some (.raftState m.generation), some (.raftDelta m.generation),
      some (.snapshot gen)⟩ : Manifest) = m := by
    rw [← h.raftStateRel, ← h.raftDeltaRel, ← hrel]
  have hload : loadManifest dir = (dir, m) := by
    unfold loadManifest
    rw [h.manifest]
    dsimp only
    rw [h.raftStateRel, hrel]
    dsimp only
    rw [h.raftDeltaRel, getD_some, h.raftState, hex, h.raftDelta]
    simp [hm]
  rw [newFilePersister, hload]

theorem open_unlisted (h : dir.read .manifest = none) : newFilePersister dir =
    ⟨dir, discoverLatestCompleteGeneration dir, defaultDeltaCompactBytes⟩ := by
  have hload : loadManifest dir = (dir, discoverLatestCompleteGeneration dir) := by
    simp [loadManifest, h]
  rw [newFilePersister, hload]

/-! ## The generation found without a manifest -/

def manifestOf (best : Nat) : Manifest :=
  if best = 0 then {}
  else
    { generation := best
      raftStateRel := some (.raftState best)
      raftDeltaRel := some (.raftDelta best)
      snapshotRel := some (.snapshot best) }

@[simp] theorem generation_manifestOf (best : Nat) : (manifestOf best).generation = best := by
  unfold manifestOf
  split
  · rename_i hzero
    exact hzero.symm
  · rfl

theorem discover_eq_manifestOf (dir : Dir) : discoverLatestCompleteGeneration dir =
    manifestOf (latest (completeGenerations dir)) := rfl

theorem discover_eq {best : Nat} (hmem : 0 < best → fileExists dir (.raftState best) = true ∧
      fileExists dir (.snapshot best) = true)
    (hmax : ∀ gen, best < gen → fileExists dir (.snapshot gen) = false) :
    discoverLatestCompleteGeneration dir = manifestOf best := by
  have hbest : latest (completeGenerations dir) = best := by
    apply Nat.le_antisymm
    · rcases latest_mem (completeGenerations dir) with hzero | hin
      · omega
      · by_contra hlt
        have hsnap := (mem_completeGenerations.mp hin).2
        rw [hmax _ (Nat.lt_of_not_le hlt)] at hsnap
        cases hsnap
    · rcases Nat.eq_zero_or_pos best with hzero | hpos
      · omega
      · exact le_latest (mem_completeGenerations.mpr (hmem hpos))
  rw [discover_eq_manifestOf, hbest]

namespace Unlisted

section

variable (h : Unlisted dir m)

include h

theorem generation_eq : m.generation = latest (completeGenerations dir) := by
  rw [h.found, discover_eq_manifestOf, generation_manifestOf]

theorem eq_manifestOf : m = manifestOf m.generation := by
  rw [h.generation_eq, ← discover_eq_manifestOf]
  exact h.found

theorem complete (hpos : 0 < m.generation) :
    fileExists dir (.raftState m.generation) = true ∧
      fileExists dir (.snapshot m.generation) = true := by
  rw [h.generation_eq] at hpos ⊢
  rcases latest_mem (completeGenerations dir) with hzero | hin
  · omega
  · exact mem_completeGenerations.mp hin

theorem snapshot_none {gen : Nat} (hgen : m.generation < gen) :
    fileExists dir (.snapshot gen) = false := by
  by_contra hex
  rw [Bool.not_eq_false] at hex
  have hle := le_latest (mem_completeGenerations.mpr ⟨h.states gen hex, hex⟩)
  rw [h.generation_eq] at hgen
  omega

theorem congr (hman : dir'.read .manifest = dir.read .manifest)
    (hst : ∀ gen, fileExists dir' (.raftState gen) = fileExists dir (.raftState gen))
    (hsnap : ∀ gen, fileExists dir' (.snapshot gen) = fileExists dir (.snapshot gen))
    (hdelta : ∀ gen, m.generation < gen →
      readFile dir' (.raftDelta gen) = readFile dir (.raftDelta gen)) : Unlisted dir' m where
  manifest := hman.trans h.manifest
  found := by
    refine h.eq_manifestOf.trans (Eq.symm ?_)
    apply discover_eq
    · intro hpos
      rw [hst, hsnap]
      exact h.complete hpos
    · intro gen hgen
      rw [hsnap]
      exact h.snapshot_none hgen
  states := by
    intro gen
    rw [hst, hsnap]
    exact h.states gen
  deltas := by
    intro gen hgen
    rw [hdelta gen hgen]
    exact h.deltas gen hgen

end

end Unlisted

/-! ## What a persister in order gives back -/

theorem Listed.pair_eq (h : Listed dir m) {gen : Nat}
    (hrel : m.snapshotRel = some (.snapshot gen)) (threshold : Int) :
    pair crc32 ⟨dir, m, threshold⟩ =
      ((replayDeltaFrames crc32 (readFile dir (.raftState m.generation))
        (readFile dir (.raftDelta m.generation))).1, readFile dir (.snapshot gen)) := by
  simp [pair, readRaftState, readSnapshot, currentRaftStatePath, currentRaftDeltaPath,
    currentSnapshotPath, h.raftStateRel, h.raftDeltaRel, hrel]

theorem pair_manifestOf_zero (dir : Dir) (threshold : Int) :
    pair crc32 ⟨dir, manifestOf 0, threshold⟩ =
      (readFile dir .raftStateFile, readFile dir .snapshotFile) := rfl

theorem pair_manifestOf_pos {best : Nat} (hpos : 0 < best) (dir : Dir) (threshold : Int) :
    pair crc32 ⟨dir, manifestOf best, threshold⟩ =
      ((replayDeltaFrames crc32 (readFile dir (.raftState best))
        (readFile dir (.raftDelta best))).1,
        readFile dir (.snapshot best)) := by
  have hne : best ≠ 0 := Nat.ne_of_gt hpos
  simp [pair, readRaftState, readSnapshot, currentRaftStatePath, currentRaftDeltaPath,
    currentSnapshotPath, manifestOf, hne]

/-! ## The files of a commit -/

def written (m : Manifest) (snapshot : Option Bytes) : Option Bytes :=
  match snapshot with
  | some data => some data
  | none => if m.snapshotRel = none then some [] else none

theorem snapshotRel_of_written {m : Manifest} {data : Bytes} (h : written m snapshot = some data) :
    (nextManifest m snapshot).snapshotRel = some (.snapshot (m.generation + 1)) := by
  unfold nextManifest
  cases snapshot with
  | some s => rfl
  | none =>
    cases hrel : m.snapshotRel with
    | none => rfl
    | some rel => simp [written, hrel] at h

theorem generationItems_eq (m : Manifest) (raftstate : Bytes) (snapshot : Option Bytes) :
    generationItems m raftstate snapshot = (.raftState (m.generation + 1), .bytes raftstate) ::
      ((written m snapshot).toList.map (fun data =>
        (FileName.snapshot (m.generation + 1), Content.bytes data)) ++
      [(.raftDelta (m.generation + 1), .bytes []),
        (.manifest, .manifest (nextManifest m snapshot))]) := by
  unfold generationItems snapshotItem written
  cases snapshot with
  | some data => rfl
  | none =>
    dsimp only
    split <;> rfl

theorem mem_items {raftstate : Bytes} {item : FileName × Content} :
    item ∈ generationItems m raftstate snapshot ↔
      item = (.raftState (m.generation + 1), .bytes raftstate) ∨
      (∃ data, written m snapshot = some data ∧
        item = (.snapshot (m.generation + 1), .bytes data)) ∨
      item = (.raftDelta (m.generation + 1), .bytes []) ∨
      item = (.manifest, .manifest (nextManifest m snapshot)) := by
  rw [generationItems_eq]
  cases written m snapshot <;> simp

theorem lasting_items (m : Manifest) (raftstate : Bytes) (snapshot : Option Bytes) :
    ∀ item ∈ generationItems m raftstate snapshot, Lasting temp item.1 := by
  intro item hitem
  rcases mem_items.mp hitem with rfl | ⟨data, -, rfl⟩ | rfl | rfl
  · exact lasting_raftState _
  · exact lasting_snapshot _
  · exact lasting_raftDelta _
  · exact lasting_manifest

theorem nodup_items (m : Manifest) (raftstate : Bytes) (snapshot : Option Bytes) :
    ((generationItems m raftstate snapshot).map Prod.fst).Nodup := by
  rw [generationItems_eq]
  cases written m snapshot <;> simp

structure Cut (dir : Dir) (m : Manifest) (raftstate : Bytes) (snapshot : Option Bytes)
    (taken : List (FileName × Content)) (dir' : Dir) : Prop where
  sub : ∀ item ∈ taken, item ∈ generationItems m raftstate snapshot
  new : ∀ item ∈ taken, dir'.read item.1 = some item.2
  old : ∀ name, Lasting temp name → (∀ c, (name, c) ∉ taken) → dir'.read name = dir.read name
  state : ∀ c, (.snapshot (m.generation + 1), c) ∈ taken →
    (.raftState (m.generation + 1), .bytes raftstate) ∈ taken
  whole : ∀ c, (.manifest, c) ∈ taken → ∀ item ∈ generationItems m raftstate snapshot, item ∈ taken

theorem cut_take (dir : Dir) (m : Manifest) (raftstate : Bytes)
    (snapshot : Option Bytes) (i : Nat) :
    Cut dir m raftstate snapshot ((generationItems m raftstate snapshot).take i)
      (dir.exec (replaceAll .temp ((generationItems m raftstate snapshot).take i))) where
  sub := fun item => mem_of_mem_take
  new := by
    intro item hitem
    have hnodup : (((generationItems m raftstate snapshot).take i).map Prod.fst).Nodup := by
      rw [map_take]
      exact (nodup_items m raftstate snapshot).sublist (take_sublist ..)
    exact read_replaceAll_of_mem (lasting_items _ _ _ _ (mem_of_mem_take hitem)) hnodup hitem
  old := by
    intro name hname hnone
    apply read_replaceAll_of_notMem hname
    intro hmem
    obtain ⟨⟨n, c⟩, hitem, rfl⟩ := mem_map.mp hmem
    exact hnone c hitem
  state := by
    intro c hc
    cases i with
    | zero => cases hc
    | succ i =>
      rw [generationItems_eq, take_succ_cons]
      exact mem_cons_self
  whole := by
    intro c hc item hitem
    by_cases hi : (generationItems m raftstate snapshot).length ≤ i
    · rwa [take_of_length_le hi]
    · -- the manifest is the last of the files
      exfalso
      have hlast : generationItems m raftstate snapshot =
          (generationItems m raftstate snapshot).dropLast ++
            [(.manifest, .manifest (nextManifest m snapshot))] := by
        rw [generationItems_eq]
        cases written m snapshot <;> rfl
      have hfr : (FileName.manifest, c) ∈ (generationItems m raftstate snapshot).dropLast := by
        rw [dropLast_eq_take]
        exact take_subset_take_left _ (by omega) hc
      have hnodup := nodup_items m raftstate snapshot
      rw [hlast, map_append, nodup_append] at hnodup
      exact hnodup.2.2 _ (mem_map_of_mem hfr) _ (mem_map_of_mem mem_cons_self) rfl

theorem Cut.congr {raftstate : Bytes} {taken : List (FileName × Content)}
    (h : Cut dir m raftstate snapshot taken dir') {dir'' : Dir} (hsame : Same temp dir'' dir') :
    Cut dir m raftstate snapshot taken dir'' where
  sub := h.sub
  new := by
    intro item hitem
    rw [hsame _ (lasting_items _ _ _ _ (h.sub item hitem))]
    exact h.new item hitem
  old := by
    intro name hname hnone
    rw [hsame name hname]
    exact h.old name hname hnone
  state := h.state
  whole := h.whole

theorem cut_crash (h : AllSafe temp dir) (m : Manifest) (raftstate : Bytes)
    (snapshot : Option Bytes) (k : Nat) (choice : FileName → Bool × Nat) :
    ∃ taken, Cut dir m raftstate snapshot taken
      ((dir.exec ((commitOps m raftstate snapshot).take k)).crash choice) := by
  obtain ⟨i, hi⟩ := crash_replaceAll h (lasting_items m raftstate snapshot) k choice
  exact ⟨_, (cut_take dir m raftstate snapshot i).congr hi⟩

theorem cut_exec (dir : Dir) (m : Manifest) (raftstate : Bytes) (snapshot : Option Bytes) :
    Cut dir m raftstate snapshot (generationItems m raftstate snapshot)
      (dir.exec (commitOps m raftstate snapshot)) := by
  have hcut := cut_take dir m raftstate snapshot (generationItems m raftstate snapshot).length
  rwa [take_length] at hcut

/-! ## What a commit leads to -/

def newPair (fp : FilePersister) (raftstate : Bytes) (snapshot : Option Bytes) : Bytes × Bytes :=
  (raftstate, snapshot.getD fp.readSnapshot)

def KeepsSnapshot (fp : FilePersister) (snapshot : Option Bytes) : Prop :=
  snapshot = none → fp.manifest.snapshotRel = none → fp.readSnapshot = []

theorem KeepsSnapshot.written {data : Bytes} (h : fp.KeepsSnapshot snapshot)
    (hw : written fp.manifest snapshot = some data) : data = snapshot.getD fp.readSnapshot := by
  cases snapshot with
  | some s =>
    cases hw
    rfl
  | none =>
    unfold FilePersister.written at hw
    dsimp only at hw
    split_ifs at hw with hrel
    cases hw
    exact (h rfl hrel).symm

theorem Sound.snapshotRel (h : fp.Sound) : fp.manifest.snapshotRel = none ∨
    ∃ gen, gen ≤ fp.manifest.generation ∧ fp.manifest.snapshotRel = some (.snapshot gen) ∧
      fileExists fp.dir (.snapshot gen) = true := by
  rcases h.files with hlis | hunl
  · exact .inr hlis.snapshot
  · rcases Nat.eq_zero_or_pos fp.manifest.generation with hzero | hpos
    · left
      rw [hunl.eq_manifestOf, hzero]
      rfl
    · right
      refine ⟨_, Nat.le_refl _, ?_, (hunl.complete hpos).2⟩
      rw [hunl.eq_manifestOf, manifestOf, if_neg (Nat.ne_of_gt hpos)]

section

variable {raftstate : Bytes} {snapshot : Option Bytes} {taken : List (FileName × Content)}
  {c : Content}

theorem Cut.listed (hcut : Cut fp.dir fp.manifest raftstate snapshot taken dir') (h : fp.Sound)
    (hc : (.manifest, c) ∈ taken) (crc32 : Bytes → UInt32) (threshold : Int) :
    Listed dir' (nextManifest fp.manifest snapshot) ∧
      pair crc32 ⟨dir', nextManifest fp.manifest snapshot, threshold⟩ =
        (raftstate, (written fp.manifest snapshot).getD fp.readSnapshot) := by
  have hall := hcut.whole c hc
  have hst := hcut.new _ (hall _ (mem_items.mpr (.inl rfl)))
  have hdelta := hcut.new _ (hall _ (mem_items.mpr (.inr (.inr (.inl rfl)))))
  have hman := hcut.new _ (hall _ (mem_items.mpr (.inr (.inr (.inr rfl)))))
  -- the snapshot of the new manifest, and what it holds
  have hsnap : ∃ gen, gen ≤ fp.manifest.generation + 1 ∧
      (nextManifest fp.manifest snapshot).snapshotRel = some (.snapshot gen) ∧
      fileExists dir' (.snapshot gen) = true ∧
      readFile dir' (.snapshot gen) = (written fp.manifest snapshot).getD fp.readSnapshot := by
    cases hw : written fp.manifest snapshot with
    | some data =>
      have hread := hcut.new _ (hall _ (mem_items.mpr (.inr (.inl ⟨data, hw, rfl⟩))))
      exact ⟨_, Nat.le_refl _, snapshotRel_of_written hw, congrArg isSome hread,
        readFile_of_read hread⟩
    | none =>
      obtain rfl : snapshot = none := by
        cases snapshot with
        | none => rfl
        | some s => cases hw
      rcases h.snapshotRel with hnone | ⟨gen, hgen, hrel, hex⟩
      · simp [written, hnone] at hw
      · have hold : dir'.read (.snapshot gen) = fp.dir.read (.snapshot gen) := by
          apply hcut.old _ (lasting_snapshot gen)
          intro c hmem
          rcases mem_items.mp (hcut.sub _ hmem) with heq | ⟨data, hdata, -⟩ | heq | heq
          · cases heq
          · rw [hw] at hdata
            cases hdata
          · cases heq
          · cases heq
        refine ⟨gen, by omega, ?_, ?_, ?_⟩
        · simp [nextManifest, hrel]
        · rw [fileExists_congr hold, hex]
        · rw [readFile_congr hold]
          simp [readSnapshot, currentSnapshotPath, hrel]
  obtain ⟨gen, hgen, hrel, hex, hread⟩ := hsnap
  have hlis : Listed dir' (nextManifest fp.manifest snapshot) :=
    ⟨hman, rfl, rfl, congrArg isSome hst, congrArg isSome hdelta, gen, hgen, hrel, hex⟩
  refine ⟨hlis, ?_⟩
  rw [hlis.pair_eq hrel]
  simp [nextManifest, hread, readFile_of_read hst, readFile_of_read hdelta]
  rfl

theorem Cut.committed (hcut : Cut fp.dir fp.manifest raftstate snapshot taken dir') (h : fp.Sound)
    (hkeep : fp.KeepsSnapshot snapshot) (hc : (.manifest, c) ∈ taken) (crc32 : Bytes → UInt32)
    (threshold : Int) :
    Listed dir' (nextManifest fp.manifest snapshot) ∧
      pair crc32 ⟨dir', nextManifest fp.manifest snapshot, threshold⟩ =
        fp.newPair raftstate snapshot := by
  obtain ⟨hlis, hpair⟩ := hcut.listed h hc crc32 threshold
  refine ⟨hlis, hpair.trans ?_⟩
  rw [newPair]
  cases hw : written fp.manifest snapshot with
  | some data => rw [getD_some, hkeep.written hw]
  | none =>
    cases snapshot with
    | none => rfl
    | some s => cases hw

theorem Cut.read_of_ne (hcut : Cut dir m raftstate snapshot taken dir') {name : FileName}
    (hname : Lasting temp name) (hman : name ≠ .manifest)
    (hst : name ≠ .raftState (m.generation + 1)) (hdelta : name ≠ .raftDelta (m.generation + 1))
    (hsnap : name ≠ .snapshot (m.generation + 1)) : dir'.read name = dir.read name := by
  apply hcut.old name hname
  intro c hc
  rcases mem_items.mp (hcut.sub _ hc) with heq | ⟨data, -, heq⟩ | heq | heq
  · exact hst (Prod.mk.inj heq).1
  · exact hsnap (Prod.mk.inj heq).1
  · exact hdelta (Prod.mk.inj heq).1
  · exact hman (Prod.mk.inj heq).1

theorem Cut.stays (hcut : Cut dir m raftstate snapshot taken dir') {name : FileName}
    (hname : Lasting temp name) (hex : fileExists dir name = true) :
    fileExists dir' name = true := by
  by_cases hin : ∃ c, (name, c) ∈ taken
  · obtain ⟨c, hc⟩ := hin
    exact congrArg isSome (hcut.new _ hc)
  · rw [fileExists_congr (hcut.old _ hname (not_exists.mp hin)), hex]

theorem Cut.kept (hcut : Cut fp.dir fp.manifest raftstate snapshot taken dir')
    (h : Listed fp.dir fp.manifest) (hnone : ∀ c, (.manifest, c) ∉ taken)
    (crc32 : Bytes → UInt32) (threshold : Int) :
    Listed dir' fp.manifest ∧ pair crc32 ⟨dir', fp.manifest, threshold⟩ = fp.pair crc32 := by
  have hst : dir'.read (.raftState fp.manifest.generation) =
      fp.dir.read (.raftState fp.manifest.generation) :=
    hcut.read_of_ne (lasting_raftState _) nofun (by simp) nofun nofun
  have hdelta : dir'.read (.raftDelta fp.manifest.generation) =
      fp.dir.read (.raftDelta fp.manifest.generation) :=
    hcut.read_of_ne (lasting_raftDelta _) nofun nofun (by simp) nofun
  have hsnap : ∀ gen, gen ≤ fp.manifest.generation →
      dir'.read (.snapshot gen) = fp.dir.read (.snapshot gen) := by
    intro gen hgen
    apply hcut.read_of_ne (lasting_snapshot gen) nofun nofun nofun
    rw [ne_eq, FileName.snapshot.injEq]
    omega
  have hlis := h.congr (hcut.old _ lasting_manifest hnone) fun _ => hcut.stays
  obtain ⟨gen, hgen, hrel, -⟩ := h.snapshot
  refine ⟨hlis, ?_⟩
  rw [hlis.pair_eq hrel, readFile_congr hst, readFile_congr hdelta, readFile_congr (hsnap gen hgen)]
  exact (h.pair_eq hrel fp.deltaCompactBytes).symm

theorem Cut.snapshot_of_ne (hcut : Cut dir m raftstate snapshot taken dir') {gen : Nat}
    (hgen : gen ≠ m.generation + 1) : dir'.read (.snapshot gen) = dir.read (.snapshot gen) := by
  apply hcut.read_of_ne (lasting_snapshot gen) nofun nofun nofun
  rwa [ne_eq, FileName.snapshot.injEq]

theorem Cut.delta_nil (hcut : Cut dir m raftstate snapshot taken dir') (h : Unlisted dir m)
    {gen : Nat} (hgen : m.generation < gen) : readFile dir' (.raftDelta gen) = [] := by
  by_cases hin : ∃ c, (raftDelta gen, c) ∈ taken
  · obtain ⟨c, hc⟩ := hin
    rcases mem_items.mp (hcut.sub _ hc) with heq | ⟨data, -, heq⟩ | heq | heq
    · cases heq
    · cases heq
    · have hread : dir'.read (.raftDelta gen) = some c := hcut.new _ hc
      rw [(Prod.mk.inj heq).2] at hread
      exact readFile_of_read hread
    · cases heq
  · rw [readFile_congr (hcut.old _ (lasting_raftDelta gen) (not_exists.mp hin))]
    exact h.deltas gen hgen

section

variable (hcut : Cut fp.dir fp.manifest raftstate snapshot taken dir')

include hcut

theorem Cut.found_next (h : Unlisted fp.dir fp.manifest) (hkeep : fp.KeepsSnapshot snapshot)
    (hnone : ∀ c, (.manifest, c) ∉ taken) (hc : (.snapshot (fp.manifest.generation + 1), c) ∈ taken)
    (crc32 : Bytes → UInt32) (threshold : Int) :
    Unlisted dir' (discoverLatestCompleteGeneration dir') ∧
      pair crc32 ⟨dir', discoverLatestCompleteGeneration dir', threshold⟩ =
        fp.newPair raftstate snapshot := by
  obtain ⟨data, hw, rfl⟩ : ∃ data, written fp.manifest snapshot = some data ∧ c = .bytes data := by
    rcases mem_items.mp (hcut.sub _ hc) with heq | ⟨data, hw, heq⟩ | heq | heq
    · cases heq
    · exact ⟨data, hw, (Prod.mk.inj heq).2⟩
    · cases heq
    · cases heq
  have hst : dir'.read (.raftState (fp.manifest.generation + 1)) = some (.bytes raftstate) :=
    hcut.new _ (hcut.state _ hc)
  have hread : dir'.read (.snapshot (fp.manifest.generation + 1)) = some (.bytes data) :=
    hcut.new _ hc
  have hfound : discoverLatestCompleteGeneration dir' =
      manifestOf (fp.manifest.generation + 1) := by
    apply discover_eq
    · intro _
      exact ⟨congrArg isSome hst, congrArg isSome hread⟩
    · intro gen hgen
      rw [fileExists_congr (hcut.snapshot_of_ne (by omega))]
      exact h.snapshot_none (by omega)
  refine ⟨⟨(hcut.old _ lasting_manifest hnone).trans h.manifest, rfl, ?_, ?_⟩, ?_⟩
  · intro gen hex
    by_cases hgen : gen = fp.manifest.generation + 1
    · rw [hgen]
      exact congrArg isSome hst
    · rw [fileExists_congr (hcut.snapshot_of_ne hgen)] at hex
      exact hcut.stays (lasting_raftState _) (h.states gen hex)
  · intro gen hgen
    rw [hfound, generation_manifestOf] at hgen
    exact hcut.delta_nil h (by omega)
  · rw [hfound, pair_manifestOf_pos (by omega), readFile_of_read hst, readFile_of_read hread,
      hcut.delta_nil h (by omega), hkeep.written hw]
    rfl

theorem Cut.found_same (h : Unlisted fp.dir fp.manifest) (hnone : ∀ c, (.manifest, c) ∉ taken)
    (hsnap : ∀ c, (.snapshot (fp.manifest.generation + 1), c) ∉ taken) (crc32 : Bytes → UInt32)
    (threshold : Int) :
    Unlisted dir' (discoverLatestCompleteGeneration dir') ∧
      pair crc32 ⟨dir', discoverLatestCompleteGeneration dir', threshold⟩ = fp.pair crc32 := by
  have hsame : ∀ gen, dir'.read (.snapshot gen) = fp.dir.read (.snapshot gen) := by
    intro gen
    by_cases hgen : gen = fp.manifest.generation + 1
    · rw [hgen]
      exact hcut.old _ (lasting_snapshot _) hsnap
    · exact hcut.snapshot_of_ne hgen
  have hfound : discoverLatestCompleteGeneration dir' = manifestOf fp.manifest.generation := by
    apply discover_eq
    · intro hpos
      rw [fileExists_congr (hsame _)]
      exact ⟨hcut.stays (lasting_raftState _) (h.complete hpos).1, (h.complete hpos).2⟩
    · intro gen hgen
      rw [fileExists_congr (hsame gen)]
      exact h.snapshot_none hgen
  refine ⟨⟨(hcut.old _ lasting_manifest hnone).trans h.manifest, rfl, ?_, ?_⟩, ?_⟩
  · intro gen hex
    rw [fileExists_congr (hsame gen)] at hex
    exact hcut.stays (lasting_raftState _) (h.states gen hex)
  · intro gen hgen
    rw [hfound, generation_manifestOf] at hgen
    exact hcut.delta_nil h hgen
  · have hfp : fp = ⟨fp.dir, manifestOf fp.manifest.generation, fp.deltaCompactBytes⟩ := by
      rw [← h.eq_manifestOf]
    rw [hfound, hfp]
    dsimp only
    rw [generation_manifestOf]
    rcases Nat.eq_zero_or_pos fp.manifest.generation with hzero | hpos
    · have hst := hcut.read_of_ne lasting_raftStateFile nofun nofun nofun nofun
      have hread := hcut.read_of_ne lasting_snapshotFile nofun nofun nofun nofun
      rw [hzero, pair_manifestOf_zero, pair_manifestOf_zero, readFile_congr hst,
        readFile_congr hread]
    · have hst := hcut.read_of_ne (lasting_raftState fp.manifest.generation) nofun (by simp)
        nofun nofun
      have hdelta := hcut.read_of_ne (lasting_raftDelta fp.manifest.generation) nofun nofun
        (by simp) nofun
      rw [pair_manifestOf_pos hpos, pair_manifestOf_pos hpos, readFile_congr hst,
        readFile_congr hdelta, readFile_congr (hsame _)]

theorem Cut.reopened
    (hsafe : AllSafe temp dir') (h : fp.Sound) (hkeep : fp.KeepsSnapshot snapshot) :
    (newFilePersister dir').Sound ∧ ((newFilePersister dir').pair crc32 = fp.pair crc32 ∨
        (newFilePersister dir').pair crc32 = fp.newPair raftstate snapshot) := by
  by_cases hman : ∃ c, (FileName.manifest, c) ∈ taken
  · obtain ⟨c, hc⟩ := hman
    have hnew := hcut.committed h hkeep hc crc32 defaultDeltaCompactBytes
    rw [open_listed hnew.1]
    exact ⟨⟨hsafe, .inl hnew.1⟩, .inr hnew.2⟩
  · have hnone := not_exists.mp hman
    rcases h.files with hlis | hunl
    · have hold := hcut.kept hlis hnone crc32 defaultDeltaCompactBytes
      rw [open_listed hold.1]
      exact ⟨⟨hsafe, .inl hold.1⟩, .inl hold.2⟩
    · have hread : dir'.read .manifest = none :=
        (hcut.old _ lasting_manifest hnone).trans hunl.manifest
      rw [open_unlisted hread]
      by_cases hsnap : ∃ c, (FileName.snapshot (fp.manifest.generation + 1), c) ∈ taken
      · obtain ⟨c, hc⟩ := hsnap
        have hnew := hcut.found_next hunl hkeep hnone hc crc32 defaultDeltaCompactBytes
        exact ⟨⟨hsafe, .inr hnew.1⟩, .inr hnew.2⟩
      · have hold := hcut.found_same hunl hnone (not_exists.mp hsnap) crc32 defaultDeltaCompactBytes
        exact ⟨⟨hsafe, .inr hold.1⟩, .inl hold.2⟩

end

end

theorem Sound.commitGeneration (h : fp.Sound) (raftstate : Bytes) (snapshot : Option Bytes) :
    (fp.commitGeneration raftstate snapshot).Sound := by
  have hcut := cut_exec fp.dir fp.manifest raftstate snapshot
  have hnew := hcut.listed h (mem_items.mpr (.inr (.inr (.inr rfl))))
    (fun _ => 0) fp.deltaCompactBytes
  exact ⟨h.safe.replaceAll (lasting_items _ _ _), .inl hnew.1⟩

/-! ## Appends -/

def HasDelta (fp : FilePersister) : Prop :=
  ∀ path, fp.currentRaftDeltaPath = some path → fileExists fp.dir path = true

theorem Sound.deltaPath (h : fp.Sound) (hpath : fp.currentRaftDeltaPath = some path) :
    path = .raftDelta fp.manifest.generation ∧ fp.manifest.snapshotRel ≠ none := by
  unfold currentRaftDeltaPath at hpath
  rcases h.files with hlis | hunl
  · obtain ⟨gen, -, hrel, -⟩ := hlis.snapshot
    rw [hlis.raftDeltaRel] at hpath
    exact ⟨(Option.some.inj hpath).symm, by simp [hrel]⟩
  · have hm := hunl.eq_manifestOf
    rcases Nat.eq_zero_or_pos fp.manifest.generation with hzero | hpos
    · rw [hm, hzero] at hpath
      cases hpath
    · rw [manifestOf, if_neg (Nat.ne_of_gt hpos)] at hm
      rw [hm] at hpath ⊢
      exact ⟨(Option.some.inj hpath).symm, nofun⟩

theorem Sound.of_delta (h : fp.Sound) (dir' : Dir) (hsafe : AllSafe temp dir')
    (hother : ∀ name, Lasting temp name → name ≠ .hardStateFile →
      name ≠ .raftDelta fp.manifest.generation → dir'.read name = fp.dir.read name)
    (hdelta : fileExists fp.dir (.raftDelta fp.manifest.generation) = true →
      fileExists dir' (.raftDelta fp.manifest.generation) = true) (threshold : Int) :
    Sound ⟨dir', fp.manifest, threshold⟩ ∧
      newFilePersister dir' = ⟨dir', fp.manifest, defaultDeltaCompactBytes⟩ := by
  have hman : dir'.read .manifest = fp.dir.read .manifest := hother _ lasting_manifest nofun nofun
  have hst : ∀ gen, fileExists dir' (.raftState gen) = fileExists fp.dir (.raftState gen) :=
    fun gen => fileExists_congr (hother _ (lasting_raftState gen) nofun nofun)
  have hsnap : ∀ gen, fileExists dir' (.snapshot gen) = fileExists fp.dir (.snapshot gen) :=
    fun gen => fileExists_congr (hother _ (lasting_snapshot gen) nofun nofun)
  rcases h.files with hlis | hunl
  · obtain ⟨gen, hle, hrel, hex⟩ := hlis.snapshot
    have hlis' : Listed dir' fp.manifest :=
      ⟨hman.trans hlis.manifest, hlis.raftStateRel, hlis.raftDeltaRel,
        (hst _).trans hlis.raftState, hdelta hlis.raftDelta,
        gen, hle, hrel, (hsnap gen).trans hex⟩
    exact ⟨⟨hsafe, .inl hlis'⟩, open_listed hlis'⟩
  · have hunl' : Unlisted dir' fp.manifest := by
      apply hunl.congr hman hst hsnap
      intro gen hgen
      apply readFile_congr
      apply hother _ (lasting_raftDelta gen) nofun
      rw [ne_eq, raftDelta.injEq]
      omega
    refine ⟨⟨hsafe, .inr hunl'⟩, ?_⟩
    rw [open_unlisted hunl'.manifest, ← hunl'.found]

theorem extends_appendOps (crc32 : Bytes → UInt32) (path : FileName) (payloads : List Bytes) :
    ∀ op ∈ appendOps crc32 path payloads, Extends path op := by
  intro op hop
  rcases mem_append.mp hop with hop | hop
  · obtain ⟨c, -, rfl⟩ := mem_map.mp hop
    rfl
  · obtain rfl := mem_singleton.mp hop
    rfl

theorem Sound.append_crash (h : fp.Sound) (crc32 : Bytes → UInt32)
    (hpath : fp.currentRaftDeltaPath = some path) (payloads : List Bytes) (k : Nat)
    (choice : FileName → Bool × Nat) :
    (newFilePersister ((fp.dir.exec ((appendOps crc32 path payloads).take k)).crash choice)).Sound ∧
    newFilePersister ((fp.dir.exec ((appendOps crc32 path payloads).take k)).crash choice) =
      ⟨(fp.dir.exec ((appendOps crc32 path payloads).take k)).crash choice, fp.manifest,
        defaultDeltaCompactBytes⟩ ∧
    ∀ name, Lasting temp name → name ≠ path →
      ((fp.dir.exec ((appendOps crc32 path payloads).take k)).crash choice).read name =
        fp.dir.read name := by
  obtain ⟨rfl, -⟩ := h.deltaPath hpath
  have hops : ∀ op ∈ (appendOps crc32 (.raftDelta fp.manifest.generation) payloads).take k,
      Extends (.raftDelta fp.manifest.generation) op :=
    fun op hop => extends_appendOps _ _ _ op (mem_of_mem_take hop)
  have hother : ∀ name, Lasting temp name → name ≠ .raftDelta fp.manifest.generation →
      ((fp.dir.exec ((appendOps crc32 (.raftDelta fp.manifest.generation) payloads).take
        k)).crash choice).read name = fp.dir.read name := by
    intro name hname hne
    have hslot := slot_extend_of_ne (d := fp.dir) hops hne
    rw [read_crash (hslot ▸ h.safe name hname), read_extend_of_ne hops hne]
  have hsound := h.of_delta _ (fun name _ => safe_crash _ choice name)
    (fun name hname _ hne => hother name hname hne)
    (fun hex => isSome_read_crash_extend hops (h.safe _ (lasting_raftDelta _)).1 hex choice)
    defaultDeltaCompactBytes
  exact ⟨hsound.2 ▸ hsound.1, hsound.2, hother⟩

theorem Sound.appendFrames (h : fp.Sound) (crc32 : Bytes → UInt32)
    (hpath : fp.currentRaftDeltaPath = some path) (hthere : fp.HasDelta) (payloads : List Bytes) :
    (fp.appendFrames crc32 path payloads).Sound := by
  have hex := hthere path hpath
  obtain ⟨rfl, -⟩ := h.deltaPath hpath
  have hops := extends_appendOps crc32 (.raftDelta fp.manifest.generation) payloads
  obtain ⟨f, hf⟩ := exists_file hex
  have hslot := slot_appends_sync hf
    (payloads.map fun p => Content.bytes (buildAppendFrame crc32 p))
  have hsyn := (h.safe _ (lasting_raftDelta fp.manifest.generation)).1
  have hsafe : AllSafe temp
      (fp.dir.exec (appendOps crc32 (.raftDelta fp.manifest.generation) payloads)) := by
    intro name hname
    by_cases hne : name = .raftDelta fp.manifest.generation
    · rw [hne, appendOps, hslot]
      refine ⟨hsyn, ?_⟩
      intro g hg
      cases hg
      rfl
    · rw [slot_extend_of_ne hops hne]
      exact h.safe name hname
  have hsound := h.of_delta _ hsafe (fun name _ _ hne => read_extend_of_ne hops hne) (fun _ => by
    rw [fileExists, Directory.read, appendOps, hslot]
    rfl) fp.deltaCompactBytes
  exact hsound.1

/-! ## Runs of a persister -/

inductive Call
  | generation (raftstate : Bytes) (snapshot : Option Bytes)
  | append (payloads : List Bytes)
  | hardState (hardstate : Bytes)

variable (crc32) in
def Call.ops (fp : FilePersister) : Call → List (FileOp FileName Content)
  | generation raftstate snapshot => commitOps fp.manifest raftstate snapshot
  | append payloads =>
    if payloads = [] then []
    else
      match fp.currentRaftDeltaPath with
      | none => []
      | some path =>
        appendOps crc32 path payloads ++
          match (fp.appendFrames crc32 path payloads).compaction crc32 path with
          | none => []
          | some state => commitOps fp.manifest state none
  | hardState hardstate => durableWrite .hardStateFile (.bytes hardstate)

variable (crc32) in
def Call.complete (fp : FilePersister) : Call → FilePersister
  | generation raftstate snapshot => fp.commitGeneration raftstate snapshot
  | append payloads => (fp.commitAppendRaftState crc32 payloads).getD fp
  | hardState hardstate => fp.commitHardState hardstate

inductive Action
  | run (call : Call)
  | interrupt (call : Call) (k : Nat) (choice : FileName → Bool × Nat)

structure Fresh (dir : Dir) : Prop where
  safe : AllSafe temp dir
  manifest : dir.read .manifest = none
  raftState : ∀ gen, dir.read (.raftState gen) = none
  raftDelta : ∀ gen, dir.read (.raftDelta gen) = none
  snapshot : ∀ gen, dir.read (.snapshot gen) = none

variable (crc32) in
def runs : System FilePersister Action where
  init fp := ∃ dir, Fresh dir ∧ fp = newFilePersister dir
  step fp
    | .run call => some (call.complete crc32 fp)
    | .interrupt call k choice =>
      some (newFilePersister ((fp.dir.exec ((call.ops crc32 fp).take k)).crash choice))

/-- An append finds its delta file, and a save without a snapshot does not have to make
an empty one in the place of another. -/
def Careful (fp : FilePersister) : Call → Prop
  | .generation _ snapshot => fp.KeepsSnapshot snapshot
  | .append _ => fp.HasDelta
  | .hardState _ => True

def CarefulStep (fp : FilePersister) : Action → Prop
  | .run call => fp.Careful call
  | .interrupt call _ _ => fp.Careful call

theorem Fresh.sound (h : Fresh dir) : (newFilePersister dir).Sound := by
  rw [open_unlisted h.manifest]
  refine ⟨h.safe, .inr ⟨h.manifest, rfl, ?_, ?_⟩⟩
  · intro gen hex
    rw [fileExists, h.snapshot gen] at hex
    cases hex
  · intro gen _
    rw [readFile, h.raftDelta gen]

section

variable (h : fp.Sound)

include h

theorem Sound.commitHardState (hardstate : Bytes) : (fp.commitHardState hardstate).Sound := by
  have hname : Lasting temp .hardStateFile := nofun
  have hother : ∀ name, Lasting temp name → name ≠ .hardStateFile →
      (fp.dir.exec (durableWrite .hardStateFile (.bytes hardstate))).read name =
        fp.dir.read name := fun _ => read_replace_of_ne
  exact (h.of_delta _ (h.safe.replace hname (.bytes hardstate))
    (fun name hn hne _ => hother name hn hne)
    (fun hex => (fileExists_congr (hother _ (lasting_raftDelta _) nofun)).trans hex)
    fp.deltaCompactBytes).1

theorem Sound.hardState_crash (hardstate : Bytes) (k : Nat) (choice : FileName → Bool × Nat) :
    (newFilePersister ((fp.dir.exec
      ((durableWrite .hardStateFile (.bytes hardstate)).take k)).crash choice)).Sound := by
  have hname : Lasting temp .hardStateFile := nofun
  have hother : ∀ name, Lasting temp name → name ≠ .hardStateFile →
      ((fp.dir.exec ((durableWrite .hardStateFile (.bytes hardstate)).take k)).crash choice).read
        name = fp.dir.read name := by
    intro name hn hne
    rcases crash_replace h.safe hname (.bytes hardstate) k choice with hold | hnew
    · exact hold name hn
    · exact (hnew name hn).trans (read_replace_of_ne hn hne)
  have hsound := h.of_delta _ (fun name _ => safe_crash _ choice name)
    (fun name hn hne _ => hother name hn hne)
    (fun hex => (fileExists_congr (hother _ (lasting_raftDelta _) nofun)).trans hex)
    defaultDeltaCompactBytes
  rw [hsound.2]
  exact hsound.1

theorem Sound.commit_crash (hkeep : fp.KeepsSnapshot snapshot)
    (crc32 : Bytes → UInt32) (raftstate : Bytes) (k : Nat) (choice : FileName → Bool × Nat) :
    (newFilePersister
      ((fp.dir.exec ((commitOps fp.manifest raftstate snapshot).take k)).crash choice)).Sound ∧
    ((newFilePersister
      ((fp.dir.exec ((commitOps fp.manifest raftstate snapshot).take k)).crash choice)).pair crc32 =
        fp.pair crc32 ∨
      (newFilePersister
        ((fp.dir.exec ((commitOps fp.manifest raftstate snapshot).take k)).crash choice)).pair
          crc32 = fp.newPair raftstate snapshot) := by
  obtain ⟨taken, hcut⟩ := cut_crash h.safe fp.manifest raftstate snapshot k choice
  exact hcut.reopened (fun name _ => safe_crash _ choice name) h hkeep

theorem Sound.keepsSnapshot (hpath : fp.currentRaftDeltaPath = some path) : fp.KeepsSnapshot none :=
  fun _ hrel => absurd hrel (h.deltaPath hpath).2

theorem Sound.complete {call : Call} (hcar : fp.Careful call) : (call.complete crc32 fp).Sound := by
  cases call with
  | generation raftstate snapshot => exact h.commitGeneration raftstate snapshot
  | append payloads =>
    simp only [Call.complete, commitAppendRaftState]
    split
    · exact h
    · cases hpath : fp.currentRaftDeltaPath with
      | none => exact h
      | some path =>
        have hsound := h.appendFrames crc32 hpath hcar payloads
        dsimp only
        cases (fp.appendFrames crc32 path payloads).compaction crc32 path with
        | none => exact hsound
        | some state => exact hsound.commitGeneration state none
  | hardState hardstate => exact h.commitHardState hardstate

theorem Sound.interrupt {call : Call} (hcar : fp.Careful call) (k : Nat)
    (choice : FileName → Bool × Nat) :
    (newFilePersister ((fp.dir.exec ((call.ops crc32 fp).take k)).crash choice)).Sound := by
  -- a crash between two calls is a commit of which nothing was done
  have hidle : (newFilePersister (fp.dir.crash choice)).Sound := h.hardState_crash [] 0 choice
  cases call with
  | generation raftstate snapshot => exact (h.commit_crash hcar crc32 raftstate k choice).1
  | append payloads =>
    simp only [Call.ops]
    split
    · rwa [take_nil]
    · cases hpath : fp.currentRaftDeltaPath with
      | none => rwa [take_nil]
      | some path =>
        dsimp only
        by_cases hk : k ≤ (appendOps crc32 path payloads).length
        · rw [take_append_of_le_length hk]
          exact (h.append_crash crc32 hpath payloads k choice).1
        · have hall : (appendOps crc32 path payloads).take k =
              appendOps crc32 path payloads := take_of_length_le (by omega)
          have hsound := h.appendFrames crc32 hpath hcar payloads
          rw [take_append, hall, exec_append]
          cases (fp.appendFrames crc32 path payloads).compaction crc32 path with
          | none =>
            rw [take_nil]
            exact hsound.hardState_crash [] 0 choice
          | some state =>
            have hpath' : (fp.appendFrames crc32 path payloads).currentRaftDeltaPath =
                some path := hpath
            exact (hsound.commit_crash (hsound.keepsSnapshot hpath') crc32 state _ choice).1
  | hardState hardstate => exact h.hardState_crash hardstate k choice

end

theorem sound_of_reachable (h : (runs crc32).Reachable CarefulStep fp) : fp.Sound := by
  apply h.invariant
  · rintro _ ⟨dir, hfresh, rfl⟩
    exact hfresh.sound
  · intro s action t hs hok hstep
    cases action with
    | run call =>
      cases hstep
      exact hs.complete hok
    | interrupt call k choice =>
      cases hstep
      exact hs.interrupt hok k choice

/-! ## The switch is atomic -/

/-- `commitGeneration` leads to the new pair, also after a crash, and a crash on the way
leads to the old pair or the new one. -/
def Switches (crc32 : Bytes → UInt32) (fp : FilePersister) (raftstate : Bytes)
    (snapshot : Option Bytes) : Prop :=
  (fp.commitGeneration raftstate snapshot).pair crc32 = fp.newPair raftstate snapshot ∧
  (∀ choice, (newFilePersister ((fp.commitGeneration raftstate snapshot).dir.crash choice)).pair
    crc32 = fp.newPair raftstate snapshot) ∧
  ∀ k choice,
    let reopened := newFilePersister
      ((fp.dir.exec ((commitOps fp.manifest raftstate snapshot).take k)).crash choice)
    reopened.pair crc32 = fp.pair crc32 ∨ reopened.pair crc32 = fp.newPair raftstate snapshot

theorem Sound.switches (h : fp.Sound) (hkeep : fp.KeepsSnapshot snapshot) (crc32 : Bytes → UInt32)
    (raftstate : Bytes) : Switches crc32 fp raftstate snapshot := by
  have hcut := cut_exec fp.dir fp.manifest raftstate snapshot
  have hman : (.manifest, .manifest (nextManifest fp.manifest snapshot)) ∈
      generationItems fp.manifest raftstate snapshot :=
    mem_items.mpr (.inr (.inr (.inr rfl)))
  refine ⟨(hcut.committed h hkeep hman crc32 fp.deltaCompactBytes).2, ?_, ?_⟩
  · intro choice
    have hsame := same_crash (h.safe.replaceAll (lasting_items fp.manifest raftstate snapshot))
      choice
    have hnew := (hcut.congr hsame).committed h hkeep hman crc32 defaultDeltaCompactBytes
    have hopen := open_listed hnew.1
    exact hopen ▸ hnew.2
  · intro k choice
    exact (h.commit_crash hkeep crc32 raftstate k choice).2

/-- The generation switch is atomic for every save and for the compaction at the end of
an append, in every persister that careful calls and crashes lead to. -/
theorem generation_switch_atomic (crc32 : Bytes → UInt32) (fp : FilePersister)
    (hfp : (runs crc32).Reachable CarefulStep fp) :
    (∀ raftstate snapshot, fp.Careful (.generation raftstate snapshot) →
      Switches crc32 fp raftstate snapshot) ∧
    ∀ payloads path state, fp.Careful (.append payloads) → fp.currentRaftDeltaPath = some path →
      (fp.appendFrames crc32 path payloads).compaction crc32 path = some state →
      Switches crc32 (fp.appendFrames crc32 path payloads) state none := by
  have hsound := sound_of_reachable hfp
  refine ⟨fun raftstate snapshot hcar => hsound.switches hcar crc32 raftstate, ?_⟩
  intro payloads path state hcar hpath _
  have hsound' := hsound.appendFrames crc32 hpath hcar payloads
  have hpath' : (fp.appendFrames crc32 path payloads).currentRaftDeltaPath = some path := hpath
  exact hsound'.switches (hsound'.keepsSnapshot hpath') crc32 state

theorem fresh_nil : Fresh [] :=
  ⟨fun _ _ => Slot.safe_none, rfl, fun _ => rfl, fun _ => rfl, fun _ => rfl⟩

def saved (raftstate snapshot : Bytes) : FilePersister :=
  (newFilePersister []).commitGeneration raftstate (some snapshot)

theorem reachable_saved (crc32 : Bytes → UInt32) (raftstate snapshot : Bytes) :
    (runs crc32).Reachable CarefulStep (saved raftstate snapshot) :=
  ⟨_, ⟨[], fresh_nil, rfl⟩, (System.Run.refl _).step
    (a := .run (.generation raftstate (some snapshot))) nofun rfl⟩

theorem generation_switch_atomic_saved :
    (saved [1] [7]).pair checksumIEEE = ([1], [7]) ∧
      (saved [1] [7]).Careful (.generation [2] none) ∧
      Switches checksumIEEE (saved [1] [7]) [2] none := by
  have hcar : (saved [1] [7]).Careful (.generation [2] none) := nofun
  exact ⟨by decide +kernel, hcar, (generation_switch_atomic checksumIEEE (saved [1] [7])
    (reachable_saved checksumIEEE [1] [7])).1 [2] none hcar⟩

def patchTo (byte : UInt8) : Bytes :=
  [0x31, 0x41, 0x50, 0x52, 1, 0, 0, 0, 0, 0, 0, 0, 1, 0, 0, 0, 0, 0, 0, 0, 1, 0, 0, 0, 0, 0, 0, 0,
    byte]

theorem crash_loses_unsynced_delta : ∃ fp,
    (runs checksumIEEE).Reachable System.anyStep fp ∧ fp.pair checksumIEEE = ([2], [7]) ∧
      ¬ Switches checksumIEEE fp [3] none := by
  obtain ⟨fp, hrun, hpair, hnew, hlost⟩ := (runs checksumIEEE).exists_of_exec (newFilePersister [])
    [.interrupt (.generation [1] (some [7])) 8 fun _ => (false, 0), .run (.append [patchTo 2])]
    (fun fp => fp.pair checksumIEEE = ([2], [7]) ∧ fp.newPair [3] none = ([3], [7]) ∧
      (newFilePersister (fp.dir.crash fun _ => (true, 0))).pair checksumIEEE = ([1], [7]))
    (by decide +kernel)
  refine ⟨fp, System.Reachable.of_exec ⟨[], fresh_nil, rfl⟩ hrun, hpair, ?_⟩
  intro hswi
  rcases hswi.2.2 0 fun _ => (true, 0) with hold | hnew'
  · rw [hpair] at hold
    exact absurd (hold.symm.trans hlost) (by decide)
  · rw [hnew] at hnew'
    exact absurd (hnew'.symm.trans hlost) (by decide)

end FilePersister

end OrbisKV.Persist
