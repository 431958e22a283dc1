import OrbisKV.Persister.Appends
/-!
# Recovery without a manifest

Without a manifest the persister takes the latest generation for which it finds a Raft
state and a snapshot of the same number.
-/

namespace OrbisKV.Persist

open Lib Lib.Directory FileName Option

namespace FilePersister

variable {crc32 : Bytes → UInt32} {fp : FilePersister} {dir dir' : Dir}

structure Ledger where
  fp : FilePersister
  state : Option Bytes := none
  snapshot : Bytes := []

namespace Ledger

variable (crc32) in
def step (l : Ledger) : Call → Option Ledger
  | .generation raftstate snapshot =>
    some ⟨l.fp.commitGeneration raftstate snapshot, some raftstate, snapshot.getD l.snapshot⟩
  | .append payloads =>
    match l.fp.commitAppendRaftState crc32 payloads with
    | none => none
    | some fp =>
      let fits := payloads.all fun p => decide (p.length < 2 ^ 32)
      some { l with
        fp := fp
        state := if fits then l.state.bind (appliedAll · payloads) else none }
  | .hardState hardstate => some { l with fp := l.fp.commitHardState hardstate }

variable (crc32) in
def system : System Ledger Call where
  init l := ∃ dir, Fresh dir ∧ l = { fp := newFilePersister dir }
  step := step crc32

end Ledger

structure Orderly (fp : FilePersister) : Prop where
  sound : fp.Sound
  listed : fp.manifest = {} ∨ 0 < fp.manifest.generation ∧ Listed fp.dir fp.manifest
  later : ∀ gen, fp.manifest.generation < gen → fileExists fp.dir (.snapshot gen) = false

theorem Fresh.snapshot_none (h : Fresh dir) (gen : Nat) : fileExists dir (.snapshot gen) = false :=
  congrArg isSome (h.snapshot gen)

theorem Fresh.open_eq (h : Fresh dir) :
    newFilePersister dir = ⟨dir, {}, defaultDeltaCompactBytes⟩ := by
  have hfound : discoverLatestCompleteGeneration dir = manifestOf 0 :=
    discover_eq (fun hpos => absurd hpos (Nat.lt_irrefl 0)) fun gen _ => h.snapshot_none gen
  rw [open_unlisted h.manifest, hfound]
  rfl

theorem Fresh.orderly (h : Fresh dir) : (newFilePersister dir).Orderly := by
  refine ⟨h.sound, ?_, ?_⟩
  · rw [h.open_eq]
    exact .inl rfl
  · intro gen _
    rw [h.open_eq]
    exact h.snapshot_none gen

namespace Orderly

section

variable (h : fp.Orderly)

include h

theorem hasDelta : fp.HasDelta := by
  intro path hpath
  obtain ⟨rfl, hrel⟩ := h.sound.deltaPath hpath
  rcases h.listed with hnone | ⟨-, hlis⟩
  · rw [hnone] at hrel
    exact absurd rfl hrel
  · exact hlis.raftDelta

theorem commitGeneration (raftstate : Bytes) (snapshot : Option Bytes) :
    (fp.commitGeneration raftstate snapshot).Orderly := by
  have hcut := cut_exec fp.dir fp.manifest raftstate snapshot
  have hnew := hcut.listed h.sound (mem_items.mpr (.inr (.inr (.inr rfl))))
    (fun _ => 0) fp.deltaCompactBytes
  refine ⟨h.sound.commitGeneration raftstate snapshot, .inr ⟨Nat.succ_pos _, hnew.1⟩, ?_⟩
  intro gen (hgen : fp.manifest.generation + 1 < gen)
  have hold : (fp.commitGeneration raftstate snapshot).dir.read (.snapshot gen) =
      fp.dir.read (.snapshot gen) := by
    apply hcut.read_of_ne (lasting_snapshot gen) <;> simp
    omega
  rw [fileExists_congr hold]
  exact h.later gen (by omega)

theorem congr {fp' : FilePersister} (hsound : fp'.Sound)
    (hman : fp'.manifest = fp.manifest)
    (hread : fp'.dir.read .manifest = fp.dir.read .manifest)
    (hfiles : ∀ name, Lasting temp name → fileExists fp.dir name = true →
      fileExists fp'.dir name = true)
    (hsnaps : ∀ gen, fp'.dir.read (.snapshot gen) = fp.dir.read (.snapshot gen)) : fp'.Orderly := by
  refine ⟨hsound, ?_, ?_⟩
  · rw [hman]
    exact h.listed.imp_right fun hlis => ⟨hlis.1, hlis.2.congr hread hfiles⟩
  · intro gen hgen
    rw [hman] at hgen
    rw [fileExists_congr (hsnaps gen)]
    exact h.later gen hgen

theorem commitHardState (hardstate : Bytes) : (fp.commitHardState hardstate).Orderly := by
  have hother : ∀ name, Lasting temp name → name ≠ .hardStateFile →
      (fp.commitHardState hardstate).dir.read name = fp.dir.read name :=
    fun _ => read_replace_of_ne
  have hhard : Lasting temp .hardStateFile := by simp [Lasting]
  apply h.congr (h.sound.commitHardState hardstate) rfl (hother _ lasting_manifest (by simp)) ?_
    fun gen => hother _ (lasting_snapshot gen) (by simp)
  intro name hname hex
  by_cases hne : name = .hardStateFile
  · rw [hne, fileExists, Directory.read, FilePersister.commitHardState, durableWrite,
      slot_replace hhard]
    rfl
  · rw [fileExists_congr (hother name hname hne)]
    exact hex

theorem appendFrames {path : FileName} (hpath : fp.currentRaftDeltaPath = some path)
    (payloads : List Bytes) : (fp.appendFrames crc32 path payloads).Orderly := by
  have hex := h.hasDelta path hpath
  have hsound := h.sound.appendFrames crc32 hpath h.hasDelta payloads
  obtain ⟨rfl, -⟩ := h.sound.deltaPath hpath
  have hother : ∀ name, name ≠ .raftDelta fp.manifest.generation →
      (fp.appendFrames crc32 (.raftDelta fp.manifest.generation) payloads).dir.read name =
        fp.dir.read name :=
    fun name hne => read_extend_of_ne (extends_appendOps crc32 _ payloads) hne
  apply h.congr hsound rfl (hother _ (by simp)) ?_ fun gen => hother _ (by simp)
  intro name _ hname
  by_cases hne : name = .raftDelta fp.manifest.generation
  · obtain ⟨f, hf⟩ := exists_file hex
    rw [hne, fileExists, Directory.read, FilePersister.appendFrames, appendOps,
      slot_appends_sync hf]
    rfl
  · rw [fileExists_congr (hother name hne)]
    exact hname

theorem readSnapshot_commitGeneration (raftstate : Bytes) (snapshot : Option Bytes) :
    (fp.commitGeneration raftstate snapshot).readSnapshot =
      (written fp.manifest snapshot).getD fp.readSnapshot := by
  have hcut := cut_exec fp.dir fp.manifest raftstate snapshot
  have hpair := (hcut.listed h.sound (mem_items.mpr (.inr (.inr (.inr rfl))))
    (fun _ => 0) fp.deltaCompactBytes).2
  exact congrArg Prod.snd hpair

end

end Orderly

theorem commitAppendRaftState_cases {payloads : List Bytes} {fp' : FilePersister}
    (h : fp.commitAppendRaftState crc32 payloads = some fp') :
    payloads = [] ∧ fp' = fp ∨
    ∃ path, fp.currentRaftDeltaPath = some path ∧ (fp' = fp.appendFrames crc32 path payloads ∨
        ∃ state, fp' = (fp.appendFrames crc32 path payloads).commitGeneration state none) := by
  unfold commitAppendRaftState at h
  split at h
  · rename_i hnil
    exact .inl ⟨hnil, (Option.some.inj h).symm⟩
  · cases hpath : fp.currentRaftDeltaPath with
    | none =>
      rw [hpath] at h
      cases h
    | some path =>
      rw [hpath] at h
      dsimp only at h
      refine .inr ⟨path, rfl, ?_⟩
      split at h
      · exact .inl (Option.some.inj h).symm
      · exact .inr ⟨_, (Option.some.inj h).symm⟩

theorem Orderly.commitAppendRaftState (h : fp.Orderly) {payloads : List Bytes} {fp' : FilePersister}
    (happ : fp.commitAppendRaftState crc32 payloads = some fp') : fp'.Orderly := by
  rcases commitAppendRaftState_cases happ with ⟨-, rfl⟩ | ⟨path, hpath, rfl | ⟨state, rfl⟩⟩
  · exact h
  · exact h.appendFrames hpath payloads
  · exact (h.appendFrames hpath payloads).commitGeneration state none

namespace Ledger

structure Inv (crc32 : Bytes → UInt32) (l : Ledger) : Prop where
  orderly : l.fp.Orderly
  first : l.fp.manifest.snapshotRel = none → l.state = none ∧ l.snapshot = []
  snapshot : l.fp.manifest.snapshotRel ≠ none → l.fp.readSnapshot = l.snapshot
  state : ∀ state, l.state = some state → Holds crc32 l.fp state

variable {l l' : Ledger}

theorem snapshotRel_nextManifest_ne_none (m : Manifest) (snapshot : Option Bytes) :
    (nextManifest m snapshot).snapshotRel ≠ none := by
  unfold nextManifest
  dsimp only
  split <;> simp

theorem Inv.generation (h : l.Inv crc32) (raftstate : Bytes) (snapshot : Option Bytes) :
    Inv crc32 ⟨l.fp.commitGeneration raftstate snapshot, some raftstate,
      snapshot.getD l.snapshot⟩ := by
  refine ⟨h.orderly.commitGeneration raftstate snapshot, ?_, ?_, ?_⟩
  · exact fun hrel => absurd hrel (snapshotRel_nextManifest_ne_none _ snapshot)
  · intro _
    rw [h.orderly.readSnapshot_commitGeneration]
    cases snapshot with
    | some data => rfl
    | none =>
      by_cases hrel : l.fp.manifest.snapshotRel = none
      · rw [written, if_pos hrel, (h.first hrel).2]
        rfl
      · rw [written, if_neg hrel]
        exact h.snapshot hrel
  · intro state hst
    cases hst
    exact h.orderly.sound.holds_commit crc32 raftstate snapshot

theorem Inv.hardState (h : l.Inv crc32) (hardstate : Bytes) :
    Inv crc32 { l with fp := l.fp.commitHardState hardstate } := by
  have hread : (l.fp.commitHardState hardstate).readSnapshot = l.fp.readSnapshot :=
    readFile_congr (read_replace_of_ne h.orderly.sound.plain_snapshotPath.lasting
      h.orderly.sound.plain_snapshotPath.hard)
  exact ⟨h.orderly.commitHardState hardstate, h.first, fun hrel => hread.trans (h.snapshot hrel),
    fun state hst => ((h.state state hst).commitHardState hardstate).1⟩

theorem Inv.append (h : l.Inv crc32) {payloads : List Bytes} {fp' : FilePersister}
    (happ : l.fp.commitAppendRaftState crc32 payloads = some fp') {state : Option Bytes}
    (hst : ∀ final, state = some final → (∀ p ∈ payloads, p.length < 2 ^ 32) ∧
      ∃ base, l.state = some base ∧ appliedAll base payloads = some final) :
    Inv crc32 { l with fp := fp', state := state } := by
  have hord := h.orderly.commitAppendRaftState happ
  rcases commitAppendRaftState_cases happ with ⟨hnil, rfl⟩ | ⟨path, hpath, hcases⟩
  · have hsame : ∀ final, state = some final → l.state = some final := by
      intro final hfinal
      obtain ⟨-, base, hbase, hap⟩ := hst final hfinal
      rw [hbase, ← hap, hnil]
      rfl
    refine ⟨hord, ?_, h.snapshot, fun final hfinal => h.state final (hsame final hfinal)⟩
    intro hrel
    refine ⟨?_, (h.first hrel).2⟩
    apply eq_none_iff_forall_ne_some.mpr
    intro final hfinal
    have hsome := hsame final hfinal
    rw [(h.first hrel).1] at hsome
    cases hsome
  · have hrel : l.fp.manifest.snapshotRel ≠ none := (h.orderly.sound.deltaPath hpath).2
    have hread := readSnapshot_appendFrames h.orderly.sound crc32 hpath payloads
    have hholds : ∀ final, state = some final → Holds crc32 fp' final := by
      intro final hfinal
      obtain ⟨hfit, base, hbase, hap⟩ := hst final hfinal
      obtain ⟨fp'', hfp'', hholds, -, -⟩ :=
        (h.state base hbase).commitAppendRaftState hpath hfit hap
      rw [happ] at hfp''
      obtain rfl := Option.some.inj hfp''
      exact hholds
    rcases hcases with rfl | ⟨base, rfl⟩
    · exact ⟨hord, fun hnone => absurd hnone hrel, fun _ => hread.trans (h.snapshot hrel), hholds⟩
    · refine ⟨hord, ?_, ?_, hholds⟩
      · exact fun hnone => absurd hnone (snapshotRel_nextManifest_ne_none _ none)
      intro _
      have hkeeps : written (l.fp.appendFrames crc32 path payloads).manifest none = none :=
        if_neg hrel
      rw [(h.orderly.appendFrames hpath payloads).readSnapshot_commitGeneration, hkeeps]
      exact hread.trans (h.snapshot hrel)

theorem Inv.step (h : l.Inv crc32) {call : Call} (hstep : l.step crc32 call = some l') :
    l'.Inv crc32 := by
  cases call with
  | generation raftstate snapshot =>
    cases hstep
    exact h.generation raftstate snapshot
  | append payloads =>
    simp only [Ledger.step] at hstep
    split at hstep
    · cases hstep
    · rename_i fp' happ
      cases hstep
      apply h.append happ
      intro final hfinal
      split_ifs at hfinal with hfits
      obtain ⟨base, hbase, hap⟩ := bind_eq_some_iff.mp hfinal
      refine ⟨?_, base, hbase, hap⟩
      intro p hp
      exact of_decide_eq_true (List.all_eq_true.mp hfits p hp)
  | hardState hardstate =>
    cases hstep
    exact h.hardState hardstate

theorem inv_of_reachable (h : (system crc32).Reachable System.anyStep l) : l.Inv crc32 := by
  apply h.invariant
  · rintro _ ⟨dir, hfr, rfl⟩
    refine ⟨hfr.orderly, fun _ => ⟨rfl, rfl⟩, ?_, by simp⟩
    intro hrel
    rw [hfr.open_eq] at hrel
    exact absurd rfl hrel
  · exact fun s call t hs _ hstep => hs.step hstep

end Ledger

/-- The manifest is missing, or it is not JSON or does not name a state and a snapshot; all
other files are as they were. -/
structure LosesManifest (dir dir' : Dir) : Prop where
  manifest : ∀ m, dir'.read .manifest = some (.manifest m) →
    m.raftStateRel = none ∨ m.snapshotRel = none
  others : ∀ name, Lasting temp name → name ≠ .manifest → dir'.read name = dir.read name

theorem open_without_manifest (h : LosesManifest dir dir') : newFilePersister dir' =
    ⟨dir', discoverLatestCompleteGeneration dir', defaultDeltaCompactBytes⟩ := by
  have hload : loadManifest dir' = (dir', discoverLatestCompleteGeneration dir') := by
    unfold loadManifest
    split
    · rename_i m hm
      rcases h.manifest m hm with hnone | hnone
      · rw [hnone]
      · rw [hnone]
        cases m.raftStateRel <;> rfl
    · rfl
  rw [newFilePersister, hload]

/-- The generation in use has a snapshot of its own, or there was no commit yet. -/
def OwnsSnapshot (fp : FilePersister) : Prop :=
  ∀ rel, fp.manifest.snapshotRel = some rel → rel = .snapshot fp.manifest.generation

theorem Orderly.manifest_eq (h : fp.Orderly) (hown : fp.OwnsSnapshot) :
    fp.manifest = manifestOf fp.manifest.generation := by
  rcases h.listed with hnone | ⟨hpos, hlis⟩
  · rw [hnone]
    rfl
  · obtain ⟨gen, -, hrel, -⟩ := hlis.snapshot
    rw [manifestOf, if_neg (Nat.ne_of_gt hpos), ← hown _ hrel, ← hrel, ← hlis.raftStateRel,
      ← hlis.raftDeltaRel]

theorem Orderly.found (h : fp.Orderly) (hown : fp.OwnsSnapshot)
    (hloses : LosesManifest fp.dir dir') :
    discoverLatestCompleteGeneration dir' = manifestOf fp.manifest.generation := by
  have hsnaps : ∀ gen, fileExists dir' (.snapshot gen) = fileExists fp.dir (.snapshot gen) :=
    fun gen => fileExists_congr (hloses.others _ (lasting_snapshot gen) (by simp))
  apply discover_eq
  · intro hpos
    rcases h.listed with hnone | ⟨-, hlis⟩
    · rw [hnone] at hpos
      exact absurd hpos (Nat.lt_irrefl 0)
    · obtain ⟨gen, -, hrel, hex⟩ := hlis.snapshot
      have hst := hloses.others _ (lasting_raftState fp.manifest.generation) (by simp)
      rw [hown _ hrel] at hex
      exact ⟨(fileExists_congr hst).trans hlis.raftState, (hsnaps _).trans hex⟩
  · exact fun gen hgen => (hsnaps gen).trans (h.later gen hgen)

theorem pair_manifestOf_congr (crc32 : Bytes → UInt32) (hloses : LosesManifest dir dir')
    (best : Nat) (threshold threshold' : Int) :
    pair crc32 ⟨dir', manifestOf best, threshold'⟩ =
      pair crc32 ⟨dir, manifestOf best, threshold⟩ := by
  have hread : ∀ name, Lasting temp name → name ≠ .manifest →
      readFile dir' name = readFile dir name :=
    fun name hname hne => readFile_congr (hloses.others name hname hne)
  rcases Nat.eq_zero_or_pos best with rfl | hpos
  · rw [pair_manifestOf_zero, pair_manifestOf_zero, hread _ lasting_raftStateFile (by simp),
      hread _ lasting_snapshotFile (by simp)]
  · rw [pair_manifestOf_pos hpos, pair_manifestOf_pos hpos, hread _ (lasting_raftState _) (by simp),
      hread _ (lasting_raftDelta _) (by simp), hread _ (lasting_snapshot _) (by simp)]

/-- A persister that is opened without its manifest gives back what was committed last, if the
generation in use has a snapshot of its own. -/
theorem recovers_without_manifest (crc32 : Bytes → UInt32) {l : Ledger}
    (hl : (Ledger.system crc32).Reachable System.anyStep l) (hown : l.fp.OwnsSnapshot) {dir' : Dir}
    (hloses : LosesManifest l.fp.dir dir') :
    (newFilePersister dir').pair crc32 = l.fp.pair crc32 ∧ ∀ state, l.state = some state →
        (newFilePersister dir').pair crc32 = (state, l.snapshot) := by
  have hinv := Ledger.inv_of_reachable hl
  have hpair : (newFilePersister dir').pair crc32 = l.fp.pair crc32 := by
    rw [open_without_manifest hloses, hinv.orderly.found hown hloses,
      pair_manifestOf_congr crc32 hloses _ l.fp.deltaCompactBytes, ← hinv.orderly.manifest_eq hown]
  refine ⟨hpair, ?_⟩
  intro state hst
  have hrel : l.fp.manifest.snapshotRel ≠ none := by
    intro hnone
    rw [(hinv.first hnone).1] at hst
    cases hst
  rw [hpair, pair, (hinv.state state hst).readRaftState, hinv.snapshot hrel]

def withoutManifest (dir : Dir) : Dir := dir.set .manifest ⟨none, none⟩

theorem loses_withoutManifest (dir : Dir) : LosesManifest dir (withoutManifest dir) := by
  constructor
  · intro m hm
    rw [withoutManifest, Directory.read, slot_set_self] at hm
    cases hm
  · intro name _ hne
    rw [withoutManifest, Directory.read, slot_set_of_ne _ _ hne]
    rfl

theorem recovers_without_manifest_saved : ∃ l,
    (Ledger.system checksumIEEE).Reachable System.anyStep l ∧
      l.state = some [3] ∧ l.snapshot = [8] ∧
      (newFilePersister (withoutManifest l.fp.dir)).pair checksumIEEE = ([3], [8]) := by
  obtain ⟨l, hrun, hst, hsnap, hrel⟩ := (Ledger.system checksumIEEE).exists_of_exec
    { fp := newFilePersister [] }
    [.generation [1] (some [7]), .generation [2] none, .generation [2] (some [8]),
      .append [patchTo 3]]
    (fun l => l.state = some [3] ∧ l.snapshot = [8] ∧ l.fp.manifest.snapshotRel =
      some (.snapshot l.fp.manifest.generation)) (by decide +kernel)
  have hreach : (Ledger.system checksumIEEE).Reachable System.anyStep l :=
    System.Reachable.of_exec ⟨[], fresh_nil, rfl⟩ hrun
  have hown : l.fp.OwnsSnapshot := by
    intro rel hsome
    rw [hrel] at hsome
    exact (Option.some.inj hsome).symm
  have hpair := (recovers_without_manifest checksumIEEE hreach hown
    (loses_withoutManifest l.fp.dir)).2 [3] hst
  exact ⟨l, hreach, hst, hsnap, hsnap ▸ hpair⟩

theorem lost_manifest_reverts_save : ∃ l, (Ledger.system checksumIEEE).Reachable System.anyStep l ∧
      l.state = some [2] ∧ l.snapshot = [7] ∧ l.fp.pair checksumIEEE = ([2], [7]) ∧
      (newFilePersister (withoutManifest l.fp.dir)).pair checksumIEEE = ([1], [7]) :=
  System.exists_reachable_of_exec { fp := newFilePersister [] }
    [.generation [1] (some [7]), .generation [2] none] ⟨[], fresh_nil, rfl⟩ (by decide +kernel)

end FilePersister

end OrbisKV.Persist
