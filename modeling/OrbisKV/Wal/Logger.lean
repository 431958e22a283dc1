import OrbisKV.Lib.Transition
import OrbisKV.Raft.State
/-!
# The file of the write-ahead log

The log is a file of JSON texts, one on a line.
-/

namespace OrbisKV.Wal

open Lib List

def newline : UInt8 := 10

/-- The white space of `unicode.IsSpace`, in UTF-8. -/
def spaces : List Bytes :=
  [[9], [10], [11], [12], [13], [32], [0xc2, 0x85], [0xc2, 0xa0], [0xe1, 0x9a, 0x80]] ++
    ((List.range 11).map fun i => [0xe2, 0x80, 0x80 + UInt8.ofNat i]) ++
    [[0xe2, 0x80, 0xa8], [0xe2, 0x80, 0xa9], [0xe2, 0x80, 0xaf], [0xe2, 0x81, 0x9f],
      [0xe3, 0x80, 0x80]]

/-- The text without the words in front of it, at most `fuel` of them. -/
def trimWords (words : List Bytes) : Nat → Bytes → Bytes
  | 0, text => text
  | fuel + 1, text =>
    match words.find? (·.isPrefixOf text) with
    | none => text
    | some w => trimWords words fuel (text.drop w.length)

def trimSpace (line : Bytes) : Bytes :=
  let front := trimWords spaces line.length line
  (trimWords (spaces.map List.reverse) front.length front.reverse).reverse

section

variable {words : List Bytes} {fuel : Nat} {text : Bytes}

theorem trimWords_suffix (words : List Bytes) (fuel : Nat) (text : Bytes) :
    trimWords words fuel text <:+ text := by
  induction fuel generalizing text with
  | zero => exact suffix_rfl
  | succ fuel ih =>
    rw [trimWords]
    split
    · exact suffix_rfl
    · exact (ih _).trans (drop_suffix _ _)

theorem trimWords_of_clean (h : ∀ w ∈ words, ¬w <+: text) : trimWords words fuel text = text := by
  cases fuel with
  | zero => rfl
  | succ fuel =>
    have hnone : words.find? (·.isPrefixOf text) = none :=
      find?_eq_none.mpr fun w hw => by
        rw [ isPrefixOf_iff_prefix]
        exact h w hw
    rw [trimWords, hnone]

theorem trimWords_clean (hwords : ∀ w ∈ words, w ≠ []) (hfuel : text.length ≤ fuel) :
    ∀ w ∈ words, ¬w <+: trimWords words fuel text := by
  induction fuel generalizing text with
  | zero =>
    intro w hw hpre
    obtain rfl := length_eq_zero_iff.mp (Nat.le_zero.mp hfuel)
    exact hwords w hw (prefix_nil.mp hpre)
  | succ fuel ih =>
    rw [trimWords]
    split
    · rename_i hnone
      intro w hw hpre
      exact find?_eq_none.mp hnone w hw ( isPrefixOf_iff_prefix.mpr hpre)
    · rename_i w hfind
      have hpos := length_pos_iff.mpr (hwords w (mem_of_find?_eq_some hfind))
      refine ih ?_
      rw [length_drop]
      omega

theorem trimSpace_trimSpace (line : Bytes) : trimSpace (trimSpace line) = trimSpace line := by
  have hfr : ∀ w ∈ spaces, ¬w <+: trimWords spaces line.length line :=
    trimWords_clean (by decide) le_rfl
  have hback : ∀ w ∈ spaces.map List.reverse, ¬w <+: trimWords (spaces.map List.reverse)
      (trimWords spaces line.length line).length (trimWords spaces line.length line).reverse :=
    trimWords_clean (by decide) (length_reverse ..).le
  have hclean : ∀ w ∈ spaces, ¬w <+: trimSpace line := by
    intro w hw hpre
    refine hfr w hw (hpre.trans ?_)
    rw [trimSpace, ← reverse_suffix, reverse_reverse]
    exact trimWords_suffix _ _ _
  conv_lhs => rw [trimSpace, trimWords_of_clean hclean]
  rw [trimWords_of_clean, reverse_reverse]
  rw [trimSpace, reverse_reverse]
  exact hback

theorem trimSpace_sublist (line : Bytes) : (trimSpace line).Sublist line := by
  rw [trimSpace, ← reverse_sublist, reverse_reverse]
  exact (trimWords_suffix _ _ _).sublist.trans (trimWords_suffix _ _ _).sublist.reverse

end

/-- The JSON form of the entries: texts on one line that are read back, and no front part of
which is read. -/
structure Codec (Entry : Type) where
  marshal : Entry → Bytes
  unmarshal : Bytes → Option Entry
  raftIndex : Entry → Int
  unmarshal_marshal : ∀ e, unmarshal (marshal e) = some e
  marshal_ne_nil : ∀ e, marshal e ≠ []
  newline_notMem : ∀ e, newline ∉ marshal e
  trimSpace_marshal : ∀ e, trimSpace (marshal e) = marshal e
  unmarshal_take : ∀ e j, j < (marshal e).length → unmarshal (trimSpace ((marshal e).take j)) = none

/-- `ReadBytes`: the text up to the next newline, which is trimmed anyway, and what is behind
that, or all of the text and `none` at the end of the file. -/
def readLine : Bytes → Bytes × Option Bytes
  | [] => ([], none)
  | b :: rest =>
    if b = newline then ([], some rest)
    else
      let next := readLine rest
      (b :: next.1, next.2)

inductive ReplayError (ε : Type)
  | decode
  | handler (e : ε)
deriving DecidableEq, Repr

section

variable {Entry σ ε : Type} (unmarshal : Bytes → Option Entry)

def replayLoop (handler : σ → Entry → Except ε σ) : Nat → σ → Bytes → Except (ReplayError ε) σ
  | 0, s, _ => .ok s
  | fuel + 1, s, file =>
    let line := readLine file
    let raw := trimSpace line.1
    if raw = [] then
      match line.2 with
      | none => .ok s
      | some rest => replayLoop handler fuel s rest
    else
      match unmarshal raw with
      | none =>
        match line.2 with
        | none => .ok s
        | some _ => .error .decode
      | some entry =>
        match handler s entry with
        | .error e => .error (.handler e)
        | .ok s =>
          match line.2 with
          | none => .ok s
          | some rest => replayLoop handler fuel s rest

/-- `replayFile`. -/
def replayFile (handler : σ → Entry → Except ε σ) (s : σ) (file : Bytes) :
    Except (ReplayError ε) σ :=
  replayLoop unmarshal handler (file.length + 1) s file

variable (raftIndex : Entry → Int)

/-- The loop of `rewriteWALAfterTruncate`, which writes to `tmp`, for at most `fuel` lines. -/
def truncateLoop (upToIndex : Int) : Nat → Bytes → Bytes → Option Bytes
  | 0, tmp, _ => some tmp
  | fuel + 1, tmp, file =>
    let line := readLine file
    let raw := trimSpace line.1
    if raw = [] then
      match line.2 with
      | none => some tmp
      | some rest => truncateLoop upToIndex fuel tmp rest
    else
      match unmarshal raw with
      | none =>
        match line.2 with
        | none => some tmp
        | some _ => none
      | some entry =>
        let tmp := if upToIndex < raftIndex entry then tmp ++ (raw ++ [newline]) else tmp
        match line.2 with
        | none => some tmp
        | some rest => truncateLoop upToIndex fuel tmp rest

/-- `rewriteWALAfterTruncate`: the file afterwards, and whether there was no error. -/
def rewriteWALAfterTruncate (file : Bytes) (upToIndex : Int) : Bytes × Bool :=
  match truncateLoop unmarshal raftIndex upToIndex (file.length + 1) [] file with
  | none => (file, false)
  | some tmp => (tmp, true)

end

section

variable {Entry σ ε : Type} (codec : Codec Entry)

def lineOf (e : Entry) : Bytes := codec.marshal e ++ [newline]

def linesOf (es : List Entry) : Bytes := es.flatMap (lineOf codec)

variable {codec} {handler : σ → Entry → Except ε σ}

@[simp] theorem linesOf_nil : linesOf codec [] = [] := rfl

@[simp] theorem linesOf_cons (e : Entry) (es : List Entry) :
    linesOf codec (e :: es) = lineOf codec e ++ linesOf codec es := rfl

@[simp] theorem linesOf_append (es fs : List Entry) :
    linesOf codec (es ++ fs) = linesOf codec es ++ linesOf codec fs := flatMap_append

theorem readLine_append {text : Bytes} (h : newline ∉ text) (rest : Bytes) :
    readLine (text ++ newline :: rest) = (text, some rest) := by
  induction text with
  | nil => rfl
  | cons b text ih =>
    rw [mem_cons, not_or] at h
    have hb : b ≠ newline := fun heq => h.1 heq.symm
    rw [cons_append, readLine, if_neg hb, ih h.2]

theorem readLine_eof {text : Bytes} (h : newline ∉ text) : readLine text = (text, none) := by
  induction text with
  | nil => rfl
  | cons b text ih =>
    rw [mem_cons, not_or] at h
    have hb : b ≠ newline := fun heq => h.1 heq.symm
    rw [readLine, if_neg hb, ih h.2]

theorem readLine_fst (file : Bytes) : newline ∉ (readLine file).1 := by
  induction file with
  | nil => exact not_mem_nil
  | cons b file ih =>
    rw [readLine]
    split_ifs with hb
    · exact not_mem_nil
    · exact not_mem_cons_of_ne_of_not_mem (fun heq => hb heq.symm) ih

/-- A line without white space around it, with the entry that it is read as. -/
structure IsLine (unmarshal : Bytes → Option Entry) (line : Bytes × Entry) : Prop where
  ne_nil : line.1 ≠ []
  newline_notMem : newline ∉ line.1
  trimmed : trimSpace line.1 = line.1
  reads : unmarshal line.1 = some line.2

def textOf (lines : List (Bytes × Entry)) : Bytes := lines.flatMap fun line => line.1 ++ [newline]

theorem textOf_append (lines lines' : List (Bytes × Entry)) :
    textOf (lines ++ lines') = textOf lines ++ textOf lines' := flatMap_append

theorem linesOf_eq (es : List Entry) :
    linesOf codec es = textOf (es.map fun e => (codec.marshal e, e)) := by
  rw [textOf, flatMap_map]
  rfl

theorem replayLoop_lines {unmarshal : Bytes → Option Entry} {lines : List (Bytes × Entry)}
    (hlines : ∀ line ∈ lines, IsLine unmarshal line) {s s' : σ}
    (h : (lines.map Prod.snd).foldlM handler s = .ok s') (rest : Bytes) {fuel : Nat}
    (hfuel : lines.length ≤ fuel) :
    replayLoop unmarshal handler fuel s (textOf lines ++ rest) =
      replayLoop unmarshal handler (fuel - lines.length) s' rest := by
  induction lines generalizing s fuel with
  | nil =>
    cases h
    rfl
  | cons line lines ih =>
    obtain ⟨fuel, rfl⟩ : ∃ n, fuel = n + 1 := ⟨fuel - 1, by rw [length_cons] at hfuel; omega⟩
    rw [map_cons, foldlM_cons] at h
    cases hnext : handler s line.2 with
    | error err =>
      rw [hnext] at h
      cases h
    | ok next =>
      rw [hnext] at h
      have hline := hlines line mem_cons_self
      have hread : readLine (textOf (line :: lines) ++ rest) =
          (line.1, some (textOf lines ++ rest)) := by
        rw [textOf, flatMap_cons, append_assoc, append_assoc]
        exact readLine_append hline.newline_notMem _
      rw [replayLoop, hread]
      dsimp only
      rw [hline.trimmed, if_neg hline.ne_nil, hline.reads]
      dsimp only
      rw [hnext]
      dsimp only
      rw [ih (fun l hl => hlines l (mem_cons_of_mem _ hl)) h
        (by rw [length_cons] at hfuel; omega), length_cons]
      congr 1
      omega

theorem length_le_textOf (lines : List (Bytes × Entry)) : lines.length ≤ (textOf lines).length := by
  induction lines with
  | nil => exact Nat.zero_le _
  | cons line lines ih =>
    rw [textOf, flatMap_cons, ← textOf, length_append, length_append, length_cons, length_singleton]
    omega

theorem replayFile_textOf {unmarshal : Bytes → Option Entry} {lines : List (Bytes × Entry)}
    (hlines : ∀ line ∈ lines, IsLine unmarshal line) {s s' : σ}
    (h : (lines.map Prod.snd).foldlM handler s = .ok s') {tail : Bytes} (hline : newline ∉ tail)
    (hraw : trimSpace tail = [] ∨ unmarshal (trimSpace tail) = none) :
    replayFile unmarshal handler s (textOf lines ++ tail) = .ok s' := by
  have hlength := length_le_textOf lines
  obtain ⟨fuel, hfuel⟩ : ∃ n, (textOf lines ++ tail).length + 1 - lines.length = n + 1 :=
    ⟨(textOf lines ++ tail).length - lines.length, by rw [length_append]; omega⟩
  rw [replayFile, replayLoop_lines hlines h tail (by rw [length_append]; omega), hfuel,
    replayLoop, readLine_eof hline]
  dsimp only
  rcases hraw with hnil | hnone
  · rw [if_pos hnil]
  · split
    · rfl
    · rw [hnone]

theorem replayFile_lines {es : List Entry} {s s' : σ} (h : es.foldlM handler s = .ok s')
    {tail : Bytes} (hline : newline ∉ tail)
    (hraw : trimSpace tail = [] ∨ codec.unmarshal (trimSpace tail) = none) :
    replayFile codec.unmarshal handler s (linesOf codec es ++ tail) = .ok s' := by
  have hlines : ∀ line ∈ es.map fun e => (codec.marshal e, e), IsLine codec.unmarshal line := by
    refine forall_mem_map.mpr fun e _ => ?_
    exact ⟨codec.marshal_ne_nil e, codec.newline_notMem e, codec.trimSpace_marshal e,
      codec.unmarshal_marshal e⟩
  have hsound : (es.map fun e => (codec.marshal e, e)).map Prod.snd = es := by
    rw [map_map]
    exact map_id es
  rw [linesOf_eq]
  exact replayFile_textOf hlines (by rwa [hsound]) hline hraw

end

structure Logger (Entry : Type) where
  file : Bytes
  replayDone : Bool := false
  reqCh : List Bytes := []
  batch : List Bytes := []
  appended : List Entry := []
deriving DecidableEq

namespace Logger

def channelSize : Nat := 4096

def batchSize : Nat := 256

variable {Entry σ ε : Type} (codec : Codec Entry)

def newLogger (file : Bytes) : Logger Entry := { file := file }

def collect (es : List Entry) (e : Entry) : Except Empty (List Entry) := .ok (es ++ [e])

def flush (l : Logger Entry) : Logger Entry :=
  { l with file := l.file ++ l.batch.flatten, batch := [] }

/-- `stopWorkerLocked`: the worker writes its batch, and what is left in the channel is
dropped. -/
def stopWorker (l : Logger Entry) : Logger Entry := { l.flush with reqCh := [] }

def replay (l : Logger Entry) (handler : σ → Entry → Except ε σ) (s : σ) :
    Except (ReplayError ε) (σ × Logger Entry) :=
  match replayFile codec.unmarshal handler s l.stopWorker.file with
  | .error e => .error e
  | .ok s => .ok (s, { l.stopWorker with replayDone := true })

/-- `AppendAsync` with a running worker, `Append` as far as it enqueues; `none` for an
error. -/
def append (l : Logger Entry) (entry : Entry) : Option (Logger Entry) :=
  if !l.replayDone then none
  else if l.reqCh.length < channelSize then
    some { l with
      reqCh := l.reqCh ++ [lineOf codec entry]
      appended := l.appended ++ [entry] }
  else none

def receive (l : Logger Entry) : Option (Logger Entry) :=
  match l.reqCh with
  | [] => none
  | req :: rest =>
    let l := { l with reqCh := rest, batch := l.batch ++ [req] }
    some (if batchSize ≤ l.batch.length then l.flush else l)

inductive Action (Entry : Type)
  | append (entry : Entry)
  | receive
  | tick

def appending : System (Logger Entry) (Action Entry) where
  init l := l.replayDone = true ∧ l.reqCh = [] ∧ l.batch = [] ∧ l.appended = []
  step l
    | .append entry => l.append codec entry
    | .receive => l.receive
    | .tick => some l.flush

variable {codec} {l l' : Logger Entry} {file : Bytes}

/-- What will be in the file is what was there and the lines that were accepted. -/
def Carries (codec : Codec Entry) (file : Bytes) (l : Logger Entry) : Prop :=
  l.file ++ (l.batch.flatten ++ l.reqCh.flatten) = file ++ linesOf codec l.appended

theorem Carries.flush (h : Carries codec file l) : Carries codec file l.flush := by
  unfold Carries at h ⊢
  rw [Logger.flush]
  dsimp only
  rw [← h]
  simp

theorem Carries.step (h : Carries codec file l) {action : Action Entry}
    (hstep : (appending codec).step l action = some l') : Carries codec file l' := by
  cases action with
  | append entry =>
    simp only [appending, append] at hstep
    split_ifs at hstep
    cases hstep
    unfold Carries at h ⊢
    calc l.file ++ (l.batch.flatten ++ (l.reqCh ++ [lineOf codec entry]).flatten)
      _ = l.file ++ (l.batch.flatten ++ l.reqCh.flatten) ++ lineOf codec entry := by simp
      _ = file ++ linesOf codec l.appended ++ lineOf codec entry := by rw [h]
      _ = file ++ linesOf codec (l.appended ++ [entry]) := by simp
  | receive =>
    simp only [appending, receive] at hstep
    split at hstep
    · cases hstep
    · rename_i req rest hch
      cases hstep
      have hmv : Carries codec file { l with reqCh := rest, batch := l.batch ++ [req] } := by
        unfold Carries at h ⊢
        rw [← h, hch]
        simp
      split
      · exact hmv.flush
      · exact hmv
  | tick =>
    cases hstep
    exact h.flush

theorem file_of_run (hl : (appending codec).init l)
    (hrun : (appending codec).Run System.anyStep l l') (hreqCh : l'.reqCh = [])
    (hbat : l'.batch = []) : l'.file = l.file ++ linesOf codec l'.appended := by
  have hcar : Carries codec l.file l' := by
    apply System.Run.preserves (fun s a t hs _ hstep => hs.step hstep) _ hrun
    obtain ⟨-, hch, hb, happ⟩ := hl
    simp [Carries, hch, hb, happ]
  simpa [Carries, hreqCh, hbat] using hcar

theorem foldlM_collect (es fs : List Entry) : fs.foldlM collect es = .ok (es ++ fs) := by
  induction fs generalizing es with
  | nil => rw [append_nil]; rfl
  | cons f fs ih =>
    rw [foldlM_cons]
    change fs.foldlM collect (es ++ [f]) = _
    rw [ih, append_assoc]
    rfl

section

variable (unmarshal : Bytes → Option Entry) (raftIndex : Entry → Int)

theorem truncateLoop_spec (upToIndex : Int) (es : List Entry) (tmp file : Bytes) (fuel : Nat) :
    (∃ lines : List (Bytes × Entry), (∀ line ∈ lines, IsLine unmarshal line) ∧
      replayLoop unmarshal collect fuel es file = .ok (es ++ lines.map Prod.snd) ∧
      truncateLoop unmarshal raftIndex upToIndex fuel tmp file =
        some (tmp ++ textOf (lines.filter fun line => upToIndex < raftIndex line.2))) ∨
    replayLoop unmarshal collect fuel es file = .error .decode ∧
      truncateLoop unmarshal raftIndex upToIndex fuel tmp file = none := by
  induction fuel generalizing es tmp file with
  | zero => exact .inl ⟨[], by simp [replayLoop, truncateLoop, textOf]⟩
  | succ fuel ih =>
    rw [replayLoop, truncateLoop]
    have hfree : newline ∉ trimSpace (readLine file).1 :=
      fun hmem => readLine_fst file ((trimSpace_sublist _).subset hmem)
    have htrim := trimSpace_trimSpace (readLine file).1
    generalize trimSpace (readLine file).1 = raw at hfree htrim
    dsimp only
    by_cases hraw : raw = []
    · rw [if_pos hraw, if_pos hraw]
      cases (readLine file).2 with
      | none => exact .inl ⟨[], by simp [textOf]⟩
      | some rest => exact ih es tmp rest
    rw [if_neg hraw, if_neg hraw]
    cases hent : unmarshal raw with
    | none =>
      cases (readLine file).2 with
      | none => exact .inl ⟨[], by simp [textOf]⟩
      | some rest => exact .inr ⟨rfl, rfl⟩
    | some entry =>
      have hline : IsLine unmarshal (raw, entry) := ⟨hraw, hfree, htrim, hent⟩
      have hkept : (if upToIndex < raftIndex entry then tmp ++ (raw ++ [newline]) else tmp) =
          tmp ++ textOf ([(raw, entry)].filter fun line => upToIndex < raftIndex line.2) := by
        split_ifs with hlt <;> simp [textOf, hlt]
      dsimp only
      rw [hkept]
      cases (readLine file).2 with
      | none => exact .inl ⟨[(raw, entry)], by simpa using hline, rfl, rfl⟩
      | some rest =>
        rcases ih (es ++ [entry]) _ rest with ⟨lines, hlines, hrep, htrunc⟩ | hfail
        · refine .inl ⟨(raw, entry) :: lines, forall_mem_cons.mpr ⟨hline, hlines⟩, ?_, ?_⟩
          · rw [map_cons, append_cons]
            exact hrep
          · rw [show (raw, entry) :: lines = [(raw, entry)] ++ lines from rfl, filter_append,
              textOf_append, ← append_assoc]
            exact htrunc
        · exact .inr hfail

/-- Truncation is a filter: it succeeds where the file can be replayed, what the new file
replays to are the entries behind the index, and a file that cannot be replayed stays. -/
theorem truncation_is_filter (file : Bytes) (upToIndex : Int) :
    ((rewriteWALAfterTruncate unmarshal raftIndex file upToIndex).2 = true ↔
      ∃ es, replayFile unmarshal collect [] file = .ok es) ∧
    (∀ es, replayFile unmarshal collect [] file = .ok es → replayFile unmarshal collect []
        (rewriteWALAfterTruncate unmarshal raftIndex file upToIndex).1 =
          .ok (es.filter fun e => upToIndex < raftIndex e)) ∧
    ((rewriteWALAfterTruncate unmarshal raftIndex file upToIndex).2 = false →
      (rewriteWALAfterTruncate unmarshal raftIndex file upToIndex).1 = file) := by
  rw [rewriteWALAfterTruncate, replayFile]
  rcases truncateLoop_spec unmarshal raftIndex upToIndex [] [] file (file.length + 1) with
    ⟨lines, hlines, hrep, htrunc⟩ | ⟨hrep, htrunc⟩
  · rw [hrep, htrunc]
    refine ⟨⟨fun _ => ⟨_, rfl⟩, fun _ => rfl⟩, fun es hes => ?_, nofun⟩
    obtain rfl := Except.ok.inj hes
    have hkept : ∀ line ∈ lines.filter fun line => upToIndex < raftIndex line.2,
        IsLine unmarshal line := fun line hline => hlines line (mem_of_mem_filter hline)
    have hwri := replayFile_textOf hkept (foldlM_collect [] _) not_mem_nil (.inl rfl)
    rw [append_nil] at hwri
    rw [nil_append, nil_append, filter_map]
    exact hwri
  · rw [hrep, htrunc]
    refine ⟨⟨nofun, ?_⟩, ?_, fun _ => rfl⟩
    · rintro ⟨es, hes⟩
      cases hes
    · intro es hes
      cases hes

end

theorem stopWorker_newLogger (file : Bytes) :
    (newLogger file : Logger Entry).stopWorker = newLogger file := by
  simp [newLogger, stopWorker, flush]

theorem replay_newLogger {handler : σ → Entry → Except ε σ} {es : List Entry} {s s' : σ}
    (h : es.foldlM handler s = .ok s') {tail : Bytes} (hline : newline ∉ tail)
    (hraw : trimSpace tail = [] ∨ codec.unmarshal (trimSpace tail) = none) :
    (newLogger (linesOf codec es ++ tail)).replay codec handler s =
      .ok (s', { newLogger (linesOf codec es ++ tail) with replayDone := true }) := by
  rw [replay, stopWorker_newLogger, newLogger, replayFile_lines h hline hraw]

theorem replay_lines {handler : σ → Entry → Except ε σ} {es : List Entry} {s s' : σ}
    (h : es.foldlM handler s = .ok s') :
    ∃ l, (newLogger (linesOf codec es)).replay codec handler s = .ok (s', l) := by
  rw [← append_nil (linesOf codec es)]
  exact ⟨_, replay_newLogger h not_mem_nil (.inl rfl)⟩

theorem torn_skipped (codec : Codec Entry) (torn : Entry) {j : Nat}
    (hj : j < (codec.marshal torn).length) :
    newline ∉ (lineOf codec torn).take j ∧
      codec.unmarshal (trimSpace ((lineOf codec torn).take j)) = none := by
  have htake : (lineOf codec torn).take j = (codec.marshal torn).take j :=
    take_append_of_le_length (by omega)
  rw [htake]
  exact ⟨fun hmem => codec.newline_notMem torn (mem_of_mem_take hmem),
    codec.unmarshal_take torn j hj⟩

/-- The log survives a torn last line if nothing of it is in the file, or if nothing is
appended and its text is not complete: a later replay delivers the complete entries and then
the appended ones. -/
theorem wal_survives_torn_tail (codec : Codec Entry) {es d : List Entry} {torn : Entry} {j : Nat}
    {l l' : Logger Entry}
    (hrep : (newLogger (linesOf codec es ++ (lineOf codec torn).take j)).replay codec collect [] =
      .ok (d, l))
    (hrun : (appending codec).Run System.anyStep l l') (hreqCh : l'.reqCh = [])
    (hbat : l'.batch = [])
    (hclean : j = 0 ∨ l'.appended = [] ∧ j < (codec.marshal torn).length) :
    d = es ∧ ∃ l'', (newLogger l'.file).replay codec collect [] = .ok (es ++ l'.appended, l'') := by
  have hskip : newline ∉ (lineOf codec torn).take j ∧ (trimSpace ((lineOf codec torn).take j) = [] ∨
        codec.unmarshal (trimSpace ((lineOf codec torn).take j)) = none) := by
    rcases hclean with rfl | ⟨-, hj⟩
    · exact ⟨not_mem_nil, .inl rfl⟩
    · exact ⟨(torn_skipped codec torn hj).1, .inr (torn_skipped codec torn hj).2⟩
  rw [replay_newLogger (foldlM_collect [] es) hskip.1 hskip.2] at hrep
  obtain ⟨rfl, rfl⟩ := Prod.mk.inj (Except.ok.inj hrep)
  refine ⟨rfl, ?_⟩
  have hfile := file_of_run ⟨rfl, rfl, rfl, rfl⟩ hrun hreqCh hbat
  rcases hclean with rfl | ⟨hnone, -⟩
  · -- the new lines follow the complete ones
    have hlines : l'.file = linesOf codec (es ++ l'.appended) := by
      rw [hfile]
      simp [newLogger]
    rw [hlines]
    exact replay_lines (foldlM_collect [] _)
  · rw [hnone, linesOf_nil, append_nil] at hfile
    rw [hfile, hnone, append_nil]
    exact ⟨_, replay_newLogger (foldlM_collect [] es) hskip.1 hskip.2⟩

def ascii (s : String) : Bytes := s.toList.map fun c => UInt8.ofNat c.toNat

def sampleText (index : Fin 10) : Bytes :=
  ascii "\x7b\"raft_index\":" ++ [48 + UInt8.ofNat index] ++
    ascii ",\"term\":0,\"node_id\":0,\"req_id\":0,\"op_type\":\"\",\"timestamp\":1\x7d"

def sample : Codec (Fin 10) where
  marshal := sampleText
  unmarshal text := (List.finRange 10).find? fun index => sampleText index = text
  raftIndex index := index
  unmarshal_marshal := by decide +kernel
  marshal_ne_nil := by decide +kernel
  newline_notMem := by decide +kernel
  trimSpace_marshal := by decide +kernel
  unmarshal_take := by
    have hlen : ∀ index, (sampleText index).length = 75 := by decide +kernel
    intro index j hj
    apply find?_eq_none.mpr
    intro index' _ heq
    have hsize := congrArg List.length (of_decide_eq_true heq)
    have hshort := (trimSpace_sublist ((sampleText index).take j)).length_le
    rw [length_take] at hshort
    rw [hlen] at hj hsize hshort
    omega

theorem wal_survives_torn_tail_sample : ∃ l l' l'' : Logger (Fin 10),
    (newLogger (linesOf sample [1] ++ (lineOf sample 2).take 0)).replay sample collect [] =
      .ok ([1], l) ∧
    l'.appended = [3] ∧
    (newLogger l'.file).replay sample collect [] = .ok ([1] ++ l'.appended, l'') := by
  have hrep : (newLogger (linesOf sample [1] ++ (lineOf sample 2).take 0)).replay sample
      collect [] = .ok ([1], { newLogger (linesOf sample [1] ++ []) with replayDone := true }) :=
    replay_newLogger (foldlM_collect [] [1]) not_mem_nil (.inl rfl)
  obtain ⟨l', hexec, hreqCh, hbat, happ⟩ := (appending sample).exists_of_exec
    { newLogger (linesOf sample [1] ++ []) with replayDone := true }
    [.append 3, .receive, .tick]
    (fun l' => l'.reqCh = [] ∧ l'.batch = [] ∧ l'.appended = [3]) (by decide +kernel)
  obtain ⟨-, l'', hl''⟩ := wal_survives_torn_tail sample hrep (System.Run.of_exec hexec)
    hreqCh hbat (.inl rfl)
  exact ⟨_, l', l'', hrep, happ, hl''⟩

theorem torn_byte_breaks_replay : ∃ l l' : Logger (Fin 10),
    (newLogger (linesOf sample [1] ++ (lineOf sample 2).take 1)).replay sample collect [] =
      .ok ([1], l) ∧
    (appending sample).Run System.anyStep l l' ∧ l'.reqCh = [] ∧ l'.batch = [] ∧
    l'.appended = [3] ∧
    (newLogger l'.file).replay sample collect [] = .error .decode := by
  have hskip := torn_skipped sample 2 (j := 1) (by decide +kernel)
  have hrep : (newLogger (linesOf sample [1] ++ (lineOf sample 2).take 1)).replay sample
      collect [] = .ok ([1], { newLogger (linesOf sample [1] ++ (lineOf sample 2).take 1) with
        replayDone := true }) := replay_newLogger (foldlM_collect [] [1]) hskip.1 (.inr hskip.2)
  obtain ⟨l', hexec, hreqCh, hbat, happ, hfails⟩ := (appending sample).exists_of_exec
    { newLogger (linesOf sample [1] ++ (lineOf sample 2).take 1) with replayDone := true }
    [.append 3, .receive, .tick]
    (fun l' => l'.reqCh = [] ∧ l'.batch = [] ∧ l'.appended = [3] ∧
      (newLogger l'.file).replay sample collect [] = .error .decode) (by decide +kernel)
  exact ⟨_, l', hrep, System.Run.of_exec hexec, hreqCh, hbat, happ, hfails⟩

end Logger

end OrbisKV.Wal
