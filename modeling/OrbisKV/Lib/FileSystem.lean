import Mathlib.Data.List.Basic
/-!
# A directory of files and what a crash leaves of it

A file has contents of which the front part may have been flushed to the medium.
-/

namespace OrbisKV.Lib

open List

/-- What files hold. -/
class Contents (C : Type) extends Append C where
  size : C → Nat
  cut : Nat → C → C
  cut_of_size_le : ∀ {k : Nat} {c : C}, size c ≤ k → cut k c = c

structure File (C : Type) where
  contents : C
  flushed : Nat
deriving DecidableEq, Repr

structure Slot (C : Type) where
  file : Option (File C)
  /-- What the directory on the medium has instead, while it is not synced. -/
  unsynced : Option (Option (File C)) := none
deriving DecidableEq, Repr

namespace Slot

variable {C : Type} [Contents C]

def onMedium (slot : Slot C) : Option (File C) := slot.unsynced.getD slot.file

def enter (slot : Slot C) (file : Option (File C)) : Slot C := ⟨file, some slot.onMedium⟩

def settle (slot : Slot C) : Slot C := { slot with unsynced := none }

def contents? (slot : Slot C) : Option C := slot.file.map File.contents

/-- A crash brings back the entry on the medium or not, and cuts the file at `k` or
where its flushed part ends. -/
def afterCrash (slot : Slot C) (lost : Bool) (k : Nat) : Slot C :=
  let entry := if lost then slot.onMedium else slot.file
  ⟨entry.map fun f =>
    let rest := Contents.cut (max f.flushed k) f.contents
    ⟨rest, Contents.size rest⟩, none⟩

def Safe (slot : Slot C) : Prop :=
  slot.unsynced = none ∧ ∀ f, slot.file = some f → f.flushed = Contents.size f.contents

theorem Safe.afterCrash {slot : Slot C} (h : slot.Safe) (lost : Bool) (k : Nat) :
    (slot.afterCrash lost k).contents? = slot.contents? := by
  obtain ⟨hsyn, hflu⟩ := h
  have hent : (if lost then slot.onMedium else slot.file) = slot.file := by
    cases lost <;> simp [onMedium, hsyn]
  unfold Slot.afterCrash contents?
  rw [hent]
  cases hfile : slot.file with
  | none => rfl
  | some f =>
    have hall : Contents.size f.contents ≤ max f.flushed k := by
      have hsize := hflu f hfile
      omega
    simp [Contents.cut_of_size_le hall]

theorem safe_afterCrash (slot : Slot C) (lost : Bool) (k : Nat) :
    (slot.afterCrash lost k).Safe := by
  refine ⟨rfl, ?_⟩
  intro f hf
  obtain ⟨g, -, rfl⟩ := Option.map_eq_some_iff.mp hf
  rfl

theorem safe_none : (⟨none, none⟩ : Slot C).Safe := ⟨rfl, nofun⟩

end Slot

abbrev Directory (Name C : Type) := List (Name × Slot C)

inductive FileOp (Name C : Type)
  | write (name : Name) (contents : C)
  | append (name : Name) (more : C)
  | sync (name : Name)
  | rename (src dst : Name)
  | syncDir
deriving DecidableEq, Repr

namespace Directory

variable {Name C : Type} [DecidableEq Name]

def slot (d : Directory Name C) (name : Name) : Slot C := (d.lookup name).getD ⟨none, none⟩

def set (d : Directory Name C) (name : Name) (slot : Slot C) : Directory Name C := (name, slot) :: d

def read (d : Directory Name C) (name : Name) : Option C := (d.slot name).contents?

def names (d : Directory Name C) : List Name :=
  (d.map Prod.fst).filter fun name => (d.read name).isSome

section

variable [Contents C]

def run (d : Directory Name C) : FileOp Name C → Directory Name C
  | .write name contents =>
    match (d.slot name).file with
    | none => d.set name ((d.slot name).enter (some ⟨contents, 0⟩))
    | some _ => d.set name { d.slot name with file := some ⟨contents, 0⟩ }
  | .append name more =>
    match (d.slot name).file with
    | none => d.set name ((d.slot name).enter (some ⟨more, 0⟩))
    | some f =>
      d.set name { d.slot name with file := some { f with contents := f.contents ++ more } }
  | .sync name =>
    d.set name { d.slot name with
      file := (d.slot name).file.map fun f => { f with flushed := Contents.size f.contents } }
  | .rename src dst =>
    (d.set dst ((d.slot dst).enter (d.slot src).file)).set src ((d.slot src).enter none)
  | .syncDir => List.map (fun item => (item.1, item.2.settle)) d

def exec (d : Directory Name C) (ops : List (FileOp Name C)) : Directory Name C := ops.foldl run d

/-- `choice` says for each name whether its last change is lost and where its file is
cut. -/
def crash (d : Directory Name C) (choice : Name → Bool × Nat) : Directory Name C :=
  List.map (fun item => (item.1, item.2.afterCrash (choice item.1).1 (choice item.1).2)) d

end

@[simp] theorem slot_set_self (d : Directory Name C) (name : Name) (s : Slot C) :
    (d.set name s).slot name = s := by
  simp [slot, set]

theorem slot_set_of_ne (d : Directory Name C) {name n : Name} (s : Slot C) (h : n ≠ name) :
    (d.set name s).slot n = d.slot n := by
  have hne : (n == name) = false := beq_false_of_ne h
  simp [slot, set, lookup_cons, hne]

theorem lookup_map (d : Directory Name C) (f : Name → Slot C → Slot C) (name : Name) :
    List.lookup name (List.map (fun item => (item.1, f item.1 item.2)) d) =
      (d.lookup name).map (f name) := by
  induction d with
  | nil => rfl
  | cons item d ih =>
    obtain ⟨n, s⟩ := item
    by_cases h : name = n
    · subst h
      simp
    · have hne : (name == n) = false := beq_false_of_ne h
      simp [lookup_cons, hne, ih]

theorem mem_names {d : Directory Name C} {name : Name} : name ∈ d.names ↔ (d.read name).isSome := by
  rw [names, mem_filter]
  refine ⟨And.right, fun hread => ⟨?_, hread⟩⟩
  by_contra hmem
  have hnone : d.lookup name = none := by
    rw [lookup_eq_none_iff]
    intro item hitem
    rw [bne_iff_ne]
    rintro rfl
    exact hmem (mem_map_of_mem hitem)
  rw [read, slot, hnone] at hread
  cases hread

section

variable {d : Directory Name C} {n name : Name} {f : File C} {ops : List (FileOp Name C)}
  {items : List (Name × C)}

variable [Contents C]

theorem slot_crash (d : Directory Name C) (choice : Name → Bool × Nat) (name : Name) :
    (d.crash choice).slot name = (d.slot name).afterCrash (choice name).1 (choice name).2 := by
  rw [slot, crash, lookup_map d (fun n s => s.afterCrash (choice n).1 (choice n).2)]
  cases h : d.lookup name with
  | some s => simp [slot, h]
  | none => cases hlost : (choice name).1 <;> simp [slot, h, Slot.afterCrash, Slot.onMedium]

theorem slot_syncDir (d : Directory Name C) (name : Name) :
    (d.run .syncDir).slot name = (d.slot name).settle := by
  rw [slot, run, lookup_map d fun _ s => s.settle]
  cases h : d.lookup name with
  | some s => simp [slot, h]
  | none => simp [slot, h, Slot.settle]

@[simp] theorem exec_nil (d : Directory Name C) : d.exec [] = d := rfl

@[simp] theorem exec_cons (d : Directory Name C) (op : FileOp Name C) (ops : List (FileOp Name C)) :
    d.exec (op :: ops) = (d.run op).exec ops := rfl

theorem exec_append (d : Directory Name C) (ops ops' : List (FileOp Name C)) :
    d.exec (ops ++ ops') = (d.exec ops).exec ops' := foldl_append

theorem safe_crash (d : Directory Name C) (choice : Name → Bool × Nat) (name : Name) :
    ((d.crash choice).slot name).Safe := by
  rw [slot_crash]
  exact Slot.safe_afterCrash _ _ _

theorem read_crash (h : (d.slot name).Safe)
    (choice : Name → Bool × Nat) : (d.crash choice).read name = d.read name := by
  rw [read, slot_crash, h.afterCrash]
  rfl

theorem slot_write (d : Directory Name C) (name : Name) (c : C) :
    ∃ unsynced, (d.run (.write name c)).slot name = ⟨some ⟨c, 0⟩, unsynced⟩ := by
  simp only [run]
  split
  · exact ⟨_, slot_set_self ..⟩
  · exact ⟨_, slot_set_self ..⟩

theorem slot_write_of_ne (d : Directory Name C) (c : C) (h : n ≠ name) :
    (d.run (.write name c)).slot n = d.slot n := by
  simp only [run]
  split <;> exact slot_set_of_ne d _ h

theorem slot_sync (d : Directory Name C) (name : Name) :
    (d.run (.sync name)).slot name = { d.slot name with
      file := (d.slot name).file.map fun f => { f with flushed := Contents.size f.contents } } :=
  slot_set_self ..

theorem slot_sync_of_ne (d : Directory Name C) (h : n ≠ name) :
    (d.run (.sync name)).slot n = d.slot n := slot_set_of_ne d _ h

theorem slot_rename (d : Directory Name C) {src dst : Name} (h : dst ≠ src) :
    (d.run (.rename src dst)).slot dst = (d.slot dst).enter (d.slot src).file := by
  rw [run, slot_set_of_ne _ _ h, slot_set_self]

theorem slot_rename_of_ne (d : Directory Name C) {src dst : Name} (hsrc : n ≠ src)
    (hdst : n ≠ dst) : (d.run (.rename src dst)).slot n = d.slot n := by
  rw [run, slot_set_of_ne _ _ hsrc, slot_set_of_ne _ _ hdst]

theorem slot_append_of_some (h : (d.slot name).file = some f) (more : C) :
    (d.run (.append name more)).slot name =
      { d.slot name with file := some { f with contents := f.contents ++ more } } := by
  simp only [run, h]
  exact slot_set_self ..

theorem slot_append_of_ne (d : Directory Name C) (more : C) (h : n ≠ name) :
    (d.run (.append name more)).slot n = d.slot n := by
  simp only [run]
  split <;> exact slot_set_of_ne d _ h

def Extends (name : Name) : FileOp Name C → Prop
  | .append n _ => n = name
  | .sync n => n = name
  | _ => False

theorem slot_extend_of_ne (hops : ∀ op ∈ ops, Extends name op)
    (hne : n ≠ name) : (d.exec ops).slot n = d.slot n := by
  induction ops generalizing d with
  | nil => rfl
  | cons op ops ih =>
    rw [exec_cons, ih fun o ho => hops o (mem_cons_of_mem _ ho)]
    have hop := hops op mem_cons_self
    cases op with
    | append n' more =>
      obtain rfl : n' = name := hop
      exact slot_append_of_ne d more hne
    | sync n' =>
      obtain rfl : n' = name := hop
      exact slot_sync_of_ne d hne
    | _ => cases hop

theorem read_extend_of_ne (hops : ∀ op ∈ ops, Extends name op)
    (hne : n ≠ name) : (d.exec ops).read n = d.read n := by
  rw [read, slot_extend_of_ne hops hne]
  rfl

omit [Contents C] in
theorem exists_file (h : (d.read name).isSome = true) : ∃ f, (d.slot name).file = some f := by
  rw [read, Slot.contents?, Option.isSome_map] at h
  exact Option.isSome_iff_exists.mp h

theorem isSome_read_crash_extend (hops : ∀ op ∈ ops, Extends name op)
    (hsyn : (d.slot name).unsynced = none) (hfile : (d.read name).isSome = true)
    (choice : Name → Bool × Nat) : (((d.exec ops).crash choice).read name).isSome = true := by
  induction ops generalizing d with
  | nil =>
    rw [exec_nil, read, slot_crash]
    have hent : (if (choice name).1 then (d.slot name).onMedium else (d.slot name).file) =
        (d.slot name).file := by
      cases (choice name).1 <;> simp [Slot.onMedium, hsyn]
    rw [read, Slot.contents?, Option.isSome_map] at hfile
    simp [Slot.afterCrash, Slot.contents?, hent, hfile]
  | cons op ops ih =>
    obtain ⟨f, hf⟩ := exists_file hfile
    have hop := hops op mem_cons_self
    have hrest := fun o ho => hops o (mem_cons_of_mem _ ho)
    rw [exec_cons]
    cases op with
    | append n more =>
      obtain rfl : n = name := hop
      have hslot := slot_append_of_some hf more
      apply ih hrest
      · rw [hslot]
        exact hsyn
      · rw [read, hslot]
        rfl
    | sync n =>
      obtain rfl : n = name := hop
      have hslot := slot_sync d n
      apply ih hrest
      · rw [hslot]
        exact hsyn
      · rw [read, hslot, hf]
        rfl
    | _ => cases hop

theorem read_crash_append (h : (d.slot name).Safe) (hf : (d.slot name).file = some f) (more : C)
    (choice : Name → Bool × Nat) (hkeep : (choice name).1 = false) :
    ((d.run (.append name more)).crash choice).read name =
      some (Contents.cut (max (Contents.size f.contents) (choice name).2)
        (f.contents ++ more)) := by
  rw [read, slot_crash, slot_append_of_some hf]
  simp [Slot.afterCrash, Slot.contents?, hkeep, h.2 f hf]

theorem slot_appends (h : (d.slot name).file = some f) (more : List C) :
    (d.exec (more.map (.append name))).slot name =
      { d.slot name with file := some { f with contents := more.foldl (· ++ ·) f.contents } } := by
  induction more generalizing d f with
  | nil => rw [map_nil, exec_nil, foldl_nil, ← h]
  | cons c more ih =>
    have hslot := slot_append_of_some h c
    have hfile : ((d.run (.append name c)).slot name).file =
        some { f with contents := f.contents ++ c } := by rw [hslot]
    rw [map_cons, exec_cons, ih hfile, hslot]
    rfl

theorem slot_appends_sync (h : (d.slot name).file = some f) (more : List C) :
    (d.exec (more.map (.append name) ++ [.sync name])).slot name =
      ⟨some ⟨more.foldl (· ++ ·) f.contents, Contents.size (more.foldl (· ++ ·) f.contents)⟩,
        (d.slot name).unsynced⟩ := by
  rw [exec_append, exec_cons, exec_nil, slot_sync, slot_appends h]
  rfl

variable (tmp : Name → Name)

def replace (name : Name) (c : C) : List (FileOp Name C) :=
  [.write (tmp name) c, .sync (tmp name), .rename (tmp name) name, .syncDir]

def replaceAll (items : List (Name × C)) : List (FileOp Name C) :=
  items.flatMap fun item => replace tmp item.1 item.2

def Lasting (name : Name) : Prop := ∀ n, name ≠ tmp n

def Same (d d' : Directory Name C) : Prop := ∀ name, Lasting tmp name → d.read name = d'.read name

def AllSafe (d : Directory Name C) : Prop := ∀ name, Lasting tmp name → (d.slot name).Safe

variable {tmp} {d' : Directory Name C} {c : C}

theorem same_crash (h : AllSafe tmp d) (choice : Name → Bool × Nat) : Same tmp (d.crash choice) d :=
  fun n hn => read_crash (h n hn) choice

theorem slot_renamed (hname : Lasting tmp name) (d : Directory Name C) (c : C) :
    (d.exec ((replace tmp name c).take 3)).slot name =
      (d.slot name).enter (some ⟨c, Contents.size c⟩) := by
  have hne : name ≠ tmp name := hname name
  obtain ⟨unsynced, hwr⟩ := d.slot_write (tmp name) c
  simp only [replace, take_succ_cons, take_zero, exec_cons, exec_nil]
  rw [slot_rename _ hne, slot_sync, hwr, slot_sync_of_ne _ hne, slot_write_of_ne _ _ hne]
  rfl

theorem slot_replacing_of_ne (hn : Lasting tmp n) (hne : n ≠ name) (j : Nat) (hj : j ≤ 3) :
    (d.exec ((replace tmp name c).take j)).slot n = d.slot n := by
  have htmp : n ≠ tmp name := hn name
  have hwr : (d.run (.write (tmp name) c)).slot n = d.slot n := slot_write_of_ne _ _ htmp
  have hsync : ((d.run (.write (tmp name) c)).run (.sync (tmp name))).slot n = d.slot n := by
    rw [slot_sync_of_ne _ htmp, hwr]
  obtain rfl | rfl | rfl | rfl : j = 0 ∨ j = 1 ∨ j = 2 ∨ j = 3 := by omega
  · rfl
  · exact hwr
  · exact hsync
  · simp only [replace, take_succ_cons, take_zero, exec_cons, exec_nil]
    rw [slot_rename_of_ne _ htmp hne, hsync]

omit [DecidableEq Name] [Contents C] in
theorem replace_eq (name : Name) (c : C) :
    replace tmp name c = (replace tmp name c).take 3 ++ [.syncDir] := rfl

theorem slot_replace (hname : Lasting tmp name) (d : Directory Name C) (c : C) :
    (d.exec (replace tmp name c)).slot name = ⟨some ⟨c, Contents.size c⟩, none⟩ := by
  rw [replace_eq, exec_append, exec_cons, exec_nil, slot_syncDir, slot_renamed hname]
  rfl

theorem slot_replace_of_ne (hn : Lasting tmp n) (hne : n ≠ name) :
    (d.exec (replace tmp name c)).slot n = (d.slot n).settle := by
  rw [replace_eq, exec_append, exec_cons, exec_nil, slot_syncDir,
    slot_replacing_of_ne hn hne 3 (Nat.le_refl 3)]

@[simp] theorem read_replace (hname : Lasting tmp name) (d : Directory Name C) (c : C) :
    (d.exec (replace tmp name c)).read name = some c := by
  rw [read, slot_replace hname]
  rfl

theorem read_replace_of_ne (hn : Lasting tmp n) (hne : n ≠ name) :
    (d.exec (replace tmp name c)).read n = d.read n := by
  rw [read, slot_replace_of_ne hn hne]
  rfl

theorem AllSafe.replace (h : AllSafe tmp d) (hname : Lasting tmp name) (c : C) :
    AllSafe tmp (d.exec (replace tmp name c)) := by
  intro n hn
  by_cases hne : n = name
  · subst hne
    rw [slot_replace hname]
    refine ⟨rfl, ?_⟩
    intro f hf
    cases hf
    rfl
  · rw [slot_replace_of_ne hn hne]
    exact ⟨rfl, (h n hn).2⟩

theorem crash_replace (h : AllSafe tmp d) (hname : Lasting tmp name) (c : C) (j : Nat)
    (choice : Name → Bool × Nat) :
    Same tmp ((d.exec ((replace tmp name c).take j)).crash choice) d ∨
      Same tmp ((d.exec ((replace tmp name c).take j)).crash choice)
        (d.exec (replace tmp name c)) := by
  by_cases hj : 4 ≤ j
  · have hall : (replace tmp name c).take j = replace tmp name c :=
      take_of_length_le (by simpa [replace] using hj)
    rw [hall]
    exact Or.inr (same_crash (h.replace hname c) choice)
  · have hother : ∀ n, Lasting tmp n → n ≠ name →
        ((d.exec ((replace tmp name c).take j)).crash choice).read n = d.read n := by
      intro n hn hne
      rw [read, slot_crash, slot_replacing_of_ne hn hne j (by omega), (h n hn).afterCrash]
      rfl
    have hnew : ∀ {r : Option C}, r = some c → r = (d.exec (replace tmp name c)).read name := by
      intro r hr
      rw [hr, read_replace hname]
    -- only the rename touches the target, and a crash undoes it or not
    have htarget : ((d.exec ((replace tmp name c).take j)).crash choice).read name = d.read name ∨
        ((d.exec ((replace tmp name c).take j)).crash choice).read name = some c := by
      rw [read, slot_crash]
      by_cases hj3 : j = 3
      · subst hj3
        rw [slot_renamed hname]
        cases (choice name).1 with
        | true =>
          left
          have hold := (h name hname).afterCrash true (choice name).2
          simpa [Slot.afterCrash, Slot.enter, Slot.onMedium, Slot.contents?, read] using hold
        | false =>
          right
          have hall : Contents.size c ≤ max (Contents.size c) (choice name).2 := by omega
          simp [Slot.afterCrash, Slot.enter, Slot.contents?, Contents.cut_of_size_le hall]
      · left
        have hne : name ≠ tmp name := hname name
        have hkeep : (d.exec ((replace tmp name c).take j)).slot name = d.slot name := by
          obtain rfl | rfl | rfl : j = 0 ∨ j = 1 ∨ j = 2 := by omega
          · rfl
          · exact slot_write_of_ne _ _ hne
          · simp only [replace, take_succ_cons, take_zero, exec_cons, exec_nil]
            rw [slot_sync_of_ne _ hne, slot_write_of_ne _ _ hne]
        rw [hkeep, (h name hname).afterCrash]
        rfl
    rcases htarget with hold | hnew'
    · left
      intro n hn
      by_cases hne : n = name
      · exact hne ▸ hold
      · exact hother n hn hne
    · right
      intro n hn
      by_cases hne : n = name
      · subst hne
        exact hnew hnew'
      · rw [hother n hn hne, read_replace_of_ne hn hne]

omit [DecidableEq Name] [Contents C] in
@[simp] theorem replaceAll_nil : replaceAll tmp ([] : List (Name × C)) = [] := rfl

omit [DecidableEq Name] [Contents C] in
@[simp] theorem replaceAll_cons (item : Name × C) (items : List (Name × C)) :
    replaceAll tmp (item :: items) = replace tmp item.1 item.2 ++ replaceAll tmp items := rfl

theorem AllSafe.replaceAll (h : AllSafe tmp d) (hitems : ∀ item ∈ items, Lasting tmp item.1) :
    AllSafe tmp (d.exec (replaceAll tmp items)) := by
  induction items generalizing d with
  | nil => exact h
  | cons item items ih =>
    rw [replaceAll_cons, exec_append]
    apply ih (h.replace (hitems item mem_cons_self) item.2)
    exact fun i hi => hitems i (mem_cons_of_mem _ hi)

theorem read_replaceAll_of_notMem (hn : Lasting tmp n) (hmem : n ∉ items.map Prod.fst) :
    (d.exec (replaceAll tmp items)).read n = d.read n := by
  induction items generalizing d with
  | nil => rfl
  | cons item items ih =>
    rw [map_cons, mem_cons, not_or] at hmem
    rw [replaceAll_cons, exec_append, ih hmem.2, read_replace_of_ne hn hmem.1]

theorem read_replaceAll_of_mem (hn : Lasting tmp n) (hnodup : (items.map Prod.fst).Nodup)
    (hmem : (n, c) ∈ items) : (d.exec (replaceAll tmp items)).read n = some c := by
  induction items generalizing d with
  | nil => cases hmem
  | cons item items ih =>
    rw [map_cons, nodup_cons] at hnodup
    rw [replaceAll_cons, exec_append]
    rcases mem_cons.mp hmem with rfl | hmem
    · rw [read_replaceAll_of_notMem hn hnodup.1, read_replace hn]
    · exact ih hnodup.2 hmem

theorem crash_replaceAll (h : AllSafe tmp d) (hitems : ∀ item ∈ items, Lasting tmp item.1) (k : Nat)
    (choice : Name → Bool × Nat) :
    ∃ i, Same tmp ((d.exec ((replaceAll tmp items).take k)).crash choice)
      (d.exec (replaceAll tmp (items.take i))) := by
  induction items generalizing d k with
  | nil => exact ⟨0, by simpa using same_crash h choice⟩
  | cons item items ih =>
    have hitem := hitems item mem_cons_self
    rw [replaceAll_cons]
    by_cases hk : k ≤ 4
    · rw [take_append_of_le_length (by simpa [replace] using hk)]
      rcases crash_replace h hitem item.2 k choice with hold | hnew
      · exact ⟨0, hold⟩
      · exact ⟨1, by simpa using hnew⟩
    · have hlen : (replace tmp item.1 item.2).length = 4 := rfl
      have hsplit : (replace tmp item.1 item.2 ++ replaceAll tmp items).take k =
          replace tmp item.1 item.2 ++ (replaceAll tmp items).take (k - 4) := by
        rw [take_append, hlen, take_of_length_le (by omega)]
      obtain ⟨i, hi⟩ := ih (h.replace hitem item.2)
        (fun j hj => hitems j (mem_cons_of_mem _ hj)) (k - 4)
      refine ⟨i + 1, ?_⟩
      rw [hsplit, exec_append, take_succ_cons, replaceAll_cons, exec_append]
      exact hi

end

end Directory

end OrbisKV.Lib
