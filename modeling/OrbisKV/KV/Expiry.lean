import OrbisKV.KV.Forward
/-!
# Expiry times

An entry whose time has passed stays in the store until it is removed.
`PutCASWithTTL` takes such a key for absent, the writes of a transaction do not look at the
time.  The time itself is a sum of 64-bit numbers.
-/

namespace OrbisKV.KV

open Std

namespace Store

/-- The document that a successful put leaves under its key. -/
def putLeft (s : Store) (now : Int64) (key value : String) (expectedVersion : UInt64)
    (expires : Int64) : Option (Option Document) :=
  match s.putCASWithTTL now key value expectedVersion expires with
  | .ok (s', _, .ok) => some s'[key]?
  | _ => none

/-- The document that a successful batch of one put leaves under its key. -/
def batchLeft (s : Store) (key value : String) (expectedVersion : UInt64) (expires : Int64) :
    Option (Option Document) :=
  match s.writeBatchWithCAS [⟨key, value, expectedVersion, expires, false⟩] with
  | .ok s' => some s'[key]?
  | .error _ => none

/-- An expired entry has to be of the version that a put of a new key names. -/
theorem cas_routines_agree_iff (s : Store) (now : Int64) (key value : String)
    (expectedVersion : UInt64) (expires : Int64) :
    s.batchLeft key value expectedVersion expires =
      s.putLeft now key value expectedVersion expires ↔
      ∀ cur, s.get key = .ok (some cur) → isExpired cur.expires now = true →
        (expectedVersion = 0 ↔ cur.version = expectedVersion) := by
  unfold batchLeft putLeft writeBatchWithCAS writeBatchWithCASInTxn writeBatchWithCASInTxn
    writeOpWithCAS putCASWithTTL putFirst Store.get
  cases hdoc : s[key]? with
  | none => by_cases hzero : expectedVersion = 0 <;> simp [hzero]
  | some raw =>
    cases hraw : raw.toKV? with
    | none => simp [hraw]
    | some cur =>
      cases hexp : isExpired cur.expires now with
      | false => by_cases hver : cur.version = expectedVersion <;> simp [hexp, hraw, hver]
      | true =>
        by_cases hzero : expectedVersion = 0 <;> by_cases hver : cur.version = expectedVersion
        · simp [hexp, hraw, hzero, hver]
        · rw [hzero] at hver
          simp [hexp, hraw, hzero, hver]
        · simp [hexp, hraw, hzero, hver]
        · simp [hexp, hraw, hzero, hver]

theorem cas_routines_differ :
    let s : Store := (∅ : Store).insert "k" (.entry ⟨"old", 1, 5⟩)
    s.putLeft 5 "k" "new" 0 0 = some (some (.entry ⟨"new", 1, 0⟩)) ∧
      s.batchLeft "k" "new" 0 0 = none := by
  decide +kernel

end Store

namespace KVServer

/-- The end of a time to live, in nanoseconds. -/
def ttlEnd (ttl now : Int64) : Int := now.toInt + ttl.toInt * 1000000000

/-- The end as a 64-bit number: the time that the entry carries. -/
def wrappedEnd (ttl now : Int64) : Int := (ttlEnd ttl now).bmod Int64.size

variable {hash : String → UInt64} {ttl ttl' now t : Int64}

section

variable (hpos : 0 < ttl)

include hpos

theorem toInt_absoluteExpiryFromTTL :
    (absoluteExpiryFromTTL ttl now).toInt = wrappedEnd ttl now := by
  have hsec : (1000000000 : Int64).toInt = 1000000000 := by decide +kernel
  rw [absoluteExpiryFromTTL, if_neg (Int64.not_le.mpr hpos), Int64.toInt_add, Int64.toInt_mul,
    hsec, Int.add_bmod_bmod]
  rfl

theorem isExpired_absoluteExpiryFromTTL :
    isExpired (absoluteExpiryFromTTL ttl now) t = true ↔
      0 < wrappedEnd ttl now ∧ wrappedEnd ttl now ≤ t.toInt := by
  have hzero : (0 : Int64).toInt = 0 := rfl
  simp only [isExpired, Bool.and_eq_true, decide_eq_true_eq, Int64.lt_iff_toInt_lt,
    Int64.le_iff_toInt_le, toInt_absoluteExpiryFromTTL hpos, hzero]

theorem wrappedEnd_eq_ttlEnd (hfits : ttlEnd ttl now ≤ 9223372036854775807) :
    wrappedEnd ttl now = ttlEnd ttl now := by
  have httl : 0 < ttl.toInt := Int64.lt_iff_toInt_lt.mp hpos
  have hnow := now.le_toInt
  have hsize : (Int64.size : Int) = 18446744073709551616 := rfl
  refine Int.bmod_eq_of_le ?_ ?_
  · unfold ttlEnd
    omega
  · omega

/-- Where the wrapped end is positive it is a time of the clock, so a time from which on the
entry is expired comes before the true end unless the two are the same. -/
theorem live_until_end_iff :
    (∀ t : Int64, now ≤ t → t.toInt < ttlEnd ttl now →
      isExpired (absoluteExpiryFromTTL ttl now) t = false) ↔
      ttlEnd ttl now ≤ 9223372036854775807 ∨ wrappedEnd ttl now ≤ 0 := by
  simp only [← Bool.not_eq_true, isExpired_absoluteExpiryFromTTL hpos, not_and, Int.not_le]
  constructor
  · intro h
    by_contra! hbad
    have hend : (absoluteExpiryFromTTL ttl now).toInt = wrappedEnd ttl now :=
      toInt_absoluteExpiryFromTTL hpos
    have hlt := (absoluteExpiryFromTTL ttl now).toInt_lt
    have hnow := now.toInt_lt
    rcases Int64.le_total now (absoluteExpiryFromTTL ttl now) with hle | hle
    · have hexp := h _ hle (by omega) hbad.2
      omega
    · have hexp := h now (Int64.le_refl _) (by omega) hbad.2
      rw [Int64.le_iff_toInt_le] at hle
      omega
  · rintro (hfits | hneg) t - ht hend
    · rwa [wrappedEnd_eq_ttlEnd hpos hfits]
    · omega

theorem expires_no_earlier_iff (hpos' : 0 < ttl') :
    (∀ t : Int64, now ≤ t → isExpired (absoluteExpiryFromTTL ttl' now) t = true →
      isExpired (absoluteExpiryFromTTL ttl now) t = true) ↔
      wrappedEnd ttl' now ≤ 0 ∨
        0 < wrappedEnd ttl now ∧ wrappedEnd ttl now ≤ max (wrappedEnd ttl' now) now.toInt := by
  simp only [isExpired_absoluteExpiryFromTTL hpos, isExpired_absoluteExpiryFromTTL hpos']
  constructor
  · intro h
    by_contra! hbad
    have hend : (absoluteExpiryFromTTL ttl' now).toInt = wrappedEnd ttl' now :=
      toInt_absoluteExpiryFromTTL hpos'
    rcases Int64.le_total now (absoluteExpiryFromTTL ttl' now) with hle | hle
    · have hexp := h _ hle ⟨hbad.1, hend.ge⟩
      have := hbad.2 hexp.1
      omega
    · rw [Int64.le_iff_toInt_le] at hle
      have hexp := h now (Int64.le_refl _) ⟨hbad.1, by omega⟩
      have := hbad.2 hexp.1
      omega
  · rintro (hneg | ⟨hend, hle⟩) t hnow hexp
    · omega
    · rw [Int64.le_iff_toInt_le] at hnow
      omega

end

/-- A put that is accepted is answered from until its time ends, as long as its entry stays
and the group serves the shard, exactly when the end fits or its wrapped value is no time at all;
and when a longer time to live ends no earlier. -/
theorem ttl_honoured {kv kv' : KVServer} {net : Net} {clock : Clock} (args : PutArgs)
    (hpos : 0 < args.ttl) (hok : (kv.doPut hash net clock args).2.err = .ok)
    (hkept : kv'.store[args.key]? = (kv.doPut hash net clock args).1.store[args.key]?)
    (halive : kv'.dead = false) (hserved : (kv'.shardOf hash args.key).state ≠ .absent) :
    ((∀ t : Int64, clock.now ≤ t → t.toInt < ttlEnd args.ttl clock.now →
      (kv'.doGet hash t args.key).err = .ok ∧ (kv'.doGet hash t args.key).value = args.value) ↔
      ttlEnd args.ttl clock.now ≤ 9223372036854775807 ∨ wrappedEnd args.ttl clock.now ≤ 0) ∧
    ∀ ttl' : Int64, args.ttl ≤ ttl' → ((∀ t : Int64, clock.now ≤ t →
        isExpired (absoluteExpiryFromTTL ttl' clock.now) t = true →
          isExpired (absoluteExpiryFromTTL args.ttl clock.now) t = true) ↔
        wrappedEnd ttl' clock.now ≤ 0 ∨ 0 < wrappedEnd args.ttl clock.now ∧
          wrappedEnd args.ttl clock.now ≤ max (wrappedEnd ttl' clock.now) clock.now.toInt) := by
  have hget : kv'.store.get args.key = .ok (some (written clock args)) := by
    rw [Store.get, hkept, doPut_ok hok]
    simp [Document.toKV?]
  have hanswer : ∀ t, ((kv'.doGet hash t args.key).err = .ok ∧
      (kv'.doGet hash t args.key).value = args.value) ↔
        isExpired (absoluteExpiryFromTTL args.ttl clock.now) t = false := by
    intro t
    rw [doGet, if_neg (by rw [halive]; decide), if_neg hserved, hget]
    cases hexp : isExpired (absoluteExpiryFromTTL args.ttl clock.now) t <;> simp [written, hexp]
  simp only [hanswer]
  exact ⟨live_until_end_iff hpos, fun ttl' hle =>
    expires_no_earlier_iff hpos (Int64.lt_of_lt_of_le hpos hle)⟩

def sampleTTL (ttl : Int64) : PutArgs := ⟨"k", "v", 0, ttl⟩

-- the second time to live wraps to a negative end, with which the entry never expires
theorem ttl_honoured_sample :
    let put := fun ttl => (newKVServer 0 ∅).doPut (fun _ => 0) .offline ⟨7, 7⟩ (sampleTTL ttl)
    ∀ ttl ∈ ([1, 9223372037] : List Int64), (put ttl).2.err = .ok ∧
      ((put ttl).1.doGet (fun _ => 0) 1000000006 "k").value = "v" := by
  intro put ttl httl
  have hcases : ttl = 1 ∨ ttl = 9223372037 := by simpa using httl
  have hok : (put ttl).2.err = .ok := by
    rcases hcases with rfl | rfl <;> decide +kernel
  have hpos : 0 < ttl := by
    rcases hcases with rfl | rfl <;> decide +kernel
  have hend : (1000000006 : Int64).toInt < ttlEnd ttl 7 ∧
      (ttlEnd ttl 7 ≤ 9223372036854775807 ∨ wrappedEnd ttl 7 ≤ 0) := by
    rcases hcases with rfl | rfl <;> decide +kernel
  have hrun : (put ttl).1.dead = false ∧
      ((put ttl).1.shardOf (fun _ => 0) "k").state ≠ .absent := by
    rcases hcases with rfl | rfl <;> decide +kernel
  exact ⟨hok, ((ttl_honoured (sampleTTL ttl) hpos hok rfl hrun.1 hrun.2).1.mpr hend.2
    1000000006 (by decide +kernel) hend.1).2⟩

theorem ttl_wraps_around :
    let kv := ((newKVServer 0 ∅).doPut (fun _ => 0) .offline ⟨0, 0⟩ (sampleTTL 18446744074)).1
    (kv.doGet (fun _ => 0) 999999999 "k").err = .noKey ∧
      (999999999 : Int64).toInt < ttlEnd 18446744074 0 ∧
      isExpired (absoluteExpiryFromTTL 18446744074 0) 999999999 = true ∧
      isExpired (absoluteExpiryFromTTL 1 0) 999999999 = false := by
  decide +kernel

end KVServer

end OrbisKV.KV
