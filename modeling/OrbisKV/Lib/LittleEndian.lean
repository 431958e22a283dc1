import Mathlib.Algebra.Ring.Nat
import Mathlib.Data.List.Basic
/-!
# Fixed-width numbers in byte lists

Numbers as bytes, least significant byte first, and the parts of a byte list that
is put together from fields of known lengths.
-/

namespace OrbisKV.Lib.LittleEndian

open List

variable {bs : List UInt8} {i j : Nat}

/-- The `width` low bytes of `n`. -/
def put : Nat → Nat → List UInt8
  | 0, _ => []
  | width + 1, n => UInt8.ofNat (n % 256) :: put width (n / 256)

def get : List UInt8 → Nat
  | [] => 0
  | b :: bs => b.toNat + 256 * get bs

@[simp] theorem length_put (width n : Nat) : (put width n).length = width := by
  induction width generalizing n with
  | zero => rfl
  | succ width ih => simp [put, ih]

theorem get_put (width n : Nat) : get (put width n) = n % 256 ^ width := by
  induction width generalizing n with
  | zero => simp [put, get, Nat.mod_one]
  | succ width ih =>
    have hbyte : (UInt8.ofNat (n % 256)).toNat = n % 256 := by simp
    rw [put, get, ih, hbyte, pow_succ', Nat.mod_mul]

theorem get_put_of_lt {width n : Nat} (h : n < 256 ^ width) : get (put width n) = n := by
  rw [get_put, Nat.mod_eq_of_lt h]

theorem get_lt (bs : List UInt8) : get bs < 256 ^ bs.length := by
  induction bs with
  | nil => simp [get]
  | cons b bs ih =>
    have hb : b.toNat < 256 := b.toNat_lt
    rw [get, length_cons, pow_succ]
    omega

theorem put_get (bs : List UInt8) : put bs.length (get bs) = bs := by
  induction bs with
  | nil => rfl
  | cons b bs ih =>
    have hb : b.toNat < 256 := b.toNat_lt
    have hlow : (b.toNat + 256 * get bs) % 256 = b.toNat := by omega
    have hhigh : (b.toNat + 256 * get bs) / 256 = get bs := by omega
    rw [length_cons, put, get, hlow, hhigh, ih, UInt8.ofNat_toNat]

def putUInt32 (v : UInt32) : List UInt8 := put 4 v.toNat

def getUInt32 (bs : List UInt8) : UInt32 := UInt32.ofNat (get bs)

def putUInt64 (v : UInt64) : List UInt8 := put 8 v.toNat

def getUInt64 (bs : List UInt8) : UInt64 := UInt64.ofNat (get bs)

@[simp] theorem length_putUInt32 (v : UInt32) : (putUInt32 v).length = 4 := length_put 4 _

@[simp] theorem length_putUInt64 (v : UInt64) : (putUInt64 v).length = 8 := length_put 8 _

@[simp] theorem getUInt32_putUInt32 (v : UInt32) : getUInt32 (putUInt32 v) = v := by
  have hv : v.toNat < 256 ^ 4 := v.toNat_lt
  rw [getUInt32, putUInt32, get_put_of_lt hv, UInt32.ofNat_toNat]

@[simp] theorem getUInt64_putUInt64 (v : UInt64) : getUInt64 (putUInt64 v) = v := by
  have hv : v.toNat < 256 ^ 8 := v.toNat_lt
  rw [getUInt64, putUInt64, get_put_of_lt hv, UInt64.ofNat_toNat]

theorem putUInt32_getUInt32 (h : bs.length = 4) : putUInt32 (getUInt32 bs) = bs := by
  have hlt : get bs < 2 ^ 32 := by
    have hget := get_lt bs
    rw [h] at hget
    exact hget
  rw [getUInt32, putUInt32, UInt32.toNat_ofNat_of_lt' hlt]
  calc
    put 4 (get bs) = put bs.length (get bs) := by rw [h]
    _ = bs := put_get bs

theorem putUInt64_getUInt64 (h : bs.length = 8) : putUInt64 (getUInt64 bs) = bs := by
  have hlt : get bs < 2 ^ 64 := by
    have hget := get_lt bs
    rw [h] at hget
    exact hget
  rw [getUInt64, putUInt64, UInt64.toNat_ofNat_of_lt' hlt]
  calc
    put 8 (get bs) = put bs.length (get bs) := by rw [h]
    _ = bs := put_get bs

/-- `bs[i:j]`. -/
def slice (bs : List UInt8) (i j : Nat) : List UInt8 := (bs.drop i).take (j - i)

theorem length_slice (hij : i ≤ j) (h : j ≤ bs.length) : (slice bs i j).length = j - i := by
  rw [slice, length_take, length_drop]
  omega

theorem slice_field {a b c : List UInt8} (hi : i = a.length) (hj : j = a.length + b.length) :
    slice (a ++ b ++ c) i j = b := by
  subst hi hj
  rw [slice, append_assoc, drop_left, Nat.add_sub_cancel_left, take_left]

theorem slice_of_append {a b c : List UInt8} (h : bs = a ++ (b ++ c)) (hi : i = a.length)
    (hj : j = i + b.length) : slice bs i j = b := by
  rw [h, ← append_assoc]
  exact slice_field hi (by omega)

theorem slice_append_slice {k : Nat} (hij : i ≤ j) (hjk : j ≤ k) :
    slice bs i j ++ slice bs j k = slice bs i k := by
  have hdrop : bs.drop j = (bs.drop i).drop (j - i) := by
    rw [drop_drop]
    congr 1
    omega
  have hsum : k - i = (j - i) + (k - j) := by omega
  rw [slice, slice, slice, hdrop, hsum, take_add]

theorem slice_take {k : Nat} (h : j ≤ k) : slice (bs.take k) i j = slice bs i j := by
  have hmin : min (j - i) (k - i) = j - i := by omega
  rw [slice, slice, drop_take, take_take, hmin]

end OrbisKV.Lib.LittleEndian
