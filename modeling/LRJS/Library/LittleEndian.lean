import Mathlib.Tactic.Ring

/-!
# Little-endian numbers

Numbers of a fixed width, least significant byte first.  Writing and reading
back gives the number modulo the range of the width; reading and writing back
gives the bytes.
-/

namespace LittleEndian

/-- The lowest `width` bytes of a number. -/
def put : Nat → Nat → List UInt8
  | 0, _ => []
  | width + 1, value => UInt8.ofNat value :: put width (value / 256)

def get : List UInt8 → Nat
  | [] => 0
  | byte :: bytes => byte.toNat + 256 * get bytes

variable (width value : Nat)

@[simp]
theorem length_put : (put width value).length = width := by
  induction width generalizing value with
  | zero => rfl
  | succ width ih =>
    simp [put, ih]

theorem get_lt (bytes : List UInt8) : get bytes < 256 ^ bytes.length := by
  induction bytes with
  | nil => exact Nat.one_pos
  | cons byte bytes ih =>
    have small : byte.toNat < 256 := byte.toNat_lt
    rw [get, List.length_cons, pow_succ]
    omega

theorem get_put : get (put width value) = value % 256 ^ width := by
  induction width generalizing value with
  | zero => rw [pow_zero, Nat.mod_one, put, get]
  | succ width ih =>
    have low : (UInt8.ofNat value).toNat = value % 256 := UInt8.toNat_ofNat'
    rw [put, get, ih, low, pow_succ', Nat.mod_mul]

theorem get_put_of_lt {width value : Nat} (fits : value < 256 ^ width) :
    get (put width value) = value := by
  rw [get_put, Nat.mod_eq_of_lt fits]

theorem put_add (low high value : Nat) :
    put (low + high) value = put low value ++ put high (value / 256 ^ low) := by
  induction low generalizing value with
  | zero => rw [Nat.zero_add, pow_zero, Nat.div_one, put, List.nil_append]
  | succ low ih =>
    rw [Nat.add_right_comm, put, put, ih, Nat.div_div_eq_div_mul, pow_succ',
      List.cons_append]

/-- Writing cuts a number to the width. -/
theorem put_mod : put width (value % 256 ^ width) = put width value := by
  induction width generalizing value with
  | zero => rfl
  | succ width ih =>
    have low : UInt8.ofNat (value % 256 ^ (width + 1)) = UInt8.ofNat value := by
      apply UInt8.toNat_inj.mp
      rw [UInt8.toNat_ofNat', UInt8.toNat_ofNat', pow_succ', Nat.mod_mul_right_mod]
    have high : value % 256 ^ (width + 1) / 256 = value / 256 % 256 ^ width := by
      rw [pow_succ', Nat.mod_mul_right_div_self]
    rw [put, put, low, high, ih]

/-- The bytes of a number that is read are the bytes it was read from. -/
theorem put_get (bytes : List UInt8) : put bytes.length (get bytes) = bytes := by
  induction bytes with
  | nil => rfl
  | cons byte bytes ih =>
    have small : byte.toNat < 256 := byte.toNat_lt
    have low : UInt8.ofNat (byte.toNat + 256 * get bytes) = byte := by
      apply UInt8.toNat_inj.mp
      rw [UInt8.toNat_ofNat', Nat.add_mul_mod_self_left, Nat.mod_eq_of_lt small]
    have high : (byte.toNat + 256 * get bytes) / 256 = get bytes := by
      omega
    rw [List.length_cons, get, put, low, high, ih]

end LittleEndian
