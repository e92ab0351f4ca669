import LRJS.OperatorAgreement
import Mathlib.Tactic.Linarith

/-!
# BigInt arithmetic

The branch of `bcv_binop` for two BigInts, and `BC_NEG`, against the integers.
-/

namespace LRJS.BigInts

inductive BigIntOp where
  | add
  | sub
  | mul
  | div
  | mod
  | pow
  | shl
  | sar
  | bitAnd
  | bitOr
  | bitXor
deriving DecidableEq

def BigIntOp.binOp : BigIntOp → BinOp
  | .add => .add
  | .sub => .sub
  | .mul => .mul
  | .div => .div
  | .mod => .mod
  | .pow => .pow
  | .shl => .shl
  | .sar => .sar
  | .bitAnd => .bitAnd
  | .bitOr => .bitOr
  | .bitXor => .bitXor

def InInt64 (n : Int) : Prop :=
  -2 ^ 63 ≤ n ∧ n < 2 ^ 63

/-- `x << y`: a negative distance shifts to the right. -/
def shifted (x y : Int) : Int :=
  if 0 ≤ y then x * 2 ^ y.toNat else x / 2 ^ (-y).toNat

/-- `n` is the result; division by zero and negative exponents have none.  The bits are those of
the two's complement of any width. -/
def Denotes (x y n : Int) : BigIntOp → Prop
  | .add => n = x + y
  | .sub => n = x - y
  | .mul => n = x * y
  | .div => y ≠ 0 ∧ n = x.tdiv y
  | .mod => y ≠ 0 ∧ n = x.tmod y
  | .pow => 0 ≤ y ∧ n = x ^ y.toNat
  | .shl => n = shifted x y
  | .sar => n = shifted x (-y)
  | .bitAnd => ∀ w, BitVec.ofInt w n = BitVec.ofInt w x &&& BitVec.ofInt w y
  | .bitOr => ∀ w, BitVec.ofInt w n = BitVec.ofInt w x ||| BitVec.ofInt w y
  | .bitXor => ∀ w, BitVec.ofInt w n = BitVec.ofInt w x ^^^ BitVec.ofInt w y

/-- The result where it fits, and an exception otherwise. -/
def ExactOrError (s : EngineState) (result : Option (Computed × EngineState))
    (denotes : Int → Prop) : Prop :=
  (∃ n, denotes n ∧ InInt64 n ∧ result = some (.bigint n, s)) ∨
    (∀ n, denotes n → ¬ InInt64 n) ∧ ∃ v after, result = some (v, after) ∧ after.error ≠ none

def opcodeNeg (s : EngineState) (v : LRValue) : Option (Computed × EngineState) :=
  s.give (.bcv_number (lr_to_float64 v).neg)

def bcv_bigint (s : EngineState) (x y : Int) (op : BigIntOp) : Option (Computed × EngineState) :=
  (binopBigint s op.binOp x y).getD none

def low (y : Int) : Nat :=
  (y % 64).toNat

def FitsLeft (x y : Int) : Prop :=
  if 0 ≤ y then InInt64 (x * 2 ^ y.toNat)
  else (64 ∣ y ∧ x = -1) ∨ (0 ≤ x ∧ x < 2 ^ (-y).toNat ∧ 2 ^ (64 - low y) ∣ x)

def FitsRight (x y : Int) : Prop :=
  if 0 ≤ y then y < 64 ∨ (-2 ^ low y ≤ x ∧ x < 2 ^ low y) else x = 0

/-- When the result is right. -/
def Fits (x y : Int) : BigIntOp → Prop
  | .add => InInt64 (x + y)
  | .sub => InInt64 (x - y)
  | .mul => InInt64 (x * y)
  | .div | .mod => ¬ (x = -2 ^ 63 ∧ y = -1)
  | .pow => 0 ≤ y ∧ InInt64 (x ^ y.toNat)
  | .shl => FitsLeft x y
  | .sar => FitsRight x y
  | .bitAnd | .bitOr | .bitXor => True

variable {s : EngineState} {x y n : Int}

theorem castInt64_of_inInt64 (range : InInt64 n) : castInt64 n = n := by
  unfold InInt64 at range
  rw [castInt64, BitVec.toInt_ofInt, Int.bmod_eq_of_le (by omega) (by omega)]

theorem inInt64_castInt64 (n : Int) : InInt64 (castInt64 n) := by
  have lower := BitVec.le_toInt (BitVec.ofInt 64 n)
  have upper := BitVec.toInt_lt (x := BitVec.ofInt 64 n)
  exact ⟨lower, upper⟩

theorem exactOrError_give {denotes : Int → Prop} {m : Int}
    (only : ∀ n, denotes n → n = m) (meant : denotes m) (calm : s.error = none) (n : Int) :
    ExactOrError s (s.giveBigint n) denotes ↔ castInt64 n = m := by
  constructor
  · rintro (⟨k, right, range, same⟩ | ⟨_, v, after, same, failed⟩)
    · cases same
      exact (only _ right)
    · cases same
      exact absurd calm failed
  · rintro rfl
    exact .inl ⟨_, meant, inInt64_castInt64 n, rfl⟩

theorem castInt64_eq_iff : castInt64 n = n ↔ InInt64 n :=
  ⟨fun same => same ▸ inInt64_castInt64 n, castInt64_of_inInt64⟩

/-- A division is exact or an error except for the quotient that overflows. -/
theorem exactOrError_divide {divide : Int → Int → Int} {denotes : Int → Prop}
    (means : ∀ n, denotes n ↔ y ≠ 0 ∧ n = divide x y) (calm : s.error = none)
    (bounded : y ≠ 0 → ¬ (x = -2 ^ 63 ∧ y = -1) → InInt64 (divide x y)) :
    ExactOrError s (bigintDivide s divide x y) denotes ↔ ¬ (x = -2 ^ 63 ∧ y = -1) := by
  unfold bigintDivide
  split
  · next zero =>
      refine iff_of_true (.inr ⟨fun n right => absurd zero ((means n).mp right).1, ?_⟩) (by omega)
      exact ⟨_, _, rfl, by simp [EngineState.fail]⟩
  · next nonzero =>
      split
      · next trap =>
          refine iff_of_false ?_ (not_not_intro trap)
          rintro (⟨_, _, _, same⟩ | ⟨_, _, _, same, _⟩) <;> cases same
      · next fits =>
          refine iff_of_true ?_ fits
          rw [exactOrError_give (fun n right => ((means n).mp right).2)
            ((means _).mpr ⟨nonzero, rfl⟩) calm]
          exact castInt64_of_inInt64 (bounded nonzero fits)

theorem toInt_shiftLeft (x : Int) (k : Nat) :
    (BitVec.ofInt 64 x <<< k).toInt = castInt64 (x * 2 ^ k) := by
  have power : BitVec.twoPow 64 k = BitVec.ofInt 64 (2 ^ k) := by
    apply BitVec.eq_of_toNat_eq
    rw [BitVec.toNat_twoPow, BitVec.toNat_ofInt]
    norm_cast
  rw [← BitVec.mul_twoPow_eq_shiftLeft, power, ← BitVec.ofInt_mul, castInt64]

theorem toInt_sshiftRight (range : InInt64 x) (k : Nat) :
    ((BitVec.ofInt 64 x).sshiftRight k).toInt = x / 2 ^ k := by
  have same : (BitVec.ofInt 64 x).toInt = x := castInt64_of_inInt64 range
  rw [BitVec.toInt_sshiftRight, same, Int.shiftRight_eq_div_pow]
  norm_cast

theorem toNat_distance (y : Int) : (BitVec.ofInt 64 y).toNat % 64 = low y := by
  rw [BitVec.toNat_ofInt, low]
  omega

theorem ediv_eq_zero_iff_of_pos {b : Int} (positive : 0 < b) : x / b = 0 ↔ 0 ≤ x ∧ x < b := by
  constructor
  · intro zero
    have below := Int.lt_mul_ediv_self_add positive (x := x)
    have above := Int.mul_ediv_self_le (x := x) positive.ne'
    rw [zero, Int.mul_zero] at below above
    omega
  · exact fun bounds => Int.ediv_eq_zero_of_lt bounds.1 bounds.2

theorem ediv_eq_neg_one_iff {b : Int} (positive : 0 < b) : x / b = -1 ↔ -b ≤ x ∧ x < 0 := by
  have next := Int.add_mul_ediv_right x 1 positive.ne'
  have zero := ediv_eq_zero_iff_of_pos (x := x + 1 * b) positive
  omega

theorem ediv_far {k : Nat} (range : InInt64 x) (far : 63 ≤ k) :
    x / 2 ^ k = if x < 0 then -1 else 0 := by
  have power : (2 : Int) ^ 63 ≤ 2 ^ k := pow_le_pow_right₀ (by decide) far
  unfold InInt64 at range
  split
  · exact (ediv_eq_neg_one_iff (by omega)).mpr (by omega)
  · exact (ediv_eq_zero_iff_of_pos (by omega)).mpr (by omega)

/-- The machine's shift to the right is the exact one exactly on its condition. -/
theorem sar_iff (range : InInt64 x) : x / 2 ^ low y = shifted x (-y) ↔ FitsRight x y := by
  have power : (0 : Int) < 2 ^ low y := by positivity
  unfold shifted FitsRight
  rcases lt_trichotomy y 0 with back | rfl | ahead
  · rw [if_pos (by omega), if_neg (by omega)]
    have more : (2 : Int) ≤ 2 ^ (-y).toNat := by
      simpa using pow_le_pow_right₀ (by decide : (1 : Int) ≤ 2) (by omega : 1 ≤ (-y).toNat)
    constructor
    · intro same
      by_contra nonzero
      rcases Int.lt_or_gt_of_ne nonzero with negative | positive
      · have below : x * 2 ^ (-y).toNat ≤ x * 2 := by nlinarith
        have above : x ≤ x / 2 ^ low y := by
          rw [Int.le_ediv_iff_mul_le power]
          nlinarith
        omega
      · have above : x * 2 ≤ x * 2 ^ (-y).toNat := by nlinarith
        have below : x / 2 ^ low y ≤ x := Int.ediv_le_self _ positive.le
        omega
    · rintro rfl
      simp
  · simp [low]
  · rw [if_neg (by omega), if_pos (by omega), Int.neg_neg]
    by_cases near : y < 64
    · have same : low y = y.toNat := by
        unfold low
        omega
      simp [near, same]
    · rw [ediv_far range (by omega : 63 ≤ y.toNat), or_iff_right near]
      split
      · rw [ediv_eq_neg_one_iff power]
        omega
      · rw [ediv_eq_zero_iff_of_pos power]
        omega

theorem castInt64_add_mul (n c : Int) : castInt64 (n + 2 ^ 64 * c) = castInt64 n := by
  rw [castInt64, castInt64, BitVec.toInt_ofInt, BitVec.toInt_ofInt]
  exact Int.add_mul_bmod_self_left ..

theorem exists_castInt64 (n : Int) : ∃ c, n = castInt64 n + 2 ^ 64 * c := by
  rw [castInt64, BitVec.toInt_ofInt]
  exact ⟨_, (Int.bmod_add_bdiv n (2 ^ 64)).symm⟩

/-- A negative distance: the low bits of what is shifted out on the left are zero. -/
theorem shl_back_iff (range : InInt64 x) {j k : Nat} (small : k < 64) (aligned : 64 ∣ j + k)
    (positive : 0 < j) :
    castInt64 (x * 2 ^ k) = x / 2 ^ j ↔
      (k = 0 ∧ x = -1) ∨ (0 ≤ x ∧ x < 2 ^ j ∧ 2 ^ (64 - k) ∣ x) := by
  have power : (0 : Int) < 2 ^ j := by positivity
  have whole : (2 : Int) ^ 64 = 2 ^ (64 - k) * 2 ^ k := by
    rw [← pow_add, Nat.sub_add_cancel small.le]
  constructor
  · intro same
    obtain ⟨c, parts⟩ := exists_castInt64 (x * 2 ^ k)
    rw [same] at parts
    rcases Nat.eq_zero_or_pos k with rfl | inner
    · rw [pow_zero, Int.mul_one, castInt64_of_inInt64 range, ediv_far range (by omega)] at same
      split at same
      · exact .inl ⟨rfl, same⟩
      · rw [same]
        exact .inr ⟨le_rfl, power, dvd_zero _⟩
    · have factor : x / 2 ^ j = (x - 2 ^ (64 - k) * c) * 2 ^ k := by
        rw [whole] at parts
        linarith
      have wide : (2 : Int) ^ 64 ≤ 2 ^ k * 2 ^ j := by
        rw [← pow_add]
        exact pow_le_pow_right₀ (by decide) (by omega)
      have even : (2 : Int) ≤ 2 ^ k := by
        simpa using pow_le_pow_right₀ (by decide : (1 : Int) ≤ 2) inner
      have below := Int.lt_mul_ediv_self_add power (x := x)
      have above := Int.mul_ediv_self_le (x := x) power.ne'
      have zero : x - 2 ^ (64 - k) * c = 0 := by
        generalize x - 2 ^ (64 - k) * c = q at factor
        rw [factor] at below above
        unfold InInt64 at range
        by_contra nonzero
        rcases Int.lt_or_gt_of_ne nonzero with negative | ahead
        · nlinarith
        · nlinarith
      rw [zero, Int.zero_mul] at factor
      have bounds := (ediv_eq_zero_iff_of_pos power).mp factor
      exact .inr ⟨bounds.1, bounds.2, c, by omega⟩
  · rintro (⟨rfl, rfl⟩ | ⟨nonneg, inside, c, rfl⟩)
    · rw [(ediv_eq_neg_one_iff power).mpr (by omega)]
      decide
    · have shift : 2 ^ (64 - k) * c * 2 ^ k = 0 + 2 ^ 64 * c := by
        rw [whole]
        ring
      rw [shift, castInt64_add_mul, (ediv_eq_zero_iff_of_pos power).mpr ⟨nonneg, inside⟩]
      decide

/-- The machine's shift to the left is the exact one exactly on its condition. -/
theorem shl_iff (range : InInt64 x) : castInt64 (x * 2 ^ low y) = shifted x y ↔ FitsLeft x y := by
  unfold shifted FitsLeft
  split
  · next ahead =>
      by_cases near : y < 64
      · have same : low y = y.toNat := by
          unfold low
          omega
        rw [same, castInt64_eq_iff]
      · refine ⟨fun same => same ▸ inInt64_castInt64 _, fun fits => ?_⟩
        have power : (2 : Int) ^ 64 ≤ 2 ^ y.toNat := pow_le_pow_right₀ (by decide) (by omega)
        have zero : x = 0 := by
          by_contra nonzero
          unfold InInt64 at fits
          rcases Int.lt_or_gt_of_ne nonzero with negative | positive <;> nlinarith
        rw [zero, Int.zero_mul, Int.zero_mul]
        decide
  · next back =>
      have zero : 64 ∣ y ↔ low y = 0 := by
        unfold low
        omega
      rw [zero]
      exact shl_back_iff range (by unfold low; omega) (by unfold low; omega) (by omega)

theorem castInt64_toInt (b : BitVec 64) : castInt64 b.toInt = b.toInt :=
  congrArg BitVec.toInt BitVec.ofInt_toInt

/-- A bitwise operator on 64 bits is the one on more bits, or on fewer. -/
theorem exactOrError_bits {f : {w : Nat} → BitVec w → BitVec w → BitVec w}
    (wide : ∀ w (a b : BitVec 64), (f a b).signExtend w = f (a.signExtend w) (b.signExtend w))
    (rangeX : InInt64 x) (rangeY : InInt64 y) :
    ExactOrError s (s.giveBigint (f (BitVec.ofInt 64 x) (BitVec.ofInt 64 y)).toInt)
      fun n => ∀ w, BitVec.ofInt w n = f (BitVec.ofInt w x) (BitVec.ofInt w y) := by
  refine .inl ⟨_, fun w => ?_, inInt64_castInt64 _, rfl⟩
  have widened {n : Int} (range : InInt64 n) :
      (BitVec.ofInt 64 n).signExtend w = BitVec.ofInt w n :=
    congrArg (BitVec.ofInt w) (castInt64_of_inInt64 range)
  rw [castInt64_toInt, ← widened rangeX, ← widened rangeY, ← wide]
  rfl

theorem tdiv_inInt64 (range : InInt64 x) (nonzero : y ≠ 0) (fits : ¬ (x = -2 ^ 63 ∧ y = -1)) :
    InInt64 (x.tdiv y) := by
  unfold InInt64 at *
  rcases eq_or_ne y 1 with rfl | one
  · rw [Int.tdiv_one]
    exact range
  rcases eq_or_ne y (-1) with rfl | negative
  · rw [Int.tdiv_neg, Int.tdiv_one]
    omega
  have size : (x.tdiv y).natAbs ≤ x.natAbs / 2 := by
    rw [Int.natAbs_tdiv]
    exact Nat.div_le_div_left (by omega) (by decide)
  omega

theorem tmod_inInt64 (range : InInt64 y) (nonzero : y ≠ 0) : InInt64 (x.tmod y) := by
  have size := Int.natAbs_tmod x y
  have below : x.natAbs % y.natAbs < y.natAbs := Nat.mod_lt _ (by omega)
  unfold InInt64 at *
  omega

/-- On two BigInts an operator is exact or an error exactly on its condition. -/
theorem bcv_bigint_exact_iff (calm : s.error = none) (rangeX : InInt64 x) (rangeY : InInt64 y)
    (op : BigIntOp) :
    ExactOrError s (bcv_bigint s x y op) (Denotes x y · op) ↔ Fits x y op := by
  cases op with
  | add | sub | mul =>
    exact (exactOrError_give (fun _ => id) rfl calm _).trans castInt64_eq_iff
  | div =>
    exact exactOrError_divide (fun _ => Iff.rfl) calm (tdiv_inInt64 rangeX)
  | mod =>
    exact exactOrError_divide (fun _ => Iff.rfl) calm fun nonzero _ => tmod_inInt64 rangeY nonzero
  | pow =>
    by_cases ahead : 0 ≤ y
    · refine (exactOrError_give (fun _ right => right.2) ⟨ahead, rfl⟩ calm _).trans ?_
      exact castInt64_eq_iff.trans (and_iff_right ahead).symm
    · refine iff_of_false ?_ fun fits => ahead fits.1
      rintro (⟨_, right, _⟩ | ⟨_, _, _, same, failed⟩)
      · exact ahead right.1
      · cases same
        exact failed calm
  | shl =>
    change ExactOrError s (s.giveBigint
      (BitVec.ofInt 64 x <<< ((BitVec.ofInt 64 y).toNat % 64)).toInt) (· = shifted x y) ↔
        FitsLeft x y
    rw [exactOrError_give (fun _ => id) rfl calm, castInt64_toInt, toNat_distance, toInt_shiftLeft]
    exact shl_iff rangeX
  | sar =>
    change ExactOrError s (s.giveBigint
      ((BitVec.ofInt 64 x).sshiftRight ((BitVec.ofInt 64 y).toNat % 64)).toInt)
        (· = shifted x (-y)) ↔ FitsRight x y
    rw [exactOrError_give (fun _ => id) rfl calm, castInt64_toInt, toNat_distance,
      toInt_sshiftRight rangeX]
    exact sar_iff rangeX
  | bitAnd =>
    exact iff_of_true (exactOrError_bits (f := fun a b => a &&& b)
      (fun _ _ _ => BitVec.signExtend_and) rangeX rangeY) trivial
  | bitOr =>
    exact iff_of_true (exactOrError_bits (f := fun a b => a ||| b)
      (fun _ _ _ => BitVec.signExtend_or) rangeX rangeY) trivial
  | bitXor =>
    exact iff_of_true (exactOrError_bits (f := fun a b => a ^^^ b)
      (fun _ _ _ => BitVec.signExtend_xor) rangeX rangeY) trivial

/-- Negation gives a number. -/
theorem bigint_exact_iff (calm : s.error = none) (rangeX : InInt64 x) (rangeY : InInt64 y) :
    (∀ op, ExactOrError s (bcv_bigint s x y op) (Denotes x y · op) ↔ Fits x y op) ∧
      ∀ v, ¬ ExactOrError s (opcodeNeg s v) (· = -x) := by
  refine ⟨bcv_bigint_exact_iff calm rangeX rangeY, fun v => ?_⟩
  rintro (⟨n, _, _, same⟩ | ⟨_, result, after, same, failed⟩)
  · cases same
  · cases same
    exact failed calm

theorem bigint_exact_sum :
    (∀ op, ExactOrError .fresh (bcv_bigint .fresh 2 3 op) (Denotes 2 3 · op) ↔ Fits 2 3 op) ∧
      ∀ v, ¬ ExactOrError .fresh (opcodeNeg .fresh v) (· = -2) :=
  bigint_exact_iff rfl (by unfold InInt64; decide) (by unfold InInt64; decide)

/-- `9223372036854775807n + 1n` wraps. -/
theorem bigint_sum_wraps :
    bcv_bigint .fresh (2 ^ 63 - 1) 1 .add = some (.bigint (-2 ^ 63), .fresh) ∧
      ¬ ExactOrError .fresh (bcv_bigint .fresh (2 ^ 63 - 1) 1 .add)
        (Denotes (2 ^ 63 - 1) 1 · .add) := by
  have wraps : bcv_bigint .fresh (2 ^ 63 - 1) 1 .add = some (.bigint (-2 ^ 63), .fresh) := by
    rfl
  refine ⟨wraps, ?_⟩
  rw [wraps]
  rintro (⟨n, sum, _, same⟩ | ⟨_, result, after, same, failed⟩)
  · cases same
    exact absurd sum (by unfold Denotes; decide)
  · cases same
    exact failed rfl

end LRJS.BigInts
