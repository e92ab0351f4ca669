import LRJS.Library.Binary64
import LRJS.Properties

/-!
# Doubles

The arithmetic of C `double`s: IEEE 754 with rounding to nearest, ties to even.
A finite double is a signed number of units of `2 ^ -1074`.  Up to `2 ^ 53` the
integers are doubles, and their sums, products and remainders are the integers'.
-/

namespace LRJS

open Binary64

namespace Double

def magnitude (d : Double) : Nat :=
  d.bits.toNat % 2 ^ 63

def make (negative : Bool) (magnitude : Nat) : Double :=
  ⟨BitVec.ofNat 64 (if negative then 2 ^ 63 + magnitude else magnitude)⟩

/-- `isinf(d)`. -/
def isInf (d : Double) : Bool :=
  d.magnitude = Binary64.infinity

def units (d : Double) : Nat :=
  Binary64.units d.magnitude

def signedUnits (d : Double) : Int :=
  if d.negative then -(d.units : Int) else d.units

def nan : Double :=
  make false (Binary64.infinity + 2 ^ 51)

/-- `-0.0`. -/
def negZero : Double :=
  make true 0

@[irreducible] def onePlace : Nat :=
  1074

def one : Nat :=
  2 ^ onePlace

def ofFraction (negative : Bool) (num den : Nat) : Double :=
  make negative (Binary64.round num den)

/-- `(double)n`. -/
def ofInt (n : Int) : Double :=
  ofFraction (n < 0) (n.natAbs * one) 1

/-! ## Operations -/

/-- `-d`. -/
def neg (d : Double) : Double :=
  make (!d.negative) d.magnitude

/-- `x + y`. -/
def add (x y : Double) : Double :=
  if x.isNaN ∨ y.isNaN then
    nan
  else if x.isInf then
    if y.isInf ∧ x.negative ≠ y.negative then nan else x
  else if y.isInf then
    y
  else
    let sum := x.signedUnits + y.signedUnits
    if sum = 0 then
      make (x.negative && y.negative) 0
    else
      ofFraction (sum < 0) sum.natAbs 1

/-- `x - y`. -/
def sub (x y : Double) : Double :=
  add x y.neg

/-- `x * y`. -/
def mul (x y : Double) : Double :=
  let negative := x.negative ^^ y.negative
  if x.isNaN ∨ y.isNaN then
    nan
  else if x.isInf ∨ y.isInf then
    if x.units = 0 ∨ y.units = 0 then nan else make negative Binary64.infinity
  else
    ofFraction negative (x.units * y.units) one

/-- `x / y`. -/
def div (x y : Double) : Double :=
  let negative := x.negative ^^ y.negative
  if x.isNaN ∨ y.isNaN then
    nan
  else if x.isInf then
    if y.isInf then nan else make negative Binary64.infinity
  else if y.isInf then
    make negative 0
  else if y.units = 0 then
    if x.units = 0 then nan else make negative Binary64.infinity
  else
    ofFraction negative (x.units * one) y.units

/-- `fmod(x, y)`. -/
def fmod (x y : Double) : Double :=
  if x.isNaN ∨ y.isNaN ∨ x.isInf ∨ y.units = 0 then
    nan
  else if y.isInf then
    x
  else
    ofFraction x.negative (x.units % y.units) 1

/-- `x < y`. -/
def lt (x y : Double) : Bool :=
  !x.isNaN && !y.isNaN && x.signedUnits < y.signedUnits

/-- `x <= y`. -/
def le (x y : Double) : Bool :=
  !x.isNaN && !y.isNaN && x.signedUnits ≤ y.signedUnits

def Same (x y : Double) : Prop :=
  x = y ∨ (x.isNaN ∧ y.isNaN)

instance (x y : Double) : Decidable (x.Same y) :=
  inferInstanceAs (Decidable (_ ∨ _))

/-! ## Parts of made doubles -/

section Parts

variable {negative : Bool} {magnitude : Nat} {d : Double}

theorem magnitude_lt (d : Double) : d.magnitude < 2 ^ 63 :=
  Nat.mod_lt _ (by decide)

theorem toNat_make (bound : magnitude < 2 ^ 63) :
    (make negative magnitude).bits.toNat = if negative then 2 ^ 63 + magnitude else magnitude := by
  rw [make, BitVec.toNat_ofNat]
  split <;> omega

@[simp] theorem negative_make (bound : magnitude < 2 ^ 63) :
    (make negative magnitude).negative = negative := by
  rw [Double.negative, BitVec.msb_eq_decide, toNat_make bound]
  cases negative
  · exact decide_eq_false (by simp; omega)
  · exact decide_eq_true (by simp)

@[simp] theorem magnitude_make (bound : magnitude < 2 ^ 63) :
    (make negative magnitude).magnitude = magnitude := by
  rw [Double.magnitude, toNat_make bound]
  split <;> omega

theorem make_parts (d : Double) : make d.negative d.magnitude = d := by
  have bits : (make d.negative d.magnitude).bits.toNat = d.bits.toNat := by
    rw [toNat_make d.magnitude_lt, Double.negative, Double.magnitude, BitVec.msb_eq_decide]
    by_cases high : 2 ^ (64 - 1) ≤ d.bits.toNat
    · rw [if_pos (decide_eq_true high)]
      omega
    · rw [if_neg (by simpa using high)]
      omega
  cases d
  exact congrArg Double.mk (BitVec.eq_of_toNat_eq bits)

theorem ext_parts {x y : Double} (sign : x.negative = y.negative)
    (size : x.magnitude = y.magnitude) : x = y := by
  rw [← make_parts x, ← make_parts y, sign, size]

theorem exponent_eq (d : Double) : d.exponent = d.magnitude / 2 ^ 52 := by
  unfold exponent Double.magnitude
  omega

theorem isNaN_eq (d : Double) : d.isNaN = decide (Binary64.infinity < d.magnitude) := by
  have bound := d.magnitude_lt
  have fraction : d.bits.toNat % 2 ^ 52 = d.magnitude % 2 ^ 52 := by
    unfold Double.magnitude
    omega
  rw [isNaN, exponent_eq, fraction, ← Bool.decide_and]
  refine decide_eq_decide.mpr ?_
  unfold infinity
  constructor
  · rintro ⟨exponent, nonzero⟩
    omega
  · intro larger
    omega

theorem units_eq (d : Double) : d.units = d.significand * 2 ^ (max d.exponent 1 - 1) := by
  have fraction : d.bits.toNat % 2 ^ 52 = d.magnitude % 2 ^ 52 := by
    unfold Double.magnitude
    omega
  rw [units, Binary64.units, significand, fraction, exponent_eq]
  by_cases small : d.magnitude < 2 ^ 52
  · have exponent : d.magnitude / 2 ^ 52 = 0 := by omega
    rw [if_pos small, if_pos exponent, exponent]
    rw [Nat.max_eq_right (Nat.zero_le 1), Nat.sub_self, Nat.pow_zero, Nat.mul_one]
    exact (Nat.mod_eq_of_lt small).symm
  · have exponent : d.magnitude / 2 ^ 52 ≠ 0 := by omega
    rw [if_neg small, if_neg exponent, Nat.max_eq_left (by omega)]

@[simp] theorem negative_neg : d.neg.negative = !d.negative :=
  negative_make d.magnitude_lt

@[simp] theorem magnitude_neg : d.neg.magnitude = d.magnitude :=
  magnitude_make d.magnitude_lt

@[simp] theorem signedUnits_neg : d.neg.signedUnits = -d.signedUnits := by
  rw [signedUnits, signedUnits, negative_neg, units, magnitude_neg]
  cases d.negative <;> simp [units]

@[simp] theorem isNaN_neg : d.neg.isNaN = d.isNaN := by
  rw [isNaN_eq, isNaN_eq, magnitude_neg]

@[simp] theorem isInf_neg : d.neg.isInf = d.isInf := by
  rw [isInf, isInf, magnitude_neg]

end Parts

/-! ## Rounded doubles -/

section Rounded

variable {negative : Bool} {num den : Nat}

theorem round_lt : Binary64.round num den < 2 ^ 63 :=
  Nat.lt_of_le_of_lt (Nat.min_le_right ..) (by decide)

@[simp] theorem negative_ofFraction : (ofFraction negative num den).negative = negative :=
  negative_make round_lt

@[simp] theorem magnitude_ofFraction :
    (ofFraction negative num den).magnitude = Binary64.round num den :=
  magnitude_make round_lt

@[simp] theorem isNaN_ofFraction : (ofFraction negative num den).isNaN = false := by
  have bound : round num den ≤ infinity := Nat.min_le_right ..
  rw [isNaN_eq, magnitude_ofFraction]
  exact decide_eq_false (by omega)

theorem ofFraction_scale {k : Nat} (positive : 0 < k) :
    ofFraction negative (num * k) (den * k) = ofFraction negative num den := by
  rw [ofFraction, round_scale num den positive, ofFraction]

theorem onePlace_eq : onePlace = 1074 := by
  rw [onePlace]

theorem one_pos : 0 < one :=
  Nat.two_pow_pos _

end Rounded

/-! ## Integers -/

section Integers

variable {m n : Int}

def Exact (n : Int) : Prop :=
  n.natAbs ≤ 2 ^ 53

@[simp] theorem negative_ofInt : (ofInt n).negative = decide (n < 0) :=
  negative_ofFraction

@[simp] theorem isNaN_ofInt : (ofInt n).isNaN = false :=
  isNaN_ofFraction

@[simp] theorem units_ofInt (exact_ : Exact n) : (ofInt n).units = n.natAbs * one := by
  rw [units, ofInt, magnitude_ofFraction, one]
  have place := onePlace_eq
  exact units_round_exact exact_ (by omega) (by omega)

@[simp] theorem signedUnits_ofInt (exact_ : Exact n) : (ofInt n).signedUnits = n * one := by
  rw [signedUnits, negative_ofInt, units_ofInt exact_, Int.natCast_mul]
  by_cases below : n < 0
  · rw [if_pos (decide_eq_true below), Int.ofNat_natAbs_of_nonpos below.le]
    rw [Int.neg_mul, Int.neg_neg]
  · rw [if_neg (by simpa using below), Int.natAbs_of_nonneg (by omega)]

theorem finite_ofInt (exact_ : Exact n) : (ofInt n).magnitude < Binary64.infinity := by
  by_contra notFinite
  have infinite : (ofInt n).magnitude = Binary64.infinity := by
    have bound : (ofInt n).magnitude ≤ Binary64.infinity := by
      rw [ofInt, magnitude_ofFraction]
      exact Nat.min_le_right ..
    omega
  have value := units_ofInt exact_
  rw [units, infinite] at value
  have small : n.natAbs * one ≤ 2 ^ 53 * one := Nat.mul_le_mul_right _ exact_
  have large : 2 ^ 53 * one < Binary64.units Binary64.infinity := by decide +kernel
  omega

@[simp] theorem isInf_ofInt (exact_ : Exact n) : (ofInt n).isInf = false := by
  have finite := finite_ofInt exact_
  exact decide_eq_false (by omega)

theorem ofInt_injective (exactM : Exact m) (exactN : Exact n) (same : ofInt m = ofInt n) :
    m = n := by
  have values := congrArg signedUnits same
  rw [signedUnits_ofInt exactM, signedUnits_ofInt exactN] at values
  exact Int.eq_of_mul_eq_mul_right (Int.natCast_ne_zero.mpr one_pos.ne') values

theorem ofFraction_ones : ofFraction (decide (n * (one : Int) < 0)) (n * (one : Int)).natAbs 1 =
    ofInt n := by
  have sign : n * (one : Int) < 0 ↔ n < 0 := by
    rw [Int.mul_neg_iff]
    have positive : 0 < (one : Int) := Int.natCast_pos.mpr one_pos
    omega
  rw [ofInt, Int.natAbs_mul, Int.natAbs_natCast]
  simp only [sign]

theorem ofInt_zero : ofInt 0 = make false 0 := by
  rw [ofInt, Int.natAbs_zero, Nat.zero_mul]
  rfl

section

variable (exactM : Exact m) (exactN : Exact n)
include exactM exactN

/-- A sum of integers is rounded once. -/
theorem add_ofInt : add (ofInt m) (ofInt n) = ofInt (m + n) := by
  have sum : (ofInt m).signedUnits + (ofInt n).signedUnits = (m + n) * one := by
    rw [signedUnits_ofInt exactM, signedUnits_ofInt exactN, Int.add_mul]
  simp only [add, isNaN_ofInt, isInf_ofInt exactM, isInf_ofInt exactN, sum, negative_ofInt,
    Bool.false_eq_true, or_self, if_false]
  split
  · next zero =>
      have cancel : m + n = 0 :=
        (Int.mul_eq_zero.mp zero).resolve_right (Int.natCast_ne_zero.mpr one_pos.ne')
      have notBoth : (decide (m < 0) && decide (n < 0)) = false := by
        rw [← Bool.decide_and]
        exact decide_eq_false (by omega)
      rw [notBoth, cancel, ofInt_zero]
  · exact ofFraction_ones

/-- A difference of integers is rounded once. -/
theorem sub_ofInt : sub (ofInt m) (ofInt n) = ofInt (m - n) := by
  have sum : (ofInt m).signedUnits + (ofInt n).neg.signedUnits = (m - n) * one := by
    rw [signedUnits_neg, signedUnits_ofInt exactM, signedUnits_ofInt exactN, Int.sub_mul]
    rfl
  simp only [sub, add, isNaN_neg, isNaN_ofInt, isInf_neg, isInf_ofInt exactM, isInf_ofInt exactN,
    sum, negative_neg, negative_ofInt, Bool.false_eq_true, or_self, if_false]
  split
  · next zero =>
      have cancel : m - n = 0 :=
        (Int.mul_eq_zero.mp zero).resolve_right (Int.natCast_ne_zero.mpr one_pos.ne')
      have notBoth : (decide (m < 0) && !decide (n < 0)) = false := by
        by_cases below : n < 0
        · simp [below]
        · simp [show ¬ m < 0 by omega]
      rw [notBoth, cancel, ofInt_zero]
  · exact ofFraction_ones

/-- A product of integers is exact, except that 0 has the sign of the factors. -/
theorem mul_ofInt :
    mul (ofInt m) (ofInt n) =
      if m * n = 0 ∧ (m < 0 ∨ n < 0) then negZero else ofInt (m * n) := by
  have product : m.natAbs * one * (n.natAbs * one) = m.natAbs * n.natAbs * one * one := by
    ring
  simp only [mul, isNaN_ofInt, isInf_ofInt exactM, isInf_ofInt exactN, units_ofInt exactM,
    units_ofInt exactN, negative_ofInt, Bool.false_eq_true, or_self, if_false, product]
  have rounded (negative : Bool) : ofFraction negative (m.natAbs * n.natAbs * one * one) one =
      ofFraction negative (m.natAbs * n.natAbs * one) 1 := by
    have scaled : ofFraction negative (m.natAbs * n.natAbs * one * one) (1 * one) =
        ofFraction negative (m.natAbs * n.natAbs * one) 1 :=
      ofFraction_scale one_pos
    rwa [Nat.one_mul] at scaled
  rw [rounded]
  split
  · next zero =>
      obtain ⟨product, below⟩ := zero
      have sign : (decide (m < 0) ^^ decide (n < 0)) = true := by
        rcases Int.mul_eq_zero.mp product with rfl | rfl
        · simpa using below
        · simpa using below
      have size : m.natAbs * n.natAbs = 0 := by
        rw [← Int.natAbs_mul, product, Int.natAbs_zero]
      rw [sign, size, Nat.zero_mul]
      rfl
  · next nonzero =>
      have sign : (decide (m < 0) ^^ decide (n < 0)) = decide (m * n < 0) := by
        by_cases belowM : m < 0 <;> by_cases belowN : n < 0
        · have positive : 0 < m * n := Int.mul_pos_of_neg_of_neg belowM belowN
          simp [belowM, belowN, positive.le]
        · have other : n ≠ 0 := fun zero => nonzero ⟨by rw [zero, Int.mul_zero], .inl belowM⟩
          have negative : m * n < 0 := Int.mul_neg_of_neg_of_pos belowM (by omega)
          simp [belowM, belowN, negative]
        · have other : m ≠ 0 := fun zero => nonzero ⟨by rw [zero, Int.zero_mul], .inr belowN⟩
          have negative : m * n < 0 := Int.mul_neg_of_pos_of_neg (by omega) belowN
          simp [belowM, belowN, negative]
        · have notNegative : 0 ≤ m * n := Int.mul_nonneg (by omega) (by omega)
          simp [belowM, belowN, notNegative]
      rw [sign, ofInt, Int.natAbs_mul]

/-- A remainder of integers is exact, and -0 where a negative one vanishes. -/
theorem fmod_ofInt (nonzero : n ≠ 0) :
    fmod (ofInt m) (ofInt n) =
      if m.tmod n = 0 ∧ m < 0 then negZero else ofInt (m.tmod n) := by
  have divisor : n.natAbs * one ≠ 0 :=
    Nat.mul_ne_zero (Int.natAbs_ne_zero.mpr nonzero) one_pos.ne'
  simp only [fmod, isNaN_ofInt, isInf_ofInt exactM, isInf_ofInt exactN, units_ofInt exactM,
    units_ofInt exactN, negative_ofInt, Bool.false_eq_true, or_self, if_false, divisor,
    Nat.mul_mod_mul_right]
  have size : (m.tmod n).natAbs = m.natAbs % n.natAbs := Int.natAbs_tmod m n
  split
  · next zero =>
      rw [← size, zero.1, decide_eq_true zero.2, Int.natAbs_zero, Nat.zero_mul]
      rfl
  · next rest =>
      have sign : decide (m < 0) = decide (m.tmod n < 0) := by
        by_cases below : m < 0
        · have nonpositive : m.tmod n ≤ 0 := by
            have mirrored : 0 ≤ (-m).tmod n := Int.tmod_nonneg n (by omega)
            rw [Int.neg_tmod] at mirrored
            omega
          rw [decide_eq_true below, decide_eq_true (by omega)]
        · have nonnegative : 0 ≤ m.tmod n := Int.tmod_nonneg n (by omega)
          rw [decide_eq_false below, decide_eq_false (by omega)]
      rw [sign, ← size, ofInt]

theorem lt_ofInt : lt (ofInt m) (ofInt n) = decide (m < n) := by
  have positive : 0 < (one : Int) := Int.natCast_pos.mpr one_pos
  simp only [lt, isNaN_ofInt, signedUnits_ofInt exactM, signedUnits_ofInt exactN, Bool.not_false,
    Bool.true_and]
  exact decide_eq_decide.mpr (Int.mul_lt_mul_right positive)

theorem le_ofInt : le (ofInt m) (ofInt n) = decide (m ≤ n) := by
  have positive : 0 < (one : Int) := Int.natCast_pos.mpr one_pos
  simp only [le, isNaN_ofInt, signedUnits_ofInt exactM, signedUnits_ofInt exactN, Bool.not_false,
    Bool.true_and]
  exact decide_eq_decide.mpr (Int.mul_le_mul_right positive)

end

/-- A finite double has an integral magnitude exactly if its units divide evenly. -/
theorem natAbs?_eq (d : Double) : d.natAbs? =
    if d.magnitude < Binary64.infinity ∧ d.units % one = 0 then some (d.units / one) else none := by
  have bound := d.magnitude_lt
  have infinite : d.exponent = 2047 ↔ ¬ d.magnitude < infinity := by
    rw [exponent_eq]
    unfold infinity
    omega
  have place := onePlace_eq
  unfold natAbs?
  by_cases finite : d.magnitude < infinity
  · rw [if_neg (by rw [infinite]; simpa using finite)]
    rw [units_eq, one]
    split
    · next large =>
        have split : d.significand * 2 ^ (max d.exponent 1 - 1) =
            d.significand * 2 ^ (max d.exponent 1 - 1075) * 2 ^ onePlace := by
          rw [Nat.mul_assoc, ← Nat.pow_add]
          congr 2
          omega
        rw [split, Nat.mul_mod_left, Nat.mul_div_cancel _ (Nat.two_pow_pos _)]
        simp [finite]
    · next small =>
        have split : 2 ^ onePlace =
            2 ^ (1075 - max d.exponent 1) * 2 ^ (max d.exponent 1 - 1) := by
          rw [← Nat.pow_add]
          congr 1
          omega
        rw [split, Nat.mul_mod_mul_right, Nat.mul_div_mul_right _ _ (Nat.two_pow_pos _)]
        simp [finite]
  · rw [if_pos (infinite.mpr finite), if_neg (fun both => finite both.1)]

theorem natAbs?_ofInt (exact_ : Exact n) : (ofInt n).natAbs? = some n.natAbs := by
  rw [natAbs?_eq, units_ofInt exact_, Nat.mul_mod_left, Nat.mul_div_cancel _ one_pos,
    if_pos ⟨finite_ofInt exact_, rfl⟩]

/-- The range of `int32_t`. -/
def InInt32 (n : Int) : Prop :=
  -2147483648 ≤ n ∧ n ≤ 2147483647

instance (n : Int) : Decidable (InInt32 n) :=
  inferInstanceAs (Decidable (_ ∧ _))

theorem InInt32.exact (range : InInt32 n) : Exact n := by
  unfold InInt32 at range
  unfold Exact
  omega

theorem int32?_ofInt (exact_ : Exact n) :
    (ofInt n).int32? = if InInt32 n then some n else none := by
  have value : (if (decide (n < 0)) = true then -(n.natAbs : Int) else n.natAbs) = n := by
    split
    · next below =>
        simp only [decide_eq_true_eq] at below
        omega
    · next above =>
        simp only [decide_eq_true_eq] at above
        omega
  simp only [int32?, natAbs?_ofInt exact_, negative_ofInt, value]
  rfl

/-- A large integer converts to no `int32_t`. -/
theorem int32?_ofInt_large (large : 2 ^ 53 ≤ n.natAbs) : (ofInt n).int32? = none := by
  have place := onePlace_eq
  have value : 2 ^ 53 * one ≤ (ofInt n).units := by
    have scaled : 2 ^ (53 + onePlace) ≤ n.natAbs * one := by
      rw [Nat.pow_add]
      exact Nat.mul_le_mul_right _ large
    have rounded := le_units_round scaled (by omega) (by omega)
    rw [units, ofInt, magnitude_ofFraction, one, ← Nat.pow_add]
    exact rounded
  rw [int32?, natAbs?_eq]
  split
  · rfl
  · next magnitude found =>
      split at found
      · have size : 2 ^ 53 ≤ magnitude := by
          rw [← Option.some.inj found]
          exact (Nat.le_div_iff_mul_le one_pos).mpr value
        split
        · rw [if_neg (by omega)]
        · rw [if_neg (by omega)]
      · cases found

/-- A double that converts to an `int32_t` is this integer or -0. -/
theorem eq_of_int32? {d : Double} (found : d.int32? = some n) :
    InInt32 n ∧ (d = ofInt n ∨ (n = 0 ∧ d = negZero)) := by
  rw [int32?, natAbs?_eq] at found
  split at found
  · cases found
  · next magnitude integral =>
      split at integral
      · next whole =>
          have units : d.units = magnitude * one := by
            rw [← Option.some.inj integral, Nat.div_mul_cancel (Nat.dvd_of_mod_eq_zero whole.2)]
          dsimp only at found
          generalize value :
            (if d.negative = true then -(magnitude : Int) else magnitude) = v at found
          split at found
          · next range =>
              obtain rfl := Option.some.inj found
              refine ⟨range, ?_⟩
              have exact_ : Exact v := InInt32.exact range
              have size : v.natAbs = magnitude := by
                split at value <;> omega
              have sameSize : d.magnitude = (ofInt v).magnitude := by
                apply units_injective
                change d.units = (ofInt v).units
                rw [units, units_ofInt exact_, size]
              by_cases zero : magnitude = 0
              · have none_ : v = 0 := by omega
                cases sign : d.negative with
                | false =>
                  refine .inl (ext_parts ?_ sameSize)
                  rw [sign, negative_ofInt, none_]
                  rfl
                | true =>
                  refine .inr ⟨none_, ext_parts ?_ ?_⟩
                  · rw [sign, negZero, negative_make (by decide)]
                  · rw [sameSize, none_, ofInt_zero, negZero, magnitude_make (by decide),
                      magnitude_make (by decide)]
              · refine .inl (ext_parts ?_ sameSize)
                cases sign : d.negative <;> simp [sign] at value <;> simp <;> omega
          · cases found
      · cases integral

/-- A finite double truncates to the quotient of its units, with its sign. -/
theorem truncate?_eq {d : Double} (finite : d.magnitude < Binary64.infinity) :
    d.truncate? = some
      (if d.negative then -((d.units / one : Nat) : Int) else ((d.units / one : Nat) : Int)) := by
  have place := onePlace_eq
  have notInfinite : d.exponent ≠ 2047 := by
    rw [exponent_eq]
    unfold infinity at finite
    omega
  have size : d.significand * 2 ^ (max d.exponent 1 - 1075) / 2 ^ (1075 - max d.exponent 1) =
      d.units / one := by
    rw [units_eq, one]
    rcases Nat.le_total 1075 (max d.exponent 1) with large | small
    · have split : d.significand * 2 ^ (max d.exponent 1 - 1) =
          d.significand * 2 ^ (max d.exponent 1 - 1075) * 2 ^ onePlace := by
        rw [Nat.mul_assoc, ← Nat.pow_add]
        congr 2
        omega
      rw [split, Nat.mul_div_cancel _ (Nat.two_pow_pos _), Nat.sub_eq_zero_of_le large,
        Nat.pow_zero, Nat.div_one]
    · have split : 2 ^ onePlace =
          2 ^ (1075 - max d.exponent 1) * 2 ^ (max d.exponent 1 - 1) := by
        rw [← Nat.pow_add]
        congr 1
        omega
      rw [split, Nat.mul_div_mul_right _ _ (Nat.two_pow_pos _), Nat.sub_eq_zero_of_le small,
        Nat.pow_zero, Nat.mul_one]
  rw [truncate?, if_neg notInfinite]
  dsimp only
  rw [size]

theorem truncate?_ofInt (exact_ : Exact n) : (ofInt n).truncate? = some n := by
  have value : (if (decide (n < 0)) = true then -(n.natAbs : Int) else n.natAbs) = n := by
    split
    · next below =>
        have negative := of_decide_eq_true below
        omega
    · next above =>
        have positive := of_decide_eq_false (Bool.eq_false_iff.mpr above)
        omega
  rw [truncate?_eq (finite_ofInt exact_), units_ofInt exact_, Nat.mul_div_cancel _ one_pos,
    negative_ofInt, value]

theorem toInt32_ofInt (range : InInt32 n) : (ofInt n).toInt32 = n := by
  rw [toInt32, truncate?_ofInt range.exact]
  unfold InInt32 at range
  exact if_pos (by omega)

theorem ceq_ofInt (exactM : Exact m) (exactN : Exact n) :
    ceq (ofInt m) (ofInt n) = decide (m = n) := by
  simp only [ceq, isNaN_ofInt, Bool.not_false, Bool.true_and, natAbs?_ofInt exactM,
    natAbs?_ofInt exactN]
  rw [Bool.eq_iff_iff]
  simp only [Bool.or_eq_true, decide_eq_true_eq, Bool.and_eq_true, Option.some.injEq,
    Int.natAbs_eq_zero]
  constructor
  · rintro (same | ⟨rfl, rfl⟩)
    · exact ofInt_injective exactM exactN same
    · rfl
  · rintro rfl
    exact .inl rfl

end Integers

/-! ## Negative zero -/

section NegativeZero

variable {x y d : Double} {n : Int}

def Finite (d : Double) : Prop :=
  d.magnitude < Binary64.infinity

instance (d : Double) : Decidable d.Finite :=
  inferInstanceAs (Decidable (_ < _))

theorem finite_of_not_isNaN (number : d.isNaN = false) (finite : d.isInf = false) : d.Finite := by
  rw [isNaN_eq, decide_eq_false_iff_not] at number
  rw [isInf, decide_eq_false_iff_not] at finite
  unfold Finite
  omega

theorem Finite.isNaN (finite : d.Finite) : d.isNaN = false := by
  unfold Finite at finite
  rw [isNaN_eq]
  exact decide_eq_false (by omega)

theorem Finite.isInf (finite : d.Finite) : d.isInf = false := by
  unfold Finite at finite
  exact decide_eq_false (by omega)

theorem negative_negZero : negZero.negative = true :=
  negative_make (by decide)

theorem magnitude_negZero : negZero.magnitude = 0 :=
  magnitude_make (by decide)

theorem eq_negZero : d = negZero ↔ d.negative = true ∧ d.magnitude = 0 := by
  constructor
  · rintro rfl
    exact ⟨negative_negZero, magnitude_negZero⟩
  · rintro ⟨sign, size⟩
    exact ext_parts (sign.trans negative_negZero.symm) (size.trans magnitude_negZero.symm)

theorem units_eq_zero : d.units = 0 ↔ d.magnitude = 0 := by
  constructor
  · intro zero
    exact units_injective zero
  · intro zero
    rw [units, zero]
    rfl

theorem int32?_negZero : negZero.int32? = some 0 := by
  have zero : negZero.units = 0 := units_eq_zero.mpr magnitude_negZero
  have finite : negZero.magnitude < infinity := by
    decide
  have integral : negZero.natAbs? = some 0 := by
    rw [natAbs?_eq, zero, Nat.zero_mod, Nat.zero_div, if_pos ⟨finite, rfl⟩]
  simp [int32?, integral]

theorem units_of_ceq_zero (equal : d.ceq (ofInt 0) = true) : d.units = 0 := by
  have zero : (ofInt 0).units = 0 := by
    rw [units_eq_zero, ofInt_zero, magnitude_make (by decide)]
  simp only [ceq, Bool.and_eq_true, Bool.or_eq_true, decide_eq_true_eq] at equal
  rcases equal.2 with same | ⟨integral, -⟩
  · rw [same, zero]
  · rw [natAbs?_eq] at integral
    split at integral
    · next whole =>
        have none_ := Option.some.inj integral
        have parts := Nat.div_add_mod d.units one
        rw [none_, whole.2, Nat.mul_zero] at parts
        exact parts.symm
    · cases integral

theorem ofInt_ne_negZero (exact_ : Exact n) : ofInt n ≠ negZero := by
  intro same
  obtain ⟨sign, size⟩ := eq_negZero.mp same
  have zero := units_ofInt exact_
  rw [units_eq_zero.mpr size] at zero
  rw [negative_ofInt, decide_eq_true_eq] at sign
  have nonzero : n.natAbs * one ≠ 0 := Nat.mul_ne_zero (by omega) one_pos.ne'
  exact nonzero zero.symm

theorem nan_ne_negZero : nan ≠ negZero := by
  decide

theorem infinity_ne_negZero (infinite : d.isInf = true) : d ≠ negZero := by
  rintro rfl
  cases infinite

theorem ofFraction_eq_negZero {negative : Bool} {num den : Nat} (positive : 0 < den) :
    ofFraction negative num den = negZero ↔ negative = true ∧ 2 * num ≤ den := by
  rw [eq_negZero, negative_ofFraction, magnitude_ofFraction, round_eq_zero positive]

theorem mul_ofInt_eq_negZero {m : Int} (exactM : Exact m) (exactN : Exact n) :
    mul (ofInt m) (ofInt n) = negZero ↔ m * n = 0 ∧ (m < 0 ∨ n < 0) := by
  rw [mul_ofInt exactM exactN]
  split
  · next zero => exact iff_of_true rfl zero
  · next rest =>
      refine iff_of_false ?_ rest
      unfold ofInt
      rw [ofFraction_eq_negZero Nat.one_pos, decide_eq_true_eq]
      rintro ⟨below, small⟩
      have large : 0 < (m * n).natAbs * one := Nat.mul_pos (by omega) one_pos
      omega

/-- A sum is -0 only of -0 and -0. -/
theorem add_eq_negZero : x.add y = negZero ↔ x = negZero ∧ y = negZero := by
  have bothZero (signX : x.negative = true) (signY : y.negative = true)
      (sum : x.signedUnits + y.signedUnits = 0) : x = negZero ∧ y = negZero := by
    rw [signedUnits, signedUnits, if_pos signX, if_pos signY] at sum
    constructor
    · exact eq_negZero.mpr ⟨signX, units_eq_zero.mp (by omega)⟩
    · exact eq_negZero.mpr ⟨signY, units_eq_zero.mp (by omega)⟩
  constructor
  · intro result
    unfold add at result
    split at result
    · exact absurd result nan_ne_negZero
    · split at result
      · next infinite =>
          split at result
          · exact absurd result nan_ne_negZero
          · exact absurd result (infinity_ne_negZero infinite)
      · split at result
        · next infinite => exact absurd result (infinity_ne_negZero infinite)
        · dsimp only at result
          split at result
          · next sum =>
              have sign := (eq_negZero.mp result).1
              rw [negative_make (by decide), Bool.and_eq_true] at sign
              exact bothZero sign.1 sign.2 sum
          · next nonzero =>
              have small := ((ofFraction_eq_negZero (by decide)).mp result).2
              omega
  · rintro ⟨rfl, rfl⟩
    decide

theorem sub_eq_negZero : x.sub y = negZero ↔ x = negZero ∧ y = ofInt 0 := by
  have flipped : y.neg = negZero ↔ y = ofInt 0 := by
    rw [eq_negZero, negative_neg, magnitude_neg, ofInt_zero]
    constructor
    · rintro ⟨sign, size⟩
      refine ext_parts ?_ ?_
      · rw [negative_make (by decide)]
        simpa using sign
      · rw [size, magnitude_make (by decide)]
    · rintro rfl
      exact ⟨by rw [negative_make (by decide)]; rfl, magnitude_make (by decide)⟩
  rw [sub, add_eq_negZero, flipped]

def Vanishing (x y : Double) : Prop :=
  x.Finite ∧ y.Finite ∧ x.negative ≠ y.negative ∧ 2 * (x.units * y.units) ≤ one

/-- A product is -0 exactly if it vanishes with the signs apart. -/
theorem mul_eq_negZero : x.mul y = negZero ↔ x.Vanishing y := by
  have signs : (x.negative ^^ y.negative) = true ↔ x.negative ≠ y.negative := by
    cases x.negative <;> cases y.negative <;> decide
  unfold mul Vanishing
  split
  · next notNumber =>
      refine iff_of_false nan_ne_negZero ?_
      rintro ⟨finiteX, finiteY, -⟩
      rw [finiteX.isNaN, finiteY.isNaN] at notNumber
      simp at notNumber
  · next number =>
      have isNumber : x.isNaN = false ∧ y.isNaN = false := by simpa using number
      split
      · next infinite =>
          refine iff_of_false ?_ ?_
          · split
            · exact nan_ne_negZero
            · refine infinity_ne_negZero ?_
              rw [isInf, magnitude_make (by decide)]
              exact decide_eq_true rfl
          · rintro ⟨finiteX, finiteY, -⟩
            rw [finiteX.isInf, finiteY.isInf] at infinite
            simp at infinite
      · next finite =>
          have isFinite : x.isInf = false ∧ y.isInf = false := by simpa using finite
          have finiteX := finite_of_not_isNaN isNumber.1 isFinite.1
          have finiteY := finite_of_not_isNaN isNumber.2 isFinite.2
          rw [ofFraction_eq_negZero one_pos, signs]
          simp [finiteX, finiteY]

def NegativeMultiple (x y : Double) : Prop :=
  x.Finite ∧ x.negative = true ∧ y.isNaN = false ∧ y.units ≠ 0 ∧ x.units % y.units = 0

/-- A remainder is -0 exactly of a negative multiple. -/
theorem fmod_eq_negZero : x.fmod y = negZero ↔ x.NegativeMultiple y := by
  unfold fmod NegativeMultiple
  split
  · next undefined_ =>
      refine iff_of_false nan_ne_negZero ?_
      rintro ⟨finite, -, number, nonzero, -⟩
      rw [finite.isNaN, finite.isInf, number] at undefined_
      simp [nonzero] at undefined_
  · next defined_ =>
      simp only [not_or, Bool.not_eq_true] at defined_
      obtain ⟨numberX, numberY, finiteX, nonzero⟩ := defined_
      have finite := finite_of_not_isNaN numberX finiteX
      simp only [finite, numberY, nonzero, ne_eq, not_false_eq_true, true_and]
      split
      · next infinite =>
          have larger : x.units < y.units := by
            rw [isInf, decide_eq_true_eq] at infinite
            rw [units, units, infinite]
            exact units_lt_of_lt finite
          rw [eq_negZero, Nat.mod_eq_of_lt larger, units_eq_zero]
      · rw [ofFraction_eq_negZero (by decide)]
        constructor
        · rintro ⟨sign, small⟩
          exact ⟨sign, by omega⟩
        · rintro ⟨sign, zero⟩
          exact ⟨sign, by omega⟩

end NegativeZero

end Double

end LRJS
