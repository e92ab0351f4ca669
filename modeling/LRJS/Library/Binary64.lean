import Mathlib.Data.Nat.Log
import Mathlib.Tactic.Ring
import Mathlib.Tactic.Positivity

/-!
# Binary64 magnitudes

The magnitudes of IEEE 754 double precision numbers, by the low 63 bits of their
representation.  Every finite magnitude is a multiple of the smallest positive
one; `units` counts these multiples, so that sums, products and remainders of
doubles are integer arithmetic followed by `round`.
-/

namespace Binary64

def infinity : Nat :=
  2047 * 2 ^ 52

def units (bits : Nat) : Nat :=
  if bits < 2 ^ 52 then
    bits
  else
    (bits % 2 ^ 52 + 2 ^ 52) * 2 ^ (bits / 2 ^ 52 - 1)

def nearest (num den : Nat) : Nat :=
  let below := num / den
  let rest := num % den
  if 2 * rest < den ∨ (2 * rest = den ∧ below % 2 = 0) then below else below + 1

def lastPlace (value : Nat) : Nat :=
  value.log2 - 52

def round (num den : Nat) : Nat :=
  let place := lastPlace (num / den)
  min (place * 2 ^ 52 + nearest num (den * 2 ^ place)) infinity

theorem nearest_exact (m : Nat) {den : Nat} (positive : 0 < den) : nearest (m * den) den = m := by
  simp [nearest, positive]

variable (num den : Nat)

theorem nearest_scale {k : Nat} (positive : 0 < k) :
    nearest (num * k) (den * k) = nearest num den := by
  unfold nearest
  rw [Nat.mul_div_mul_right num den positive, Nat.mul_mod_mul_right]
  have less : 2 * (num % den * k) < den * k ↔ 2 * (num % den) < den := by
    rw [← Nat.mul_assoc]
    exact Nat.mul_lt_mul_right positive
  have same : 2 * (num % den * k) = den * k ↔ 2 * (num % den) = den := by
    rw [← Nat.mul_assoc]
    exact Nat.mul_left_inj (Nat.ne_of_gt positive)
  simp only [less, same]

theorem le_nearest : num / den ≤ nearest num den := by
  unfold nearest
  dsimp only
  split
  · exact Nat.le_refl _
  · exact Nat.le_succ _

theorem nearest_le : nearest num den ≤ num / den + 1 := by
  unfold nearest
  dsimp only
  split
  · exact Nat.le_succ _
  · exact Nat.le_refl _

theorem round_scale {k : Nat} (positive : 0 < k) :
    round (num * k) (den * k) = round num den := by
  unfold round
  rw [Nat.mul_div_mul_right num den positive]
  dsimp only
  rw [Nat.mul_right_comm den k, nearest_scale num _ positive]

theorem lastPlace_small {value : Nat} (small : value < 2 ^ 53) : lastPlace value = 0 := by
  unfold lastPlace
  by_cases zero : value = 0
  · simp [zero]
  · have bound := (Nat.log2_lt zero).mpr small
    omega

section

variable {m place : Nat} (lower : 2 ^ 52 ≤ m)
include lower

theorem lastPlace_normal (upper : m < 2 ^ 53) : lastPlace (m * 2 ^ place) = place := by
  have positive : m * 2 ^ place ≠ 0 :=
    Nat.mul_ne_zero (by omega) (Nat.two_pow_pos place).ne'
  have width : (m * 2 ^ place).log2 = 52 + place := by
    rw [Nat.log2_eq_iff positive, Nat.pow_add, Nat.add_right_comm, Nat.pow_add]
    exact ⟨Nat.mul_le_mul_right _ lower, Nat.mul_lt_mul_of_pos_right upper (Nat.two_pow_pos _)⟩
  rw [lastPlace, width, Nat.add_sub_cancel_left]

theorem units_normal (upper : m ≤ 2 ^ 53) : units (place * 2 ^ 52 + m) = m * 2 ^ place := by
  unfold units
  rw [if_neg (by omega)]
  rcases Nat.lt_or_eq_of_le upper with inside | carry
  · have exponent : (place * 2 ^ 52 + m) / 2 ^ 52 = place + 1 := by omega
    have fraction : (place * 2 ^ 52 + m) % 2 ^ 52 = m - 2 ^ 52 := by omega
    rw [exponent, fraction, Nat.add_sub_cancel, Nat.sub_add_cancel lower]
  · subst carry
    have exponent : (place * 2 ^ 52 + 2 ^ 53) / 2 ^ 52 = place + 2 := by omega
    have fraction : (place * 2 ^ 52 + 2 ^ 53) % 2 ^ 52 = 0 := by omega
    rw [exponent, fraction]
    change (0 + 2 ^ 52) * 2 ^ (place + 1) = 2 ^ 53 * 2 ^ place
    ring

theorem units_round_normal (upper : m < 2 ^ 53)
    (finite : place < 2046) : units (round (m * 2 ^ place) 1) = m * 2 ^ place := by
  rw [round, Nat.div_one, lastPlace_normal lower upper]
  rw [Nat.one_mul, nearest_exact _ (Nat.two_pow_pos _)]
  have inside : place * 2 ^ 52 + m ≤ infinity := by
    unfold infinity
    omega
  rw [Nat.min_eq_left inside, units_normal lower upper.le]

end

/-- A number of at most 53 bits is not rounded. -/
theorem units_round_exact {n place : Nat} (bound : n ≤ 2 ^ 53) (normal : 52 ≤ place)
    (finite : place < 1993) : units (round (n * 2 ^ place) 1) = n * 2 ^ place := by
  rcases Nat.eq_zero_or_pos n with rfl | positive
  · rw [Nat.zero_mul]
    decide
  rcases Nat.lt_or_eq_of_le bound with inside | carry
  · -- normalise the significand
    have width : n.log2 ≤ 52 := by
      have below := (Nat.log2_lt positive.ne').mpr inside
      omega
    have lower : 2 ^ 52 ≤ n * 2 ^ (52 - n.log2) := by
      calc 2 ^ 52 = 2 ^ n.log2 * 2 ^ (52 - n.log2) := by
            rw [← Nat.pow_add, Nat.add_sub_cancel' width]
        _ ≤ n * 2 ^ (52 - n.log2) := Nat.mul_le_mul_right _ (Nat.log2_self_le positive.ne')
    have upper : n * 2 ^ (52 - n.log2) < 2 ^ 53 := by
      calc n * 2 ^ (52 - n.log2) < 2 ^ (n.log2 + 1) * 2 ^ (52 - n.log2) :=
            Nat.mul_lt_mul_of_pos_right Nat.lt_log2_self (Nat.two_pow_pos _)
        _ = 2 ^ 53 := by
            rw [← Nat.pow_add]
            congr 1
            omega
    have split : n * 2 ^ place = n * 2 ^ (52 - n.log2) * 2 ^ (place - (52 - n.log2)) := by
      rw [Nat.mul_assoc, ← Nat.pow_add]
      congr 2
      omega
    rw [split]
    exact units_round_normal lower upper (by omega)
  · have split : n * 2 ^ place = 2 ^ 52 * 2 ^ (place + 1) := by
      rw [carry, Nat.pow_succ 2 place]
      ring
    rw [split]
    exact units_round_normal (Nat.le_refl _) (by omega) (by omega)

/-- Rounding does not fall below a power of two. -/
theorem le_units_round {value k : Nat} (large : 2 ^ k ≤ value) (normal : 52 ≤ k)
    (finite : k ≤ 2098) : 2 ^ k ≤ units (round value 1) := by
  have positive : value ≠ 0 := by
    have := Nat.two_pow_pos k
    omega
  have wide : k ≤ value.log2 := (Nat.le_log2 positive).mpr large
  rw [round, Nat.div_one, Nat.one_mul]
  rcases Nat.le_total (lastPlace value * 2 ^ 52 + nearest value (2 ^ lastPlace value)) infinity with
    inside | outside
  · rw [Nat.min_eq_left inside]
    have place : lastPlace value = value.log2 - 52 := rfl
    have split : 2 ^ value.log2 = 2 ^ 52 * 2 ^ lastPlace value := by
      rw [← Nat.pow_add, place]
      congr 1
      omega
    have below : 2 ^ 52 ≤ value / 2 ^ lastPlace value := by
      rw [Nat.le_div_iff_mul_le (Nat.two_pow_pos _), ← split]
      exact Nat.log2_self_le positive
    have above : value / 2 ^ lastPlace value < 2 ^ 53 := by
      rw [Nat.div_lt_iff_lt_mul (Nat.two_pow_pos _)]
      calc value < 2 ^ (value.log2 + 1) := Nat.lt_log2_self
        _ = 2 ^ 53 * 2 ^ lastPlace value := by
            omega
    have lower := le_nearest value (2 ^ lastPlace value)
    have upper := nearest_le value (2 ^ lastPlace value)
    rw [units_normal (by omega) (by omega)]
    calc 2 ^ k ≤ 2 ^ value.log2 := Nat.pow_le_pow_right (by omega) wide
      _ = 2 ^ 52 * 2 ^ lastPlace value := split
      _ ≤ nearest value (2 ^ lastPlace value) * 2 ^ lastPlace value :=
          Nat.mul_le_mul_right _ (by omega)
  · rw [Nat.min_eq_right outside]
    have value : units infinity = 2 ^ 2098 := by decide +kernel
    exact Nat.le_trans (Nat.pow_le_pow_right (by omega) finite) value.ge

/-- The order of the bits is the order of the values. -/
theorem units_lt_of_lt {bits other : Nat} (less : bits < other) : units bits < units other := by
  unfold units
  by_cases smallOther : other < 2 ^ 52
  · rw [if_pos (by omega), if_pos smallOther]
    exact less
  rw [if_neg smallOther]
  have otherValue : 2 ^ 52 ≤ (other % 2 ^ 52 + 2 ^ 52) * 2 ^ (other / 2 ^ 52 - 1) :=
    Nat.le_trans (Nat.le_add_left ..) (Nat.le_mul_of_pos_right _ (Nat.two_pow_pos _))
  by_cases small : bits < 2 ^ 52
  · rw [if_pos small]
    omega
  rw [if_neg small]
  by_cases sameExponent : bits / 2 ^ 52 = other / 2 ^ 52
  · rw [sameExponent]
    exact Nat.mul_lt_mul_of_pos_right (by omega) (Nat.two_pow_pos _)
  · have exponents : bits / 2 ^ 52 - 1 + 1 ≤ other / 2 ^ 52 - 1 := by omega
    calc (bits % 2 ^ 52 + 2 ^ 52) * 2 ^ (bits / 2 ^ 52 - 1)
        < 2 ^ 53 * 2 ^ (bits / 2 ^ 52 - 1) :=
          Nat.mul_lt_mul_of_pos_right (by omega) (Nat.two_pow_pos _)
      _ = 2 ^ 52 * 2 ^ (bits / 2 ^ 52 - 1 + 1) := by ring
      _ ≤ 2 ^ 52 * 2 ^ (other / 2 ^ 52 - 1) :=
          Nat.mul_le_mul_left _ (Nat.pow_le_pow_right (by omega) exponents)
      _ ≤ (other % 2 ^ 52 + 2 ^ 52) * 2 ^ (other / 2 ^ 52 - 1) :=
          Nat.mul_le_mul_right _ (Nat.le_add_left ..)

theorem units_injective {bits other : Nat} (same : units bits = units other) : bits = other := by
  rcases Nat.lt_trichotomy bits other with less | equal | more
  · exact absurd same (Nat.ne_of_lt (units_lt_of_lt less))
  · exact equal
  · exact absurd same (Nat.ne_of_gt (units_lt_of_lt more))

/-- A quotient rounds to 0 exactly if it is at most half of the smallest unit. -/
theorem round_eq_zero {num den : Nat} (positive : 0 < den) : round num den = 0 ↔ 2 * num ≤ den := by
  have parts := Nat.div_add_mod num den
  unfold round
  dsimp only
  constructor
  · intro zero
    have noPlace : lastPlace (num / den) = 0 := by
      unfold infinity at zero
      omega
    have near : nearest num den = 0 := by
      unfold infinity at zero
      rw [noPlace, Nat.pow_zero, Nat.mul_one] at zero
      omega
    unfold nearest at near
    dsimp only at near
    split at near
    · rw [near, Nat.mul_zero] at parts
      omega
    · exact absurd near (Nat.succ_ne_zero _)
  · intro small
    have below : num / den = 0 := Nat.div_eq_of_lt (by omega)
    have same : num % den = num := Nat.mod_eq_of_lt (by omega)
    have near : nearest num den = 0 := by
      unfold nearest
      rw [below, same, if_pos (by omega)]
    rw [below, lastPlace_small (by decide), Nat.pow_zero, Nat.mul_one, near]
    rfl

end Binary64
