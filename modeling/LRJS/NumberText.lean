import LRJS.Doubles

/-!
# Numbers as text

What the C library makes of numbers and text for the engine: `"%d"` and `"%.17g"`
of `snprintf`, and `strtod`.  An `int32_t` and the double of the same value have
the same text.
-/

namespace LRJS

open List Option

def stripZeros (digits : List Char) : List Char :=
  (digits.reverse.dropWhile (· = '0')).reverse

def padded (width n : Nat) : List Char :=
  let digits := (toString n).toList
  List.replicate (width - digits.length) '0' ++ digits

def withFraction (whole : Nat) (fraction : List Char) : String :=
  match stripZeros fraction with
  | [] => toString whole
  | digits => toString whole ++ "." ++ String.ofList digits

namespace Double

def decimalExponent (units : Nat) : Int :=
  if one ≤ units then
    Nat.log 10 (units / one)
  else
    -(Nat.log 10 (one / units) + 1 : Nat)

def shiftedTen (units : Nat) (shift : Int) : Nat :=
  Binary64.nearest (units * 10 ^ shift.toNat) (one * 10 ^ (-shift).toNat)

def significantDigits (units : Nat) : Nat × Int :=
  let exponent := decimalExponent units
  let digits := shiftedTen units (16 - exponent)
  if digits = 10 ^ 17 then (10 ^ 16, exponent + 1) else (digits, exponent)

/-- `snprintf(buf, sizeof(buf), "%.17g", d)` for a finite double. -/
def format17 (d : Double) : String :=
  let sign := if d.negative then "-" else ""
  if d.units = 0 then
    sign ++ "0"
  else
    let (digits, exponent) := significantDigits d.units
    if -4 ≤ exponent ∧ exponent < 17 then
      let places := (16 - exponent).toNat
      sign ++ withFraction (digits / 10 ^ places) (padded places (digits % 10 ^ places))
    else
      let mark := if exponent < 0 then "e-" else "e+"
      sign ++ withFraction (digits / 10 ^ 16) (padded 16 (digits % 10 ^ 16)) ++ mark ++
        String.ofList (padded 2 exponent.natAbs)

end Double

def spanDigits (base : Nat) : List Char → List Nat × List Char
  | [] => ([], [])
  | c :: rest =>
    match digit? base c with
    | some digit =>
      let (digits, behind) := spanDigits base rest
      (digit :: digits, behind)
    | none => ([], c :: rest)

/-- Digits with at most one point: their number, how many stand behind the point,
and the characters behind them. -/
def scanMantissa (base : Nat) (chars : List Char) : Option (Nat × Nat × List Char) :=
  let (whole, rest) := spanDigits base chars
  let (fraction, rest) :=
    match rest with
    | '.' :: behind => spanDigits base behind
    | _ => ([], rest)
  if whole = [] ∧ fraction = [] then
    none
  else
    some ((whole ++ fraction).foldl (fun n digit => n * base + digit) 0, fraction.length, rest)

def scanExponent (letters : List Char) (chars : List Char) : Int × List Char :=
  match chars with
  | c :: rest =>
    if c ∈ letters then
      let (negative, digits) :=
        match rest with
        | '-' :: digits => (true, digits)
        | '+' :: digits => (false, digits)
        | _ => (false, rest)
      match spanDigits 10 digits with
      | ([], _) => (0, chars)
      | (digits, behind) =>
        let size : Int := digits.foldl (fun n digit => n * 10 + digit) 0
        (if negative then -size else size, behind)
    else
      (0, chars)
  | [] => (0, chars)

def scanNumber (negative : Bool) (chars : List Char) : Option (Double × List Char) := do
  let value (mantissa base : Nat) (exponent : Int) : Double :=
    .ofFraction negative (mantissa * base ^ exponent.toNat * Double.one)
      (base ^ (-exponent).toNat)
  let decimal : Option (Double × List Char) := do
    let (mantissa, places, rest) ← scanMantissa 10 chars
    let (exponent, rest) := scanExponent ['e', 'E'] rest
    some (value mantissa 10 (exponent - places), rest)
  match chars with
  | '0' :: x :: rest =>
    if x = 'x' ∨ x = 'X' then
      match scanMantissa 16 rest with
      | some (mantissa, places, rest) =>
        let (exponent, rest) := scanExponent ['p', 'P'] rest
        some (value mantissa 2 (exponent - 4 * places), rest)
      | none => decimal
    else
      decimal
  | _ => decimal

def dropWord (word chars : List Char) : Option (List Char) :=
  if (chars.take word.length).map Char.toLower = word then some (chars.drop word.length) else none

/-- Drop `(...)` with letters, digits and underscores. -/
def dropPayload (chars : List Char) : List Char :=
  match chars with
  | '(' :: rest =>
    match rest.dropWhile fun c => c.isAlphanum || c = '_' with
    | ')' :: behind => behind
    | _ => chars
  | _ => chars

/-- `strtod`: the number and where it ends; `none` when there is no number. -/
def strtod (chars : List Char) : Option (Double × List Char) :=
  let (negative, rest) :=
    match chars with
    | '-' :: rest => (true, rest)
    | '+' :: rest => (false, rest)
    | _ => (false, chars)
  match dropWord "infinity".toList rest, dropWord "inf".toList rest, dropWord "nan".toList rest with
  | some behind, _, _ => some (.make negative Binary64.infinity, behind)
  | none, some behind, _ => some (.make negative Binary64.infinity, behind)
  | none, none, some behind => some (.nan, dropPayload behind)
  | none, none, none => scanNumber negative rest

/-- The string case of `lr_to_float64`. -/
def stringToDouble (s : Name) : Double :=
  let chars := s.toList.dropWhile isspace
  if chars = [] then
    .ofInt 0
  else
    match strtod chars with
    | none => .nan
    | some (value, rest) => if rest.dropWhile isspace = [] then value else .nan

theorem stripZeros_zeros (width : Nat) : stripZeros (List.replicate width '0') = [] := by
  simp [stripZeros]

theorem padded_zero (width : Nat) (positive : 0 < width) :
    padded width 0 = List.replicate width '0' := by
  have digits : (toString 0).toList = ['0'] := rfl
  rw [padded, digits, ← replicate_one, ← replicate_add]
  congr 1
  simp only [length_replicate]
  omega

namespace Double

theorem significantDigits_integer {n : Nat} (positive : 0 < n) (bound : n < 10 ^ 10) :
    significantDigits (n * one) = (n * 10 ^ (16 - Nat.log 10 n), (Nat.log 10 n : Int)) := by
  have small : Nat.log 10 n < 10 := Nat.log_lt_of_lt_pow positive.ne' bound
  have exponent : decimalExponent (n * one) = Nat.log 10 n := by
    rw [decimalExponent, if_pos (Nat.le_mul_of_pos_left one positive),
      Nat.mul_div_cancel n one_pos]
  have shift : (16 - (Nat.log 10 n : Int)).toNat = 16 - Nat.log 10 n := by omega
  have noShift : (-(16 - (Nat.log 10 n : Int))).toNat = 0 := by omega
  have digits :
      shiftedTen (n * one) (16 - (Nat.log 10 n : Int)) = n * 10 ^ (16 - Nat.log 10 n) := by
    rw [shiftedTen, shift, noShift, Nat.pow_zero, Nat.mul_one, Nat.mul_right_comm]
    exact Binary64.nearest_exact _ one_pos
  have below : n * 10 ^ (16 - Nat.log 10 n) < 10 ^ 17 := by
    calc n * 10 ^ (16 - Nat.log 10 n)
        < 10 ^ (Nat.log 10 n + 1) * 10 ^ (16 - Nat.log 10 n) :=
          Nat.mul_lt_mul_of_pos_right (Nat.lt_pow_succ_log_self (by decide) n)
            (Nat.pow_pos (by decide))
      _ = 10 ^ 17 := by
          rw [← Nat.pow_add]
          congr 1
          omega
  rw [significantDigits, exponent, digits, if_neg (Nat.ne_of_lt below)]

/-- An integer of at most ten digits is printed as such. -/
theorem format17_ofInt {n : Int} (bound : n.natAbs < 10 ^ 10) :
    format17 (ofInt n) = toString n := by
  have exact_ : Exact n := by
    unfold Exact
    omega
  rw [format17, negative_ofInt, units_ofInt exact_]
  rcases Nat.eq_zero_or_pos n.natAbs with zero | positive
  · obtain rfl : n = 0 := by omega
    simp
    rfl
  · have small : Nat.log 10 n.natAbs < 10 := Nat.log_lt_of_lt_pow positive.ne' bound
    have shift : (16 - (Nat.log 10 n.natAbs : Int)).toNat = 16 - Nat.log 10 n.natAbs := by omega
    have whole : n.natAbs * 10 ^ (16 - Nat.log 10 n.natAbs) / 10 ^ (16 - Nat.log 10 n.natAbs) =
        n.natAbs :=
      Nat.mul_div_cancel _ (Nat.pow_pos (by decide))
    have fixed : -4 ≤ (Nat.log 10 n.natAbs : Int) ∧ (Nat.log 10 n.natAbs : Int) < 17 := by omega
    have text :
        withFraction n.natAbs (padded (16 - Nat.log 10 n.natAbs) 0) = toString n.natAbs := by
      rw [withFraction, padded_zero _ (by omega), stripZeros_zeros]
    rw [if_neg (Nat.mul_ne_zero positive.ne' one_pos.ne'),
      significantDigits_integer positive bound]
    dsimp only
    rw [if_pos fixed, shift, whole, Nat.mul_mod_left, text]
    by_cases below : n < 0
    · rw [if_pos (decide_eq_true below)]
      obtain ⟨k, rfl⟩ : ∃ k : Nat, n = Int.negSucc k := Int.eq_negSucc_of_lt_zero below
      rfl
    · rw [if_neg (by simpa using below)]
      obtain ⟨k, rfl⟩ : ∃ k : Nat, n = Int.ofNat k := Int.eq_ofNat_of_zero_le (by omega)
      simp
      rfl

end Double

theorem digit?_of_isDigit {c : Char} (digit : c.isDigit = true) :
    digit? 10 c = some (c.toNat - '0'.toNat) := by
  have bounds : 48 ≤ c.toNat ∧ c.toNat ≤ 57 := Char.isDigit_iff_toNat.mp digit
  have small : c.toNat - '0'.toNat < 10 := by
    change c.toNat - 48 < 10
    omega
  simp only [digit?, digit, if_true, filter_some, small, decide_true]

theorem mapM_digit? {chars : List Char} (digits : ∀ c ∈ chars, c.isDigit = true) :
    chars.mapM (digit? 10) = some (chars.map fun c => c.toNat - '0'.toNat) := by
  induction chars with
  | nil => rfl
  | cons c rest ih =>
    rw [mapM_cons, digit?_of_isDigit (digits c mem_cons_self),
      ih fun d member => digits d (mem_cons_of_mem c member)]
    rfl

theorem foldl_mod (digits : List Nat) (v : Nat) :
    digits.foldl (fun val digit => (val * 10 + digit) % 2 ^ 32) (v % 2 ^ 32) =
      digits.foldl (fun val digit => val * 10 + digit) v % 2 ^ 32 := by
  induction digits generalizing v with
  | nil => rfl
  | cons digit rest ih =>
    have next : (v % 2 ^ 32 * 10 + digit) % 2 ^ 32 = (v * 10 + digit) % 2 ^ 32 := by omega
    rw [foldl_cons, foldl_cons, next, ih]

theorem head_toDigits {n : Nat} (positive : 0 < n) : (Nat.toDigits 10 n).head? ≠ some '0' := by
  induction n using Nat.strongRecOn with
  | ind n ih =>
    rcases Nat.lt_or_ge n 10 with small | large
    · rw [Nat.toDigits_of_lt_base small]
      intro zero
      have digits : ∀ m < 10, 0 < m → m.digitChar ≠ '0' := by decide
      exact digits n small positive (Option.some.inj zero)
    · rw [Nat.toDigits_of_base_le (by decide) large, 
        head?_append_of_ne_nil _ Nat.toDigits_ne_nil]
      exact ih (n / 10) (by omega) (by omega)

/-- The text of an index is recognised as the index. -/
theorem lr_is_numeric_index_toString {n : Nat} (bound : n < 2 ^ 31) (addr : Addr) :
    lr_is_numeric_index ⟨toString n, addr⟩ = some n := by
  have chars : (toString n).toList = Nat.toDigits 10 n := Nat.toList_repr
  have short : ¬ ((Nat.toDigits 10 n).length = 0 ∨ 10 < (Nat.toDigits 10 n).length) := by
    have atMost : (Nat.toDigits 10 n).length ≤ 10 :=
      (Nat.length_toDigits_le_iff (by decide) (by decide)).mpr (by omega)
    have atLeast : 0 < (Nat.toDigits 10 n).length := Nat.length_toDigits_pos
    omega
  have canonical : ¬ (1 < (Nat.toDigits 10 n).length ∧ (Nat.toDigits 10 n).head? = some '0') := by
    rintro ⟨long, zero⟩
    rcases Nat.eq_zero_or_pos n with rfl | positive
    · exact absurd long (by decide)
    · exact head_toDigits positive zero
  have digits : (Nat.toDigits 10 n).mapM (digit? 10) =
      some ((Nat.toDigits 10 n).map fun c => c.toNat - '0'.toNat) :=
    mapM_digit? fun c member => Nat.isDigit_of_mem_toDigits (by decide) (by decide) member
  have value : (Nat.toDigits 10 n).foldl (fun v c => v * 10 + (c.toNat - '0'.toNat)) 0 = n := by
    have read := Nat.ofDigitChars_ten_toDigits (n := n)
    rw [Nat.ofDigitChars_eq_foldl] at read
    simpa [Nat.mul_comm] using read
  unfold lr_is_numeric_index
  simp only [chars, if_neg short, if_neg canonical, digits, map_some]
  have accumulated := foldl_mod ((Nat.toDigits 10 n).map fun c => c.toNat - '0'.toNat) 0
  rw [foldl_map (f := fun c : Char => c.toNat - '0'.toNat)
    (g := fun val digit => val * 10 + digit), value] at accumulated
  rw [Nat.zero_mod] at accumulated
  rw [accumulated, Nat.mod_eq_of_lt (by omega)]

end LRJS
