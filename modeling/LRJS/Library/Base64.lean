import Mathlib.Data.List.Range

/-!
# Base 64

The base 64 encoding of RFC 4648: three bytes are four characters, and the last
group is padded.  A decoder may leave the bits behind the last byte unread.
-/

namespace Base64

open List Option

def digit (sextet : Nat) : UInt8 :=
  .ofNat
    (if sextet < 26 then 65 + sextet
    else if sextet < 52 then 71 + sextet
    else if sextet < 62 then sextet - 4
    else if sextet = 62 then 43
    else 47)

/-- `=`. -/
def pad : UInt8 := 61

def quantum : List UInt8 → List UInt8
  | [] => []
  | [a] => [digit (a.toNat / 4), digit (a.toNat % 4 * 16), pad, pad]
  | [a, b] =>
    [digit (a.toNat / 4), digit (a.toNat % 4 * 16 + b.toNat / 16), digit (b.toNat % 16 * 4), pad]
  | a :: b :: c :: _ =>
    [digit (a.toNat / 4), digit (a.toNat % 4 * 16 + b.toNat / 16),
      digit (b.toNat % 16 * 4 + c.toNat / 64), digit (c.toNat % 64)]

def encode : List UInt8 → List UInt8
  | [] => []
  | [a] => quantum [a]
  | [a, b] => quantum [a, b]
  | a :: b :: c :: rest => quantum [a, b, c] ++ encode rest

def first (x y : Nat) : UInt8 := .ofNat (x * 4 + y / 16)

def second (y z : Nat) : UInt8 := .ofNat (y % 16 * 16 + z / 4)

def third (z w : Nat) : UInt8 := .ofNat (z % 4 * 64 + w)

inductive Decodes : List UInt8 → List UInt8 → Prop
  | nil : Decodes [] []
  | one {x y : Nat} (hx : x < 64) (hy : y < 64) :
      Decodes [digit x, digit y, pad, pad] [first x y]
  | two {x y z : Nat} (hx : x < 64) (hy : y < 64) (hz : z < 64) :
      Decodes [digit x, digit y, digit z, pad] [first x y, second y z]
  | group {x y z w : Nat} {text bytes : List UInt8} (hx : x < 64) (hy : y < 64) (hz : z < 64)
      (hw : w < 64) (rest : Decodes text bytes) :
      Decodes (digit x :: digit y :: digit z :: digit w :: text)
        (first x y :: second y z :: third z w :: bytes)

structure IsText (text : List UInt8) : Prop where
  groups : text.length % 4 = 0
  padded : ∃ body padding, text = body ++ List.replicate padding pad ∧ padding ≤ 2 ∧
    ∀ c ∈ body, ∃ sextet < 64, c = digit sextet

theorem digit_ne {x : Nat} (hx : x < 64) : digit x ≠ pad ∧ digit x ≠ 0 := by
  have byte : (digit x).toNat = 43 ∨ 47 ≤ (digit x).toNat ∧ (digit x).toNat ≠ 61 := by
    unfold digit
    rw [UInt8.toNat_ofNat']
    split_ifs <;> omega
  constructor <;> intro same <;> rw [same] at byte <;> revert byte <;> decide

variable {bytes : List UInt8}

theorem length_quantum (some : bytes ≠ []) : (quantum bytes).length = 4 := by
  match bytes with
  | [] => exact absurd rfl some
  | [_] | [_, _] | _ :: _ :: _ :: _ => rfl

theorem quantum_ne_zero (bytes : List UInt8) : ∀ c ∈ quantum bytes, c ≠ 0 := by
  have padding : pad ≠ 0 := by
    decide
  match bytes with
  | [] => simp [quantum]
  | [a] =>
    have byte := a.toNat_lt
    simp only [quantum, forall_mem_cons, not_mem_nil, false_implies, implies_true,
      and_true]
    exact ⟨(digit_ne (by omega)).2, (digit_ne (by omega)).2, padding, padding⟩
  | [a, b] =>
    have high := a.toNat_lt
    have low := b.toNat_lt
    simp only [quantum, forall_mem_cons, not_mem_nil, false_implies, implies_true,
      and_true]
    exact ⟨(digit_ne (by omega)).2, (digit_ne (by omega)).2, (digit_ne (by omega)).2, padding⟩
  | a :: b :: c :: _ =>
    have high := a.toNat_lt
    have middle := b.toNat_lt
    have low := c.toNat_lt
    simp only [quantum, forall_mem_cons, not_mem_nil, false_implies, implies_true,
      and_true]
    exact ⟨(digit_ne (by omega)).2, (digit_ne (by omega)).2, (digit_ne (by omega)).2,
      (digit_ne (by omega)).2⟩

/-- Encoding goes by groups of three bytes. -/
theorem encode_eq (bytes : List UInt8) :
    encode bytes =
      (List.range ((bytes.length + 2) / 3)).flatMap fun k => quantum (bytes.drop (3 * k)) := by
  induction bytes using encode.induct with
  | case1 => rfl
  | case2 a | case3 a b => simp [encode]
  | case4 a b c rest ih =>
    have count : ((a :: b :: c :: rest).length + 2) / 3 = (rest.length + 2) / 3 + 1 := by
      simp only [length_cons]
      omega
    rw [encode, ih, count, range_succ_eq_map, flatMap_cons,
      flatMap_map]
    rfl

theorem encode_length (bytes : List UInt8) :
    (encode bytes).length = 4 * ((bytes.length + 2) / 3) := by
  induction bytes using encode.induct with
  | case1 => rfl
  | case2 a | case3 a b => simp [encode, quantum]
  | case4 a b c rest ih =>
    rw [encode, length_append, ih, length_quantum (cons_ne_nil _ _)]
    simp only [length_cons]
    omega

theorem first_bytes (a b : UInt8) : first (a.toNat / 4) (a.toNat % 4 * 16 + b.toNat / 16) = a := by
  have small := b.toNat_lt
  apply UInt8.toNat_inj.mp
  rw [first, UInt8.toNat_ofNat']
  have byte := a.toNat_lt
  omega

theorem first_last (a : UInt8) : first (a.toNat / 4) (a.toNat % 4 * 16) = a := by
  apply UInt8.toNat_inj.mp
  rw [first, UInt8.toNat_ofNat']
  have byte := a.toNat_lt
  omega

theorem second_bytes (high : Nat) (b c : UInt8) :
    second (high * 16 + b.toNat / 16) (b.toNat % 16 * 4 + c.toNat / 64) = b := by
  have small := c.toNat_lt
  apply UInt8.toNat_inj.mp
  rw [second, UInt8.toNat_ofNat']
  have byte := b.toNat_lt
  omega

theorem second_last (high : Nat) (b : UInt8) :
    second (high * 16 + b.toNat / 16) (b.toNat % 16 * 4) = b := by
  apply UInt8.toNat_inj.mp
  rw [second, UInt8.toNat_ofNat']
  have byte := b.toNat_lt
  omega

theorem third_bytes (high : Nat) (c : UInt8) :
    third (high * 4 + c.toNat / 64) (c.toNat % 64) = c := by
  apply UInt8.toNat_inj.mp
  rw [third, UInt8.toNat_ofNat']
  have byte := c.toNat_lt
  omega

/-- A text that was encoded decodes to its bytes. -/
theorem decodes_encode (bytes : List UInt8) : Decodes (encode bytes) bytes := by
  induction bytes using encode.induct with
  | case1 => exact .nil
  | case2 a =>
    have byte := a.toNat_lt
    have decodes := Decodes.one (x := a.toNat / 4) (y := a.toNat % 4 * 16) (by omega) (by omega)
    rw [first_last] at decodes
    exact decodes
  | case3 a b =>
    have high := a.toNat_lt
    have low := b.toNat_lt
    have decodes := Decodes.two (x := a.toNat / 4) (y := a.toNat % 4 * 16 + b.toNat / 16)
      (z := b.toNat % 16 * 4) (by omega) (by omega) (by omega)
    rw [first_bytes, second_last] at decodes
    exact decodes
  | case4 a b c rest ih =>
    have high := a.toNat_lt
    have middle := b.toNat_lt
    have low := c.toNat_lt
    have decodes := Decodes.group (x := a.toNat / 4) (y := a.toNat % 4 * 16 + b.toNat / 16)
      (z := b.toNat % 16 * 4 + c.toNat / 64) (w := c.toNat % 64) (by omega) (by omega)
      (by omega) (by omega) ih
    rw [first_bytes, second_bytes, third_bytes] at decodes
    exact decodes

variable {text : List UInt8}

/-- Only a text decodes. -/
theorem Decodes.isText (decodes : Decodes text bytes) : IsText text := by
  induction decodes with
  | nil => exact ⟨rfl, [], 0, rfl, Nat.zero_le 2, by simp⟩
  | one hx hy =>
    refine ⟨Nat.mod_self 4, [digit _, digit _], 2, rfl, Nat.le_refl 2, ?_⟩
    simp only [forall_mem_cons, not_mem_nil, false_implies, implies_true, and_true]
    exact ⟨⟨_, hx, rfl⟩, ⟨_, hy, rfl⟩⟩
  | two hx hy hz =>
    refine ⟨Nat.mod_self 4, [digit _, digit _, digit _], 1, rfl, by decide, ?_⟩
    simp only [forall_mem_cons, not_mem_nil, false_implies, implies_true, and_true]
    exact ⟨⟨_, hx, rfl⟩, ⟨_, hy, rfl⟩, ⟨_, hz, rfl⟩⟩
  | group hx hy hz hw rest ih =>
    obtain ⟨groups, body, padding, rfl, few, alphabet⟩ := ih
    refine ⟨?_, _ :: _ :: _ :: _ :: body, padding, rfl, few, ?_⟩
    · simp only [length_cons]
      omega
    · simp only [forall_mem_cons]
      exact ⟨⟨_, hx, rfl⟩, ⟨_, hy, rfl⟩, ⟨_, hz, rfl⟩, ⟨_, hw, rfl⟩, alphabet⟩

theorem Decodes.length_le (decodes : Decodes text bytes) : bytes.length ≤ text.length / 4 * 3 := by
  induction decodes with
  | nil => exact Nat.le_refl 0
  | one | two => simp
  | group hx hy hz hw rest ih =>
    simp only [length_cons]
    omega

/-- Every text of whole groups decodes, by induction on the groups. -/
theorem exists_decodes : ∀ (body : List UInt8) (padding : Nat),
    (body.length + padding) % 4 = 0 → padding ≤ 2 → (∀ c ∈ body, ∃ sextet < 64, c = digit sextet) →
    ∃ bytes, Decodes (body ++ List.replicate padding pad) bytes
  | [], padding, groups, few, _ => by
      have none : padding = 0 := by
        rw [length_nil] at groups
        omega
      rw [none]
      exact ⟨[], .nil⟩
  | [a], padding, groups, few, _ => by
      rw [length_singleton] at groups
      omega
  | [a, b], padding, groups, few, alphabet => by
      have two : padding = 2 := by
        simp only [length_cons, length_nil] at groups
        omega
      obtain ⟨x, hx, rfl⟩ := alphabet a (by simp)
      obtain ⟨y, hy, rfl⟩ := alphabet b (by simp)
      rw [two]
      exact ⟨_, .one hx hy⟩
  | [a, b, c], padding, groups, few, alphabet => by
      have one : padding = 1 := by
        simp only [length_cons, length_nil] at groups
        omega
      obtain ⟨x, hx, rfl⟩ := alphabet a (by simp)
      obtain ⟨y, hy, rfl⟩ := alphabet b (by simp)
      obtain ⟨z, hz, rfl⟩ := alphabet c (by simp)
      rw [one]
      exact ⟨_, .two hx hy hz⟩
  | a :: b :: c :: d :: body, padding, groups, few, alphabet => by
      simp only [forall_mem_cons] at alphabet
      obtain ⟨⟨x, hx, rfl⟩, ⟨y, hy, rfl⟩, ⟨z, hz, rfl⟩, ⟨w, hw, rfl⟩, later⟩ := alphabet
      have shorter : (body.length + padding) % 4 = 0 := by
        simp only [length_cons] at groups
        omega
      obtain ⟨bytes, rest⟩ := exists_decodes body padding shorter few later
      exact ⟨_, .group hx hy hz hw rest⟩

theorem isText_iff : IsText text ↔ ∃ bytes, Decodes text bytes := by
  constructor
  · intro ⟨groups, body, padding, shape, few, alphabet⟩
    rw [shape, length_append, length_replicate] at groups
    rw [shape]
    exact exists_decodes body padding groups few alphabet
  · intro ⟨bytes, decodes⟩
    exact decodes.isText

end Base64
