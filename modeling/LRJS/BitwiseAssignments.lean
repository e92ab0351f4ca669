import LRJS.Assignments
import Mathlib.Tactic.Linarith

/-!
# Bitwise assignments

`eval_assign` has no branch for `<<=`, `>>=`, `>>>=`, `&=`, `|=` and `^=`, and stores the left value
again.  The opcode gives that value where the right one moves no bit of it.
-/

namespace LRJS

open Option LRValue Engine
namespace Assignments

section Words

variable {x y : BitVec 32} {k : Nat}

theorem and_eq_left_iff :
    x &&& y = x ↔ ∀ i, x.getLsbD i = true → y.getLsbD i = true := by
  constructor
  · intro same i set
    rw [← same, BitVec.getLsbD_and, Bool.and_eq_true] at set
    exact set.2
  · intro subset
    refine BitVec.eq_of_getLsbD_eq fun i _ => ?_
    rw [BitVec.getLsbD_and]
    exact Bool.and_eq_left_iff_imp.mpr (subset i)

theorem or_eq_left_iff :
    x ||| y = x ↔ ∀ i, y.getLsbD i = true → x.getLsbD i = true := by
  constructor
  · intro same i set
    rw [← same, BitVec.getLsbD_or, set, Bool.or_true]
  · intro subset
    refine BitVec.eq_of_getLsbD_eq fun i _ => ?_
    rw [BitVec.getLsbD_or]
    exact Bool.or_eq_left_iff_imp.mpr (subset i)

theorem xor_eq_left_iff : x ^^^ y = x ↔ y = 0#32 := by
  constructor
  · intro same
    have both := congrArg (x ^^^ ·) same
    rwa [← BitVec.xor_assoc, BitVec.xor_self, BitVec.zero_xor] at both
  · rintro rfl
    exact BitVec.xor_zero

theorem shiftLeft_eq_self_iff : x <<< k = x ↔ x = 0#32 ∨ k = 0 := by
  constructor
  · intro same
    refine or_iff_not_imp_right.mpr fun moves => BitVec.eq_of_getLsbD_eq fun i _ => ?_
    rw [BitVec.getLsbD_zero]
    induction i using Nat.strongRecOn with
    | ind i ih =>
      rw [← same, BitVec.getLsbD_shiftLeft]
      by_cases low : i < k
      · simp [low]
      · simp [ih (i - k) (by omega) (by omega)]
  · rintro (rfl | rfl)
    · exact BitVec.zero_shiftLeft k
    · exact BitVec.shiftLeft_zero x

theorem ushiftRight_eq_self_iff : x >>> k = x ↔ x = 0#32 ∨ k = 0 := by
  constructor
  · intro same
    refine or_iff_not_imp_right.mpr fun moves => ?_
    by_contra nonzero
    have half := congrArg BitVec.toNat same
    rw [BitVec.toNat_ushiftRight, Nat.shiftRight_eq_div_pow] at half
    have positive : 0 < x.toNat :=
      Nat.pos_of_ne_zero fun zero => nonzero (BitVec.eq_of_toNat_eq zero)
    exact (Nat.div_lt_self positive (Nat.one_lt_two_pow moves)).ne half
  · rintro (rfl | rfl)
    · exact BitVec.zero_ushiftRight
    · exact BitVec.ushiftRight_zero x

/-- A signed shift keeps a word exactly if it is 0 or -1 or the distance is 0. -/
theorem sshiftRight_eq_self_iff : x.sshiftRight k = x ↔ x = 0#32 ∨ x = -1#32 ∨ k = 0 := by
  constructor
  · intro same
    have floor := congrArg BitVec.toInt same
    rw [BitVec.toInt_sshiftRight, Int.shiftRight_eq_div_pow] at floor
    by_cases still : k = 0
    · exact .inr (.inr still)
    have divisor : (2 : Int) ≤ (2 ^ k : Nat) := by
      exact_mod_cast Nat.one_lt_two_pow still
    have parts := Int.mul_ediv_add_emod x.toInt (2 ^ k : Nat)
    have lower := Int.emod_nonneg x.toInt (show ((2 ^ k : Nat) : Int) ≠ 0 by omega)
    have upper := Int.emod_lt_of_pos x.toInt (show 0 < ((2 ^ k : Nat) : Int) by omega)
    rw [floor] at parts
    have bounds : -1 ≤ x.toInt ∧ x.toInt ≤ 0 := by
      constructor <;> nlinarith
    rcases (show x.toInt = 0 ∨ x.toInt = -1 by omega) with zero | ones
    · exact .inl (BitVec.eq_of_toInt_eq zero)
    · exact .inr (.inl (BitVec.eq_of_toInt_eq ones))
  · rintro (rfl | rfl | rfl)
    · exact BitVec.zero_sshiftRight
    · refine BitVec.eq_of_toInt_eq ?_
      rw [BitVec.toInt_sshiftRight]
      exact congrArg Int.negSucc (Nat.zero_shiftRight k)
    · exact BitVec.sshiftRight_zero
end Words
/-- The operator does not change the left one of two words. -/
def Unmoved (op : BinOp) (x y : BitVec 32) : Prop :=
  match op with
  | .bitAnd => ∀ i, x.getLsbD i = true → y.getLsbD i = true
  | .bitOr => ∀ i, y.getLsbD i = true → x.getLsbD i = true
  | .bitXor => y = 0#32
  | .shl | .shr => x = 0#32 ∨ y.toNat % 32 = 0
  | .sar => x = 0#32 ∨ x = -1#32 ∨ y.toNat % 32 = 0
  | _ => False

/-- The left operand is a number in the range of `int32_t`, without a fraction, that the right
one does not move. -/
def KeepsLeft (op : BinOp) (a b : LRValue) : Prop :=
  a.number? = some (.ofInt (lr_to_int32 a)) ∧
    Unmoved op (BitVec.ofInt 32 (lr_to_int32 a)) (BitVec.ofInt 32 (lr_to_int32 b))

section Left

variable {E : Engine} {s : EngineState} {op : BinOp} {a b : LRValue} {m n : Int}

/-- A bitwise operator keeps its left operand exactly if the right word does not move it. -/
theorem bitOp_eq_left_iff (bits : op.bitwise = true) (range : Double.InInt32 m) :
    bitOp op m n = m ↔ Unmoved op (BitVec.ofInt 32 m) (BitVec.ofInt 32 n) := by
  have word : (BitVec.ofInt 32 m).toInt = m := castInt32_of_inInt32 range
  have kept {x : BitVec 32} : x.toInt = m ↔ x = BitVec.ofInt 32 m := by
    conv_lhs => rw [← word]
    exact BitVec.toInt_inj
  cases op with
  | bitAnd => exact kept.trans and_eq_left_iff
  | bitOr => exact kept.trans or_eq_left_iff
  | bitXor => exact kept.trans xor_eq_left_iff
  | shl => exact kept.trans shiftLeft_eq_self_iff
  | sar => exact kept.trans sshiftRight_eq_self_iff
  | shr => exact kept.trans ushiftRight_eq_self_iff
  | _ => cases bits

theorem opcode_bits_ints (bits : op.bitwise = true) :
    opcode E s op (.int32 m) (.int32 n) = s.give (.int32 (bitOp op m n)) := by
  cases op <;> first | rfl | cases bits

theorem opcode_bits_bigints {p q : Addr} (bits : op.bitwise = true)
    (left : s.bigints p = some m) (right : s.bigints q = some n) :
    ∃ k, opcode E s op (.object p) (.object q) = s.giveBigint k := by
  rw [opcode_objects, bcv_binop_bigints op left right]
  cases op <;> first | exact ⟨_, rfl⟩ | cases bits

theorem inInt32_toInt32 (d : Double) : Double.InInt32 d.toInt32 := by
  unfold Double.InInt32 Double.toInt32
  split
  · split <;> omega
  · omega

theorem inInt32_of_number? {d : Double} (number : a.number? = some d) (range : InRange a) :
    Double.InInt32 (lr_to_int32 a) := by
  cases a with
  | int32 m => exact range
  | float64 x => exact inInt32_toInt32 x
  | _ => cases number

theorem number?_eq_self_iff {k : Int} (rangeK : Double.InInt32 k) (range : InRange a) :
    a.number? = some (.ofInt k) ↔
      a.number? = some (.ofInt (lr_to_int32 a)) ∧ k = lr_to_int32 a := by
  constructor
  · intro number
    have same : k = lr_to_int32 a := by
      cases a with
      | int32 m =>
        have exactM : Double.Exact m := Double.InInt32.exact range
        exact (Double.ofInt_injective exactM rangeK.exact (some.inj number)).symm
      | float64 d =>
        rw [show d = .ofInt k from some.inj number]
        exact (Double.toInt32_ofInt rangeK).symm
      | _ => cases number
    exact ⟨same ▸ number, same⟩
  · rintro ⟨number, rfl⟩
    exact number

theorem same_int32_iff {k : Int} :
    a.Same (.int32 k) ↔ a.number? = some (.ofInt k) := by
  unfold LRValue.Same
  cases number : a.number? with
  | none => exact iff_of_false id nofun
  | some d =>
    refine Iff.trans ?_ (some_inj.symm)
    refine ⟨?_, .inl⟩
    rintro (same | nans)
    · exact same
    · rw [Double.isNaN_ofInt] at nans
      cases nans.2

/-- The opcode gives the left operand back exactly where `KeepsLeft` says so. -/
theorem give_left_agrees_iff (clean : s.error = none) (range : InRange a)
    (bits : op.bitwise = true) :
    E.Agree (s.give a) (opcode E s op a b) ↔ KeepsLeft op a b := by
  by_cases bigints : (a.bigint? s).isSome ∧ (b.bigint? s).isSome
  · obtain ⟨x, foundX⟩ := isSome_iff_exists.mp bigints.1
    obtain ⟨y, foundY⟩ := isSome_iff_exists.mp bigints.2
    cases a <;> try cases foundX
    cases b <;> try cases foundY
    obtain ⟨k, result⟩ := opcode_bits_bigints (E := E) bits foundX foundY
    rw [result]
    exact iff_of_false (not_agree_bigint clean k) fun keeps => nomatch keeps.1
  · have result : opcode E s op a b =
        s.give (.int32 (bitOp op (lr_to_int32 a) (lr_to_int32 b))) := by
      by_cases ints : a.tag = .int32 ∧ b.tag = .int32
      · cases a <;> cases ints.1
        cases b <;> cases ints.2
        exact opcode_bits_ints bits
      · exact opcode_bits ⟨fun left right => ints ⟨left, right⟩,
          fun left => not_isSome_iff_eq_none.mp fun right => bigints ⟨left, right⟩⟩ bits
    have computed := inInt32_bitOp op (lr_to_int32 a) (lr_to_int32 b)
    rw [result, agree_give clean, same_int32_iff, number?_eq_self_iff computed range]
    unfold KeepsLeft
    refine and_congr_right fun number => ?_
    exact bitOp_eq_left_iff bits (inInt32_of_number? number range)

end Left

end Assignments
end LRJS
