import LRJS.Lz4

/-!
# Safety of the decompressor

The decompressor stays inside its buffers exactly if every length that is
extended ends inside the input, and no match that would be copied has the
offset 0.
-/

namespace LRJS.Lz4

open Logged BackReferences Course

def splitExtension : Bytes → Nat → Option (Nat × Bytes)
  | [], _ => none
  | byte :: rest, length =>
    if byte = 255 then splitExtension rest (length + 255)
    else some (length + byte.toNat, rest)

def splitLength (nibble length : Nat) (rest : Bytes) : Option (Nat × Bytes) :=
  if nibble = 15 then splitExtension rest length else some (length, rest)

/-- A match behind `written` bytes: its length ends in the input, and unless it is refused its
offset is not 0 and the rest is regular. -/
def RegularMatch (capacity token written : Nat) (regular : Bytes → Nat → Prop) :
    Bytes → Prop
  | low :: high :: rest =>
    ∃ r, splitLength (token % 16) (token % 16 + minMatch) rest = some r ∧
      (written < low.toNat + 256 * high.toNat ∨ capacity < written + r.1 ∨
        low.toNat + 256 * high.toNat ≠ 0 ∧ regular r.2 (written + r.1))
  | _ => True

/-- The length of the literals ends in the input, and unless they are refused or the last ones the
match behind them is regular. -/
def RegularFrom (capacity : Nat) : Nat → Bytes → Nat → Prop
  | 0, _, _ => False
  | _ + 1, [], _ => True
  | fuel + 1, byte :: rest, written =>
    ∃ r, splitLength (byte.toNat / 16) (byte.toNat / 16) rest = some r ∧
      (r.2.length < r.1 ∨ capacity < written + r.1 ∨ r.2.drop r.1 = [] ∨
        RegularMatch capacity byte.toNat (written + r.1) (RegularFrom capacity fuel)
          (r.2.drop r.1))

/-- Every length that the decompressor comes to ends in the input, and no match that it would
copy has the offset 0. -/
def Regular (src : Bytes) (capacity : Nat) : Prop :=
  RegularFrom capacity (src.length + 1) src 0

def Access.InBounds (size capacity : Nat) : Access → Prop
  | .read start length => start + length ≤ size
  | .write start length => start + length ≤ capacity
  | .copyMatch written offset _ => 0 < offset ∧ offset ≤ written

section Safety

variable {size capacity : Nat} {fresh : Nat → UInt8} {post : Nat × Bytes → Prop}

def SafeWithin (size capacity : Nat) (post : Nat × Bytes → Prop)
    (run : Course Access (Nat × Bytes)) : Prop :=
  run.Succeeds (Access.InBounds size capacity) post

variable {rest : Bytes} {length : Nat}

theorem splitExtension_length {rest' : Bytes} {length' : Nat}
    (split : splitExtension rest length = some (length', rest')) : rest'.length < rest.length := by
  induction rest generalizing length with
  | nil => cases split
  | cons byte rest ih =>
    unfold splitExtension at split
    split at split
    · exact Nat.lt_succ_of_lt (ih split)
    · cases split
      exact Nat.lt_succ_self _

theorem splitLength_length {nibble length' : Nat} {rest' : Bytes}
    (split : splitLength nibble length rest = some (length', rest')) :
    rest'.length ≤ rest.length := by
  unfold splitLength at split
  split at split
  · exact Nat.le_of_lt (splitExtension_length split)
  · cases split
    exact Nat.le_refl _

theorem safe_log {event : Access} {next : Course Access (Nat × Bytes)}
    (inside : event.InBounds size capacity) :
    SafeWithin size capacity post (.log event next) ↔ SafeWithin size capacity post next :=
  succeeds_log.trans (and_iff_right inside)

section

variable {next : Nat → Bytes → Course Access (Nat × Bytes)} (bound : rest.length ≤ size)
include bound

theorem safe_readExtension :
    SafeWithin size capacity post (readExtension size rest length next) ↔
      ∃ r, splitExtension rest length = some r ∧ SafeWithin size capacity post (next r.1 r.2) := by
  induction rest generalizing length with
  | nil =>
    constructor
    · intro safe
      exact absurd (succeeds_log.mp safe).2 not_succeeds_diverge
    · rintro ⟨r, impossible, _⟩
      cases impossible
  | cons byte rest ih =>
    have bound : rest.length + 1 ≤ size := bound
    have inside : (Access.read (size - (rest.length + 1)) 1).InBounds size capacity := by
      change size - (rest.length + 1) + 1 ≤ size
      omega
    unfold readExtension splitExtension
    rw [safe_log inside]
    split
    · exact ih (by omega)
    · constructor
      · exact fun safe => ⟨_, rfl, safe⟩
      · rintro ⟨r, same, safe⟩
        cases same
        exact safe

/-- A length is read safely exactly if its bytes are there. -/
theorem safe_readLength {nibble : Nat} :
    SafeWithin size capacity post (readLength size nibble length rest next) ↔
      ∃ r, splitLength nibble length rest = some r ∧
        SafeWithin size capacity post (next r.1 r.2) := by
  unfold readLength splitLength
  split
  · exact safe_readExtension bound
  · constructor
    · exact fun safe => ⟨_, rfl, safe⟩
    · rintro ⟨r, same, safe⟩
      cases same
      exact safe

end

theorem safe_error (admits : ∀ r : Nat × Bytes, r.1 ≤ capacity → post r) (out : Bytes) :
    SafeWithin size capacity post (.done (0, out)) :=
  succeeds_done.mpr (admits _ (Nat.zero_le capacity))

theorem exists_split_iff {split : Option (Nat × Bytes)} {safe regular : Nat × Bytes → Prop}
    (same : ∀ r, split = some r → (safe r ↔ regular r)) :
    (∃ r, split = some r ∧ safe r) ↔ ∃ r, split = some r ∧ regular r := by
  constructor
  · rintro ⟨r, found, holds⟩
    exact ⟨r, found, (same r found).mp holds⟩
  · rintro ⟨r, found, holds⟩
    exact ⟨r, found, (same r found).mpr holds⟩

section

variable {out : Bytes} (admits : ∀ r : Nat × Bytes, r.1 ≤ capacity → post r)
include admits

/-- A match is copied safely exactly if it is regular. -/
theorem safe_decodeMatch {token : Nat} {regular : Bytes → Nat → Prop}
    {next : Bytes → Bytes → Course Access (Nat × Bytes)} (bound : rest.length ≤ size)
    (continues : ∀ rest' out', rest'.length < rest.length → out'.length ≤ capacity →
      (SafeWithin size capacity post (next rest' out') ↔ regular rest' out'.length)) :
    SafeWithin size capacity post (decodeMatch fresh capacity size token rest out next) ↔
      RegularMatch capacity token out.length regular rest := by
  match rest with
  | [] | [_] => exact iff_of_true (safe_error admits out) trivial
  | low :: high :: rest =>
    have bound : rest.length + 2 ≤ size := bound
    have inside : (Access.read (size - (rest.length + 2)) 2).InBounds size capacity := by
      change size - (rest.length + 2) + 2 ≤ size
      omega
    apply (safe_log inside).trans
    apply (safe_readLength (by omega)).trans
    apply exists_split_iff
    intro r split
    obtain ⟨match_len, rest'⟩ := r
    have shorter : rest'.length < rest.length + 2 :=
      Nat.lt_add_right 1 (Nat.lt_succ_of_le (splitLength_length split))
    split_ifs with before beyond
    · exact iff_of_true (safe_error admits out) (.inl before)
    · exact iff_of_true (safe_error admits out) (.inr (.inl beyond))
    · have fits : (Access.write out.length match_len).InBounds size capacity :=
        Nat.not_lt.mp beyond
      have room : (copyBack fresh (low.toNat + 256 * high.toNat) match_len out).length ≤
          capacity := by
        rw [length_copyBack]
        exact fits
      rw [or_iff_right before, or_iff_right beyond]
      apply succeeds_log.trans
      apply and_congr
      · exact ⟨fun both => Nat.ne_of_gt both.1,
          fun positive => ⟨Nat.pos_of_ne_zero positive, Nat.not_lt.mp before⟩⟩
      · apply (safe_log fits).trans
        have behind := continues rest' _ shorter room
        rw [length_copyBack] at behind
        exact behind

/-- Decompression is safe exactly on regular input, by induction on the fuel. -/
theorem safe_decompressLoop {fuel : Nat} (enough : rest.length < fuel)
    (bound : rest.length ≤ size) (room : out.length ≤ capacity) :
    SafeWithin size capacity post (decompressLoop fresh capacity size fuel rest out) ↔
      RegularFrom capacity fuel rest out.length := by
  induction fuel generalizing rest out with
  | zero => exact absurd enough (Nat.not_lt_zero _)
  | succ fuel ih =>
    cases rest with
    | nil => exact iff_of_true (succeeds_done.mpr (admits _ room)) trivial
    | cons byte rest =>
      have bound : rest.length + 1 ≤ size := bound
      have enough : rest.length < fuel := Nat.lt_of_succ_lt_succ enough
      have inside : (Access.read (size - (rest.length + 1)) 1).InBounds size capacity := by
        change size - (rest.length + 1) + 1 ≤ size
        omega
      unfold decompressLoop RegularFrom
      rw [safe_log inside]
      apply (safe_readLength (by omega)).trans
      apply exists_split_iff
      intro r split
      obtain ⟨lit_len, rest'⟩ := r
      have shorter := splitLength_length split
      dsimp only
      by_cases refused : rest'.length < lit_len ∨ capacity < out.length + lit_len
      · rw [if_pos refused, ← or_assoc]
        exact iff_of_true (safe_error admits out) (.inl refused)
      have literals : (Access.read (size - rest'.length) lit_len).InBounds size capacity := by
        change size - rest'.length + lit_len ≤ size
        omega
      have fits : (Access.write out.length lit_len).InBounds size capacity := by
        change out.length + lit_len ≤ capacity
        omega
      have taken : (out ++ rest'.take lit_len).length = out.length + lit_len := by
        rw [List.length_append, List.length_take]
        omega
      rw [if_neg refused, ← or_assoc, or_iff_right refused]
      rw [safe_log literals, safe_log fits, ← taken]
      by_cases ended : rest'.drop lit_len = []
      · rw [if_pos ended]
        exact iff_of_true (succeeds_done.mpr (admits _ (taken ▸ fits))) (.inl ended)
      · rw [if_neg ended, or_iff_right ended]
        have dropped : (rest'.drop lit_len).length ≤ rest'.length := by
          rw [List.length_drop]
          omega
        apply safe_decodeMatch admits (by omega)
        intro rest'' out' less room'
        exact ih (by omega) (by omega) room'

end

end Safety

def storedLength : Bytes → Nat
  | b₀ :: b₁ :: b₂ :: b₃ :: _ =>
    b₀.toNat + 256 * b₁.toNat + 65536 * b₂.toNat + 16777216 * b₃.toNat
  | _ => 0

/-- The decompressor is safe on an input exactly if it is regular; so is the one for framed
buffers, on the block behind the header. -/
theorem decompress_safe (fresh : Nat → UInt8) :
    (∀ src capacity,
      (lr_lz4_decompress fresh src capacity).Succeeds (Access.InBounds src.length capacity)
        (fun r => r.1 ≤ capacity) ↔ Regular src capacity) ∧
    ∀ data was_compressed,
      (lr_decompress_if_needed fresh data was_compressed).Succeeds
        (Access.InBounds (data.length - 4) (storedLength data)) (fun _ => True) ↔
        (was_compressed = true → 4 ≤ data.length →
          Regular (data.drop 4) (storedLength data)) := by
  constructor
  · intro src capacity
    exact safe_decompressLoop (fun r bound => bound) (Nat.lt_succ_self _) (Nat.le_refl _)
      (Nat.zero_le capacity)
  · intro data was_compressed
    cases was_compressed with
    | false =>
      apply iff_of_true (succeeds_done.mpr trivial)
      intro impossible
      cases impossible
    | true =>
      match data with
      | b₀ :: b₁ :: b₂ :: b₃ :: block =>
        have long : 4 ≤ (b₀ :: b₁ :: b₂ :: b₃ :: block).length := by
          simp only [List.length_cons]
          omega
        apply succeeds_andThen.trans
        apply (safe_decompressLoop (fun r _ => succeeds_done.mpr trivial)
          (Nat.lt_succ_self _) (Nat.le_refl _) (Nat.zero_le _)).trans
        exact ⟨fun regular _ _ => regular, fun regular => regular rfl long⟩
      | [] | [_] | [_, _] | [_, _, _] =>
        apply iff_of_true (succeeds_done.mpr trivial)
        intro _ long
        simp at long

/-- A token that promises too much reads behind the input, and a match with the offset 0 copies what
is not written yet. -/
theorem reads_behind_input :
    ¬(lr_lz4_decompress (fun _ => 0) [0xF0] 64).Succeeds (Access.InBounds 1 64)
        (fun r => r.1 ≤ 64) ∧
      ¬(lr_lz4_decompress (fun _ => 0) [0x10, 65, 0, 0] 64).Succeeds (Access.InBounds 4 64)
        (fun r => r.1 ≤ 64) := by
  constructor
  · intro succeeds
    have inside : 1 + 1 ≤ 1 := succeeds.1 (.read 1 1) (by decide)
    omega
  · intro succeeds
    have inside : 0 < 0 ∧ 0 ≤ 1 := succeeds.1 (.copyMatch 1 0 4) (by decide)
    omega

end LRJS.Lz4
