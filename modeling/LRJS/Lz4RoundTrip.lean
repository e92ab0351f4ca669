import LRJS.Lz4
import Mathlib.Tactic.Linarith

/-!
# Round trips

What the compressor writes for a string of at least four bytes fits into the
declared bound and is decompressed to the same string.  A framed buffer comes
back exactly if its length fits into its header.
-/

namespace LRJS.Lz4

open Logged BackReferences List Option

/-- What is written for the bytes from a position on: sequences whose matches repeat what stands
before them, and the last literals. -/
inductive Encodes (src : Bytes) : Nat → Bytes → Prop
  | last {anchor : Nat} : anchor < src.length → Encodes src anchor (lastBytes (src.drop anchor))
  | sequence {anchor ip offset length : Nat} {behind : Bytes} :
      anchor ≤ ip → 0 < offset → offset ≤ ip → offset ≤ 65535 → minMatch ≤ length →
      ip + length < src.length → Repeats src ip offset length →
      Encodes src (ip + length) behind →
      Encodes src anchor (sequenceBytes (slice src anchor ip) offset length ++ behind)

variable {src : Bytes}

theorem length_slice {stop : Nat} (start : Nat) (inside : stop ≤ src.length) :
    (slice src start stop).length = stop - start := by
  rw [slice, length_drop, length_take, Nat.min_eq_left inside]

theorem take_append_slice (src : Bytes) {start stop : Nat} (ordered : start ≤ stop) :
    src.take start ++ slice src start stop = src.take stop := by
  have early : src.take start = (src.take stop).take start := by
    rw [take_take, Nat.min_eq_left ordered]
  rw [slice, early, take_append_drop]

theorem length_extension (length : Nat) :
    (extension length).length = if 15 ≤ length then (length - 15) / 255 + 1 else 0 := by
  unfold extension extensionBytes
  split
  · rw [length_append, length_replicate, length_singleton]
  · rfl

theorem length_extension_le (length : Nat) : (extension length).length ≤ length / 255 + 1 := by
  rw [length_extension]
  split <;> omega

theorem length_sequenceBytes (literals : Bytes) (offset matchLen : Nat) :
    (sequenceBytes literals offset matchLen).length =
      literals.length + (extension literals.length).length +
        (extension (matchLen - minMatch)).length + 3 := by
  unfold sequenceBytes
  simp only [length_append, length_cons, length_nil]
  omega

theorem extendMatch_repeats {ip offset length : Nat} (fuel : Nat)
    (inside : ip + length < src.length) (repeats : Repeats src ip offset length) :
    ∃ longer, extendMatch src ip fuel (ip + length) (ip - offset + length) = ip + longer ∧
      length ≤ longer ∧ ip + longer < src.length ∧ Repeats src ip offset longer := by
  induction fuel generalizing length with
  | zero => exact ⟨length, rfl, Nat.le_refl _, inside, repeats⟩
  | succ fuel ih =>
    unfold extendMatch
    split
    · next more =>
        have longer : Repeats src ip offset (length + 1) := by
          intro k less
          cases Nat.lt_or_eq_of_le (Nat.le_of_lt_succ less) with
          | inl before => exact repeats k before
          | inr last => exact last ▸ more.2.2
        have room : ip + (length + 1) < src.length := by
          have limit := more.1
          unfold minMatch at limit
          omega
        obtain ⟨found, same, further, rest⟩ := ih room longer
        exact ⟨found, same, Nat.le_of_succ_le further, rest⟩
    · exact ⟨length, rfl, Nat.le_refl _, inside, repeats⟩

theorem sameWord_repeats {ip ref : Nat} (earlier : ref ≤ ip)
    (same : sameWord src ip ref = true) : Repeats src ip (ip - ref) minMatch := by
  obtain ⟨zeroth, first, second, third⟩ := of_decide_eq_true same
  have back : ip - (ip - ref) = ref := Nat.sub_sub_self earlier
  intro k less
  rw [back]
  match k with
  | 0 => exact zeroth
  | 1 => exact first
  | 2 => exact second
  | 3 => exact third
  | k + 4 => exact absurd less (Nat.not_lt.mpr (Nat.le_add_left 4 k))

/-- What is written goes on to an encoding of the whole string, within the bound for what it stands
for. -/
structure Compressing (src : Bytes) (s : State) : Prop where
  ordered : s.anchor ≤ s.ip
  inside : s.anchor < src.length
  advancing : 0 < s.step
  earlier : ∀ h, s.hash_table h < s.ip
  emitted : ∀ behind, Encodes src s.anchor behind → Encodes src 0 (s.out ++ behind)
  short : s.out.length ≤ s.anchor + s.anchor / 255

theorem update_earlier {hash_table : Nat → Int} {ip later : Nat} (forward : ip < later)
    (earlier : ∀ h, hash_table h < ip) (place : Nat) :
    ∀ h, Function.update hash_table place ((ip : Int).bmod 4294967296) h < later := by
  intro h
  have truncated : (ip : Int).bmod 4294967296 ≤ ip := by
    unfold Int.bmod
    dsimp only
    split <;> omega
  by_cases same : h = place
  · rw [same, Function.update_self]
    omega
  · have before := earlier h
    rw [Function.update_of_ne same]
    omega

/-- A turn of the compressor goes on in the source and encodes what it has passed. -/
theorem compressStep_compressing {s : State} (compressing : Compressing src s)
    (more : s.ip + lastLiterals < src.length) :
    ∃ s', compressStep src s = some s' ∧ Compressing src s' ∧ s.ip < s'.ip := by
  have limit : s.ip + 5 < src.length := more
  have ordered := compressing.ordered
  have short := compressing.short
  unfold compressStep
  dsimp only
  split
  · next found =>
      obtain ⟨present, near, same⟩ := found
      have before := compressing.earlier (lz4_hash (lz4_read32 src s.ip))
      generalize s.hash_table (lz4_hash (lz4_read32 src s.ip)) = position at *
      obtain ⟨ref, rfl⟩ := Int.eq_ofNat_of_zero_le present
      rw [Int.toNat_natCast] at same ⊢
      unfold maxDistance at near
      have earlier : ref < s.ip := by omega
      have start : s.ip + minMatch < src.length := by
        unfold minMatch
        omega
      have back : ref = s.ip - (s.ip - ref) := by omega
      have extended := extendMatch_repeats src.length start
        (sameWord_repeats (Nat.le_of_lt earlier) same)
      rw [← back] at extended
      obtain ⟨length, matched, atLeast, inside, repeats⟩ := extended
      have literals := length_slice s.anchor (Nat.le_of_lt (Nat.lt_of_add_right_lt inside))
      have fits : ¬compressBound src.length <
          s.out.length + 1 + (slice src s.anchor s.ip).length := by
        unfold compressBound
        omega
      rw [if_neg fits, matched, Nat.add_sub_cancel_left]
      refine ⟨_, rfl, ⟨Nat.le_refl _, inside, ?_, ?_, ?_, ?_⟩, ?_⟩
      · exact Nat.lt_of_lt_of_le (by decide) atLeast
      · exact update_earlier (Nat.lt_add_of_pos_right (Nat.lt_of_lt_of_le (by decide) atLeast))
          compressing.earlier _
      · intro behind encodes
        rw [append_assoc]
        apply compressing.emitted
        apply Encodes.sequence ordered (Nat.sub_pos_of_lt earlier) (Nat.sub_le _ _) (by omega)
          atLeast inside repeats encodes
      · rw [length_append, length_sequenceBytes, literals]
        have written := length_extension_le (s.ip - s.anchor)
        have copied := length_extension (length - minMatch)
        unfold minMatch at atLeast copied ⊢
        dsimp only
        split at copied <;> omega
      · exact Nat.lt_add_of_pos_right (Nat.lt_of_lt_of_le (by decide) atLeast)
  · have forward : s.ip < s.ip + s.step := Nat.lt_add_of_pos_right compressing.advancing
    exact ⟨_, rfl, ⟨Nat.le_trans ordered (Nat.le_of_lt forward), compressing.inside,
      Nat.succ_pos _, update_earlier forward compressing.earlier _, compressing.emitted, short⟩,
      forward⟩

theorem compressLoop_compressing {fuel : Nat} {s : State}
    (compressing : Compressing src s) (enough : src.length - s.ip < fuel) :
    ∃ s', compressLoop src fuel s = some s' ∧ Compressing src s' := by
  induction fuel generalizing s with
  | zero => exact absurd enough (Nat.not_lt_zero _)
  | succ fuel ih =>
    unfold compressLoop
    split
    · next more =>
        obtain ⟨s', step, kept, forward⟩ := compressStep_compressing compressing more
        rw [step]
        exact ih kept (by omega)
    · exact ⟨s, rfl, compressing⟩

/-- The compressor encodes every source of at least four bytes, within its bound. -/
theorem compress_encodes (enough : minMatch ≤ src.length) :
    ∃ compressed, lr_lz4_compress src = some compressed ∧
      compressed.length ≤ compressBound src.length ∧ Encodes src 0 compressed := by
  have nonempty : 0 < src.length := Nat.lt_of_lt_of_le (by decide) enough
  have start : Compressing src ⟨0, 0, fun _ => -1, 1, 1, []⟩ :=
    ⟨Nat.le_refl _, nonempty, Nat.one_pos, fun _ => Int.negSucc_lt_zero 0, fun _ encodes => encodes,
      Nat.le_refl _⟩
  obtain ⟨s, run, compressing⟩ := compressLoop_compressing start (Nat.lt_succ_self src.length)
  have short := compressing.short
  have inside := compressing.inside
  have written := length_extension_le (src.length - s.anchor)
  have left : src.drop s.anchor ≠ [] := ne_nil_of_length_pos (by
    rw [length_drop]
    exact Nat.sub_pos_of_lt inside)
  have fits : ¬compressBound src.length < s.out.length + 1 + (src.drop s.anchor).length := by
    rw [length_drop]
    unfold compressBound
    omega
  unfold lr_lz4_compress
  rw [if_neg (Nat.not_lt.mpr enough), run]
  refine ⟨s.out ++ lastBytes (src.drop s.anchor), if_neg fun full => fits full.2, ?_,
    compressing.emitted _ (.last inside)⟩
  unfold lastBytes compressBound
  rw [if_neg left, length_append, length_append, length_cons, length_drop]
  omega

section Reading

variable {fresh : Nat → UInt8} {capacity size : Nat}

variable {length : Nat}

theorem readExtension_extensionBytes {count last : Nat} (small : last < 255)
    (rest : Bytes) (next : Nat → Bytes → Course Access (Nat × Bytes)) :
    (readExtension size (List.replicate count 255 ++ UInt8.ofNat last :: rest) length next).result =
      (next (length + (255 * count + last)) rest).result := by
  induction count generalizing length with
  | zero =>
    have byte : (UInt8.ofNat last).toNat = last :=
      UInt8.toNat_ofNat_of_lt (Nat.lt_succ_of_lt small)
    have smaller : UInt8.ofNat last ≠ 255 := by
      intro full
      have same := congrArg UInt8.toNat full
      rw [byte] at same
      exact Nat.ne_of_lt small same
    unfold readExtension
    rw [replicate_zero, nil_append]
    dsimp only
    rw [if_neg smaller, byte, Nat.mul_zero, Nat.zero_add]
    rfl
  | succ count ih =>
    apply ih.trans
    congr 2
    omega

theorem readLength_extension (length base : Nat) (rest : Bytes)
    (next : Nat → Bytes → Course Access (Nat × Bytes)) :
    (readLength size (min length 15) (min length 15 + base) (extension length ++ rest)
      next).result = (next (length + base) rest).result := by
  unfold readLength extension
  by_cases full : 15 ≤ length
  · rw [Nat.min_eq_right full, if_pos rfl, if_pos full, extensionBytes, append_assoc]
    apply (readExtension_extensionBytes (Nat.mod_lt _ (by decide)) rest next).trans
    congr 2
    omega
  · have small : min length 15 = length := Nat.min_eq_left (by omega)
    rw [small, if_neg (by omega), if_neg full, nil_append]

theorem toNat_tokenByte (literals extra : Nat) :
    (tokenByte literals extra).toNat = 16 * min literals 15 + min extra 15 :=
  UInt8.toNat_ofNat_of_lt (by
    change _ < 256
    omega)

theorem decodeMatch_encoded {offset token : Nat} {out : Bytes} (rest : Bytes)
    {next : Bytes → Bytes → Course Access (Nat × Bytes)} (within : offset ≤ out.length)
    (far : offset ≤ 65535) (atLeast : minMatch ≤ length) (fits : out.length + length ≤ capacity)
    (nibble : token % 16 = min (length - minMatch) 15) :
    (decodeMatch fresh capacity size token ([UInt8.ofNat (offset % 256),
      UInt8.ofNat (offset / 256 % 256)] ++ extension (length - minMatch) ++ rest) out next).result =
      (next rest (copyBack fresh offset length out)).result := by
  have low : (UInt8.ofNat (offset % 256)).toNat = offset % 256 :=
    UInt8.toNat_ofNat_of_lt (Nat.mod_lt _ (by decide))
  have high : (UInt8.ofNat (offset / 256 % 256)).toNat = offset / 256 % 256 :=
    UInt8.toNat_ofNat_of_lt (Nat.mod_lt _ (by decide))
  have whole : offset % 256 + 256 * (offset / 256 % 256) = offset := by omega
  unfold decodeMatch
  dsimp only [cons_append, nil_append]
  rw [low, high, whole, nibble]
  apply (readLength_extension _ _ rest _).trans
  rw [Nat.sub_add_cancel atLeast, if_neg (Nat.not_lt.mpr within), if_neg (Nat.not_lt.mpr fits)]
  rfl

theorem decompressLoop_token {fuel extra : Nat} {literals out behind : Bytes}
    (fits : out.length + literals.length ≤ capacity) :
    (decompressLoop fresh capacity size (fuel + 1)
      (tokenByte literals.length extra :: extension literals.length ++ literals ++ behind)
        out).result =
      (if behind = [] then
        .done ((out ++ literals).length, out ++ literals)
      else
        decodeMatch fresh capacity size (16 * min literals.length 15 + min extra 15) behind
          (out ++ literals) (decompressLoop fresh capacity size fuel)).result := by
  have nibble : (16 * min literals.length 15 + min extra 15) / 16 = min literals.length 15 := by
    omega
  have room : ¬((literals ++ behind).length < literals.length ∨
      capacity < out.length + literals.length) := by
    rw [length_append]
    omega
  rw [append_assoc, cons_append]
  unfold decompressLoop
  dsimp only
  rw [toNat_tokenByte, nibble]
  apply (readLength_extension literals.length 0 (literals ++ behind) _).trans
  rw [Nat.add_zero, if_neg room, take_left, drop_left]
  rfl

/-- What is encoded is decompressed to the source. -/
theorem decompressLoop_encodes {src bytes : Bytes} {anchor fuel : Nat}
    (encodes : Encodes src anchor bytes) (enough : bytes.length < fuel) :
    (decompressLoop fresh src.length size fuel bytes (src.take anchor)).result =
      some (src.length, src) := by
  induction encodes generalizing fuel with
  | @last anchor inside =>
    have left : src.drop anchor ≠ [] := ne_nil_of_length_pos (by
      rw [length_drop]
      exact Nat.sub_pos_of_lt inside)
    rw [lastBytes, if_neg left] at enough ⊢
    cases fuel with
    | zero => exact absurd enough (Nat.not_lt_zero _)
    | succ fuel =>
      rw [← append_nil (_ ++ src.drop anchor)]
      apply (decompressLoop_token (by
        rw [length_take, length_drop]
        omega)).trans
      rw [if_pos rfl, take_append_drop]
      rfl
  | @sequence anchor ip offset length behind ordered positive within far atLeast inside repeats
      encodes ih =>
      have literals := length_slice anchor (Nat.le_of_lt (Nat.lt_of_add_right_lt inside))
      have reached : (src.take ip).length = ip := by
        rw [length_take]
        omega
      rw [length_append, length_sequenceBytes] at enough
      cases fuel with
      | zero => exact absurd enough (Nat.not_lt_zero _)
      | succ fuel =>
        rw [sequenceBytes, append_assoc, append_assoc]
        apply (decompressLoop_token (by
          rw [literals, length_take]
          omega)).trans
        rw [if_neg (append_ne_nil_of_left_ne_nil (cons_ne_nil _ _) _),
          take_append_slice src ordered, ← append_assoc]
        apply (decodeMatch_encoded behind (by omega) far atLeast (by omega) (by omega)).trans
        rw [copyBack_take fresh positive within (Nat.le_of_lt inside) repeats]
        exact ih (by omega)

def Bounded (capacity : Nat) (run : Course Access (Nat × Bytes)) : Prop :=
  run.Obeys (fun _ => True) (fun _ => True) fun r => r.2.length ≤ capacity

theorem bounded_log {event : Access} {next : Course Access (Nat × Bytes)}
    (bounded : Bounded capacity next) : Bounded capacity (.log event next) :=
  Course.Obeys.log (fun _ => trivial) (fun _ => bounded)

section

variable {rest : Bytes} {next : Nat → Bytes → Course Access (Nat × Bytes)}
    (continues : ∀ length rest, Bounded capacity (next length rest))
include continues

theorem bounded_readExtension : Bounded capacity (readExtension size rest length next) := by
  induction rest generalizing length with
  | nil => exact bounded_log Course.obeys_diverge
  | cons byte rest ih =>
    apply bounded_log
    split
    · exact ih
    · exact continues _ _

theorem bounded_readLength {nibble : Nat} :
    Bounded capacity (readLength size nibble length rest next) := by
  unfold readLength
  split
  · exact bounded_readExtension continues
  · exact continues _ _

end

/-- Decompression never gives more than the capacity. -/
theorem bounded_decompressLoop {fuel : Nat} {rest out : Bytes} (room : out.length ≤ capacity) :
    Bounded capacity (decompressLoop fresh capacity size fuel rest out) := by
  induction fuel generalizing rest out with
  | zero => exact Course.obeys_diverge
  | succ fuel ih =>
    cases rest with
    | nil => exact Course.obeys_done room
    | cons byte rest =>
      apply bounded_log
      apply bounded_readLength
      intro lit_len rest
      dsimp only
      split
      · exact Course.obeys_done room
      next admitted =>
        have taken : (out ++ rest.take lit_len).length ≤ capacity := by
          rw [length_append, length_take]
          omega
        apply bounded_log
        apply bounded_log
        split
        · exact Course.obeys_done taken
        · unfold decodeMatch
          split
          · apply bounded_log
            apply bounded_readLength
            intro match_len rest
            split
            · exact Course.obeys_done taken
            · split
              · exact Course.obeys_done taken
              · apply bounded_log
                apply bounded_log
                apply ih
                rw [length_copyBack]
                omega
          · exact Course.obeys_done taken

end Reading

def FramedReturns (fresh : Nat → UInt8) (enough : Nat → Nat → Bool) (data : Bytes) : Prop :=
  (lr_decompress_if_needed fresh (lr_compress_if_beneficial enough data).1
    (lr_compress_if_beneficial enough data).2).result = some (some data)

theorem compress_if_beneficial_cases (enough : Nat → Nat → Bool) (data : Bytes) :
    lr_compress_if_beneficial enough data = (data, false) ∨
      ∃ compressed, lr_compress_if_beneficial enough data =
        (header (data.length % 4294967296) ++ compressed, true) ∧ Encodes data 0 compressed := by
  unfold lr_compress_if_beneficial
  split
  · exact Or.inl rfl
  next long =>
    have atLeast : minMatch ≤ data.length := by
      unfold minMatch
      omega
    obtain ⟨compressed, same, _, encodes⟩ := compress_encodes atLeast
    rw [same]
    dsimp only
    split
    · exact Or.inr ⟨compressed, rfl, encodes⟩
    · exact Or.inl rfl

theorem compress_if_beneficial_compresses {enough : Nat → Nat → Bool} {data : Bytes}
    (always : ∀ compressed original, enough compressed original = true)
    (long : 64 ≤ data.length) : (lr_compress_if_beneficial enough data).2 = true := by
  have atLeast : minMatch ≤ data.length := by
    unfold minMatch
    omega
  obtain ⟨compressed, same, _⟩ := compress_encodes atLeast
  unfold lr_compress_if_beneficial
  rw [if_neg (Nat.not_lt.mpr long), same]
  dsimp only
  rw [if_pos (always _ _)]

theorem decompress_if_needed_header (fresh : Nat → UInt8) {length : Nat} (block : Bytes)
    (small : length < 4294967296) :
    (lr_decompress_if_needed fresh (header length ++ block) true).result =
      (lr_lz4_decompress fresh block length).result.bind fun r =>
        some (if r.1 = length then some r.2 else none) := by
  have byte : ∀ n, (UInt8.ofNat (n % 256)).toNat = n % 256 := fun n =>
    UInt8.toNat_ofNat_of_lt (Nat.mod_lt _ (by decide))
  have stored : length % 256 + 256 * (length / 256 % 256) + 65536 * (length / 65536 % 256) +
      16777216 * (length / 16777216 % 256) = length := by
    omega
  apply (Course.result_andThen _ _).trans
  rw [byte, byte, byte, byte, stored]
  rfl

/-- A framed buffer comes back exactly if it was not compressed or its length fits into the
header. -/
theorem framed_returns_iff (fresh : Nat → UInt8) (enough : Nat → Nat → Bool) (data : Bytes) :
    FramedReturns fresh enough data ↔
      ((lr_compress_if_beneficial enough data).2 = true → data.length < 4294967296) := by
  unfold FramedReturns
  obtain same | ⟨compressed, same, encodes⟩ := compress_if_beneficial_cases enough data
  · rw [same]
    exact iff_of_true rfl (fun impossible => by cases impossible)
  · rw [same]
    rw [decompress_if_needed_header fresh compressed (Nat.mod_lt _ (by decide))]
    constructor
    · intro returns _
      obtain ⟨r, found, whole⟩ := bind_eq_some_iff.mp returns
      have bounded : r.2.length ≤ data.length % 4294967296 :=
        (bounded_decompressLoop (Nat.zero_le _) (fun _ _ => trivial)).2 r found
      have kept := some.inj whole
      split at kept
      · rw [← some.inj kept]
        exact Nat.lt_of_le_of_lt bounded (Nat.mod_lt _ (by decide))
      · cases kept
    · intro small
      have found : (lr_lz4_decompress fresh compressed data.length).result =
          some (data.length, data) := decompressLoop_encodes encodes (Nat.lt_succ_self _)
      rw [Nat.mod_eq_of_lt (small rfl), found, bind_some, if_pos rfl]

/-- At least four bytes come back from what the compressor writes within its bound, and so does the
empty string; one to three bytes are refused.  A framed buffer comes back unless its length does not
fit into its header. -/
theorem lz4_round_trip (fresh : Nat → UInt8) :
    (∀ src, lr_lz4_compress src = none ↔ src.length < minMatch) ∧
      (∀ src, src = [] ∨ minMatch ≤ src.length →
        ((lr_lz4_compress src).getD []).length ≤ compressBound src.length ∧
          (lr_lz4_decompress fresh ((lr_lz4_compress src).getD []) src.length).result =
            some (src.length, src)) ∧
      ∀ enough data, FramedReturns fresh enough data ↔
        ((lr_compress_if_beneficial enough data).2 = true → data.length < 4294967296) := by
  refine ⟨fun src => ⟨fun refused => ?_, fun short => if_pos short⟩, fun src admitted => ?_,
    framed_returns_iff fresh⟩
  · by_contra long
    obtain ⟨compressed, same, _⟩ := compress_encodes (Nat.not_lt.mp long)
    rw [refused] at same
    cases same
  · cases admitted with
    | inl empty =>
      rw [empty]
      exact ⟨Nat.zero_le _, rfl⟩
    | inr long =>
      obtain ⟨compressed, same, bound, encodes⟩ := compress_encodes long
      rw [same]
      exact ⟨bound, decompressLoop_encodes encodes (Nat.lt_succ_self _)⟩

/-- One byte is refused and does not come back; neither does a framed buffer of 2 ^ 32 bytes. -/
theorem short_string_refused :
    (lr_lz4_decompress (fun _ => 0) ((lr_lz4_compress [65]).getD []) 1).result = some (0, []) ∧
      ¬FramedReturns (fun _ => 0) (fun _ _ => true) (List.replicate 4294967296 65) := by
  constructor
  · rfl
  · rw [framed_returns_iff]
    intro small
    have length : (replicate 4294967296 (65 : UInt8)).length = 4294967296 :=
      length_replicate
    have fits := small (compress_if_beneficial_compresses (fun _ _ => rfl) (by omega))
    omega

end LRJS.Lz4
