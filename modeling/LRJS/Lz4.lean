import LRJS.Library.BackReferences
import LRJS.Library.Logged

/-!
# LZ4 blocks

`lr_lz4_compress`, `lr_lz4_decompress` and the wrappers around them
(`lr_compress.c`).  The decompressor logs its accesses to the two buffers; it
goes on only as long as it reads inside of its input.  Allocation failures
are left out, and addresses do not wrap.
-/

namespace LRJS.Lz4

open Logged BackReferences

abbrev Bytes := List UInt8

/-- `LR_LZ4_COMPRESS_BOUND`. -/
def compressBound (n : Nat) : Nat :=
  n + n / 255 + 16

/-- `LZ4_MIN_MATCH`. -/
def minMatch : Nat := 4

/-- `LZ4_LAST_LITERALS`. -/
def lastLiterals : Nat := 5

/-- `LZ4_MAX_DISTANCE`. -/
def maxDistance : Int := 65535

def byteAt (src : Bytes) (i : Nat) : Nat :=
  (src.getD i 0).toNat

def lz4_read32 (src : Bytes) (i : Nat) : Nat :=
  byteAt src i + 256 * byteAt src (i + 1) + 65536 * byteAt src (i + 2) +
    16777216 * byteAt src (i + 3)

def lz4_hash (val : Nat) : Nat :=
  val * 2654435761 % 4294967296 / 262144

def extensionBytes (length : Nat) : Bytes :=
  List.replicate (length / 255) 255 ++ [UInt8.ofNat (length % 255)]

def tokenByte (literals extra : Nat) : UInt8 :=
  UInt8.ofNat (16 * min literals 15 + min extra 15)

def extension (length : Nat) : Bytes :=
  if 15 ≤ length then extensionBytes (length - 15) else []

def sequenceBytes (literals : Bytes) (offset matchLen : Nat) : Bytes :=
  tokenByte literals.length (matchLen - minMatch) :: extension literals.length ++ literals ++
    [UInt8.ofNat (offset % 256), UInt8.ofNat (offset / 256 % 256)] ++
      extension (matchLen - minMatch)

def lastBytes (literals : Bytes) : Bytes :=
  if literals = [] then []
  else tokenByte literals.length 0 :: extension literals.length ++ literals

/-- The variables of the main loop; `-1` in the table is no position. -/
structure State where
  ip : Nat
  anchor : Nat
  hash_table : Nat → Int
  step : Nat
  search_match_nb : Nat
  out : Bytes

/-- Extend a match up to `matchlimit`, and no further than its own start. -/
def extendMatch (src : Bytes) (ip : Nat) : Nat → Nat → Nat → Nat
  | 0, mtch, _ => mtch
  | fuel + 1, mtch, ref_match =>
    if mtch + minMatch < src.length ∧ ref_match < ip ∧ src[mtch]? = src[ref_match]? then
      extendMatch src ip fuel (mtch + 1) (ref_match + 1)
    else
      mtch

def sameWord (src : Bytes) (ip ref : Nat) : Bool :=
  src[ip]? = src[ref]? ∧ src[ip + 1]? = src[ref + 1]? ∧
    src[ip + 2]? = src[ref + 2]? ∧ src[ip + 3]? = src[ref + 3]?

def slice (src : Bytes) (start stop : Nat) : Bytes :=
  (src.take stop).drop start

def compressStep (src : Bytes) (s : State) : Option State :=
  let h := lz4_hash (lz4_read32 src s.ip)
  let found := s.hash_table h
  -- positions are stored as `int`
  let hash_table := Function.update s.hash_table h ((s.ip : Int).bmod 4294967296)
  let ref := found.toNat
  if 0 ≤ found ∧ (s.ip : Int) - found ≤ maxDistance ∧ sameWord src s.ip ref then
    let mtch := extendMatch src s.ip src.length (s.ip + minMatch) (ref + minMatch)
    let literals := slice src s.anchor s.ip
    if compressBound src.length < s.out.length + 1 + literals.length then
      none
    else
      some ⟨mtch, mtch, hash_table, mtch - s.ip, 0,
        s.out ++ sequenceBytes literals (s.ip - ref) (mtch - s.ip)⟩
  else
    some ⟨s.ip + s.step, s.anchor, hash_table, (s.search_match_nb + 1) / 2 + 1,
      s.search_match_nb + 1, s.out⟩

/-- The main loop, as long as `ip < ilimit`. -/
def compressLoop (src : Bytes) : Nat → State → Option State
  | 0, _ => none
  | fuel + 1, s =>
    if s.ip + lastLiterals < src.length then
      (compressStep src s).bind (compressLoop src fuel)
    else
      some s

/-- `lr_lz4_compress`: what is written, or nothing when it returns 0. -/
def lr_lz4_compress (src : Bytes) : Option Bytes :=
  if src.length < minMatch then
    none
  else do
    let s ← compressLoop src (src.length + 1) ⟨0, 0, fun _ => -1, 1, 1, []⟩
    let literals := src.drop s.anchor
    if literals ≠ [] ∧ compressBound src.length < s.out.length + 1 + literals.length then
      none
    else
      some (s.out ++ lastBytes literals)

/-- Reads of the input, writes of the output, and copies of a match by the place behind the output,
the offset and the length. -/
inductive Access where
  | read (start length : Nat)
  | write (start length : Nat)
  | copyMatch (written offset length : Nat)
deriving DecidableEq

section Decompress

-- what stood in the output buffer before, its capacity, and the length of the input
variable (fresh : Nat → UInt8) (capacity size : Nat)

def readExtension {Value : Type} : Bytes → Nat → (Nat → Bytes → Course Access Value) →
    Course Access Value
  | [], _, _ => .log (.read size 1) .diverge
  | byte :: rest, length, next =>
    .log (.read (size - (rest.length + 1)) 1) <|
      if byte = 255 then readExtension rest (length + 255) next
      else next (length + byte.toNat) rest

def readLength {Value : Type} (nibble length : Nat) (rest : Bytes)
    (next : Nat → Bytes → Course Access Value) : Course Access Value :=
  if nibble = 15 then readExtension size rest length next else next length rest

def decodeMatch (token : Nat) (rest : Bytes) (out : Bytes)
    (next : Bytes → Bytes → Course Access (Nat × Bytes)) : Course Access (Nat × Bytes) :=
  match rest with
  | low :: high :: rest =>
    .log (.read (size - (rest.length + 2)) 2) <|
    let offset := low.toNat + 256 * high.toNat
    readLength size (token % 16) (token % 16 + minMatch) rest fun match_len rest =>
      if out.length < offset then
        .done (0, out)
      else if capacity < out.length + match_len then
        .done (0, out)
      else
        .log (.copyMatch out.length offset match_len) <|
        .log (.write out.length match_len) <|
        next rest (copyBack fresh offset match_len out)
  | _ => .done (0, out)

/-- The loop of `lr_lz4_decompress` over what is left of the input. -/
def decompressLoop : Nat → Bytes → Bytes → Course Access (Nat × Bytes)
  | 0, _, _ => .diverge
  | _ + 1, [], out => .done (out.length, out)
  | fuel + 1, byte :: rest, out =>
    .log (.read (size - (rest.length + 1)) 1) <|
    let token := byte.toNat
    readLength size (token / 16) (token / 16) rest fun lit_len rest =>
      if rest.length < lit_len ∨ capacity < out.length + lit_len then
        .done (0, out)
      else
        .log (.read (size - rest.length) lit_len) <|
        .log (.write out.length lit_len) <|
        let out := out ++ rest.take lit_len
        let rest := rest.drop lit_len
        if rest = [] then
          .done (out.length, out)
        else
          decodeMatch fresh capacity size token rest out fun rest out =>
            decompressLoop fuel rest out

end Decompress

/-- `lr_lz4_decompress`: the length that it returns, and what it has written. -/
def lr_lz4_decompress (fresh : Nat → UInt8) (src : Bytes) (dst_len : Nat) :
    Course Access (Nat × Bytes) :=
  decompressLoop fresh dst_len src.length (src.length + 1) src []

def header (length : Nat) : Bytes :=
  [UInt8.ofNat (length % 256), UInt8.ofNat (length / 256 % 256),
    UInt8.ofNat (length / 65536 % 256), UInt8.ofNat (length / 16777216 % 256)]

/-- `lr_compress_if_beneficial`: the buffer, and `was_compressed`.  `enough` is the comparison
of the two sizes with `min_ratio`. -/
def lr_compress_if_beneficial (enough : Nat → Nat → Bool) (data : Bytes) : Bytes × Bool :=
  if data.length < 64 then
    (data, false)
  else
    match lr_lz4_compress data with
    | none => (data, false)
    | some compressed =>
      if enough compressed.length data.length then
        (header (data.length % 4294967296) ++ compressed, true)
      else
        (data, false)

/-- `lr_decompress_if_needed`; its result is `none` for `NULL`. -/
def lr_decompress_if_needed (fresh : Nat → UInt8) (data : Bytes) (was_compressed : Bool) :
    Course Access (Option Bytes) :=
  if was_compressed then
    match data with
    | b₀ :: b₁ :: b₂ :: b₃ :: block =>
      let stored_len := b₀.toNat + 256 * b₁.toNat + 65536 * b₂.toNat + 16777216 * b₃.toNat
      (lr_lz4_decompress fresh block stored_len).andThen fun r =>
        .done (if r.1 = stored_len then some r.2 else none)
    | _ => .done none
  else
    .done (some data)

end LRJS.Lz4
