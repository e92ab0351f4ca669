import LRJS.Archive
import LRJS.Library.Base64
import LRJS.OperatorTables

/-!
# `btoa` and `atob`

The two functions of `lr_encoding.c` on strings of bytes.  `malloc` says whether the
output buffer is given; a read behind the terminator of the input and a write behind
the output buffer are faults.
-/

namespace LRJS.Encoding

open Base64 List Option

inductive Fault where
  | read (i : Nat)
  | write (i : Nat)
deriving DecidableEq, Repr

inductive Answer where
  | exception (text : String)
  | string (bytes : List UInt8)
deriving DecidableEq, Repr

/-- `input[i]`. -/
def fetch (input : List UInt8) (i : Nat) : Except Fault UInt8 :=
  match (input ++ [0])[i]? with
  | some c => .ok c
  | none => .error (.read i)

/-- `out[j++] = c`. -/
def store (out_len : Nat) (out : List UInt8) (c : UInt8) : Except Fault (List UInt8) :=
  if out.length < out_len then .ok (out ++ [c]) else .error (.write out.length)

/-- `here ? input[i] : 0`. -/
def fetchWhen (here : Bool) (input : List UInt8) (i : Nat) : Except Fault UInt8 :=
  if here then fetch input i else .ok 0

/-- `if (here) out[j++] = c`. -/
def storeWhen (here : Bool) (out_len : Nat) (out : List UInt8) (c : UInt8) :
    Except Fault (List UInt8) :=
  if here then store out_len out c else .ok out

def base64_table : List UInt8 :=
  "ABCDEFGHIJKLMNOPQRSTUVWXYZabcdefghijklmnopqrstuvwxyz0123456789+/".toList.map fun c =>
    .ofNat c.toNat

def decode_table (c : UInt8) : Nat :=
  if c ∈ base64_table then base64_table.idxOf c else 0

/-- One round of the loop of `lr_btoa`, with `i = 3 * k`. -/
def encodeGroup (input : List UInt8) (out_len : Nat) (out : List UInt8) (k : Nat) :
    Except Fault (List UInt8) := do
  let i := 3 * k
  let remaining := castInt32 ((input.length : Int) - i)
  let a ← fetch input i
  let b ← fetchWhen (1 < remaining) input (i + 1)
  let c ← fetchWhen (2 < remaining) input (i + 2)
  let triple := a.toNat <<< 16 ||| b.toNat <<< 8 ||| c.toNat
  let out ← store out_len out (base64_table.getD (triple >>> 18 &&& 0x3F) 0)
  let out ← store out_len out (base64_table.getD (triple >>> 12 &&& 0x3F) 0)
  let out ← store out_len out
    (if 1 < remaining then base64_table.getD (triple >>> 6 &&& 0x3F) 0 else pad)
  store out_len out (if 2 < remaining then base64_table.getD (triple &&& 0x3F) 0 else pad)

def lr_btoa (malloc : Bool) (argv : List (List UInt8)) : Except Fault Answer :=
  match argv with
  | [] => .ok (.exception "btoa requires 1 argument")
  | arg :: _ =>
    let input := c_string arg
    let out_len := (input.length + 2) / 3 * 4 + 1
    if malloc then do
      let out ← (List.range ((input.length + 2) / 3)).foldlM (encodeGroup input out_len) []
      let out ← store out_len out 0
      .ok (.string (c_string out))
    else
      .ok (.exception "out of memory")

/-- One round of the loop of `lr_atob`, with `i = 4 * k`. -/
def decodeGroup (input : List UInt8) (out_len : Nat) (out : List UInt8) (k : Nat) :
    Except Fault (List UInt8) := do
  let i := 4 * k
  let a ← fetch input i
  let b ← fetch input (i + 1)
  let third ← fetch input (i + 2)
  let fourth ← fetch input (i + 3)
  let a := decode_table a
  let b := decode_table b
  let c := if third = pad then 0 else decode_table third
  let d := if fourth = pad then 0 else decode_table fourth
  let out ← store out_len out (.ofNat (a <<< 2 ||| b >>> 4))
  let out ← storeWhen (third ≠ pad) out_len out (.ofNat (b <<< 4 ||| c >>> 2))
  storeWhen (fourth ≠ pad) out_len out (.ofNat (c <<< 6 ||| d))

def lr_atob (malloc : Bool) (argv : List (List UInt8)) : Except Fault Answer :=
  match argv with
  | [] => .ok (.exception "atob requires 1 argument")
  | arg :: _ =>
    let input := c_string arg
    let out_len := input.length / 4 * 3 + 1
    if malloc then do
      let out ← (List.range ((input.length + 3) / 4)).foldlM (decodeGroup input out_len) []
      let written ← store out_len out 0
      .ok (.string (written.take out.length))
    else
      .ok (.exception "out of memory")

/-- `btoa` gives the encoding of the string, and `atob` gives the string back. -/
def Encodes (s : List UInt8) : Prop :=
  lr_btoa true [s] = .ok (.string (encode s)) ∧
    lr_atob true [encode s] = .ok (.string s)

/-- `atob` stays inside of its buffers, and throws or gives what the string stands for. -/
def DecodesSafely (s : List UInt8) : Prop :=
  ∀ malloc, ∃ answer, lr_atob malloc [s] = .ok answer ∧
    ∀ bytes, answer = .string bytes → Decodes s bytes

theorem base64_table_get {i : Nat} (small : i < 64) : base64_table.getD i 0 = digit i := by
  have all : ∀ i : Fin 64, base64_table.getD i 0 = digit i := by
    decide +kernel
  exact all ⟨i, small⟩

theorem decode_table_digit {i : Nat} (small : i < 64) : decode_table (digit i) = i := by
  have all : ∀ i : Fin 64, decode_table (digit i) = i := by
    decide +kernel
  exact all ⟨i, small⟩

theorem and_63 (n : Nat) : n &&& 0x3F = n % 64 :=
  Nat.and_two_pow_sub_one_eq_mod n 6

theorem low_bits {high low : Nat} (shift : Nat) (small : low < 2 ^ shift) :
    high <<< shift ||| low = high * 2 ^ shift + low := by
  rw [← Nat.shiftLeft_add_eq_or_of_lt small, Nat.shiftLeft_eq]

theorem triple_eq (a b c : UInt8) :
    a.toNat <<< 16 ||| b.toNat <<< 8 ||| c.toNat = a.toNat * 65536 + b.toNat * 256 + c.toNat := by
  have high : a.toNat <<< 16 ||| b.toNat <<< 8 = (a.toNat * 2 ^ 8 + b.toNat) <<< 8 := by
    rw [show a.toNat <<< 16 = (a.toNat <<< 8) <<< 8 from Nat.shiftLeft_add a.toNat 8 8,
      ← Nat.shiftLeft_or_distrib, low_bits 8 b.toNat_lt]
  rw [high, low_bits 8 c.toNat_lt]
  omega

variable {input : List UInt8}

theorem fetch_lt {i : Nat} (inside : i < input.length) : fetch input i = .ok (input.getD i 0) := by
  unfold fetch
  rw [getElem?_append_left inside, getElem?_eq_getElem inside, getD_eq_getElem?_getD,
    getElem?_eq_getElem inside]
  rfl

variable {out_len : Nat} {out : List UInt8}

theorem store_lt (c : UInt8) (room : out.length < out_len) :
    store out_len out c = .ok (out ++ [c]) :=
  if_pos room

/-- What a round writes: how many bytes remain is an `int`. -/
def written (input : List UInt8) (k : Nat) : List UInt8 :=
  let rest := input.drop (3 * k)
  let remaining := castInt32 rest.length
  if 2 < remaining then quantum rest
  else if 1 < remaining then quantum (rest.take 2)
  else quantum (rest.take 1)

theorem castInt32_le (n : Nat) : castInt32 n ≤ n := by
  have cast := Int.bmod_def (n : Int) (2 ^ 32)
  rw [castInt32, BitVec.toInt_ofInt]
  omega

/-- The shifts and masks of the encoder cut three bytes into four sextets. -/
theorem sextets (a b c : UInt8) :
    let triple := a.toNat <<< 16 ||| b.toNat <<< 8 ||| c.toNat
    base64_table.getD (triple >>> 18 &&& 0x3F) 0 = digit (a.toNat / 4) ∧
      base64_table.getD (triple >>> 12 &&& 0x3F) 0 = digit (a.toNat % 4 * 16 + b.toNat / 16) ∧
      base64_table.getD (triple >>> 6 &&& 0x3F) 0 = digit (b.toNat % 16 * 4 + c.toNat / 64) ∧
      base64_table.getD (triple &&& 0x3F) 0 = digit (c.toNat % 64) := by
  have high := a.toNat_lt
  have middle := b.toNat_lt
  have low := c.toNat_lt
  simp only [triple_eq, and_63, Nat.shiftRight_eq_div_pow]
  have one : (a.toNat * 65536 + b.toNat * 256 + c.toNat) / 2 ^ 18 % 64 = a.toNat / 4 := by
    omega
  have two : (a.toNat * 65536 + b.toNat * 256 + c.toNat) / 2 ^ 12 % 64 =
      a.toNat % 4 * 16 + b.toNat / 16 := by
    omega
  have three : (a.toNat * 65536 + b.toNat * 256 + c.toNat) / 2 ^ 6 % 64 =
      b.toNat % 16 * 4 + c.toNat / 64 := by
    omega
  have four : (a.toNat * 65536 + b.toNat * 256 + c.toNat) % 64 = c.toNat % 64 := by
    omega
  rw [one, two, three, four]
  exact ⟨base64_table_get (by omega), base64_table_get (by omega), base64_table_get (by omega),
    base64_table_get (by omega)⟩

theorem ok_bind {α β : Type} (x : α) (f : α → Except Fault β) : (Except.ok x >>= f) = f x :=
  rfl

theorem store_four (room : out.length + 4 ≤ out_len) (a b c d : UInt8) :
    (do let out ← store out_len out a
        let out ← store out_len out b
        let out ← store out_len out c
        store out_len out d) = .ok (out ++ [a, b, c, d]) := by
  rw [store_lt a (by omega), ok_bind, store_lt b (by simp; omega), ok_bind,
    store_lt c (by simp; omega), ok_bind, store_lt d (by simp; omega)]
  simp

variable {rest : List UInt8}

theorem fetch_drop {i j : Nat} (behind : input.drop i = rest)
    (inside : j < rest.length) : fetch input (i + j) = .ok (rest.getD j 0) := by
  subst behind
  have whole : i + j < input.length := by
    rw [length_drop] at inside
    omega
  rw [fetch_lt whole]
  simp

theorem exists_of_three (three : 3 ≤ rest.length) :
    ∃ a b c behind, rest = a :: b :: c :: behind := by
  rcases rest with _ | ⟨a, _ | ⟨b, _ | ⟨c, behind⟩⟩⟩
  · exact absurd three (Nat.not_succ_le_zero 2)
  · exact absurd three (Nat.not_succ_le_self 1 ∘ Nat.le_of_succ_le)
  · exact absurd three (Nat.not_succ_le_self 2)
  · exact ⟨a, b, c, behind, rfl⟩

/-- One turn of the encoder writes the four characters of its three bytes. -/
theorem encodeGroup_eq {k : Nat} (inside : 3 * k < input.length) (room : out.length + 4 ≤ out_len) :
    encodeGroup input out_len out k = .ok (out ++ written input k) := by
  have remains : (input.length : Int) - (3 * k : Nat) = (input.drop (3 * k)).length := by
    rw [length_drop]
    omega
  unfold encodeGroup written
  dsimp only
  rw [remains]
  generalize behind : input.drop (3 * k) = rest
  have some : 0 < rest.length := by
    rw [← behind, length_drop]
    omega
  have most := castInt32_le rest.length
  have start : fetch input (3 * k) = .ok (rest.getD 0 0) := fetch_drop behind (j := 0) some
  rw [start, ok_bind]
  by_cases more : 1 < castInt32 rest.length
  · rw [fetchWhen, if_pos (decide_eq_true more), fetch_drop behind (by omega), ok_bind]
    by_cases all : 2 < castInt32 rest.length
    · have three : 3 ≤ rest.length := by
        omega
      rw [fetchWhen, if_pos (decide_eq_true all), fetch_drop behind (by omega), ok_bind,
        store_four room, if_pos more, if_pos all, if_pos all]
      obtain ⟨a, b, c, rest, rfl⟩ := exists_of_three three
      obtain ⟨one, two, three, four⟩ := sextets a b c
      simp only [getD_cons_zero, getD_cons_succ, one, two, three, four, quantum]
    · have two : 2 ≤ rest.length := by
        omega
      rw [fetchWhen, if_neg (by simpa using all), ok_bind, store_four room, if_pos more,
        if_neg all, if_neg all, if_pos more]
      obtain ⟨a, tail, rfl⟩ := exists_cons_of_length_pos some
      obtain ⟨b, rest, rfl⟩ := exists_cons_of_length_pos (Nat.lt_of_succ_lt_succ two)
      obtain ⟨one, two, three, _⟩ := sextets a b 0
      simp only [UInt8.toNat_zero, Nat.zero_div, Nat.add_zero] at one two three
      simp only [getD_cons_zero, getD_cons_succ, UInt8.toNat_zero, one, two, three,
        quantum, take_succ_cons, take_zero]
  · have few : ¬ 2 < castInt32 rest.length := by
      omega
    rw [fetchWhen, if_neg (by simpa using more), ok_bind, fetchWhen, if_neg (by simpa using few),
      ok_bind, store_four room, if_neg more, if_neg few, if_neg few, if_neg more]
    obtain ⟨a, rest, rfl⟩ := exists_cons_of_length_pos some
    obtain ⟨one, two, _, _⟩ := sextets a 0 0
    simp only [UInt8.toNat_zero, Nat.zero_div, Nat.add_zero] at one two
    simp only [getD_cons_zero, UInt8.toNat_zero, one, two, quantum, take_succ_cons,
      take_zero]

theorem length_written {k : Nat} (inside : 3 * k < input.length) :
    (written input k).length = 4 := by
  have some : input.drop (3 * k) ≠ [] := by
    intro none
    have empty := congrArg length none
    rw [length_drop, length_nil] at empty
    omega
  unfold written
  dsimp only
  split
  · exact length_quantum some
  · split
    · exact length_quantum (by simpa using some)
    · exact length_quantum (by simpa using some)

theorem encode_loop {input : List UInt8} {out_len rounds : Nat}
    (inside : 3 * rounds < input.length + 3) (room : 4 * rounds ≤ out_len) :
    (List.range rounds).foldlM (encodeGroup input out_len) [] =
        .ok ((List.range rounds).flatMap (written input)) ∧
      ((List.range rounds).flatMap (written input)).length = 4 * rounds := by
  induction rounds with
  | zero => exact ⟨rfl, rfl⟩
  | succ rounds ih =>
    obtain ⟨earlier, length⟩ := ih (by omega) (by omega)
    have here : 3 * rounds < input.length := by
      omega
    constructor
    · rw [range_succ, foldlM_append, earlier, ok_bind, flatMap_append]
      simp only [foldlM_cons, foldlM_nil]
      rw [encodeGroup_eq here (by omega)]
      simp only [ok_bind, flatMap_cons, flatMap_nil, append_nil]
      rfl
    · rw [range_succ, flatMap_append, length_append, length]
      simp only [flatMap_cons, flatMap_nil, append_nil, length_written here]
      omega

theorem written_ne_zero (input : List UInt8) (k : Nat) : ∀ c ∈ written input k, c ≠ 0 := by
  unfold written
  dsimp only
  split
  · exact quantum_ne_zero _
  · split
    · exact quantum_ne_zero _
    · exact quantum_ne_zero _

theorem c_string_terminated {chars : List UInt8} (plain : ∀ c ∈ chars, c ≠ 0) :
    c_string (chars ++ [0]) = chars := by
  unfold c_string
  rw [takeWhile_append_of_pos fun c member => decide_eq_true (plain c member)]
  exact append_nil chars

theorem lr_btoa_eq (s : List UInt8) :
    lr_btoa true [s] =
      .ok (.string
        ((List.range (((c_string s).length + 2) / 3)).flatMap (written (c_string s)))) := by
  generalize rounds : ((c_string s).length + 2) / 3 = n
  obtain ⟨loop, length⟩ : _ ∧ _ :=
    @encode_loop (c_string s) (n * 4 + 1) n (by omega) (by omega)
  have plain : ∀ c ∈ (range n).flatMap (written (c_string s)), c ≠ 0 := by
    intro c member
    obtain ⟨k, _, here⟩ := List.mem_flatMap.mp member
    exact written_ne_zero _ k c here
  unfold lr_btoa
  dsimp only
  rw [rounds, if_pos rfl, loop, ok_bind, store_lt 0 (by omega), ok_bind, c_string_terminated plain]

theorem written_eq (small : input.length < 2 ^ 31) (k : Nat) :
    written input k = quantum (input.drop (3 * k)) := by
  have short : (input.drop (3 * k)).length < 2 ^ 31 := by
    rw [length_drop]
    omega
  unfold written
  dsimp only
  generalize input.drop (3 * k) = rest at short
  rw [castInt32_of_inInt32 (by unfold Double.InInt32; omega)]
  match rest with
  | [] | [_] | [_, _] => rfl
  | a :: b :: c :: rest =>
    have three : 2 < ((a :: b :: c :: rest).length : Int) := by
      simp only [length_cons]
      omega
    exact if_pos three

theorem lr_btoa_small {s : List UInt8} (small : (c_string s).length < 2 ^ 31) :
    lr_btoa true [s] = .ok (.string (encode (c_string s))) := by
  have rounds : written (c_string s) = fun k => quantum ((c_string s).drop (3 * k)) :=
    funext (written_eq small)
  rw [lr_btoa_eq, encode_eq, rounds]

theorem written_pads (large : 2 ^ 31 ≤ input.length) :
    ∃ k, 3 * k + 3 ≤ input.length ∧ (written input k).getD 2 0 = pad := by
  let k := (input.length - 2 ^ 31) / 3
  refine ⟨k, by omega, ?_⟩
  have many : 2 ^ 31 ≤ (input.drop (3 * k)).length ∧
      (input.drop (3 * k)).length < 2 ^ 31 + 3 := by
    rw [length_drop]
    omega
  unfold written
  generalize input.drop (3 * k) = rest at many
  have negative : castInt32 rest.length ≤ 0 := by
    have cast := Int.bmod_def (rest.length : Int) (2 ^ 32)
    rw [castInt32, BitVec.toInt_ofInt]
    omega
  rw [if_neg (by omega), if_neg (by omega)]
  obtain ⟨a, rest, rfl⟩ := exists_cons_of_length_pos (by omega : 0 < rest.length)
  rfl

theorem quantum_full (three : 3 ≤ rest.length) : (quantum rest).getD 2 0 ≠ pad := by
  obtain ⟨a, b, c, rest, rfl⟩ := exists_of_three three
  have byte := c.toNat_lt
  exact (digit_ne (by omega)).1

theorem flatMap_inj {f g : Nat → List UInt8} {n : Nat}
    (lengths : ∀ k < n, (f k).length = (g k).length)
    (same : (List.range n).flatMap f = (List.range n).flatMap g) : ∀ k < n, f k = g k := by
  induction n with
  | zero => exact fun k small => absurd small (Nat.not_lt_zero k)
  | succ n ih =>
    rw [range_succ, flatMap_append, flatMap_append] at same
    simp only [flatMap_cons, flatMap_nil, append_nil] at same
    obtain ⟨earlier, last⟩ := append_inj' same (lengths n (Nat.lt_succ_self n))
    intro k small
    rcases Nat.lt_succ_iff_lt_or_eq.mp small with before | here
    · exact ih (fun k less => lengths k (Nat.lt_succ_of_lt less)) earlier k
        before
    · rw [here]
      exact last

theorem first_eq {x y : Nat} (hy : y < 64) : UInt8.ofNat (x <<< 2 ||| y >>> 4) = first x y := by
  rw [Nat.shiftRight_eq_div_pow, low_bits 2 (by omega)]
  rfl

theorem second_eq {y z : Nat} (hz : z < 64) : UInt8.ofNat (y <<< 4 ||| z >>> 2) = second y z := by
  apply UInt8.toNat_inj.mp
  rw [Nat.shiftRight_eq_div_pow, low_bits 4 (by omega), second, UInt8.toNat_ofNat',
    UInt8.toNat_ofNat']
  omega

theorem third_eq {z w : Nat} (hw : w < 64) : UInt8.ofNat (z <<< 6 ||| w) = third z w := by
  apply UInt8.toNat_inj.mp
  rw [low_bits 6 (by omega), third, UInt8.toNat_ofNat', UInt8.toNat_ofNat']
  omega

section Rounds

variable {input out rest : List UInt8} {out_len k x y z w : Nat}

theorem decodeGroup_one (hx : x < 64) (hy : y < 64)
    (behind : input.drop (4 * k) = digit x :: digit y :: pad :: pad :: rest)
    (room : out.length + 1 ≤ out_len) :
    decodeGroup input out_len out k = .ok (out ++ [first x y]) := by
  have start : fetch input (4 * k) = .ok (digit x) := fetch_drop behind (j := 0) (by simp)
  unfold decodeGroup
  dsimp only
  rw [start, ok_bind, fetch_drop behind (by simp), ok_bind, fetch_drop behind (by simp), ok_bind,
    fetch_drop behind (by simp), ok_bind]
  simp only [getD_cons_zero, getD_cons_succ, decode_table_digit hx, decode_table_digit hy]
  rw [store_lt _ (by omega), ok_bind, first_eq hy]
  rfl

theorem decodeGroup_two (hx : x < 64) (hy : y < 64) (hz : z < 64)
    (behind : input.drop (4 * k) = digit x :: digit y :: digit z :: pad :: rest)
    (room : out.length + 2 ≤ out_len) :
    decodeGroup input out_len out k = .ok (out ++ [first x y, second y z]) := by
  have start : fetch input (4 * k) = .ok (digit x) := fetch_drop behind (j := 0) (by simp)
  have third := (digit_ne hz).1
  unfold decodeGroup
  dsimp only
  rw [start, ok_bind, fetch_drop behind (by simp), ok_bind, fetch_drop behind (by simp), ok_bind,
    fetch_drop behind (by simp), ok_bind]
  simp only [getD_cons_zero, getD_cons_succ, decode_table_digit hx, decode_table_digit hy,
    if_neg third, decode_table_digit hz]
  rw [store_lt _ (by omega), ok_bind, storeWhen, if_pos (decide_eq_true third),
    store_lt _ (by simp; omega), ok_bind, first_eq hy, second_eq hz, append_assoc]
  rfl

theorem decodeGroup_three (hx : x < 64) (hy : y < 64) (hz : z < 64) (hw : w < 64)
    (behind : input.drop (4 * k) = digit x :: digit y :: digit z :: digit w :: rest)
    (room : out.length + 3 ≤ out_len) :
    decodeGroup input out_len out k = .ok (out ++ [first x y, second y z, Base64.third z w]) := by
  have start : fetch input (4 * k) = .ok (digit x) := fetch_drop behind (j := 0) (by simp)
  have third := (digit_ne hz).1
  have fourth := (digit_ne hw).1
  unfold decodeGroup
  dsimp only
  rw [start, ok_bind, fetch_drop behind (by simp), ok_bind, fetch_drop behind (by simp), ok_bind,
    fetch_drop behind (by simp), ok_bind]
  simp only [getD_cons_zero, getD_cons_succ, decode_table_digit hx, decode_table_digit hy,
    if_neg third, if_neg fourth, decode_table_digit hz, decode_table_digit hw]
  rw [store_lt _ (by omega), ok_bind, storeWhen, if_pos (decide_eq_true third),
    store_lt _ (by simp; omega), ok_bind, storeWhen, if_pos (decide_eq_true fourth),
    store_lt _ (by simp; omega), first_eq hy, second_eq hz, third_eq hw, append_assoc,
    append_assoc]
  rfl

end Rounds

variable {text bytes : List UInt8}

/-- The loop of the decoder appends the bytes that the text stands for. -/
theorem decode_loop (decodes : Decodes text bytes)
    {before : List UInt8} {k : Nat} (place : before.length = 4 * k)
    (room : out.length + text.length / 4 * 3 ≤ out_len) :
    (List.range' k (text.length / 4)).foldlM (decodeGroup (before ++ text) out_len) out =
      .ok (out ++ bytes) := by
  induction decodes generalizing before out k with
  | nil => simp [pure, Except.pure]
  | @one x y hx hy =>
    have behind := @List.drop_left' _ before [digit x, digit y, pad, pad] _ place
    have round : decodeGroup _ out_len out k = _ := decodeGroup_one hx hy behind (by
      simp only [length_cons, length_nil] at room
      omega)
    simp only [length_cons, length_nil, Nat.zero_add, Nat.reduceAdd, Nat.reduceDiv,
      range'_one, foldlM_cons, foldlM_nil]
    rw [round]
    rfl
  | @two x y z hx hy hz =>
    have behind := @List.drop_left' _ before [digit x, digit y, digit z, pad] _ place
    have round : decodeGroup _ out_len out k = _ := decodeGroup_two hx hy hz behind (by
      simp only [length_cons, length_nil] at room
      omega)
    simp only [length_cons, length_nil, Nat.zero_add, Nat.reduceAdd, Nat.reduceDiv,
      range'_one, foldlM_cons, foldlM_nil]
    rw [round]
    rfl
  | @group x y z w text bytes hx hy hz hw rest ih =>
    have behind :=
      @List.drop_left' _ before (digit x :: digit y :: digit z :: digit w :: text) _ place
    have groups : (digit x :: digit y :: digit z :: digit w :: text).length / 4 =
        text.length / 4 + 1 := by
      simp only [length_cons]
      omega
    have round : decodeGroup _ out_len out k = _ :=
      decodeGroup_three hx hy hz hw behind (by omega)
    have place : (before ++ [digit x, digit y, digit z, digit w]).length = 4 * (k + 1) := by
      simp only [length_append, length_cons, length_nil]
      omega
    have room : (out ++ [first x y, second y z, third z w]).length + text.length / 4 * 3 ≤
        out_len := by
      simp only [length_append, length_cons, length_nil]
      omega
    have later := ih place room
    rw [groups, range'_succ, foldlM_cons, round, ok_bind]
    simpa only [append_assoc, cons_append, nil_append] using later

theorem ne_zero_of_decodes (decodes : Decodes text bytes) : ∀ c ∈ text, c ≠ 0 := by
  obtain ⟨_, body, padding, rfl, _, alphabet⟩ := decodes.isText
  intro c member
  rcases List.mem_append.mp member with inside | behind
  · obtain ⟨sextet, small, rfl⟩ := alphabet c inside
    exact (digit_ne small).2
  · rw [eq_of_mem_replicate behind]
    decide

theorem lr_atob_eq (decodes : Decodes text bytes) : lr_atob true [text] = .ok (.string bytes) := by
  have plain := c_string_eq (ne_zero_of_decodes decodes)
  have groups := decodes.isText.groups
  have rounds : (text.length + 3) / 4 = text.length / 4 := by
    omega
  have loop : (range' 0 (text.length / 4)).foldlM
      (decodeGroup ([] ++ text) (text.length / 4 * 3 + 1)) [] = .ok ([] ++ bytes) :=
    decode_loop decodes rfl (by simp only [length_nil]; omega)
  rw [nil_append, nil_append, ← range_eq_range'] at loop
  have fits : bytes.length < text.length / 4 * 3 + 1 :=
    Nat.lt_succ_of_le decodes.length_le
  unfold lr_atob
  dsimp only
  rw [plain, rounds, if_pos rfl, loop, ok_bind, store_lt 0 fits, ok_bind, take_left]

/-- A string is encoded exactly if it has no NUL and fewer than `2 ^ 31` bytes. -/
theorem encodes_iff (s : List UInt8) : Encodes s ↔ (∀ c ∈ s, c ≠ 0) ∧ s.length < 2 ^ 31 := by
  constructor
  · intro ⟨encodes, decodes⟩
    by_cases small : (c_string s).length < 2 ^ 31
    · rw [lr_btoa_small small] at encodes
      have text : encode (c_string s) = encode s := by
        injection encodes with same
        injection same
      rw [← text, lr_atob_eq (decodes_encode _)] at decodes
      have whole : c_string s = s := by
        injection decodes with same
        injection same
      rw [whole] at small
      exact ⟨whole ▸ c_string_storable s, small⟩
    · obtain ⟨k, inside, padded⟩ := written_pads (Nat.le_of_not_lt small)
      have shorter : (c_string s).length ≤ s.length := (takeWhile_sublist _).length_le
      have text : (range (((c_string s).length + 2) / 3)).flatMap (written (c_string s)) =
          encode s := by
        rw [lr_btoa_eq] at encodes
        injection encodes with same
        injection same
      have rounds : ((c_string s).length + 2) / 3 = (s.length + 2) / 3 := by
        have length := congrArg length text
        rw [encode_length, (encode_loop (by omega) (Nat.le_refl _)).2] at length
        omega
      rw [encode_eq, ← rounds] at text
      have groups := flatMap_inj (fun k less => ?_) text k (by omega)
      · rw [groups] at padded
        exact absurd padded (quantum_full (by rw [length_drop]; omega))
      · rw [length_written (by omega), length_quantum]
        intro none
        have empty := congrArg length none
        rw [length_drop, length_nil] at empty
        omega
  · intro ⟨plain, small⟩
    have whole := c_string_eq plain
    have encodes := lr_btoa_small (s := s) (by rw [whole]; exact small)
    rw [whole] at encodes
    exact ⟨encodes, lr_atob_eq (decodes_encode s)⟩

/-- A string is decoded safely exactly if it is a text of the encoding. -/
theorem decodesSafely_iff (s : List UInt8) : DecodesSafely s ↔ IsText s := by
  constructor
  · intro safely
    obtain ⟨answer, returned, decodes⟩ := safely true
    cases answer with
    | string bytes => exact (decodes bytes rfl).isText
    | exception text =>
      unfold lr_atob at returned
      dsimp only at returned
      generalize (range _).foldlM (decodeGroup _ _) _ = loop at returned
      cases loop with
      | error fault => cases returned
      | ok out =>
        rw [ok_bind] at returned
        generalize store _ out 0 = written at returned
        cases written <;> cases returned
  · intro text
    obtain ⟨bytes, decodes⟩ := isText_iff.mp text
    intro malloc
    cases malloc with
    | false => exact ⟨_, rfl, fun _ string => by cases string⟩
    | true =>
      refine ⟨_, lr_atob_eq decodes, fun _ string => ?_⟩
      injection string with same
      exact same ▸ decodes

/-- `btoa` is right on the strings without a NUL that are shorter than `2 ^ 31`, and `atob`
on the texts of base 64. -/
theorem base64_right (s : List UInt8) :
    (Encodes s ↔ (∀ c ∈ s, c ≠ 0) ∧ s.length < 2 ^ 31) ∧ (DecodesSafely s ↔ IsText s) :=
  ⟨encodes_iff s, decodesSafely_iff s⟩

/-- `atob("QUI")` writes behind its buffer, `atob("A")` reads behind the terminator, `atob("!!!!")`
gives three bytes, and `btoa` drops what stands behind a NUL. -/
theorem atob_leaves_buffers :
    lr_atob true [[81, 85, 73]] = .error (.write 1) ∧ lr_atob true [[65]] = .error (.read 2) ∧
      lr_atob true [[33, 33, 33, 33]] = .ok (.string [0, 0, 0]) ∧
      lr_btoa true [[65, 0, 66]] = .ok (.string [81, 81, 61, 61]) ∧
      ¬((∀ s, Encodes s) ∧ ∀ s, DecodesSafely s) := by
  refine ⟨by decide +kernel, by decide +kernel, by decide +kernel, by decide +kernel, ?_⟩
  intro ⟨encodes, _⟩
  exact ((encodes_iff [0]).mp (encodes [0])).1 0 mem_cons_self rfl

end LRJS.Encoding
