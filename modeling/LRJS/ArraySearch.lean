import LRJS.Library.FirstMatch
import LRJS.OperatorAgreement

/-!
# Searches in arrays

`indexOf`, `lastIndexOf` and `includes` of `lr_builtins_core.c` with their comparisons by
tag and pointer, against the operator `===` and SameValueZero.  A string is the address of
its `LRString`.  Symbols, which are copied with each reference and so equal to no other
value, are left out.
-/

namespace LRJS.ArraySearch

open FirstMatch List Option

inductive Cell where
  | undefined
  | null
  | bool (b : Bool)
  | int32 (n : Int)
  | float64 (d : Double)
  | string (ptr : Addr)
  | object (ptr : Addr)
deriving DecidableEq

/-- The value, where `text` gives the strings in memory. -/
def Cell.value (text : Addr → Name) : Cell → LRValue
  | .undefined => .undefined
  | .null => .null
  | .bool b => .bool b
  | .int32 n => .int32 n
  | .float64 d => .float64 d
  | .string ptr => .string (text ptr)
  | .object ptr => .object ptr

/-- An array; `get_array_length` gives its length as an `int32_t`. -/
structure LRArray where
  elements : List Cell
  fits : elements.length < 2 ^ 31

namespace LRArray

variable (arr : LRArray)

/-- `get_array_length`. -/
def length : Nat := arr.elements.length

/-- `JS_GetPropertyUint32`. -/
def get (i : Nat) : Cell := arr.elements.getD i .undefined

end LRArray

/-- `found` of `js_array_proto_index_of` and `js_array_proto_last_index_of`. -/
def indexFound : Cell → Cell → Bool
  | .undefined, .undefined => true
  | .bool val, .bool search => val = search
  | .int32 val, .int32 search => val = search
  | .float64 val, .float64 search => val.ceq search
  | .string val, .string search | .object val, .object search => val = search
  | _, _ => false

/-- `found` of `js_array_proto_includes`. -/
def includesFound : Cell → Cell → Bool
  | .undefined, .undefined | .null, .null => true
  | .bool val, .bool search => val = search
  | .int32 val, .int32 search => val = search
  | .float64 val, .float64 search => (val.isNaN && search.isNaN) || val.ceq search
  | .string val, .string search | .object val, .object search => val = search
  | _, _ => false

section Methods

variable (text : Addr → Name) (arr : LRArray) (argv : List Cell)

/-- `from_idx` of `indexOf` and `includes`. -/
def from_idx : Nat :=
  match argv[1]? with
  | none => 0
  | some start =>
    let idx := lr_to_int32 (start.value text)
    (if idx < 0 then arr.length + idx else idx).toNat

/-- `from_idx` of `lastIndexOf`; a search from -1 finds nothing. -/
def last_from_idx : Int :=
  match argv[1]? with
  | none => arr.length - 1
  | some start =>
    let idx := lr_to_int32 (start.value text)
    let idx := if (arr.length : Int) ≤ idx then (arr.length : Int) - 1 else idx
    if idx < 0 then arr.length + idx else idx

/-- The places that `indexOf` and `includes` look at, in order. -/
def upwards : List Nat :=
  List.range' (from_idx text arr argv) (arr.length - from_idx text arr argv)

/-- The places that `lastIndexOf` looks at, in order. -/
def downwards : List Nat :=
  (List.range (last_from_idx text arr argv + 1).toNat).reverse

/-- `JS_NewInt32(ctx, i)`, or -1. -/
def index : Option Nat → Int
  | some i => i
  | none => -1

def js_array_proto_index_of : Int :=
  match argv with
  | [] => -1
  | search :: _ => index ((upwards text arr argv).find? fun i => indexFound (arr.get i) search)

def js_array_proto_last_index_of : Int :=
  match argv with
  | [] => -1
  | search :: _ => index ((downwards text arr argv).find? fun i => indexFound (arr.get i) search)

def js_array_proto_includes : Bool :=
  if arr.length = 0 then
    false
  else
    (upwards text arr argv).any fun i => includesFound (arr.get i) (argv.getD 0 .undefined)

end Methods

def admittedFrom (length : Nat) (start : Double) : Int :=
  if start.isNaN then
    0
  else
    match start.truncate? with
    | some n => if n < 0 then length + n else n
    | none => if start.negative then 0 else length

def admittedTo (length : Nat) (start : Double) : Int :=
  if start.isNaN then
    0
  else
    match start.truncate? with
    | some n => if n < 0 then length + n else n
    | none => if start.negative then -1 else length

section Meaning

variable (E : Engine) (s : EngineState) (text : Addr → Name) (arr : LRArray) (argv : List Cell)

/-- The operator `===`. -/
def StrictlyEqual (a b : Cell) : Prop :=
  opcode E s .strictEq (a.value text) (b.value text) = some (.value (.bool true), s)

def SameValueZero : Cell → Cell → Prop
  | .undefined, .undefined | .null, .null => True
  | .bool a, .bool b => a = b
  | .int32 a, .int32 b => a = b
  | .int32 a, .float64 b => (Double.ofInt a).ceq b
  | .float64 a, .int32 b => a.ceq (.ofInt b)
  | .float64 a, .float64 b => (a.isNaN ∧ b.isNaN) ∨ a.ceq b
  | .string a, .string b => text a = text b
  | .object a, .object b => a = b ∨ ∃ n, s.bigints a = some n ∧ s.bigints b = some n
  | _, _ => False

def searched : Cell := argv.getD 0 .undefined

/-- A place that `indexOf` and `includes` are to look at. -/
def Admissible (i : Nat) : Prop :=
  i < arr.length ∧
    ∀ start ∈ argv[1]?, admittedFrom arr.length (lr_to_float64 (start.value text)) ≤ i

/-- A place that `lastIndexOf` is to look at. -/
def AdmissibleLast (i : Nat) : Prop :=
  i < arr.length ∧
    ∀ start ∈ argv[1]?, (i : Int) ≤ admittedTo arr.length (lr_to_float64 (start.value text))

def Matches (i : Nat) : Prop :=
  StrictlyEqual E s text (arr.get i) (searched argv)

def Same (i : Nat) : Prop :=
  SameValueZero s text (arr.get i) (searched argv)

/-- `indexOf` gives the least admissible place with a strictly equal element, or -1. -/
def IndexOfRight : Prop :=
  ∃ found,
    IsFirst (· < ·) (fun i => Admissible text arr argv i ∧ Matches E s text arr argv i) found ∧
    js_array_proto_index_of text arr argv = index found

/-- `lastIndexOf` gives the greatest such place, or -1. -/
def LastIndexOfRight : Prop :=
  ∃ found,
    IsFirst (· > ·) (fun i => AdmissibleLast text arr argv i ∧ Matches E s text arr argv i) found ∧
    js_array_proto_last_index_of text arr argv = index found

/-- `includes` tells whether an admissible element is the same value. -/
def IncludesRight : Prop :=
  js_array_proto_includes text arr argv = true ↔
    ∃ i, Admissible text arr argv i ∧ Same s text arr argv i

def Comparable (a b : Cell) : Prop :=
  a ≠ .null ∧ (∀ p q, a = .string p → b = .string q → p = q) ∧
    ∀ p q, a = .object p → b = .object q → p = q

def Alike (a b : Cell) : Prop :=
  (a.value text).tag = (b.value text).tag ∧ (∀ p q, a = .string p → b = .string q → p = q) ∧
    ∀ p q, a = .object p → b = .object q → p = q

end Meaning

/-- The integer of a start, if it is in the range of `int32_t`; of a string, the digits that it
begins with, modulo 2^32. -/
def startPlace : LRValue → Option Int
  | .bool b => some (if b then 1 else 0)
  | .int32 n => some n
  | .float64 d => d.truncate?.filter fun n => -2 ^ 31 ≤ n ∧ n < 2 ^ 31
  | .string s => some (castInt32 (strtol s))
  | _ => some 0

/-- A place at or behind the start; one that is out of range admits all. -/
def Reached (text : Addr → Name) (arr : LRArray) (argv : List Cell) (i : Nat) : Prop :=
  i < arr.length ∧
    ∀ start ∈ argv[1]?, ∀ n ∈ startPlace (start.value text),
      (if n < 0 then arr.length + n else n) ≤ i

/-- A place at or before the start; one that is out of range admits none. -/
def ReachedLast (text : Addr → Name) (arr : LRArray) (argv : List Cell) (i : Nat) : Prop :=
  i < arr.length ∧
    ∀ start ∈ argv[1]?, ∃ n ∈ startPlace (start.value text),
      (i : Int) ≤ if n < 0 then arr.length + n else n

section Comparisons

variable {E : Engine} {s : EngineState} {text : Addr → Name}

/-- `===` on two values: BigInts by their payloads. -/
def strictlyEqual (s : EngineState) (text : Addr → Name) (a b : Cell) : Bool :=
  match (a.value text).bigint? s, (b.value text).bigint? s with
  | some m, some n => m = n
  | _, _ => strict_eq (a.value text) (b.value text)

variable (a b : Cell)

theorem opcode_strictEq :
    opcode E s .strictEq (a.value text) (b.value text) =
      some (.value (.bool (strictlyEqual s text a b)), s) := by
  cases a <;> cases b <;>
    simp [opcode, inlinePath, inlineStrict, orBinop, bcv_binop, binopFloat, LRValue.bigint?,
      binopInt, binopGeneric, bcv_strict_eq, strict_eq, EngineState.give, Cell.value,
      strictlyEqual]
  next p q =>
    cases s.bigints p <;> cases s.bigints q <;> simp [binopBigint, EngineState.give]

theorem strictlyEqual_iff :
    StrictlyEqual E s text a b ↔ strictlyEqual s text a b = true := by
  unfold StrictlyEqual
  rw [opcode_strictEq]
  simp

theorem indexFound_iff :
    indexFound a b = true ↔ StrictlyEqual E s text a b ∧ Comparable a b := by
  rw [strictlyEqual_iff]
  cases a <;> cases b <;>
    simp [indexFound, strictlyEqual, LRValue.bigint?, strict_eq, Comparable, Cell.value]
  · intro same
    rw [same]
  · next p q =>
      intro same
      rw [same]
      cases s.bigints q <;> simp

theorem includesFound_iff :
    includesFound a b = true ↔ SameValueZero s text a b ∧ Alike text a b := by
  cases a <;> cases b <;>
    simp [includesFound, SameValueZero, Alike, Cell.value, LRValue.tag]
  · exact congrArg text
  · exact Or.inl

end Comparisons

section Places

variable {text : Addr → Name} {arr : LRArray} {argv : List Cell}

theorem lr_to_int32_eq (start : LRValue) :
    lr_to_int32 start = (startPlace start).getD (-2 ^ 31) := by
  cases start with
  | float64 d =>
    simp only [lr_to_int32, startPlace, Double.toInt32]
    cases d.truncate? with
    | none => rfl
    | some n =>
      dsimp only
      by_cases fits : -2 ^ 31 ≤ n ∧ n < 2 ^ 31
      · rw [if_pos fits, filter_some, decide_eq_true fits]
        rfl
      · rw [if_neg fits, filter_some, decide_eq_false fits]
        rfl
  | _ => rfl

theorem mem_upwards {i : Nat} : i ∈ upwards text arr argv ↔ Reached text arr argv i := by
  have fits := arr.fits
  unfold upwards Reached from_idx
  rw [mem_range'_1]
  cases argv[1]? with
  | none => simp
  | some start =>
    simp only [lr_to_int32_eq, LRArray.length, mem_def, some.injEq, forall_eq']
    cases startPlace (start.value text) with
    | none =>
      simp only [getD_none, reduceCtorEq, IsEmpty.forall_iff, implies_true, and_true]
      split <;> omega
    | some n =>
      simp only [getD_some, some.injEq, forall_eq']
      split <;> omega

/-- `lastIndexOf` visits the indices that its start reaches. -/
theorem mem_downwards {i : Nat} : i ∈ downwards text arr argv ↔ ReachedLast text arr argv i := by
  have fits := arr.fits
  unfold downwards ReachedLast last_from_idx
  rw [mem_reverse, mem_range]
  cases argv[1]? with
  | none =>
    simp only [mem_def, reduceCtorEq, IsEmpty.forall_iff, implies_true, and_true]
    omega
  | some start =>
    simp only [lr_to_int32_eq, LRArray.length, mem_def, some.injEq, forall_eq']
    cases startPlace (start.value text) with
    | none =>
      simp only [getD_none, reduceCtorEq, false_and, exists_false, and_false, iff_false]
      split <;> split <;> omega
    | some n =>
      simp only [getD_some, some.injEq, exists_eq_left']
      split <;> split <;> try split
      all_goals omega

theorem sorted_upwards : (upwards text arr argv).Pairwise (· < ·) :=
  pairwise_lt_range'

theorem sorted_downwards : (downwards text arr argv).Pairwise (· > ·) :=
  pairwise_reverse.mpr pairwise_lt_range

end Places

theorem index_inj {a b : Option Nat} (same : index a = index b) : a = b := by
  cases a <;> cases b <;> simp only [index] at same
  · rfl
  · omega
  · omega
  · rw [Int.ofNat_inj.mp same]

/-- Where the search sees other places than the admitted ones, one that it finds comes before. -/
theorem right_iff {before : Nat → Nat → Prop} [IsStrictTotalOrder Nat before]
    {matching admitted seen : Nat → Prop} {result : Int}
    (search : ∃ found, IsFirst before (fun i => matching i ∧ seen i) found ∧
      result = index found) :
    (∃ found, IsFirst before (fun i => admitted i ∧ matching i) found ∧ result = index found) ↔
      ∀ i, matching i → ¬(admitted i ↔ seen i) →
        ∃ j, before j i ∧ matching j ∧ admitted j ∧ seen j := by
  obtain ⟨found, first, gives⟩ := search
  have same : (∃ found, IsFirst before (fun i => admitted i ∧ matching i) found ∧
      result = index found) ↔ IsFirst before (fun i => admitted i ∧ matching i) found := by
    constructor
    · intro ⟨other, isFirst, same⟩
      rw [index_inj (gives.symm.trans same)]
      exact isFirst
    · intro isFirst
      exact ⟨found, isFirst, gives⟩
  rw [same, isFirst_iff first]
  refine forall_congr' fun i => ?_
  have both (j : Nat) : (admitted j ∧ matching j) ∧ matching j ∧ seen j ↔
      matching j ∧ admitted j ∧ seen j := by
    tauto
  simp only [both]
  by_cases here : matching i
  · simp [here]
  · simp [here, IsEmpty.forall_iff]

theorem exists_iff_exists {same admitted seen : Nat → Prop} :
    ((∃ i, same i ∧ seen i) ↔ ∃ i, admitted i ∧ same i) ↔
      (∀ i, same i → admitted i → ¬ seen i → ∃ j, same j ∧ seen j) ∧
        ∀ i, same i → seen i → ¬ admitted i → ∃ j, same j ∧ admitted j := by
  constructor
  · intro right
    constructor
    · intro i same admitted _
      exact right.mpr ⟨i, admitted, same⟩
    · intro i same seen _
      obtain ⟨j, admitted, same⟩ := right.mp ⟨i, same, seen⟩
      exact ⟨j, same, admitted⟩
  · intro ⟨overlooked, strayed⟩
    constructor
    · intro ⟨i, same, seen⟩
      by_cases admitted : admitted i
      · exact ⟨i, admitted, same⟩
      · obtain ⟨j, same, admitted⟩ := strayed i same seen admitted
        exact ⟨j, admitted, same⟩
    · intro ⟨i, admitted, same⟩
      by_cases here : seen i
      · exact ⟨i, same, here⟩
      · exact overlooked i same admitted here

section Right

variable (E : Engine) (s : EngineState) (text : Addr → Name) (arr : LRArray) (argv : List Cell)

/-- The comparisons of `indexOf` work on the place; without an argument there are none. -/
def Compares (i : Nat) : Prop :=
  argv ≠ [] ∧ Comparable (arr.get i) (searched argv)

/-- The first place that the search accepts is the first one that matches. -/
theorem isFirst_search {before : Nat → Nat → Prop} [Std.Asymm before] {places : List Nat}
    {reached : Nat → Prop} (sorted : places.Pairwise before) (mem : ∀ i, i ∈ places ↔ reached i)
    (search : Cell) (rest : List Cell) :
    IsFirst before
      (fun i => Matches E s text arr (search :: rest) i ∧ reached i ∧
        Compares arr (search :: rest) i) (places.find? fun i => indexFound (arr.get i) search) := by
  have same : (fun i => i ∈ places ∧ indexFound (arr.get i) search = true) =
      fun i => Matches E s text arr (search :: rest) i ∧ reached i ∧
        Compares arr (search :: rest) i := by
    funext i
    rw [mem i, @indexFound_iff E s text]
    unfold Compares Matches searched
    simp only [getD_cons_zero, ne_eq, reduceCtorEq, not_false_iff, true_and]
    exact propext and_left_comm
  rw [← same]
  exact isFirst_find? sorted _

theorem isFirst_indexOf : ∃ found,
    IsFirst (· < ·)
      (fun i => Matches E s text arr argv i ∧ Reached text arr argv i ∧ Compares arr argv i) found ∧
    js_array_proto_index_of text arr argv = index found := by
  cases argv with
  | nil => exact ⟨none, fun i ⟨_, _, given, _⟩ => given rfl, rfl⟩
  | cons search rest =>
    exact ⟨_, isFirst_search E s text arr sorted_upwards (fun _ => mem_upwards) search rest, rfl⟩

theorem isFirst_lastIndexOf : ∃ found,
    IsFirst (· > ·)
      (fun i => Matches E s text arr argv i ∧ ReachedLast text arr argv i ∧ Compares arr argv i)
      found ∧
    js_array_proto_last_index_of text arr argv = index found := by
  cases argv with
  | nil => exact ⟨none, fun i ⟨_, _, given, _⟩ => given rfl, rfl⟩
  | cons search rest =>
    exact ⟨_, isFirst_search E s text arr sorted_downwards (fun _ => mem_downwards) search rest,
      rfl⟩

/-- `includes` is true exactly if an element from the start on is alike. -/
theorem includes_iff :
    js_array_proto_includes text arr argv = true ↔
      ∃ i, Same s text arr argv i ∧ Reached text arr argv i ∧
        Alike text (arr.get i) (searched argv) := by
  have found : js_array_proto_includes text arr argv = true ↔
      ∃ i, Reached text arr argv i ∧ includesFound (arr.get i) (searched argv) = true := by
    unfold js_array_proto_includes
    by_cases empty : arr.length = 0
    · rw [if_pos empty]
      refine iff_of_false Bool.false_ne_true fun ⟨i, reached, _⟩ => ?_
      unfold Reached at reached
      omega
    · rw [if_neg empty, List.any_eq_true]
      simp only [mem_upwards]
      rfl
  rw [found]
  refine exists_congr fun i => ?_
  rw [@includesFound_iff s text]
  exact and_left_comm

/-- Right where each equal element that is overlooked, or seen against the start, is preceded by one
that is found. -/
theorem searches_right :
    (IndexOfRight E s text arr argv ↔
        ∀ i, Matches E s text arr argv i →
          ¬(Admissible text arr argv i ↔ Reached text arr argv i ∧ Compares arr argv i) →
          ∃ j < i, Matches E s text arr argv j ∧ Admissible text arr argv j ∧
            Reached text arr argv j ∧ Compares arr argv j) ∧
      (LastIndexOfRight E s text arr argv ↔
        ∀ i, Matches E s text arr argv i →
          ¬(AdmissibleLast text arr argv i ↔ ReachedLast text arr argv i ∧ Compares arr argv i) →
          ∃ j > i, Matches E s text arr argv j ∧ AdmissibleLast text arr argv j ∧
            ReachedLast text arr argv j ∧ Compares arr argv j) ∧
      (IncludesRight s text arr argv ↔
        (∀ i, Same s text arr argv i → Admissible text arr argv i →
            ¬(Reached text arr argv i ∧ Alike text (arr.get i) (searched argv)) →
            ∃ j, Same s text arr argv j ∧ Reached text arr argv j ∧
              Alike text (arr.get j) (searched argv)) ∧
          ∀ i, Same s text arr argv i → Reached text arr argv i →
            Alike text (arr.get i) (searched argv) → ¬Admissible text arr argv i →
            ∃ j, Same s text arr argv j ∧ Admissible text arr argv j) :=
  ⟨right_iff (isFirst_indexOf E s text arr argv), right_iff (isFirst_lastIndexOf E s text arr argv),
    (iff_congr (includes_iff s text arr argv) Iff.rfl).trans <| exists_iff_exists.trans <|
      and_congr_right' (forall_congr' fun _ => by rw [and_imp])⟩

end Right

/-- `[null].indexOf(null)` is -1, as is the index of an equal string elsewhere, and `includes` does
not find `1` as a double. -/
theorem null_not_found :
    js_array_proto_index_of (fun _ => "a") ⟨[.null], by decide⟩ [.null] = -1 ∧
      js_array_proto_index_of (fun _ => "a") ⟨[.string 0], by decide⟩ [.string 1] = -1 ∧
      js_array_proto_includes (fun _ => "a") ⟨[.int32 1], by decide⟩ [.float64 (.ofInt 1)] =
        false ∧
      ¬∀ (E : Engine) (s : EngineState) (text : Addr → Name) (arr : LRArray) (argv : List Cell),
        IndexOfRight E s text arr argv := by
  refine ⟨by decide, by decide, by decide, fun right => ?_⟩
  obtain ⟨found, first, gives⟩ :=
    right .bare .fresh (fun _ => "a") ⟨[.null], by decide⟩ [.null]
  have none : found = none := by
    apply index_inj
    rw [← gives]
    decide
  rw [none] at first
  refine first 0 ⟨⟨by decide, fun start given => by cases given⟩, ?_⟩
  unfold Matches
  rw [strictlyEqual_iff]
  decide

end LRJS.ArraySearch
