import Mathlib.Algebra.Ring.Int.Defs
import Mathlib.Algebra.Ring.Nat
import Mathlib.Data.List.Induction

/-!
# Splitting a source

`lr_engine_split_source` (`lr_engine.c`) on the statements that the parser finds.  The parser puts
no token on the nodes of function and class declarations: their `token.start` is `NULL`.
-/

namespace LRJS.SourceSplits

/-- A top-level statement.  Its text is `[first, behind)`; `start` and `len` are of the token of its
node, as an address. -/
structure Statement where
  declares : Bool
  first : Nat
  behind : Nat
  start : Nat
  len : Nat
  bare : declares = true → start = 0 ∧ len = 0

/-- `unit`, whose copy of the source lies at `src`. -/
structure EvalUnit where
  text : List UInt8
  src : Nat
  statements : List Statement
  mapped : 0 < src ∧ src + text.length < 2 ^ 63
  inside : ∀ s ∈ statements, s.behind ≤ text.length

structure Split where
  prefix_len : Nat
  chunks : List (List UInt8)

inductive Outcome where
  | null
  | split (result : Split)
  /-- `memcpy` outside of the source or the chunk. -/
  | fault

/-- The `size_t` of a difference of pointers. -/
def size_t (n : Int) : Nat :=
  (n % 2 ^ 64).toNat

/-- The groups of `per` statements. -/
def groups (per : Nat) : Nat → List Statement → List (List Statement)
  | 0, _ | _, [] => []
  | fuel + 1, s :: rest => (s :: rest).take per :: groups per fuel ((s :: rest).drop per)

variable (unit : EvalUnit)

/-- A chunk; `malloc` refuses more than `PTRDIFF_MAX` bytes. -/
def chunk (pfx : Nat) (group : List Statement) : Option (List (List UInt8)) := do
  let first ← group.head?
  let last ← group.getLast?
  let body_start := size_t (first.start - unit.src)
  let body_end := size_t (last.start + last.len - unit.src)
  let body_len := size_t (body_end - body_start)
  if 2 ^ 63 ≤ size_t (pfx + body_len + 1) then
    some []
  else if pfx ≤ unit.text.length ∧ body_start + body_len ≤ unit.text.length then
    some [unit.text.take pfx ++ (unit.text.drop body_start).take body_len]
  else
    none

/-- `prefix_end`. -/
def prefixEnd (statements : List Statement) : Nat :=
  statements.zipIdx.foldl (fun found (s, i) => if s.declares then i + 1 else found) 0

def lr_engine_split_source (num_threads : Int) : Outcome :=
  if unit.text.length < 100 ∨ num_threads < 2 then
    .null
  else
    let num_threads := (min num_threads 16).toNat
    let n := unit.statements.length
    let prefix_end := prefixEnd unit.statements
    if n < num_threads * 2 then
      .null
    else if prefix_end = 0 ∨ n ≤ prefix_end + 2 then
      .null
    else
      match unit.statements[prefix_end - 1]? with
      | none => .fault
      | some last =>
        let pfx := size_t (last.start + last.len - unit.src)
        let per := min (max ((n - prefix_end) / num_threads) 1) 32
        match (groups per n (unit.statements.drop prefix_end)).mapM (chunk unit pfx) with
        | none => .fault
        | some chunks =>
          if num_threads + 2 ≤ chunks.flatten.length then .fault else .split ⟨pfx, chunks.flatten⟩

/-- The prefix ends behind the last declaration, and the chunks are made of the prefix and the runs
of the later statements. -/
def Partitions (num_threads : Int) (result : Split) : Prop :=
  ∃ (earlier : List Statement) (last : Statement) (later : List Statement)
    (runs : List (List Statement)), unit.statements = earlier ++ last :: later ∧
    last.declares = true ∧ (∀ s ∈ later, s.declares = false) ∧ result.prefix_len = last.behind ∧
    runs.flatten = later ∧ (∀ run ∈ runs, run ≠ []) ∧
    result.chunks.length < min num_threads 16 + 2 ∧
    result.chunks = runs.map fun run =>
      let first := (run.head?.map Statement.first).getD 0
      let behind := (run.getLast?.map Statement.behind).getD 0
      unit.text.take result.prefix_len ++ (unit.text.drop first).take (behind - first)

theorem prefixEnd_concat (statements : List Statement) (s : Statement) :
    prefixEnd (statements ++ [s]) =
      if s.declares then statements.length + 1 else prefixEnd statements := by
  simp [prefixEnd, List.zipIdx_append]

theorem prefixEnd_le (statements : List Statement) : prefixEnd statements ≤ statements.length := by
  induction statements using List.reverseRecOn with
  | nil => exact Nat.le_refl 0
  | append_singleton statements s ih =>
    rw [prefixEnd_concat, List.length_append, List.length_singleton]
    split <;> omega

/-- The prefix ends behind a declaration. -/
theorem declares_prefixEnd {statements : List Statement} {last : Statement}
    (declared : prefixEnd statements ≠ 0)
    (there : statements[prefixEnd statements - 1]? = some last) : last.declares = true := by
  induction statements using List.reverseRecOn with
  | nil => exact absurd rfl declared
  | append_singleton statements s ih =>
    rw [prefixEnd_concat] at declared there
    split at declared
    · next declares =>
        rw [if_pos declares, Nat.add_sub_cancel, List.getElem?_concat_length] at there
        cases there
        exact declares
    · next plain =>
        have inside := prefixEnd_le statements
        rw [if_neg plain, List.getElem?_append_left (by omega)] at there
        exact ih declared there

/-- The returned length of the prefix is the negated address of the source. -/
theorem prefix_len_of_split {num_threads : Int} {result : Split}
    (returned : lr_engine_split_source unit num_threads = .split result) :
    result.prefix_len = 2 ^ 64 - unit.src := by
  unfold lr_engine_split_source at returned
  simp only at returned
  split at returned
  · cases returned
  split at returned
  · cases returned
  split at returned
  · cases returned
  next some_prefix =>
  split at returned
  · cases returned
  next last there =>
  split at returned
  · cases returned
  next chunks made =>
  split at returned
  · cases returned
  cases returned
  obtain ⟨start, len⟩ := last.bare (declares_prefixEnd (by omega) there)
  have mapped := unit.mapped
  simp only [start, len, size_t]
  omega

/-- What the function returns partitions no unit. -/
theorem split_source_never_partitions (num_threads : Int) (result : Split)
    (returned : lr_engine_split_source unit num_threads = .split result) :
    ¬ Partitions unit num_threads result := by
  rintro ⟨earlier, last, later, runs, parsed, _, _, ends, _⟩
  have inside := unit.inside last (by simp [parsed])
  have mapped := unit.mapped
  rw [prefix_len_of_split unit returned] at ends
  omega

/-- `function add(first, second) { return first + second } { add(1, 2) } { add(3, 4) }
{ print(add(5, 6)) }`. -/
def fourStatements : EvalUnit where
  text :=
    "function add(first, second) \x7b return first + second \x7d".toUTF8.data.toList ++
      " \x7b add(1, 2) \x7d \x7b add(3, 4) \x7d".toUTF8.data.toList ++
      " \x7b print(add(5, 6)) \x7d".toUTF8.data.toList
  src := 4096
  statements :=
    [⟨true, 0, 53, 0, 0, by simp⟩, ⟨false, 54, 67, 0, 0, by simp⟩, ⟨false, 68, 81, 0, 0, by simp⟩,
      ⟨false, 82, 102, 0, 0, by simp⟩]
  mapped := by decide +kernel
  inside := by decide +kernel

/-- Four statements on two threads. -/
theorem split_source_never_partitions_sample :
    lr_engine_split_source fourStatements 2 = .split ⟨2 ^ 64 - 4096, []⟩ ∧
      ¬ Partitions fourStatements 2 ⟨2 ^ 64 - 4096, []⟩ :=
  ⟨rfl, split_source_never_partitions fourStatements 2 _ rfl⟩

/-- Not every split that is returned partitions its unit. -/
theorem split_source_loses_statements :
    ¬ ∀ unit num_threads result, lr_engine_split_source unit num_threads = .split result →
      Partitions unit num_threads result := by
  intro all
  obtain ⟨earlier, last, later, runs, parsed, _, _, ends, _⟩ :=
    all fourStatements 2 ⟨2 ^ 64 - 4096, []⟩ rfl
  have inside : last.behind ≤ fourStatements.text.length :=
    fourStatements.inside last (by simp [parsed])
  have mapped := fourStatements.mapped
  have far : 2 ^ 64 - fourStatements.src = last.behind := ends
  omega

end LRJS.SourceSplits
