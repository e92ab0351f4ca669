import LRJS.Library.Divergence
import LRJS.AstRoundTrip

/-!
# Reading arbitrary bytes

`lr_ast_deserialize` ends on every input without reading outside the buffer.
Whether it answers with a proper tree depends on what it reads on the way.
-/

namespace LRJS.AstCodec

open Divergence List Option LittleEndian

def NodeType.requires : NodeType → List String
  | .program | .block => ["items"]
  | .exprStmt => ["expr"]
  | .ifStmt | .whileStmt | .doWhile => ["cond"]
  | .forIn | .forOf => ["each", "source"]
  | .switchStmt => ["test", "cases"]
  | .caseClause => ["cond", "body"]
  | .defaultClause => ["body"]
  | .throwStmt => ["arg"]
  | .tryStmt => ["body"]
  | .label => ["label"]
  | .withStmt => ["obj"]
  | .varDecl => ["vars"]
  | .varDeclarator => ["var"]
  | .funcDecl | .funcExpr | .arrow => ["params", "body"]
  | .classDecl | .classBody => ["methods"]
  | .binary => ["left", "right"]
  | .unary => ["arg"]
  | .conditional => ["cond", "consequent", "alternate"]
  | .call | .optionalCall | .newExpr => ["callee", "args"]
  | .member | .computedMember | .optionalMember => ["obj", "prop"]
  | .assign => ["target", "value"]
  | .sequence => ["exprs"]
  | .object => ["props"]
  | .property => ["key"]
  | .spread | .spreadElement | .awaitExpr => ["arg"]
  | .template => ["exprs"]
  | .taggedTemplate => ["tag", "exprs"]
  | .defaultValue => ["left", "right"]
  | .importDecl | .exportDecl => ["specifiers"]
  | .exportDefault => ["value"]
  | .forStmt | .breakStmt | .continueStmt | .returnStmt | .catchClause | .debugger | .exportNamed
  | .importSpecifier | .literal | .identifier | .thisExpr | .superExpr | .array | .pattern | .rest
  | .yieldExpr | .templatePart | .importNamespace | .exportAll => []

def Present (place : Option (NodeType × String)) (node : Node) : Prop :=
  ∀ owner field, place = some (owner, field) → field ∈ owner.requires → node ≠ .null

def literalTypes : List Nat :=
  [TOK_BOOL_LIT, TOK_STRING, TOK_NUMBER, TOK_NULL_LIT, TOK_UNDEFINED_LIT, TOK_BIGINT_LIT]

mutual

/-- Node types and literals are defined, the fields are those of the type, counts are right, and
required children are there. -/
def Node.WellFormed : Node → Prop
  | .null => True
  | .node code token _ values =>
    ∃ type, NodeType.ofCode code = some type ∧
      values.WellFormed type token.type (deser_fields type)

def Values.WellFormed (owner : NodeType) (tokenType : Nat) :
    List (String × DeserField) → Values → Prop
  | [], .nil => True
  | field :: fields, .cons value rest =>
    value.WellFormed (owner, field.1) tokenType field.2 ∧
      rest.WellFormed owner tokenType fields
  | _, _ => False

def Value.WellFormed (place : NodeType × String) (tokenType : Nat) : DeserField → Value → Prop
  | .node, .child node => Present (some place) node ∧ node.WellFormed
  | .nodes, .list count items => count = items.length ∧ items.WellFormed place
  | .exprs, .list count items => count = items.length ∧ items.WellFormed place
  | .parts, .texts count items => count = items.length
  | .str, .text _ => True
  | .strRaw, .text _ => True
  | .u8, .byte _ => True
  | .op, .op _ => True
  | .literal, .literal _ => tokenType ∈ literalTypes
  | _, _ => False

def Items.WellFormed (place : NodeType × String) : Items → Prop
  | .nil => True
  | .cons item rest => Present (some place) item ∧ item.WellFormed ∧ rest.WellFormed place

end

/-! ## What is read -/

namespace Entry

def Fails : Entry → Bool
  | .short => true
  | .refused .parser => true
  | .refused .node => true
  | .refused (.nodes _) => true
  | .refused (.copied _) => true
  | _ => false

def Wild : Entry → Bool
  | .refused (.array _) => true
  | .copy chars => copy_size chars.length < chars.length + 1
  | _ => false

/-- The type is defined, the count is no negative `int`, the child may be absent. -/
def Sensible : Entry → Prop
  | .type code => (NodeType.ofCode code).isSome
  | .absent place => Present place .null
  | .count n => n < 2147483648
  | .parts n => n < 2147483648
  | _ => True

def tagTypes : List (Nat × Nat) :=
  [(0, TOK_BOOL_LIT), (1, TOK_STRING), (2, TOK_NUMBER), (3, TOK_NULL_LIT),
    (4, TOK_UNDEFINED_LIT), (5, TOK_BIGINT_LIT)]

def Canonical : Entry → Prop
  | .count n => n < 2147483648
  | .text chars | .copy chars => ∀ c ∈ chars, c ≠ 0
  | .op length chars => length ≤ 15 ∧ ∀ c ∈ chars, c ≠ 0
  | .tag value tokenType => (value, tokenType) ∈ tagTypes
  | .refused (.interned _) => False
  | _ => True

end Entry

def Writes (log : List Entry) (written bytes : List UInt8) : Prop :=
  (∀ entry ∈ log, entry.Canonical) ∧ written = bytes ∨
    (∃ entry ∈ log, ¬entry.Canonical) ∧ Diverge written bytes

variable {log : List Entry} {bytes : List UInt8}

theorem writes_same (canonical : ∀ entry ∈ log, entry.Canonical) : Writes log bytes bytes :=
  .inl ⟨canonical, rfl⟩

theorem Writes.append {log' : List Entry} {written written' bytes' : List UInt8}
    (first : Writes log written bytes) (second : Writes log' written' bytes') :
    Writes (log ++ log') (written ++ written') (bytes ++ bytes') := by
  rcases first with ⟨canonical, rfl⟩ | ⟨⟨entry, member, bad⟩, diverge⟩
  · rcases second with ⟨canonical', rfl⟩ | ⟨⟨entry, member, bad⟩, diverge⟩
    · exact writes_same (forall_mem_append.mpr ⟨canonical, canonical'⟩)
    · exact .inr ⟨⟨entry, mem_append_right _ member, bad⟩, diverge.after _⟩
  · exact .inr ⟨⟨entry, mem_append_left _ member, bad⟩, diverge.append _ _⟩

theorem Writes.iff {written : List UInt8} (writes : Writes log written bytes) :
    written = bytes ↔ ∀ entry ∈ log, entry.Canonical := by
  rcases writes with ⟨canonical, same⟩ | ⟨⟨entry, member, bad⟩, diverge⟩
  · exact iff_of_true same canonical
  · exact iff_of_false diverge.ne fun canonical => bad (canonical entry member)

/-! ## Reading -/

section Reading

variable {buf : List UInt8} {memory : List Entry → Request → Bool} {α β : Type}

structure Advance (buf : List UInt8) (st st' : DeserState) (log : List Entry)
    (bytes : List UInt8) : Prop where
  logged : st'.log = st.log ++ log
  error : st'.error = (st.error || log.any Entry.Fails)
  wild : st'.wild = (st.wild || log.any Entry.Wild)
  inside : st'.pos ≤ buf.length
  next : buf.drop st.pos = bytes ++ buf.drop st'.pos

variable {st : DeserState}

theorem advance_refl (inside : st.pos ≤ buf.length) : Advance buf st st [] [] :=
  ⟨by simp, by simp, by simp, inside, rfl⟩

variable {log log' : List Entry} {bytes : List UInt8}

theorem Advance.trans {st' st'' : DeserState}
    {bytes' : List UInt8} (first : Advance buf st st' log bytes)
    (second : Advance buf st' st'' log' bytes') :
    Advance buf st st'' (log ++ log') (bytes ++ bytes') := by
  refine ⟨?_, ?_, ?_, second.inside, ?_⟩
  · rw [second.logged, first.logged, append_assoc]
  · rw [second.error, first.error, any_append, Bool.or_assoc]
  · rw [second.wild, first.wild, any_append, Bool.or_assoc]
  · rw [first.next, second.next, append_assoc]

theorem Advance.pos {st' : DeserState}
    (advance : Advance buf st st' log bytes) (inside : st.pos ≤ buf.length) :
    st'.pos = st.pos + bytes.length := by
  have lengths := congrArg length advance.next
  have inside' := advance.inside
  rw [length_drop, length_append, length_drop] at lengths
  omega

/-- The reader ends on every state with less than the given number of bytes ahead; without an error,
value, entries and bytes are as the content says. -/
def Reads (buf : List UInt8) (bound : Nat) (read : DeserState → Option (α × DeserState))
    (content : α → List Entry → List UInt8 → Prop) : Prop :=
  ∀ st, st.pos ≤ buf.length → buf.length < st.pos + bound →
    ∃ value st' log bytes, read st = some (value, st') ∧ Advance buf st st' log bytes ∧
      (st'.error = false → content value log bytes)

variable {bound : Nat}

variable {content : α → List Entry → List UInt8 → Prop}

theorem reads_done {value : α}
    (holds : content value [] []) : Reads buf bound (fun st => some (value, st)) content :=
  fun st inside _ => ⟨value, st, [], [], rfl, advance_refl inside, fun _ => holds⟩

variable {read : DeserState → Option (α × DeserState)} {first : α → List Entry → List UInt8 → Prop}

section

variable (reads : Reads buf bound read first)
include reads

theorem Reads.bind {next : α × DeserState → Option (β × DeserState)}
    {content : β → List Entry → List UInt8 → Prop}
    (later : ∀ value, Reads buf bound (fun st => next (value, st)) fun result log' bytes' =>
      ∀ log bytes, first value log bytes → content result (log ++ log') (bytes ++ bytes')) :
    Reads buf bound (fun st => (read st).bind next) content := by
  intro st inside near
  obtain ⟨value, st', log, bytes, ran, advance, holds⟩ := reads st inside near
  have moved := advance.pos inside
  obtain ⟨result, st'', log', bytes', ran', advance', holds'⟩ :=
    later value st' advance.inside (by omega)
  refine ⟨result, st'', log ++ log', bytes ++ bytes',
    (congrArg (Option.bind · next) ran).trans ran', advance.trans advance', fun clean => ?_⟩
  have cleanBefore : st'.error = false := by
    have flag := advance'.error
    rw [clean] at flag
    exact (Bool.or_eq_false_iff.mp flag.symm).1
  exact holds' clean log bytes (holds cleanBefore)

theorem Reads.map {step : α × DeserState → β × DeserState}
    {content : β → List Entry → List UInt8 → Prop} (still : ∀ value st, (step (value, st)).2 = st)
    (later : ∀ value st log bytes, st.error = false → first value log bytes →
      content (step (value, st)).1 log bytes) :
    Reads buf bound (fun st => (read st).map step) content := by
  intro st inside near
  obtain ⟨value, st', log, bytes, ran, advance, holds⟩ := reads st inside near
  have pair : step (value, st') = ((step (value, st')).1, st') := Prod.ext rfl (still value st')
  exact ⟨_, st', log, bytes, (congrArg (Option.map step) ran).trans (congrArg some pair), advance,
    fun clean => later value st' log bytes clean (holds clean)⟩

theorem Reads.mono (weaker : ∀ value log bytes, first value log bytes → content value log bytes) :
    Reads buf bound read content := by
  intro st inside near
  obtain ⟨value, st', log, bytes, ran, advance, holds⟩ := reads st inside near
  exact ⟨value, st', log, bytes, ran, advance, fun clean => weaker _ _ _ (holds clean)⟩

end

variable {entry : Entry}

theorem Advance.note (inside : st.pos ≤ buf.length)
    (fine : entry.Fails = false) (tame : entry.Wild = false) :
    Advance buf st (st.note entry) [entry] [] :=
  ⟨rfl, by simp [DeserState.note, fine], by simp [DeserState.note, tame], inside, rfl⟩

theorem Reads.note (fine : entry.Fails = false) (tame : entry.Wild = false)
    (reads : Reads buf bound read fun value log bytes => content value (entry :: log) bytes) :
    Reads buf bound (fun st => read (st.note entry)) content := by
  intro st inside near
  obtain ⟨value, st', log, bytes, ran, advance, holds⟩ := reads (st.note entry) inside near
  exact ⟨value, st', [entry] ++ log, [] ++ bytes, ran,
    (Advance.note inside fine tame).trans advance, holds⟩

theorem Advance.fail (inside : st.pos ≤ buf.length)
    (failure : entry.Fails = true) (tame : entry.Wild = false) :
    Advance buf st (st.fail entry) [entry] [] :=
  ⟨rfl, by simp [DeserState.fail, failure], by simp [DeserState.fail, tame], inside, rfl⟩

theorem Advance.chars {length : Nat} (inside : st.pos + length ≤ buf.length) :
    ∃ chars, chars.length = length ∧ read_chars buf st.pos length = some chars ∧
      ∀ (entry : Entry) (wild : Bool), entry.Fails = false → wild = (st.wild || entry.Wild) →
        Advance buf st { st.note entry with pos := st.pos + length, wild } [entry] chars := by
  refine ⟨_, ?_, read_chars_inside inside, fun entry wild fine same => ?_⟩
  · rw [length_take, length_drop]
    omega
  · refine ⟨rfl, by simp [DeserState.note, fine], by simp [same], inside, ?_⟩
    rw [← drop_drop, take_append_drop]

theorem read_number_reads (width : Nat) :
    Reads buf bound (read_number buf width) fun value log bytes =>
      log = [] ∧ bytes = LittleEndian.put width value ∧ value < 256 ^ width := by
  intro st inside near
  by_cases short : st.pos + width > buf.length
  · refine ⟨0, st.fail .short, _, _, by rw [read_number, if_pos short],
      Advance.fail inside rfl rfl, fun clean => ?_⟩
    cases clean
  · have enough : st.pos + width ≤ buf.length := Nat.not_lt.mp short
    have size : ((buf.drop st.pos).take width).length = width := by
      rw [length_take, length_drop]
      omega
    refine ⟨get ((buf.drop st.pos).take width), { st with pos := st.pos + width }, [],
      (buf.drop st.pos).take width, ?_, ⟨?_, ?_, ?_, enough, ?_⟩, fun _ => ⟨rfl, ?_, ?_⟩⟩
    · rw [read_number, if_neg short, read_chars_inside enough]
      rfl
    · simp
    · simp
    · simp
    · rw [← drop_drop, take_append_drop]
    · have back := put_get ((buf.drop st.pos).take width)
      rw [size] at back
      exact back.symm
    · have small := get_lt ((buf.drop st.pos).take width)
      rwa [size] at small

theorem read_u8_reads : Reads buf bound (read_u8 buf) fun value log bytes =>
    log = [] ∧ bytes = ser_u8 value ∧ value < 256 :=
  read_number_reads 1

theorem read_u16_reads : Reads buf bound (read_u16 buf) fun value log bytes =>
    log = [] ∧ bytes = ser_u16 value ∧ value < 65536 :=
  read_number_reads 2

theorem read_u32_reads : Reads buf bound (read_u32 buf) fun value log bytes =>
    log = [] ∧ bytes = ser_u32 value ∧ value < 4294967296 :=
  read_number_reads 4

theorem read_f64_reads : Reads buf bound (read_f64 buf) fun value log bytes =>
    log = [] ∧ bytes = ser_f64 value := by
  apply (read_number_reads 8).map
  · intro value st
    rfl
  · rintro value st log bytes - ⟨none, same, small⟩
    refine ⟨none, ?_⟩
    rw [same, ser_f64, BitVec.toNat_ofNat, Nat.mod_eq_of_lt (by omega)]

theorem read_i64_reads : Reads buf bound (read_i64 buf) fun value log bytes =>
    log = [] ∧ bytes = ser_f64 value := by
  apply read_u32_reads.bind
  intro lo
  apply read_u32_reads.map
  · intro hi st
    rfl
  · rintro hi st log' bytes' - ⟨none', same', small'⟩ log bytes ⟨none, same, small⟩
    refine ⟨by rw [none, none', append_nil], ?_⟩
    have whole : (BitVec.ofNat 64 (lo + 4294967296 * hi)).toNat = lo + 4294967296 * hi := by
      rw [BitVec.toNat_ofNat]
      omega
    have low : ser_u32 lo = ser_u32 (lo + 4294967296 * hi) := by
      have cut := put_mod 4 (lo + 4294967296 * hi)
      rwa [show (lo + 4294967296 * hi) % 256 ^ 4 = lo by omega] at cut
    have high : (lo + 4294967296 * hi) / 256 ^ 4 = hi := by
      omega
    rw [same, same', low, ser_f64, whole]
    change _ = put (4 + 4) _
    rw [put_add, high]
    rfl

def TextContent (chars : Option (List UInt8)) (log : List Entry) (bytes : List UInt8) : Prop :=
  (∀ entry ∈ log, entry.Sensible) ∧ Writes log (ser_str chars) bytes

theorem c_string_length_lt {chars : List UInt8} (nul : ¬∀ c ∈ chars, c ≠ 0) :
    (c_string chars).length < chars.length := by
  have part : (c_string chars).length ≤ chars.length := (List.takeWhile_prefix _).length_le
  have other : (c_string chars).length ≠ chars.length := by
    intro same
    have whole : c_string chars = chars := (List.takeWhile_prefix _).eq_of_length same
    rw [← whole] at nul
    exact nul (c_string_storable chars)
  omega

theorem textContent_chars {chars : List UInt8} (entry : Entry) (sensible : entry.Sensible)
    (canonical : entry.Canonical ↔ ∀ c ∈ chars, c ≠ 0) (small : chars.length < 4294967296) :
    TextContent (some (c_string chars)) [entry] (ser_u32 chars.length ++ chars) := by
  refine ⟨forall_mem_singleton.mpr sensible, ?_⟩
  by_cases plain : ∀ c ∈ chars, c ≠ 0
  · rw [c_string_eq plain, ser_str_some small]
    exact writes_same (forall_mem_singleton.mpr (canonical.mpr plain))
  · have shorter := c_string_length_lt plain
    refine .inr ⟨⟨entry, by simp, fun fine => plain (canonical.mp fine)⟩, ?_⟩
    exact (diverge_put (by omega) (by omega) (by omega)).append _ _

theorem textContent_empty {chars : Option (List UInt8)} (empty : ser_str chars = ser_u32 0) :
    TextContent chars [] (ser_u32 0) := by
  refine ⟨by simp, ?_⟩
  rw [empty]
  exact writes_same (by simp)

/-- A string is read inside the buffer. -/
theorem deser_str_reads : Reads buf bound (deser_str buf memory) TextContent := by
  apply read_u32_reads.bind
  intro n st inside near
  by_cases error : st.error
  · refine ⟨some [], st, [], [], by simp [error], advance_refl inside, fun clean => ?_⟩
    rw [error] at clean
    cases clean
  · by_cases zero : n = 0
    · refine ⟨some [], st, [], [], by simp [zero], advance_refl inside, ?_⟩
      rintro - log bytes ⟨rfl, rfl, -⟩
      subst zero
      exact textContent_empty rfl
    · by_cases short : st.pos + n > buf.length
      · refine ⟨some [], st.fail .short, _, _, by simp [error, zero, short],
          Advance.fail inside rfl rfl, fun clean => ?_⟩
        cases clean
      · obtain ⟨chars, length, ran, advance⟩ := Advance.chars (Nat.not_lt.mp short)
        have moved := advance (.text chars) st.wild rfl (Bool.or_false _).symm
        cases served : memory (st.log ++ [.text chars]) (.interned n) with
        | true =>
          refine ⟨some (c_string chars), _, _, _, ?_, moved, ?_⟩
          · simp [error, zero, short, ran, DeserState.note, served]
          · rintro - log bytes ⟨rfl, rfl, small⟩
            subst length
            exact textContent_chars (.text chars) trivial Iff.rfl small
        | false =>
          have noted : Advance buf _ _ [.refused (.interned n)] [] :=
            Advance.note moved.inside rfl rfl
          have refused := moved.trans noted
          refine ⟨some [], _, _, _, ?_, refused, ?_⟩
          · simp [error, zero, short, ran, DeserState.note, served]
          · rintro - log bytes ⟨rfl, rfl, small⟩
            refine ⟨by simp [Entry.Sensible], .inr ⟨?_, ?_⟩⟩
            · exact ⟨.refused (.interned n), by simp, id⟩
            · exact (diverge_put (by omega) (by omega) (Ne.symm zero)).append [] _

theorem deser_str_raw_reads : Reads buf bound (deser_str_raw buf memory) TextContent := by
  apply read_u32_reads.bind
  intro n st inside near
  by_cases error : st.error
  · refine ⟨none, st, [], [], by simp [error], advance_refl inside, fun clean => ?_⟩
    rw [error] at clean
    cases clean
  · by_cases zero : n = 0
    · refine ⟨none, st, [], [], by simp [zero], advance_refl inside, ?_⟩
      rintro - log bytes ⟨rfl, rfl, -⟩
      subst zero
      exact textContent_empty rfl
    · by_cases short : st.pos + n > buf.length
      · refine ⟨none, st.fail .short, _, _, by simp [error, zero, short],
          Advance.fail inside rfl rfl, fun clean => ?_⟩
        cases clean
      · cases served : memory st.log (.copied (copy_size n)) with
        | true =>
          obtain ⟨chars, length, ran, advance⟩ := Advance.chars (Nat.not_lt.mp short)
          subst length
          refine ⟨some (c_string chars), _, _, _, ?_, advance (.copy chars) _ rfl rfl, ?_⟩
          · simp [error, zero, short, ran, served, Entry.Wild]
          · rintro - log bytes ⟨rfl, rfl, small⟩
            exact textContent_chars (.copy chars) trivial Iff.rfl small
        | false =>
          refine ⟨none, st.fail (.refused (.copied (copy_size n))), _, _,
            by simp [error, zero, short, served], Advance.fail inside rfl rfl, fun clean => ?_⟩
          cases clean

/-- An operator is read inside the buffer, and clipped to its field. -/
theorem deser_op_reads : Reads buf bound (deser_op buf) fun op log bytes =>
    (∀ entry ∈ log, entry.Sensible) ∧ Writes log (ser_op op) bytes := by
  apply read_u8_reads.bind
  intro length st inside near
  by_cases short : st.pos + min length 15 > buf.length
  · refine ⟨[], st.fail .short, _, _, by simp [short], Advance.fail inside rfl rfl,
      fun clean => ?_⟩
    cases clean
  · obtain ⟨chars, size, ran, advance⟩ := Advance.chars (Nat.not_lt.mp short)
    refine ⟨c_string chars, _, _, _, ?_,
      advance (.op length chars) st.wild rfl (Bool.or_false _).symm, ?_⟩
    · simp [short, ran, DeserState.note]
    · rintro - log bytes ⟨rfl, rfl, small⟩
      refine ⟨by simp [Entry.Sensible], ?_⟩
      have part : (c_string chars).length ≤ chars.length := (List.takeWhile_prefix _).length_le
      have fifteen : chars.length ≤ 15 := by omega
      rw [ser_op_eq (part.trans fifteen)]
      by_cases canonical : length ≤ 15 ∧ ∀ c ∈ chars, c ≠ 0
      · rw [c_string_eq canonical.2, size, min_eq_left canonical.1]
        exact writes_same (by simpa [Entry.Canonical] using canonical)
      · refine .inr ⟨⟨.op length chars, by simp, canonical⟩, ?_⟩
        have other : (c_string chars).length ≠ length := by
          intro same
          apply canonical
          refine ⟨by omega, ?_⟩
          by_contra nul
          have shorter := c_string_length_lt nul
          omega
        exact (diverge_put (by omega) (by omega) other).append _ _

def PayloadContent (tag : Nat) (token : Token) (result : Token × Payload) (log : List Entry)
    (bytes : List UInt8) : Prop :=
  result.1 = { token with type := result.1.type } ∧ (∀ entry ∈ log, entry.Sensible) ∧
    ∃ tag' written, (tag', result.1.type) ∈ Entry.tagTypes ∧
      ser_literal result.1.type result.2 = ser_u8 tag' ++ written ∧
      (tag' = tag ∧ Writes log written bytes ∨ tag' = 4 ∧ 5 < tag)

theorem payloadContent_plain {tag : Nat} {token : Token} {type : Nat} {payload : Payload}
    (known : (tag, type) ∈ Entry.tagTypes)
    (written : ser_literal type payload = ser_u8 tag ++ bytes) :
    PayloadContent tag token ({ token with type := type }, payload) [] bytes :=
  ⟨rfl, by simp, tag, bytes, known, written, .inl ⟨rfl, writes_same (by simp)⟩⟩

/-- Reading a literal stays inside the buffer and reads a literal of its kind. -/
theorem deser_payload_reads (tag : Nat) (token : Token) :
    Reads buf bound (deser_payload buf memory tag token) (PayloadContent tag token) := by
  by_cases bool : tag = 0
  · subst bool
    apply read_u32_reads.map
    · intro value st
      rfl
    · rintro value st _ _ - ⟨rfl, rfl, small⟩
      apply payloadContent_plain (by decide)
      change ser_u8 0 ++ ser_u32 (BitVec.ofNat 64 value).toNat = _
      rw [BitVec.toNat_ofNat, Nat.mod_eq_of_lt (by omega)]
  by_cases string : tag = 1
  · subst string
    apply deser_str_reads.map
    · intro value st
      rfl
    · rintro value st log bytes - ⟨sensible, writes⟩
      have known : (1, TOK_STRING) ∈ Entry.tagTypes := by decide
      exact ⟨rfl, sensible, 1, _, known, rfl, .inl ⟨rfl, writes⟩⟩
  by_cases number : tag = 2
  · subst number
    apply read_f64_reads.map
    · intro value st
      rfl
    · rintro value st _ _ - ⟨rfl, rfl⟩
      exact payloadContent_plain (by decide) rfl
  by_cases null : tag = 3
  · subst null
    exact reads_done (payloadContent_plain (by decide) rfl)
  by_cases bigint : tag = 5
  · subst bigint
    apply read_i64_reads.map
    · intro value st
      rfl
    · rintro value st _ _ - ⟨rfl, rfl⟩
      exact payloadContent_plain (by decide) rfl
  have unfolded : deser_payload buf memory tag token = fun st =>
      some (({ token with type := TOK_UNDEFINED_LIT }, ⟨minus_one, none⟩), st) := by
    funext st
    simp [deser_payload, bool, string, number, null, bigint]
  rw [unfolded]
  apply reads_done
  have known : (4, TOK_UNDEFINED_LIT) ∈ Entry.tagTypes := by decide
  refine ⟨rfl, by simp, 4, [], known, rfl, ?_⟩
  by_cases undefined : tag = 4
  · exact .inl ⟨undefined.symm, writes_same (by simp)⟩
  · exact .inr ⟨rfl, by omega⟩

def LiteralContent (token : Token) (result : Token × Payload) (log : List Entry)
    (bytes : List UInt8) : Prop :=
  result.1 = { token with type := result.1.type } ∧ result.1.type ∈ literalTypes ∧
    (∀ entry ∈ log, entry.Sensible) ∧
    (result.1.type = token.type → Writes log (ser_literal result.1.type result.2) bytes) ∧
    (result.1.type ≠ token.type → ∃ entry ∈ log, ¬entry.Canonical)

theorem tagTypes_literal {tag type : Nat} (known : (tag, type) ∈ Entry.tagTypes) :
    type ∈ literalTypes ∧ tag < 6 := by
  have all : ∀ pair ∈ Entry.tagTypes, pair.2 ∈ literalTypes ∧ pair.1 < 6 := by decide
  exact all _ known

theorem tagTypes_unique {tag type type' : Nat} (first : (tag, type) ∈ Entry.tagTypes)
    (second : (tag, type') ∈ Entry.tagTypes) : type = type' := by
  have all : ∀ pair ∈ Entry.tagTypes, ∀ pair' ∈ Entry.tagTypes, pair.1 = pair'.1 →
      pair.2 = pair'.2 := by decide
  exact all _ first _ second rfl

/-- A literal is read inside the buffer. -/
theorem deser_literal_reads (token : Token) :
    Reads buf bound (deser_literal buf memory token) (LiteralContent token) := by
  apply read_u8_reads.bind
  intro tag
  apply Reads.note rfl rfl
  apply (deser_payload_reads tag token).mono
  rintro ⟨token', payload⟩ log' bytes' ⟨same, sensible, tag', written, known, ser, verdict⟩ _ _
    ⟨rfl, rfl, small⟩
  refine ⟨same, (tagTypes_literal known).1, ?_, ?_, ?_⟩
  · exact forall_mem_cons.mpr ⟨trivial, sensible⟩
  · intro unchanged
    rw [ser]
    rcases verdict with ⟨rfl, writes⟩ | ⟨rfl, unknown⟩
    · have canonical : (Entry.tag tag' token.type).Canonical := by
        rw [← unchanged]
        exact known
      have here : Writes [.tag tag' token.type] (ser_u8 tag') (ser_u8 tag') :=
        writes_same (forall_mem_singleton.mpr canonical)
      exact here.append writes
    · refine .inr ⟨⟨.tag tag token.type, by simp, fun canonical => ?_⟩, ?_⟩
      · have := (tagTypes_literal canonical).2
        omega
      · exact (diverge_put (by omega) (by omega) (by omega)).append _ _
  · intro changed
    refine ⟨.tag tag token.type, by simp, fun canonical => ?_⟩
    rcases verdict with ⟨rfl, -⟩ | ⟨-, unknown⟩
    · exact changed (tagTypes_unique known canonical)
    · have := (tagTypes_literal canonical).2
      omega

theorem deser_parts_reads (count : Nat) :
    Reads buf bound (deser_parts buf memory count) fun parts log bytes =>
      parts.length = count ∧ (∀ entry ∈ log, entry.Sensible) ∧
        Writes log (parts.flatMap ser_str) bytes := by
  induction count with
  | zero => exact reads_done ⟨rfl, by simp, writes_same (by simp)⟩
  | succ count ih =>
    apply deser_str_raw_reads.bind
    intro part
    apply ih.map
    · intro parts st
      rfl
    · rintro parts st log' bytes' - ⟨length, sensible', writes'⟩ log bytes ⟨sensible, writes⟩
      exact ⟨congrArg Nat.succ length, forall_mem_append.mpr ⟨sensible, sensible'⟩,
        writes.append writes'⟩

/-! ## Nodes -/

def NodeContent (place : Option (NodeType × String)) (node : Node) (log : List Entry)
    (bytes : List UInt8) : Prop :=
  (Present place node ∧ node.WellFormed ↔ ∀ entry ∈ log, entry.Sensible) ∧
    Writes log (ser_node node) bytes ∧ (node = .null → log = [.absent place])

def ValueContent (owner : NodeType) (field : String × DeserField) (value : Value)
    (log : List Entry) (bytes : List UInt8) : Prop :=
  ∀ tokenType,
    (value.WellFormed (owner, field.1) tokenType field.2 ↔ ∀ entry ∈ log, entry.Sensible) ∧
      Writes log (ser_value tokenType field.2.written value) bytes

theorem valueContent_sensible {owner : NodeType} {field : String × DeserField} {value : Value}
    (wellFormed : ∀ tokenType, value.WellFormed (owner, field.1) tokenType field.2)
    (sensible : ∀ entry ∈ log, entry.Sensible)
    (writes : ∀ tokenType, Writes log (ser_value tokenType field.2.written value) bytes) :
    ValueContent owner field value log bytes :=
  fun tokenType => ⟨iff_of_true (wellFormed tokenType) sensible, writes tokenType⟩

theorem int_of_u32_negative {n : Nat} (small : n < 4294967296) (large : ¬n < 2147483648) :
    int_of_u32 n < 0 := by
  rw [int_of_u32, if_neg large]
  omega

theorem u32_of_int_of_u32 {n : Nat} (small : n < 4294967296) : u32_of_int (int_of_u32 n) = n := by
  rw [u32_of_int, int_of_u32]
  split <;> omega

def Framed (entry : Entry) (log log' : List Entry) : Prop :=
  ∀ P : Entry → Prop, (∀ count, P (.refused (.array count))) →
    ((∀ entry ∈ log', P entry) ↔ P entry ∧ ∀ entry ∈ log, P entry)

theorem Reads.array (entry : Entry) (count : Nat) (fine : entry.Fails = false)
    (tame : entry.Wild = false) (reads : Reads buf bound read content) :
    Reads buf bound (fun st => read (allocate_array memory count (st.note entry)))
      fun value log' bytes => ∃ log, Framed entry log log' ∧ content value log bytes := by
  intro st inside near
  by_cases served : count = 0 ∨ memory (st.note entry).log (.array count)
  · have same : allocate_array memory count (st.note entry) = st.note entry := if_pos served
    obtain ⟨value, st', log, bytes, ran, advance, holds⟩ := reads (st.note entry) inside near
    simp only [same]
    refine ⟨value, st', _, _, ran, (Advance.note inside fine tame).trans advance, fun clean => ?_⟩
    exact ⟨log, fun P _ => forall_mem_cons, holds clean⟩
  · have other : allocate_array memory count (st.note entry) =
        { (st.note entry).note (.refused (.array count)) with wild := true } := if_neg served
    have harmless : (Entry.refused (.array count)).Fails = false := rfl
    have moved : Advance buf st { (st.note entry).note (.refused (.array count)) with wild := true }
        [entry, .refused (.array count)] [] :=
      ⟨by simp [DeserState.note], by simp [DeserState.note, fine, harmless],
        by simp [Entry.Wild], inside, rfl⟩
    obtain ⟨value, st', log, bytes, ran, advance, holds⟩ :=
      reads { (st.note entry).note (.refused (.array count)) with wild := true } inside near
    simp only [other]
    refine ⟨value, st', _, _, ran, moved.trans advance, fun clean => ⟨log, ?_, holds clean⟩⟩
    intro P arrays
    rw [cons_append, forall_mem_cons, cons_append, forall_mem_cons]
    exact and_congr_right fun _ => and_iff_right (arrays count)

theorem Writes.framed {written : List UInt8}
    (framed : Framed entry log log') (canonical : entry.Canonical)
    (writes : Writes log written bytes) : Writes log' written bytes := by
  have same := (framed Entry.Canonical fun _ => trivial).trans (and_iff_right canonical)
  rcases writes with ⟨all, equal⟩ | ⟨⟨bad, member, other⟩, diverge⟩
  · exact .inl ⟨same.mpr all, equal⟩
  · refine .inr ⟨?_, diverge⟩
    by_contra none
    push Not at none
    exact other (same.mp none bad member)

theorem valueContent_array {owner : NodeType} {name : String} {kind : DeserField} {n : Nat}
    {value : Value} {proper : Prop} {written : List UInt8}
    (small : n < 4294967296) (framed : Framed (.parts n) log log')
    (sensible : proper ↔ ∀ entry ∈ log, entry.Sensible) (writes : Writes log written bytes)
    (wellFormed : ∀ tokenType, value.WellFormed (owner, name) tokenType kind ↔
      int_of_u32 n = (int_of_u32 n).toNat ∧ proper)
    (bytesOf : ∀ tokenType, ser_value tokenType kind.written value =
      ser_u32 (u32_of_int (int_of_u32 n)) ++ written) :
    ValueContent owner (name, kind) value log' (ser_u32 n ++ bytes) := by
  intro tokenType
  refine ⟨?_, ?_⟩
  · rw [wellFormed, framed Entry.Sensible fun _ => trivial, ← sensible]
    apply and_congr_left
    intro _
    change _ ↔ n < 2147483648
    rw [int_of_u32]
    split <;> omega
  · rw [bytesOf, u32_of_int_of_u32 small]
    have here : Writes [] (ser_u32 n) (ser_u32 n) := writes_same (by simp)
    exact here.append (writes.framed framed trivial)

section Fields

variable {readNode : Option (NodeType × String) → DeserState → Option (Node × DeserState)}

def ItemsContent (place : NodeType × String) (count : Nat) (items : Items) (log : List Entry)
    (bytes : List UInt8) : Prop :=
  items.length = count ∧ (items.WellFormed place ↔ ∀ entry ∈ log, entry.Sensible) ∧
    Writes log (ser_items count items) bytes

theorem deser_items_reads (nodes : ∀ place, Reads buf bound (readNode place) (NodeContent place))
    (place : NodeType × String) (count : Nat) :
    Reads buf bound (deser_items readNode place count) (ItemsContent place count) := by
  induction count with
  | zero => exact reads_done ⟨rfl, by simp [Items.WellFormed], writes_same (by simp)⟩
  | succ count ih =>
    apply (nodes (some place)).bind
    intro item
    apply ih.map
    · intro items st
      rfl
    · rintro items st log' bytes' - ⟨length, wellFormed', writes'⟩ log bytes
        ⟨wellFormed, writes, -⟩
      refine ⟨congrArg Nat.succ length, ?_, writes.append writes'⟩
      rw [forall_mem_append, ← wellFormed, ← wellFormed', and_assoc]
      rfl

/-- Reading a list of nodes stays inside the buffer if reading a node does. -/
theorem deser_node_list_reads
    (nodes : ∀ place, Reads buf bound (readNode place) (NodeContent place)) (owner : NodeType)
    (name : String) :
    Reads buf bound (deser_node_list buf memory readNode (owner, name))
      (ValueContent owner (name, .nodes)) := by
  apply read_u32_reads.bind
  intro n
  apply Reads.note rfl rfl
  by_cases zero : n = 0
  · subst zero
    apply reads_done
    rintro log bytes ⟨rfl, rfl, -⟩
    refine valueContent_sensible (fun _ => ⟨rfl, trivial⟩) (by simp [Entry.Sensible]) fun _ => ?_
    exact writes_same (by simp [Entry.Canonical])
  · intro st inside near
    cases served : memory st.log (.nodes n) with
    | false =>
      refine ⟨.list (int_of_u32 n) .nil, st.fail (.refused (.nodes n)), _, _, ?_,
        Advance.fail inside rfl rfl, fun clean => ?_⟩
      · simp [deser_nodes, zero, served]
      · cases clean
    | true =>
      obtain ⟨items, st', log', bytes', ran, advance, holds⟩ :=
        deser_items_reads nodes (owner, name) n st inside near
      refine ⟨.list (int_of_u32 n) items, st', log', bytes', ?_, advance, ?_⟩
      · simp [deser_nodes, zero, served, ran]
      · rintro clean log bytes ⟨rfl, rfl, small⟩ tokenType
        obtain ⟨length, wellFormed, writes⟩ := holds clean
        change (int_of_u32 n = items.length ∧ items.WellFormed (owner, name) ↔
          ∀ entry ∈ Entry.count n :: log', entry.Sensible) ∧
          Writes (Entry.count n :: log') (ser_u32 (int_of_u32 n).toNat ++
            ser_items (int_of_u32 n).toNat items) (ser_u32 n ++ bytes')
        rw [forall_mem_cons, ← wellFormed]
        by_cases large : n < 2147483648
        · rw [int_of_length large, length, Int.toNat_natCast]
          have here : Writes [.count n] (ser_u32 n) (ser_u32 n) :=
            writes_same (forall_mem_singleton.mpr large)
          exact ⟨and_congr_left fun _ => iff_of_true rfl large, here.append writes⟩
        · have negative := int_of_u32_negative small large
          have zeroCount : (int_of_u32 n).toNat = 0 := by omega
          refine ⟨iff_of_false (fun proper => ?_) fun sensible => large sensible.1, ?_⟩
          · omega
          · rw [zeroCount]
            refine .inr ⟨⟨.count n, by simp, large⟩, ?_⟩
            exact (diverge_put (by omega) (by omega) (Ne.symm zero)).append _ _

theorem deser_template_parts_reads (owner : NodeType) (name : String) :
    Reads buf bound (deser_template_parts buf memory) (ValueContent owner (name, .parts)) := by
  apply read_u32_reads.bind
  intro n
  apply ((deser_parts_reads (int_of_u32 n).toNat).array (.parts n)
    (int_of_u32 n).toNat rfl rfl).map
  · intro parts st
    rfl
  · rintro parts st log' bytes' - ⟨log, framed, length, sensible, writes⟩ _ _ ⟨rfl, rfl, small⟩
    have proper : True ↔ ∀ entry ∈ log, entry.Sensible := iff_of_true trivial sensible
    apply valueContent_array small framed proper writes
    · intro tokenType
      change int_of_u32 n = parts.length ↔ _
      rw [length, and_true]
    · intro tokenType
      change _ ++ (parts.take (int_of_u32 n).toNat).flatMap ser_str = _
      rw [← length, take_length]

theorem deser_template_exprs_reads
    (nodes : ∀ place, Reads buf bound (readNode place) (NodeContent place)) (owner : NodeType)
    (name : String) :
    Reads buf bound (deser_template_exprs buf memory readNode (owner, name))
      (ValueContent owner (name, .exprs)) := by
  apply read_u32_reads.bind
  intro n
  apply ((deser_items_reads nodes (owner, name) (int_of_u32 n).toNat).array (.parts n)
    (int_of_u32 n).toNat rfl rfl).map
  · intro items st
    rfl
  · rintro items st log' bytes' - ⟨log, framed, length, wellFormed, writes⟩ _ _ ⟨rfl, rfl, small⟩
    apply valueContent_array small framed wellFormed writes
    · intro tokenType
      change int_of_u32 n = items.length ∧ _ ↔ _
      rw [length]
    · intro tokenType
      rfl

theorem Reads.keep {read : DeserState → Option (Value × DeserState)}
    {content : Value → List Entry → List UInt8 → Prop} (reads : Reads buf bound read content)
    (token : Token) :
    Reads buf bound (fun st => (read st).map fun result => ((token, result.1), result.2))
      fun result log bytes => result.1 = token ∧ content result.2 log bytes :=
  reads.map (fun _ _ => rfl) fun _ _ _ _ _ holds => ⟨rfl, holds⟩

theorem Reads.value {α : Type} {read : DeserState → Option (α × DeserState)}
    {content : α → List Entry → List UInt8 → Prop} (reads : Reads buf bound read content)
    (make : α → Value) {owner : NodeType} {field : String × DeserField} (token : Token)
    (same : ∀ value log bytes, content value log bytes →
      ValueContent owner field (make value) log bytes) :
    Reads buf bound (fun st => ((read st).map fun r => (make r.1, r.2)).map fun result =>
        ((token, result.1), result.2))
      fun result log bytes => result.1 = token ∧ ValueContent owner field result.2 log bytes :=
  (reads.map (fun _ _ => rfl) fun _ _ _ _ _ holds => same _ _ _ holds).keep token

/-- A field is read inside the buffer if the nodes below it are. -/
theorem deser_field_reads (nodes : ∀ place, Reads buf bound (readNode place) (NodeContent place))
    (owner : NodeType) {field : String × DeserField} (plain : field.2 ≠ .literal) (token : Token) :
    Reads buf bound (deser_field buf memory readNode owner field token)
      fun result log bytes => result.1 = token ∧ ValueContent owner field result.2 log bytes := by
  obtain ⟨name, kind⟩ := field
  cases kind with
  | node =>
    apply (nodes (some (owner, name))).value .child token
    rintro node log bytes ⟨wellFormed, writes, -⟩ tokenType
    exact ⟨wellFormed, writes⟩
  | nodes => exact (deser_node_list_reads nodes owner name).keep token
  | str =>
    apply deser_str_reads.value .text token
    rintro chars log bytes ⟨sensible, writes⟩
    exact valueContent_sensible (fun _ => trivial) sensible fun _ => writes
  | strRaw =>
    apply deser_str_raw_reads.value .text token
    rintro chars log bytes ⟨sensible, writes⟩
    exact valueContent_sensible (fun _ => trivial) sensible fun _ => writes
  | u8 =>
    apply read_u8_reads.value .byte token
    rintro value _ _ ⟨rfl, rfl, small⟩
    exact valueContent_sensible (fun _ => trivial) (by simp) fun _ => writes_same (by simp)
  | op =>
    apply deser_op_reads.value .op token
    rintro chars log bytes ⟨sensible, writes⟩
    exact valueContent_sensible (fun _ => trivial) sensible fun _ => writes
  | literal => exact absurd rfl plain
  | parts => exact (deser_template_parts_reads owner name).keep token
  | exprs => exact (deser_template_exprs_reads nodes owner name).keep token

def ValuesContent (owner : NodeType) (fields : List (String × DeserField)) (values : Values)
    (log : List Entry) (bytes : List UInt8) : Prop :=
  ∀ tokenType,
    (values.WellFormed owner tokenType fields ↔ ∀ entry ∈ log, entry.Sensible) ∧
      Writes log (ser_values tokenType (writtenFields fields) values) bytes

theorem deser_values_reads
    (nodes : ∀ place, Reads buf bound (readNode place) (NodeContent place)) (owner : NodeType)
    {fields : List (String × DeserField)} (plain : ∀ field ∈ fields, field.2 ≠ .literal)
    (token : Token) :
    Reads buf bound (deser_values buf memory readNode owner fields token)
      fun result log bytes =>
        result.1 = token ∧ ValuesContent owner fields result.2 log bytes := by
  induction fields generalizing token with
  | nil =>
    apply reads_done
    exact ⟨rfl, fun tokenType => ⟨by simp [Values.WellFormed], writes_same (by simp)⟩⟩
  | cons field fields ih =>
    obtain ⟨here, later⟩ := forall_mem_cons.mp plain
    apply (deser_field_reads nodes owner here token).bind
    rintro ⟨token', value⟩
    apply (ih later token').map
    · intro values st
      rfl
    · rintro ⟨token'', values⟩ st log' bytes' - ⟨same', content'⟩ log bytes ⟨same, content⟩
      refine ⟨same'.trans same, fun tokenType => ?_⟩
      obtain ⟨wellFormed, writes⟩ := content tokenType
      obtain ⟨wellFormed', writes'⟩ := content' tokenType
      refine ⟨?_, writes.append writes'⟩
      rw [forall_mem_append, ← wellFormed, ← wellFormed']
      rfl

mutual

theorem ser_node_link (node : Node) : ser_node node.link = ser_node node := by
  cases node <;> rfl

theorem ser_items_link (count : Nat) (items : Items) :
    ser_items count items.link = ser_items count items := by
  cases items with
  | nil => rfl
  | cons item rest =>
    cases count with
    | zero => rfl
    | succ count => rw [Items.link, ser_items, ser_items, ser_node_link, ser_items_link]

end

theorem ser_values_link (tokenType : Nat) (fields : List (String × SerField)) (values : Values) :
    ser_values tokenType fields values.link = ser_values tokenType fields values := by
  cases values with
  | nil => rfl
  | cons value rest =>
    cases fields with
    | nil => rfl
    | cons field fields =>
      have here :
          ser_value tokenType field.2 value.link = ser_value tokenType field.2 value := by
        cases value with
        | list count items =>
          cases field.2 <;> simp only [Value.link, ser_value, ser_items_link]
        | _ => rfl
      rw [Values.link, ser_values, ser_values, here, ser_values_link]

theorem node_link_wellFormed (node : Node) : node.link.WellFormed ↔ node.WellFormed := by
  cases node <;> exact Iff.rfl

theorem present_link (place : Option (NodeType × String)) (node : Node) :
    Present place node.link ↔ Present place node := by
  cases node with
  | null => exact Iff.rfl
  | node code token linked values => simp [Present, Node.link]

theorem items_link_wellFormed (place : NodeType × String) (items : Items) :
    items.link.WellFormed place ↔ items.WellFormed place := by
  cases items with
  | nil => exact Iff.rfl
  | cons item rest =>
    exact and_congr (present_link _ item)
      (and_congr (node_link_wellFormed item) (items_link_wellFormed place rest))

theorem items_link_length (items : Items) : items.link.length = items.length := by
  cases items with
  | nil => rfl
  | cons item rest => rw [Items.link, Items.length, Items.length, items_link_length]

theorem values_link_wellFormed (owner : NodeType) (tokenType : Nat)
    (fields : List (String × DeserField)) (values : Values) :
    values.link.WellFormed owner tokenType fields ↔
      values.WellFormed owner tokenType fields := by
  cases values with
  | nil => exact Iff.rfl
  | cons value rest =>
    cases fields with
    | nil => exact Iff.rfl
    | cons field fields =>
      refine and_congr ?_ (values_link_wellFormed owner tokenType fields rest)
      cases value with
      | list count items =>
        cases field.2 <;>
          simp only [Value.link, Value.WellFormed, items_link_length, items_link_wellFormed]
      | _ => exact Iff.rfl

def UnionContent (code : Nat) (token : Token) (result : Token × Values) (log : List Entry)
    (bytes : List UInt8) : Prop :=
  result.1 = { token with type := result.1.type } ∧
    (∀ type, NodeType.ofCode code = some type →
      (result.2.WellFormed type result.1.type (deser_fields type) ↔
        ∀ entry ∈ log, entry.Sensible)) ∧
    (NodeType.ofCode code = none → log = []) ∧
    (result.1.type = token.type →
      Writes log (ser_values result.1.type (ser_fields_of code) result.2) bytes) ∧
    (result.1.type ≠ token.type →
      result.1.type < 65536 ∧ ∃ entry ∈ log, ¬entry.Canonical)

theorem plain_fields {type : NodeType} (other : type ≠ .literal) :
    ∀ field ∈ deser_fields type, field.2 ≠ .literal := by
  have all : ∀ type ∈ NodeType.all, type ≠ .literal →
      ∀ field ∈ deser_fields type, field.2 ≠ .literal := by decide
  have member : type ∈ NodeType.all := by cases type <;> decide
  exact all type member other

theorem literalTypes_small {type : Nat} (member : type ∈ literalTypes) : type < 65536 := by
  have all : ∀ type ∈ literalTypes, type < 65536 := by decide
  exact all type member

/-- The union of every node type is read inside the buffer. -/
theorem deser_union_reads (nodes : ∀ place, Reads buf bound (readNode place) (NodeContent place))
    (code : Nat) (token : Token) :
    Reads buf bound (deser_union buf memory readNode code token) (UnionContent code token) := by
  cases known : NodeType.ofCode code with
  | none =>
    have unfolded : deser_union buf memory readNode code token =
        fun st => some ((token, .nil), st) := by
      funext st
      rw [deser_union, known]
    rw [unfolded]
    apply reads_done
    have none : ser_fields_of code = [] := by
      rw [ser_fields_of, known]
    refine ⟨rfl, fun type same => ?_, fun _ => rfl, fun _ => ?_, fun other => absurd rfl other⟩
    · rw [known] at same
      cases same
    · rw [none]
      exact writes_same (by simp)
  | some type =>
    have unfolded : deser_union buf memory readNode code token = fun st =>
        (deser_values buf memory readNode type (deser_fields type) token st).map
          fun r => ((r.1.1, if type = .classDecl then r.1.2.link else r.1.2), r.2) := by
      funext st
      rw [deser_union, known]
    rw [unfolded]
    by_cases literal : type = .literal
    · subst literal
      have read : Reads buf bound
          (deser_values buf memory readNode .literal (deser_fields .literal) token)
          (UnionContent code token) := by
        refine Reads.bind (?_ : Reads buf bound _ fun result log bytes =>
          ∃ payload, result.2 = .literal payload ∧
            LiteralContent token (result.1, payload) log bytes) ?_
        · apply (deser_literal_reads token).map
          · intro value st
            rfl
          · rintro ⟨token', payload⟩ st log bytes - content
            exact ⟨payload, rfl, content⟩
        · rintro ⟨token', value⟩
          apply reads_done
          rintro log bytes ⟨payload, rfl, same, member, sensible, writes, changed⟩
          rw [append_nil, append_nil]
          refine ⟨same, ?_, ?_, ?_, ?_⟩
          · intro type known'
            rw [known] at known'
            cases known'
            exact iff_of_true ⟨member, trivial⟩ sensible
          · intro unknown
            rw [known] at unknown
            cases unknown
          · intro unchanged
            rw [ser_fields_of_known known]
            change Writes log (ser_literal token'.type payload ++ []) bytes
            rw [append_nil]
            exact writes unchanged
          · exact fun other => ⟨literalTypes_small member, changed other⟩
      apply read.map
      · intro value st
        rfl
      · intro value st log bytes _ content
        exact content
    · apply (deser_values_reads nodes type (plain_fields literal) token).map
      · intro value st
        rfl
      · rintro ⟨token', values⟩ st log bytes - ⟨rfl, content⟩
        refine ⟨rfl, ?_, ?_, ?_, fun other => absurd rfl other⟩
        · intro type' known'
          obtain rfl : type = type' := some.inj (known.symm.trans known')
          have same : (if type = .classDecl then values.link else values).WellFormed type
              token'.type (deser_fields type) ↔
              values.WellFormed type token'.type (deser_fields type) := by
            split
            · exact values_link_wellFormed ..
            · exact Iff.rfl
          exact same.trans (content token'.type).1
        · intro unknown
          rw [known] at unknown
          cases unknown
        · intro _
          have same : ser_values token'.type (writtenFields (deser_fields type))
              (if type = .classDecl then values.link else values) =
              ser_values token'.type (writtenFields (deser_fields type)) values := by
            split
            · exact ser_values_link ..
            · rfl
          rw [ser_fields_of_known known]
          rw [same]
          exact (content token'.type).2

theorem deser_token_reads : Reads buf bound (deser_token buf) fun token log bytes =>
    log = [] ∧ token.type < 65536 ∧
      bytes = ser_u16 token.type ++ (ser_u32 token.line ++ (ser_u32 token.col ++
        ser_f64 token.num_val)) := by
  apply read_u16_reads.bind
  intro type
  apply read_u32_reads.bind
  intro line
  apply read_u32_reads.bind
  intro col
  apply read_f64_reads.map
  · intro num_val st
    rfl
  · rintro num_val st _ _ - ⟨rfl, rfl⟩ _ _ ⟨rfl, rfl, -⟩ _ _ ⟨rfl, rfl, -⟩ _ _ ⟨rfl, rfl, small⟩
    exact ⟨rfl, small, rfl⟩

theorem writes_node {code : Nat} {token token' : Token} {values : Values} {log : List Entry}
    {bytes : List UInt8} (small : token.type < 65536)
    (same : token' = { token with type := token'.type }) (unchanged : token'.type = token.type →
      Writes log (ser_values token'.type (ser_fields_of code) values) bytes)
    (changed : token'.type ≠ token.type → token'.type < 65536 ∧ ∃ entry ∈ log, ¬entry.Canonical)
    (linked : Bool) :
    Writes log (ser_node (.node code token' linked values)) (ser_header code token ++ bytes) := by
  by_cases kept : token'.type = token.type
  · obtain rfl : token' = token := by
      rw [same, kept]
    have here : Writes [] (ser_header code token') (ser_header code token') :=
      writes_same (by simp)
    exact here.append (unchanged rfl)
  · obtain ⟨small', bad⟩ := changed kept
    refine .inr ⟨bad, ?_⟩
    have types : Diverge (ser_u16 token'.type) (ser_u16 token.type) :=
      diverge_put (by omega) (by omega) kept
    apply Diverge.append
    exact (types.append _ _).after _

/-- A node is read inside the buffer if the nodes below it are. -/
theorem deser_body_reads (nodes : ∀ place, Reads buf bound (readNode place) (NodeContent place))
    {code : Nat} (place : Option (NodeType × String)) :
    Reads buf bound (deser_body buf memory readNode code) fun node log bytes =>
      NodeContent place node (.type code :: log) (ser_u16 code ++ bytes) := by
  apply deser_token_reads.bind
  intro token
  apply (deser_union_reads nodes code token).map
  · intro value st
    rfl
  · rintro ⟨token', values⟩ st log bytes clean ⟨same, wellFormed, none, unchanged, changed⟩ _ _
      ⟨rfl, small, rfl⟩
    change NodeContent place (if st.error then .null else .node code token' false values) _ _
    rw [if_neg (by rw [clean]; exact Bool.false_ne_true)]
    refine ⟨?_, ?_, fun absurdity => by cases absurdity⟩
    · have present : Present place (.node code token' false values) := by
        intro owner field _ _ null
        cases null
      rw [nil_append, forall_mem_cons, and_iff_right present]
      cases known : NodeType.ofCode code with
      | none =>
        refine iff_of_false (fun proper => ?_) fun sensible => ?_
        · obtain ⟨type, known', -⟩ := proper
          rw [known] at known'
          cases known'
        · have isSome : (NodeType.ofCode code).isSome := sensible.1
          rw [known] at isSome
          cases isSome
      | some type =>
        rw [← wellFormed type known]
        constructor
        · rintro ⟨type', known', proper⟩
          obtain rfl : type = type' := some.inj (known.symm.trans known')
          refine ⟨?_, proper⟩
          change (NodeType.ofCode code).isSome
          rw [known]
          rfl
        · rintro ⟨-, proper⟩
          exact ⟨type, known, proper⟩
    · have here : Writes [.type code] [] [] := writes_same (forall_mem_singleton.mpr trivial)
      have node : Writes log (ser_node (.node code token' false values))
          (ser_header code token ++ bytes) := writes_node small same unchanged changed false
      have body := here.append node
      simpa [ser_header, append_assoc] using body

end Fields

/-- Reading a node stays inside the buffer, by induction on the depth. -/
theorem deser_node_reads (buf : List UInt8) (memory : List Entry → Request → Bool) (depth : Nat)
    (place : Option (NodeType × String)) :
    Reads buf depth (deser_node buf memory depth place) (NodeContent place) := by
  induction depth generalizing place with
  | zero =>
    intro st inside near
    omega
  | succ depth ih =>
    intro st inside near
    obtain ⟨code, st', log, bytes, ran, advance, holds⟩ :=
      read_u16_reads st inside near
    have unfolded : deser_node buf memory (depth + 1) place st =
        if st'.error then some (.null, st')
        else if code = LR_AST_NULL_NODE then some (.null, st'.note (.absent place))
        else if memory st'.log .node then
          deser_body buf memory (deser_node buf memory depth) code (st'.note (.type code))
        else some (.null, st'.fail (.refused .node)) :=
      congrArg (Option.bind · _) ran
    rw [unfolded]
    by_cases error : st'.error
    · refine ⟨.null, st', log, bytes, if_pos error, advance, fun clean => ?_⟩
      rw [error] at clean
      cases clean
    rw [if_neg error]
    obtain ⟨rfl, rfl, small⟩ := holds (Bool.eq_false_iff.mpr error)
    have moved := advance.pos inside
    by_cases null : code = LR_AST_NULL_NODE
    · subst null
      refine ⟨.null, _, _, _, if_pos rfl,
        advance.trans (Advance.note advance.inside rfl rfl), fun _ => ?_⟩
      refine ⟨?_, writes_same (by simp [Entry.Canonical]), fun _ => rfl⟩
      simp [Entry.Sensible, Node.WellFormed]
    rw [if_neg null]
    cases served : memory st'.log .node with
    | false =>
      refine ⟨.null, _, _, _, if_neg Bool.false_ne_true,
        advance.trans (Advance.fail advance.inside rfl rfl), fun clean => ?_⟩
      cases clean
    | true =>
      have width : (ser_u16 code).length = 2 := length_put 2 code
      have body : Reads buf depth
          (fun st => deser_body buf memory (deser_node buf memory depth) code
            (st.note (.type code))) fun node log bytes =>
              NodeContent place node log (ser_u16 code ++ bytes) :=
        Reads.note rfl rfl (deser_body_reads ih place)
      obtain ⟨node, st'', log', bytes', ran', advance', holds'⟩ :=
        body st' advance.inside (by omega)
      exact ⟨node, st'', _, _, (if_pos rfl).trans ran', advance.trans advance', holds'⟩

end Reading

/-! ## Whole inputs -/

/-- The call accesses no memory outside the buffer and its arrays, and answers NULL or a proper tree
that is serialized to the bytes consumed. -/
def Safe (memory : List Entry → Request → Bool) (bytes : List UInt8) : Prop :=
  ∃ root st, lr_ast_deserialize memory bytes = some (root, st) ∧ st.wild = false ∧
    (root = .null ∨ root.WellFormed ∧ lr_ast_serialize root = bytes.take (4 + st.pos))

def found (memory : List Entry → Request → Bool) (bytes : List UInt8) : List Entry :=
  ((lr_ast_deserialize memory bytes).map fun result => result.2.log).getD []

/-- No array of a template is refused, no copy is longer than its block, and either the input is
given up, or everything in it is sensible and canonical. -/
def Proper (log : List Entry) : Prop :=
  log.any Entry.Wild = false ∧
    (log.any Entry.Fails = true ∨ ∀ entry ∈ log, entry.Sensible ∧ entry.Canonical)

theorem safe_iff_of_run {memory : List Entry → Request → Bool} {root : Node}
    {st : DeserState} (ran : lr_ast_deserialize memory bytes = some (root, st)) :
    Safe memory bytes ↔ st.wild = false ∧
      (root = .null ∨ root.WellFormed ∧ lr_ast_serialize root = bytes.take (4 + st.pos)) := by
  constructor
  · rintro ⟨root', st', ran', tame, proper⟩
    obtain ⟨rfl, rfl⟩ := Prod.mk.inj (some.inj (ran.symm.trans ran'))
    exact ⟨tame, proper⟩
  · rintro ⟨tame, proper⟩
    exact ⟨root, st, ran, tame, proper⟩

theorem root_safe_iff {root : Node} {consumed : List UInt8}
    (content : NodeContent none root log consumed) :
    (root = .null ∨ root.WellFormed ∧ lra_header ++ ser_node root = lra_header ++ consumed) ↔
      ∀ entry ∈ log, entry.Sensible ∧ entry.Canonical := by
  obtain ⟨wellFormed, writes, absent⟩ := content
  have everywhere : Present none root := by
    intro owner field place
    cases place
  have both : (root.WellFormed ∧ ser_node root = consumed) ↔
      ∀ entry ∈ log, entry.Sensible ∧ entry.Canonical := by
    rw [writes.iff, ← and_iff_right (b := root.WellFormed) everywhere, wellFormed]
    constructor
    · intro all entry member
      exact ⟨all.1 entry member, all.2 entry member⟩
    · intro all
      exact ⟨fun entry member => (all entry member).1,
        fun entry member => (all entry member).2⟩
  rw [← both, append_cancel_left_eq]
  refine ⟨fun proper => ?_, .inr⟩
  rcases proper with null | proper
  · rw [both, absent null]
    refine forall_mem_singleton.mpr ⟨?_, trivial⟩
    intro owner field place
    cases place
  · exact proper

def undefinedType : List UInt8 :=
  lra_header ++ [63, 0] ++ List.replicate 18 0

end LRJS.AstCodec
