import LRJS.AstCodec

/-!
# Round trip of syntax trees

Reading what was written gives the tree back, up to names that are empty: the
format has one form for NULL and for the empty string.
-/

namespace LRJS.AstCodec

open List Value LittleEndian

def Payload.Produced (tokenType : Nat) (payload : Payload) : Prop :=
  tokenType = TOK_BOOL_LIT ∧ payload.bits.toNat < 4294967296 ∧ payload.str = none ∨
  tokenType = TOK_STRING ∧ payload.bits = 0 ∧
    (∃ chars, payload.str = some chars ∧ (∀ c ∈ chars, c ≠ 0) ∧ chars.length < 4294967296) ∨
  tokenType = TOK_NULL_LIT ∧ payload = ⟨0, none⟩ ∨
  tokenType = TOK_UNDEFINED_LIT ∧ payload = ⟨minus_one, none⟩ ∨
  tokenType = TOK_BIGINT_LIT ∧ payload.str = none ∨
  tokenType = TOK_NUMBER ∧ payload.str = none

def CString (limit : Nat) (chars : Option (List UInt8)) : Prop :=
  ∀ content, chars = some content → (∀ c ∈ content, c ≠ 0) ∧ content.length < limit

def Token.Fits (token : Token) : Prop :=
  token.type < 65536 ∧ token.line < 4294967296 ∧ token.col < 4294967296

def Items.length : Items → Nat
  | .nil => 0
  | .cons _ rest => rest.length + 1

/-- The node types with a `class_node`. -/
def NodeType.isFunction (type : NodeType) : Bool :=
  type = .funcDecl || type = .funcExpr

mutual

/-- What the parser builds: every node has the fields of its type, counts are right, and methods
have their `class_node`. -/
def Node.Produced (method : Bool) : Node → Prop
  | .null => True
  | .node code token linked values =>
    ∃ type, NodeType.ofCode code = some type ∧ token.Fits ∧
      linked = (method && type.isFunction) ∧ values.Produced type token.type (deser_fields type)

def Values.Produced (owner : NodeType) (tokenType : Nat) :
    List (String × DeserField) → Values → Prop
  | [], .nil => True
  | field :: fields, .cons value rest =>
    value.Produced owner tokenType field.2 ∧ rest.Produced owner tokenType fields
  | _, _ => False

def Value.Produced (owner : NodeType) (tokenType : Nat) : DeserField → Value → Prop
  | .node, .child node => node.Produced false
  | .nodes, .list count items =>
    count = items.length ∧ items.length < 2147483648 ∧
      items.Produced (owner = .classDecl)
  | .exprs, .list count items =>
    count = items.length ∧ items.length < 2147483648 ∧ items.Produced false
  | .parts, .texts count items =>
    count = items.length ∧ items.length < 2147483648 ∧ ∀ item ∈ items, CString 4294967295 item
  | .str, .text chars => CString 4294967296 chars
  | .strRaw, .text chars => CString 4294967295 chars
  | .u8, .byte value => value < 256
  | .op, .op chars => (∀ c ∈ chars, c ≠ 0) ∧ chars.length ≤ 15
  | .literal, .literal payload => payload.Produced tokenType
  | _, _ => False

def Items.Produced (method : Bool) : Items → Prop
  | .nil => True
  | .cons item rest => item.Produced method ∧ rest.Produced method

end

/-! ## Empty names -/

def eraseText (chars : Option (List UInt8)) : Option (List UInt8) :=
  some (chars.getD [])

mutual

def Node.erase : Node → Node
  | .null => .null
  | .node code token linked values => .node code token linked values.erase

def Values.erase : Values → Values
  | .nil => .nil
  | .cons value rest => .cons value.erase rest.erase

def Value.erase : Value → Value
  | .child node => .child node.erase
  | .list count items => .list count items.erase
  | .texts count items => .texts count (items.map eraseText)
  | .text chars => .text (eraseText chars)
  | .byte value => .byte value
  | .op chars => .op chars
  | .literal payload => .literal payload

def Items.erase : Items → Items
  | .nil => .nil
  | .cons item rest => .cons item.erase rest.erase

end

def Node.Same (first second : Node) : Prop :=
  first.erase = second.erase

theorem ser_str_erase (chars : Option (List UInt8)) :
    ser_str (eraseText chars) = ser_str chars := by
  cases chars with
  | none | some content => rfl

theorem flatMap_erase (count : Nat) (items : List (Option (List UInt8))) :
    ((items.map eraseText).take count).flatMap ser_str = (items.take count).flatMap ser_str := by
  rw [← map_take, flatMap_map]
  simp only [ser_str_erase]

mutual

theorem ser_node_erase (node : Node) : ser_node node.erase = ser_node node := by
  cases node with
  | null => rfl
  | node code token linked values =>
    rw [Node.erase, ser_node, ser_node, ser_values_erase]

theorem ser_values_erase (tokenType : Nat) (fields : List (String × SerField)) (values : Values) :
    ser_values tokenType fields values.erase = ser_values tokenType fields values := by
  cases values with
  | nil => rfl
  | cons value rest =>
    cases fields with
    | nil => rfl
    | cons field fields =>
      rw [Values.erase, ser_values, ser_values, ser_value_erase, ser_values_erase]

theorem ser_value_erase (tokenType : Nat) (field : SerField) (value : Value) :
    ser_value tokenType field value.erase = ser_value tokenType field value := by
  cases value with
  | child node => cases field <;> simp only [erase, ser_value, ser_node_erase]
  | list count items => cases field <;> simp only [erase, ser_value, ser_items_erase]
  | texts count items => cases field <;> simp only [erase, ser_value, flatMap_erase]
  | text chars => cases field <;> simp only [erase, ser_value, ser_str_erase]
  | byte value | op chars | literal payload => rfl

theorem ser_items_erase (count : Nat) (items : Items) :
    ser_items count items.erase = ser_items count items := by
  cases items with
  | nil => rfl
  | cons item rest =>
    cases count with
    | zero => rfl
    | succ count => rw [Items.erase, ser_items, ser_items, ser_node_erase, ser_items_erase]

end

theorem Node.Same.bytes {first second : Node} (same : first.Same second) :
    ser_node first = ser_node second := by
  rw [← ser_node_erase first, same, ser_node_erase]

/-! ## Reading what was written -/

section Consumes

variable {buf : List UInt8} {memory : List Entry → Request → Bool} {α β : Type}

structure Ahead (buf : List UInt8) (st : DeserState) (bytes : List UInt8) : Prop where
  clean : st.error = false
  tame : st.wild = false
  inside : st.pos ≤ buf.length
  next : buf.drop st.pos = bytes

def Consumes (buf : List UInt8) (read : DeserState → Option (α × DeserState))
    (bytes : List UInt8) (post : α → Prop) : Prop :=
  ∀ st rest, Ahead buf st (bytes ++ rest) →
    ∃ value st', read st = some (value, st') ∧ post value ∧ Ahead buf st' rest

theorem consumes_done {value : α} {post : α → Prop} (holds : post value) :
    Consumes buf (fun st => some (value, st)) [] post :=
  fun st _ ahead => ⟨value, st, rfl, holds, ahead⟩

variable {read : DeserState → Option (α × DeserState)} {step : α × DeserState → β × DeserState}
variable {bytes : List UInt8} {middle : α → Prop} {post : β → Prop}

theorem Consumes.bind {next : α × DeserState → Option (β × DeserState)} {first second : List UInt8}
    (consumes : Consumes buf read first middle)
    (later : ∀ value, middle value → Consumes buf (fun st => next (value, st)) second post) :
    Consumes buf (fun st => (read st).bind next) (first ++ second) post := by
  intro st rest ahead
  rw [append_assoc] at ahead
  obtain ⟨value, st', same, holds, behind⟩ := consumes st (second ++ rest) ahead
  obtain ⟨result, st'', final, end', done⟩ := later value holds st' rest behind
  exact ⟨result, st'', (congrArg (Option.bind · next) same).trans final, end', done⟩

theorem Consumes.mapClean (consumes : Consumes buf read bytes middle)
    (later : ∀ value, middle value → ∀ st, st.error = false →
      (step (value, st)).2 = st ∧ post (step (value, st)).1) :
    Consumes buf (fun st => (read st).map step) bytes post := by
  intro st rest ahead
  obtain ⟨value, st', same, holds, behind⟩ := consumes st rest ahead
  obtain ⟨still, done⟩ := later value holds st' behind.clean
  have pair : step (value, st') = ((step (value, st')).1, st') := Prod.ext rfl still
  exact ⟨_, st', (congrArg (Option.map step) same).trans (congrArg some pair), done, behind⟩

theorem Consumes.map (consumes : Consumes buf read bytes middle)
    (later : ∀ value, middle value → ∀ st, (step (value, st)).2 = st ∧ post (step (value, st)).1) :
    Consumes buf (fun st => (read st).map step) bytes post :=
  consumes.mapClean fun value holds st _ => later value holds st

theorem Consumes.keep {read : DeserState → Option (Value × DeserState)} {post : Value → Prop}
    (consumes : Consumes buf read bytes post) (token : Token) :
    Consumes buf (fun st => (read st).map fun result => ((token, result.1), result.2)) bytes
      fun result => result.1 = token ∧ post result.2 :=
  consumes.map fun _ holds _ => ⟨rfl, rfl, holds⟩

theorem Consumes.value (consumes : Consumes buf read bytes middle) (make : α → Value)
    (token : Token) {goal : Value} (same : ∀ value, middle value → (make value).erase = goal) :
    Consumes buf (fun st => ((read st).map fun r => (make r.1, r.2)).map fun result =>
        ((token, result.1), result.2)) bytes
      fun result => result.1 = token ∧ result.2.erase = goal :=
  have mapped : Consumes buf (fun st => (read st).map fun r => (make r.1, r.2)) bytes
      fun value => value.erase = goal :=
    consumes.map fun value holds _ => ⟨rfl, same value holds⟩
  mapped.keep token

theorem Consumes.note (consumes : Consumes buf read bytes middle) (entry : Entry) :
    Consumes buf (fun st => read (st.note entry)) bytes middle :=
  fun st rest ahead => consumes (st.note entry) rest
    ⟨ahead.clean, ahead.tame, ahead.inside, ahead.next⟩

theorem read_chars_inside {pos length : Nat} (inside : pos + length ≤ buf.length) :
    read_chars buf pos length = some ((buf.drop pos).take length) := by
  induction length generalizing pos with
  | zero => simp [read_chars]
  | succ length ih =>
    have here : pos < buf.length := by omega
    rw [read_chars, ih (by omega), getElem?_eq_getElem here,
      drop_eq_getElem_cons here]
    rfl

theorem Ahead.chars {st : DeserState} {rest : List UInt8}
    (ahead : Ahead buf st (bytes ++ rest)) :
    st.pos + bytes.length ≤ buf.length ∧ read_chars buf st.pos bytes.length = some bytes ∧
      ∀ log, Ahead buf { st with pos := st.pos + bytes.length, log := log } rest := by
  have lengths := congrArg length ahead.next
  rw [length_drop, length_append] at lengths
  have inside : st.pos + bytes.length ≤ buf.length := by
    have := ahead.inside
    omega
  refine ⟨inside, ?_, fun log => ⟨ahead.clean, ahead.tame, inside, ?_⟩⟩
  · rw [read_chars_inside inside, ahead.next, take_left]
  · rw [← drop_drop, ahead.next, drop_left]

theorem read_number_consumes {width value : Nat} (fits : value < 256 ^ width) :
    Consumes buf (read_number buf width) (LittleEndian.put width value) (· = value) := by
  intro st rest ahead
  obtain ⟨inside, chars, behind⟩ := ahead.chars
  rw [length_put] at inside chars behind
  refine ⟨value, { st with pos := st.pos + width }, ?_, rfl, behind st.log⟩
  rw [read_number, if_neg (Nat.not_lt.mpr inside), chars]
  simp [get_put_of_lt fits]

theorem read_u8_consumes {value : Nat} (fits : value < 256) :
    Consumes buf (read_u8 buf) (ser_u8 value) (· = value) :=
  read_number_consumes fits

theorem read_u16_consumes {value : Nat} (fits : value < 65536) :
    Consumes buf (read_u16 buf) (ser_u16 value) (· = value) :=
  read_number_consumes fits

theorem read_u32_consumes {value : Nat} (fits : value < 4294967296) :
    Consumes buf (read_u32 buf) (ser_u32 value) (· = value) :=
  read_number_consumes fits

theorem read_f64_consumes (bits : BitVec 64) :
    Consumes buf (read_f64 buf) (ser_f64 bits) (· = bits) := by
  have read : Consumes buf (read_number buf 8) (put 8 bits.toNat) (· = bits.toNat) :=
    read_number_consumes bits.isLt
  apply read.map
  rintro _ rfl st
  exact ⟨rfl, BitVec.eq_of_toNat_eq (by simp)⟩

theorem ser_str_some {content : List UInt8} (short : content.length < 4294967296) :
    ser_str (some content) = ser_u32 content.length ++ content := by
  rw [ser_str, min_eq_left (by omega), take_of_length_le (by omega)]

theorem ser_op_eq {op : List UInt8} (short : op.length ≤ 15) :
    ser_op op = ser_u8 op.length ++ op := by
  rw [ser_op, take_of_length_le short]

section Ample

variable (ample : ∀ log request, memory log request)

include ample

omit ample in
/-- A length and the bytes: a reader that answers `blank` for the length 0 and the bytes
otherwise. -/
theorem text_consumes {limit : Nat} {chars : Option (List UInt8)} (proper : CString limit chars)
    (limited : limit ≤ 4294967296) {blank : Option (List UInt8)}
    {next : Nat × DeserState → Option (Option (List UInt8) × DeserState)}
    {post : Option (List UInt8) → Prop}
    (empty : ∀ st, next (0, st) = some (blank, st))
    (blankly : eraseText chars = some [] → post blank)
    (copies : ∀ content st rest, chars = some content → content.length ≠ 0 →
      (∀ c ∈ content, c ≠ 0) → content.length < limit → Ahead buf st (content ++ rest) →
        ∃ st', next (content.length, st) = some (some content, st') ∧ post (some content) ∧
          Ahead buf st' rest) :
    Consumes buf (fun st => (read_u32 buf st).bind next) (ser_str chars) post := by
  cases chars with
  | none =>
    apply (read_u32_consumes (by omega)).bind
    rintro _ rfl
    simp only [empty]
    exact consumes_done (blankly rfl)
  | some content =>
    obtain ⟨noNul, short⟩ := proper content rfl
    have fits : content.length < 4294967296 := Nat.lt_of_lt_of_le short limited
    rw [ser_str_some fits]
    apply (read_u32_consumes fits).bind
    rintro _ rfl st rest ahead
    cases content with
    | nil => exact ⟨blank, st, empty st, blankly rfl, ahead⟩
    | cons byte content =>
      obtain ⟨st', ran, done, behind⟩ :=
        copies _ st rest rfl (Nat.succ_ne_zero _) noNul short ahead
      exact ⟨_, st', ran, done, behind⟩

theorem deser_str_consumes {chars : Option (List UInt8)} (proper : CString 4294967296 chars) :
    Consumes buf (deser_str buf memory) (ser_str chars)
      fun value => value = eraseText chars := by
  refine text_consumes proper le_rfl (by simp) (fun none => none.symm) ?_
  rintro content st rest rfl nonempty noNul - ahead
  obtain ⟨inside, chars, behind⟩ := ahead.chars
  refine ⟨_, ?_, rfl, behind (st.log ++ [.text content])⟩
  simp [ahead.clean, nonempty, Nat.not_lt.mpr inside, chars, ample, c_string_eq noNul,
    DeserState.note]

theorem deser_str_raw_consumes {chars : Option (List UInt8)} (proper : CString 4294967295 chars) :
    Consumes buf (deser_str_raw buf memory) (ser_str chars)
      fun value => eraseText value = eraseText chars := by
  have blankly (blank : eraseText chars = some []) : eraseText none = eraseText chars := blank.symm
  refine text_consumes proper (by omega) (by simp) blankly ?_
  rintro content st rest rfl nonempty noNul short ahead
  obtain ⟨inside, chars, behind⟩ := ahead.chars
  have size : copy_size content.length = content.length + 1 := Nat.mod_eq_of_lt (by omega)
  refine ⟨_, ?_, rfl, behind (st.log ++ [.copy content])⟩
  simp [ahead.clean, nonempty, Nat.not_lt.mpr inside, chars, ample, c_string_eq noNul,
    DeserState.note, size]

omit ample in
theorem deser_op_consumes {op : List UInt8} (noNul : ∀ c ∈ op, c ≠ 0) (short : op.length ≤ 15) :
    Consumes buf (deser_op buf) (ser_op op) (· = op) := by
  rw [ser_op_eq short]
  apply (read_u8_consumes (by omega)).bind
  rintro _ rfl st rest ahead
  obtain ⟨inside, chars, behind⟩ := ahead.chars
  refine ⟨op, _, ?_, rfl, behind (st.log ++ [.op op.length op])⟩
  simp [min_eq_left short, Nat.not_lt.mpr inside, chars, c_string_eq noNul, DeserState.note]

omit ample in
theorem read_i64_consumes (bits : BitVec 64) :
    Consumes buf (read_i64 buf) (ser_f64 bits) (· = bits) := by
  have split : ser_f64 bits =
      ser_u32 (bits.toNat % 4294967296) ++ ser_u32 (bits.toNat / 4294967296) := by
    have low : ser_u32 (bits.toNat % 4294967296) = ser_u32 bits.toNat :=
      put_mod 4 bits.toNat
    rw [low]
    exact put_add 4 4 bits.toNat
  rw [split]
  apply (read_u32_consumes (Nat.mod_lt _ (by omega))).bind
  rintro _ rfl
  apply (read_u32_consumes (by omega)).map
  rintro _ rfl st
  refine ⟨rfl, BitVec.eq_of_toNat_eq ?_⟩
  simp only [Nat.mod_add_div]
  simp

/-- A literal is read back from what was written for it. -/
theorem deser_payload_consumes {token : Token} {payload : Payload}
    (produced : payload.Produced token.type) :
    ∃ tag bytes, tag < 256 ∧ ser_literal token.type payload = ser_u8 tag ++ bytes ∧
      Consumes buf (deser_payload buf memory tag token) bytes (· = (token, payload)) := by
  obtain ⟨type, line, col, num_val⟩ := token
  obtain ⟨bits, str⟩ := payload
  rcases produced with ⟨rfl, small, rfl⟩ | ⟨rfl, rfl, chars, rfl, noNul, short⟩ |
      ⟨rfl, same⟩ | ⟨rfl, same⟩ | ⟨rfl, rfl⟩ | ⟨rfl, rfl⟩
  · refine ⟨0, ser_u32 bits.toNat, by omega, rfl, ?_⟩
    apply (read_u32_consumes small).map
    rintro _ rfl st
    exact ⟨rfl, by simp⟩
  · have proper : CString 4294967296 (some chars) := by
      rintro _ ⟨⟩
      exact ⟨noNul, short⟩
    refine ⟨1, ser_str (some chars), by omega, rfl, ?_⟩
    apply (deser_str_consumes ample proper).map
    rintro _ rfl st
    exact ⟨rfl, rfl⟩
  · cases same
    exact ⟨3, [], by omega, rfl, consumes_done rfl⟩
  · cases same
    exact ⟨4, [], by omega, rfl, consumes_done rfl⟩
  · refine ⟨5, ser_f64 bits, by omega, rfl, ?_⟩
    apply (read_i64_consumes bits).map
    rintro _ rfl st
    exact ⟨rfl, rfl⟩
  · refine ⟨2, ser_f64 bits, by omega, rfl, ?_⟩
    apply (read_f64_consumes bits).map
    rintro _ rfl st
    exact ⟨rfl, rfl⟩

theorem deser_literal_consumes {token : Token} {payload : Payload}
    (produced : payload.Produced token.type) :
    Consumes buf (deser_literal buf memory token) (ser_literal token.type payload)
      (· = (token, payload)) := by
  obtain ⟨tag, bytes, small, same, consumes⟩ :=
    @deser_payload_consumes buf memory ample _ _ produced
  rw [same]
  apply (read_u8_consumes small).bind
  rintro _ rfl
  exact consumes.note _

theorem deser_parts_consumes {items : List (Option (List UInt8))}
    (proper : ∀ item ∈ items, CString 4294967295 item) :
    Consumes buf (deser_parts buf memory items.length) (items.flatMap ser_str)
      fun value => value.map eraseText = items.map eraseText := by
  induction items with
  | nil => exact consumes_done rfl
  | cons item items ih =>
    have ⟨here, later⟩ := forall_mem_cons.mp proper
    apply (deser_str_raw_consumes ample here).bind
    intro part same
    apply (ih later).map
    intro parts sames st
    refine ⟨rfl, ?_⟩
    rw [map_cons, map_cons, same, sames]

end Ample

end Consumes

/-! ## Back-pointers -/

/-- The node before its `class_node` is set. -/
def Node.unlink : Node → Node
  | .null => .null
  | .node code token _ values => .node code token false values

def Items.unlink : Items → Items
  | .nil => .nil
  | .cons item rest => .cons item.unlink rest.unlink

def Value.unlink : Value → Value
  | .list count items => .list count items.unlink
  | value => value

def Values.unlink : Values → Values
  | .nil => .nil
  | .cons value rest => .cons value.unlink rest.unlink

variable {type : NodeType}

theorem ofCode_code {code : Nat} (known : NodeType.ofCode code = some type) :
    type.code = code := by
  have bound : code < NodeType.all.length := (List.getElem?_eq_some_iff.mp known).1
  have same : NodeType.all[code] = type := (List.getElem?_eq_some_iff.mp known).2
  have distinct : NodeType.all.Nodup := by decide
  rw [NodeType.code, ← same, distinct.idxOf_getElem]

theorem node_unlink {node : Node} (produced : node.Produced false) : node.unlink = node := by
  cases node with
  | null => rfl
  | node code token linked values =>
    obtain ⟨type, known, fits, same, fields⟩ := produced
    rw [Node.unlink, same, Bool.false_and]

theorem node_link {node : Node} (produced : node.Produced true) : node.unlink.link = node := by
  cases node with
  | null => rfl
  | node code token linked values =>
    obtain ⟨type, known, fits, same, fields⟩ := produced
    obtain rfl := ofCode_code known
    rw [Node.unlink, Node.link, same]
    cases type <;> rfl

theorem items_unlink {items : Items} (produced : items.Produced false) : items.unlink = items := by
  cases items with
  | nil => rfl
  | cons item rest => rw [Items.unlink, node_unlink produced.1, items_unlink produced.2]

theorem items_link {items : Items} (produced : items.Produced true) :
    items.unlink.link = items := by
  cases items with
  | nil => rfl
  | cons item rest => rw [Items.unlink, Items.link, node_link produced.1, items_link produced.2]

theorem node_link_erase (node : Node) : node.link.erase = node.erase.link := by
  cases node <;> rfl

theorem items_link_erase (items : Items) : items.link.erase = items.erase.link := by
  cases items with
  | nil => rfl
  | cons item rest =>
    rw [Items.link, Items.erase, Items.erase, Items.link, node_link_erase, items_link_erase]

theorem value_link_erase (value : Value) : value.link.erase = value.erase.link := by
  cases value with
  | list count items => rw [link, erase, erase, link, items_link_erase]
  | _ => rfl

theorem values_link_erase (values : Values) : values.link.erase = values.erase.link := by
  cases values with
  | nil => rfl
  | cons value rest =>
    rw [Values.link, Values.erase, Values.erase, Values.link, value_link_erase,
      values_link_erase]

variable {tokenType : Nat}

theorem value_unlink {owner : NodeType} {kind : DeserField} {value : Value}
    (other : owner ≠ .classDecl) (produced : value.Produced owner tokenType kind) :
    value.unlink = value := by
  cases value with
  | list count items =>
    cases kind with
    | nodes =>
      have plain : items.Produced false := by simpa [other] using produced.2.2
      rw [unlink, items_unlink plain]
    | exprs => rw [unlink, items_unlink produced.2.2]
    | _ => exact produced.elim
  | _ => rfl

theorem values_unlink {owner : NodeType} {fields : List (String × DeserField)} {values : Values}
    (other : owner ≠ .classDecl) (produced : values.Produced owner tokenType fields) :
    values.unlink = values := by
  cases values with
  | nil => rfl
  | cons value rest =>
    cases fields with
    | nil => exact produced.elim
    | cons field fields =>
      rw [Values.unlink, value_unlink other produced.1, values_unlink other produced.2]

theorem value_link {kind : DeserField} {value : Value} (notExprs : kind ≠ .exprs)
    (produced : value.Produced .classDecl tokenType kind) :
    value.unlink.link = value := by
  cases value with
  | list count items =>
    cases kind with
    | nodes =>
      have methods : items.Produced true := by simpa using produced.2.2
      rw [unlink, link, items_link methods]
    | exprs => exact absurd rfl notExprs
    | _ => exact produced.elim
  | _ => rfl

theorem values_link {fields : List (String × DeserField)} {values : Values}
    (lists : ∀ field ∈ fields, field.2 ≠ .exprs)
    (produced : values.Produced .classDecl tokenType fields) : values.unlink.link = values := by
  cases values with
  | nil => rfl
  | cons value rest =>
    cases fields with
    | nil => exact produced.elim
    | cons field fields =>
      obtain ⟨notExprs, others⟩ := forall_mem_cons.mp lists
      rw [Values.unlink, Values.link, value_link notExprs produced.1,
        values_link others produced.2]

/-! ## Whole trees -/

def DeserField.written : DeserField → SerField
  | .node => .node
  | .nodes => .nodes
  | .str => .str
  | .strRaw => .str
  | .u8 => .u8
  | .op => .op
  | .literal => .literal
  | .parts => .parts
  | .exprs => .exprs

def writtenFields (fields : List (String × DeserField)) : List (String × SerField) :=
  fields.map fun field => (field.1, field.2.written)

theorem fields_agree (type : NodeType) : ser_fields type = writtenFields (deser_fields type) := by
  cases type <;> rfl

theorem ser_fields_of_known {code : Nat} (known : NodeType.ofCode code = some type) :
    ser_fields_of code = writtenFields (deser_fields type) := by
  rw [ser_fields_of, known]
  exact fields_agree type

theorem code_lt {code : Nat} (known : NodeType.ofCode code = some type) :
    code < 63 :=
  (List.getElem?_eq_some_iff.mp known).1

theorem u32_of_length {count : Nat} (small : count < 2147483648) : u32_of_int count = count := by
  rw [u32_of_int]
  omega

theorem int_of_length {count : Nat} (small : count < 2147483648) : int_of_u32 count = count :=
  if_pos small

section Trees

variable {buf : List UInt8} {memory : List Entry → Request → Bool}

theorem deser_token_consumes {token : Token} (fits : token.Fits) :
    Consumes buf (deser_token buf)
      (ser_u16 token.type ++ (ser_u32 token.line ++ (ser_u32 token.col ++
        ser_f64 token.num_val))) (· = token) := by
  apply (read_u16_consumes fits.1).bind
  rintro _ rfl
  apply (read_u32_consumes fits.2.1).bind
  rintro _ rfl
  apply (read_u32_consumes fits.2.2).bind
  rintro _ rfl
  apply (read_f64_consumes token.num_val).map
  rintro _ rfl st
  exact ⟨rfl, rfl⟩

variable {readNode : Option (NodeType × String) → DeserState → Option (Node × DeserState)}

/-- The union of a node is read back if its fields are. -/
theorem deser_union_consumes {code : Nat} {token : Token} {values : Values}
    (known : NodeType.ofCode code = some type)
    (produced : values.Produced type token.type (deser_fields type)) {bytes : List UInt8}
    (consumes : Consumes buf (deser_values buf memory readNode type (deser_fields type) token) bytes
      fun value => value.1 = token ∧ value.2.erase = values.unlink.erase) :
    Consumes buf (deser_union buf memory readNode code token) bytes
      fun value => value.1 = token ∧ value.2.erase = values.erase := by
  have unfolded : deser_union buf memory readNode code token = fun st =>
      (deser_values buf memory readNode type (deser_fields type) token st).map
        fun r => ((r.1.1, if type = .classDecl then r.1.2.link else r.1.2), r.2) := by
    funext st
    rw [deser_union, known]
  rw [unfolded]
  apply consumes.map
  rintro ⟨token', values'⟩ ⟨rfl, same⟩ st
  refine ⟨rfl, rfl, ?_⟩
  by_cases isClass : type = .classDecl
  · subst isClass
    have lists : ∀ field ∈ deser_fields .classDecl, field.2 ≠ .exprs := by decide
    change values'.link.erase = values.erase
    rw [values_link_erase, same, ← values_link_erase, values_link lists produced]
  · simp only [isClass, if_false]
    rw [same, values_unlink isClass produced]

theorem allocate_array_ample (ample : ∀ log request, memory log request) (count : Nat)
    (st : DeserState) : allocate_array memory count st = st := by
  rw [allocate_array, if_pos (Or.inr (ample ..))]

theorem length_behind {first second : List UInt8} {depth : Nat}
    (deep : (first ++ second).length ≤ depth) : second.length ≤ depth := by
  rw [length_append] at deep
  omega

section

variable (ample : ∀ log request, memory log request)
include ample

/-- A list of nodes is read back if each of its nodes is. -/
theorem deser_node_list_consumes {place : NodeType × String} {items : Items}
    (small : items.length < 2147483648)
    (consumes : Consumes buf (deser_items readNode place items.length)
      (ser_items items.length items) fun value => value.erase = items.unlink.erase) :
    Consumes buf (deser_node_list buf memory readNode place)
      (ser_u32 items.length ++ ser_items items.length items)
      fun value => value.erase = (Value.list items.length items).unlink.erase := by
  apply (read_u32_consumes (by omega)).bind
  rintro _ rfl
  have nodes : Consumes buf (deser_nodes memory readNode place items.length)
      (ser_items items.length items)
      fun value => value.erase = (list items.length items).unlink.erase := by
    cases items with
    | nil => exact consumes_done rfl
    | cons item rest =>
      have unfolded : deser_nodes memory readNode place (rest.length + 1) = fun st =>
          (deser_items readNode place (rest.length + 1) st).map fun r =>
            (.list (int_of_u32 (rest.length + 1)) r.1, r.2) := by
        funext st
        rw [deser_nodes, if_neg (by omega), if_pos (ample ..)]
      rw [Items.length, unfolded]
      apply consumes.map
      intro items' same st
      refine ⟨rfl, ?_⟩
      change (list (int_of_u32 (Items.cons item rest).length) items').erase = _
      rw [int_of_length small, erase, same]
      rfl
  exact nodes.note _

theorem deser_template_exprs_consumes {place : NodeType × String} {items : Items}
    (small : items.length < 2147483648)
    (consumes : Consumes buf (deser_items readNode place items.length)
      (ser_items items.length items) fun value => value.erase = items.unlink.erase) :
    Consumes buf (deser_template_exprs buf memory readNode place)
      (ser_u32 (u32_of_int items.length) ++ ser_items items.length items)
      fun value => value.erase = (Value.list items.length items).unlink.erase := by
  rw [u32_of_length small]
  apply (read_u32_consumes (by omega)).bind
  rintro _ rfl
  simp only [int_of_length small, Int.toNat_natCast, allocate_array_ample ample]
  apply (consumes.note _).map
  intro items' same st
  refine ⟨rfl, ?_⟩
  rw [erase, same]
  rfl

theorem deser_template_parts_consumes {items : List (Option (List UInt8))}
    (small : items.length < 2147483648) (proper : ∀ item ∈ items, CString 4294967295 item) :
    Consumes buf (deser_template_parts buf memory)
      (ser_u32 (u32_of_int items.length) ++ (items.take (items.length : Int).toNat).flatMap ser_str)
      fun value => value.erase = (Value.texts items.length items).unlink.erase := by
  rw [u32_of_length small, Int.toNat_natCast, take_length]
  apply (read_u32_consumes (by omega)).bind
  rintro _ rfl
  simp only [int_of_length small, Int.toNat_natCast, allocate_array_ample ample]
  apply ((deser_parts_consumes ample proper).note _).map
  intro items' same st
  exact ⟨rfl, congrArg (texts items.length) same⟩

end

mutual

/-- A node that the parser produced is read back, by induction on the bytes left. -/
theorem deser_node_consumes (ample : ∀ log request, memory log request) {depth : Nat}
    {place : Option (NodeType × String)} {node : Node} {method : Bool}
    (produced : node.Produced method) (deep : (ser_node node).length ≤ depth) :
    Consumes buf (deser_node buf memory depth place) (ser_node node)
      fun value => value.erase = node.unlink.erase := by
  cases depth with
  | zero =>
    cases node with
    | null => exact absurd deep (by decide)
    | node code token linked values =>
      simp [ser_node, ser_header, ser_u16] at deep
  | succ depth =>
    cases node with
    | null =>
      apply (read_u16_consumes (by decide)).bind
      rintro _ rfl st rest ahead
      refine ⟨.null, st.note (.absent place), ?_, rfl, ?_⟩
      rotate_left
      · exact ⟨ahead.clean, ahead.tame, ahead.inside, ahead.next⟩
      simp [ahead.clean]
    | node code token linked values =>
      obtain ⟨type, known, fits, linkedSame, fields⟩ := produced
      have small := code_lt known
      rw [ser_node, ser_header, append_assoc, ser_fields_of_known known]
      rw [ser_node, ser_fields_of_known known, ser_header, length_append,
        length_append, ser_u16, length_put] at deep
      apply (read_u16_consumes (by omega)).bind
      rintro code rfl st rest ahead
      have body : Consumes buf (deser_body buf memory (deser_node buf memory depth) code) _
          fun value => value.erase = (Node.node code token linked values).unlink.erase :=
        (deser_token_consumes fits).bind (by
          rintro _ rfl
          apply (deser_union_consumes known fields
            (deser_values_consumes ample fields (by omega))).mapClean
          rintro ⟨token', values'⟩ ⟨rfl, same⟩ st clean
          refine ⟨rfl, ?_⟩
          simp only [clean, Node.unlink]
          exact congrArg (Node.node code token' false) same)
      obtain ⟨value, st', ran, post, behind⟩ := body.note (.type code) st rest ahead
      refine ⟨value, st', ?_, post, behind⟩
      have notNull : code ≠ LR_AST_NULL_NODE := by
        rw [LR_AST_NULL_NODE]
        omega
      simp only [ahead.clean, notNull, ample, if_true, if_false, Bool.false_eq_true]
      exact ran

/-- The fields of a node are read back in the order in which they are written. -/
theorem deser_values_consumes (ample : ∀ log request, memory log request) {depth : Nat}
    {owner : NodeType} {fields : List (String × DeserField)} {token : Token} {values : Values}
    (produced : values.Produced owner token.type fields)
    (deep : (ser_values token.type (writtenFields fields) values).length ≤ depth) :
    Consumes buf (deser_values buf memory (deser_node buf memory depth) owner fields token)
      (ser_values token.type (writtenFields fields) values)
      fun value => value.1 = token ∧ value.2.erase = values.unlink.erase := by
  cases values with
  | nil =>
    cases fields with
    | nil => exact consumes_done ⟨rfl, rfl⟩
    | cons field fields => exact produced.elim
  | cons value rest =>
    cases fields with
    | nil => exact produced.elim
    | cons field fields =>
      change (ser_value token.type field.2.written value ++
        ser_values token.type (writtenFields fields) rest).length ≤ depth at deep
      rw [length_append] at deep
      apply (deser_field_consumes ample produced.1 (by omega)).bind
      rintro ⟨token, value'⟩ ⟨rfl, same⟩
      apply (deser_values_consumes ample produced.2 (by omega)).map
      rintro ⟨token, rest'⟩ ⟨rfl, sames⟩ st
      refine ⟨rfl, rfl, ?_⟩
      change Values.cons value'.erase rest'.erase = Values.cons value.unlink.erase _
      rw [same, sames]

/-- A field is read back as its kind says. -/
theorem deser_field_consumes (ample : ∀ log request, memory log request) {depth : Nat}
    {owner : NodeType} {field : String × DeserField} {token : Token} {value : Value}
    (produced : value.Produced owner token.type field.2)
    (deep : (ser_value token.type field.2.written value).length ≤ depth) :
    Consumes buf (deser_field buf memory (deser_node buf memory depth) owner field token)
      (ser_value token.type field.2.written value)
      fun result => result.1 = token ∧ result.2.erase = value.unlink.erase := by
  obtain ⟨name, kind⟩ := field
  cases value with
  | child node =>
    cases kind with
    | node =>
      apply (deser_node_consumes ample produced deep).value .child token
      intro node' same
      change (child node').erase = (child node).erase
      rw [erase, same, node_unlink produced, erase]
    | _ => exact produced.elim
  | list count items =>
    cases kind with
    | nodes =>
      obtain ⟨rfl, small, nodes⟩ := produced
      exact (deser_node_list_consumes ample small
        (deser_items_consumes ample nodes (length_behind deep))).keep token
    | exprs =>
      obtain ⟨rfl, small, nodes⟩ := produced
      exact (deser_template_exprs_consumes ample small
        (deser_items_consumes ample nodes (length_behind deep))).keep token
    | _ => exact produced.elim
  | texts count items =>
    cases kind with
    | parts =>
      obtain ⟨rfl, small, proper⟩ := produced
      exact (deser_template_parts_consumes ample small proper).keep token
    | _ => exact produced.elim
  | text chars =>
    cases kind with
    | str =>
      apply (deser_str_consumes ample produced).value .text token
      rintro _ rfl
      rfl
    | strRaw =>
      apply (deser_str_raw_consumes ample produced).value .text token
      intro chars' same
      exact congrArg text same
    | _ => exact produced.elim
  | byte byte =>
    cases kind with
    | u8 =>
      apply (read_u8_consumes produced).value .byte token
      rintro _ rfl
      rfl
    | _ => exact produced.elim
  | op chars =>
    cases kind with
    | op =>
      apply (deser_op_consumes produced.1 produced.2).value .op token
      rintro _ rfl
      rfl
    | _ => exact produced.elim
  | literal payload =>
    cases kind with
    | literal =>
      apply (deser_literal_consumes ample produced).map
      rintro _ rfl st
      exact ⟨rfl, rfl, rfl⟩
    | _ => exact produced.elim

/-- The items of a list are read back one by one. -/
theorem deser_items_consumes (ample : ∀ log request, memory log request) {depth : Nat}
    {place : NodeType × String} {items : Items} {method : Bool} (produced : items.Produced method)
    (deep : (ser_items items.length items).length ≤ depth) :
    Consumes buf (deser_items (deser_node buf memory depth) place items.length)
      (ser_items items.length items) fun value => value.erase = items.unlink.erase := by
  cases items with
  | nil => exact consumes_done rfl
  | cons item rest =>
    rw [Items.length, ser_items, length_append] at deep
    apply (deser_node_consumes ample produced.1 (by omega)).bind
    intro item' same
    apply (deser_items_consumes ample produced.2 (by omega)).map
    intro rest' sames st
    refine ⟨rfl, ?_⟩
    rw [Items.erase, Items.unlink, Items.erase, same, sames]

end

theorem two_le_ser_node (node : Node) : 2 ≤ (ser_node node).length := by
  cases node with
  | null => decide
  | node code token linked values =>
    rw [ser_node, ser_header, length_append, length_append, ser_u16,
      length_put]
    omega

/-- Deserializing what was serialized gives the tree, up to empty names, without a write outside
of its blocks, and it is serialized to the same bytes. -/
theorem deserialize_serialize (memory : List Entry → Request → Bool)
    (ample : ∀ log request, memory log request) (root : Node) (produced : root.Produced false) :
    ∃ root' st, lr_ast_deserialize memory (lr_ast_serialize root) = some (root', st) ∧
      st.wild = false ∧ root'.Same root ∧ lr_ast_serialize root' = lr_ast_serialize root := by
  have size : (lr_ast_serialize root).length = 4 + (ser_node root).length := length_append
  have long := two_le_ser_node root
  have deep : (ser_node root).length ≤ (lr_ast_serialize root).length := by
    omega
  have start : Ahead (ser_node root) ⟨0, false, false, []⟩ (ser_node root ++ []) :=
    ⟨rfl, rfl, Nat.zero_le _, (append_nil _).symm⟩
  have read : Consumes (ser_node root)
      (deser_node (ser_node root) memory (lr_ast_serialize root).length none) (ser_node root)
      fun value => value.erase = root.unlink.erase := deser_node_consumes ample produced deep
  obtain ⟨root', st, ran, same, behind⟩ := read ⟨0, false, false, []⟩ [] start
  rw [node_unlink produced] at same
  refine ⟨root', st, ?_, behind.tame, same, congrArg (lra_header ++ ·) (Node.Same.bytes same)⟩
  have header : (lr_ast_serialize root).take 4 = lra_header := rfl
  have rest : (lr_ast_serialize root).drop 4 = ser_node root := rfl
  rw [lr_ast_deserialize, if_neg (by simp [header]; omega), if_pos (ample ..), rest, ran]
  simp [behind.clean]

end Trees

def emptyTemplate (part : Option (List UInt8)) : Node :=
  let token : Token := ⟨0, 0, 0, 0⟩
  let template : Node := .node NodeType.template.code ⟨69, 1, 3, 0⟩ false
    (.cons (.texts 1 [part]) (.cons (.child .null) (.cons (.list 0 .nil) .nil)))
  let statement : Node := .node NodeType.exprStmt.code token false (.cons (.child template) .nil)
  .node NodeType.program.code token false (.cons (.list 1 (.cons statement .nil)) .nil)

theorem emptyTemplate_produced : (emptyTemplate (some [])).Produced false := by
  have fits : (⟨0, 0, 0, 0⟩ : Token).Fits :=
    ⟨by decide, by decide, by decide⟩
  have templateFits : (⟨69, 1, 3, 0⟩ : Token).Fits :=
    ⟨by decide, by decide, by decide⟩
  have part : ∀ item ∈ [some []], CString 4294967295 item := by
    rintro _ member content rfl
    obtain rfl : content = [] := by simpa using member
    exact ⟨by simp, by decide⟩
  have template := (⟨rfl, by decide, part⟩ :
    (texts 1 [some []]).Produced .template 69 .parts)
  refine ⟨.program, rfl, fits, rfl, ⟨rfl, by decide, ?_, trivial⟩, trivial⟩
  refine ⟨.exprStmt, rfl, fits, rfl, ?_, trivial⟩
  exact ⟨.template, rfl, templateFits, rfl, template, trivial, ⟨rfl, by decide, trivial⟩, trivial⟩

set_option maxRecDepth 4000 in
/-- The empty part of a template is NULL afterwards. -/
theorem empty_part_becomes_null :
    (emptyTemplate (some [])).Produced false ∧
      (lr_ast_deserialize (fun _ _ => true) (lr_ast_serialize (emptyTemplate (some [])))).map
        Prod.fst = some (emptyTemplate none) ∧
      emptyTemplate none ≠ emptyTemplate (some []) := by
  refine ⟨emptyTemplate_produced, rfl, ?_⟩
  intro same
  cases same

/-- The round trip of an empty template literal. -/
theorem deserialize_serialize_template :
    ∃ root' st,
      lr_ast_deserialize (fun _ _ => true) (lr_ast_serialize (emptyTemplate (some []))) =
        some (root', st) ∧
      st.wild = false ∧ root'.Same (emptyTemplate (some [])) ∧
      lr_ast_serialize root' = lr_ast_serialize (emptyTemplate (some [])) :=
  deserialize_serialize (fun _ _ => true) (fun _ _ => rfl) (emptyTemplate (some []))
    emptyTemplate_produced

end LRJS.AstCodec
