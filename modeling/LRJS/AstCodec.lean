import LRJS.Archive

/-!
# Syntax trees as bytes

`lr_ast_serialize` and `lr_ast_deserialize`.  The writer and the reader each
have a field list for every node type.  The reader records errors in a flag
and reads on; a log keeps what it has read, in order.
-/

namespace LRJS.AstCodec

/-- `ASTNodeType`. -/
inductive NodeType where
  | program | block | exprStmt | ifStmt | forStmt | whileStmt | doWhile | forIn | forOf
  | switchStmt | caseClause | defaultClause | breakStmt | continueStmt | returnStmt | throwStmt
  | tryStmt | catchClause | label | withStmt | debugger | varDecl | varDeclarator
  | funcDecl | funcExpr | arrow | classDecl | classBody | importDecl | exportDecl
  | exportDefault | exportNamed | importSpecifier | literal | identifier | thisExpr | superExpr
  | binary | unary | conditional | call | newExpr | member | computedMember | optionalCall
  | optionalMember | assign | sequence | array | object | property | spread | template
  | taggedTemplate | pattern | rest | defaultValue | awaitExpr | yieldExpr | spreadElement
  | templatePart | importNamespace | exportAll
deriving DecidableEq, Repr

namespace NodeType

def all : List NodeType :=
  [program, block, exprStmt, ifStmt, forStmt, whileStmt, doWhile, forIn, forOf,
    switchStmt, caseClause, defaultClause, breakStmt, continueStmt, returnStmt, throwStmt,
    tryStmt, catchClause, label, withStmt, debugger, varDecl, varDeclarator,
    funcDecl, funcExpr, arrow, classDecl, classBody, importDecl, exportDecl,
    exportDefault, exportNamed, importSpecifier, literal, identifier, thisExpr, superExpr,
    binary, unary, conditional, call, newExpr, member, computedMember, optionalCall,
    optionalMember, assign, sequence, array, object, property, spread, template,
    taggedTemplate, pattern, rest, defaultValue, awaitExpr, yieldExpr, spreadElement,
    templatePart, importNamespace, exportAll]

def code (type : NodeType) : Nat :=
  all.idxOf type

def ofCode (code : Nat) : Option NodeType :=
  all[code]?

end NodeType

/-- The part of a `Token` that is written. -/
structure Token where
  type : Nat
  line : Nat
  col : Nat
  num_val : BitVec 64
deriving DecidableEq

/-- `TOK_NUMBER`, `TOK_BIGINT_LIT`, `TOK_STRING`, `TOK_BOOL_LIT`, `TOK_NULL_LIT` and
`TOK_UNDEFINED_LIT`. -/
def TOK_NUMBER : Nat := 1
def TOK_BIGINT_LIT : Nat := 2
def TOK_STRING : Nat := 3
def TOK_BOOL_LIT : Nat := 6
def TOK_NULL_LIT : Nat := 7
def TOK_UNDEFINED_LIT : Nat := 8

structure Payload where
  bits : BitVec 64
  str : Option (List UInt8)
deriving DecidableEq

mutual

/-- `ASTNode *`.  A function is linked when its `class_node` is the class that lists it; the other
fields stand in the order of the field list. -/
inductive Node where
  | null
  | node (type : Nat) (token : Token) (linked : Bool) (values : Values)

inductive Value where
  | child (node : Node)
  | list (count : Int) (items : Items)
  | texts (count : Int) (items : List (Option (List UInt8)))
  | text (chars : Option (List UInt8))
  | byte (value : Nat)
  | op (chars : List UInt8)
  | literal (payload : Payload)

inductive Values where
  | nil
  | cons (value : Value) (rest : Values)

inductive Items where
  | nil
  | cons (item : Node) (rest : Items)

end

inductive SerField where
  | node | nodes | str | u8 | op | literal | parts | exprs
deriving DecidableEq

/-- The cases of `ser_node`. -/
def ser_fields : NodeType → List (String × SerField)
  | .program | .block => [("items", .nodes)]
  | .exprStmt => [("expr", .node)]
  | .ifStmt | .whileStmt | .doWhile => [("cond", .node), ("body", .node), ("else_body", .node)]
  | .forStmt => [("init", .node), ("test", .node), ("update", .node), ("body", .node)]
  | .forIn | .forOf => [("each", .node), ("source", .node), ("body", .node)]
  | .switchStmt => [("test", .node), ("cases", .nodes)]
  | .caseClause | .defaultClause => [("cond", .node), ("body", .node)]
  | .breakStmt | .continueStmt => [("label", .node)]
  | .returnStmt | .throwStmt => [("arg", .node)]
  | .tryStmt =>
    [("body", .node), ("catch_body", .node), ("finally_body", .node), ("catch_var", .str)]
  | .label => [("label", .node), ("stmt", .node)]
  | .withStmt => [("obj", .node), ("body", .node)]
  | .varDecl => [("vars", .nodes)]
  | .varDeclarator => [("var", .node), ("init", .node)]
  | .funcDecl | .funcExpr =>
    [("name", .str), ("params", .nodes), ("key_expr", .node), ("body", .node),
      ("is_async", .u8), ("is_generator", .u8), ("is_static", .u8), ("is_getter", .u8),
      ("is_setter", .u8)]
  | .arrow => [("name", .str), ("params", .nodes), ("body", .node), ("is_async", .u8)]
  | .classDecl => [("name", .str), ("extends", .node), ("methods", .nodes)]
  | .classBody => [("methods", .nodes)]
  | .literal => [("value", .literal)]
  | .identifier => [("name", .str)]
  | .binary => [("left", .node), ("right", .node), ("op", .op)]
  | .unary => [("arg", .node), ("op", .op), ("prefix", .u8)]
  | .conditional => [("cond", .node), ("consequent", .node), ("alternate", .node)]
  | .call | .optionalCall => [("callee", .node), ("args", .nodes), ("is_optional", .u8)]
  | .newExpr => [("callee", .node), ("args", .nodes)]
  | .member | .computedMember | .optionalMember =>
    [("obj", .node), ("prop", .node), ("is_optional", .u8)]
  | .assign => [("target", .node), ("value", .node), ("op", .op)]
  | .sequence => [("exprs", .nodes)]
  | .array => [("elements", .nodes)]
  | .object => [("props", .nodes)]
  | .property =>
    [("key", .node), ("val", .node), ("computed", .u8), ("shorthand", .u8),
      ("is_static", .u8)]
  | .spread | .spreadElement => [("arg", .node)]
  | .template | .taggedTemplate => [("parts", .parts), ("tag", .node), ("exprs", .exprs)]
  | .pattern => [("elements", .nodes), ("is_object", .u8)]
  | .rest => [("arg", .node)]
  | .defaultValue => [("left", .node), ("right", .node)]
  | .awaitExpr => [("arg", .node)]
  | .yieldExpr => [("arg", .node), ("is_delegate", .u8)]
  | .importDecl => [("specifiers", .nodes), ("source", .node)]
  | .exportDecl => [("specifiers", .nodes), ("source", .node), ("is_default", .u8)]
  | .exportNamed => [("name", .str), ("exported", .node)]
  | .exportDefault => [("value", .node)]
  | .exportAll => [("source", .node)]
  | .importSpecifier => [("name", .str), ("local", .node), ("is_default", .u8)]
  | .importNamespace => [("local", .node)]
  | .debugger | .thisExpr | .superExpr | .catchClause | .templatePart => []

/-- `ser_u8`, `ser_u16`, `ser_u32` and `ser_f64`. -/
def ser_u8 (value : Nat) : List UInt8 := LittleEndian.put 1 value
def ser_u16 (value : Nat) : List UInt8 := LittleEndian.put 2 value
def ser_u32 (value : Nat) : List UInt8 := LittleEndian.put 4 value
def ser_f64 (bits : BitVec 64) : List UInt8 := LittleEndian.put 8 bits.toNat

/-- `ser_str`, with at most 2^32 - 1 bytes. -/
def ser_str : Option (List UInt8) → List UInt8
  | none => ser_u32 0
  | some chars => ser_u32 (min chars.length 0xFFFFFFFF) ++ chars.take 0xFFFFFFFF

def ser_op (op : List UInt8) : List UInt8 :=
  ser_u8 (op.take 15).length ++ op.take 15

def LR_AST_NULL_NODE : Nat := 0xFFFF

/-- An `int` as a `uint32_t`, and back. -/
def u32_of_int (value : Int) : Nat := (value % 4294967296).toNat
def int_of_u32 (value : Nat) : Int := if value < 2147483648 then value else value - 4294967296

def ser_literal (tokenType : Nat) (payload : Payload) : List UInt8 :=
  if tokenType = TOK_BOOL_LIT then
    ser_u8 0 ++ ser_u32 payload.bits.toNat
  else if tokenType = TOK_STRING then
    ser_u8 1 ++ ser_str payload.str
  else if tokenType = TOK_NULL_LIT then
    ser_u8 3
  else if tokenType = TOK_UNDEFINED_LIT then
    ser_u8 4
  else if tokenType = TOK_BIGINT_LIT then
    ser_u8 5 ++ ser_f64 payload.bits
  else
    ser_u8 2 ++ ser_f64 payload.bits

def ser_fields_of (type : Nat) : List (String × SerField) :=
  match NodeType.ofCode type with
  | some type => ser_fields type
  | none => []

def ser_header (type : Nat) (token : Token) : List UInt8 :=
  ser_u16 type ++ (ser_u16 token.type ++ (ser_u32 token.line ++ (ser_u32 token.col ++
    ser_f64 token.num_val)))

mutual

def ser_node : Node → List UInt8
  | .null => ser_u16 LR_AST_NULL_NODE
  | .node type token _ values =>
    ser_header type token ++ ser_values token.type (ser_fields_of type) values

def ser_values (tokenType : Nat) : List (String × SerField) → Values → List UInt8
  | field :: fields, .cons value rest =>
    ser_value tokenType field.2 value ++ ser_values tokenType fields rest
  | _, _ => []

def ser_value (tokenType : Nat) : SerField → Value → List UInt8
  | .node, .child node => ser_node node
  | .nodes, .list count items => ser_u32 count.toNat ++ ser_items count.toNat items
  | .exprs, .list count items => ser_u32 (u32_of_int count) ++ ser_items count.toNat items
  | .parts, .texts count items =>
    ser_u32 (u32_of_int count) ++ (items.take count.toNat).flatMap ser_str
  | .str, .text chars => ser_str chars
  | .u8, .byte value => ser_u8 value
  | .op, .op chars => ser_op chars
  | .literal, .literal payload => ser_literal tokenType payload
  | _, _ => []

def ser_items : Nat → Items → List UInt8
  | count + 1, .cons item rest => ser_node item ++ ser_items count rest
  | _, _ => []

end

def lra_header : List UInt8 := [76, 82, 65, 3]

def lr_ast_serialize (root : Node) : List UInt8 :=
  lra_header ++ ser_node root

/-- How a field is read: `str` interns its bytes, `strRaw` copies them. -/
inductive DeserField where
  | node | nodes | str | strRaw | u8 | op | literal | parts | exprs
deriving DecidableEq

/-- The cases of `deser_node`. -/
def deser_fields : NodeType → List (String × DeserField)
  | .program | .block => [("items", .nodes)]
  | .exprStmt => [("expr", .node)]
  | .ifStmt | .whileStmt | .doWhile => [("cond", .node), ("body", .node), ("else_body", .node)]
  | .forStmt => [("init", .node), ("test", .node), ("update", .node), ("body", .node)]
  | .forIn | .forOf => [("each", .node), ("source", .node), ("body", .node)]
  | .switchStmt => [("test", .node), ("cases", .nodes)]
  | .caseClause | .defaultClause => [("cond", .node), ("body", .node)]
  | .breakStmt | .continueStmt => [("label", .node)]
  | .returnStmt | .throwStmt => [("arg", .node)]
  | .tryStmt =>
    [("body", .node), ("catch_body", .node), ("finally_body", .node), ("catch_var", .strRaw)]
  | .label => [("label", .node), ("stmt", .node)]
  | .withStmt => [("obj", .node), ("body", .node)]
  | .varDecl => [("vars", .nodes)]
  | .varDeclarator => [("var", .node), ("init", .node)]
  | .funcDecl | .funcExpr =>
    [("name", .strRaw), ("params", .nodes), ("key_expr", .node), ("body", .node),
      ("is_async", .u8), ("is_generator", .u8), ("is_static", .u8), ("is_getter", .u8),
      ("is_setter", .u8)]
  | .arrow => [("name", .str), ("params", .nodes), ("body", .node), ("is_async", .u8)]
  | .classDecl => [("name", .strRaw), ("extends", .node), ("methods", .nodes)]
  | .classBody => [("methods", .nodes)]
  | .literal => [("value", .literal)]
  | .identifier => [("name", .str)]
  | .binary => [("left", .node), ("right", .node), ("op", .op)]
  | .unary => [("arg", .node), ("op", .op), ("prefix", .u8)]
  | .conditional => [("cond", .node), ("consequent", .node), ("alternate", .node)]
  | .call | .optionalCall => [("callee", .node), ("args", .nodes), ("is_optional", .u8)]
  | .newExpr => [("callee", .node), ("args", .nodes)]
  | .member | .computedMember | .optionalMember =>
    [("obj", .node), ("prop", .node), ("is_optional", .u8)]
  | .assign => [("target", .node), ("value", .node), ("op", .op)]
  | .sequence => [("exprs", .nodes)]
  | .array => [("elements", .nodes)]
  | .object => [("props", .nodes)]
  | .property =>
    [("key", .node), ("val", .node), ("computed", .u8), ("shorthand", .u8),
      ("is_static", .u8)]
  | .spread | .spreadElement => [("arg", .node)]
  | .template | .taggedTemplate => [("parts", .parts), ("tag", .node), ("exprs", .exprs)]
  | .pattern => [("elements", .nodes), ("is_object", .u8)]
  | .rest => [("arg", .node)]
  | .defaultValue => [("left", .node), ("right", .node)]
  | .awaitExpr => [("arg", .node)]
  | .yieldExpr => [("arg", .node), ("is_delegate", .u8)]
  | .importDecl => [("specifiers", .nodes), ("source", .node)]
  | .exportDecl => [("specifiers", .nodes), ("source", .node), ("is_default", .u8)]
  | .exportNamed => [("name", .strRaw), ("exported", .node)]
  | .exportDefault => [("value", .node)]
  | .exportAll => [("source", .node)]
  | .importSpecifier => [("name", .strRaw), ("local", .node), ("is_default", .u8)]
  | .importNamespace => [("local", .node)]
  | .debugger | .thisExpr | .superExpr | .catchClause | .templatePart => []

inductive Request where
  | parser
  | node
  | nodes (count : Nat)
  | interned (length : Nat)
  | copied (size : Nat)
  | array (count : Nat)
deriving DecidableEq

/-- Something that the reader has read, or a request that was refused; `short` is a read for which
the bytes do not suffice. -/
inductive Entry where
  | short
  | refused (request : Request)
  | type (code : Nat)
  | absent (place : Option (NodeType × String))
  | count (count : Nat)
  | parts (count : Nat)
  | text (chars : List UInt8)
  | copy (chars : List UInt8)
  | op (length : Nat) (chars : List UInt8)
  | tag (tag tokenType : Nat)
deriving DecidableEq

/-- `DeserState`, with what has been read.  It is wild when an array was written that was not
allocated, or bytes behind a block. -/
structure DeserState where
  pos : Nat
  error : Bool
  wild : Bool
  log : List Entry
deriving DecidableEq

namespace DeserState

def note (st : DeserState) (entry : Entry) : DeserState :=
  { st with log := st.log ++ [entry] }

def fail (st : DeserState) (entry : Entry) : DeserState :=
  { st with error := true, log := st.log ++ [entry] }

end DeserState

section Read

variable (buf : List UInt8) (memory : List Entry → Request → Bool)

def read_chars : Nat → Nat → Option (List UInt8)
  | _, 0 => some []
  | pos, length + 1 =>
    buf[pos]?.bind fun byte => (read_chars (pos + 1) length).map (byte :: ·)

def read_number (width : Nat) (st : DeserState) : Option (Nat × DeserState) :=
  if st.pos + width > buf.length then
    some (0, st.fail .short)
  else
    (read_chars buf st.pos width).map fun bytes =>
      (LittleEndian.get bytes, { st with pos := st.pos + width })

/-- `read_u8`, `read_u16`, `read_u32` and `read_f64`. -/
def read_u8 := read_number buf 1
def read_u16 := read_number buf 2
def read_u32 := read_number buf 4
def read_f64 (st : DeserState) : Option (BitVec 64 × DeserState) :=
  (read_number buf 8 st).map fun (bits, st) => (BitVec.ofNat 64 bits, st)

def read_i64 (st : DeserState) : Option (BitVec 64 × DeserState) :=
  (read_u32 buf st).bind fun (lo, st) =>
  (read_u32 buf st).map fun (hi, st) => (BitVec.ofNat 64 (lo + 4294967296 * hi), st)

def deser_str (st : DeserState) : Option (Option (List UInt8) × DeserState) :=
  (read_u32 buf st).bind fun (n, st) =>
  if st.error ∨ n = 0 then
    some (some [], st)
  else if st.pos + n > buf.length then
    some (some [], st.fail .short)
  else
    (read_chars buf st.pos n).map fun chars =>
      let st := { st.note (.text chars) with pos := st.pos + n }
      if memory st.log (.interned n) then
        (some (c_string chars), st)
      else
        (some [], st.note (.refused (.interned n)))

/-- The sum `n + 1` of `malloc(n + 1)`, as a `uint32_t`. -/
def copy_size (n : Nat) : Nat := (n + 1) % 4294967296

def deser_str_raw (st : DeserState) : Option (Option (List UInt8) × DeserState) :=
  (read_u32 buf st).bind fun (n, st) =>
  if st.error ∨ n = 0 then
    some (none, st)
  else if st.pos + n > buf.length then
    some (none, st.fail .short)
  else if memory st.log (.copied (copy_size n)) then
    (read_chars buf st.pos n).map fun chars =>
      (some (c_string chars),
        { st.note (.copy chars) with pos := st.pos + n, wild := st.wild || copy_size n < n + 1 })
  else
    some (none, st.fail (.refused (.copied (copy_size n))))

def deser_op (st : DeserState) : Option (List UInt8 × DeserState) :=
  (read_u8 buf st).bind fun (length, st) =>
  let n := min length 15
  if st.pos + n > buf.length then
    some ([], st.fail .short)
  else
    (read_chars buf st.pos n).map fun chars =>
      (c_string chars, { st.note (.op length chars) with pos := st.pos + n })

def minus_one : BitVec 64 := 0xBFF0000000000000

def deser_payload (tag : Nat) (token : Token) (st : DeserState) :
    Option ((Token × Payload) × DeserState) :=
  if tag = 0 then
    (read_u32 buf st).map fun (value, st) =>
      (({ token with type := TOK_BOOL_LIT }, ⟨BitVec.ofNat 64 value, none⟩), st)
  else if tag = 1 then
    (deser_str buf memory st).map fun (str, st) =>
      (({ token with type := TOK_STRING }, ⟨0, str⟩), st)
  else if tag = 2 then
    (read_f64 buf st).map fun (bits, st) =>
      (({ token with type := TOK_NUMBER }, ⟨bits, none⟩), st)
  else if tag = 3 then
    some (({ token with type := TOK_NULL_LIT }, ⟨0, none⟩), st)
  else if tag = 5 then
    (read_i64 buf st).map fun (bits, st) =>
      (({ token with type := TOK_BIGINT_LIT }, ⟨bits, none⟩), st)
  else
    some (({ token with type := TOK_UNDEFINED_LIT }, ⟨minus_one, none⟩), st)

def deser_literal (token : Token) (st : DeserState) :
    Option ((Token × Payload) × DeserState) :=
  (read_u8 buf st).bind fun (tag, st) =>
  deser_payload buf memory tag token (st.note (.tag tag token.type))

def deser_parts : Nat → DeserState → Option (List (Option (List UInt8)) × DeserState)
  | 0, st => some ([], st)
  | count + 1, st =>
    (deser_str_raw buf memory st).bind fun (part, st) =>
    (deser_parts count st).map fun (parts, st) => (part :: parts, st)

section Fields

variable (readNode : Option (NodeType × String) → DeserState → Option (Node × DeserState))

def deser_items (place : NodeType × String) :
    Nat → DeserState → Option (Items × DeserState)
  | 0, st => some (.nil, st)
  | count + 1, st =>
    (readNode (some place) st).bind fun (item, st) =>
    (deser_items place count st).map fun (items, st) => (.cons item items, st)

def deser_nodes (place : NodeType × String) (count : Nat) (st : DeserState) :
    Option (Value × DeserState) :=
  if count = 0 then
    some (.list 0 .nil, st)
  else if memory st.log (.nodes count) then
    (deser_items readNode place count st).map fun (items, st) =>
      (.list (int_of_u32 count) items, st)
  else
    some (.list (int_of_u32 count) .nil, st.fail (.refused (.nodes count)))

def deser_node_list (place : NodeType × String) (st : DeserState) :
    Option (Value × DeserState) :=
  (read_u32 buf st).bind fun (count, st) =>
  deser_nodes memory readNode place count (st.note (.count count))

def allocate_array (count : Nat) (st : DeserState) : DeserState :=
  if count = 0 ∨ memory st.log (.array count) then st
  else { st.note (.refused (.array count)) with wild := true }

def deser_template_parts (st : DeserState) : Option (Value × DeserState) :=
  (read_u32 buf st).bind fun (n, st) =>
  let count := int_of_u32 n
  (deser_parts buf memory count.toNat
    (allocate_array memory count.toNat (st.note (.parts n)))).map fun (parts, st) =>
      (.texts count parts, st)

def deser_template_exprs (place : NodeType × String) (st : DeserState) :
    Option (Value × DeserState) :=
  (read_u32 buf st).bind fun (n, st) =>
  let count := int_of_u32 n
  (deser_items readNode place count.toNat
    (allocate_array memory count.toNat (st.note (.parts n)))).map fun (items, st) =>
      (.list count items, st)

def deser_field (owner : NodeType) (field : String × DeserField) (token : Token)
    (st : DeserState) : Option ((Token × Value) × DeserState) :=
  let keep := Option.map fun (result : Value × DeserState) => ((token, result.1), result.2)
  match field.2 with
  | .node =>
    keep <| (readNode (some (owner, field.1)) st).map fun (node, st) => (.child node, st)
  | .nodes => keep <| deser_node_list buf memory readNode (owner, field.1) st
  | .str => keep <| (deser_str buf memory st).map fun (chars, st) => (.text chars, st)
  | .strRaw => keep <| (deser_str_raw buf memory st).map fun (chars, st) => (.text chars, st)
  | .u8 => keep <| (read_u8 buf st).map fun (value, st) => (.byte value, st)
  | .op => keep <| (deser_op buf st).map fun (chars, st) => (.op chars, st)
  | .literal =>
    (deser_literal buf memory token st).map fun ((token, payload), st) =>
      ((token, .literal payload), st)
  | .parts => keep <| deser_template_parts buf memory st
  | .exprs => keep <| deser_template_exprs buf memory readNode (owner, field.1) st

def deser_values (owner : NodeType) :
    List (String × DeserField) → Token → DeserState → Option ((Token × Values) × DeserState)
  | [], token, st => some ((token, .nil), st)
  | field :: fields, token, st =>
    (deser_field buf memory readNode owner field token st).bind fun ((token, value), st) =>
    (deser_values owner fields token st).map fun ((token, values), st) =>
      ((token, .cons value values), st)

/-- Restore `class_node` of a method. -/
def Node.link : Node → Node
  | .node type token linked values =>
    .node type token (linked || type == NodeType.funcDecl.code || type == NodeType.funcExpr.code)
      values
  | .null => .null

def Items.link : Items → Items
  | .nil => .nil
  | .cons item rest => .cons item.link rest.link

def Value.link : Value → Value
  | .list count items => .list count items.link
  | value => value

def Values.link : Values → Values
  | .nil => .nil
  | .cons value rest => .cons value.link rest.link

def deser_token (st : DeserState) : Option (Token × DeserState) :=
  (read_u16 buf st).bind fun (type, st) =>
  (read_u32 buf st).bind fun (line, st) =>
  (read_u32 buf st).bind fun (col, st) =>
  (read_f64 buf st).map fun (num_val, st) => (⟨type, line, col, num_val⟩, st)

def deser_union (code : Nat) (token : Token) (st : DeserState) :
    Option ((Token × Values) × DeserState) :=
  match NodeType.ofCode code with
  | none => some ((token, .nil), st)
  | some type =>
    (deser_values buf memory readNode type (deser_fields type) token st).map
      fun ((token, values), st) =>
        ((token, if type = .classDecl then values.link else values), st)

def deser_body (code : Nat) (st : DeserState) : Option (Node × DeserState) :=
  (deser_token buf st).bind fun (token, st) =>
  (deser_union buf memory readNode code token st).map fun ((token, values), st) =>
    (if st.error then .null else .node code token false values, st)

end Fields

/-- `deser_node`, by recursion on a bound of the depth. -/
def deser_node : Nat → Option (NodeType × String) → DeserState → Option (Node × DeserState)
  | 0, _, _ => none
  | depth + 1, place, st =>
    (read_u16 buf st).bind fun (code, st) =>
    if st.error then
      some (.null, st)
    else if code = LR_AST_NULL_NODE then
      some (.null, st.note (.absent place))
    else if memory st.log .node then
      deser_body buf memory (deser_node depth) code (st.note (.type code))
    else
      some (.null, st.fail (.refused .node))

end Read

/-- `lr_ast_deserialize`; the depth is bounded by the number of bytes. -/
def lr_ast_deserialize (memory : List Entry → Request → Bool) (bytes : List UInt8) :
    Option (Node × DeserState) :=
  let start : DeserState := ⟨0, false, false, []⟩
  if bytes.length < 5 ∨ bytes.take 4 ≠ lra_header then
    some (.null, start)
  else if memory [] .parser then
    (deser_node (bytes.drop 4) memory bytes.length none start).map fun (root, st) =>
      (if st.error then .null else root, st)
  else
    some (.null, start.fail (.refused .parser))

end LRJS.AstCodec
