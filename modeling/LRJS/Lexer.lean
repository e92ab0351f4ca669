import LRJS.Library.Guarded
import LRJS.NumberText

/-!
# The lexer

Tokens of a source of bytes.  Every read of the source is a guarded one, `none`
when it is past the end; every loop is a loop of guarded steps.  Allocation
failures are left out, and so is the unused field `current`.
-/

namespace LRJS.Lexing

open Guarded

/-- `LRTokType`, without `TOK_AND` and `TOK_OR`, which the lexer never makes. -/
inductive LRTokType where
  | tokEof
  | tokNumber | tokBigintLit | tokString | tokIdentifier | tokRegexp
  | tokBoolLit | tokNullLit | tokUndefinedLit
  -- punctuators
  | tokLparen | tokRparen | tokLbracket | tokRbracket
  | tokLbrace | tokRbrace | tokDot | tokSemicolon
  | tokComma | tokColon | tokArrow | tokEllipsis
  -- operators
  | tokAssign | tokPlusAssign | tokMinusAssign | tokMulAssign | tokDivAssign
  | tokModAssign | tokPowAssign | tokAndAssign | tokOrAssign | tokXorAssign
  | tokShiftLeftAssign | tokShiftRightAssign | tokUshiftRightAssign
  | tokAndAndAssign | tokOrOrAssign | tokNullishAssign
  | tokEq | tokNeq | tokStrictEq | tokStrictNeq
  | tokLt | tokGt | tokLe | tokGe
  | tokPlus | tokMinus | tokMul | tokDiv | tokMod | tokPow
  | tokInc | tokDec
  | tokNot | tokBitAnd | tokBitOr | tokBitXor | tokBitNot
  | tokAndAnd | tokOrOr | tokNullish
  | tokShiftLeft | tokShiftRight | tokUshiftRight
  | tokQuestion | tokQuestionDot
  | tokTemplate | tokTemplateEnd
  -- keywords
  | tokLet | tokConst | tokVar | tokFunction | tokIf | tokElse
  | tokFor | tokWhile | tokDo | tokSwitch | tokCase | tokDefault
  | tokBreak | tokContinue | tokReturn | tokThrow | tokTry | tokCatch | tokFinally
  | tokNew | tokThis | tokTypeof | tokDelete | tokVoid
  | tokClass | tokExtends | tokSuper
  | tokImport | tokExport | tokFrom | tokAs
  | tokIn | tokInstanceof | tokOf
  | tokAsync | tokAwait | tokYield
  | tokStatic | tokGet | tokSet
  | tokPrivateName
  | tokDebugger
  | tokError
deriving DecidableEq, Repr

/-- What `start` points to: a place in the source, or the text of an error. -/
inductive TokenStart where
  | source (offset : Nat)
  | message (text : String)
deriving DecidableEq, Repr

/-- `Token`; the values are 0 and absent where the source leaves them unset. -/
structure Token where
  type : LRTokType
  start : TokenStart
  len : Nat
  numVal : Double := .ofInt 0
  bigintVal : Int := 0
  strVal : Option (List UInt8) := none
  line : Nat
  col : Nat
deriving DecidableEq, Repr

structure Lexer where
  src : List UInt8
  pos : Nat
  line : Nat
  col : Nat
  peek : Option Token
  allowRegexp : Bool
  inTemplate : Bool
deriving DecidableEq, Repr

def lexer_init (src : List UInt8) : Lexer :=
  ⟨src, 0, 1, 1, none, true, false⟩

def ch (c : Char) : UInt8 :=
  .ofNat c.toNat

def isDigit (c : UInt8) : Bool :=
  ch '0' ≤ c && c ≤ ch '9'

/-- `isalpha` in the C locale. -/
def isAlpha (c : UInt8) : Bool :=
  (ch 'a' ≤ c && c ≤ ch 'z') || (ch 'A' ≤ c && c ≤ ch 'Z')

def is_js_ident_start (c : UInt8) : Bool :=
  isAlpha c || c = ch '_' || c = ch '$' || 0x80 ≤ c

def is_js_ident_continue (c : UInt8) : Bool :=
  isAlpha c || isDigit c || c = ch '_' || c = ch '$' || 0x80 ≤ c

def is_hex_char (c : UInt8) : Bool :=
  isDigit c || (ch 'a' ≤ c && c ≤ ch 'f') || (ch 'A' ≤ c && c ≤ ch 'F')

def is_octal_char (c : UInt8) : Bool :=
  ch '0' ≤ c && c ≤ ch '7'

def is_binary_char (c : UInt8) : Bool :=
  c = ch '0' || c = ch '1'

def is_line_terminator (c : UInt8) : Bool :=
  c = ch '\n' || c = ch '\r'

/-- `lex->src[i]`; `none` is a read past the end. -/
def Lexer.byte (lex : Lexer) (i : Nat) : Option UInt8 :=
  lex.src[i]?

/-- `lex->pos >= lex->src_len`. -/
def Lexer.AtEnd (lex : Lexer) : Prop :=
  lex.src.length ≤ lex.pos

instance (lex : Lexer) : Decidable lex.AtEnd :=
  inferInstanceAs (Decidable (_ ≤ _))

def Lexer.slice (lex : Lexer) (start : Nat) : Nat → Option (List UInt8)
  | 0 => some []
  | len + 1 => do
      let byte ← lex.byte start
      let bytes ← lex.slice (start + 1) len
      some (byte :: bytes)

def lexer_peek_char (lex : Lexer) : Option UInt8 :=
  if lex.AtEnd then some 0 else lex.byte lex.pos

def lexer_peek_char_next (lex : Lexer) : Option UInt8 :=
  if lex.src.length ≤ lex.pos + 1 then some 0 else lex.byte (lex.pos + 1)

def lexer_advance (lex : Lexer) : Option Lexer :=
  if lex.AtEnd then
    some lex
  else do
    let c ← lex.byte lex.pos
    let next := { lex with pos := lex.pos + 1 }
    if c = ch '\n' then
      some { next with line := lex.line + 1, col := 1 }
    else if c = ch '\r' then do
      let next := { next with line := lex.line + 1, col := 1 }
      if (← lexer_peek_char next) = ch '\n' then
        some { next with pos := next.pos + 1 }
      else
        some next
    else
      some { next with col := lex.col + 1 }

def Lexer.loop {Result State : Type} (lex : Lexer) (step : State → Option (State ⊕ Result))
    (start : State) : Option Result :=
  Guarded.loop step (lex.src.length + 1) start

/-- `while (condition) lexer_advance(lex);` -/
def advanceWhile (condition : Lexer → Option Bool) (lex : Lexer) : Option Lexer :=
  lex.loop (fun lex => do
    if ← condition lex then
      let lex ← lexer_advance lex
      some (.inl lex)
    else
      some (.inr lex)) lex

def atLine (lex : Lexer) : Option Bool :=
  if lex.AtEnd then some false else do
    let nc ← lexer_peek_char lex
    some !(is_line_terminator nc)

def skipLineComment (lex : Lexer) : Option Lexer :=
  advanceWhile atLine lex

def skipBlockComment (lex : Lexer) : Option Lexer :=
  lex.loop (fun lex =>
    if lex.AtEnd then some (.inr lex) else do
      let c ← lexer_peek_char lex
      let next ← lexer_peek_char_next lex
      let lex ← lexer_advance lex
      if c = ch '*' ∧ next = ch '/' then
        let lex ← lexer_advance lex
        some (.inr lex)
      else
        some (.inl lex)) lex

def isBlank (c : UInt8) : Bool :=
  c = ch ' ' || c = ch '\t' || c = ch '\n' || c = ch '\r'

def lexer_skip_whitespace (lex : Lexer) : Option Lexer :=
  lex.loop (fun lex => do
    let c ← lexer_peek_char lex
    let next ← lexer_peek_char_next lex
    if c = 0 then
      some (.inr lex)
    else if isBlank c then
      let lex ← lexer_advance lex
      some (.inl lex)
    else if c = ch '/' ∧ next = ch '/' then
      let lex ← skipLineComment lex
      some (.inl lex)
    else if c = ch '/' ∧ next = ch '*' then
      let lex ← lexer_advance lex
      let lex ← lexer_advance lex
      let lex ← skipBlockComment lex
      some (.inl lex)
    else
      some (.inr lex)) lex

/-- Tokens that can end an expression, behind which `/` is a division. -/
def LRTokType.endsExpression : LRTokType → Bool
  | .tokNumber | .tokString | .tokIdentifier | .tokRegexp
  | .tokBoolLit | .tokNullLit | .tokUndefinedLit
  | .tokRparen | .tokRbracket | .tokRbrace
  | .tokInc | .tokDec
  | .tokTemplateEnd
  | .tokThis | .tokSuper
  | .tokPrivateName
  | .tokGet | .tokSet | .tokStatic | .tokOf
  | .tokFrom | .tokAs | .tokAsync => true
  | _ => false

/-- The centralised regexp-context rule; it overrides the assignments to
`allow_regexp` before a token is made. -/
def regexpAfter (type : LRTokType) (allowed : Bool) : Bool :=
  if type.endsExpression then false
  else if type = .tokEof ∨ type = .tokError then allowed
  else true

def make_token_from (lex : Lexer) (type : LRTokType) (start : Nat) : Token × Lexer :=
  ({ type := type, start := .source start, len := lex.pos - start,
     line := lex.line, col := lex.col },
   { lex with allowRegexp := regexpAfter type lex.allowRegexp })

def make_error (lex : Lexer) (msg : String) : Token :=
  { type := .tokError, start := .message msg, len := msg.utf8ByteSize,
    line := lex.line, col := lex.col }

/-- An error token made by `make_token_from`; the length is written by hand. -/
def unterminated (lex : Lexer) (start : Nat) (msg : String) (len : Nat) : Token × Lexer :=
  let (t, lex) := make_token_from lex .tokError start
  ({ t with start := .message msg, len := len }, lex)

/-- The words of `lookup_keyword`. -/
def keywords : List (String × LRTokType) :=
  [("as", .tokAs), ("async", .tokAsync), ("await", .tokAwait), ("break", .tokBreak),
    ("case", .tokCase), ("catch", .tokCatch), ("class", .tokClass),
    ("continue", .tokContinue), ("const", .tokConst), ("do", .tokDo),
    ("default", .tokDefault), ("delete", .tokDelete), ("debugger", .tokDebugger),
    ("else", .tokElse), ("extends", .tokExtends), ("export", .tokExport), ("for", .tokFor),
    ("false", .tokBoolLit), ("function", .tokFunction), ("finally", .tokFinally),
    ("from", .tokFrom), ("get", .tokGet), ("if", .tokIf), ("in", .tokIn),
    ("import", .tokImport), ("instanceof", .tokInstanceof), ("let", .tokLet),
    ("null", .tokNullLit), ("new", .tokNew), ("of", .tokOf), ("return", .tokReturn),
    ("super", .tokSuper), ("switch", .tokSwitch), ("static", .tokStatic), ("set", .tokSet),
    ("true", .tokBoolLit), ("this", .tokThis), ("typeof", .tokTypeof), ("try", .tokTry),
    ("throw", .tokThrow), ("undefined", .tokUndefinedLit), ("var", .tokVar),
    ("void", .tokVoid), ("while", .tokWhile), ("yield", .tokYield)]

def ascii (text : String) : List UInt8 :=
  text.toList.map ch

def lookup_keyword (str : List UInt8) : LRTokType :=
  match keywords.find? fun word => ascii word.1 = str with
  | some word => word.2
  | none => .tokIdentifier

def chars (bytes : List UInt8) : List Char :=
  bytes.map fun byte => Char.ofNat byte.toNat

/-- `strtoll(buf, NULL, base)` for a text without blanks and sign. -/
def strtoll (base : Nat) (text : List Char) : Int :=
  let (base, text) :=
    match text with
    | '0' :: mark :: rest =>
      if (mark = 'x' ∨ mark = 'X') ∧ (base = 0 ∨ base = 16) ∧
          (rest.head?.bind (digit? 16)).isSome then
        (16, rest)
      else
        (if base = 0 then 8 else base, text)
    | _ => (if base = 0 then 10 else base, text)
  let value := (spanDigits base text).1.foldl (fun n digit => n * base + digit) 0
  min value (2 ^ 63 - 1)

inductive NumberForm where
  | hex | octal | binary | decimal | bigint
deriving DecidableEq, Repr

def atDigit (lex : Lexer) : Option Bool := do
  let c ← lexer_peek_char lex
  let next ← lexer_peek_char_next lex
  some (isDigit c || (c = ch '_' && isDigit next))

def atClass (member : UInt8 → Bool) (lex : Lexer) : Option Bool := do
  let c ← lexer_peek_char lex
  some (member c || c = ch '_')

/-- The digits behind `0x`, `0o` or `0b`. -/
def lexRadix (lex : Lexer) (member : UInt8 → Bool) : Option Lexer := do
  let lex ← lexer_advance lex
  let lex ← lexer_advance lex
  advanceWhile (atClass member) lex

def lexFraction (lex : Lexer) : Option Lexer := do
  let c ← lexer_peek_char lex
  let next ← lexer_peek_char_next lex
  if c = ch '.' ∧ next ≠ ch '.' ∧ is_js_ident_start next = false then
    let lex ← lexer_advance lex
    advanceWhile atDigit lex
  else
    some lex

def lexSign (lex : Lexer) : Option Lexer := do
  let c ← lexer_peek_char lex
  if c = ch '+' ∨ c = ch '-' then lexer_advance lex else some lex

def lexExponent (lex : Lexer) : Option Lexer := do
  let c ← lexer_peek_char lex
  if c = ch 'e' ∨ c = ch 'E' then
    let lex ← lexer_advance lex
    let lex ← lexSign lex
    advanceWhile atDigit lex
  else
    some lex

def lexDecimal (lex : Lexer) : Option (NumberForm × Lexer) := do
  let lex ← advanceWhile atDigit lex
  let lex ← lexFraction lex
  let lex ← lexExponent lex
  let c ← lexer_peek_char lex
  if c = ch 'n' then
    let lex ← lexer_advance lex
    some (.bigint, lex)
  else
    some (.decimal, lex)

def radixMark (lex : Lexer) : Option UInt8 := do
  let c ← lexer_peek_char lex
  if c = ch '0' then lexer_peek_char_next lex else some 0

def lexNumberText (lex : Lexer) : Option (NumberForm × Lexer) := do
  let next ← radixMark lex
  if next = ch 'x' ∨ next = ch 'X' then
    let lex ← lexRadix lex is_hex_char
    some (.hex, lex)
  else if next = ch 'o' ∨ next = ch 'O' then
    let lex ← lexRadix lex is_octal_char
    some (.octal, lex)
  else if next = ch 'b' ∨ next = ch 'B' then
    let lex ← lexRadix lex is_binary_char
    some (.binary, lex)
  else
    lexDecimal lex

/-- `strtod(buf, NULL)`. -/
def decimalValue (text : List Char) : Double :=
  match strtod text with
  | some (value, _) => value
  | none => .ofInt 0

def Token.withNumber (t : Token) (form : NumberForm) (bytes : List UInt8) : Token :=
  let text := chars (bytes.filter (· ≠ ch '_'))
  match form with
  | .hex => { t with numVal := .ofInt (strtoll 16 text) }
  | .octal => { t with numVal := .ofInt (strtoll 8 (text.drop 2)) }
  | .binary => { t with numVal := .ofInt (strtoll 2 (text.drop 2)) }
  | .decimal => { t with numVal := decimalValue text }
  | .bigint => { t with bigintVal := strtoll 0 text.dropLast }

def lex_number (lex : Lexer) : Option (Token × Lexer) := do
  let start := lex.pos
  let (form, lex) ← lexNumberText lex
  let bytes ← lex.slice start (lex.pos - start)
  let type := if form = .bigint then LRTokType.tokBigintLit else .tokNumber
  let (t, lex) := make_token_from lex type start
  some (t.withNumber form bytes, lex)

/-- The value of a hexadecimal digit in `cp * 16 + ...`, any other character included. -/
def hexValue (c : UInt8) : Int :=
  let signed : Int := if c < 0x80 then c.toNat else (c.toNat : Int) - 256
  if c < 0x80 ∧ ch 'a' ≤ c then signed - 97 + 10
  else if c < 0x80 ∧ ch 'A' ≤ c then signed - 65 + 10
  else signed - 48

def encode (cp : Nat) : List UInt8 :=
  if cp < 0x80 then
    [.ofNat cp]
  else if cp < 0x800 then
    [.ofNat (0xC0 ||| cp >>> 6), .ofNat (0x80 ||| (cp &&& 0x3F))]
  else
    [.ofNat (0xE0 ||| cp >>> 12), .ofNat (0x80 ||| (cp >>> 6 &&& 0x3F)),
      .ofNat (0x80 ||| (cp &&& 0x3F))]

/-- `strtoul(hex, NULL, 16)`, with blanks, a sign and `0x` in front. -/
def strtoul16 (bytes : List UInt8) : Nat :=
  let text := (chars bytes).dropWhile fun c => c = ' ' ∨ (9 ≤ c.toNat ∧ c.toNat ≤ 13)
  let (negative, text) :=
    match text with
    | '-' :: rest => (true, rest)
    | '+' :: rest => (false, rest)
    | _ => (false, text)
  let value := strtoll 16 text
  (if negative then -value % 2 ^ 64 else value).toNat

def simpleEscape (c : UInt8) : Option UInt8 :=
  if c = ch 'n' then some 10
  else if c = ch 't' then some 9
  else if c = ch 'r' then some 13
  else if c = ch 'b' then some 8
  else if c = ch 'f' then some 12
  else if c = ch 'v' then some 11
  else if c = ch '0' then some 0
  else if c ∈ [ch '\\', ch '\'', ch '"', ch '`'] then some c
  else none

section Unescape

variable (lex : Lexer) (start len : Nat)

/-- `start[i]` in `unescape_string`. -/
def charAt (i : Nat) : Option UInt8 :=
  lex.byte (start + i)

/-- The digits of `\u{...}`, and where they end. -/
def braceDigits (i : Nat) : Option (Nat × Nat) :=
  lex.loop (fun (i, cp) =>
    if i < len then do
      let c ← charAt lex start i
      if c = ch '}' then
        some (.inr (i, cp))
      else
        some (.inl (i + 1, (((cp * 16 : Int) + hexValue c) % 2 ^ 64).toNat))
    else
      some (.inr (i, cp))) (i, 0)

/-- `\x..`: the bytes it stands for, and the place behind it. -/
def hexEscape (i : Nat) : Option (List UInt8 × Nat) :=
  if i + 2 < len then do
    let first ← charAt lex start (i + 1)
    let second ← charAt lex start (i + 2)
    if is_hex_char first ∧ is_hex_char second then
      some ([.ofNat (strtoul16 [first, second])], i + 3)
    else
      some ([ch 'x'], i + 1)
  else
    some ([ch 'x'], i + 1)

/-- `\u....` and `\u{...}`. -/
def unicodeEscape (i : Nat) : Option (List UInt8 × Nat) :=
  if i + 4 < len then do
    let first ← charAt lex start (i + 1)
    if first = ch '{' then
      let (i, cp) ← braceDigits lex start len (i + 2)
      some (encode cp, i + 1)
    else
      let second ← charAt lex start (i + 2)
      let third ← charAt lex start (i + 3)
      let fourth ← charAt lex start (i + 4)
      some (encode (strtoul16 [first, second, third, fourth]), i + 5)
  else
    some ([ch 'u'], i + 1)

/-- An escape whose character, behind the backslash, is at `i`. -/
def escape (i : Nat) : Option (List UInt8 × Nat) := do
  let c ← charAt lex start i
  match simpleEscape c with
  | some byte => some ([byte], i + 1)
  | none =>
    if c = ch 'x' then
      hexEscape lex start len i
    else if c = ch 'u' then
      unicodeEscape lex start len i
    else if c = ch '\r' then
      -- line continuation
      if i + 1 < len then
        let next ← charAt lex start (i + 1)
        some ([], if next = ch '\n' then i + 2 else i + 1)
      else
        some ([], i + 1)
    else if c = ch '\n' then
      some ([], i + 1)
    else
      some ([c], i + 1)

/-- `unescape_string(lex->src + start, len)`. -/
def unescape_string : Option (List UInt8) :=
  lex.loop (fun (i, result) =>
    if i < len then do
      let c ← charAt lex start i
      if c = ch '\\' ∧ i + 1 < len then
        let (bytes, i) ← escape lex start len (i + 1)
        some (.inl (i, result ++ bytes))
      else
        some (.inl (i + 1, result ++ [c]))
    else
      some (.inr result)) (0, [])

end Unescape

def unterminatedString (lex : Lexer) (start : Nat) : Token × Lexer :=
  unterminated lex start "unterminated string literal" 26

def skipEscaped (lex : Lexer) : Option Lexer := do
  let lex ← lexer_advance lex
  let c ← lexer_peek_char lex
  if c = ch '\r' then
    -- handle \r\n line continuation
    let lex ← lexer_advance lex
    let c ← lexer_peek_char lex
    if c = ch '\n' then lexer_advance lex else some lex
  else
    lexer_advance lex

def lex_string (lex : Lexer) (quote : UInt8) : Option (Token × Lexer) := do
  let start := lex.pos
  let lex ← lexer_advance lex
  let contentStart := lex.pos
  lex.loop (fun lex =>
    if lex.AtEnd then some (.inr (unterminatedString lex start)) else do
      let c ← lexer_peek_char lex
      if c = quote then
        let decoded ← unescape_string lex contentStart (lex.pos - contentStart)
        let lex ← lexer_advance lex
        let (t, lex) := make_token_from lex .tokString start
        some (.inr ({ t with strVal := some decoded }, lex))
      else if c = ch '\\' then
        let lex ← skipEscaped lex
        some (.inl lex)
      else if is_line_terminator c then
        some (.inr (unterminatedString lex start))
      else
        let lex ← lexer_advance lex
        some (.inl lex)) lex

def makeTemplate (lex : Lexer) (type : LRTokType) (start bodyStart bodyEnd : Nat) :
    Option (Token × Lexer) := do
  let text ← lex.slice bodyStart (bodyEnd - bodyStart)
  let (t, lex) := make_token_from lex type start
  some ({ t with strVal := some text }, lex)

def openTemplate (lex : Lexer) : Option Lexer := do
  let c ← lexer_peek_char lex
  if c = ch '`' ∧ lex.inTemplate = false then
    let lex ← lexer_advance lex
    some { lex with inTemplate := true }
  else
    some lex

def lex_template (lex : Lexer) : Option (Token × Lexer) := do
  let start := lex.pos
  let lex ← openTemplate lex
  let bodyStart := lex.pos
  lex.loop (fun lex =>
    if lex.AtEnd then
      some (.inr (unterminated lex start "unterminated template literal" 28))
    else do
      let c ← lexer_peek_char lex
      let next ← lexer_peek_char_next lex
      if c = ch '`' then
        let lex ← lexer_advance lex
        let made ← makeTemplate { lex with inTemplate := false } .tokTemplateEnd start bodyStart
          (lex.pos - 1)
        some (.inr made)
      else if c = ch '$' ∧ next = ch '{' then
        let lex ← lexer_advance lex
        let lex ← lexer_advance lex
        let made ← makeTemplate lex .tokTemplate start bodyStart (lex.pos - 2)
        some (.inr made)
      else if c = ch '\\' then
        let lex ← lexer_advance lex
        let lex ← lexer_advance lex
        some (.inl lex)
      else
        let lex ← lexer_advance lex
        some (.inl lex)) lex

def atFlag (lex : Lexer) : Option Bool :=
  if lex.AtEnd then some false else do
    let c ← lexer_peek_char lex
    some (is_js_ident_continue c && c ≠ ch '\\')

def regexpBody (lex : Lexer) : Option (Lexer × Bool) :=
  lex.loop (fun (lex, inClass) =>
    if lex.AtEnd then some (.inr (lex, true)) else do
      let c ← lexer_peek_char lex
      if c = ch '\\' then
        let lex ← lexer_advance lex
        let lex ← lexer_advance lex
        some (.inl (lex, inClass))
      else if c = ch '/' ∧ inClass = false then
        let lex ← lexer_advance lex
        some (.inr (lex, true))
      else if is_line_terminator c then
        some (.inr (lex, false))
      else
        let lex ← lexer_advance lex
        some (.inl (lex, if c = ch '[' then true else if c = ch ']' then false else inClass)))
    (lex, false)

def lex_regexp (lex : Lexer) : Option (Token × Lexer) := do
  let start := lex.pos
  let lex ← lexer_advance lex
  let (lex, complete) ← regexpBody lex
  if complete then
    let lex ← advanceWhile atFlag lex
    some (make_token_from lex .tokRegexp start)
  else
    some (unterminated lex start "unterminated regular expression" 30)

/-- The operators and punctuators, longer ones first.  The division operators are tried where no
regular expression can start. -/
def operators : List (String × LRTokType) :=
  [("(", .tokLparen), (")", .tokRparen), ("[", .tokLbracket), ("]", .tokRbracket),
    ("\x7b", .tokLbrace), ("\x7d", .tokRbrace), (";", .tokSemicolon), (",", .tokComma),
    (":", .tokColon),
    ("??=", .tokNullishAssign), ("??", .tokNullish), ("?.", .tokQuestionDot),
    ("?", .tokQuestion), ("~", .tokBitNot), ("...", .tokEllipsis), (".", .tokDot),
    ("++", .tokInc), ("+=", .tokPlusAssign), ("+", .tokPlus),
    ("--", .tokDec), ("-=", .tokMinusAssign), ("-", .tokMinus),
    ("**=", .tokPowAssign), ("**", .tokPow), ("*=", .tokMulAssign), ("*", .tokMul),
    ("%=", .tokModAssign), ("%", .tokMod),
    ("===", .tokStrictEq), ("==", .tokEq), ("=>", .tokArrow), ("=", .tokAssign),
    ("!==", .tokStrictNeq), ("!=", .tokNeq), ("!", .tokNot),
    ("<<=", .tokShiftLeftAssign), ("<<", .tokShiftLeft), ("<=", .tokLe), ("<", .tokLt),
    (">>>=", .tokUshiftRightAssign), (">>>", .tokUshiftRight),
    (">>=", .tokShiftRightAssign), (">>", .tokShiftRight), (">=", .tokGe), (">", .tokGt),
    ("&&=", .tokAndAndAssign), ("&&", .tokAndAnd), ("&=", .tokAndAssign),
    ("&", .tokBitAnd),
    ("||=", .tokOrOrAssign), ("||", .tokOrOr), ("|=", .tokOrAssign), ("|", .tokBitOr),
    ("^=", .tokXorAssign), ("^", .tokBitXor), ("/=", .tokDivAssign), ("/", .tokDiv)]

def standsAt (lex : Lexer) : Nat → List UInt8 → Option Bool
  | _, [] => some true
  | i, byte :: rest =>
    if i < lex.src.length then do
      let c ← lex.byte i
      if c = byte then standsAt lex (i + 1) rest else some false
    else
      some false

def findOperator (lex : Lexer) :
    List (String × LRTokType) → Option (Option (String × LRTokType))
  | [] => some none
  | operator :: rest => do
      if ← standsAt lex lex.pos (ascii operator.1) then
        some (some operator)
      else
        findOperator lex rest

/-- Call `lexer_advance` several times. -/
def advanceBy : Nat → Lexer → Option Lexer
  | 0, lex => some lex
  | n + 1, lex => do
      let lex ← lexer_advance lex
      advanceBy n lex

def lexOperator (lex : Lexer) : Option (Token × Lexer) := do
  match ← findOperator lex operators with
  | some (text, type) =>
    let start := lex.pos
    let lex ← advanceBy text.length lex
    some (make_token_from lex type start)
  | none =>
    let lex ← lexer_advance lex
    some (make_error lex "unexpected character", lex)

def atName (lex : Lexer) : Option Bool := do
  let c ← lexer_peek_char lex
  some (is_js_ident_continue c)

def lexPrivateName (lex : Lexer) : Option (Token × Lexer) := do
  let start := lex.pos
  let lex ← lexer_advance lex
  let lex ← advanceWhile atName lex
  some (make_token_from lex .tokPrivateName start)

def lexName (lex : Lexer) : Option (Token × Lexer) := do
  let start := lex.pos
  let lex ← lexer_advance lex
  let lex ← advanceWhile atName lex
  let name ← lex.slice start (lex.pos - start)
  let kw := lookup_keyword name
  let (t, lex) := make_token_from lex kw start
  if kw = .tokBoolLit then
    some ({ t with numVal := .ofInt (if name.head? = some (ch 't') then 1 else 0) }, lex)
  else
    some (t, lex)

def endOfFile (lex : Lexer) : Token :=
  { type := .tokEof, start := .source lex.src.length, len := 0, line := lex.line, col := lex.col }

def lexToken (lex : Lexer) : Option (Token × Lexer) := do
  let c ← lexer_peek_char lex
  if c = ch '#' then
    lexPrivateName lex
  else if is_js_ident_start c then
    lexName lex
  else if isDigit c then
    let (t, lex) ← lex_number lex
    some (t, { lex with allowRegexp := false })
  else if c = ch '"' ∨ c = ch '\'' then
    lex_string lex c
  else if c = ch '`' then
    lex_template { lex with allowRegexp := true }
  else if c = ch '/' ∧ lex.allowRegexp then
    lex_regexp lex
  else
    lexOperator lex

def lexer_next (lex : Lexer) : Option (Token × Lexer) :=
  match lex.peek with
  | some t => some (t, { lex with peek := none })
  | none => do
      let lex ← lexer_skip_whitespace lex
      if lex.AtEnd then some (endOfFile lex, lex) else lexToken lex

def lexer_peek (lex : Lexer) : Option (Token × Lexer) :=
  match lex.peek with
  | some t => some (t, lex)
  | none => do
      let (t, lex) ← lexer_next lex
      some (t, { lex with peek := some t })

def lexer_template_next (lex : Lexer) : Option (Token × Lexer) :=
  lex_template lex

/-- The tokens up to the end of file, each with the position behind it; `flags` sets `allow_regexp`
before each call of `lexer_next`. -/
def tokensFrom (flags : Nat → Bool) : Nat → Nat → Lexer → Option (List (Token × Nat))
  | 0, _, _ => none
  | fuel + 1, i, lex => do
      let (t, lex) ← lexer_next { lex with allowRegexp := flags i }
      if t.type = .tokEof then
        some [(t, lex.pos)]
      else
        let rest ← tokensFrom flags fuel (i + 1) lex
        some ((t, lex.pos) :: rest)

def tokens (src : List UInt8) (flags : Nat → Bool) : Option (List (Token × Nat)) :=
  tokensFrom flags (src.length + 1) 0 (lexer_init src)

end LRJS.Lexing
