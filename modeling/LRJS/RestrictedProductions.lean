import LRJS.Lexer

/-!
# Restricted productions

The places of `lr_parser.c` where a line break is to end a statement.  Other functions of the parser
are parameters on the tokens that are left; an error of the parser is `none`.
-/

namespace LRJS.RestrictedProductions

open Lexing (LRTokType)

/-- A token; `newline`: a line break, in a comment or not, is in front of it. -/
structure Token where
  type : LRTokType
  text : List UInt8
  newline : Bool

inductive ASTNode (E : Type) where
  | break (label : Option (List UInt8))
  | continue (label : Option (List UInt8))
  | return (arg : Option E)
  | throw (arg : E)
  | exprStmt (expr : E)

/-- `parse_expression`, `ast_unary` for a postfix operator, and what reads the rest of an expression
behind an operand. -/
structure Parser (E : Type) where
  parse_expression : List Token → Option (E × List Token)
  ast_unary : E → LRTokType → E
  parse_rest : E → List Token → Option (E × List Token)

variable {E : Type}

/-- No expression begins with `;` or goes on with it, and tokens are taken from the front. -/
structure Parser.Lawful (parser : Parser E) : Prop where
  no_semicolon : ∀ t rest, t.type = .tokSemicolon → parser.parse_expression (t :: rest) = none
  ends : ∀ left t rest, t.type = .tokSemicolon →
    parser.parse_rest left (t :: rest) = some (left, t :: rest)
  takes : ∀ left tokens e rest, parser.parse_rest left tokens = some (e, rest) → rest <:+ tokens

/-- `match_token(parser, TOK_SEMICOLON)`. -/
def match_semicolon : List Token → List Token
  | t :: rest => if t.type = .tokSemicolon then rest else t :: rest
  | [] => []

def is_expr_start (type : LRTokType) : Bool :=
  type ∈ ([.tokNumber, .tokBigintLit, .tokString, .tokIdentifier, .tokBoolLit, .tokNullLit,
    .tokUndefinedLit, .tokThis, .tokSuper, .tokLparen, .tokLbracket, .tokLbrace, .tokFunction,
    .tokClass, .tokNew, .tokTypeof, .tokDelete, .tokVoid, .tokPlus, .tokMinus, .tokNot, .tokBitNot,
    .tokInc, .tokDec, .tokAwait, .tokYield, .tokAsync, .tokTemplate, .tokTemplateEnd, .tokEllipsis,
    .tokImport, .tokRegexp, .tokPrivateName, .tokGet, .tokSet, .tokStatic, .tokOf, .tokFrom,
    .tokAs] : List LRTokType)

/-- The label of a jump and the tokens behind it. -/
def label : List Token → Option (List UInt8) × List Token
  | t :: rest => if t.type = .tokIdentifier then (some t.text, rest) else (none, t :: rest)
  | [] => (none, [])

/-- What stands in front of the line break: a keyword, or an operand. -/
inductive Before (E : Type) where
  | break
  | continue
  | return
  | throw
  | operand (left : E)

/-- The rest of a statement; an operand takes the update operators of `parse_call_expr`. -/
def parse_statement (parser : Parser E) (tokens : List Token) :
    Before E → Option (ASTNode E × List Token)
  | .break => some (.break (label tokens).1, match_semicolon (label tokens).2)
  | .continue => some (.continue (label tokens).1, match_semicolon (label tokens).2)
  | .return =>
    match tokens with
    | t :: _ =>
      if is_expr_start t.type then do
        let (arg, rest) ← parser.parse_expression tokens
        return (.return (some arg), match_semicolon rest)
      else
        some (.return none, match_semicolon tokens)
    | [] => some (.return none, [])
  | .throw => do
    let (arg, rest) ← parser.parse_expression tokens
    return (.throw arg, match_semicolon rest)
  | .operand left => do
    let (expr, rest) ←
      match tokens with
      | t :: rest =>
        if t.type = .tokInc ∨ t.type = .tokDec then
          parser.parse_rest (parser.ast_unary left t.type) rest
        else
          parser.parse_rest left tokens
      | [] => parser.parse_rest left []
    return (.exprStmt expr, match_semicolon rest)

/-- A line break in front of a token is parsed like a semicolon. -/
def Honours (parser : Parser E) (before : Before E) (t : Token) (rest : List Token) : Prop :=
  t.newline = true → ∀ semicolon : Token, semicolon.type = .tokSemicolon →
    parse_statement parser (t :: rest) before =
      parse_statement parser (semicolon :: t :: rest) before

/-- The token behind the line break cannot go on with the statement. -/
def Harmless (parser : Parser E) (t : Token) (rest : List Token) : Before E → Prop
  | .break | .continue => t.type ≠ .tokIdentifier
  | .return => is_expr_start t.type = false
  | .throw => parser.parse_expression (t :: rest) = none
  | .operand _ => False

variable {parser : Parser E} {t : Token} {rest : List Token}

/-- The statement that a semicolon ends. -/
def ended : Before E → Option (ASTNode E)
  | .break => some (.break none)
  | .continue => some (.continue none)
  | .return => some (.return none)
  | .throw => none
  | .operand left => some (.exprStmt left)

theorem parse_semicolon (lawful : parser.Lawful) {semicolon : Token} (before : Before E)
    (is : semicolon.type = .tokSemicolon) :
    parse_statement parser (semicolon :: rest) before = (ended before).map (·, rest) := by
  cases before with
  | «break» | «continue» => simp [parse_statement, label, match_semicolon, ended, is]
  | «return» => simp [parse_statement, is_expr_start, match_semicolon, ended, is]
  | throw => simp [parse_statement, lawful.no_semicolon _ _ is, ended]
  | operand left => simp [parse_statement, lawful.ends, match_semicolon, ended, is]

theorem match_semicolon_suffix (tokens : List Token) : match_semicolon tokens <:+ tokens := by
  unfold match_semicolon
  split
  · split
    · exact List.suffix_cons ..
    · exact List.suffix_rfl
  · exact List.suffix_rfl

/-- The statement ends before the token exactly if the token is harmless. -/
theorem parse_token_iff (lawful : parser.Lawful) (before : Before E)
    (other : t.type ≠ .tokSemicolon)
    (update : ∀ left, before = .operand left → t.type = .tokInc ∨ t.type = .tokDec) :
    parse_statement parser (t :: rest) before = (ended before).map (·, t :: rest) ↔
      Harmless parser t rest before := by
  cases before with
  | «break» | «continue» =>
    by_cases named : t.type = .tokIdentifier
    · simp [parse_statement, label, ended, Harmless, named]
    · simp [parse_statement, label, match_semicolon, ended, Harmless, named, other]
  | «return» =>
    cases starts : is_expr_start t.type with
    | true => cases read : parser.parse_expression (t :: rest) <;>
        simp [parse_statement, ended, Harmless, starts, read]
    | false => simp [parse_statement, match_semicolon, ended, Harmless, starts, other]
  | throw =>
    cases read : parser.parse_expression (t :: rest) <;>
      simp [parse_statement, ended, Harmless, read]
  | operand left =>
    refine iff_of_false (fun same => ?_) id
    simp only [parse_statement, if_pos (update left rfl), ended, Option.bind_eq_bind,
      Option.bind_eq_some_iff, Option.map_some] at same
    obtain ⟨⟨expr, left_over⟩, read, same⟩ := same
    have shorter := ((match_semicolon_suffix left_over).trans (lawful.takes _ _ _ _ read)).length_le
    rw [(Prod.mk.inj (Option.some.inj same)).2, List.length_cons] at shorter
    omega

/-- The parser does not look at line breaks. -/
theorem restricted_iff (lawful : parser.Lawful) (before : Before E)
    (other : t.type ≠ .tokSemicolon)
    (update : ∀ left, before = .operand left → t.type = .tokInc ∨ t.type = .tokDec) :
    Honours parser before t rest ↔ (t.newline = true → Harmless parser t rest before) := by
  refine imp_congr_right fun _ => ?_
  rw [← parse_token_iff lawful before other update]
  constructor
  · intro honours
    exact (honours ⟨.tokSemicolon, [], false⟩ rfl).trans (parse_semicolon lawful before rfl)
  · intro same semicolon is
    rw [same, parse_semicolon lawful before is]

/-- Expressions are identifiers. -/
def identifiers : Parser Nat where
  parse_expression
    | t :: rest => if t.type = .tokIdentifier then some (0, rest) else none
    | [] => none
  ast_unary left _ := left + 1
  parse_rest left tokens := some (left, tokens)

theorem identifiers_lawful : identifiers.Lawful where
  no_semicolon t rest is := by simp [identifiers, is]
  ends _ _ _ _ := rfl
  takes left tokens e rest same := by
    cases same
    exact List.suffix_rfl

theorem restricted_return_brace :
    Honours identifiers .return ⟨.tokRbrace, [], true⟩ [] ↔
      (true = true → Harmless identifiers ⟨.tokRbrace, [], true⟩ [] .return) :=
  restricted_iff identifiers_lawful .return (by decide) nofun

/-- A return, a line break and an expression. -/
theorem return_takes_next_line : ¬ Honours identifiers .return ⟨.tokIdentifier, [120], true⟩ [] :=
  fun honours => nomatch honours rfl ⟨.tokSemicolon, [], false⟩ rfl

end LRJS.RestrictedProductions
