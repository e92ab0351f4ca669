import LRJS.LexerTiling
import LRJS.LexerLockstep

/-!
# Lookahead of the parser

What the parser does to the lexer: where it cannot decide it remembers a place, reads on, and goes
back.  The rest of the parser is a function of the tokens it has seen.

Most places remember a position and drop the token that is peeked; the line, the column and the
flags stay as they are then.  Object accessors and class modifiers restore the whole state.
-/

namespace LRJS.Lexing

open Guarded

def Token.seen (t : Token) : Token :=
  { t with col := 0 }

structure Reading where
  lexer : Lexer
  marks : List Nat
  saved : List Lexer
deriving DecidableEq, Repr

inductive Reader (α : Type) where
  | done (result : α)
  /-- `lexer_next`. -/
  | next (rest : Token → Reader α)
  /-- `lexer_peek`. -/
  | peek (rest : Token → Reader α)
  /-- `lexer_template_next`. -/
  | templateNext (rest : Token → Reader α)
  /-- `parser->lexer->pos`. -/
  | position (rest : Nat → Reader α)
  /-- `save_pos = (size_t)(t.start - parser->lexer->src)` for the token that is peeked. -/
  | markToken (rest : Reader α)
  /-- `save_pos = parser->lexer->pos`. -/
  | markPosition (rest : Reader α)
  /-- `parser->lexer->pos = save_pos; lexer_reset_peek(parser->lexer)`. -/
  | rewind (rest : Reader α)
  /-- The end of the scope of `save_pos`. -/
  | forget (rest : Reader α)
  /-- `st = lex_state_save(parser->lexer)`. -/
  | save (rest : Reader α)
  /-- `lex_state_restore(parser->lexer, st)`. -/
  | restore (rest : Reader α)
  /-- The end of the scope of `st`. -/
  | discard (rest : Reader α)

def Lexer.rewind (lex : Lexer) (pos : Nat) : Lexer :=
  { lex with pos := pos, peek := none }

def Token.offset (t : Token) : Option Nat :=
  match t.start with
  | .source offset => if t.type = .tokError then none else some offset
  | .message _ => none

def Lexer.templateNext (lex : Lexer) : Option (Token × Lexer) :=
  if lex.peek.isNone then lexer_template_next lex else none

def Reader.run {α : Type} : Reader α → Reading → Option (α × Reading)
  | .done result, s => some (result, s)
  | .next rest, s => do
      let (t, lexer) ← lexer_next s.lexer
      (rest t.seen).run { s with lexer }
  | .peek rest, s => do
      let (t, lexer) ← lexer_peek s.lexer
      (rest t.seen).run { s with lexer }
  | .templateNext rest, s => do
      let (t, lexer) ← s.lexer.templateNext
      (rest t.seen).run { s with lexer }
  | .position rest, s => (rest s.lexer.pos).run s
  | .markToken rest, s => do
      let t ← s.lexer.peek
      let offset ← t.offset
      rest.run { s with marks := offset :: s.marks }
  | .markPosition rest, s => rest.run { s with marks := s.lexer.pos :: s.marks }
  | .rewind rest, s =>
    match s.marks with
    | pos :: marks => rest.run { s with lexer := s.lexer.rewind pos, marks }
    | [] => none
  | .forget rest, s => rest.run { s with marks := s.marks.tail }
  | .save rest, s => rest.run { s with saved := s.lexer :: s.saved }
  | .restore rest, s =>
    match s.saved with
    | lexer :: saved => rest.run { s with lexer, saved }
    | [] => none
  | .discard rest, s => rest.run { s with saved := s.saved.tail }

def Reachable (src : List UInt8) (s : Reading) : Prop :=
  ∃ (reader : Reader Unit), reader.run ⟨lexer_init src, [], []⟩ = some ((), s)

/-- Whatever the parser does next, beginning with a look at the next token, has the same
result at both points. -/
def SameReadings (s s' : Reading) : Prop :=
  ∀ (α : Type) (rest : Token → Reader α),
    ((Reader.peek rest).run s).map Prod.fst = ((Reader.peek rest).run s').map Prod.fst

inductive Site where
  | asyncStatement | importStatement | label | asyncArrow
  | exportDefaultAsync | exportAsync
  | accessor | staticModifier | asyncModifier | accessorModifier
deriving DecidableEq, Repr

inductive Memory where
  | token | position | state
deriving DecidableEq, Repr

namespace Site

def begins : Site → LRTokType → Bool
  | .asyncStatement, type | .exportDefaultAsync, type | .exportAsync, type
  | .asyncModifier, type => type = .tokAsync
  | .importStatement, type => type = .tokImport
  | .label, type | .asyncArrow, type => type = .tokIdentifier
  | .staticModifier, type => type = .tokStatic
  | .accessor, type | .accessorModifier, type => type = .tokGet ∨ type = .tokSet

def goesOn : Site → LRTokType → Bool
  | .asyncStatement, type | .exportDefaultAsync, type | .exportAsync, type =>
    type = .tokFunction
  | .label, type => type = .tokColon
  | .asyncArrow, type => type = .tokArrow
  | .importStatement, _ | .accessor, _ => false
  | .staticModifier, type | .asyncModifier, type | .accessorModifier, type =>
    ¬(type = .tokLparen ∨ type = .tokAssign ∨ type = .tokSemicolon)

def memory : Site → Memory
  | .asyncStatement | .importStatement | .label | .asyncArrow => .token
  | .exportDefaultAsync | .exportAsync => .position
  | .accessor | .staticModifier | .asyncModifier | .accessorModifier => .state

def behind (site : Site) (goes back : Reader Bool) : Reader Bool :=
  .next fun _ => .peek fun t => if site.goesOn t.type then goes else back

def look (site : Site) : Reader Bool :=
  match site.memory with
  | .token => .markToken (site.behind (.forget (.done false)) (.rewind (.done true)))
  | .position => .markPosition (site.behind (.forget (.done false)) (.rewind (.done true)))
  | .state => .save (site.behind (.discard (.done false)) (.restore (.done true)))

end Site

/-- Behind `async`, at a parenthesis: parse what follows, and go back unless it is an arrow
function. -/
def lookArrow (parse : Reader Bool) (s : Reading) : Option (Bool × Reading) := do
  let t ← s.lexer.peek
  let offset ← t.offset
  let (isArrow, tried) ← parse.run { s with marks := [], saved := [] }
  if isArrow then
    some (false, { s with lexer := tried.lexer })
  else
    some (true, { s with lexer := tried.lexer.rewind offset })

/-- The token behind the peeked one ends on the line on which that one starts, and is no template,
unless one without parts outside of all templates. -/
def QuietBehind (lex : Lexer) : Prop :=
  ∀ t start gap n behind, lex.peek = some t → t.offset = some start →
    lexer_skip_whitespace { lex with peek := none } = some gap →
    lexer_next { lex with peek := none } = some (n, behind) →
    terminators lex.src behind.pos = terminators lex.src start ∧
      (lexer_peek_char gap = some (ch '`') → lex.inTemplate = false ∧ n.type = .tokTemplateEnd)

def Site.Quiet (site : Site) (lex : Lexer) : Prop :=
  match site.memory with
  | .token => QuietBehind lex
  | .position => False
  | .state => True

def Passes (lex lex' : Lexer) : Prop :=
  terminators lex.src lex'.pos = terminators lex.src lex.pos

def Reader.Calm {α : Type} : Reader α → Reading → Prop
  | .done _, _ => True
  | .next rest, s => ∀ t lexer, lexer_next s.lexer = some (t, lexer) →
      Passes s.lexer lexer ∧ (rest t.seen).Calm { s with lexer }
  | .peek rest, s => ∀ t lexer, lexer_peek s.lexer = some (t, lexer) →
      Passes s.lexer lexer ∧ (rest t.seen).Calm { s with lexer }
  | .templateNext rest, s => ∀ t lexer, s.lexer.templateNext = some (t, lexer) →
      Passes s.lexer lexer ∧ (rest t.seen).Calm { s with lexer }
  | .position rest, s => (rest s.lexer.pos).Calm s
  | .markToken rest, s => ∀ t offset, s.lexer.peek = some t → t.offset = some offset →
      rest.Calm { s with marks := offset :: s.marks }
  | .markPosition rest, s => rest.Calm { s with marks := s.lexer.pos :: s.marks }
  | .rewind rest, s => ∀ pos marks, s.marks = pos :: marks →
      rest.Calm { s with lexer := s.lexer.rewind pos, marks }
  | .forget rest, s => rest.Calm { s with marks := s.marks.tail }
  | .save rest, s => rest.Calm { s with saved := s.lexer :: s.saved }
  | .restore rest, s => ∀ lexer saved, s.saved = lexer :: saved →
      rest.Calm { s with lexer, saved }
  | .discard rest, s => rest.Calm { s with saved := s.saved.tail }

/-- The parse behind `async` passes no line terminator, and leaves the template flag as it
was. -/
def QuietArrow (parse : Reader Bool) (s : Reading) : Prop :=
  parse.Calm { s with marks := [], saved := [] } ∧
    ∀ isArrow tried, parse.run { s with marks := [], saved := [] } = some (isArrow, tried) →
      tried.lexer.inTemplate = s.lexer.inTemplate

end LRJS.Lexing
