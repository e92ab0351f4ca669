import LRJS.Lexer
import LRJS.Library.Lockstep

/-!
# Lexers in lockstep

Two lexers at one place of one source make the same tokens, whatever their
lines and columns are: the lines of the tokens stay as far apart as the lines
of the lexers.  The flags may be related in any way that a token keeps; the
regexp flag matters for a slash, the template flag for a backtick.
-/

namespace LRJS.Lexing

open Guarded

structure Token.Like (x y : Nat) (t u : Token) : Prop where
  type : u.type = t.type
  start : u.start = t.start
  len : u.len = t.len
  numVal : u.numVal = t.numVal
  bigintVal : u.bigintVal = t.bigintVal
  strVal : u.strVal = t.strVal
  line : t.line + x = u.line + y

structure Distance where
  x : Nat
  y : Nat
  allow : Bool → Bool → Prop
  template : Bool → Bool → Prop
  stable : ∀ type p q, allow p q → allow (regexpAfter type p) (regexpAfter type q)

structure Near (d : Distance) (a b : Lexer) : Prop where
  src : b.src = a.src
  pos : b.pos = a.pos
  line : a.line + d.x = b.line + d.y
  allow : d.allow a.allowRegexp b.allowRegexp
  template : d.template a.inTemplate b.inTemplate
  peek : Option.Rel (Token.Like d.x d.y) a.peek b.peek

def NearToken (d : Distance) (made made' : Token × Lexer) : Prop :=
  made.1.Like d.x d.y made'.1 ∧ Near d made.2 made'.2

namespace Near

variable {d : Distance} {a b : Lexer}

section

variable (near : Near d a b)
include near

theorem byte (i : Nat) : b.byte i = a.byte i := by
  rw [Lexer.byte, Lexer.byte, near.src]

theorem atEnd : b.AtEnd ↔ a.AtEnd := by
  rw [Lexer.AtEnd, Lexer.AtEnd, near.src, near.pos]

theorem slice (start len : Nat) : b.slice start len = a.slice start len := by
  induction len generalizing start with
  | zero => rfl
  | succ len ih =>
    rw [Lexer.slice, Lexer.slice, near.byte, ih]

theorem peek_char : lexer_peek_char b = lexer_peek_char a := by
  simp only [lexer_peek_char, near.atEnd, near.pos, near.byte]

theorem peek_char_next : lexer_peek_char_next b = lexer_peek_char_next a := by
  simp only [lexer_peek_char_next, near.src, near.pos, near.byte]

theorem move (pos line line' col col' : Nat) (lines : line + d.x = line' + d.y) :
    Near d { a with pos := pos, line := line, col := col }
      { b with pos := pos, line := line', col := col' } where
  src := near.src
  pos := rfl
  line := lines
  allow := near.allow
  template := near.template
  peek := near.peek

/-- Both lexers go on by one byte. -/
theorem advance : Lockstep (Near d) (lexer_advance a) (lexer_advance b) := by
  unfold lexer_advance
  simp only [near.atEnd, near.pos]
  split
  · exact lockstep_some near
  · apply lockstep_read (near.byte a.pos)
    intro c
    have lines : a.line + 1 + d.x = b.line + 1 + d.y := by
      have same := near.line
      omega
    split
    · exact lockstep_some (near.move _ _ _ _ _ lines)
    · split
      · have next := near.move (a.pos + 1) (a.line + 1) (b.line + 1) 1 1 lines
        apply lockstep_read next.peek_char
        intro c
        split
        · exact lockstep_some (near.move _ _ _ _ _ lines)
        · exact lockstep_some next
      · exact lockstep_some (near.move _ _ _ _ _ near.line)

end

theorem loop {States : Type} {States' : Type} {Result Result' : Type}
    {results : Result → Result' → Prop} {step : States → Option (States ⊕ Result)}
    {step' : States' → Option (States' ⊕ Result')}
    (states : States → States' → Prop) (near : Near d a b)
    (keeps : ∀ state state', states state state' →
      Lockstep (Sum.LiftRel states results) (step state) (step' state'))
    {start : States} {start' : States'} (holds : states start start') :
    Lockstep results (a.loop step start) (b.loop step' start') := by
  unfold Lexer.loop
  rw [near.src]
  exact lockstep_loop keeps _ holds

section

variable (near : Near d a b)
include near

theorem advanceWhile {condition : Lexer → Option Bool}
    (same : ∀ a b, Near d a b → condition b = condition a) :
    Lockstep (Near d) (advanceWhile condition a) (advanceWhile condition b) := by
  apply near.loop (Near d) _ near
  intro l m nearer
  apply lockstep_read (same l m nearer)
  intro goes
  cases goes with
  | true =>
    apply nearer.advance.bind
    intro l m nearer
    exact lockstep_some (.inl nearer)
  | false => exact lockstep_some (.inr nearer)

theorem atLine_eq : atLine b = atLine a := by
  simp only [atLine, near.atEnd, near.peek_char]

theorem skipLineComment : Lockstep (Near d) (skipLineComment a) (skipLineComment b) :=
  near.advanceWhile fun _ _ near => near.atLine_eq

theorem skipBlockComment : Lockstep (Near d) (skipBlockComment a) (skipBlockComment b) := by
  apply near.loop (Near d) _ near
  intro l m nearer
  simp only [nearer.atEnd]
  split
  · exact lockstep_some (.inr nearer)
  · apply lockstep_read nearer.peek_char
    intro c
    apply lockstep_read nearer.peek_char_next
    intro next
    apply nearer.advance.bind
    intro l m nearer
    split
    · apply nearer.advance.bind
      intro l m nearer
      exact lockstep_some (.inr nearer)
    · exact lockstep_some (.inl nearer)

/-- Both lexers skip the same blanks and comments. -/
theorem skip_whitespace :
    Lockstep (Near d) (lexer_skip_whitespace a) (lexer_skip_whitespace b) := by
  apply near.loop (Near d) _ near
  intro l m nearer
  apply lockstep_read nearer.peek_char
  intro c
  apply lockstep_read nearer.peek_char_next
  intro next
  split
  · exact lockstep_some (.inr nearer)
  · split
    · apply nearer.advance.bind
      intro l m nearer
      exact lockstep_some (.inl nearer)
    · split
      · apply nearer.skipLineComment.bind
        intro l m nearer
        exact lockstep_some (.inl nearer)
      · split
        · apply nearer.advance.bind
          intro l m nearer
          apply nearer.advance.bind
          intro l m nearer
          apply nearer.skipBlockComment.bind
          intro l m nearer
          exact lockstep_some (.inl nearer)
        · exact lockstep_some (.inr nearer)

theorem make_token_from (type : LRTokType) (start : Nat) :
    NearToken d (make_token_from a type start) (make_token_from b type start) := by
  constructor
  · constructor
    · rfl
    · rfl
    · exact congrArg (· - start) near.pos
    · rfl
    · rfl
    · rfl
    · exact near.line
  · exact ⟨near.src, near.pos, near.line, d.stable _ _ _ near.allow, near.template, near.peek⟩

theorem unterminated (start : Nat) (msg : String) (len : Nat) :
    NearToken d (unterminated a start msg len) (unterminated b start msg len) := by
  constructor
  · constructor
    · rfl
    · rfl
    · rfl
    · rfl
    · rfl
    · rfl
    · exact near.line
  · exact ⟨near.src, near.pos, near.line, d.stable .tokError _ _ near.allow, near.template,
    near.peek⟩

theorem atClass_eq (member : UInt8 → Bool) : atClass member b = atClass member a := by
  simp only [atClass, near.peek_char]

theorem atDigit_eq : atDigit b = atDigit a := by
  simp only [atDigit, near.peek_char, near.peek_char_next]

theorem lexRadix (member : UInt8 → Bool) :
    Lockstep (Near d) (lexRadix a member) (lexRadix b member) := by
  apply near.advance.bind
  intro l m nearer
  apply nearer.advance.bind
  intro l m nearer
  exact nearer.advanceWhile fun _ _ near => near.atClass_eq member

theorem lexFraction : Lockstep (Near d) (lexFraction a) (lexFraction b) := by
  apply lockstep_read near.peek_char
  intro c
  apply lockstep_read near.peek_char_next
  intro next
  split
  · apply near.advance.bind
    intro l m nearer
    exact nearer.advanceWhile fun _ _ near => near.atDigit_eq
  · exact lockstep_some near

theorem lexSign : Lockstep (Near d) (lexSign a) (lexSign b) := by
  apply lockstep_read near.peek_char
  intro c
  split
  · exact near.advance
  · exact lockstep_some near

theorem lexExponent : Lockstep (Near d) (lexExponent a) (lexExponent b) := by
  apply lockstep_read near.peek_char
  intro c
  split
  · apply near.advance.bind
    intro l m nearer
    apply nearer.lexSign.bind
    intro l m nearer
    exact nearer.advanceWhile fun _ _ near => near.atDigit_eq
  · exact lockstep_some near

end

def Form (d : Distance) (made made' : NumberForm × Lexer) : Prop :=
  made'.1 = made.1 ∧ Near d made.2 made'.2

theorem lexDecimal (near : Near d a b) : Lockstep (Form d) (lexDecimal a) (lexDecimal b) := by
  apply (near.advanceWhile fun _ _ near => near.atDigit_eq).bind
  intro l m nearer
  apply nearer.lexFraction.bind
  intro l m nearer
  apply nearer.lexExponent.bind
  intro l m nearer
  apply lockstep_read nearer.peek_char
  intro c
  split
  · apply nearer.advance.bind
    intro l m nearer
    exact lockstep_some ⟨rfl, nearer⟩
  · exact lockstep_some ⟨rfl, nearer⟩

theorem radixMark_eq (near : Near d a b) : radixMark b = radixMark a := by
  simp only [radixMark, near.peek_char, near.peek_char_next]

/-- Both lexers read the same digits and form of a number. -/
theorem lexNumberText (near : Near d a b) :
    Lockstep (Form d) (lexNumberText a) (lexNumberText b) := by
  have radix (member : UInt8 → Bool) (form : NumberForm) : Lockstep (Form d)
      ((Lexing.lexRadix a member).bind fun lex => some (form, lex))
      ((Lexing.lexRadix b member).bind fun lex => some (form, lex)) := by
    apply (near.lexRadix member).bind
    intro l m nearer
    exact lockstep_some ⟨rfl, nearer⟩
  apply lockstep_read near.radixMark_eq
  intro mark
  split
  · exact radix is_hex_char .hex
  · split
    · exact radix is_octal_char .octal
    · split
      · exact radix is_binary_char .binary
      · exact near.lexDecimal

theorem withNumber {x y : Nat} {t u : Token} (like : t.Like x y u) (form : NumberForm)
    (bytes : List UInt8) : (t.withNumber form bytes).Like x y (u.withNumber form bytes) := by
  cases form with
  | bigint => exact ⟨like.type, like.start, like.len, like.numVal, rfl, like.strVal, like.line⟩
  | _ => exact ⟨like.type, like.start, like.len, rfl, like.bigintVal, like.strVal, like.line⟩

theorem lex_number (near : Near d a b) : Lockstep (NearToken d) (lex_number a) (lex_number b) := by
  apply near.lexNumberText.bind
  intro made made' forms
  obtain ⟨form, l⟩ := made
  obtain ⟨form', m⟩ := made'
  obtain ⟨rfl, nearer⟩ := forms
  dsimp only at nearer ⊢
  rw [near.pos, nearer.pos]
  apply lockstep_read (nearer.slice _ _)
  intro bytes
  have token := nearer.make_token_from
    (if form' = .bigint then LRTokType.tokBigintLit else .tokNumber) a.pos
  exact lockstep_some ⟨withNumber token.1 form' bytes, token.2⟩

theorem unescape_eq (near : Near d a b) (start len : Nat) :
    unescape_string b start len = unescape_string a start len := by
  obtain ⟨src, pos, line, col, peek, allowed, inTemplate⟩ := a
  obtain ⟨src', pos', line', col', peek', allowed', inTemplate'⟩ := b
  obtain rfl : src' = src := near.src
  rfl

theorem skipEscaped (near : Near d a b) : Lockstep (Near d) (skipEscaped a) (skipEscaped b) := by
  apply near.advance.bind
  intro l m nearer
  apply lockstep_read nearer.peek_char
  intro c
  split
  · apply nearer.advance.bind
    intro l m nearer
    apply lockstep_read nearer.peek_char
    intro c
    split
    · exact nearer.advance
    · exact lockstep_some nearer
  · exact nearer.advance

theorem withText {made made' : Token × Lexer} (near : NearToken d made made') (text : List UInt8) :
    NearToken d ({ made.1 with strVal := some text }, made.2)
      ({ made'.1 with strVal := some text }, made'.2) := by
  obtain ⟨like, nearer⟩ := near
  exact ⟨⟨like.type, like.start, like.len, like.numVal, like.bigintVal, rfl, like.line⟩, nearer⟩

section

variable (near : Near d a b)
include near

/-- Both lexers read the same string. -/
theorem lex_string (quote : UInt8) :
    Lockstep (NearToken d) (lex_string a quote) (lex_string b quote) := by
  apply near.advance.bind
  intro l m first
  apply first.loop (Near d) _ first
  intro l' m' nearer
  simp only [nearer.atEnd, near.pos]
  split
  · exact lockstep_some (.inr (nearer.unterminated _ _ _))
  · apply lockstep_read nearer.peek_char
    intro c
    split
    · rw [first.pos, nearer.pos]
      apply lockstep_read (nearer.unescape_eq _ _)
      intro decoded
      apply nearer.advance.bind
      intro l m nearer
      exact lockstep_some (.inr (withText (nearer.make_token_from _ _) decoded))
    · split
      · apply nearer.skipEscaped.bind
        intro l m nearer
        exact lockstep_some (.inl nearer)
      · split
        · exact lockstep_some (.inr (nearer.unterminated _ _ _))
        · apply nearer.advance.bind
          intro l m nearer
          exact lockstep_some (.inl nearer)

theorem makeTemplate (type : LRTokType) (start bodyStart : Nat)
    {bodyEnd bodyEnd' : Nat} (same : bodyEnd' = bodyEnd) :
    Lockstep (NearToken d) (makeTemplate a type start bodyStart bodyEnd)
      (makeTemplate b type start bodyStart bodyEnd') := by
  subst same
  apply lockstep_read (near.slice _ _)
  intro text
  exact lockstep_some (withText (near.make_token_from _ _) text)

theorem openTemplate (same : d.template = Eq) :
    Lockstep (Near d) (openTemplate a) (openTemplate b) := by
  apply lockstep_read near.peek_char
  intro c
  have flag : b.inTemplate = a.inTemplate := by
    have template := near.template
    rw [same] at template
    exact template.symm
  rw [flag]
  split
  · apply near.advance.bind
    intro l m nearer
    exact lockstep_some ⟨nearer.src, nearer.pos, nearer.line, nearer.allow, by rw [same],
      nearer.peek⟩
  · exact lockstep_some near

/-- Both lexers read the same template. -/
theorem lex_template (same : d.template = Eq) :
    Lockstep (NearToken d) (lex_template a) (lex_template b) := by
  apply (near.openTemplate same).bind
  intro l m first
  apply first.loop (Near d) _ first
  intro l' m' nearer
  simp only [nearer.atEnd, near.pos, first.pos]
  split
  · exact lockstep_some (.inr (nearer.unterminated _ _ _))
  · apply lockstep_read nearer.peek_char
    intro c
    apply lockstep_read nearer.peek_char_next
    intro next
    split
    · apply nearer.advance.bind
      intro l m nearer
      have closed : Near d { l with inTemplate := false } { m with inTemplate := false } :=
        ⟨nearer.src, nearer.pos, nearer.line, nearer.allow, by rw [same], nearer.peek⟩
      apply (closed.makeTemplate _ _ _ (congrArg (· - 1) nearer.pos)).bind
      intro made made' tokens
      exact lockstep_some (.inr tokens)
    · split
      · apply nearer.advance.bind
        intro l m nearer
        apply nearer.advance.bind
        intro l m nearer
        apply (nearer.makeTemplate _ _ _ (congrArg (· - 2) nearer.pos)).bind
        intro made made' tokens
        exact lockstep_some (.inr tokens)
      · split
        · apply nearer.advance.bind
          intro l m nearer
          apply nearer.advance.bind
          intro l m nearer
          exact lockstep_some (.inl nearer)
        · apply nearer.advance.bind
          intro l m nearer
          exact lockstep_some (.inl nearer)

theorem atFlag_eq : atFlag b = atFlag a := by
  simp only [atFlag, near.atEnd, near.peek_char]

end

def Body (d : Distance) (state state' : Lexer × Bool) : Prop :=
  Near d state.1 state'.1 ∧ state'.2 = state.2

section

variable (near : Near d a b)
include near

/-- Both lexers read the same body of a regular expression. -/
theorem regexpBody : Lockstep (Body d) (regexpBody a) (regexpBody b) := by
  have started : Body d (a, false) (b, false) := ⟨near, rfl⟩
  apply near.loop (Body d) _ started
  intro state state' bodies
  obtain ⟨l, inClass⟩ := state
  obtain ⟨nearer, rfl⟩ := bodies
  simp only [nearer.atEnd]
  split
  · exact lockstep_some (.inr ⟨nearer, rfl⟩)
  · apply lockstep_read nearer.peek_char
    intro c
    split
    · apply nearer.advance.bind
      intro l m nearer
      apply nearer.advance.bind
      intro l m nearer
      exact lockstep_some (.inl ⟨nearer, rfl⟩)
    · split
      · apply nearer.advance.bind
        intro l m nearer
        exact lockstep_some (.inr ⟨nearer, rfl⟩)
      · split
        · exact lockstep_some (.inr ⟨nearer, rfl⟩)
        · apply nearer.advance.bind
          intro l m nearer
          exact lockstep_some (.inl ⟨nearer, rfl⟩)

theorem lex_regexp : Lockstep (NearToken d) (lex_regexp a) (lex_regexp b) := by
  apply near.advance.bind
  intro l m nearer
  apply nearer.regexpBody.bind
  intro state state' bodies
  obtain ⟨l, complete⟩ := state
  obtain ⟨nearer, rfl⟩ := bodies
  dsimp only at nearer ⊢
  rw [near.pos]
  split
  · apply (nearer.advanceWhile fun _ _ near => near.atFlag_eq).bind
    intro l m nearer
    exact lockstep_some (nearer.make_token_from _ _)
  · exact lockstep_some (nearer.unterminated _ _ _)

theorem atName_eq : atName b = atName a := by
  simp only [atName, near.peek_char]

theorem lexPrivateName : Lockstep (NearToken d) (lexPrivateName a) (lexPrivateName b) := by
  apply near.advance.bind
  intro l m nearer
  apply (nearer.advanceWhile fun _ _ near => near.atName_eq).bind
  intro l m nearer
  rw [near.pos]
  exact lockstep_some (nearer.make_token_from _ _)

theorem lexName : Lockstep (NearToken d) (lexName a) (lexName b) := by
  apply near.advance.bind
  intro l m nearer
  apply (nearer.advanceWhile fun _ _ near => near.atName_eq).bind
  intro l m nearer
  rw [near.pos, nearer.pos]
  apply lockstep_read (nearer.slice _ _)
  intro name
  have token := nearer.make_token_from (lookup_keyword name) a.pos
  dsimp only
  split
  · exact lockstep_some ⟨⟨token.1.type, token.1.start, token.1.len, rfl, token.1.bigintVal,
      token.1.strVal, token.1.line⟩, token.2⟩
  · exact lockstep_some token

theorem standsAt_eq (i : Nat) (bytes : List UInt8) : standsAt b i bytes = standsAt a i bytes := by
  induction bytes generalizing i with
  | nil => rfl
  | cons byte rest ih =>
    simp only [standsAt, near.src, near.byte, ih]

theorem findOperator_eq (list : List (String × LRTokType)) :
    findOperator b list = findOperator a list := by
  induction list with
  | nil => rfl
  | cons operator rest ih =>
    simp only [findOperator, near.pos, near.standsAt_eq, ih]

theorem advanceBy (n : Nat) : Lockstep (Near d) (advanceBy n a) (advanceBy n b) := by
  induction n generalizing a b with
  | zero => exact lockstep_some near
  | succ n ih =>
    apply near.advance.bind
    intro l m nearer
    exact ih nearer

theorem lexOperator : Lockstep (NearToken d) (lexOperator a) (lexOperator b) := by
  apply lockstep_read (near.findOperator_eq operators)
  intro found
  cases found with
  | some operator =>
    apply (near.advanceBy operator.1.length).bind
    intro l m nearer
    rw [near.pos]
    exact lockstep_some (nearer.make_token_from _ _)
  | none =>
    apply near.advance.bind
    intro l m nearer
    exact lockstep_some ⟨⟨rfl, rfl, rfl, rfl, rfl, rfl, nearer.line⟩, nearer⟩

end

theorem withRegexp {made made' : Token × Lexer} (near : NearToken d made made')
    (allowed : Bool) (related : d.allow allowed allowed) :
    NearToken d (made.1, { made.2 with allowRegexp := allowed })
      (made'.1, { made'.2 with allowRegexp := allowed }) :=
  ⟨near.1, near.2.src, near.2.pos, near.2.line, related, near.2.template, near.2.peek⟩

/-- Both lexers read the same token from places that are near. -/
theorem lexToken (near : Near d a b) (reflexive : ∀ p, d.allow p p)
    (backtick : lexer_peek_char a = some (ch '`') → d.template = Eq)
    (slash : lexer_peek_char a = some (ch '/') → d.allow = Eq) :
    Lockstep (NearToken d) (lexToken a) (lexToken b) := by
  unfold Lexing.lexToken
  rw [near.peek_char]
  cases here : lexer_peek_char a with
  | none => exact .none
  | some c =>
    simp only [Option.bind_eq_bind, Option.bind_some]
    split
    · exact near.lexPrivateName
    · split
      · exact near.lexName
      · split
        · apply near.lex_number.bind
          intro made made' tokens
          exact lockstep_some (withRegexp tokens false (reflexive false))
        · split
          · exact near.lex_string c
          · split
            · next same =>
                have open_ : Near d { a with allowRegexp := true }
                    { b with allowRegexp := true } :=
                  ⟨near.src, near.pos, near.line, reflexive true, near.template, near.peek⟩
                exact open_.lex_template (backtick (same ▸ here))
            · by_cases division : c = ch '/'
              · have flag : b.allowRegexp = a.allowRegexp := by
                  have allow := near.allow
                  rw [slash (division ▸ here)] at allow
                  exact allow.symm
                rw [flag]
                split
                · exact near.lex_regexp
                · exact near.lexOperator
              · simp only [division, false_and, if_false]
                exact near.lexOperator

/-- Both lexers hand out the same token. -/
theorem lexer_next (near : Near d a b) (allow : d.allow = Eq) (template : d.template = Eq) :
    Lockstep (NearToken d) (lexer_next a) (lexer_next b) := by
  unfold Lexing.lexer_next
  have peeks := near.peek
  cases first : a.peek with
  | none =>
    cases second : b.peek with
    | some u =>
      rw [first, second] at peeks
      cases peeks
    | none =>
      apply near.skip_whitespace.bind
      intro l m nearer
      simp only [nearer.atEnd]
      split
      · exact lockstep_some ⟨⟨rfl, congrArg TokenStart.source (congrArg List.length nearer.src),
          rfl, rfl, rfl, rfl, nearer.line⟩, nearer⟩
      · apply nearer.lexToken
        · intro p
          rw [allow]
        · exact fun _ => template
        · exact fun _ => allow
  | some t =>
    cases second : b.peek with
    | none =>
      rw [first, second] at peeks
      cases peeks
    | some u =>
      rw [first, second] at peeks
      cases peeks with
      | some like =>
        exact lockstep_some ⟨like, near.src, near.pos, near.line, near.allow,
          near.template, .none⟩

/-- Both lexers show the same next token. -/
theorem lexer_peek (near : Near d a b) (allow : d.allow = Eq) (template : d.template = Eq) :
    Lockstep (NearToken d) (lexer_peek a) (lexer_peek b) := by
  unfold Lexing.lexer_peek
  have peeks := near.peek
  cases first : a.peek with
  | none =>
    cases second : b.peek with
    | some u =>
      rw [first, second] at peeks
      cases peeks
    | none =>
      apply (near.lexer_next allow template).bind
      intro made made' tokens
      obtain ⟨like, nearer⟩ := tokens
      exact lockstep_some ⟨like, nearer.src, nearer.pos, nearer.line, nearer.allow,
        nearer.template, .some like⟩
  | some t =>
    cases second : b.peek with
    | none =>
      rw [first, second] at peeks
      cases peeks
    | some u =>
      rw [first, second] at peeks
      cases peeks with
      | some like => exact lockstep_some ⟨like, near⟩

end Near

end LRJS.Lexing
