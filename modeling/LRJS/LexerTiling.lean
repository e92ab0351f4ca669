import LRJS.Lexer

/-!
# The tokens tile the source

The calls of the lexer split a source into tokens, blanks and comments, without
a read past its end, and come to the end of file.  A token has the line and
column of the place behind it.
-/

namespace LRJS.Lexing

open Guarded List Option

section Text

variable (src : List UInt8)

def Inside (p : Nat) : Prop :=
  0 < p ∧ src[p - 1]? = some (ch '\r') ∧ src[p]? = some (ch '\n')

instance (p : Nat) : Decidable (Inside src p) :=
  inferInstanceAs (Decidable (_ ∧ _))

def BeginsTerminator (p : Nat) : Prop :=
  src[p]? = some (ch '\r') ∨ (src[p]? = some (ch '\n') ∧ ¬Inside src p)

instance (p : Nat) : Decidable (BeginsTerminator src p) :=
  inferInstanceAs (Decidable (_ ∨ _))

def terminators : Nat → Nat
  | 0 => 0
  | p + 1 => terminators p + if BeginsTerminator src p then 1 else 0

inductive LineComment : Nat → Nat → Prop where
  | endOfFile : LineComment src.length src.length
  | endOfLine {p c} : src[p]? = some c → is_line_terminator c = true → LineComment p p
  | byte {p q c} : src[p]? = some c → is_line_terminator c = false →
      LineComment (p + 1) q → LineComment p q

inductive BlockComment : Nat → Nat → Prop where
  | endOfFile : BlockComment src.length src.length
  | close {p} : src[p]? = some (ch '*') → src[p + 1]? = some (ch '/') → BlockComment p (p + 2)
  | byte {p q c} : src[p]? = some c → ¬(c = ch '*' ∧ src[p + 1]? = some (ch '/')) →
      BlockComment (p + 1) q → BlockComment p q

inductive Gap : Nat → Nat → Prop where
  | empty {p} : Gap p p
  | blank {p q c} : src[p]? = some c → isBlank c = true → Gap (p + 1) q → Gap p q
  | line {p q r} : src[p]? = some (ch '/') → src[p + 1]? = some (ch '/') →
      LineComment src (p + 2) q → Gap q r → Gap p r
  | block {p q r} : src[p]? = some (ch '/') → src[p + 1]? = some (ch '*') →
      BlockComment src (p + 2) q → Gap q r → Gap p r

end Text

/-- The tokens tile the source from a place on.  The line of a token from `s` to `e` is counted at
`place s e`. -/
inductive Tiles (src : List UInt8) (place : Nat → Nat → Nat) :
    Nat → List (Token × Nat) → Prop where
  | endOfFile {p : Nat} {t : Token} : Gap src p src.length → t.type = .tokEof →
      t.start = .source src.length → t.len = 0 → t.line = 1 + terminators src src.length →
      Tiles src place p [(t, src.length)]
  | token {p s e : Nat} {t : Token} {rest : List (Token × Nat)} : Gap src p s → s < e →
      e ≤ src.length → t.type ≠ .tokEof →
      (t.type ≠ .tokError → t.start = .source s ∧ t.len = e - s) →
      t.line = 1 + terminators src (place s e) → Tiles src place e rest →
      Tiles src place p ((t, e) :: rest)

/-! ## Moving -/

structure Lexer.Tracks (lex : Lexer) : Prop where
  bound : lex.pos ≤ lex.src.length
  whole : ¬Inside lex.src lex.pos
  line : lex.line = 1 + terminators lex.src lex.pos

structure Moves (lex lex' : Lexer) : Prop where
  src : lex'.src = lex.src
  peek : lex'.peek = lex.peek
  le : lex.pos ≤ lex'.pos
  tracks : lex'.Tracks

def Advances (lex lex' : Lexer) : Prop :=
  Moves lex lex' ∧ lex.pos < lex'.pos

theorem Moves.refl {lex : Lexer} (tracks : lex.Tracks) : Moves lex lex :=
  ⟨rfl, rfl, Nat.le_refl _, tracks⟩

theorem Moves.trans {a b c : Lexer} (first : Moves a b) (second : Moves b c) : Moves a c :=
  ⟨second.src.trans first.src, second.peek.trans first.peek, first.le.trans second.le,
    second.tracks⟩

theorem Advances.moves {a b c : Lexer} (first : Advances a b) (second : Moves b c) : Advances a c :=
  ⟨first.1.trans second, Nat.lt_of_lt_of_le first.2 second.le⟩

theorem Moves.advances {a b c : Lexer} (first : Moves a b) (second : Advances b c) : Advances a c :=
  ⟨first.trans second.1, Nat.lt_of_le_of_lt first.le second.2⟩

theorem Moves.flags {lex lex' : Lexer} (moves : Moves lex lex') (allowed inTemplate : Bool) :
    Moves lex { lex' with allowRegexp := allowed, inTemplate := inTemplate } :=
  ⟨moves.src, moves.peek, moves.le, moves.tracks.bound, moves.tracks.whole, moves.tracks.line⟩

section Reading

variable {lex : Lexer}

theorem yields_byte {i : Nat} (inside : i < lex.src.length) :
    Yields (lex.byte i) fun c => lex.src[i]? = some c := by
  refine ⟨lex.src[i], ?_, ?_⟩
  · exact getElem?_eq_getElem inside
  · exact getElem?_eq_getElem inside

theorem yields_slice {start len : Nat} (inside : start + len ≤ lex.src.length) :
    Yields (lex.slice start len) fun _ => True := by
  induction len generalizing start with
  | zero => exact yields_some trivial
  | succ len ih =>
    apply (yields_byte (by omega)).bind
    intro byte _
    apply (ih (by omega)).bind
    intro bytes _
    exact yields_some trivial

theorem yields_peek_char (lex : Lexer) : Yields (lexer_peek_char lex) fun c =>
    (lex.AtEnd ∧ c = 0) ∨ (¬lex.AtEnd ∧ lex.src[lex.pos]? = some c) := by
  unfold lexer_peek_char
  split
  · next atEnd => exact yields_some (.inl ⟨atEnd, rfl⟩)
  · next inside =>
      apply (yields_byte (Nat.lt_of_not_le inside)).mono
      intro c here
      exact .inr ⟨inside, here⟩

theorem yields_peek_inside (inside : ¬lex.AtEnd) :
    Yields (lexer_peek_char lex) fun c => lex.src[lex.pos]? = some c := by
  apply (yields_peek_char lex).mono
  rintro c (⟨atEnd, -⟩ | ⟨-, here⟩)
  · exact absurd atEnd inside
  · exact here

theorem yields_peek_char_next (lex : Lexer) : Yields (lexer_peek_char_next lex) fun c =>
    (lex.src.length ≤ lex.pos + 1 ∧ c = 0) ∨ lex.src[lex.pos + 1]? = some c := by
  unfold lexer_peek_char_next
  split
  · next atEnd => exact yields_some (.inl ⟨atEnd, rfl⟩)
  · next inside => exact (yields_byte (Nat.lt_of_not_le inside)).mono fun c here => .inr here

end Reading

/-! ## Advancing -/

section Advance

variable {lex : Lexer}

theorem terminators_succ {src : List UInt8} {p : Nat} {c : UInt8} (here : src[p]? = some c)
    (whole : ¬Inside src p) :
    terminators src (p + 1) = terminators src p + if is_line_terminator c then 1 else 0 := by
  rw [terminators]
  congr 1
  apply if_congr _ rfl rfl
  simp [BeginsTerminator, here, whole, is_line_terminator, or_comm]

theorem terminators_inside {src : List UInt8} {p : Nat} (inside : Inside src p) :
    terminators src (p + 1) = terminators src p := by
  have other : ch '\n' ≠ ch '\r' := by decide
  rw [terminators, if_neg, Nat.add_zero]
  simp [BeginsTerminator, inside, inside.2.2, other]

/-- What one call of `lexer_advance` does inside the source. -/
structure Steps (lex lex' : Lexer) : Prop where
  advances : Advances lex lex'
  width : lex'.pos = lex.pos + 1 ∨
    lex.src[lex.pos]? = some (ch '\r') ∧ lex.src[lex.pos + 1]? = some (ch '\n') ∧
      lex'.pos = lex.pos + 2

/-- A step forward goes on by one byte and counts it. -/
theorem yields_advance (tracks : lex.Tracks) (inside : ¬lex.AtEnd) :
    Yields (lexer_advance lex) (Steps lex) := by
  have bound : lex.pos < lex.src.length := Nat.lt_of_not_le inside
  unfold lexer_advance
  rw [if_neg inside]
  apply (yields_byte bound).bind
  intro c here
  have count := terminators_succ here tracks.whole
  have line := tracks.line
  split
  · next newline =>
      have whole : ¬Inside lex.src (lex.pos + 1) := by
        rintro ⟨-, before, -⟩
        rw [Nat.add_sub_cancel, here, newline] at before
        exact absurd before (by decide)
      rw [newline] at count
      refine yields_some ⟨⟨⟨rfl, rfl, Nat.le_succ _, bound, whole, ?_⟩, Nat.lt_succ_self _⟩,
        .inl rfl⟩
      simpa [is_line_terminator, line, Nat.add_assoc] using count.symm
  · next other =>
      split
      · next isReturn =>
          rw [isReturn] at count here
          apply (yields_peek_char _).bind
          intro next found
          split
          · next newline =>
              have following : lex.src[lex.pos + 1]? = some (ch '\n') := by
                rcases found with ⟨-, zero⟩ | ⟨-, found⟩
                · rw [newline] at zero
                  exact absurd zero (by decide)
                · rw [← newline]
                  exact found
              have within : Inside lex.src (lex.pos + 1) :=
                ⟨Nat.succ_pos _, by rwa [Nat.add_sub_cancel], following⟩
              have more : lex.pos + 1 < lex.src.length := (List.getElem?_eq_some_iff.mp following).1
              have whole : ¬Inside lex.src (lex.pos + 1 + 1) := by
                rintro ⟨-, before, -⟩
                rw [Nat.add_sub_cancel, following] at before
                exact absurd before (by decide)
              refine yields_some ⟨⟨⟨rfl, rfl, Nat.le_succ_of_le (Nat.le_succ _), more, whole, ?_⟩,
                Nat.lt_succ_of_lt (Nat.lt_succ_self _)⟩, .inr ⟨here, following, rfl⟩⟩
              rw [terminators_inside within, count, line, if_pos (by decide), Nat.add_assoc]
          · next alone =>
              have whole : ¬Inside lex.src (lex.pos + 1) := by
                rintro ⟨-, -, after⟩
                rcases found with ⟨atEnd, -⟩ | ⟨-, found⟩
                · have past : lex.src.length ≤ lex.pos + 1 := atEnd
                  rw [getElem?_eq_none past] at after
                  cases after
                · exact alone (some.inj (found.symm.trans after))
              refine yields_some ⟨⟨⟨rfl, rfl, Nat.le_succ _, bound, whole, ?_⟩,
                Nat.lt_succ_self _⟩, .inl rfl⟩
              simpa [is_line_terminator, line, Nat.add_assoc] using count.symm
      · next otherwise =>
          have whole : ¬Inside lex.src (lex.pos + 1) := by
            rintro ⟨-, before, -⟩
            rw [Nat.add_sub_cancel, here, some.injEq] at before
            exact otherwise before
          refine yields_some ⟨⟨⟨rfl, rfl, Nat.le_succ _, bound, whole, ?_⟩, Nat.lt_succ_self _⟩,
            .inl rfl⟩
          simpa [is_line_terminator, other, otherwise, line] using count.symm

theorem yields_advance_moves (tracks : lex.Tracks) : Yields (lexer_advance lex) (Moves lex) := by
  by_cases atEnd : lex.AtEnd
  · unfold lexer_advance
    rw [if_pos atEnd]
    exact yields_some (.refl tracks)
  · exact (yields_advance tracks atEnd).mono fun _ steps => steps.advances.1

theorem Steps.one {lex' : Lexer} (steps : Steps lex lex') {c : UInt8}
    (here : lex.src[lex.pos]? = some c) (other : c ≠ ch '\r') : lex'.pos = lex.pos + 1 := by
  rcases steps.width with one | ⟨carriage, -, -⟩
  · exact one
  · rw [here, some.injEq] at carriage
    exact absurd carriage other

end Advance

/-! ## Loops -/

section Loops

variable {lex : Lexer}

def Lexer.left (lex : Lexer) : Nat :=
  lex.src.length - lex.pos

theorem left_lt {a b : Lexer} (advances : Advances a b) : b.left < a.left := by
  have bound := advances.1.tracks.bound
  have less := advances.2
  rw [Lexer.left, Lexer.left, advances.1.src] at *
  omega

theorem left_enough (lex : Lexer) : lex.left < lex.src.length + 1 :=
  Nat.lt_succ_of_le (Nat.sub_le _ _)

theorem yields_advanceWhile {condition : Lexer → Option Bool}
    (reads : ∀ l : Lexer, Yields (condition l) fun b => b = true → ¬l.AtEnd)
    (tracks : lex.Tracks) : Yields (advanceWhile condition lex) (Moves lex) := by
  apply yields_loop (Moves lex) Lexer.left _ (.refl tracks)
    (left_enough lex)
  intro l moves
  apply (reads l).bind
  intro b inside
  cases b with
  | true =>
    apply (yields_advance moves.tracks (inside rfl)).bind
    intro l' steps
    exact yields_some ⟨moves.trans steps.advances.1, left_lt steps.advances⟩
  | false => exact yields_some moves

theorem yields_turn {invariant : Lexer → Prop} {Result : Type} {post : Result → Prop}
    (tracks : lex.Tracks) (inside : ¬lex.AtEnd) (kept : ∀ l, Steps lex l → invariant l) :
    Yields ((lexer_advance lex).bind fun l => some (Sum.inl l))
      (Keeps invariant Lexer.left post lex.left) := by
  apply (yields_advance tracks inside).bind
  intro l steps
  exact yields_some ⟨kept l steps, left_lt steps.advances⟩

end Loops

/-! ## Gaps -/

section Gaps

variable {lex : Lexer}

theorem not_atEnd {i : Nat} {c : UInt8} (here : lex.src[i]? = some c) (le : lex.pos ≤ i) :
    ¬lex.AtEnd := by
  intro atEnd
  have past : lex.src.length ≤ i := Nat.le_trans atEnd le
  rw [getElem?_eq_none past] at here
  cases here

theorem yields_atLine (lex : Lexer) : Yields (atLine lex) fun
    | true => ∃ c, lex.src[lex.pos]? = some c ∧ is_line_terminator c = false
    | false => lex.AtEnd ∨ ∃ c, lex.src[lex.pos]? = some c ∧ is_line_terminator c = true := by
  unfold atLine
  split
  · next atEnd => exact yields_some (.inl atEnd)
  · next inside =>
      apply (yields_peek_inside inside).bind
      intro c here
      cases ends : is_line_terminator c with
      | true => exact yields_some (.inr ⟨c, here, ends⟩)
      | false => exact yields_some ⟨c, here, ends⟩

theorem Moves.pos_eq {l : Lexer} (moves : Moves lex l) (atEnd : l.AtEnd) :
    l.pos = lex.src.length := by
  rw [← moves.src]
  exact Nat.le_antisymm moves.tracks.bound atEnd

/-- A skipped line comment is a comment of the source. -/
theorem yields_skipLineComment (tracks : lex.Tracks) :
    Yields (skipLineComment lex) fun l =>
      Moves lex l ∧ LineComment lex.src lex.pos l.pos := by
  apply yields_loop
    (fun l => Moves lex l ∧ ∀ q, LineComment lex.src l.pos q → LineComment lex.src lex.pos q)
    Lexer.left _ ⟨.refl tracks, fun _ comment => comment⟩ (left_enough lex)
  rintro l ⟨moves, joins⟩
  apply (yields_atLine l).bind
  intro b found
  cases b with
  | true =>
    obtain ⟨c, here, ends⟩ := found
    apply yields_turn moves.tracks (not_atEnd here (Nat.le_refl _))
    intro l' steps
    have other : c ≠ ch '\r' := by
      rintro rfl
      exact absurd ends (by decide)
    refine ⟨moves.trans steps.advances.1, fun q comment => joins q ?_⟩
    rw [steps.one here other] at comment
    exact .byte (moves.src ▸ here) ends comment
  | false =>
    refine yields_some ⟨moves, joins _ ?_⟩
    rcases found with atEnd | ⟨c, here, ends⟩
    · rw [moves.pos_eq atEnd]
      exact .endOfFile
    · exact .endOfLine (moves.src ▸ here) ends

theorem LineComment.le {src : List UInt8} {p q : Nat} (comment : LineComment src p q) : p ≤ q := by
  induction comment with
  | endOfFile | endOfLine => exact Nat.le_refl _
  | byte _ _ _ ih => exact Nat.le_of_succ_le ih

theorem LineComment.drop {src : List UInt8} {p q : Nat} {c : UInt8}
    (comment : LineComment src p q) (here : src[p]? = some c)
    (goesOn : is_line_terminator c = false) : LineComment src (p + 1) q := by
  cases comment with
  | endOfFile => simp at here
  | endOfLine here' ends =>
    rw [here, some.injEq] at here'
    rw [← here', goesOn] at ends
    cases ends
  | byte _ _ rest => exact rest

/-- A skipped comment is a comment of the source. -/
theorem yields_skipBlockComment (tracks : lex.Tracks) :
    Yields (skipBlockComment lex) fun l =>
      Moves lex l ∧ BlockComment lex.src lex.pos l.pos := by
  apply yields_loop
    (fun l => Moves lex l ∧ ∀ q, BlockComment lex.src l.pos q → BlockComment lex.src lex.pos q)
    Lexer.left _ ⟨.refl tracks, fun _ comment => comment⟩ (left_enough lex)
  rintro l ⟨moves, joins⟩
  by_cases atEnd : l.AtEnd
  · rw [if_pos atEnd]
    refine yields_some ⟨moves, joins _ ?_⟩
    rw [moves.pos_eq atEnd]
    exact .endOfFile
  · rw [if_neg atEnd]
    apply (yields_peek_inside atEnd).bind
    intro c here
    apply (yields_peek_char_next l).bind
    intro next found
    have here' : lex.src[l.pos]? = some c := moves.src ▸ here
    apply (yields_advance moves.tracks atEnd).bind
    intro l₁ first
    have moved := moves.trans first.advances.1
    split
    · next closes =>
        obtain ⟨rfl, rfl⟩ := closes
        have after : lex.src[l.pos + 1]? = some (ch '/') := by
          rcases found with ⟨-, zero⟩ | found
          · exact absurd zero (by decide)
          · exact moves.src ▸ found
        have one := first.one here (by decide)
        have after' : l₁.src[l₁.pos]? = some (ch '/') := by
          rw [moved.src, one]
          exact after
        apply (yields_advance moved.tracks (not_atEnd after' (Nat.le_refl _))).bind
        intro l₂ second
        refine yields_some ⟨moved.trans second.advances.1, joins _ ?_⟩
        rw [second.one after' (by decide), one]
        exact .close here' after
    · next goesOn =>
        have opens : ¬(c = ch '*' ∧ lex.src[l.pos + 1]? = some (ch '/')) := by
          rintro ⟨star, after⟩
          rcases found with ⟨past, -⟩ | found
          · rw [moves.src] at past
            rw [getElem?_eq_none past] at after
            cases after
          · rw [moves.src, after, some.injEq] at found
            exact goesOn ⟨star, found.symm⟩
        refine yields_some ⟨⟨moved, fun q comment => joins q (.byte here' opens ?_)⟩,
          left_lt first.advances⟩
        rcases first.width with one | ⟨-, newline, two⟩
        · exact one ▸ comment
        · rw [two] at comment
          exact .byte (moves.src ▸ newline) (fun both => absurd both.1 (by decide)) comment

/-- What is skipped between tokens is a gap of the source. -/
theorem yields_skip_whitespace (tracks : lex.Tracks) :
    Yields (lexer_skip_whitespace lex) fun l =>
      Moves lex l ∧ Gap lex.src lex.pos l.pos := by
  apply yields_loop
    (fun l => Moves lex l ∧ ∀ q, Gap lex.src l.pos q → Gap lex.src lex.pos q)
    Lexer.left _ ⟨.refl tracks, fun _ gap => gap⟩ (left_enough lex)
  rintro l ⟨moves, joins⟩
  apply (yields_peek_char l).bind
  intro c found
  apply (yields_peek_char_next l).bind
  intro next foundNext
  split
  · exact yields_some ⟨moves, joins _ .empty⟩
  · next nonzero =>
      have inside : ¬l.AtEnd := by
        rcases found with ⟨-, zero⟩ | ⟨inside, -⟩
        · exact absurd zero nonzero
        · exact inside
      have here : lex.src[l.pos]? = some c := by
        rcases found with ⟨atEnd, -⟩ | ⟨-, here⟩
        · exact absurd atEnd inside
        · exact moves.src ▸ here
      split
      · next blank =>
          apply yields_turn moves.tracks inside
          intro l' steps
          refine ⟨moves.trans steps.advances.1, fun q gap => joins q (.blank here blank ?_)⟩
          rcases steps.width with one | ⟨-, newline, two⟩
          · exact one ▸ gap
          · rw [two] at gap
            exact .blank (moves.src ▸ newline) (by decide) gap
      · split
        · next comment =>
            obtain ⟨rfl, rfl⟩ := comment
            have after : lex.src[l.pos + 1]? = some (ch '/') := by
              rcases foundNext with ⟨-, zero⟩ | after
              · exact absurd zero (by decide)
              · exact moves.src ▸ after
            apply (yields_skipLineComment moves.tracks).bind
            rintro l' ⟨moved, comment⟩
            rw [moves.src] at comment
            have behind := (comment.drop here (by decide)).drop after (by decide)
            have less : l.pos < l'.pos :=
              Nat.lt_of_lt_of_le (Nat.lt_add_of_pos_right Nat.two_pos) behind.le
            exact yields_some ⟨⟨moves.trans moved, fun q gap => joins q
              (.line here after behind gap)⟩, left_lt ⟨moved, less⟩⟩
        · split
          · next comment =>
              obtain ⟨rfl, rfl⟩ := comment
              have after : lex.src[l.pos + 1]? = some (ch '*') := by
                rcases foundNext with ⟨-, zero⟩ | after
                · exact absurd zero (by decide)
                · exact moves.src ▸ after
              apply (yields_advance moves.tracks inside).bind
              intro l₁ first
              have one := first.one (moves.src ▸ here) (by decide)
              have after' : l₁.src[l₁.pos]? = some (ch '*') := by
                rw [first.advances.1.src, moves.src, one]
                exact after
              apply (yields_advance first.advances.1.tracks
                (not_atEnd after' (Nat.le_refl _))).bind
              intro l₂ second
              have two := second.one after' (by decide)
              apply (yields_skipBlockComment second.advances.1.tracks).bind
              rintro l' ⟨moved, comment⟩
              have all := first.advances.moves (second.advances.1.trans moved)
              rw [second.advances.1.src, first.advances.1.src, moves.src, two, one] at comment
              exact yields_some ⟨⟨moves.trans all.1, fun q gap => joins q
                (.block here after comment gap)⟩, left_lt all⟩
          · exact yields_some ⟨moves, joins _ .empty⟩

end Gaps

/-! ## Tokens -/

structure Lexes (lex : Lexer) (made : Token × Lexer) : Prop where
  advances : Advances lex made.2
  type : made.1.type ≠ .tokEof
  span : made.1.type ≠ .tokError →
    made.1.start = .source lex.pos ∧ made.1.len = made.2.pos - lex.pos
  line : made.1.line = made.2.line

section Tokens

variable {lex : Lexer}

variable {l : Lexer}

theorem lexes_make_token (advances : Advances lex l) {type : LRTokType}
    (proper : type ≠ .tokEof) : Lexes lex (make_token_from l type lex.pos) :=
  ⟨⟨advances.1.flags _ _, advances.2⟩, proper, fun _ => ⟨rfl, rfl⟩, rfl⟩

theorem lexes_unterminated (advances : Advances lex l) (msg : String) (len : Nat) :
    Lexes lex (unterminated l lex.pos msg len) :=
  ⟨⟨advances.1.flags _ _, advances.2⟩, by simp [unterminated, make_token_from],
    fun proper => absurd rfl proper, rfl⟩

theorem Lexes.of_fields {t t' : Token} (lexes : Lexes lex (t, l))
    (type : t'.type = t.type) (start : t'.start = t.start) (len : t'.len = t.len)
    (line : t'.line = t.line) : Lexes lex (t', l) := by
  refine ⟨lexes.advances, ?_, ?_, ?_⟩
  · exact type ▸ lexes.type
  · intro proper
    rw [start, len]
    exact lexes.span (type ▸ proper)
  · exact line.trans lexes.line

theorem Lexes.flag {t : Token} (lexes : Lexes lex (t, l)) (allowed : Bool) :
    Lexes lex (t, { l with allowRegexp := allowed }) :=
  ⟨⟨lexes.advances.1.flags _ _, lexes.advances.2⟩, lexes.type, lexes.span, lexes.line⟩

theorem yields_advanceWhile_some {condition : Lexer → Option Bool}
    (reads : ∀ l : Lexer, Yields (condition l) fun b => b = true → ¬l.AtEnd)
    (tracks : lex.Tracks) (starts : condition lex = some true) :
    Yields (advanceWhile condition lex) (Advances lex) := by
  apply yields_loop (fun l => Moves lex l ∧ (l = lex ∨ lex.pos < l.pos)) Lexer.left _
    ⟨.refl tracks, .inl rfl⟩ (left_enough lex)
  rintro l ⟨moves, started⟩
  obtain ⟨b, answer, inside⟩ := reads l
  rw [answer]
  cases b with
  | true =>
    apply yields_turn moves.tracks (inside rfl)
    intro l' steps
    exact ⟨moves.trans steps.advances.1, .inr (moves.advances steps.advances).2⟩
  | false =>
    rcases started with rfl | less
    · rw [starts] at answer
      cases answer
    · exact yields_some ⟨moves, less⟩

theorem yields_condition (member : UInt8 → Bool) (zero : member 0 = false) (lex : Lexer) :
    Yields ((lexer_peek_char lex).bind fun c => some (member c)) fun b =>
      b = true → ¬lex.AtEnd := by
  apply (yields_peek_char lex).bind
  rintro c (⟨-, rfl⟩ | ⟨inside, -⟩)
  · rw [zero]
    exact yields_some fun impossible => absurd impossible (by decide)
  · exact yields_some fun _ => inside

theorem yields_atName (lex : Lexer) : Yields (atName lex) fun b => b = true → ¬lex.AtEnd :=
  yields_condition is_js_ident_continue (by decide) lex

theorem yields_atDigit (lex : Lexer) : Yields (atDigit lex) fun b => b = true → ¬lex.AtEnd := by
  apply (yields_peek_char lex).bind
  rintro c (⟨atEnd, rfl⟩ | ⟨inside, -⟩)
  · apply (yields_peek_char_next lex).bind
    intro next _
    exact yields_some fun holds => by simp [isDigit, ch] at holds
  · apply (yields_peek_char_next lex).bind
    intro next _
    exact yields_some fun _ => inside

theorem yields_atFlag (lex : Lexer) : Yields (atFlag lex) fun b => b = true → ¬lex.AtEnd := by
  unfold atFlag
  split
  · exact yields_some fun impossible => absurd impossible (by decide)
  · next inside =>
      apply (yields_peek_char lex).bind
      intro c _
      exact yields_some fun _ => inside

section

variable (tracks : lex.Tracks)
include tracks

theorem yields_lexRadix (inside : ¬lex.AtEnd) {member : UInt8 → Bool} (zero : member 0 = false) :
    Yields (lexRadix lex member) (Advances lex) := by
  apply (yields_advance tracks inside).bind
  intro l₁ first
  apply (yields_advance_moves first.advances.1.tracks).bind
  intro l₂ second
  have reads (l : Lexer) : Yields (atClass member l) fun b => b = true → ¬l.AtEnd :=
    yields_condition (fun c => member c || c = ch '_') (by simp [zero, ch]) l
  apply (yields_advanceWhile reads second.tracks).mono
  intro l moves
  exact (first.advances.moves second).moves moves

theorem yields_lexFraction : Yields (lexFraction lex) (Moves lex) := by
  apply (yields_peek_char lex).bind
  intro c _
  apply (yields_peek_char_next lex).bind
  intro next _
  split
  · apply (yields_advance_moves tracks).bind
    intro l moves
    exact (yields_advanceWhile yields_atDigit moves.tracks).mono fun _ => moves.trans
  · exact yields_some (.refl tracks)

theorem yields_lexSign : Yields (lexSign lex) (Moves lex) := by
  apply (yields_peek_char lex).bind
  intro c _
  split
  · exact yields_advance_moves tracks
  · exact yields_some (.refl tracks)

theorem yields_lexExponent : Yields (lexExponent lex) (Moves lex) := by
  apply (yields_peek_char lex).bind
  intro c _
  split
  · apply (yields_advance_moves tracks).bind
    intro l₁ first
    apply (yields_lexSign first.tracks).bind
    intro l₂ second
    have moves := first.trans second
    exact (yields_advanceWhile yields_atDigit moves.tracks).mono fun _ => moves.trans
  · exact yields_some (.refl tracks)

theorem yields_lexDecimal (starts : atDigit lex = some true) :
    Yields (lexDecimal lex) fun made => Advances lex made.2 := by
  apply (yields_advanceWhile_some yields_atDigit tracks starts).bind
  intro l₁ first
  apply (yields_lexFraction first.1.tracks).bind
  intro l₂ second
  apply (yields_lexExponent second.tracks).bind
  intro l₃ third
  have advances := (first.moves second).moves third
  apply (yields_peek_char l₃).bind
  intro c _
  split
  · apply (yields_advance_moves third.tracks).bind
    intro l₄ fourth
    exact yields_some (advances.moves fourth)
  · exact yields_some advances

end

theorem yields_radixMark (lex : Lexer) : Yields (radixMark lex) fun _ => True := by
  apply (yields_peek_char lex).bind
  intro c _
  split
  · exact (yields_peek_char_next lex).mono fun _ _ => trivial
  · exact yields_some trivial

theorem yields_lexNumberText (tracks : lex.Tracks) (inside : ¬lex.AtEnd)
    (starts : atDigit lex = some true) :
    Yields (lexNumberText lex) fun made => Advances lex made.2 := by
  apply (yields_radixMark lex).bind
  intro next _
  split
  · apply (yields_lexRadix tracks inside (by decide)).bind
    intro l advances
    exact yields_some advances
  · split
    · apply (yields_lexRadix tracks inside (by decide)).bind
      intro l advances
      exact yields_some advances
    · split
      · apply (yields_lexRadix tracks inside (by decide)).bind
        intro l advances
        exact yields_some advances
      · exact yields_lexDecimal tracks starts

theorem yields_text (moves : Moves lex l) :
    Yields (l.slice lex.pos (l.pos - lex.pos)) fun _ => True := by
  apply yields_slice
  have bound := moves.tracks.bound
  have le := moves.le
  omega

theorem yields_lex_number (tracks : lex.Tracks) {c : UInt8} (here : lex.src[lex.pos]? = some c)
    (digit : isDigit c = true) : Yields (lex_number lex) (Lexes lex) := by
  have inside := not_atEnd here (Nat.le_refl _)
  have starts : atDigit lex = some true := by
    obtain ⟨c', peeked, same⟩ := yields_peek_inside inside
    obtain ⟨next, peekedNext, -⟩ := yields_peek_char_next lex
    rw [here, some.injEq] at same
    simp [atDigit, peeked, peekedNext, ← same, digit]
  apply (yields_lexNumberText tracks inside starts).bind
  rintro ⟨form, l⟩ advances
  apply (yields_text advances.1).bind
  intro bytes _
  apply yields_some
  have proper : (if form = .bigint then LRTokType.tokBigintLit else .tokNumber) ≠ .tokEof := by
    split <;> decide
  apply (lexes_make_token advances proper).of_fields
  all_goals cases form <;> rfl

theorem yields_lexPrivateName (tracks : lex.Tracks) (inside : ¬lex.AtEnd) :
    Yields (lexPrivateName lex) (Lexes lex) := by
  apply (yields_advance tracks inside).bind
  intro l₁ first
  apply (yields_advanceWhile yields_atName first.advances.1.tracks).bind
  intro l₂ second
  exact yields_some (lexes_make_token (first.advances.moves second) (by decide))

theorem lookup_keyword_ne_eof (word : List UInt8) : lookup_keyword word ≠ .tokEof := by
  have proper : ∀ keyword ∈ keywords, keyword.2 ≠ .tokEof := by
    decide
  unfold lookup_keyword
  split
  · next keyword found => exact proper keyword (mem_of_find?_eq_some found)
  · decide

theorem yields_lexName (tracks : lex.Tracks) (inside : ¬lex.AtEnd) :
    Yields (lexName lex) (Lexes lex) := by
  apply (yields_advance tracks inside).bind
  intro l₁ first
  apply (yields_advanceWhile yields_atName first.advances.1.tracks).bind
  intro l₂ second
  have advances := first.advances.moves second
  apply (yields_text advances.1).bind
  intro name _
  have lexes := lexes_make_token advances (lookup_keyword_ne_eof name)
  dsimp only
  split
  · exact yields_some (lexes.of_fields rfl rfl rfl rfl)
  · exact yields_some lexes

theorem yields_standsAt (i : Nat) (bytes : List UInt8) :
    Yields (standsAt lex i bytes) fun _ => True := by
  induction bytes generalizing i with
  | nil => exact yields_some trivial
  | cons byte rest ih =>
    unfold standsAt
    split
    · next inside =>
        apply (yields_byte inside).bind
        intro c _
        split
        · exact ih (i + 1)
        · exact yields_some trivial
    · exact yields_some trivial

theorem yields_findOperator (list : List (String × LRTokType)) :
    Yields (findOperator lex list) fun found => ∀ operator, found = some operator →
      operator ∈ list := by
  induction list with
  | nil => exact yields_some (by simp)
  | cons operator rest ih =>
    apply (yields_standsAt lex.pos (ascii operator.1)).bind
    intro b _
    split
    · exact yields_some (by simp)
    · apply ih.mono
      intro found member operator' same
      exact mem_cons_of_mem _ (member operator' same)

theorem yields_advanceBy (n : Nat) (tracks : lex.Tracks) :
    Yields (advanceBy n lex) (Moves lex) := by
  induction n generalizing lex with
  | zero => exact yields_some (.refl tracks)
  | succ n ih =>
    apply (yields_advance_moves tracks).bind
    intro l moves
    exact (ih moves.tracks).mono fun _ => moves.trans

theorem yields_lexOperator (tracks : lex.Tracks) (inside : ¬lex.AtEnd) :
    Yields (lexOperator lex) (Lexes lex) := by
  have proper : ∀ operator ∈ operators, operator.2 ≠ .tokEof ∧ operator.1.length ≠ 0 := by
    decide
  apply (yields_findOperator operators).bind
  rintro (_ | ⟨text, type⟩) member
  · apply (yields_advance tracks inside).bind
    intro l steps
    exact yields_some ⟨steps.advances, by simp [make_error], fun proper => absurd rfl proper, rfl⟩
  · obtain ⟨notEof, nonempty⟩ := proper _ (member _ rfl)
    obtain ⟨n, width⟩ := Nat.exists_eq_succ_of_ne_zero nonempty
    have moved : Yields (advanceBy text.length lex) (Advances lex) := by
      rw [width]
      apply (yields_advance tracks inside).bind
      intro l steps
      exact (yields_advanceBy n steps.advances.1.tracks).mono fun _ => steps.advances.moves
    apply moved.bind
    intro l advances
    exact yields_some (lexes_make_token advances notEof)

section Unescape

variable {start len : Nat}

section

variable (fits : start + len ≤ lex.src.length)
include fits

theorem yields_charAt {i : Nat} (inside : i < len) :
    Yields (charAt lex start i) fun _ => True :=
  (yields_byte (Nat.lt_of_lt_of_le (Nat.add_lt_add_left inside start) fits)).mono
    fun _ _ => trivial

theorem yields_braceDigits (i : Nat) :
    Yields (braceDigits lex start len i) fun made => i ≤ made.1 := by
  apply yields_loop (fun state => i ≤ state.1) (fun state => len - state.1) _ (Nat.le_refl i)
    (by dsimp only; omega)
  rintro ⟨j, cp⟩ le
  dsimp only at le ⊢
  split
  · next inside =>
      apply (yields_charAt fits inside).bind
      intro c _
      split
      · exact yields_some le
      · exact yields_some ⟨Nat.le_succ_of_le le, Nat.sub_succ_lt_self _ _ inside⟩
  · exact yields_some le

theorem yields_hexEscape (i : Nat) :
    Yields (hexEscape lex start len i) fun made => i < made.2 := by
  unfold hexEscape
  split
  · next inside =>
      apply (yields_charAt fits (Nat.lt_of_succ_lt inside)).bind
      intro first _
      apply (yields_charAt fits inside).bind
      intro second _
      split
      · exact yields_some (by dsimp only; omega)
      · exact yields_some (Nat.lt_succ_self i)
  · exact yields_some (Nat.lt_succ_self i)

theorem yields_unicodeEscape (i : Nat) :
    Yields (unicodeEscape lex start len i) fun made => i < made.2 := by
  unfold unicodeEscape
  split
  · next inside =>
      apply (yields_charAt fits (by omega : i + 1 < len)).bind
      intro first _
      split
      · apply (yields_braceDigits fits (i + 2)).bind
        rintro ⟨j, cp⟩ le
        exact yields_some (by dsimp only at le ⊢; omega)
      · apply (yields_charAt fits (by omega : i + 2 < len)).bind
        intro second _
        apply (yields_charAt fits (by omega : i + 3 < len)).bind
        intro third _
        apply (yields_charAt fits inside).bind
        intro fourth _
        exact yields_some (by dsimp only; omega)
  · exact yields_some (Nat.lt_succ_self i)

theorem yields_escape {i : Nat} (inside : i < len) :
    Yields (escape lex start len i) fun made => i < made.2 := by
  apply (yields_charAt fits inside).bind
  intro c _
  split
  · exact yields_some (Nat.lt_succ_self i)
  · split
    · exact yields_hexEscape fits i
    · split
      · exact yields_unicodeEscape fits i
      · split
        · split
          · next more =>
              apply (yields_charAt fits more).bind
              intro next _
              apply yields_some
              split <;> omega
          · exact yields_some (Nat.lt_succ_self i)
        · split
          · exact yields_some (Nat.lt_succ_self i)
          · exact yields_some (Nat.lt_succ_self i)

theorem yields_unescape_string :
    Yields (unescape_string lex start len) fun _ => True := by
  apply yields_loop (fun _ => True) (fun state => len - state.1) _ trivial
    (by dsimp only; omega)
  rintro ⟨i, result⟩ -
  dsimp only
  split
  · next inside =>
      apply (yields_charAt fits inside).bind
      intro c _
      split
      · next escapes =>
          apply (yields_escape fits escapes.2).bind
          rintro ⟨bytes, j⟩ less
          exact yields_some ⟨trivial, by dsimp only at less ⊢; omega⟩
      · exact yields_some ⟨trivial, Nat.sub_succ_lt_self _ _ inside⟩
  · exact yields_some trivial

end

theorem length_encode (cp : Nat) : (encode cp).length ≤ 3 := by
  unfold encode
  split_ifs <;> simp

theorem length_escape {i j : Nat} {bytes : List UInt8} (fits : start + len ≤ lex.src.length)
    (inside : i < len) (made : escape lex start len i = some (bytes, j)) :
    bytes.length + i ≤ min j len := by
  have braces := yields_braceDigits fits (i + 2)
  simp only [escape, hexEscape, unicodeEscape, bind_eq_bind, bind_eq_some_iff] at made
  grind [length_encode, Yields, bind_eq_some_iff]

/-- `unescape_string` returns, and writes no more than its buffer holds. -/
theorem unescape_string_in_buffer (lex : Lexer) (start len : Nat)
    (fits : start + len ≤ lex.src.length) :
    ∃ result, unescape_string lex start len = some result ∧ result.length ≤ len := by
  apply yields_loop (fun state => state.2.length ≤ min state.1 len) (fun state => len - state.1) _
    (Nat.zero_le _) (by dsimp only; omega)
  rintro ⟨i, result⟩ short
  dsimp only at short ⊢
  split
  · next inside =>
      apply (yields_charAt fits inside).bind
      intro c _
      split
      · next escapes =>
          obtain ⟨⟨bytes, j⟩, made, less⟩ := yields_escape fits escapes.2
          have room := length_escape fits escapes.2 made
          rw [made]
          exact yields_some ⟨by simp only [length_append]; omega, by dsimp only at less ⊢; omega⟩
      · exact yields_some ⟨by simp only [length_append, length_singleton]; omega,
          Nat.sub_succ_lt_self _ _ inside⟩
  · exact yields_some (Nat.le_trans short (Nat.min_le_right i len))

/-- `\u{41}` -/
theorem unescape_string_in_buffer_braces :
    ∃ result, unescape_string (lexer_init [92, 117, 123, 52, 49, 125]) 0 6 = some result ∧
      result.length ≤ 6 :=
  unescape_string_in_buffer _ 0 6 (by decide)

end Unescape

theorem yields_skipEscaped (tracks : lex.Tracks) (inside : ¬lex.AtEnd) :
    Yields (skipEscaped lex) (Advances lex) := by
  apply (yields_advance tracks inside).bind
  intro l₁ first
  apply (yields_peek_char l₁).bind
  intro c _
  split
  · apply (yields_advance_moves first.advances.1.tracks).bind
    intro l₂ second
    apply (yields_peek_char l₂).bind
    intro c' _
    split
    · exact (yields_advance_moves second.tracks).mono fun _ third =>
        (first.advances.moves second).moves third
    · exact yields_some (first.advances.moves second)
  · exact (yields_advance_moves first.advances.1.tracks).mono fun _ => first.advances.moves

/-- A string ends behind its closing quote. -/
theorem yields_lex_string (tracks : lex.Tracks) (inside : ¬lex.AtEnd) (quote : UInt8) :
    Yields (lex_string lex quote) (Lexes lex) := by
  apply (yields_advance tracks inside).bind
  intro opened first
  -- the text between the quotes begins where the opening one was skipped
  apply yields_loop (Moves opened) Lexer.left _ (.refl first.advances.1.tracks)
    (left_enough opened)
  intro l moves
  have advances := first.advances.moves moves
  split
  · exact yields_some (lexes_unterminated advances _ _)
  · next more =>
      apply (yields_peek_char l).bind
      intro c _
      split
      · have le := moves.le
        have bound := moves.tracks.bound
        apply (yields_unescape_string (by omega :
          opened.pos + (l.pos - opened.pos) ≤ l.src.length)).bind
        intro decoded _
        apply (yields_advance_moves moves.tracks).bind
        intro closed last
        have lexes : Lexes lex (make_token_from closed .tokString lex.pos) :=
          lexes_make_token (advances.moves last) (by decide)
        exact yields_some (lexes.of_fields rfl rfl rfl rfl)
      · split
        · apply (yields_skipEscaped moves.tracks more).bind
          intro l' skipped
          exact yields_some ⟨moves.trans skipped.1, left_lt skipped⟩
        · split
          · exact yields_some (lexes_unterminated advances _ _)
          · apply yields_turn moves.tracks more
            intro l' steps
            exact moves.trans steps.advances.1

theorem yields_makeTemplate (advances : Advances lex l) {type : LRTokType}
    (proper : type ≠ .tokEof) {bodyStart bodyEnd : Nat} (fits : bodyEnd ≤ l.pos)
    (le : bodyStart ≤ bodyEnd) :
    Yields (makeTemplate l type lex.pos bodyStart bodyEnd) (Lexes lex) := by
  have bound := advances.1.tracks.bound
  apply (yields_slice (by omega : bodyStart + (bodyEnd - bodyStart) ≤ l.src.length)).bind
  intro text _
  exact yields_some ((lexes_make_token advances proper).of_fields rfl rfl rfl rfl)

section

variable (tracks : lex.Tracks)
include tracks

theorem yields_openTemplate : Yields (openTemplate lex) (Moves lex) := by
  apply (yields_peek_char lex).bind
  intro c _
  split
  · apply (yields_advance_moves tracks).bind
    intro l moves
    exact yields_some (moves.flags l.allowRegexp true)
  · exact yields_some (.refl tracks)

/-- A template ends behind its closing backtick. -/
theorem yields_lex_template (inside : ¬lex.AtEnd) :
    Yields (lex_template lex) (Lexes lex) := by
  apply (yields_openTemplate tracks).bind
  intro opened first
  apply yields_loop (Moves opened) Lexer.left _ (.refl first.tracks) (left_enough opened)
  intro l moves
  have moved := first.trans moves
  split
  · next atEnd =>
      have less : lex.pos < l.pos := by
        rw [moved.pos_eq atEnd]
        exact Nat.lt_of_not_le inside
      exact yields_some (lexes_unterminated ⟨moved, less⟩ _ _)
  · next more =>
      have le := moves.le
      apply (yields_peek_inside more).bind
      intro c here
      apply (yields_peek_char_next l).bind
      intro next found
      split
      · apply (yields_advance moves.tracks more).bind
        intro closed last
        have less := last.advances.2
        have advances := moved.advances last.advances
        apply (yields_makeTemplate (l := { closed with inTemplate := false })
          ⟨advances.1.flags closed.allowRegexp false, advances.2⟩ (by decide)
          (Nat.sub_le _ _) (by dsimp only; omega)).bind
        intro made lexes
        exact yields_some lexes
      · split
        · next interpolates =>
            apply (yields_advance moves.tracks more).bind
            intro l₁ dollar
            have one := dollar.one here (by rw [interpolates.1]; decide)
            have brace : l₁.src[l₁.pos]? = some next := by
              rw [dollar.advances.1.src, one]
              rcases found with ⟨-, zero⟩ | found
              · rw [interpolates.2] at zero
                exact absurd zero (by decide)
              · exact found
            apply (yields_advance dollar.advances.1.tracks
              (not_atEnd brace (Nat.le_refl _))).bind
            intro l₂ second
            have less := second.advances.2
            have advances := (moved.advances dollar.advances).moves second.advances.1
            apply (yields_makeTemplate advances (by decide) (Nat.sub_le _ _) (by omega)).bind
            intro made lexes
            exact yields_some lexes
        · split
          · apply (yields_advance moves.tracks more).bind
            intro l₁ escaping
            apply (yields_advance_moves escaping.advances.1.tracks).bind
            intro l₂ second
            have advances := escaping.advances.moves second
            exact yields_some ⟨moves.trans advances.1, left_lt advances⟩
          · apply yields_turn moves.tracks more
            intro l' steps
            exact moves.trans steps.advances.1

theorem yields_regexpBody :
    Yields (regexpBody lex) fun made => Moves lex made.1 := by
  apply yields_loop (fun state => Moves lex state.1) (fun state => state.1.left) _ (.refl tracks)
    (left_enough lex)
  rintro ⟨l, inClass⟩ moves
  dsimp only at moves ⊢
  split
  · exact yields_some moves
  · next inside =>
      apply (yields_peek_char l).bind
      intro c _
      split
      · apply (yields_advance moves.tracks inside).bind
        intro l₁ first
        apply (yields_advance_moves first.advances.1.tracks).bind
        intro l₂ second
        have advances := first.advances.moves second
        exact yields_some ⟨moves.trans advances.1, left_lt advances⟩
      · split
        · apply (yields_advance_moves moves.tracks).bind
          intro l' moved
          exact yields_some (moves.trans moved)
        · split
          · exact yields_some moves
          · apply (yields_advance moves.tracks inside).bind
            intro l' steps
            exact yields_some ⟨moves.trans steps.advances.1, left_lt steps.advances⟩

theorem yields_lex_regexp (inside : ¬lex.AtEnd) :
    Yields (lex_regexp lex) (Lexes lex) := by
  apply (yields_advance tracks inside).bind
  intro l₁ first
  apply (yields_regexpBody first.advances.1.tracks).bind
  rintro ⟨l₂, complete⟩ moves
  have advances := first.advances.moves moves
  dsimp only
  split
  · apply (yields_advanceWhile yields_atFlag moves.tracks).bind
    intro l₃ third
    exact yields_some (lexes_make_token (advances.moves third) (by decide))
  · exact yields_some (lexes_unterminated advances _ _)

end

end Tokens

/-! ## The tokenizer -/

section Tokenizer

variable {lex : Lexer}

/-- Every token of the lexer lexes its bytes. -/
theorem yields_lexToken (tracks : lex.Tracks) (inside : ¬lex.AtEnd) :
    Yields (lexToken lex) (Lexes lex) := by
  apply (yields_peek_inside inside).bind
  intro c here
  split
  · exact yields_lexPrivateName tracks inside
  · split
    · exact yields_lexName tracks inside
    · split
      · next digit =>
          apply (yields_lex_number tracks here digit).bind
          rintro ⟨t, l⟩ lexes
          exact yields_some (lexes.flag false)
      · split
        · exact yields_lex_string tracks inside c
        · split
          · have opened : ({ lex with allowRegexp := true } : Lexer).Tracks :=
              ⟨tracks.bound, tracks.whole, tracks.line⟩
            apply (yields_lex_template opened inside).mono
            intro made lexes
            exact ⟨⟨⟨lexes.advances.1.src, lexes.advances.1.peek, lexes.advances.1.le,
              lexes.advances.1.tracks⟩, lexes.advances.2⟩, lexes.type, lexes.span, lexes.line⟩
          · split
            · exact yields_lex_regexp tracks inside
            · exact yields_lexOperator tracks inside

theorem yields_lexer_next (tracks : lex.Tracks) (ready : lex.peek = none) :
    Yields (lexer_next lex) fun made => ∃ between : Lexer, Moves lex between ∧
      Gap lex.src lex.pos between.pos ∧
        (between.AtEnd ∧ made = (endOfFile between, between) ∨
          ¬between.AtEnd ∧ Lexes between made) := by
  unfold lexer_next
  rw [ready]
  apply (yields_skip_whitespace tracks).bind
  rintro between ⟨moves, gap⟩
  split
  · next atEnd => exact yields_some ⟨between, moves, gap, .inl ⟨atEnd, rfl⟩⟩
  · next inside =>
      apply (yields_lexToken moves.tracks inside).mono
      intro made lexes
      exact ⟨between, moves, gap, .inr ⟨inside, lexes⟩⟩

/-- The tokens and gaps from a place on tile the rest of the source. -/
theorem yields_tokensFrom (flags : Nat → Bool) (fuel i : Nat) (tracks : lex.Tracks)
    (ready : lex.peek = none) (enough : lex.left < fuel) :
    Yields (tokensFrom flags fuel i lex) (Tiles lex.src (fun _ e => e) lex.pos) := by
  induction fuel generalizing i lex with
  | zero => exact absurd enough (Nat.not_lt_zero _)
  | succ fuel ih =>
    have started : ({ lex with allowRegexp := flags i } : Lexer).Tracks :=
      ⟨tracks.bound, tracks.whole, tracks.line⟩
    apply (yields_lexer_next started ready).bind
    rintro ⟨t, l⟩ ⟨between, moves, gap, ⟨atEnd, made⟩ | ⟨inside, lexes⟩⟩
    · obtain ⟨rfl, rfl⟩ := Prod.mk.inj made
      have place := moves.pos_eq atEnd
      apply yields_some
      rw [place]
      apply Tiles.endOfFile
      · exact place ▸ gap
      · rfl
      · exact congrArg TokenStart.source (congrArg length moves.src)
      · rfl
      · have line := moves.tracks.line
        rw [place, moves.src] at line
        exact line
    · have advances := moves.advances lexes.advances
      dsimp only
      rw [if_neg lexes.type]
      have less : l.left < fuel :=
        Nat.lt_of_lt_of_le (left_lt advances) (Nat.le_of_lt_succ enough)
      apply (ih (i + 1) advances.1.tracks
        (advances.1.peek.trans ready) less).bind
      intro rest tiles
      have src : l.src = lex.src := advances.1.src
      rw [src] at tiles
      apply yields_some
      have bound := advances.1.tracks.bound
      have line := advances.1.tracks.line
      apply Tiles.token gap lexes.advances.2 (src ▸ bound) lexes.type lexes.span _ tiles
      rw [lexes.line]
      exact src ▸ line

end Tokenizer

/-- The lexer comes to the end of file without a read past the end, whatever the flags.  Its tokens
tile the source with gaps, and each has the line of the place behind it. -/
theorem tokens_tile (src : List UInt8) (flags : Nat → Bool) :
    ∃ made, tokens src flags = some made ∧ Tiles src (fun _ e => e) 0 made := by
  have tracks : (lexer_init src).Tracks :=
    ⟨Nat.zero_le _, fun inside => absurd inside.1 (Nat.lt_irrefl 0), rfl⟩
  exact yields_tokensFrom flags _ 0 tracks rfl (left_enough _)

/-- A template with a line terminator has the line behind it, not that of its first byte. -/
theorem template_line :
    ¬∀ (src : List UInt8) (flags : Nat → Bool) (made : List (Token × Nat)),
      tokens src flags = some made → Tiles src (fun s _ => s) 0 made := by
  intro atStart
  have lexed : tokens (ascii "`\n`") (fun _ => true) = some
      [({ type := .tokTemplateEnd, start := .source 0, len := 3, strVal := some (ascii "\n"),
          line := 2, col := 2 }, 3),
        ({ type := .tokEof, start := .source 3, len := 0, line := 2, col := 2 }, 3)] := by
    decide +kernel
  cases atStart _ _ _ lexed with
  | token gap _ _ _ _ line _ =>
    cases gap with
    | empty => exact absurd line (by decide)
    | blank here blank _ =>
      obtain rfl := some.inj here
      exact absurd blank (by decide)
    | line here _ _ _ | block here _ _ _ => exact absurd here (by decide)

end LRJS.Lexing
