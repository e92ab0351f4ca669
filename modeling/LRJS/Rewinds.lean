import LRJS.Lookahead

/-!
# Going back

Where the parser goes back to a token and reads it again, it reads what it
would have read without the lookahead exactly if the lines and the template
flag are as they were.  The regexp flag does not matter: the token that is
read again sets it.
-/

namespace LRJS.Lexing

open Guarded List Option Reader

def Distance.none : Distance :=
  ⟨0, 0, Eq, Eq, fun _ _ _ same => by rw [same]⟩

theorem Token.Like.seen {t u : Token} (like : t.Like 0 0 u) : u.seen = t.seen := by
  obtain ⟨type, start, len, numVal, bigintVal, strVal, line⟩ := like
  have line : t.line = u.line := line
  simp only [Token.seen, type, start, len, numVal, bigintVal, strVal, line]

structure Reading.Near (s s' : Reading) : Prop where
  lexer : Lexing.Near .none s.lexer s'.lexer
  marks : s'.marks = s.marks
  saved : List.Forall₂ (Lexing.Near .none) s.saved s'.saved

def SameRun {α : Type} (r r' : α × Reading) : Prop :=
  r'.1 = r.1 ∧ r.2.Near r'.2

theorem result_eq {α : Type} {x y : Option (α × Reading)} (same : Lockstep SameRun x y) :
    x.map Prod.fst = y.map Prod.fst := by
  cases same with
  | none => rfl
  | some related => exact congrArg some related.1.symm

theorem Near.refl (lex : Lexer) : Near .none lex lex := by
  refine ⟨rfl, rfl, rfl, rfl, rfl, ?_⟩
  cases lex.peek with
  | none => exact .none
  | some t => exact .some ⟨rfl, rfl, rfl, rfl, rfl, rfl, rfl⟩

theorem Near.templateNext {a b : Lexer} (near : Near .none a b) :
    Lockstep (NearToken .none) a.templateNext b.templateNext := by
  unfold Lexer.templateNext
  have peeks := near.peek
  cases first : a.peek with
  | none =>
    rw [first] at peeks
    cases second : b.peek with
    | none => exact near.lex_template rfl
    | some u =>
      rw [second] at peeks
      cases peeks
  | some t =>
    rw [first] at peeks
    cases second : b.peek with
    | none =>
      rw [second] at peeks
      cases peeks
    | some u => exact .none

/-- Two readings that are near stay so under every reader. -/
theorem Reader.run_near {α : Type} (reader : Reader α) {s s' : Reading} (near : s.Near s') :
    Lockstep SameRun (reader.run s) (reader.run s') := by
  -- what follows a call depends on what is seen of the token
  have call {rest : Token → Reader α} {s s' : Reading} {made made' : Option (Token × Lexer)}
      (near : s.Near s') (tokens : Lockstep (NearToken .none) made made')
      (follows : ∀ t {s s' : Reading}, s.Near s' →
        Lockstep SameRun ((rest t).run s) ((rest t).run s')) :
      Lockstep SameRun (made.bind fun r => (rest r.1.seen).run { s with lexer := r.2 })
        (made'.bind fun r => (rest r.1.seen).run { s' with lexer := r.2 }) := by
    apply tokens.bind
    intro r r' related
    rw [related.1.seen]
    exact follows _ ⟨related.2, near.marks, near.saved⟩
  induction reader generalizing s s' with
  | done result => exact lockstep_some ⟨rfl, near⟩
  | next rest ih =>
    exact call near (near.lexer.lexer_next rfl rfl) fun t => ih t
  | peek rest ih =>
    exact call near (near.lexer.lexer_peek rfl rfl) fun t => ih t
  | templateNext rest ih =>
    exact call near near.lexer.templateNext fun t => ih t
  | position rest ih =>
    simp only [run, near.lexer.pos]
    exact ih _ near
  | markToken rest ih =>
    have peeks := near.lexer.peek
    simp only [run]
    cases first : s.lexer.peek with
    | none =>
      rw [first] at peeks
      cases second : s'.lexer.peek with
      | none => exact .none
      | some u =>
        rw [second] at peeks
        cases peeks
    | some t =>
      rw [first] at peeks
      cases second : s'.lexer.peek with
      | none =>
        rw [second] at peeks
        cases peeks
      | some u =>
        rw [second] at peeks
        cases peeks with
        | some like =>
          have offset : u.offset = t.offset := by
            simp only [Token.offset, like.start, like.type]
          apply lockstep_read offset
          intro offset
          exact ih ⟨near.lexer, by rw [near.marks], near.saved⟩
  | markPosition rest ih =>
    exact ih
      ⟨near.lexer, by rw [near.marks, near.lexer.pos], near.saved⟩
  | rewind rest ih =>
    simp only [run, near.marks]
    cases s.marks with
    | nil => exact .none
    | cons pos marks =>
      have back : Lexing.Near .none (s.lexer.rewind pos) (s'.lexer.rewind pos) :=
        ⟨near.lexer.src, rfl, near.lexer.line, near.lexer.allow, near.lexer.template, .none⟩
      exact ih ⟨back, rfl, near.saved⟩
  | forget rest ih =>
    exact ih ⟨near.lexer, by rw [near.marks], near.saved⟩
  | save rest ih =>
    exact ih ⟨near.lexer, near.marks, .cons near.lexer near.saved⟩
  | restore rest ih =>
    have saves := near.saved
    simp only [run]
    cases first : s.saved with
    | nil =>
      rw [first] at saves
      cases second : s'.saved with
      | nil => exact .none
      | cons lexer saved =>
        rw [second] at saves
        cases saves
    | cons lexer saved =>
      rw [first] at saves
      cases second : s'.saved with
      | nil =>
        rw [second] at saves
        cases saves
      | cons lexer' saved' =>
        rw [second] at saves
        cases saves with
        | cons head tail => exact ih ⟨head, near.marks, tail⟩
  | discard rest ih =>
    have tails : List.Forall₂ (Lexing.Near .none) s.saved.tail s'.saved.tail := by
      rw [← drop_one, ← drop_one]
      exact forall₂_drop 1 near.saved
    exact ih ⟨near.lexer, near.marks, tails⟩

/-! ## The kinds of tokens -/

def LRTokType.resumes (type : LRTokType) : Prop :=
  type = .tokIdentifier ∨ type = .tokAsync ∨ type = .tokImport ∨ type = .tokLparen

instance (type : LRTokType) : Decidable type.resumes :=
  inferInstanceAs (Decidable (_ ∨ _))

section Kinds

variable {lex l : Lexer} {t : Token}

theorem lexPrivateName_type (made : lexPrivateName lex = some (t, l)) :
    t.type = .tokPrivateName := by
  simp only [lexPrivateName, bind_eq_bind, bind_eq_some_iff] at made
  obtain ⟨first, _, last, _, made⟩ := made
  cases made
  rfl

theorem lex_number_type (made : lex_number lex = some (t, l)) :
    t.type = .tokNumber ∨ t.type = .tokBigintLit := by
  simp only [lex_number, bind_eq_bind, bind_eq_some_iff] at made
  obtain ⟨⟨form, last⟩, _, bytes, _, made⟩ := made
  cases made
  cases form with
  | bigint => exact .inr rfl
  | _ => exact .inl rfl

theorem lex_string_type {quote : UInt8} (made : lex_string lex quote = some (t, l)) :
    t.type = .tokString ∨ t.type = .tokError := by
  simp only [lex_string, bind_eq_bind, bind_eq_some_iff] at made
  obtain ⟨first, _, made⟩ := made
  apply loop_result (fun _ => True) (fun made => made.1.type = .tokString ∨
    made.1.type = .tokError) _ trivial made
  intro state outcome _ taken
  split at taken
  · cases taken
    exact .inr rfl
  · rw [bind_eq_some_iff] at taken
    obtain ⟨c, _, taken⟩ := taken
    split at taken
    · simp only [bind_eq_some_iff] at taken
      obtain ⟨decoded, _, last, _, taken⟩ := taken
      cases taken
      exact .inl rfl
    · split at taken
      · rw [bind_eq_some_iff] at taken
        obtain ⟨next, _, taken⟩ := taken
        cases taken
        trivial
      · split at taken
        · cases taken
          exact .inr rfl
        · rw [bind_eq_some_iff] at taken
          obtain ⟨next, _, taken⟩ := taken
          cases taken
          trivial

theorem lex_regexp_type (made : lex_regexp lex = some (t, l)) :
    t.type = .tokRegexp ∨ t.type = .tokError := by
  simp only [lex_regexp, bind_eq_bind, bind_eq_some_iff] at made
  obtain ⟨first, _, ⟨body, complete⟩, _, made⟩ := made
  split at made
  · rw [bind_eq_some_iff] at made
    obtain ⟨last, _, made⟩ := made
    cases made
    exact .inl rfl
  · cases made
    exact .inr rfl

theorem advance_moves {m : Lexer} (moved : lexer_advance lex = some m) :
    lex.pos ≤ m.pos ∧ (¬lex.AtEnd → lex.pos < m.pos) ∧ m.inTemplate = lex.inTemplate := by
  unfold lexer_advance at moved
  split at moved
  · next atEnd =>
      cases moved
      exact ⟨Nat.le_refl _, fun inside => absurd atEnd inside, rfl⟩
  · simp only [bind_eq_bind, bind_eq_some_iff] at moved
    obtain ⟨c, _, moved⟩ := moved
    split at moved
    · cases moved
      exact ⟨Nat.le_succ _, fun _ => Nat.lt_succ_self _, rfl⟩
    · split at moved
      · rw [bind_eq_some_iff] at moved
        obtain ⟨next, _, moved⟩ := moved
        split at moved
        · cases moved
          exact ⟨Nat.le_succ_of_le (Nat.le_succ _),
            fun _ => Nat.lt_succ_of_lt (Nat.lt_succ_self _), rfl⟩
        · cases moved
          exact ⟨Nat.le_succ _, fun _ => Nat.lt_succ_self _, rfl⟩
      · cases moved
        exact ⟨Nat.le_succ _, fun _ => Nat.lt_succ_self _, rfl⟩

theorem advance_byte {c : UInt8} (here : lexer_peek_char lex = some c) (inside : ¬lex.AtEnd)
    (plain : is_line_terminator c = false) :
    lexer_advance lex = some { lex with pos := lex.pos + 1, col := lex.col + 1 } := by
  simp only [is_line_terminator, Bool.or_eq_false_iff, decide_eq_false_iff_not] at plain
  rw [lexer_peek_char, if_neg inside] at here
  simp only [lexer_advance, if_neg inside, here, bind_eq_bind, bind_some,
    if_neg plain.1, if_neg plain.2]

theorem not_atEnd_of_peek {c : UInt8} (here : lexer_peek_char lex = some c) (nonzero : c ≠ 0) :
    ¬lex.AtEnd := by
  intro atEnd
  rw [lexer_peek_char, if_pos atEnd] at here
  exact nonzero (some.inj here).symm

theorem makeTemplate_made {start bodyStart bodyEnd : Nat} {type : LRTokType} {m : Lexer}
    (made : makeTemplate m type start bodyStart bodyEnd = some (t, l)) :
    t.type = type ∧ t.len = m.pos - start ∧ l.inTemplate = m.inTemplate := by
  simp only [makeTemplate, bind_eq_bind, bind_eq_some_iff] at made
  obtain ⟨text, _, made⟩ := made
  cases made
  exact ⟨rfl, rfl, rfl⟩

def OpensTemplate (made : Token × Lexer) : Prop :=
  (made.1.type = .tokTemplateEnd ∧ 2 ≤ made.1.len ∧ made.2.inTemplate = false) ∨
    ((made.1.type = .tokTemplate ∨ made.1.type = .tokError) ∧ made.2.inTemplate = true)

section

variable (backtick : lexer_peek_char lex = some (ch '`'))
include backtick

/-- A backtick outside of a template opens one, or a whole template is read. -/
theorem lex_template_off (off : lex.inTemplate = false) (made : lex_template lex = some (t, l)) :
    OpensTemplate (t, l) := by
  simp only [lex_template, bind_eq_bind, bind_eq_some_iff] at made
  obtain ⟨opened, opens, made⟩ := made
  simp only [openTemplate, backtick, off, bind_eq_bind, bind_some, and_self,
    if_true, bind_eq_some_iff] at opens
  obtain ⟨first, moved, opens⟩ := opens
  have inside := not_atEnd_of_peek backtick (by decide)
  have further : lex.pos < opened.pos ∧ opened.inTemplate = true := by
    cases opens
    exact ⟨(advance_moves moved).2.1 inside, rfl⟩
  -- behind the backtick the lexer stays in the template
  apply loop_result (fun l => lex.pos < l.pos ∧ l.inTemplate = true) OpensTemplate _ further made
  intro state outcome within taken
  split at taken
  · cases taken
    exact .inr ⟨.inr rfl, within.2⟩
  · next inside =>
      simp only [bind_eq_some_iff] at taken
      obtain ⟨c, here, next, _, taken⟩ := taken
      split at taken
      · simp only [bind_eq_some_iff] at taken
        obtain ⟨closed, moved, ⟨u, m⟩, template, taken⟩ := taken
        cases taken
        obtain ⟨type, len, flag⟩ := makeTemplate_made template
        have further := (advance_moves moved).2.1 inside
        refine .inl ⟨type, ?_, flag⟩
        rw [len]
        dsimp only
        omega
      · split at taken
        · simp only [bind_eq_some_iff] at taken
          obtain ⟨first, moved, second, moved', ⟨u, m⟩, template, taken⟩ := taken
          cases taken
          obtain ⟨type, len, flag⟩ := makeTemplate_made template
          refine .inr ⟨.inl type, ?_⟩
          rw [flag, (advance_moves moved').2.2, (advance_moves moved).2.2]
          exact within.2
        · have stays {m : Lexer} (moved : lexer_advance state = some m) :
              lex.pos < m.pos ∧ m.inTemplate = true := by
            have moves := advance_moves moved
            exact ⟨Nat.lt_of_lt_of_le within.1 moves.1, moves.2.2.trans within.2⟩
          split at taken
          · simp only [bind_eq_some_iff] at taken
            obtain ⟨first, moved, second, moved', taken⟩ := taken
            cases taken
            have moves := advance_moves moved'
            have kept := stays moved
            exact ⟨Nat.lt_of_lt_of_le kept.1 moves.1, moves.2.2.trans kept.2⟩
          · simp only [bind_eq_some_iff] at taken
            obtain ⟨first, moved, taken⟩ := taken
            cases taken
            exact stays moved

theorem lex_template_on (on : lex.inTemplate = true) (made : lex_template lex = some (t, l)) :
    t.type = .tokTemplateEnd ∧ t.len < 2 ∧ l.inTemplate = false := by
  have inside := not_atEnd_of_peek backtick (by decide)
  have kept : openTemplate lex = some lex := by
    simp [openTemplate, backtick, on]
  simp only [lex_template, kept, Lexer.loop, loop, if_neg inside, backtick,
    advance_byte backtick inside (by decide), bind_eq_bind, bind_some,
    bind_eq_some_iff, if_true] at made
  obtain ⟨outcome, ⟨next, _, ⟨u, m⟩, template, ends⟩, made⟩ := made
  cases ends
  cases made
  obtain ⟨type, len, flag⟩ := makeTemplate_made template
  refine ⟨type, ?_, flag⟩
  rw [len]
  dsimp only
  omega

theorem lex_template_type (made : lex_template lex = some (t, l)) :
    t.type = .tokTemplateEnd ∨ t.type = .tokTemplate ∨ t.type = .tokError := by
  cases flag : lex.inTemplate with
  | true => exact .inl (lex_template_on backtick flag made).1
  | false =>
    cases lex_template_off backtick flag made with
    | inl whole => exact .inl whole.1
    | inr left_ => exact .inr left_.1

end

theorem lexName_allow (made : lexName lex = some (t, l)) :
    ∃ allowed, l.allowRegexp = regexpAfter t.type allowed := by
  simp only [lexName, bind_eq_bind, bind_eq_some_iff] at made
  obtain ⟨first, _, last, _, name, _, made⟩ := made
  split at made
  · cases made
    exact ⟨last.allowRegexp, rfl⟩
  · cases made
    exact ⟨last.allowRegexp, rfl⟩

theorem findOperator_sound {list : List (String × LRTokType)} {operator : String × LRTokType}
    (found : findOperator lex list = some (some operator)) :
    operator ∈ list ∧ standsAt lex lex.pos (ascii operator.1) = some true := by
  induction list with
  | nil => cases found
  | cons head rest ih =>
    simp only [findOperator, bind_eq_bind, bind_eq_some_iff] at found
    obtain ⟨stands, here, found⟩ := found
    split at found
    · next yes =>
        cases found
        exact ⟨mem_cons_self, by rw [here, yes]⟩
    · obtain ⟨member, stands⟩ := ih found
      exact ⟨mem_cons_of_mem _ member, stands⟩

theorem operators_resumes {text : String} {type : LRTokType} (member : (text, type) ∈ operators)
    (resumes : type.resumes) : text = "(" := by
  have all : ∀ operator ∈ operators, operator.2 = .tokIdentifier ∨ operator.2 = .tokAsync ∨
      operator.2 = .tokImport ∨ operator.2 = .tokLparen → operator.1 = "(" := by
    decide
  exact all (text, type) member resumes

theorem standsAt_head {i : Nat} {c : Char} (stands : standsAt lex i [ch c] = some true) :
    i < lex.src.length ∧ lex.byte i = some (ch c) := by
  simp only [standsAt, bind_eq_bind] at stands
  split at stands
  · next inside =>
      rw [bind_eq_some_iff] at stands
      obtain ⟨byte, here, stands⟩ := stands
      split at stands
      · next same => exact ⟨inside, same ▸ here⟩
      · cases stands
  · cases stands

structure Parenthesis (lex : Lexer) (t : Token) (l : Lexer) : Prop where
  here : lexer_peek_char lex = some (ch '(')
  advance : ∃ m, lexer_advance lex = some m ∧ (t, l) = make_token_from m .tokLparen lex.pos

/-- The one operator among the tokens that a site looks behind is the parenthesis. -/
theorem lexOperator_resumes (made : lexOperator lex = some (t, l)) (resumes : t.type.resumes) :
    Parenthesis lex t l := by
  simp only [lexOperator, bind_eq_bind, bind_eq_some_iff] at made
  obtain ⟨found, search, made⟩ := made
  cases found with
  | none =>
    simp only [bind_eq_some_iff] at made
    obtain ⟨m, _, made⟩ := made
    cases made
    simp [make_error, LRTokType.resumes] at resumes
  | some operator =>
    obtain ⟨text, type⟩ := operator
    obtain ⟨member, stands⟩ := findOperator_sound search
    simp only [bind_eq_some_iff] at made
    obtain ⟨m, moved, made⟩ := made
    have kind : t.type = type := by
      cases made
      rfl
    obtain rfl : text = "(" := operators_resumes member (kind ▸ resumes)
    have paren : type = .tokLparen := by
      have all : ∀ operator ∈ operators, operator.1 = "(" → operator.2 = .tokLparen := by
        decide
      exact all _ member rfl
    have single : ascii "(" = [ch '('] := by decide
    rw [single] at stands
    obtain ⟨inside, here⟩ := standsAt_head stands
    constructor
    · unfold lexer_peek_char
      rw [if_neg (show ¬lex.AtEnd from Nat.not_le_of_lt inside)]
      exact here
    · change (lexer_advance lex).bind some = some m at moved
      rw [bind_fun_some] at moved
      exact ⟨m, moved, paren ▸ (some.inj made).symm⟩

structure Head (c : UInt8) : Prop where
  notZero : c ≠ 0
  notBlank : isBlank c = false
  notSlash : c ≠ ch '/'
  notBacktick : c ≠ ch '`'

theorem Head.of_ident {c : UInt8} (start : is_js_ident_start c = true) : Head c := by
  constructor
  · intro same
    rw [same] at start
    exact absurd start (by decide)
  · apply Bool.eq_false_of_not_eq_true
    intro blank
    simp only [isBlank, Bool.or_eq_true, decide_eq_true_eq] at blank
    obtain ((same | same) | same) | same := blank <;> rw [same] at start <;>
      exact absurd start (by decide)
  · intro same
    rw [same] at start
    exact absurd start (by decide)
  · intro same
    rw [same] at start
    exact absurd start (by decide)

theorem Head.parenthesis : Head (ch '(') := by
  constructor <;> decide

theorem lookup_keyword_ne_lparen (word : List UInt8) : lookup_keyword word ≠ .tokLparen := by
  unfold lookup_keyword
  split
  · next keyword found =>
      have all : ∀ keyword ∈ keywords, keyword.2 ≠ .tokLparen := by decide
      exact all keyword (mem_of_find?_eq_some found)
  · exact LRTokType.noConfusion

theorem lexName_type (made : lexName lex = some (t, l)) : t.type ≠ .tokLparen := by
  simp only [lexName, bind_eq_bind, bind_eq_some_iff] at made
  obtain ⟨first, _, last, _, name, _, made⟩ := made
  split at made <;> cases made
  · exact lookup_keyword_ne_lparen name
  · exact lookup_keyword_ne_lparen name

/-- A token to go back to is a name or a parenthesis: its first character decides that, and
it sets the regexp flag by its own kind. -/
theorem lexToken_resumes (made : lexToken lex = some (t, l)) (resumes : t.type.resumes) :
    (∃ c, lexer_peek_char lex = some c ∧ Head c) ∧
      (∃ allowed, l.allowRegexp = regexpAfter t.type allowed) ∧
        (t.type = .tokLparen → l.line = lex.line) := by
  simp only [lexToken, bind_eq_bind, bind_eq_some_iff] at made
  obtain ⟨c, here, made⟩ := made
  have operator (made : lexOperator lex = some (t, l)) :
      (∃ c, lexer_peek_char lex = some c ∧ Head c) ∧
        (∃ allowed, l.allowRegexp = regexpAfter t.type allowed) ∧
          (t.type = .tokLparen → l.line = lex.line) := by
    obtain ⟨open_, m, moved, token⟩ := lexOperator_resumes made resumes
    rw [advance_byte open_ (not_atEnd_of_peek open_ (by decide)) (by decide)] at moved
    cases moved
    cases token
    exact ⟨⟨_, open_, .parenthesis⟩, ⟨lex.allowRegexp, rfl⟩, fun _ => rfl⟩
  split at made
  · rw [lexPrivateName_type made] at resumes
    exact absurd resumes (by decide)
  · split at made
    · next start =>
        exact ⟨⟨c, here, .of_ident start⟩, lexName_allow made,
          fun parenthesis => absurd parenthesis (lexName_type made)⟩
    · split at made
      · rw [bind_eq_some_iff] at made
        obtain ⟨⟨u, m⟩, number, made⟩ := made
        cases made
        cases lex_number_type number with
        | inl plain =>
          rw [plain] at resumes
          exact absurd resumes (by decide)
        | inr big =>
          rw [big] at resumes
          exact absurd resumes (by decide)
      · split at made
        · cases lex_string_type made with
          | inl string =>
            rw [string] at resumes
            exact absurd resumes (by decide)
          | inr error =>
            rw [error] at resumes
            exact absurd resumes (by decide)
        · split at made
          · next same =>
              have backtick : lexer_peek_char { lex with allowRegexp := true } = some (ch '`') :=
                same ▸ here
              obtain type | type | type := lex_template_type backtick made <;>
                rw [type] at resumes <;> exact absurd resumes (by decide)
          · split at made
            · cases lex_regexp_type made with
              | inl regexp =>
                rw [regexp] at resumes
                exact absurd resumes (by decide)
              | inr error =>
                rw [error] at resumes
                exact absurd resumes (by decide)
            · exact operator made

end Kinds

/-! ## Places and lines -/

def Placed (src : List UInt8) (pos : Nat) : Prop :=
  pos ≤ src.length ∧ ¬Inside src pos

structure Behind (lex l : Lexer) : Prop where
  src : l.src = lex.src
  peek : l.peek = lex.peek
  le : lex.pos ≤ l.pos
  placed : Placed l.src l.pos
  lines : l.line + terminators lex.src lex.pos = lex.line + terminators lex.src l.pos

def Lexer.counted (lex : Lexer) : Lexer :=
  { lex with line := 1 + terminators lex.src lex.pos }

def Distance.lines (x y : Nat) : Distance :=
  ⟨x, y, Eq, Eq, fun _ _ _ same => by rw [same]⟩

section Places

variable {lex l : Lexer} {t : Token}

theorem counted_tracks (placed : Placed lex.src lex.pos) : lex.counted.Tracks :=
  ⟨placed.1, placed.2, rfl⟩

theorem near_counted (ready : lex.peek = none) :
    Near (.lines (1 + terminators lex.src lex.pos) lex.line) lex lex.counted := by
  refine ⟨rfl, rfl, Nat.add_comm _ _, rfl, rfl, ?_⟩
  change Option.Rel _ lex.peek lex.peek
  rw [ready]
  exact .none

theorem behind_of_near {m : Lexer} (ready : lex.peek = none)
    (near : Near (.lines (1 + terminators lex.src lex.pos) lex.line) l m)
    (moves : Moves lex.counted m) : Behind lex l := by
  have src : l.src = lex.src := near.src.symm.trans moves.src
  have peek : l.peek = none := by
    have peeks := near.peek
    rw [moves.peek.trans ready] at peeks
    cases first : l.peek with
    | none => rfl
    | some t =>
      rw [first] at peeks
      cases peeks
  constructor
  · exact src
  · exact peek.trans ready.symm
  · rw [← near.pos]
    exact moves.le
  · rw [← near.src, ← near.pos]
    exact ⟨moves.tracks.bound, moves.tracks.whole⟩
  · have apart : l.line + (1 + terminators lex.src lex.pos) = m.line + lex.line := near.line
    have line := moves.tracks.line
    rw [near.src, near.pos, src] at line
    omega

/-- A call of `lexer_next`, and the place at which the token starts. -/
structure Made (lex : Lexer) (t : Token) (l at_ : Lexer) : Prop where
  gap : lexer_skip_whitespace lex = some at_
  start : Behind lex at_
  behind : Behind lex l
  token : (at_.AtEnd ∧ t = endOfFile at_ ∧ l = at_) ∨ (¬at_.AtEnd ∧
    lexToken at_ = some (t, l) ∧ at_.pos < l.pos ∧
      (t.type ≠ .tokError → t.offset = some at_.pos))

theorem next_made (placed : Placed lex.src lex.pos) (ready : lex.peek = none)
    (made : lexer_next lex = some (t, l)) : ∃ at_, Made lex t l at_ := by
  have near := near_counted ready
  have skips := near.skip_whitespace
  obtain ⟨at', skipped', moves, _⟩ := yields_skip_whitespace (counted_tracks placed)
  rw [skipped'] at skips
  simp only [lexer_next, ready, bind_eq_bind, bind_eq_some_iff] at made
  obtain ⟨at_, skipped, made⟩ := made
  rw [skipped] at skips
  cases skips with
  | some nearer =>
    have start := behind_of_near ready nearer moves
    split at made
    · next atEnd =>
        cases made
        exact ⟨_, skipped, start, start, .inl ⟨atEnd, rfl, rfl⟩⟩
    · next inside =>
        have tokens := nearer.lexToken (fun _ => rfl) (fun _ => rfl) (fun _ => rfl)
        obtain ⟨⟨u, m⟩, lexed', lexes⟩ :=
          yields_lexToken moves.tracks (fun atEnd => inside (nearer.atEnd.mp atEnd))
        rw [made, lexed'] at tokens
        cases tokens with
        | some both =>
          obtain ⟨like, nearest⟩ := both
          have behind := behind_of_near ready nearest (moves.trans lexes.advances.1)
          have further : at_.pos < l.pos := by
            rw [← nearer.pos, ← nearest.pos]
            exact lexes.advances.2
          refine ⟨at_, skipped, start, behind, .inr ⟨inside, made, further, fun proper => ?_⟩⟩
          have span : t.start = .source at_.pos := by
            have start := (lexes.span (like.type ▸ proper)).1
            rwa [like.start, nearer.pos] at start
          simp only [Token.offset, span, if_neg proper]

theorem Made.offset {at_ : Lexer} {offset : Nat} (made : Made lex t l at_)
    (starts : t.offset = some offset) : offset = at_.pos := by
  cases made.token with
  | inl ended =>
    obtain ⟨atEnd, rfl, _⟩ := ended
    have last : at_.src.length = offset := by
      simpa [Token.offset, endOfFile] using starts
    have bound := made.start.placed.1
    have past : at_.src.length ≤ at_.pos := atEnd
    omega
  | inr lexed =>
    by_cases error : t.type = .tokError
    · unfold Token.offset at starts
      split at starts
      · rw [if_pos error] at starts
        cases starts
      · cases starts
    · exact some.inj (starts.symm.trans (lexed.2.2.2 error))

end Places

/-! ## Points that the parser reaches -/

structure Lexer.Sound (src : List UInt8) (lex : Lexer) : Prop where
  same : lex.src = src
  placed : Placed src lex.pos
  held : ∀ t, lex.peek = some t →
    ∃ before at_, before.src = src ∧ before.peek = none ∧
      Made before t { lex with peek := none } at_

structure Reading.Sound (src : List UInt8) (s : Reading) : Prop where
  lexer : s.lexer.Sound src
  marks : ∀ pos ∈ s.marks, Placed src pos
  saved : ∀ lex ∈ s.saved, lex.Sound src

section Sound

variable {src : List UInt8} {lex l : Lexer} {t : Token}

theorem Lexer.Sound.of_placed (same : lex.src = src) (placed : Placed src lex.pos)
    (ready : lex.peek = none) : lex.Sound src :=
  ⟨same, placed, fun t held => by rw [ready] at held; cases held⟩

theorem Lexer.Sound.next (sound : lex.Sound src) (made : lexer_next lex = some (t, l)) :
    l.Sound src := by
  cases ready : lex.peek with
  | none =>
    obtain ⟨at_, made⟩ := next_made (sound.same ▸ sound.placed) ready made
    have same := made.behind.src.trans sound.same
    exact .of_placed same (same ▸ made.behind.placed) (made.behind.peek.trans ready)
  | some held =>
    simp only [lexer_next, ready, some.injEq, Prod.mk.injEq] at made
    obtain ⟨_, rfl⟩ := made
    exact .of_placed sound.same sound.placed rfl

theorem Lexer.Sound.peek (sound : lex.Sound src) (made : lexer_peek lex = some (t, l)) :
    l.Sound src := by
  cases ready : lex.peek with
  | none =>
    simp only [lexer_peek, ready, bind_eq_bind, bind_eq_some_iff] at made
    obtain ⟨⟨u, m⟩, next, made⟩ := made
    obtain ⟨at_, whole⟩ := next_made (sound.same ▸ sound.placed) ready next
    have same := whole.behind.src.trans sound.same
    cases made
    refine ⟨same, same ▸ whole.behind.placed, fun t held => ⟨lex, at_, sound.same, ready, ?_⟩⟩
    cases held
    have dropped : ({ m with peek := none } : Lexer) = m := by
      rw [← whole.behind.peek.trans ready]
    exact dropped.symm ▸ whole
  | some held =>
    simp only [lexer_peek, ready, some.injEq, Prod.mk.injEq] at made
    obtain ⟨_, rfl⟩ := made
    exact sound

theorem template_behind (placed : Placed lex.src lex.pos)
    (made : lex.templateNext = some (t, l)) : lex.peek = none ∧ Behind lex l := by
  unfold Lexer.templateNext at made
  split at made
  · next ready =>
      rw [isNone_iff_eq_none] at ready
      refine ⟨ready, ?_⟩
      by_cases atEnd : lex.AtEnd
      · have zero : lexer_peek_char lex = some 0 := if_pos atEnd
        have other : (0 : UInt8) ≠ ch '`' := by decide
        have kept : openTemplate lex = some lex := by
          simp [openTemplate, zero, other]
        simp only [lexer_template_next, lex_template, kept, Lexer.loop, Guarded.loop, if_pos atEnd,
          bind_eq_bind, bind_some, some.injEq] at made
        obtain rfl : (unterminated lex lex.pos "unterminated template literal" 28).2 = l :=
          congrArg Prod.snd made
        exact ⟨rfl, rfl, Nat.le_refl _, placed, rfl⟩
      · have tokens := (near_counted ready).lex_template rfl
        obtain ⟨⟨u, m⟩, lexed, lexes⟩ := yields_lex_template (counted_tracks placed) atEnd
        change lex_template lex = some (t, l) at made
        rw [made, lexed] at tokens
        cases tokens with
        | some both => exact behind_of_near ready both.2 lexes.advances.1
  · cases made

theorem Lexer.Sound.template (sound : lex.Sound src)
    (made : lex.templateNext = some (t, l)) : l.Sound src := by
  obtain ⟨ready, behind⟩ := template_behind (sound.same ▸ sound.placed) made
  have same := behind.src.trans sound.same
  exact .of_placed same (same ▸ behind.placed) (behind.peek.trans ready)

/-- Every reader keeps a sound reading sound. -/
theorem Reader.run_sound {α : Type} (reader : Reader α) {s s' : Reading} {result : α}
    (sound : s.Sound src) (ran : reader.run s = some (result, s')) : s'.Sound src := by
  induction reader generalizing s with
  | done value =>
    cases ran
    exact sound
  | next rest ih =>
    simp only [run, bind_eq_bind, bind_eq_some_iff] at ran
    obtain ⟨⟨t, lexer⟩, made, ran⟩ := ran
    refine ih _ ?_ ran
    exact ⟨sound.lexer.next made, sound.marks, sound.saved⟩
  | peek rest ih =>
    simp only [run, bind_eq_bind, bind_eq_some_iff] at ran
    obtain ⟨⟨t, lexer⟩, made, ran⟩ := ran
    refine ih _ ?_ ran
    exact ⟨sound.lexer.peek made, sound.marks, sound.saved⟩
  | templateNext rest ih =>
    simp only [run, bind_eq_bind, bind_eq_some_iff] at ran
    obtain ⟨⟨t, lexer⟩, made, ran⟩ := ran
    refine ih _ ?_ ran
    exact ⟨sound.lexer.template made, sound.marks, sound.saved⟩
  | position rest ih => exact ih _ sound ran
  | markToken rest ih =>
    simp only [run, bind_eq_bind, bind_eq_some_iff] at ran
    obtain ⟨t, held, offset, starts, ran⟩ := ran
    refine ih ?_ ran
    refine ⟨sound.lexer, fun pos member => ?_, sound.saved⟩
    cases mem_cons.mp member with
    | inl here =>
      obtain ⟨before, at_, same, _, made⟩ := sound.lexer.held t held
      have placed := made.start.placed
      rw [made.start.src, same, ← made.offset starts] at placed
      exact here ▸ placed
    | inr below => exact sound.marks pos below
  | markPosition rest ih =>
    refine ih ?_ ran
    refine ⟨sound.lexer, fun pos member => ?_, sound.saved⟩
    cases mem_cons.mp member with
    | inl here => exact here ▸ sound.lexer.placed
    | inr below => exact sound.marks pos below
  | rewind rest ih =>
    simp only [run] at ran
    split at ran
    · next pos marks found =>
        have placed := sound.marks pos (found ▸ mem_cons_self)
        refine ih ?_ ran
        refine ⟨?_, fun pos member => ?_, sound.saved⟩
        · exact .of_placed sound.lexer.same placed rfl
        · exact sound.marks pos (found ▸ mem_cons_of_mem _ member)
    · cases ran
  | forget rest ih =>
    refine ih ?_ ran
    exact ⟨sound.lexer, fun pos member => sound.marks pos (mem_of_mem_tail member),
      sound.saved⟩
  | save rest ih =>
    refine ih ?_ ran
    refine ⟨sound.lexer, sound.marks, fun lex member => ?_⟩
    cases mem_cons.mp member with
    | inl here => exact here ▸ sound.lexer
    | inr below => exact sound.saved lex below
  | restore rest ih =>
    simp only [run] at ran
    split at ran
    · next lexer saved found =>
        refine ih ?_ ran
        refine ⟨?_, sound.marks, fun lex member => ?_⟩
        · exact sound.saved lexer (found ▸ mem_cons_self)
        · exact sound.saved lex (found ▸ mem_cons_of_mem _ member)
    · cases ran
  | discard rest ih =>
    refine ih ?_ ran
    exact ⟨sound.lexer, sound.marks, fun lex member =>
      sound.saved lex (mem_of_mem_tail member)⟩

theorem Reachable.sound {s : Reading} (reachable : Reachable src s) : s.Sound src := by
  obtain ⟨reader, ran⟩ := reachable
  apply reader.run_sound _ ran
  have placed : Placed src 0 :=
    ⟨Nat.zero_le _, fun inside => absurd inside.1 (Nat.lt_irrefl 0)⟩
  exact ⟨.of_placed rfl placed rfl, fun pos member => (by cases member),
    fun lex member => (by cases member)⟩

end Sound

/-! ## Reading a token again -/

def Distance.reread (a b : Lexer) : Distance :=
  ⟨b.line, a.line, fun _ _ => True, fun p q => p = a.inTemplate ∧ q = b.inTemplate,
    fun _ _ _ _ => trivial⟩

section Reread

variable {lex l after at_ before gap : Lexer} {t n : Token}

theorem skip_head {c : UInt8} (here : lexer_peek_char lex = some c) (head : Head c) :
    lexer_skip_whitespace lex = some lex := by
  obtain ⟨next, found, _⟩ := yields_peek_char_next lex
  simp [lexer_skip_whitespace, Lexer.loop, loop, here, found, head.notZero, head.notBlank,
    head.notSlash]

theorem regexpAfter_resumes {type : LRTokType} (resumes : type.resumes) (p q : Bool) :
    regexpAfter type p = regexpAfter type q := by
  obtain rfl | rfl | rfl | rfl := resumes <;> rfl

/-- A token that the parser goes back to is read again, with the line and the template flag
that the lexer has by then. -/
theorem reread (made : Made before t { lex with peek := none } at_) (ready : before.peek = none)
    (resumes : t.type.resumes) (src : after.src = at_.src) (pos : after.pos = at_.pos)
    (dropped : after.peek = none) :
    ∃ t' m, lexer_next after = some (t', m) ∧ t.Like after.line at_.line t' ∧
      Near (.reread at_ after) { lex with peek := none } m ∧
        m.allowRegexp = lex.allowRegexp := by
  have near : Near (.reread at_ after) at_ after := by
    refine ⟨src, pos, Nat.add_comm _ _, trivial, ⟨rfl, rfl⟩, ?_⟩
    rw [made.start.peek, ready, dropped]
    exact .none
  cases made.token with
  | inl ended =>
    obtain ⟨_, rfl, _⟩ := ended
    exact absurd resumes (show ¬LRTokType.tokEof.resumes by decide)
  | inr lexed =>
    obtain ⟨inside, token, _⟩ := lexed
    obtain ⟨⟨c, here, head⟩, ⟨allowed, allow⟩, _⟩ := lexToken_resumes token resumes
    have tokens := near.lexToken (fun _ => trivial)
      (fun backtick => absurd (some.inj (here.symm.trans backtick)) head.notBacktick)
      (fun slash => absurd (some.inj (here.symm.trans slash)) head.notSlash)
    rw [token] at tokens
    cases again : lexToken after with
    | none =>
      rw [again] at tokens
      cases tokens
    | some found =>
      obtain ⟨t', m⟩ := found
      rw [again] at tokens
      cases tokens with
      | some both =>
        obtain ⟨like, nearer⟩ := both
        have type : t'.type = t.type := like.type
        obtain ⟨_, ⟨allowed', allow'⟩, _⟩ := lexToken_resumes again (type ▸ resumes)
        refine ⟨t', m, ?_, like, nearer, ?_⟩
        · simp only [lexer_next, dropped, skip_head (near.peek_char.trans here) head,
            bind_eq_bind, bind_some]
          rw [if_neg (fun atEnd => inside (near.atEnd.mp atEnd))]
          exact again
        · rw [allow', type]
          exact (regexpAfter_resumes resumes _ _).trans allow.symm

variable {s : Reading}

theorem peek_run {α : Type} (rest : Token → Reader α) :
    (Reader.peek rest).run s =
      (lexer_peek s.lexer).bind fun r => (rest r.1.seen).run { s with lexer := r.2 } :=
  rfl

theorem lexer_peek_held (held : lex.peek = some t) : lexer_peek lex = some (t, lex) := by
  simp only [lexer_peek, held]

theorem lexer_peek_read (ready : lex.peek = none) (read : lexer_next lex = some (t, l)) :
    lexer_peek lex = some (t, { l with peek := some t }) := by
  simp [lexer_peek, ready, read]

theorem sameReadings_of_reread (held : s.lexer.peek = some t)
    (made : Made before t { s.lexer with peek := none } at_) (ready : before.peek = none)
    (resumes : t.type.resumes) (src : after.src = at_.src) (pos : after.pos = at_.pos)
    (dropped : after.peek = none) (line : after.line = at_.line)
    (flag : after.inTemplate = s.lexer.inTemplate) : SameReadings { s with lexer := after } s := by
  obtain ⟨t', m, again, like, near, allow⟩ := reread made ready resumes src pos dropped
  intro α rest
  have alike : t.Like 0 0 t' := by
    obtain ⟨type, start, len, numVal, bigintVal, strVal, lines⟩ := like
    exact ⟨type, start, len, numVal, bigintVal, strVal, by omega⟩
  have lines : s.lexer.line + after.line = m.line + at_.line := near.line
  have nearer : ({ s with lexer := { m with peek := some t' } } : Reading).Near s := by
    refine ⟨⟨near.src.symm, near.pos.symm, ?_, allow, ?_, ?_⟩, rfl, ?_⟩
    · change m.line + 0 = s.lexer.line + 0
      omega
    · exact near.template.2.trans flag
    · rw [held]
      refine .some ⟨alike.type.symm, alike.start.symm, alike.len.symm, alike.numVal.symm,
        alike.bigintVal.symm, alike.strVal.symm, alike.line.symm⟩
    · exact forall₂_same.mpr fun lex _ => Near.refl lex
  rw [peek_run, peek_run, lexer_peek_held held, lexer_peek_read dropped again,
    bind_some, bind_some, alike.seen]
  exact result_eq (run_near (rest t.seen) nearer)

/-! ## What the lookahead leaves -/

theorem lexToken_backtick (backtick : lexer_peek_char gap = some (ch '`')) :
    lexToken gap = lex_template { gap with allowRegexp := true } := by
  have name : is_js_ident_start (ch '`') = false := by decide
  have digit : isDigit (ch '`') = false := by decide
  simp only [lexToken, backtick, name, digit, bind_eq_bind, bind_some,
    Bool.false_eq_true, if_false, if_true]
  rw [if_neg (by decide), if_neg (by decide)]

def Distance.constant (flag : Bool) : Distance :=
  ⟨0, 0, Eq, fun p _ => p = flag, fun _ _ _ same => by rw [same]⟩

theorem near_constant (ready : lex.peek = none) : Near (.constant lex.inTemplate) lex lex := by
  refine ⟨rfl, rfl, rfl, rfl, rfl, ?_⟩
  rw [ready]
  exact .none

theorem gap_flag (ready : lex.peek = none) (skipped : lexer_skip_whitespace lex = some gap) :
    gap.inTemplate = lex.inTemplate := by
  have same := (near_constant ready).skip_whitespace
  rw [skipped] at same
  cases same with
  | some near => exact near.template

theorem token_flag (ready : gap.peek = none) (read : lexToken gap = some (n, l))
    (other : lexer_peek_char gap ≠ some (ch '`')) : l.inTemplate = gap.inTemplate := by
  have same := (near_constant ready).lexToken (fun _ => rfl)
    (fun backtick => absurd backtick other) (fun _ => rfl)
  rw [read] at same
  cases same with
  | some both => exact both.2.template

/-- The next token leaves the template flag unless it is a template that is left open, or one
that closes another. -/
theorem flag_kept_iff (ready : lex.peek = none) (made : Made lex n l gap) :
    l.inTemplate = lex.inTemplate ↔
      (lexer_peek_char gap = some (ch '`') →
        lex.inTemplate = false ∧ n.type = .tokTemplateEnd) := by
  have flag := gap_flag ready made.gap
  have dropped : gap.peek = none := made.start.peek.trans ready
  cases made.token with
  | inl ended =>
    obtain ⟨atEnd, _, rfl⟩ := ended
    refine ⟨fun _ backtick => ?_, fun _ => flag⟩
    exact absurd atEnd (not_atEnd_of_peek backtick (by decide))
  | inr lexed =>
    by_cases backtick : lexer_peek_char gap = some (ch '`')
    · have template := lexed.2.1
      rw [lexToken_backtick backtick] at template
      have here : lexer_peek_char { gap with allowRegexp := true } = some (ch '`') := backtick
      cases on : lex.inTemplate with
      | true =>
        have closes := lex_template_on here (flag.trans on) template
        rw [closes.2.2]
        exact ⟨fun same => (by cases same), fun quiet => (by cases (quiet backtick).1)⟩
      | false =>
        cases lex_template_off here (flag.trans on) template with
        | inl whole => exact ⟨fun _ _ => ⟨rfl, whole.1⟩, fun _ => whole.2.2⟩
        | inr left_ =>
          rw [show l.inTemplate = true from left_.2]
          refine ⟨fun same => (by cases same), fun quiet => ?_⟩
          obtain type | type := left_.1 <;>
            cases type.symm.trans (quiet backtick).2
    · rw [token_flag dropped lexed.2.1 backtick]
      exact ⟨fun _ here => absurd here backtick, fun _ => flag⟩

theorem line_of_sameReadings (held : s.lexer.peek = some t)
    (dropped : after.peek = none) {t' : Token} {m : Lexer}
    (again : lexer_next after = some (t', m)) (like : t.Like after.line at_.line t')
    (same : SameReadings { s with lexer := after } s) : after.line = at_.line := by
  have lines := same Nat fun t => .done t.line
  rw [peek_run, peek_run, lexer_peek_held held, lexer_peek_read dropped again] at lines
  have line : t'.line = t.line := some.inj lines
  have apart := like.line
  omega

theorem template_kinds_ne {a b l' : Lexer} (here : lexer_peek_char a = some (ch '`'))
    (on : a.inTemplate = true) (made : lex_template { a with allowRegexp := true } = some (t, l))
    (here' : lexer_peek_char b = some (ch '`')) (off : b.inTemplate = false)
    (made' : lex_template { b with allowRegexp := true } = some (n, l')) :
    ¬(t.type = n.type ∧ t.len = n.len) := by
  intro same
  have here : lexer_peek_char { a with allowRegexp := true } = some (ch '`') := here
  have here' : lexer_peek_char { b with allowRegexp := true } = some (ch '`') := here'
  have closes := lex_template_on here on made
  cases lex_template_off here' off made' with
  | inl whole =>
    have longer : 2 ≤ n.len := whole.2.1
    omega
  | inr left_ =>
    obtain type | type := left_.1 <;>
      cases (closes.1.symm.trans same.1).trans type

def secondKind : Reader (LRTokType × Nat) :=
  .peek fun _ => .next fun _ => .peek fun n => .done (n.type, n.len)

theorem secondKind_run (first : lexer_peek s.lexer = some (t, lex)) (held : lex.peek = some t) :
    (secondKind.run s).map Prod.fst =
      (lexer_next { lex with peek := none }).map fun r => (r.1.type, r.1.len) := by
  have next : lexer_next lex = some (t, { lex with peek := none }) := by
    simp only [lexer_next, held]
  have run : secondKind.run s = (lexer_peek { lex with peek := none }).bind fun r =>
      some ((r.1.type, r.1.len), { s with lexer := r.2 }) := by
    rw [secondKind, peek_run, first, bind_some]
    change (lexer_next lex).bind _ = _
    rw [next]
    rfl
  rw [run]
  cases read : lexer_next { lex with peek := none } with
  | none =>
    have nothing : lexer_peek { lex with peek := none } = none := by
      change (lexer_next { lex with peek := none }).bind _ = none
      rw [read]
      rfl
    rw [nothing]
    rfl
  | some r =>
    rw [lexer_peek_read rfl read]
    rfl

/-- A token that is read again alike leaves the template flag. -/
theorem flag_of_sameReadings (held : s.lexer.peek = some t)
    (dropped : after.peek = none) {t' : Token} {m : Lexer} (again : lexer_next after = some (t', m))
    (near : Near (.reread at_ after) { s.lexer with peek := none } m)
    (made : Made { s.lexer with peek := none } n l gap) (flag : after.inTemplate = l.inTemplate)
    (read : lexer_next { s.lexer with peek := none } = some (n, l))
    (same : SameReadings { s with lexer := after } s) : l.inTemplate = s.lexer.inTemplate := by
  by_contra changed
  have ready : ({ s.lexer with peek := none } : Lexer).peek = none := rfl
  have cleared : m.peek = none := by
    have peeks := near.peek
    cases first : m.peek with
    | none => rfl
    | some u =>
      rw [first] at peeks
      cases peeks
  -- the lookahead has read a template
  have backtick : lexer_peek_char gap = some (ch '`') := by
    by_contra other
    exact changed ((flag_kept_iff ready made).mpr fun here => absurd here other)
  have kinds := same _ fun _ => .next fun _ => .peek fun n => .done (n.type, n.len)
  change (secondKind.run { s with lexer := after }).map Prod.fst =
    (secondKind.run s).map Prod.fst at kinds
  rw [secondKind_run (lexer_peek_read dropped again) rfl,
    secondKind_run (lexer_peek_held held) held, read] at kinds
  have whole : ({ { m with peek := some t' } with peek := none } : Lexer) = m := by
    rw [← cleared]
  rw [whole] at kinds
  cases second : lexer_next m with
  | none =>
    rw [second] at kinds
    cases kinds
  | some found =>
    obtain ⟨n', l'⟩ := found
    rw [second] at kinds
    obtain ⟨type, len⟩ := Prod.mk.inj (some.inj kinds)
    have skips := near.skip_whitespace
    rw [made.gap] at skips
    cases skipped : lexer_skip_whitespace m with
    | none =>
      rw [skipped] at skips
      cases skips
    | some gap' =>
      rw [skipped] at skips
      cases skips with
      | some nearer =>
        have inside := not_atEnd_of_peek backtick (by decide)
        have here : lexer_peek_char gap' = some (ch '`') :=
          nearer.peek_char.trans backtick
        have template : lex_template { gap' with allowRegexp := true } = some (n', l') := by
          simp only [lexer_next, cleared, skipped, bind_eq_bind,
            bind_some] at second
          rw [if_neg (fun atEnd => inside (nearer.atEnd.mp atEnd))] at second
          exact (lexToken_backtick here).symm.trans second
        have first : lex_template { gap with allowRegexp := true } = some (n, l) := by
          cases made.token with
          | inl ended => exact absurd ended.1 inside
          | inr lexed => exact (lexToken_backtick backtick).symm.trans lexed.2.1
        have before : gap.inTemplate = ({ s.lexer with peek := none } : Lexer).inTemplate :=
          gap_flag ready made.gap
        have behind : gap'.inTemplate = l.inTemplate := nearer.template.2.trans flag
        cases on : gap.inTemplate with
        | true =>
          have off : gap'.inTemplate = false := by
            rw [behind]
            exact Bool.eq_false_of_not_eq_true
              fun same => changed (same.trans (before ▸ on).symm)
          exact template_kinds_ne backtick on first here off template ⟨type.symm, len.symm⟩
        | false =>
          have on' : gap'.inTemplate = true := by
            rw [behind]
            exact Bool.eq_true_of_not_eq_false
              fun same => changed (same.trans (before ▸ on).symm)
          exact template_kinds_ne here on' template backtick on first ⟨type, len⟩

end Reread

/-! ## The places that look ahead -/

section Sites

variable {src : List UInt8} {s after : Reading} {site : Site} {t : Token}

theorem behind_run {goes back : Reader Bool} {b : Bool} (held : s.lexer.peek = some t)
    (ran : (site.behind goes back).run s = some (b, after)) :
    ∃ n l, lexer_next { s.lexer with peek := none } = some (n, l) ∧
      (if site.goesOn n.type then goes else back).run
        { s with lexer := { l with peek := some n } } = some (b, after) := by
  have next : lexer_next s.lexer = some (t, { s.lexer with peek := none }) := by
    simp only [lexer_next, held]
  change (lexer_next s.lexer).bind _ = _ at ran
  rw [next, bind_some, peek_run] at ran
  cases read : lexer_next { s.lexer with peek := none } with
  | none =>
    have nothing : lexer_peek { s.lexer with peek := none } = none := by
      change (lexer_next { s.lexer with peek := none }).bind _ = none
      rw [read]
      rfl
    rw [nothing] at ran
    cases ran
  | some r =>
    obtain ⟨n, l⟩ := r
    rw [lexer_peek_read rfl read] at ran
    exact ⟨n, l, rfl, ran⟩

theorem look_token (memory : site.memory = .token) (held : s.lexer.peek = some t)
    (looked : site.look.run s = some (true, after)) :
    ∃ start n l, t.offset = some start ∧
      lexer_next { s.lexer with peek := none } = some (n, l) ∧
        after = { s with lexer := l.rewind start } := by
  simp only [Site.look, memory] at looked
  change s.lexer.peek.bind _ = _ at looked
  rw [held, bind_some] at looked
  cases starts : t.offset with
  | none =>
    rw [starts] at looked
    cases looked
  | some start =>
    rw [starts] at looked
    obtain ⟨n, l, read, ends⟩ := behind_run (by exact held) looked
    refine ⟨start, n, l, rfl, read, ?_⟩
    split at ends <;> cases ends
    rfl

theorem look_position (memory : site.memory = .position) (held : s.lexer.peek = some t)
    (looked : site.look.run s = some (true, after)) :
    ∃ n l, lexer_next { s.lexer with peek := none } = some (n, l) ∧
      after = { s with lexer := l.rewind s.lexer.pos } := by
  simp only [Site.look, memory] at looked
  obtain ⟨n, l, read, ends⟩ := behind_run (by exact held) looked
  refine ⟨n, l, read, ?_⟩
  split at ends <;> cases ends
  rfl

theorem look_state (memory : site.memory = .state) (held : s.lexer.peek = some t)
    (looked : site.look.run s = some (true, after)) : after = s := by
  simp only [Site.look, memory] at looked
  obtain ⟨n, l, read, ends⟩ := behind_run (by exact held) looked
  split at ends <;> cases ends
  rfl

theorem begins_resumes (memory : site.memory = .token) (begins : site.begins t.type = true) :
    t.type.resumes := by
  cases site <;> simp [Site.memory] at memory <;>
    simp [Site.begins] at begins <;> simp [LRTokType.resumes, begins]

theorem begins_async (memory : site.memory = .position) (begins : site.begins t.type = true) :
    t.type = .tokAsync := by
  cases site <;> simp [Site.memory] at memory <;> simpa [Site.begins] using begins

/-- A site that keeps the token reads alike exactly if it is quiet behind it. -/
theorem token_exact (sound : s.Sound src) (memory : site.memory = .token)
    (held : s.lexer.peek = some t) (begins : site.begins t.type = true)
    (looked : site.look.run s = some (true, after)) :
    SameReadings after s ↔ QuietBehind s.lexer := by
  obtain ⟨start, n, l, starts, read, rfl⟩ := look_token memory held looked
  obtain ⟨before, at_, same, ready, made⟩ := sound.lexer.held t held
  obtain rfl : start = at_.pos := made.offset starts
  have resumes := begins_resumes memory begins
  have placed : Placed s.lexer.src s.lexer.pos := sound.lexer.same ▸ sound.lexer.placed
  obtain ⟨gap, next⟩ := next_made (by exact placed) rfl read
  have source : l.src = s.lexer.src := next.behind.src
  have source' : before.src = s.lexer.src := same.trans sound.lexer.same.symm
  have source₂ : (l.rewind at_.pos).src = at_.src :=
    source.trans (source'.symm.trans made.start.src.symm)
  obtain ⟨t', m, again, like, near, allow⟩ := reread made ready resumes source₂ rfl rfl
  have lines : l.line = at_.line ↔
      terminators s.lexer.src l.pos = terminators s.lexer.src at_.pos := by
    have first : s.lexer.line + terminators before.src before.pos =
      before.line + terminators before.src s.lexer.pos := made.behind.lines
    have second : l.line + terminators s.lexer.src s.lexer.pos =
      s.lexer.line + terminators s.lexer.src l.pos := next.behind.lines
    have third := made.start.lines
    rw [source'] at first third
    omega
  have flag := flag_kept_iff rfl next
  constructor
  · intro readings t₁ start₁ gap₁ n₁ l₁ held₁ starts₁ skipped₁ read₁
    obtain rfl : t = t₁ := some.inj (held.symm.trans held₁)
    obtain rfl : at_.pos = start₁ := some.inj (starts.symm.trans starts₁)
    obtain rfl : gap = gap₁ := some.inj (next.gap.symm.trans skipped₁)
    obtain ⟨rfl, rfl⟩ := Prod.mk.inj (some.inj (read.symm.trans read₁))
    have line := line_of_sameReadings held rfl again like readings
    exact ⟨lines.mp line, flag.mp (flag_of_sameReadings held rfl again near next rfl read readings)⟩
  · intro quiet
    obtain ⟨passed, template⟩ := quiet t at_.pos gap n l held starts next.gap read
    exact sameReadings_of_reread held made ready resumes source₂ rfl rfl (lines.mpr passed)
      (flag.mpr template)

/-- A site that keeps the position loses the peeked token. -/
theorem position_drops (sound : s.Sound src) (memory : site.memory = .position)
    (held : s.lexer.peek = some t) (begins : site.begins t.type = true)
    (looked : site.look.run s = some (true, after)) : ¬SameReadings after s := by
  obtain ⟨n, l, read, rfl⟩ := look_position memory held looked
  obtain ⟨before, at_, same, ready, made⟩ := sound.lexer.held t held
  have async : t.type = .tokAsync := begins_async memory begins
  -- the token lies before the position
  have starts : t.offset = some at_.pos ∧ at_.pos < s.lexer.pos := by
    cases made.token with
    | inl ended =>
      obtain ⟨_, rfl, _⟩ := ended
      cases async
    | inr lexed =>
      refine ⟨lexed.2.2.2 ?_, lexed.2.2.1⟩
      rw [async]
      exact LRTokType.noConfusion
  intro readings
  have seen := readings _ fun t => .done (t.type, t.offset)
  rw [peek_run, peek_run, lexer_peek_held held] at seen
  cases again : lexer_next (l.rewind s.lexer.pos) with
  | none =>
    have nothing : lexer_peek (l.rewind s.lexer.pos) = none := by
      change (lexer_next (l.rewind s.lexer.pos)).bind _ = none
      rw [again]
      rfl
    rw [nothing] at seen
    cases seen
  | some found =>
    obtain ⟨t', m⟩ := found
    rw [lexer_peek_read rfl again] at seen
    obtain ⟨type, offset⟩ := Prod.mk.inj (some.inj seen)
    have placed : Placed s.lexer.src s.lexer.pos := sound.lexer.same ▸ sound.lexer.placed
    obtain ⟨gap, next⟩ := next_made (by exact placed) rfl read
    have placed' : Placed (l.rewind s.lexer.pos).src (l.rewind s.lexer.pos).pos :=
      next.behind.src.symm ▸ placed
    obtain ⟨at', made'⟩ := next_made placed' rfl again
    have start : t'.offset = some at_.pos := offset.trans starts.1
    have further : s.lexer.pos ≤ at'.pos := made'.start.le
    have first := made'.offset start
    omega

theorem Behind.line_kept {lex l : Lexer} (behind : Behind lex l) (passes : Passes lex l) :
    l.line = lex.line := by
  have lines := behind.lines
  have same : terminators lex.src l.pos = terminators lex.src lex.pos := passes
  omega

theorem Lexer.Sound.next_line {lex l : Lexer} (sound : lex.Sound src)
    (made : lexer_next lex = some (t, l)) (passes : Passes lex l) : l.line = lex.line := by
  cases ready : lex.peek with
  | none =>
    obtain ⟨at_, made⟩ := next_made (sound.same ▸ sound.placed) ready made
    exact made.behind.line_kept passes
  | some held =>
    simp only [lexer_next, ready, some.injEq, Prod.mk.injEq] at made
    rw [← made.2]

theorem Lexer.Sound.peek_line {lex l : Lexer} (sound : lex.Sound src)
    (made : lexer_peek lex = some (t, l)) (passes : Passes lex l) : l.line = lex.line := by
  cases ready : lex.peek with
  | none =>
    simp only [lexer_peek, ready, bind_eq_bind, bind_eq_some_iff] at made
    obtain ⟨⟨u, m⟩, next, made⟩ := made
    cases made
    have line : m.line = lex.line := sound.next_line next passes
    exact line
  | some held =>
    simp only [lexer_peek, ready, some.injEq, Prod.mk.injEq] at made
    rw [← made.2]

/-- A calm reader stays on its line. -/
theorem Reader.calm_line {α : Type} (reader : Reader α) {s s' : Reading} {result : α} {line : Nat}
    (sound : s.Sound src) (calm : reader.Calm s) (here : s.lexer.line = line)
    (saves : ∀ lex ∈ s.saved, lex.line = line) (ran : reader.run s = some (result, s')) :
    s'.lexer.line = line := by
  induction reader generalizing s with
  | done value =>
    cases ran
    exact here
  | next rest ih =>
    simp only [run, bind_eq_bind, bind_eq_some_iff] at ran
    obtain ⟨⟨t, lexer⟩, made, ran⟩ := ran
    obtain ⟨passes, calm⟩ := calm t lexer made
    apply ih _ _ calm _ saves ran
    · exact ⟨sound.lexer.next made, sound.marks, sound.saved⟩
    · exact (sound.lexer.next_line made passes).trans here
  | peek rest ih =>
    simp only [run, bind_eq_bind, bind_eq_some_iff] at ran
    obtain ⟨⟨t, lexer⟩, made, ran⟩ := ran
    obtain ⟨passes, calm⟩ := calm t lexer made
    apply ih _ _ calm _ saves ran
    · exact ⟨sound.lexer.peek made, sound.marks, sound.saved⟩
    · exact (sound.lexer.peek_line made passes).trans here
  | templateNext rest ih =>
    simp only [run, bind_eq_bind, bind_eq_some_iff] at ran
    obtain ⟨⟨t, lexer⟩, made, ran⟩ := ran
    obtain ⟨passes, calm⟩ := calm t lexer made
    have behind := (template_behind (sound.lexer.same ▸ sound.lexer.placed) made).2
    apply ih _ _ calm _ saves ran
    · exact ⟨sound.lexer.template made, sound.marks, sound.saved⟩
    · exact (behind.line_kept passes).trans here
  | position rest ih => exact ih _ sound calm here saves ran
  | markToken rest ih =>
    simp only [run, bind_eq_bind, bind_eq_some_iff] at ran
    obtain ⟨t, held, offset, starts, ran⟩ := ran
    have ran' : (markToken (.done ())).run s =
        some ((), { s with marks := offset :: s.marks }) := by
      simp [run, held, starts]
    exact ih (run_sound _ sound ran') (calm t offset held starts) here
      saves ran
  | markPosition rest ih =>
    exact ih (run_sound (.markPosition (.done ())) sound rfl) calm here
      saves ran
  | rewind rest ih =>
    simp only [run] at ran
    split at ran
    · next pos marks found =>
        have ran' : (rewind (.done ())).run s =
            some ((), { s with lexer := s.lexer.rewind pos, marks }) := by
          simp only [run, found]
        exact ih (run_sound _ sound ran') (calm pos marks found) here
          saves ran
    · cases ran
  | forget rest ih =>
    exact ih (run_sound (.forget (.done ())) sound rfl) calm here saves
      ran
  | save rest ih =>
    apply ih (run_sound (.save (.done ())) sound rfl) calm here _ ran
    intro lex member
    cases mem_cons.mp member with
    | inl head => exact head ▸ here
    | inr below => exact saves lex below
  | restore rest ih =>
    simp only [run] at ran
    split at ran
    · next lexer saved found =>
        have ran' : (restore (.done ())).run s =
            some ((), { s with lexer, saved }) := by
          simp only [run, found]
        apply ih (run_sound _ sound ran') (calm lexer saved found) _ _ ran
        · exact saves lexer (found ▸ mem_cons_self)
        · intro lex member
          exact saves lex (found ▸ mem_cons_of_mem _ member)
    · cases ran
  | discard rest ih =>
    apply ih (run_sound (.discard (.done ())) sound rfl) calm here _ ran
    intro lex member
    exact saves lex (mem_of_mem_tail member)

theorem arrow_exact {parse : Reader Bool} (sound : s.Sound src) (held : s.lexer.peek = some t)
    (parenthesis : t.type = .tokLparen) (looked : lookArrow parse s = some (true, after))
    (quiet : QuietArrow parse s) : SameReadings after s := by
  simp only [lookArrow, held, bind_eq_bind, bind_some,
    bind_eq_some_iff] at looked
  obtain ⟨offset, starts, ⟨isArrow, tried⟩, ran, ends⟩ := looked
  have goes : after = { s with lexer := tried.lexer.rewind offset } := by
    split at ends <;> cases ends
    rfl
  subst goes
  obtain ⟨before, at_, same, ready, made⟩ := sound.lexer.held t held
  obtain rfl : offset = at_.pos := made.offset starts
  have bare : ({ s with marks := [], saved := [] } : Reading).Sound src :=
    ⟨sound.lexer, fun pos member => (by cases member), fun lex member => (by cases member)⟩
  have source : (tried.lexer.rewind at_.pos).src = at_.src := by
    change tried.lexer.src = at_.src
    rw [(run_sound parse bare ran).lexer.same, made.start.src, same]
  have resumes : t.type.resumes := .inr (.inr (.inr parenthesis))
  have line : tried.lexer.line = s.lexer.line :=
    parse.calm_line bare quiet.1 rfl (fun lex member => (by cases member)) ran
  have first : s.lexer.line = at_.line := by
    cases made.token with
    | inl ended =>
      obtain ⟨_, rfl, _⟩ := ended
      cases parenthesis
    | inr lexed => exact (lexToken_resumes lexed.2.1 resumes).2.2 parenthesis
  exact sameReadings_of_reread held made ready resumes source rfl rfl (line.trans first)
    (quiet.2 isArrow tried ran)

/-- The lookahead goes back exactly where it is quiet. -/
theorem lookahead_exact {src : List UInt8} {s : Reading} (reachable : Reachable src s) :
    (∀ (site : Site) t after, s.lexer.peek = some t → site.begins t.type = true →
      site.look.run s = some (true, after) → (SameReadings after s ↔ site.Quiet s.lexer)) ∧
    (∀ parse t after, s.lexer.peek = some t → t.type = .tokLparen →
      lookArrow parse s = some (true, after) → QuietArrow parse s → SameReadings after s) := by
  have sound := reachable.sound
  constructor
  · intro site t after held begins looked
    unfold Site.Quiet
    cases memory : site.memory with
    | token => exact token_exact sound memory held begins looked
    | position => exact iff_of_false (position_drops sound memory held begins looked) id
    | state =>
      rw [look_state memory held looked]
      exact iff_of_true (fun α rest => rfl) trivial
  · intro parse t after held parenthesis looked quiet
    exact arrow_exact sound held parenthesis looked quiet

/-- In front of `a;` the parser looks for a label. -/
theorem lookahead_exact_label :
    SameReadings ⟨{ lexer_init (ascii "a;") with col := 3 }, [], []⟩
      ⟨{ lexer_init (ascii "a;") with
          pos := 1, col := 2, allowRegexp := false,
          peek := some {
            type := .tokIdentifier, start := .source 0, len := 1, line := 1, col := 2 } },
        [], []⟩ := by
  have reachable : Reachable (ascii "a;")
      ⟨{ lexer_init (ascii "a;") with
          pos := 1, col := 2, allowRegexp := false,
          peek := some {
            type := .tokIdentifier, start := .source 0, len := 1, line := 1, col := 2 } },
        [], []⟩ :=
    ⟨.peek fun _ => .done (), by decide +kernel⟩
  apply ((lookahead_exact reachable).1 .label _ _ rfl (by decide) (by decide +kernel)).mpr
  intro t start gap n behind held starts skipped read
  cases held
  cases starts
  have tokens : lexer_next { lexer_init (ascii "a;") with
      pos := 1, col := 2, allowRegexp := false } = some
        ({ type := .tokSemicolon, start := .source 1, len := 1, line := 1, col := 3 },
          { lexer_init (ascii "a;") with pos := 2, col := 3 }) := by
    decide +kernel
  cases tokens.symm.trans read
  have blanks : lexer_skip_whitespace { lexer_init (ascii "a;") with
      pos := 1, col := 2, allowRegexp := false } = some
        { lexer_init (ascii "a;") with pos := 1, col := 2, allowRegexp := false } := by
    decide +kernel
  cases blanks.symm.trans skipped
  refine ⟨by decide +kernel, fun backtick => ?_⟩
  exact absurd backtick (by decide)

/-- In `export default async () => 1` the word `async` is lost. -/
theorem async_dropped :
    ¬∀ (src : List UInt8) (s : Reading), Reachable src s →
      (∀ (site : Site) t after, s.lexer.peek = some t → site.begins t.type = true →
        site.look.run s = some (true, after) → SameReadings after s) ∧
      (∀ parse t after, s.lexer.peek = some t → t.type = .tokLparen →
        lookArrow parse s = some (true, after) → SameReadings after s) := by
  intro harmless
  have reachable : Reachable (ascii "export default async () => 1")
      ⟨{ lexer_init (ascii "export default async () => 1") with
          pos := 20, col := 21, allowRegexp := false,
          peek := some { type := .tokAsync, start := .source 15, len := 5, line := 1, col := 21 } },
        [], []⟩ :=
    ⟨.next fun _ => .next fun _ => .peek fun _ => .done (), by decide +kernel⟩
  have same := (harmless _ _ reachable).1 .exportDefaultAsync _
    ⟨{ lexer_init (ascii "export default async () => 1") with pos := 20, col := 23 }, [], []⟩
    rfl rfl (by decide +kernel)
  have type := same _ fun t => .done t.type
  exact absurd type (by decide +kernel)

end Sites

end LRJS.Lexing
