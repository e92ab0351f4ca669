import LRJS.Switches

/-!
# Which clause is entered

The compiled code tests all conditions before it enters `default`.  `eval_switch` enters it
where it stands, and runs the statements behind a `continue`.
-/

namespace LRJS.Switches

open List Option Switch

variable {S : Type} {host : Host S} {s : S} {switch : Switch} {continues bigints : ASTNode → Bool}

theorem fromDefault_clauses : fromDefault switch.clauses = switch.rest := by
  unfold clauses cases
  induction switch.before with
  | nil => unfold rest; cases switch.default <;> rfl
  | cons clause before ih => exact ih

theorem bodyOps_append (front back : List Clause) :
    bodyOps (front ++ back) = bodyOps front ++ bodyOps back := by
  unfold bodyOps
  rw [flatMap_append, map_append]

theorem length_bodyOps_cons (clause : Clause) (clauses : List Clause) :
    (bodyOps (clause :: clauses)).length = clause.body.length + (bodyOps clauses).length := by
  unfold bodyOps
  rw [flatMap_cons, map_append, length_append, length_map]

section Code

variable {code : List Op} {fuel pos : Nat}

theorem run_stmts (nodes : List ASTNode) (enough : nodes.length < fuel) :
    run host code fuel (nodes.map .stmt) s =
      some (absorbed (statements host nodes s).1, (statements host nodes s).2) := by
  induction nodes generalizing fuel s with
  | nil =>
    obtain ⟨fuel, rfl⟩ := Nat.exists_eq_add_one.mpr enough
    rfl
  | cons node nodes ih =>
    rw [length_cons] at enough
    obtain ⟨fuel, rfl⟩ : ∃ n, fuel = n + 1 := ⟨fuel - 1, by omega⟩
    rw [map_cons, run, statements]
    rcases host.stmt node s with ⟨ended, t⟩
    cases ended with
    | on => exact ih (by omega)
    | _ => rfl

theorem run_bodies (clauses : List Clause) (enough : (bodyOps clauses).length < fuel) :
    run host code fuel (bodyOps clauses) s = some (entered host clauses s) := by
  unfold bodyOps at enough ⊢
  rw [length_map] at enough
  exact run_stmts _ enough

/-- The tests enter the clause that is found, if its body is where the test jumps to. -/
theorem run_tests {clauses all : List Clause} {room target : Nat} {after : List Op}
    (placed : code.drop pos = bodyOps clauses)
    (landing : code.drop target = bodyOps (fromDefault all))
    (short : (bodyOps clauses).length ≤ room)
    (shortDefault : (bodyOps (fromDefault all)).length ≤ room)
    (enough : (testOps clauses pos).length + room + 1 < fuel) :
    run host code fuel (testOps clauses pos ++ .jump target :: after) s =
      some (enter host all (search host clauses s)) := by
  induction clauses generalizing fuel pos s with
  | nil =>
    obtain ⟨fuel, rfl⟩ : ∃ n, fuel = n + 1 := ⟨fuel - 1, by omega⟩
    change run host code fuel (code.drop target) s = _
    rw [landing, run_bodies _ (by omega)]
    rfl
  | cons clause clauses ih =>
    have later : code.drop (pos + clause.body.length) = bodyOps clauses := by
      rw [← drop_drop, placed]
      unfold bodyOps
      rw [flatMap_cons, map_append, drop_left' (length_map _)]
    have total := length_bodyOps_cons clause clauses
    cases clause with
    | default body => exact ih later (by omega) enough
    | case cond body =>
      change (_ : List Op).length + 1 + room + 1 < fuel at enough
      obtain ⟨fuel, rfl⟩ : ∃ n, fuel = n + 1 := ⟨fuel - 1, by omega⟩
      rw [testOps, cons_append, run, search]
      rcases host.test cond s with ⟨result, t⟩
      rcases result with _ | ⟨_, _ | _⟩
      · rfl
      · exact ih later (by omega) (by omega)
      · change run host code fuel (code.drop pos) t = _
        rw [placed, run_bodies _ (by omega)]
        rfl

theorem length_testOps (clauses : List Clause) (pos other : Nat) :
    (testOps clauses pos).length = (testOps clauses other).length := by
  induction clauses generalizing pos other with
  | nil => rfl
  | cons clause clauses ih =>
    cases clause with
    | case => exact congrArg (· + 1) (ih _ _)
    | default => exact ih _ _

theorem noMatch_cases (clauses : List (ASTNode × List ASTNode)) (rest : List Clause)
    (pos found : Nat) : noMatch (cases clauses ++ rest) pos found =
      noMatch rest (pos + (bodyOps (cases clauses)).length) found := by
  induction clauses generalizing pos with
  | nil => rfl
  | cons clause clauses ih =>
    refine (ih (pos + clause.2.length)).trans ?_
    rw [Nat.add_assoc]
    exact congrArg (noMatch rest · found)
      (congrArg (pos + ·) (length_bodyOps_cons (.case clause.1 clause.2) (cases clauses)).symm)

theorem drop_noMatch {front : List Op} :
    (front ++ bodyOps switch.clauses).drop (noMatch switch.clauses front.length
      (front.length + (bodyOps switch.clauses).length)) = bodyOps (fromDefault switch.clauses) := by
  rw [fromDefault_clauses]
  unfold clauses
  rw [noMatch_cases, bodyOps_append, ← append_assoc, ← length_append]
  unfold rest
  cases switch.default with
  | none =>
    rw [← length_append, ← append_assoc]
    exact drop_length
  | some clauses =>
    have behind := noMatch_cases clauses.2 []
    rw [append_nil] at behind
    rw [noMatch, behind]
    exact drop_left

/-- The compiled switch does what is meant, whatever its clauses. -/
theorem run_cswitch (enough : (cswitch switch.clauses).length < fuel) :
    run host (cswitch switch.clauses) fuel (cswitch switch.clauses) s =
      some (meant host switch.clauses s) := by
  have suffix : (bodyOps (fromDefault switch.clauses)).length ≤
      (bodyOps switch.clauses).length := by
    rw [fromDefault_clauses, clauses, bodyOps_append, length_append]
    exact Nat.le_add_left _ _
  obtain ⟨pos, first⟩ : ∃ pos, pos = (testOps switch.clauses 0).length + 1 := ⟨_, rfl⟩
  have tests : (testOps switch.clauses pos).length + 1 = pos := by
    rw [length_testOps _ pos 0, first]
  have shape : cswitch switch.clauses = testOps switch.clauses pos ++
      .jump (noMatch switch.clauses pos (pos + (bodyOps switch.clauses).length)) ::
        bodyOps switch.clauses := by
    rw [first]
    rfl
  obtain ⟨front, same⟩ : ∃ front, front = testOps switch.clauses pos ++
      [.jump (noMatch switch.clauses pos (pos + (bodyOps switch.clauses).length))] := ⟨_, rfl⟩
  have whole : cswitch switch.clauses = front ++ bodyOps switch.clauses := by
    rw [shape, same, append_assoc]
    rfl
  have length : front.length = pos := by
    rw [same, length_append]
    exact tests
  have landing := @drop_noMatch switch front
  rw [length, ← whole] at landing
  have placed : (cswitch switch.clauses).drop pos = bodyOps switch.clauses := by
    rw [whole]
    exact drop_left' length
  rw [whole, length_append] at enough
  exact (congrArg (run host _ fuel · s) shape).trans
    (run_tests placed landing le_rfl suffix (by omega))

end Code

/-- What the loop of `eval_switch` makes of the end of a clause. -/
def conclude : Ended × Bool × S → Ended × S
  | (.on, continue_target, s) | (.broken, continue_target, s) => (settled continue_target, s)
  | (ended, _, s) => (ended, s)

theorem items_append (front back : List ASTNode) (continue_target : Bool) :
    items host (front ++ back) continue_target s =
      match items host front continue_target s with
      | (.on, continue_target, s) => items host back continue_target s
      | left => left := by
  induction front generalizing continue_target s with
  | nil => rfl
  | cons item front ih =>
    rw [cons_append, items, items]
    rcases host.stmt item s with ⟨ended, t⟩
    cases ended with
    | on => exact ih _
    | continued => exact ih _
    | _ => rfl

theorem eval_entered (clauses : List Clause) (continue_target : Bool) :
    eval_switch host clauses true continue_target s =
      conclude (items host (clauses.flatMap Clause.body) continue_target s) := by
  induction clauses generalizing continue_target s with
  | nil => rfl
  | cons clause clauses ih =>
    rw [flatMap_cons, items_append, eval_switch, clauseTest]
    dsimp only
    rcases items host clause.body continue_target s with ⟨ended, flag, t⟩
    cases ended with
    | on => exact ih _
    | _ => rfl

/-- Statements that `continue` does not leave run as is meant. -/
theorem items_quiet {nodes : List ASTNode}
    (regular : ∀ node s, continues node = false → (host.stmt node s).1 ≠ .continued)
    (quiet : ∀ item ∈ nodes.dropLast, continues item = false) :
    conclude (items host nodes false s) =
      (absorbed (statements host nodes s).1, (statements host nodes s).2) := by
  induction nodes generalizing s with
  | nil => rfl
  | cons item rest ih =>
    have on := regular item s
    rw [items, statements]
    rcases same : host.stmt item s with ⟨ended, t⟩
    rw [same] at on
    cases rest with
    | nil => cases ended <;> rfl
    | cons next rest =>
      cases ended with
      | continued => exact absurd rfl (on (quiet item mem_cons_self))
      | on => exact ih fun other member => quiet other (mem_cons_of_mem _ member)
      | _ => rfl

theorem mem_dropLast_append {α : Type} {front back : List α} {x : α}
    (member : x ∈ back.dropLast) : x ∈ (front ++ back).dropLast := by
  have more : back ≠ [] := by
    rintro rfl
    cases member
  rw [dropLast_append_of_ne_nil more]
  exact mem_append_right front member

section Cases

variable (regular : ∀ node s, continues node = false → (host.stmt node s).1 ≠ .continued)
variable (same : ∀ cond s, bigints cond = false →
  ∀ told ∈ (host.test cond s).1, told.1 = told.2)
include regular same

/-- On the condition the tree-walker enters the clause that the search finds. -/
theorem eval_cases {before : List (ASTNode × List ASTNode)} {last all : List Clause}
    (final : last = [] ∨ ∃ body, last = [.default body]) (default : fromDefault all = last)
    (quiet : ∀ item ∈ ((cases before ++ last).flatMap Clause.body).dropLast,
      continues item = false) (settled : Settles bigints before) :
    eval_switch host (cases before ++ last) false false s =
      enter host all (search host (cases before ++ last) s) := by
  have entered (s : S) : eval_switch host last false false s =
      eval_switch host last true false s := by
    rcases final with rfl | ⟨body, rfl⟩ <;> rfl
  have none (s : S) : search host last s = (some none, s) := by
    rcases final with rfl | ⟨body, rfl⟩ <;> rfl
  induction before generalizing s with
  | nil =>
    change ∀ item ∈ (last.flatMap Clause.body).dropLast, continues item = false at quiet
    change eval_switch host last false false s = enter host all (search host last s)
    rw [entered, eval_entered, items_quiet regular quiet, none, ← default]
    rfl
  | cons clause before ih =>
    have later : ∀ item ∈ ((cases before ++ last).flatMap Clause.body).dropLast,
        continues item = false := fun item member => quiet item (mem_dropLast_append member)
    have matched (t : S) :
        eval_switch host (.case clause.1 clause.2 :: (cases before ++ last)) true false t =
          Switches.entered host (.case clause.1 clause.2 :: (cases before ++ last)) t :=
      (eval_entered _ false).trans (items_quiet regular quiet)
    have rest : Settles bigints before := by
      cases before with
      | nil => trivial
      | cons => exact settled.2
    change eval_switch host (.case clause.1 clause.2 :: (cases before ++ last)) _ _ _ =
      enter host all (search host (.case clause.1 clause.2 :: (cases before ++ last)) s)
    rw [eval_switch, search, clauseTest]
    have told := same clause.1 s
    rcases result : host.test clause.1 s with ⟨_ | ⟨tree, vm⟩, t⟩
    · rfl
    rw [result] at told
    by_cases equal : tree = vm
    · subst equal
      cases tree with
      | true => exact matched t
      | false => exact ih later rest
    · -- the BigInts of the last case, which has no statements
      have bigint : bigints clause.1 = true := by
        by_contra other
        exact equal (told (Bool.eq_false_iff.mpr other) (tree, vm) rfl)
      cases before with
      | cons => exact absurd bigint (by rw [settled.1]; exact Bool.false_ne_true)
      | nil =>
        have empty : clause.2 = [] := settled bigint
        have through : Switches.entered host (.case clause.1 clause.2 :: (cases [] ++ last)) t =
            Switches.entered host (cases [] ++ last) t := by
          rw [empty]
          rfl
        have default_entered : eval_switch host (cases [] ++ last) false false t =
            Switches.entered host (cases [] ++ last) t :=
          (entered t).trans ((eval_entered last false).trans (items_quiet regular later))
        cases tree with
        | true =>
          cases vm with
          | true => exact absurd rfl equal
          | false =>
            refine (matched t).trans (through.trans ?_)
            change _ = enter host all (search host last t)
            rw [none, ← default]
            rfl
        | false =>
          cases vm with
          | false => exact absurd rfl equal
          | true => exact default_entered.trans through.symm

end Cases

theorem Sequential.right (sequential : Sequential switch continues bigints) :
    Right switch continues bigints := by
  intro S host s regular same
  refine ⟨?_, fun fuel enough => run_cswitch enough⟩
  refine eval_cases regular same ?_ fromDefault_clauses sequential.quiet sequential.settled
  have last := sequential.last
  unfold behind at last
  unfold rest
  cases given : switch.default with
  | none => exact .inl rfl
  | some clauses =>
    rw [given] at last
    change clauses.2 = [] at last
    exact .inr ⟨clauses.1, by dsimp only; rw [last]; rfl⟩

def counting (equal : Bool) (continues : ASTNode → Bool) : Host Nat where
  test _ n := (some (equal, equal), n + 1)
  stmt node n := (if continues node then .continued else .on, n + 1)

section Counts

variable {n : Nat} {equal : Bool}

theorem counting_stmt (node : ASTNode) : (counting equal continues).stmt node n =
    (if continues node then .continued else .on, n + 1) :=
  rfl

theorem items_count (nodes : List ASTNode) (continue_target : Bool) :
    (conclude (items (counting equal continues) nodes continue_target n)).2 = n + nodes.length := by
  induction nodes generalizing n continue_target with
  | nil => rfl
  | cons node nodes ih =>
    have more : n + 1 + nodes.length = n + (nodes.length + 1) := by omega
    rw [items, length_cons, ← more, counting_stmt]
    cases continues node with
    | true => exact ih true
    | false => exact ih continue_target

theorem statements_count {nodes : List ASTNode} (quiet : ∀ item ∈ nodes, continues item = false) :
    (statements (counting equal continues) nodes n).2 = n + nodes.length := by
  induction nodes generalizing n with
  | nil => rfl
  | cons node nodes ih =>
    have more : n + 1 + nodes.length = n + (nodes.length + 1) := by omega
    rw [statements, length_cons, ← more, counting_stmt, quiet node mem_cons_self]
    exact ih fun other member => quiet other (mem_cons_of_mem _ member)

/-- A statement that `continue` leaves cuts the statements behind it off. -/
theorem statements_short {nodes : List ASTNode} {left : ASTNode} (member : left ∈ nodes.dropLast)
    (continued : continues left = true) :
    (statements (counting equal continues) nodes n).2 < n + nodes.length := by
  induction nodes generalizing n with
  | nil => cases member
  | cons node nodes ih =>
    cases nodes with
    | nil => cases member
    | cons next nodes =>
      rw [statements, length_cons, counting_stmt]
      cases here : continues node with
      | true =>
        change n + 1 < _
        rw [length_cons]
        omega
      | false =>
        have later := (List.mem_cons.mp member).resolve_left fun same => by
          rw [← same, continued] at here
          cases here
        have short := @ih (n + 1) later
        change (statements _ (next :: nodes) (n + 1)).2 < _
        omega

theorem unmatched_count (before : List (ASTNode × List ASTNode)) (rest : List Clause) :
    eval_switch (counting false continues) (cases before ++ rest) false false n =
        eval_switch (counting false continues) rest false false (n + before.length) ∧
      search (counting false continues) (cases before ++ rest) n =
        search (counting false continues) rest (n + before.length) := by
  induction before generalizing n with
  | nil => exact ⟨rfl, rfl⟩
  | cons clause before ih =>
    have more : n + 1 + before.length = n + (before.length + 1) := by omega
    rw [length_cons, ← more]
    exact @ih (n + 1)

end Counts

theorem entered_count {clauses : List Clause} {n : Nat} {equal : Bool} :
    (eval_switch (counting equal continues) clauses true false n).2 =
      n + (clauses.flatMap Clause.body).length := by
  rw [eval_entered, items_count]

theorem counting_regular {may : ASTNode → Bool} (only : ∀ node, may node = true →
    continues node = true) (equal : Bool) (node : ASTNode) (n : Nat)
    (quiet : continues node = false) : ((counting equal may).stmt node n).1 ≠ .continued := by
  change (if may node then Ended.continued else .on) ≠ _
  split
  · next left => rw [only node left] at quiet; cases quiet
  · exact fun same => by cases same

theorem counting_same {may : ASTNode → Bool} (equal : Bool) (cond : ASTNode) (n : Nat)
    (_ : bigints cond = false) : ∀ told ∈ ((counting equal may).test cond n).1,
      told.1 = told.2 := by
  rintro told ⟨⟩
  rfl

/-- Where the switch is right, no case stands behind default. -/
theorem Right.last (right : Right switch continues bigints) : switch.behind = [] := by
  have none : ∀ node, (fun _ : ASTNode => false) node = true → continues node = true :=
    fun _ left => by cases left
  have same := congrArg Prod.snd
    (right Nat (counting false fun _ => false) 0 (counting_regular none false)
      (counting_same false)).1
  unfold meant at same
  have default := @fromDefault_clauses switch
  unfold clauses at same default
  unfold behind
  rw [(unmatched_count _ _).1, (unmatched_count _ _).2] at same
  unfold rest at same default
  cases given : switch.default with
  | none => rfl
  | some clauses =>
    rw [given] at same default
    dsimp only at default
    have tests := @unmatched_count (fun _ => false) (0 + switch.before.length) clauses.2 []
    rw [append_nil] at tests
    change (eval_switch _ (.default clauses.1 :: cases clauses.2) true false _).2 =
      (enter _ _ (search _ (cases clauses.2) _)).2 at same
    rw [entered_count, tests.2] at same
    change _ = (statements _ ((Option.getD Option.none (fromDefault _)).flatMap Clause.body) _).2
      at same
    rw [getD_none, default, statements_count fun _ _ => rfl] at same
    exact eq_nil_of_length_eq_zero (by change clauses.2.length = 0; omega)

/-- Where the switch is right, only its last statement can be left by `continue`. -/
theorem Right.quiet (right : Right switch continues bigints) :
    ∀ item ∈ (switch.clauses.flatMap Clause.body).dropLast, continues item = false := by
  intro item member
  by_contra continued
  rw [Bool.not_eq_false] at continued
  have same := congrArg Prod.snd
    (right Nat (counting true continues) 0 (counting_regular (fun _ left => left) true)
      (counting_same true)).1
  -- the first clause is entered
  obtain ⟨n, found, tree, code, first⟩ : ∃ n found,
      eval_switch (counting true continues) switch.clauses false false 0 =
          eval_switch (counting true continues) switch.clauses true false n ∧
        search (counting true continues) switch.clauses 0 = (some found, n) ∧
          found.getD (fromDefault switch.clauses) = switch.clauses := by
    have last := right.last
    unfold clauses rest behind at *
    cases given : switch.before with
    | cons clause before => exact ⟨1, some _, rfl, rfl, rfl⟩
    | nil =>
      rw [given] at member
      cases default : switch.default with
      | none =>
        rw [default] at member
        cases member
      | some clauses =>
        rw [default] at last
        change clauses.2 = [] at last
        refine ⟨0, none, rfl, ?_, rfl⟩
        dsimp only
        rw [last]
        rfl
  unfold meant at same
  rw [tree, code, entered_count, enter, first] at same
  exact absurd same (Nat.ne_of_gt (statements_short member continued))

/-- The tree-walker finds no condition equal, the compiled code the BigInts; conditions and
statements are counted. -/
def doubting (bigints : ASTNode → Bool) : Host (Nat × Nat) where
  test cond n := (some (false, bigints cond), (n.1 + 1, n.2))
  stmt _ n := (.on, (n.1, n.2 + 1))

theorem doubting_statements (nodes : List ASTNode) (n : Nat × Nat) :
    statements (doubting bigints) nodes n = (.on, (n.1, n.2 + nodes.length)) := by
  induction nodes generalizing n with
  | nil => rfl
  | cons node nodes ih =>
    refine (ih _).trans ?_
    rw [length_cons, Nat.add_assoc, Nat.add_comm 1]

/-- Without a match the tree-walker comes to the last clauses. -/
theorem doubting_eval (before : List (ASTNode × List ASTNode)) {last : List Clause}
    (final : last = [] ∨ ∃ body, last = [.default body]) (n : Nat × Nat) :
    (eval_switch (doubting bigints) (cases before ++ last) false false n).2 =
      (n.1 + before.length, n.2 + (last.flatMap Clause.body).length) := by
  induction before generalizing n with
  | nil =>
    have entered : eval_switch (doubting bigints) last false false n =
        eval_switch (doubting bigints) last true false n := by
      rcases final with rfl | ⟨body, rfl⟩ <;> rfl
    change (eval_switch (doubting bigints) last false false n).2 = _
    rw [entered, eval_entered, @items_quiet _ _ _ (fun _ => false) _
      (fun _ _ _ same => by cases same) (fun _ _ => rfl), doubting_statements]
    rfl
  | cons clause before ih =>
    refine (ih (n.1 + 1, n.2)).trans ?_
    rw [length_cons, Nat.add_assoc, Nat.add_comm 1]

theorem doubting_search (cond : ASTNode) (body : List ASTNode) (clauses : List Clause)
    (n : Nat × Nat) :
    search (doubting bigints) (.case cond body :: clauses) n =
      if bigints cond then (some (some (.case cond body :: clauses)), (n.1 + 1, n.2))
      else search (doubting bigints) clauses (n.1 + 1, n.2) := by
  have told : (doubting bigints).test cond n = (some (false, bigints cond), (n.1 + 1, n.2)) := rfl
  rw [search, told]
  cases bigints cond <;> rfl

/-- A host that doubts every comparison of BigInts shows that none may be in doubt. -/
theorem settles_of_same (before : List (ASTNode × List ASTNode)) {last all : List Clause}
    (final : last = [] ∨ ∃ body, last = [.default body]) (n : Nat × Nat)
    (same : (eval_switch (doubting bigints) (cases before ++ last) false false n).2 =
      (enter (doubting bigints) all (search (doubting bigints) (cases before ++ last) n)).2) :
    Settles bigints before := by
  induction before generalizing n with
  | nil => trivial
  | cons clause before ih =>
    cases bigint : bigints clause.1 with
    | true =>
      have found : search (doubting bigints) (cases (clause :: before) ++ last) n =
          (some (some (cases (clause :: before) ++ last)), (n.1 + 1, n.2)) :=
        (doubting_search clause.1 clause.2 (cases before ++ last) n).trans (if_pos bigint)
      rw [doubting_eval _ final, found] at same
      change _ = (statements _ ((cases (clause :: before) ++ last).flatMap Clause.body) _).2 at same
      rw [doubting_statements] at same
      obtain ⟨tests, stmts⟩ := Prod.mk.inj same
      rw [length_cons] at tests
      have none : before = [] := eq_nil_of_length_eq_zero (by omega)
      subst none
      intro _
      refine eq_nil_of_length_eq_zero ?_
      change n.2 + _ = n.2 + ((clause.2 ++ last.flatMap Clause.body).length) at stmts
      rw [length_append] at stmts
      omega
    | false =>
      have later : Settles bigints before := by
        have next := @doubting_search bigints clause.1 clause.2 (cases before ++ last) n
        rw [if_neg (by rw [bigint]; exact Bool.false_ne_true)] at next
        exact ih (n.1 + 1, n.2) (same.trans (congrArg (fun found => (enter _ all found).2) next))
      cases before with
      | nil =>
        intro other
        rw [bigint] at other
        cases other
      | cons => exact ⟨bigint, later⟩

/-- Where the switch is right, no comparison that matters is in doubt. -/
theorem Right.settles (right : Right switch continues bigints) :
    Settles bigints switch.before := by
  have same := (right (Nat × Nat) (doubting bigints) (0, 0) (fun _ _ _ same => by cases same)
    fun cond s quiet told given => by
      cases given
      exact quiet.symm).1
  have last := right.last
  unfold behind at last
  unfold meant clauses at same
  refine settles_of_same _ ?_ (0, 0) (congrArg Prod.snd same)
  unfold rest
  cases given : switch.default with
  | none => exact .inl rfl
  | some clauses =>
    rw [given] at last
    change clauses.2 = [] at last
    exact .inr ⟨clauses.1, by dsimp only; rw [last]; rfl⟩

/-- `switch (2) { default: first; case 2: second }` -/
def defaultFirst : Switch where
  before := []
  default := some ([.exprStmt (.identifier "first")],
    [(.literal (.number ⟨0x4000000000000000⟩), [.exprStmt (.identifier "second")])])

def lastRun : Host (List String) where
  test _ ran := (some (true, true), "test" :: ran)
  stmt node ran :=
    match node with
    | .exprStmt (.identifier name) => (.on, name :: ran)
    | _ => (.on, ran)

end LRJS.Switches
