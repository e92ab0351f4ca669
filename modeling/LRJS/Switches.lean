import LRJS.Syntax

/-!
# Switches

Which clause `eval_switch` and the code of `cswitch` enter behind the discriminant, and which
statements run from there.  Expressions and statements are run by a host.
-/

namespace LRJS.Switches

inductive Clause where
  | case (cond : ASTNode) (body : List ASTNode)
  | default (body : List ASTNode)

def Clause.body : Clause → List ASTNode
  | .case _ body | .default body => body

/-- The clauses of a `switch`, with the `case`s before and behind its `default`. -/
structure Switch where
  before : List (ASTNode × List ASTNode)
  default : Option (List ASTNode × List (ASTNode × List ASTNode))

def cases (clauses : List (ASTNode × List ASTNode)) : List Clause :=
  clauses.map fun clause => .case clause.1 clause.2

namespace Switch

variable (switch : Switch)

/-- The cases behind `default`. -/
def behind : List (ASTNode × List ASTNode) :=
  (switch.default.map Prod.snd).getD []

/-- The clauses from `default` on. -/
def rest : List Clause :=
  match switch.default with
  | none => []
  | some (body, behind) => .default body :: cases behind

def clauses : List Clause :=
  cases switch.before ++ switch.rest

end Switch

/-- How a statement ends.  `broken` is a `break` of this switch; a `return`, an error and a
`break` of another statement leave it. -/
inductive Ended where
  | on
  | broken
  | continued
  | left
deriving DecidableEq

/-- `test` evaluates a condition and gives what `strict_eq` and what `STRICT_EQ` says of the value
and the discriminant: `strict_eq` compares the addresses of BigInts, `STRICT_EQ` their values. -/
structure Host (S : Type) where
  test : ASTNode → S → Option (Bool × Bool) × S
  stmt : ASTNode → S → Ended × S

variable {S : Type} (host : Host S)

/-- The statements of a clause.  `continue_target` is set by the way, and not tested. -/
def items : List ASTNode → Bool → S → Ended × Bool × S
  | [], continue_target, s => (.on, continue_target, s)
  | item :: rest, continue_target, s =>
    match host.stmt item s with
    | (.on, s) => items rest continue_target s
    | (.continued, s) => items rest true s
    | (ended, s) => (ended, continue_target, s)

def settled (continue_target : Bool) : Ended :=
  if continue_target then .continued else .on

def clauseTest (matched : Bool) (clause : Clause) (s : S) : Option Bool × S :=
  match matched, clause with
  | true, _ | _, .default _ => (some true, s)
  | false, .case cond _ => ((host.test cond s).1.map Prod.fst, (host.test cond s).2)

/-- The loop of `eval_switch`. -/
def eval_switch : List Clause → Bool → Bool → S → Ended × S
  | [], _, continue_target, s => (settled continue_target, s)
  | clause :: clauses, matched, continue_target, s =>
    match clauseTest host matched clause s with
    | (none, s) => (.left, s)
    | (some false, s) => eval_switch clauses false continue_target s
    | (some true, s) =>
      match items host clause.body continue_target s with
      | (.on, continue_target, s) => eval_switch clauses true continue_target s
      | (.broken, continue_target, s) => (settled continue_target, s)
      | (ended, _, s) => (ended, s)

/-- `DUP`, a condition, `STRICT_EQ` and `JUMP_IF_TRUE` are one instruction here, and so are a
`JUMP` and the code of a statement. -/
inductive Op where
  | jumpIfEqual (cond : ASTNode) (target : Nat)
  | jump (target : Nat)
  | stmt (node : ASTNode)

def bodyOps (clauses : List Clause) : List Op :=
  (clauses.flatMap Clause.body).map .stmt

/-- The jumps to the bodies, of which the first stands at `pos`. -/
def testOps : List Clause → Nat → List Op
  | [], _ => []
  | .default body :: clauses, pos => testOps clauses (pos + body.length)
  | .case cond body :: clauses, pos => .jumpIfEqual cond pos :: testOps clauses (pos + body.length)

/-- The position of the last `default`, or else that behind all bodies. -/
def noMatch : List Clause → Nat → Nat → Nat
  | [], _, found => found
  | .default body :: clauses, pos, _ => noMatch clauses (pos + body.length) pos
  | .case _ body :: clauses, pos, found => noMatch clauses (pos + body.length) found

def cswitch (clauses : List Clause) : List Op :=
  let pos := (testOps clauses 0).length + 1
  testOps clauses pos ++
    .jump (noMatch clauses pos (pos + (bodyOps clauses).length)) :: bodyOps clauses

/-- A `break` of the switch jumps to its end. -/
def absorbed : Ended → Ended
  | .broken => .on
  | ended => ended

def run (code : List Op) : Nat → List Op → S → Option (Ended × S)
  | 0, _, _ => none
  | _ + 1, [], s => some (.on, s)
  | fuel + 1, .jumpIfEqual cond target :: ops, s =>
    match host.test cond s with
    | (some (_, true), s) => run code fuel (code.drop target) s
    | (some (_, false), s) => run code fuel ops s
    | (none, s) => some (.left, s)
  | fuel + 1, .jump target :: _, s => run code fuel (code.drop target) s
  | fuel + 1, .stmt node :: ops, s =>
    match host.stmt node s with
    | (.on, s) => run code fuel ops s
    | (ended, s) => some (absorbed ended, s)

/-- The conditions in their order up to the first match (BigInts match by their values), and the
clauses from there on; `none` when a condition is left. -/
def search : List Clause → S → Option (Option (List Clause)) × S
  | [], s => (some none, s)
  | .default _ :: clauses, s => search clauses s
  | .case cond body :: clauses, s =>
    match host.test cond s with
    | (some (_, true), s) => (some (some (.case cond body :: clauses)), s)
    | (some (_, false), s) => search clauses s
    | (none, s) => (none, s)

def fromDefault : List Clause → List Clause
  | [] => []
  | .default body :: clauses => .default body :: clauses
  | .case _ _ :: clauses => fromDefault clauses

def statements : List ASTNode → S → Ended × S
  | [], s => (.on, s)
  | item :: rest, s =>
    match host.stmt item s with
    | (.on, s) => statements rest s
    | (ended, s) => (ended, s)

def entered (clauses : List Clause) (s : S) : Ended × S :=
  (absorbed (statements host (clauses.flatMap Clause.body) s).1,
    (statements host (clauses.flatMap Clause.body) s).2)

def enter (clauses : List Clause) : Option (Option (List Clause)) × S → Ended × S
  | (none, s) => (.left, s)
  | (some found, s) => entered host (found.getD (fromDefault clauses)) s

def meant (clauses : List Clause) (s : S) : Ended × S :=
  enter host clauses (search host clauses s)

/-- In every run both engines do what is meant; `continues` are the statements that `continue`
can leave, `bigints` the conditions whose value and the discriminant can both be BigInts. -/
def Right (switch : Switch) (continues bigints : ASTNode → Bool) : Prop :=
  ∀ (S : Type) (host : Host S) (s : S),
    (∀ node s, continues node = false → (host.stmt node s).1 ≠ .continued) →
    (∀ cond s, bigints cond = false → ∀ told ∈ (host.test cond s).1, told.1 = told.2) →
      eval_switch host switch.clauses false false s = meant host switch.clauses s ∧
        ∀ fuel, (cswitch switch.clauses).length < fuel →
          run host (cswitch switch.clauses) fuel (cswitch switch.clauses) s =
            some (meant host switch.clauses s)

/-- Only the last case compares BigInts, if it has no statements. -/
def Settles (bigints : ASTNode → Bool) : List (ASTNode × List ASTNode) → Prop
  | [] => True
  | [(cond, body)] => bigints cond = true → body = []
  | (cond, _) :: cases => bigints cond = false ∧ Settles bigints cases

/-- No case stands behind `default`, no statement but the last is left by `continue`, and BigInts
are compared only where the outcome is the same. -/
structure Sequential (switch : Switch) (continues bigints : ASTNode → Bool) : Prop where
  last : switch.behind = []
  quiet : ∀ item ∈ (switch.clauses.flatMap Clause.body).dropLast, continues item = false
  settled : Settles bigints switch.before

end LRJS.Switches
