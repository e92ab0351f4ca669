import LRJS.ArrayCallbacks

/-!
# What the methods with callbacks do

Each loop is compared with the fold that is meant, and the account of its ledger is kept: the
loops that test, pick or select lose nothing, those of `flatMap` and `reduce` lose what they do
not release.
-/

namespace LRJS.ArrayCallbacks

open List Option CallbackFold List.Perm Ledger

variable {this_val this_arg array : LRValue} {xs : List LRValue}
variable {log : Log} {held lost : List Nat}

section Loops

variable {callback : Answers}

theorem visit_throw (accounts : log.ledger.Accounts held lost) {i : Nat}
    (thrown : callback (log.calls ++ [visitCall this_val xs this_arg i]) = none) :
    ∃ ref after, visit callback this_val this_arg xs i log =
        ((⟨xs.getD i .undefined, ref⟩, none), after) ∧
      after.calls = log.calls ++ [visitCall this_val xs this_arg i] ∧
      after.ledger.Accounts (ref :: held) lost := by
  unfold visitCall at thrown ⊢
  refine ⟨log.ledger.next, ⟨((log.ledger.acquire.acquire.acquire.release
    (log.ledger.next + 1)).release (log.ledger.next + 2)), _⟩, ?_, rfl, ?_⟩
  · simp only [visit, own, JS_Call, release, bind, StateT.bind, pure,
      map_cons, map_nil, thrown]
    rfl
  · have all := accounts.acquire.acquire.acquire
    exact ((all.perm (swap _ _ _)).release).release

theorem visit_reply (accounts : log.ledger.Accounts held lost) {i : Nat} {reply : Reply}
    (replied : callback (log.calls ++ [visitCall this_val xs this_arg i]) = some reply) :
    ∃ ref result after, visit callback this_val this_arg xs i log =
        ((⟨xs.getD i .undefined, ref⟩, some (⟨reply.value, result⟩, reply.elements)), after) ∧
      after.calls = log.calls ++ [visitCall this_val xs this_arg i] ∧
      after.ledger.Accounts (ref :: result :: held) lost := by
  unfold visitCall at replied ⊢
  refine ⟨log.ledger.next, log.ledger.next + 3,
    ⟨((log.ledger.acquire.acquire.acquire.acquire.release (log.ledger.next + 1)).release
      (log.ledger.next + 2)), _⟩, ?_, rfl, ?_⟩
  · simp only [visit, own, JS_Call, release, bind, StateT.bind, pure,
      map_cons, map_nil, replied]
    rfl
  · have all := accounts.acquire.acquire.acquire.acquire
    have arranged := (swap (log.ledger.next + 2) (log.ledger.next + 3)
      (log.ledger.next :: held)).trans
        ((swap log.ledger.next (log.ledger.next + 3) held).cons _)
    exact ((all.perm (@List.perm_middle _ _ [_, _] _)).release.perm arranged).release

theorem bind_eq {α β : Type} {m : StateM Log α} {f : α → StateM Log β} {after : Log} {a : α}
    (first : m log = (a, after)) : (m >>= f) log = f a after := by
  change (let (a, s) := m log; f a s) = _
  rw [first]

/-- The loop of `some`, `every`, `find` and `findIndex` is a search that visits the indices in
order. -/
theorem test_eq {stops : Bool → Bool} {found : Nat → LRValue} {missing : LRValue} (is : List Nat)
    (accounts : log.ledger.Accounts held lost) :
    let search := (searching this_val xs this_arg stops found missing).run callback () is log.calls
    ∃ after, test callback this_val this_arg xs stops found missing is log =
        ((ended search).1, after) ∧
      after.calls = search.2 ∧ after.ledger.Accounts held lost := by
  induction is generalizing log with
  | nil => exact ⟨log, rfl, rfl, accounts⟩
  | cons i is ih =>
    cases replied : callback (log.calls ++ [visitCall this_val xs this_arg i]) with
    | none =>
      obtain ⟨ref, after, visited, calls, kept⟩ := visit_throw accounts replied
      rw [run_throw replied]
      refine ⟨{ after with ledger := after.ledger.release ref }, ?_, calls, kept.release⟩
      unfold test
      rw [bind_eq visited]
      rfl
    | some reply =>
      obtain ⟨ref, result, after, visited, calls, kept⟩ := visit_reply accounts replied
      by_cases stop : stops (lr_to_bool reply.value)
      · rw [run_stop (.value (found i)) replied (if_pos stop)]
        refine ⟨{ after with ledger := (after.ledger.release ref).release result }, ?_, calls,
          kept.release.release⟩
        unfold test
        rw [bind_eq visited]
        simp only [release, bind, StateT.bind, if_pos stop]
        rfl
      · rw [run_next () replied (if_neg stop)]
        obtain ⟨last, rest, made, final⟩ := @ih
          { after with ledger := (after.ledger.release ref).release result }
          kept.release.release
        refine ⟨last, ?_, ?_, final⟩
        · unfold test
          rw [bind_eq visited]
          simp only [release, bind, StateT.bind, if_neg stop]
          rw [rest, calls]
          rfl
        · rw [made, calls]
          rfl

/-- The loop of `find` answers the first element for which the callback says yes. -/
theorem pick_eq (is : List Nat) (accounts : log.ledger.Accounts held lost) :
    let search := (searching this_val xs this_arg (fun ok => ok) (fun i => xs.getD i .undefined)
      .undefined).run callback () is log.calls
    ∃ after, pick callback this_val this_arg xs is log = ((ended search).1, after) ∧
      after.calls = search.2 ∧ after.ledger.Accounts held lost := by
  induction is generalizing log with
  | nil => exact ⟨log, rfl, rfl, accounts⟩
  | cons i is ih =>
    cases replied : callback (log.calls ++ [visitCall this_val xs this_arg i]) with
    | none =>
      obtain ⟨ref, after, visited, calls, kept⟩ := visit_throw accounts replied
      rw [run_throw replied]
      refine ⟨{ after with ledger := after.ledger.release ref }, ?_, calls, kept.release⟩
      unfold pick
      rw [bind_eq visited]
      rfl
    | some reply =>
      obtain ⟨ref, result, after, visited, calls, kept⟩ := visit_reply accounts replied
      have both := (kept.perm (swap _ _ _)).release.release
      by_cases truth : lr_to_bool reply.value
      · rw [run_stop (.value (xs.getD i .undefined)) replied (if_pos truth)]
        refine ⟨{ after with ledger := (after.ledger.release result).release ref }, ?_, calls,
          both⟩
        unfold pick
        rw [bind_eq visited]
        simp only [release, bind, StateT.bind, if_pos truth]
        rfl
      · rw [run_next () replied (if_neg truth)]
        obtain ⟨last, rest, made, final⟩ := @ih
          { after with ledger := (after.ledger.release result).release ref } both
        refine ⟨last, ?_, ?_, final⟩
        · unfold pick
          rw [bind_eq visited]
          simp only [release, bind, StateT.bind, if_neg truth]
          rw [rest, calls]
          rfl
        · rw [made, calls]
          rfl

/-- The loop of `filter` collects the elements for which the callback says yes. -/
theorem select_eq {ref : Nat} (is : List Nat) (out : List LRValue)
    (accounts : log.ledger.Accounts (ref :: held) lost) :
    let kept := (filtering this_val xs this_arg).run callback out is log.calls
    ∃ after, select callback this_val this_arg xs ⟨array, ref⟩ is out log =
        ((ended kept).1, after) ∧
      after.calls = kept.2 ∧ after.ledger.Accounts held lost := by
  induction is generalizing log out with
  | nil => exact ⟨{ log with ledger := log.ledger.release ref }, rfl, rfl, accounts.release⟩
  | cons i is ih =>
    cases replied : callback (log.calls ++ [visitCall this_val xs this_arg i]) with
    | none =>
      obtain ⟨val, after, visited, calls, kept⟩ := visit_throw accounts replied
      rw [run_throw replied]
      refine ⟨{ after with ledger := (after.ledger.release val).release ref }, ?_, calls,
        kept.release.release⟩
      unfold select
      rw [bind_eq visited]
      rfl
    | some reply =>
      obtain ⟨val, result, after, visited, calls, kept⟩ := visit_reply accounts replied
      rw [run_next _ replied rfl]
      obtain ⟨last, rest, made, final⟩ := @ih
        { after with ledger := (after.ledger.release result).release val }
        (out ++ if lr_to_bool reply.value then [xs.getD i .undefined] else [])
        (kept.perm (swap _ _ _)).release.release
      have appended : (if lr_to_bool reply.value then out ++ [xs.getD i .undefined] else out) =
          out ++ if lr_to_bool reply.value then [xs.getD i .undefined] else [] := by
        split
        · rfl
        · rw [append_nil]
      refine ⟨last, ?_, ?_, final⟩
      · unfold select
        rw [bind_eq visited]
        simp only [release, bind, StateT.bind, appended]
        rw [rest, calls]
        rfl
      · rw [made, calls]
        rfl

theorem ownAll_eq (items : List LRValue) (accounts : log.ledger.Accounts held lost) :
    ∃ after, ownAll items log = ((), after) ∧ after.calls = log.calls ∧
      after.ledger.Accounts held lost := by
  induction items generalizing log with
  | nil => exact ⟨log, rfl, rfl, accounts⟩
  | cons item items ih =>
    exact @ih
      { log with ledger := log.ledger.acquire.release log.ledger.next } accounts.acquire.release

def Plain (callback : Answers) (calls : List Call) : Prop :=
  ∀ reply, callback calls = some reply → reply.elements = none

def Quiet (callback : Answers) (first last : List Call) : Prop :=
  ∀ calls, first <+: calls → calls ≠ first → calls <+: last → Plain callback calls

theorem quiet_self (calls : List Call) : Quiet callback calls calls := by
  intro between after differs before
  exact absurd (before.eq_of_length_le after.length_le) differs

theorem quiet_step {first last : List Call} {call : Call} (made : first ++ [call] <+: last) :
    Quiet callback first last ↔
      Plain callback (first ++ [call]) ∧ Quiet callback (first ++ [call]) last := by
  constructor
  · intro quiet
    have differs : first ++ [call] ≠ first := fun same => by
      have := congrArg length same
      rw [length_append, length_singleton] at this
      omega
    refine ⟨quiet _ (prefix_append _ _) differs made, fun calls after other before => ?_⟩
    refine quiet calls ((prefix_append _ _).trans after) (fun same => ?_) before
    have := after.length_le
    rw [same, length_append, length_singleton] at this
    omega
  · rintro ⟨plain, quiet⟩ calls after differs before
    by_cases here : calls = first ++ [call]
    · rw [here]
      exact plain
    · refine quiet calls ?_ here before
      refine prefix_of_prefix_length_le made before ?_
      have longer : first.length < calls.length :=
        lt_of_le_of_ne after.length_le fun same => differs (after.eq_of_length same).symm
      rw [length_append, length_singleton]
      exact longer

theorem building_calls {pieces : Nat → Reply → List LRValue} (is : List Nat)
    (out out' : List LRValue) (calls : List Call) :
    ((building this_val xs this_arg pieces).run callback out is calls).2 =
      ((building this_val xs this_arg pieces).run callback out' is calls).2 := by
  induction is generalizing out out' calls with
  | nil => rfl
  | cons i is ih =>
    cases replied : callback (calls ++ [visitCall this_val xs this_arg i]) with
    | none =>
      rw [run_throw replied, run_throw replied]
      rfl
    | some reply =>
      rw [run_next _ replied rfl, run_next _ replied rfl]
      exact ih _ _ _

/-- The loop of `flatMap` makes the calls that are meant.  Where no call returns an array it builds
what is meant, otherwise it loses an array. -/
theorem spread_eq {ref : Nat} (is : List Nat) (out : List LRValue)
    (accounts : log.ledger.Accounts (ref :: held) lost) :
    let flat := (flattening this_val xs this_arg).run callback out is log.calls
    ∃ result after lost', spread callback this_val this_arg xs ⟨array, ref⟩ is out log =
        (result, after) ∧
      after.calls = flat.2 ∧ after.ledger.Accounts held lost' ∧ lost.length ≤ lost'.length ∧
      (Quiet callback log.calls flat.2 → result = (ended flat).1 ∧ lost' = lost) ∧
      (¬ Quiet callback log.calls flat.2 → lost.length < lost'.length) := by
  induction is generalizing log out lost with
  | nil =>
    exact ⟨_, { log with ledger := log.ledger.release ref }, lost, rfl, rfl, accounts.release,
      Nat.le_refl _, fun _ => ⟨rfl, rfl⟩, fun loud => absurd (quiet_self _) loud⟩
  | cons i is ih =>
    cases replied : callback (log.calls ++ [visitCall this_val xs this_arg i]) with
    | none =>
      obtain ⟨val, after, visited, calls, kept⟩ := visit_throw accounts replied
      rw [run_throw replied]
      refine ⟨.exception, { after with ledger := (after.ledger.release val).release ref }, lost,
        ?_, calls, kept.release.release, Nat.le_refl _, fun _ => ⟨rfl, rfl⟩, fun loud => ?_⟩
      · unfold spread
        rw [bind_eq visited]
        rfl
      · refine absurd ((quiet_step (prefix_refl _)).mpr ⟨fun reply given => ?_,
          quiet_self _⟩) loud
        cases replied.symm.trans given
    | some reply =>
      obtain ⟨val, result, after, visited, calls, kept⟩ := visit_reply accounts replied
      rw [@run_next _ _ _ _ _ (flattening this_val xs this_arg) _ _ _ is _ _
        (out ++ reply.elements.getD [reply.value]) replied rfl]
      have made := @quiet_step callback _ _ _ (@prefix_run _ _ _ _ _
        (flattening this_val xs this_arg) callback (out ++ reply.elements.getD [reply.value]) is
        (log.calls ++ [visitCall this_val xs this_arg i]))
      cases elements : reply.elements with
      | none =>
        rw [elements] at made
        have plain : Plain callback (log.calls ++ [visitCall this_val xs this_arg i]) := by
          intro other given
          rw [replied] at given
          cases given
          exact elements
        obtain ⟨r, last, lost', rest, final, account, grows, quiet, loud⟩ :=
          @ih
            { after with ledger := (after.ledger.release val).release result } lost
            (out ++ [reply.value]) kept.release.release
        simp only [calls] at final quiet loud
        refine ⟨r, last, lost', ?_, final, account, grows, fun silent => ?_, fun noisy => ?_⟩
        · unfold spread
          rw [bind_eq visited, elements]
          exact rest
        · exact quiet (made.mp silent).2
        · exact loud fun silent => noisy (made.mpr ⟨plain, silent⟩)
      | some items =>
        rw [elements] at made
        obtain ⟨owned, all, same, account⟩ := @ownAll_eq
          { after with ledger := after.ledger.release val } _ _ items kept.release
        obtain ⟨r, last, lost', rest, final, account, grows, quiet, loud⟩ :=
          @ih owned (result :: lost)
            (out ++ items.filter (· ≠ .undefined)) account.lose
        have more : lost.length < lost'.length := by
          rw [length_cons] at grows
          omega
        refine ⟨r, last, lost', ?_, ?_, account, more.le, fun silent => ?_, fun _ => more⟩
        · unfold spread
          rw [bind_eq visited, elements]
          change ((ownAll items >>= fun _ => _) { after with
            ledger := after.ledger.release val }) = _
          rw [bind_eq all]
          exact rest
        · simp only [calls] at same
          rw [final, same]
          exact building_calls _ _ _ _
        · have array := (made.mp silent).1 reply replied
          rw [elements] at array
          cases array

/-- The loops that accumulate fold the elements; each call loses the copy of the accumulator
and the element. -/
theorem accumulate_eq {ref : Nat} (is : List Nat) (accumulator : LRValue)
    (accounts : log.ledger.Accounts (ref :: held) lost) :
    let folded := (folding this_val xs).run callback accumulator is log.calls
    ∃ after lost', accumulate callback this_val xs is ⟨accumulator, ref⟩ log =
        ((ended folded).1, after) ∧
      after.calls = folded.2 ∧ after.ledger.Accounts held lost' ∧
      lost'.length + 2 * log.calls.length = lost.length + 2 * after.calls.length := by
  induction is generalizing log lost accumulator ref with
  | nil =>
    exact ⟨{ log with ledger := log.ledger.release ref }, lost, rfl, rfl, accounts.release, rfl⟩
  | cons i is ih =>
    -- the element, the copy, the index and the array
    have both := (accounts.acquire.acquire.perm
      (@List.perm_middle _ _ [log.ledger.next + 1, log.ledger.next] _)).release
    have four := ((both.acquire.acquire.perm (swap _ _ _)).release).release
    have longer : (log.calls ++ [(folding this_val xs).call accumulator i]).length =
        log.calls.length + 1 := by
      rw [length_append, length_singleton]
    cases replied : callback (log.calls ++ [(folding this_val xs).call accumulator i]) with
    | none =>
      rw [run_throw replied]
      refine ⟨⟨_, _⟩, _, ?_, rfl, four.lose.lose, ?_⟩
      · unfold folding at replied
        simp only [accumulate, own, JS_Call, release, bind, StateT.bind, pure,
          map_cons, map_nil, replied]
        rfl
      · rw [length_cons, length_cons, longer]
        omega
    | some reply =>
      rw [run_next reply.value replied rfl]
      have five := ((both.acquire.acquire.acquire.perm
        (@List.perm_middle _ _ [_, _] _)).release.perm (swap _ _ _)).release
      have arranged := five.perm
        (@List.perm_middle _ (log.ledger.next + 4) [_, _] _).symm
      obtain ⟨last, lost', rest, made, final, count⟩ := @ih
        ⟨_, log.calls ++ [(folding this_val xs).call accumulator i]⟩ _ _ reply.value
        arranged.lose.lose
      refine ⟨last, lost', ?_, made, final, ?_⟩
      · unfold folding at replied
        simp only [accumulate, own, JS_Call, release, bind, StateT.bind, map_cons,
          map_nil, replied]
        exact rest
      · rw [longer, length_cons, length_cons] at count
        omega

end Loops

section Throws

variable {callback : Callback}

theorem Callback.answers_of_replies (calls : List Call) (reply : Reply)
    (replied : callback.replies calls = some reply) : callback.answers calls = some reply := by
  unfold Callback.replies at replied
  unfold Callback.answers
  cases outcome : callback calls with
  | replied given => rwa [outcome] at replied
  | scriptThrew | nativeThrew =>
    rw [outcome] at replied
    cases replied

theorem Callback.strays_iff {calls : List Call} :
    callback.Strays calls ↔
      callback.replies calls = none ∧ (callback.answers calls).isSome := by
  unfold Callback.Strays Callback.replies Callback.answers
  cases callback calls <;> simp

/-- A script function that throws answers `undefined` to the loop. -/
theorem Callback.answer_stray {calls : List Call} {reply : Reply}
    (thrown : callback.replies calls = none) (answered : callback.answers calls = some reply) :
    reply = ⟨.undefined, none⟩ := by
  unfold Callback.replies at thrown
  unfold Callback.answers at answered
  cases outcome : callback calls with
  | replied given =>
    rw [outcome] at thrown
    cases thrown
  | scriptThrew =>
    rw [outcome] at answered
    cases answered
    rfl
  | nativeThrew =>
    rw [outcome] at answered
    cases answered

theorem Callback.error_flag_iff {calls : List Call} :
    callback.error_flag calls = true ↔
      ∃ made, made <+: calls ∧ made ≠ [] ∧ callback.Strays made := by
  unfold Callback.error_flag
  rw [List.any_eq_true]
  have tail (made : List Call) : made ∈ calls.inits.tail ↔ made <+: calls ∧ made ≠ [] := by
    cases calls with
    | nil => simp
    | cons call calls =>
      rw [inits_cons, tail_cons, List.mem_map]
      constructor
      · rintro ⟨rest, before, rfl⟩
        exact ⟨cons_prefix_cons.mpr ⟨rfl, (mem_inits _ _).mp before⟩, cons_ne_nil _ _⟩
      · rintro ⟨before, some_calls⟩
        cases made with
        | nil => exact absurd rfl some_calls
        | cons first rest =>
          obtain ⟨rfl, rest_before⟩ := cons_prefix_cons.mp before
          exact ⟨rest, (mem_inits _ _).mpr rest_before, rfl⟩
  simp only [tail, decide_eq_true_eq, and_assoc]

section Fold

variable {State : Type} (fold : CallbackFold State Nat Call Reply Result)

/-- Among the calls that are meant only the last one can throw. -/
theorem error_flag_run (state : State) (is : List Nat) :
    let calls := (fold.run callback.replies state is []).2
    callback.error_flag calls = true ↔ calls ≠ [] ∧ callback.Strays calls := by
  intro calls
  rw [Callback.error_flag_iff]
  constructor
  · rintro ⟨made, before, some_calls, strays⟩
    by_cases last : made = calls
    · rw [← last]
      exact ⟨some_calls, strays⟩
    · have replied := replied_before state is nil_prefix some_calls before last
      rw [(Callback.strays_iff.mp strays).1] at replied
      cases replied
  · rintro ⟨some_calls, strays⟩
    exact ⟨calls, prefix_refl _, some_calls, strays⟩

/-- With the calls that are meant, the loop and the error that a script function has left give
the result that is meant. -/
theorem outcome_eq (state : State) (is : List Nat)
    (same : (fold.run callback.answers state is []).2 = (fold.run callback.replies state is []).2) :
    (if callback.error_flag (fold.run callback.answers state is []).2 then Result.exception
      else (ended (fold.run callback.answers state is [])).1) =
      (ended (fold.run callback.replies state is [])).1 := by
  rw [same]
  by_cases flag : callback.error_flag (fold.run callback.replies state is []).2 = true
  · rw [if_pos flag]
    obtain ⟨some_calls, strays⟩ := (error_flag_run fold state is).mp flag
    have thrown := run_none state is some_calls (Callback.strays_iff.mp strays).1
    unfold ended
    rw [thrown]
    rfl
  · rw [if_neg flag]
    cases is with
    | nil => rfl
    | cons i is =>
      have some_calls : (fold.run callback.replies state (i :: is) []).2 ≠ [] := fun none =>
        cons_ne_nil _ _ ((run_calls_eq_self state (i :: is)).mp none)
      rw [run_eq Callback.answers_of_replies state (i :: is) fun thrown => ?_]
      by_contra answered
      exact flag ((error_flag_run fold state (i :: is)).mpr ⟨some_calls,
        Callback.strays_iff.mpr ⟨thrown, isSome_iff_ne_none.mpr answered⟩⟩)

end Fold

end Throws

section Methods

variable {callback : Callback} {method : Method}

/-- If a script function throws, then at the call for the last element. -/
def Ends (callback : Callback) (this_val : LRValue) (xs : List LRValue) (method : Method) :
    Prop :=
  let calls := (meant callback.replies this_val xs method).2
  callback.Strays calls → calls.length = xs.length

/-- Where the methods do what is meant: `every` always, the others if no script function throws
before the last element; `flatMap` if the callback also returns no array, `reduce` and
`reduceRight` if it is not called, and `reduce` then with a 32-bit initial value. -/
def Faithful (callback : Callback) (this_val : LRValue) (xs : List LRValue) : Method → Prop
  | .every _ => True
  | .flatMap this_arg =>
    Quiet callback.replies [] (meant callback.replies this_val xs (.flatMap this_arg)).2 ∧
      Ends callback this_val xs (.flatMap this_arg)
  | .reduce none | .reduceRight none => xs.length ≤ 1
  | .reduce (some init) =>
    xs = [] ∧ ∃ n, Double.InInt32 n ∧ (init = .int32 n ∨ init = .float64 (.ofInt n))
  | .reduceRight (some _) => xs = []
  | method => Ends callback this_val xs method

theorem Result.same_refl (result : Result) : result.Same result := by
  cases result with
  | value v => exact .inl rfl
  | array xs => rfl
  | exception | typeError text => trivial

section Fold

variable {State : Type} {fold : CallbackFold State Nat Call Reply Result} {state : State}
variable {is : List Nat} {after : Log}

/-- A method whose loop is a fold is right if the loop makes the calls that are meant and loses
no reference. -/
theorem right_iff
    (ran : callMethod callback.answers this_val array xs method =
      ((ended (fold.run callback.answers state is [])).1, after))
    (meaning : meant callback.replies this_val xs method =
      ended (fold.run callback.replies state is []))
    (calls : after.calls = (fold.run callback.answers state is []).2)
    (account : after.ledger.Accounts [] lost) :
    Right callback this_val xs array method ↔
      (fold.run callback.answers state is []).2 = (fold.run callback.replies state is []).2 ∧
        lost = [] := by
  unfold Right run
  rw [ran, meaning, ← account.settled_iff]
  simp only [calls]
  constructor
  · rintro ⟨-, same, settled⟩
    exact ⟨same, settled⟩
  · rintro ⟨same, settled⟩
    refine ⟨?_, same, settled⟩
    rw [outcome_eq fold state is same]
    exact Result.same_refl _

/-- A loop that `undefined` does not end makes the calls that are meant if a script function
throws at the last element only. -/
theorem calls_iff_ends (meaning : meant callback.replies this_val xs method =
      ended (fold.run callback.replies state is []))
    (visited : is.length = xs.length)
    (goesOn : ∀ state i, ∃ next, fold.absorb state i ⟨.undefined, none⟩ = .inl next) :
    (fold.run callback.answers state is []).2 = (fold.run callback.replies state is []).2 ↔
      Ends callback this_val xs method := by
  rw [run_calls_iff Callback.answers_of_replies fun calls reply thrown answered state i =>
    Callback.answer_stray thrown answered ▸ goesOn state i]
  unfold Ends
  simp only [meaning, Callback.strays_iff, visited, length_nil, Nat.zero_add]
  exact ⟨fun last strays => last strays.1 strays.2,
    fun last thrown answered => last ⟨thrown, answered⟩⟩

end Fold

theorem inInt32_toInt32 (d : Double) : Double.InInt32 d.toInt32 := by
  unfold Double.InInt32 Double.toInt32
  split
  · split <;> omega
  · decide

/-- Adding up no elements answers the initial value only for integers. -/
theorem fastSum_same (init : LRValue) :
    (Result.value (fastSum [] init)).Same (.value init) ↔
      ∃ n, Double.InInt32 n ∧ (init = .int32 n ∨ init = .float64 (.ofInt n)) := by
  have other (differs : ∀ n, init ≠ .int32 n ∧ init ≠ .float64 (.ofInt n))
      (sum : fastSum [] init = .int32 0) :
      (Result.value (fastSum [] init)).Same (.value init) ↔
        ∃ n, Double.InInt32 n ∧ (init = .int32 n ∨ init = .float64 (.ofInt n)) := by
    rw [sum]
    refine iff_of_false ?_ ?_
    · rintro (same | ⟨n, -, same⟩)
      · exact (differs 0).1 same.symm
      · exact (differs n).2 same
    · rintro ⟨n, -, same | same⟩
      · exact (differs n).1 same
      · exact (differs n).2 same
  cases init with
  | int32 n =>
    by_cases range : Double.InInt32 n
    · have sum : fastSum [] (.int32 n) = .int32 n := if_pos range
      rw [sum]
      exact iff_of_true (.inl rfl) ⟨n, range, .inl rfl⟩
    · have sum : fastSum [] (.int32 n) = .float64 (.ofInt n) := if_neg range
      rw [sum]
      refine iff_of_false ?_ ?_
      · rintro (same | ⟨m, same, -⟩)
        · cases same
        · cases same
      · rintro ⟨m, inside, same | same⟩
        · cases same
          exact range inside
        · cases same
  | float64 d =>
    have sum : fastSum [] (.float64 d) = .int32 d.toInt32 := if_pos (inInt32_toInt32 d)
    rw [sum]
    constructor
    · rintro (same | ⟨n, same, whole⟩)
      · cases same
      · cases same
        exact ⟨_, inInt32_toInt32 d, .inr whole⟩
    · rintro ⟨n, range, same | same⟩
      · cases same
      · cases same
        rw [Double.toInt32_ofInt range]
        exact .inr ⟨n, rfl, rfl⟩
  | _ => exact other (fun n => ⟨by rintro ⟨⟩, by rintro ⟨⟩⟩) rfl

theorem reduce_init (init : LRValue) :
    Right callback this_val xs array (.reduce (some init)) ↔
      Faithful callback this_val xs (.reduce (some init)) := by
  change _ ↔ xs = [] ∧ _
  rw [← fastSum_same init]
  constructor
  · intro right
    have calls : [] = (meant callback.replies this_val xs (.reduce (some init))).2 := right.2.1
    have none : upwards xs = [] := (run_calls_eq_self init (upwards xs)).mp calls.symm
    have empty : xs = [] := length_eq_zero_iff.mp (range_eq_nil.mp none)
    subst empty
    exact ⟨rfl, right.1⟩
  · rintro ⟨rfl, same⟩
    exact ⟨same, rfl, List.Perm.refl _⟩

@[simp] theorem length_upwards : (upwards xs).length = xs.length :=
  length_range

@[simp] theorem length_downwards : (downwards xs).length = xs.length := by
  rw [downwards, length_reverse, length_range]

section Tests

variable {stops : Bool → Bool} {found : Nat → LRValue} {missing : LRValue} {is : List Nat}
variable (ran : callMethod callback.answers this_val array xs method =
  test callback.answers this_val this_arg xs stops found missing is ⟨.empty, []⟩)
variable (meaning : meant callback.replies this_val xs method =
  ended ((searching this_val xs this_arg stops found missing).run callback.replies () is []))
include ran meaning

theorem test_right_iff : Right callback this_val xs array method ↔
    ((searching this_val xs this_arg stops found missing).run callback.answers () is []).2 =
      ((searching this_val xs this_arg stops found missing).run callback.replies () is []).2 := by
  obtain ⟨after, rest, made, account⟩ := @test_eq this_val this_arg xs ⟨empty, []⟩ [] []
    callback.answers stops found missing is accounts_empty
  rw [right_iff (ran.trans rest) meaning made account]
  exact and_iff_left rfl

/-- The test that `undefined` ends is always right. -/
theorem test_right (ends : stops false = true) : Right callback this_val xs array method :=
  (test_right_iff ran meaning).mpr <| run_calls_eq Callback.answers_of_replies
    (fun _ _ thrown answered _ i =>
      ⟨.value (found i), Callback.answer_stray thrown answered ▸ if_pos ends⟩) () is

theorem test_right_iff_ends (goesOn : stops false = false) (visited : is.length = xs.length) :
    Right callback this_val xs array method ↔ Ends callback this_val xs method :=
  (test_right_iff ran meaning).trans <| calls_iff_ends meaning visited fun _ _ =>
    ⟨(), if_neg (ne_true_of_eq_false goesOn)⟩

end Tests

theorem pick_right {is : List Nat} (ran : callMethod callback.answers this_val array xs method =
      pick callback.answers this_val this_arg xs is ⟨.empty, []⟩)
    (meaning : meant callback.replies this_val xs method =
      ended ((searching this_val xs this_arg (fun ok => ok) (fun i => xs.getD i .undefined)
        .undefined).run callback.replies () is []))
    (visited : is.length = xs.length) :
    Right callback this_val xs array method ↔ Ends callback this_val xs method := by
  obtain ⟨after, rest, made, account⟩ := @pick_eq this_val this_arg xs ⟨empty, []⟩ [] []
    callback.answers is accounts_empty
  rw [right_iff (ran.trans rest) meaning made account,
    calls_iff_ends meaning visited fun _ _ => ⟨(), rfl⟩]
  exact and_iff_left rfl

theorem filter_right : Right callback this_val xs array (.filter this_arg) ↔
    Ends callback this_val xs (.filter this_arg) := by
  obtain ⟨after, rest, made, account⟩ := @select_eq this_val this_arg array xs
    ⟨empty.acquire, []⟩ [] [] callback.answers 0 (upwards xs) [] accounts_empty.acquire
  rw [@right_iff _ _ _ _ _ (.filter this_arg) _ (filtering this_val xs this_arg) _ _ _ rest rfl
      made account,
    @calls_iff_ends _ _ _ (.filter this_arg) _ (filtering this_val xs this_arg) _ _ rfl
      length_upwards fun out i => ⟨_, rfl⟩]
  exact and_iff_left rfl

/-- A throw of a script function is no array. -/
theorem quiet_answers {calls : List Call} :
    Quiet callback.answers [] calls ↔ Quiet callback.replies [] calls := by
  have plain (made : List Call) : Plain callback.answers made ↔ Plain callback.replies made := by
    constructor
    · intro plain reply replied
      exact plain reply (Callback.answers_of_replies _ _ replied)
    · intro plain reply answered
      cases replied : callback.replies made with
      | none =>
        rw [Callback.answer_stray replied answered]
      | some given =>
        rw [Callback.answers_of_replies _ _ replied] at answered
        cases answered
        exact plain _ replied
  simp only [Quiet, plain]

/-- `flatMap` is right exactly if its condition holds. -/
theorem flatMap_right :
    Right callback this_val xs array (.flatMap this_arg) ↔
      Faithful callback this_val xs (.flatMap this_arg) := by
  obtain ⟨result, after, lost', rest, made, account, -, quiet, loud⟩ := @spread_eq this_val
    this_arg array xs ⟨empty.acquire, []⟩ [] [] callback.answers 0 (upwards xs) []
    accounts_empty.acquire
  have ran : callMethod callback.answers this_val array xs (.flatMap this_arg) =
    (result, after) := rest
  have same_calls := @calls_iff_ends this_val xs callback (.flatMap this_arg) _
    (flattening this_val xs this_arg) [] (upwards xs) rfl length_upwards fun out i => ⟨_, rfl⟩
  constructor
  · intro right
    unfold Right run at right
    rw [ran] at right
    obtain ⟨-, calls, settled⟩ := right
    have none := account.settled_iff.mp settled
    have silent : Quiet callback.answers [] after.calls := by
      by_contra noisy
      rw [made] at noisy
      have some_lost := loud noisy
      rw [none] at some_lost
      exact Nat.lt_irrefl 0 some_lost
    refine ⟨quiet_answers.mp ?_, same_calls.mp (made.symm.trans calls)⟩
    change Quiet _ _ ((flattening this_val xs this_arg).run callback.replies [] (upwards xs) []).2
    rwa [← calls]
  · rintro ⟨silent, ends⟩
    have calls := same_calls.mpr ends
    obtain ⟨same, none⟩ := quiet <| by
      rw [calls]
      exact quiet_answers.mpr silent
    rw [same] at ran
    exact (right_iff ran rfl made account).mpr ⟨calls, none⟩

theorem accumulate_right {accumulator : LRValue} {is : List Nat}
    (ran : callMethod callback.answers this_val array xs method =
      accumulate callback.answers this_val xs is ⟨accumulator, 0⟩ ⟨Ledger.empty.acquire, []⟩)
    (folds : meant callback.replies this_val xs method =
      ended ((folding this_val xs).run callback.replies accumulator is [])) :
    Right callback this_val xs array method ↔ is = [] := by
  obtain ⟨after, lost', rest, made, account, count⟩ := @accumulate_eq this_val xs
    ⟨empty.acquire, []⟩ [] [] callback.answers 0 is accumulator accounts_empty.acquire
  have lost_calls : lost' = [] ↔ is = [] := by
    rw [← @run_calls_eq_self _ _ _ _ _ (folding this_val xs) callback.answers [] accumulator is,
      ← made, ← length_eq_zero_iff, ← length_eq_zero_iff]
    simp only [length_nil] at count
    omega
  rw [right_iff (ran.trans rest) folds made account, lost_calls]
  refine and_iff_right_of_imp ?_
  rintro rfl
  rfl

theorem reduce_first : Right callback this_val xs array (.reduce none) ↔ xs.length ≤ 1 := by
  cases xs with
  | nil => exact iff_of_true ⟨trivial, rfl, List.Perm.refl _⟩ (Nat.zero_le 1)
  | cons x xs =>
    have indices : upwards (x :: xs) = 0 :: (upwards (x :: xs)).tail := by
      rw [upwards, length_cons, range_succ_eq_map]
      rfl
    have folds : meant callback.replies this_val (x :: xs) (.reduce none) =
        ended
          ((folding this_val (x :: xs)).run callback.replies x (upwards (x :: xs)).tail []) := by
      unfold meant
      rw [indices]
      rfl
    rw [accumulate_right rfl folds, ← length_eq_zero_iff, length_tail, length_upwards]
    omega

theorem reduceRight_last :
    Right callback this_val xs array (.reduceRight none) ↔ xs.length ≤ 1 := by
  by_cases empty : xs = []
  · rw [empty]
    exact iff_of_true ⟨trivial, rfl, List.Perm.refl _⟩ (Nat.zero_le 1)
  · have some_elements : xs.length ≠ 0 := fun zero => empty (length_eq_zero_iff.mp zero)
    obtain ⟨n, long⟩ := Nat.exists_eq_succ_of_ne_zero some_elements
    have indices : downwards xs = (xs.length - 1) :: (downwards xs).tail := by
      rw [downwards, long, range_succ, reverse_append]
      rfl
    have folds : meant callback.replies this_val xs (.reduceRight none) =
        ended ((folding this_val xs).run callback.replies (xs.getD (xs.length - 1) .undefined)
          (downwards xs).tail []) := by
      unfold meant
      rw [indices]
      rfl
    have ran : callMethod callback.answers this_val array xs (.reduceRight none) =
        accumulate callback.answers this_val xs (downwards xs).tail
          ⟨xs.getD (xs.length - 1) .undefined, 0⟩ ⟨Ledger.empty.acquire, []⟩ := by
      unfold callMethod js_array_proto_reduce_right
      rw [if_neg some_elements]
      rfl
    rw [accumulate_right ran folds, ← length_eq_zero_iff, length_tail, length_downwards]
    omega

end Methods

end LRJS.ArrayCallbacks
