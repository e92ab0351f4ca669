import LRJS.ResolveRecords
import Mathlib.Data.List.Count

/-!
# When the records are freed

The counts of all references agree with their places, and a record is freed
with the last reference to its resolve function.  As long as the reject
function goes first, nobody reads a record that has been freed.
-/

namespace LRJS.ResolveRecords

open RefCounts List Option LRPromiseData

namespace State

/-- The record of a pair is there as long as the resolve function is; then nobody has the
reject function either. -/
def Whole (s : State) (locals : List Ref) (i : Nat) (data : PromiseResolveData) : Prop :=
  data.released = 0 ∧ 0 < s.ref_count (.resolve i) ∨
    data.released = 1 ∧ s.ref_count (.resolve i) = 0 ∧ .reject i ∉ locals ++ s.users

/-- The functions of `lr_new_promise_capability` free no record. -/
def Cared (s : State) (locals : List Ref) (i : Nat) (pair : Pair) : Prop :=
  pair.data_free = true ∧ pair.own = none ∧ s.Whole locals i pair.data ∨
    pair.data_free = false ∧ ∀ data ∈ pair.records, data.released = 0

variable {s : State}

theorem Cared.mono {s' : State} {locals locals' : List Ref} {i : Nat} {pair : Pair}
    (cared : s.Cared locals i pair)
    (step : s.Whole locals i pair.data → s'.Whole locals' i pair.data) :
    s'.Cared locals' i pair := by
  rcases cared with ⟨data_free, own, whole⟩ | kept
  · exact .inl ⟨data_free, own, step whole⟩
  · exact .inr kept

structure JobsKept (job_data : List JobData) (waiting : List Nat) : Prop where
  distinct : waiting.Nodup
  known : ∀ id ∈ waiting, id < job_data.length
  released : ∀ (id : Nat) (jd : JobData), job_data[id]? = some jd →
    jd.released = if id ∈ waiting then 0 else 1

structure Sound (locals : List Ref) (s : State) : Prop where
  going : s.ended = false
  balanced : Balanced s.ref_count (locals ++ s.places)
  whole : ∀ (i : Nat) (pair : Pair), s.pairs[i]? = some pair →
    s.Cared locals i pair
  jobs : JobsKept s.job_data (s.jobs ++ s.running)

theorem mem_places_of_users {r : Ref} (user : r ∈ s.users) : r ∈ s.places :=
  mem_append_left _ (mem_append_left _ (mem_append_left _ user))

theorem mem_locals_places {locals : List Ref} {r : Ref}
    (user : r ∈ locals ++ s.users) : r ∈ locals ++ s.places := by
  cases mem_append.mp user with
  | inl here => exact mem_append_left _ here
  | inr used => exact mem_append_right _ (mem_places_of_users used)

theorem JobsKept.append {job_data : List JobData} {jobs running : List Nat}
    (kept : JobsKept job_data (jobs ++ running)) (jd : JobData) (fresh : jd.released = 0) :
    JobsKept (job_data ++ [jd]) (jobs ++ [job_data.length] ++ running) := by
  have members : ∀ id, id ∈ jobs ++ [job_data.length] ++ running ↔
      id = job_data.length ∨ id ∈ jobs ++ running := by
    intro id
    simp only [mem_append, mem_singleton]
    tauto
  have new : job_data.length ∉ jobs ++ running := fun member =>
    Nat.lt_irrefl _ (kept.known _ member)
  constructor
  · have order : (jobs ++ [job_data.length] ++ running).Perm
        (job_data.length :: (jobs ++ running)) := by
      rw [append_assoc]
      exact perm_middle
    exact order.nodup_iff.mpr (nodup_cons.mpr ⟨new, kept.distinct⟩)
  · intro id member
    rw [length_append, length_singleton]
    rcases (members id).mp member with rfl | old
    · exact Nat.lt_succ_self _
    · exact Nat.lt_succ_of_lt (kept.known id old)
  · intro id found here
    rw [if_congr (members id) rfl rfl]
    rcases Nat.lt_or_ge id job_data.length with old | new
    · rw [List.getElem?_append_left old] at here
      rw [if_congr (or_iff_right (Nat.ne_of_lt old)) rfl rfl]
      exact kept.released id found here
    · rw [getElem?_append_right new, getElem?_singleton] at here
      split at here
      · cases here
        have same : id = job_data.length := by omega
        rw [if_pos (.inl same), fresh]
      · cases here

theorem JobsKept.perm {job_data : List JobData} {waiting waiting' : List Nat}
    (kept : JobsKept job_data waiting) (same : waiting.Perm waiting') :
    JobsKept job_data waiting' where
  distinct := same.nodup_iff.mp kept.distinct
  known id member := kept.known id (same.mem_iff.mpr member)
  released id jd found := by
    rw [if_congr same.mem_iff.symm rfl rfl]
    exact kept.released id jd found

def Unpaired (s : State) : Ref → Prop
  | .promise _ => True
  | .resolve i | .reject i => s.pairs.length ≤ i

namespace Sound

variable {s s' : State} {locals locals' : List Ref}

section

variable (sound : Sound locals s)
include sound

theorem moved (ended : s'.ended = s.ended)
    (counts : s'.ref_count = s.ref_count) (pairs : s'.pairs = s.pairs)
    (places : ∀ r, (locals' ++ s'.places).count r = (locals ++ s.places).count r)
    (users : ∀ r ∈ locals' ++ s'.users, r ∈ locals ++ s.users)
    (jobs : JobsKept s'.job_data (s'.jobs ++ s'.running)) : Sound locals' s' where
  going := ended.trans sound.going
  balanced := by
    rw [counts]
    exact sound.balanced.of_count places
  whole i pair found := by
    rw [pairs] at found
    refine (sound.whole i pair found).mono fun whole => ?_
    unfold Whole
    rw [counts]
    rcases whole with there | ⟨released, gone, nobody⟩
    · exact .inl there
    · exact .inr ⟨released, gone, fun user => nobody (users _ user)⟩
  jobs := jobs

/-- References that someone has may be taken once more. -/
theorem lr_dup_value (refs : List Ref) (has : ∀ r ∈ refs, r ∈ locals ++ s.users ∨ s.Unpaired r) :
    Sound (refs ++ locals) (s.lr_dup_value refs) where
  going := sound.going
  balanced := by
    rw [append_assoc]
    exact sound.balanced.dup refs
  whole i pair found := by
    refine (sound.whole i pair found).mono fun whole => ?_
    have paired : i < s.pairs.length := (List.getElem?_eq_some_iff.mp found).1
    rcases whole with ⟨there, used⟩ | ⟨released, gone, nobody⟩
    · exact .inl ⟨there, Nat.lt_of_lt_of_le used (le_dup _ _ _)⟩
    · refine .inr ⟨released, ?_, ?_⟩
      · have absent : .resolve i ∉ refs := by
          intro member
          rcases has _ member with user | new
          · exact sound.balanced.notMem gone (mem_locals_places user)
          · exact Nat.not_le_of_lt paired new
        unfold State.lr_dup_value dup
        dsimp only
        rw [gone, count_eq_zero_of_not_mem absent]
      · intro user
        rw [append_assoc] at user
        rcases mem_append.mp user with new | old
        · rcases has _ new with user | new
          · exact nobody user
          · exact Nat.not_le_of_lt paired new
        · exact nobody old
  jobs := sound.jobs

theorem lr_new_promise : Sound ([s.newPromise] ++ locals) s.lr_new_promise := by
  have taken : Sound ([s.newPromise] ++ locals) (s.lr_dup_value [s.newPromise]) := by
    apply sound.lr_dup_value
    intro r member
    rw [mem_singleton.mp member]
    exact .inr trivial
  have users : s.lr_new_promise.users = (s.lr_dup_value [s.newPromise]).users := by
    unfold State.users State.lr_new_promise
    simp [refs, State.lr_dup_value]
  have counts : s.lr_new_promise.ref_count = (s.lr_dup_value [s.newPromise]).ref_count := rfl
  refine taken.moved rfl counts rfl ?_ ?_ ?_
  · intro r
    unfold places
    rw [users]
    rfl
  · intro r user
    rw [users] at user
    exact user
  · exact taken.jobs

theorem reordered (same : ∀ r, locals'.count r = locals.count r) : Sound locals' s := by
  refine sound.moved rfl rfl rfl ?_ ?_ sound.jobs
  · intro r
    rw [count_append, count_append, same r]
  · intro r user
    rw [mem_append, ← count_pos_iff] at user ⊢
    rw [same r] at user
    exact user

end

theorem append_pair (pair : Pair) (sound : Sound (pair.refs ++ locals) s)
    (cared : s.Cared locals s.pairs.length pair) :
    Sound locals { s with pairs := s.pairs ++ [pair] } where
  going := sound.going
  balanced := by
    refine sound.balanced.of_count fun r => ?_
    unfold places users
    simp only [flatMap_append, flatMap_cons, flatMap_nil, append_nil,
      count_append]
    omega
  whole i other found := by
    rcases Nat.lt_or_ge i s.pairs.length with old | new
    · rw [List.getElem?_append_left old] at found
      refine (sound.whole i other found).mono fun whole => ?_
      rcases whole with there | ⟨released, gone, nobody⟩
      · exact .inl there
      · refine .inr ⟨released, gone, fun user => nobody ?_⟩
        rw [append_assoc]
        exact mem_append_right _ user
    · rw [getElem?_append_right new, getElem?_singleton] at found
      split at found
      · cases found
        have here : i = s.pairs.length := by omega
        rw [here]
        exact cared
      · cases found
  jobs := sound.jobs

variable {refs : List Ref}

theorem functions_unpaired
    (new : ∀ r ∈ refs, (∃ p, r = .promise p) ∨ r = s.resolve_fn ∨ r = s.reject_fn) :
    ∀ r ∈ refs, r ∈ locals ++ s.users ∨ s.Unpaired r := by
  intro r member
  rcases new r member with ⟨p, rfl⟩ | rfl | rfl
  · exact .inr trivial
  · exact .inr (Nat.le_refl _)
  · exact .inr (Nat.le_refl _)

theorem createResolvingFunctions (sound : Sound locals s) (promise : Nat) :
    Sound ([s.resolve_fn, s.reject_fn] ++ locals)
      (s.createResolvingFunctions (.promise promise)) := by
  have taken := sound.lr_dup_value [.promise promise, s.resolve_fn, s.reject_fn]
    (functions_unpaired (by simp))
  refine append_pair ⟨⟨.promise promise, 0⟩, none, true⟩ taken ?_
  refine .inl ⟨rfl, rfl, .inl ⟨rfl, ?_⟩⟩
  unfold State.lr_dup_value dup resolve_fn
  simp only [count_cons, beq_self_eq_true, if_true]
  omega

theorem hold (sound : Sound (refs ++ locals) s) :
    Sound locals { s with held := refs ++ s.held } := by
  refine sound.moved rfl rfl rfl ?_ ?_ sound.jobs
  · intro r
    unfold places users
    simp only [count_append]
    omega
  · intro r user
    unfold users at user ⊢
    simp only [mem_append] at user ⊢
    tauto

theorem lr_new_promise_capability (sound : Sound [] s) : Sound [] s.lr_new_promise_capability := by
  let refs := [s.newPromise, s.newPromise, s.resolve_fn, s.reject_fn]
  have taken := sound.lr_new_promise.lr_dup_value refs (functions_unpaired (by
    simp only [refs, mem_cons, not_mem_nil, or_false]
    rintro r (rfl | rfl | rfl | rfl)
    · exact .inl ⟨_, rfl⟩
    · exact .inl ⟨_, rfl⟩
    · exact .inr (.inl rfl)
    · exact .inr (.inr rfl)))
  have paired : Sound [s.resolve_fn, s.reject_fn, s.newPromise] _ :=
    append_pair ⟨⟨s.newPromise, 0⟩, some ⟨s.newPromise, 0⟩, false⟩ taken ?_
  · have ordered : Sound ([s.newPromise, s.resolve_fn, s.reject_fn] ++ []) _ :=
      paired.reordered fun r => by
        simp only [count_append, count_cons, count_nil]
        omega
    exact ordered.hold
  · refine .inr ⟨rfl, ?_⟩
    simp [Pair.records]

variable {p : Nat} {pd : LRPromiseData}

theorem set_promise (sound : Sound locals s) {pd' : LRPromiseData}
    (found : s.promises[p]? = some pd)
    (same : ∀ r, (locals' ++ pd'.refs).count r = (locals ++ pd.refs).count r) :
    Sound locals' { s with promises := s.promises.set p pd' } := by
  have change := count_flatMap_set refs found pd'
  refine sound.moved rfl rfl rfl ?_ ?_ sound.jobs
  · intro r
    have here := change r
    have whole := same r
    unfold places users
    simp only [count_append] at here whole ⊢
    omega
  · intro r user
    have counted : (locals ++ s.users).count r =
        (locals' ++ ({ s with promises := s.promises.set p pd' } : State).users).count r := by
      have here := change r
      have whole := same r
      unfold users
      simp only [count_append] at here whole ⊢
      omega
    rw [← count_pos_iff, counted]
    exact count_pos_iff.mpr user

theorem lr_free_value (sound : Sound (refs ++ locals) s) : Sound locals (s.lr_free_value refs) := by
  refine sound.moved rfl rfl rfl ?_ ?_ sound.jobs
  · intro r
    unfold places State.lr_free_value users
    simp only [count_append]
    omega
  · intro r user
    rw [append_assoc]
    exact mem_append_right _ user

theorem leak (sound : Sound (refs ++ locals) s) : Sound locals (s.leak refs) := by
  refine sound.moved rfl rfl rfl ?_ ?_ sound.jobs
  · intro r
    unfold places State.leak users
    simp only [count_append]
    omega
  · intro r user
    rw [append_assoc]
    exact mem_append_right _ user

theorem lr_promise_trigger_reaction (sound : Sound locals s) {reaction : LRPromiseReaction}
    {value : Value} (has : ∀ r ∈ reaction.refs ++ value.toList, r ∈ locals ++ s.users) :
    Sound locals (s.lr_promise_trigger_reaction reaction value) := by
  have taken : Sound ((reaction.job value).all ++ locals)
      (s.lr_dup_value (reaction.job value).all) := by
    apply sound.lr_dup_value
    intro r member
    apply Or.inl
    apply has
    simp only [JobData.all, LRPromiseReaction.job, LRPromiseReaction.refs, mem_append,
      mem_cons, not_mem_nil, or_false] at member ⊢
    tauto
  have refs : (reaction.job value).refs = (reaction.job value).all := if_pos rfl
  refine taken.moved rfl rfl rfl ?_ ?_ (taken.jobs.append (reaction.job value) rfl)
  · intro r
    unfold places users State.lr_promise_trigger_reaction
    simp only [flatMap_append, count_append, flatMap_cons, flatMap_nil,
      append_nil, State.lr_dup_value, refs]
    omega
  · intro r user
    unfold users State.lr_promise_trigger_reaction at user
    unfold users
    simp only [flatMap_append, mem_append, flatMap_cons, flatMap_nil,
      append_nil, State.lr_dup_value, refs] at user ⊢
    tauto

theorem users_trigger (s : State) (reaction : LRPromiseReaction) (value : Value) {r : Ref}
    (user : r ∈ s.users) : r ∈ (s.lr_promise_trigger_reaction reaction value).users := by
  unfold users at user
  unfold users State.lr_promise_trigger_reaction
  simp only [flatMap_append, mem_append, State.lr_dup_value] at user ⊢
  tauto

theorem triggers (sound : Sound locals s) (reactions : List LRPromiseReaction) (value : Value)
    (has : ∀ r ∈ reactions.flatMap LRPromiseReaction.refs ++ value.toList,
      r ∈ locals ++ s.users) :
    Sound locals
      (reactions.foldl (fun s reaction => s.lr_promise_trigger_reaction reaction value) s) := by
  induction reactions generalizing s with
  | nil => exact sound
  | cons reaction rest ih =>
    apply ih
    · apply sound.lr_promise_trigger_reaction
      intro r member
      apply has r
      rw [flatMap_cons]
      simp only [mem_append] at member ⊢
      tauto
    · intro r member
      have user : r ∈ locals ++ s.users := by
        apply has r
        rw [flatMap_cons]
        simp only [mem_append] at member ⊢
        tauto
      rcases mem_append.mp user with here | user
      · exact mem_append_left _ here
      · exact mem_append_right _ (users_trigger s reaction value user)

section

variable (sound : Sound [] s) (found : s.promises[p]? = some pd) {value : Value} (has : s.Has value)
include sound found has

/-- Settling gives the references of a promise to its jobs or back. -/
theorem outcome (state : PromiseState) {triggered unused : List LRPromiseReaction}
    (parts : ∀ r, (pd.result.toList ++ triggered.flatMap LRPromiseReaction.refs ++
      unused.flatMap LRPromiseReaction.refs).count r = pd.refs.count r) :
    Sound [] (s.outcome p pd state value triggered unused) := by
  have taken : Sound (value.toList ++ []) (s.lr_dup_value value.toList) :=
    sound.lr_dup_value value.toList fun r member => .inl (has r (mem_toList.mp member))
  have changed : Sound pd.refs { s.lr_dup_value value.toList with
      promises := s.promises.set p ⟨state, value, [], []⟩ } := by
    refine taken.set_promise found fun r => ?_
    simp only [refs, flatMap_nil, append_nil, count_append]
    omega
  have scheduled := changed.triggers triggered value ?_
  · apply lr_free_value
    apply leak
    refine scheduled.reordered fun r => ?_
    have here := parts r
    simp only [count_append, append_nil] at here ⊢
    omega
  · intro r member
    rcases mem_append.mp member with reaction | passed
    · apply mem_append_left
      rw [← count_pos_iff, ← parts r, count_pos_iff]
      exact mem_append_left _ (mem_append_right _ reaction)
    · have set : (s.promises.set p ⟨state, value, [], []⟩)[p]? = some ⟨state, value, [], []⟩ :=
        List.getElem?_set_self (List.getElem?_eq_some_iff.mp found).1
      apply mem_append_right
      apply mem_append_left
      apply mem_append_right
      refine mem_flatMap.mpr ⟨_, mem_of_getElem? set, ?_⟩
      exact mem_append_left _ (mem_append_left _ passed)

theorem settle (rejected : Bool) : Sound [] (s.settle p pd rejected value) := by
  unfold State.settle
  split
  · apply sound.outcome found has
    intro r
    unfold refs
    simp only [count_append]
    omega
  · apply sound.outcome found has
    intro r
    rfl

end

/-- A registration holds the references of its reactions. -/
theorem addReactions {fr rr : LRPromiseReaction} (sound : Sound (fr.refs ++ rr.refs ++ locals) s)
    (found : s.promises[p]? = some pd) :
    Sound locals (s.addReactions p pd fr rr) := by
  have result : ∀ r ∈ pd.result.toList, r ∈ fr.refs ++ rr.refs ++ locals ++ s.users := by
    intro r member
    apply mem_append_right
    apply mem_append_left
    apply mem_append_right
    refine mem_flatMap.mpr ⟨pd, mem_of_getElem? found, ?_⟩
    exact mem_append_left _ (mem_append_left _ member)
  unfold State.addReactions
  cases pd.state with
  | pending =>
    apply leak
    have taken := sound.lr_dup_value (fr.refs ++ rr.refs) fun r member =>
      .inl (mem_append_left _ (mem_append_left _ member))
    refine taken.set_promise found fun r => ?_
    unfold refs
    simp only [flatMap_append, flatMap_cons, flatMap_nil, append_nil,
      count_append]
    omega
  | fulfilled =>
    apply lr_free_value
    apply leak
    rw [← append_assoc]
    apply sound.lr_promise_trigger_reaction
    intro r member
    rcases mem_append.mp member with reaction | passed
    · simp only [mem_append]
      tauto
    · exact result r passed
  | rejected =>
    apply lr_free_value
    apply leak
    have has : ∀ r ∈ rr.refs ++ pd.result.toList,
        r ∈ fr.refs ++ rr.refs ++ locals ++ s.users := by
      intro r member
      rcases mem_append.mp member with reaction | passed
      · simp only [mem_append]
        tauto
      · exact result r passed
    refine (sound.lr_promise_trigger_reaction has).reordered fun r => ?_
    simp only [count_append]
    omega

theorem returned {freed given : List Ref} (sound : Sound (freed ++ given) s) :
    Sound [] { s with dropping := s.dropping ++ freed, held := given ++ s.held } := by
  refine sound.moved rfl rfl rfl ?_ ?_ sound.jobs
  · intro r
    unfold places users
    simp only [count_append, count_nil]
    omega
  · intro r user
    unfold users at user ⊢
    simp only [mem_append, not_mem_nil, false_or] at user ⊢
    tauto

/-- A registration takes references to its handlers and derived promise. -/
theorem js_promise_then (sound : Sound [] s)
    (found : s.promises[p]? = some pd) {on_fulfilled on_rejected : Value}
    (fulfilled : s.Has on_fulfilled) (rejected : s.Has on_rejected) :
    Sound [] (s.js_promise_then p pd on_fulfilled on_rejected) := by
  let fr : LRPromiseReaction := ⟨on_fulfilled, s.resolve_fn, s.reject_fn, s.newPromise⟩
  let rr : LRPromiseReaction := ⟨on_rejected, s.resolve_fn, s.reject_fn, s.newPromise⟩
  let handlers := on_fulfilled.toList ++ on_rejected.toList
  let functions := [s.resolve_fn, s.reject_fn]
  have handled : Sound (handlers ++ []) (s.lr_dup_value handlers) := by
    apply sound.lr_dup_value
    intro r member
    rcases mem_append.mp member with here | here
    · exact .inl (fulfilled r (mem_toList.mp here))
    · exact .inl (rejected r (mem_toList.mp here))
  have made : Sound (functions ++ ([s.newPromise] ++ (handlers ++ []))) _ :=
    handled.lr_new_promise.createResolvingFunctions s.promises.length
  have ordered : Sound (handlers ++ functions ++ [s.newPromise]) _ :=
    made.reordered fun r => by
      simp only [count_append, append_nil]
      omega
  have reacting := ordered.lr_dup_value (fr.refs ++ rr.refs) fun r member => by
    apply Or.inl
    simp only [fr, rr, handlers, functions, LRPromiseReaction.refs, mem_append,
      mem_cons, not_mem_nil, or_false] at member ⊢
    tauto
  have kept : (s.promises ++ [⟨.pending, none, [], []⟩])[p]? = some pd := by
    rw [List.getElem?_append_left (List.getElem?_eq_some_iff.mp found).1]
    exact found
  have added := (reacting.addReactions kept).returned
  rw [← append_assoc] at added
  exact added

theorem drop (sound : Sound [] s) (has : ∀ r ∈ refs, refs.count r ≤ s.held.count r) :
    Sound [] ({ s with held := s.held.diff refs }.lr_free_value refs) := by
  have split : ∀ r, (s.held.diff refs).count r + refs.count r = s.held.count r := by
    intro r
    rw [count_diff]
    by_cases member : r ∈ refs
    · have := has r member
      omega
    · rw [count_eq_zero_of_not_mem member]
      omega
  refine sound.moved rfl rfl rfl ?_ ?_ sound.jobs
  · intro r
    have here := split r
    unfold places State.lr_free_value users
    simp only [count_append]
    omega
  · intro r user
    unfold users State.lr_free_value at user
    unfold users
    simp only [mem_append] at user ⊢
    rcases user with none | (held | promise) | job
    · exact .inl none
    · exact .inr (.inl (.inl ((diff_sublist _ _).subset held)))
    · exact .inr (.inl (.inr promise))
    · exact .inr (.inr job)

theorem begins (sound : Sound [] s) {id : Nat} {rest : List Nat} (queue : s.jobs = id :: rest) :
    Sound [] { s with jobs := rest, running := id :: s.running } := by
  refine sound.moved rfl rfl rfl (fun _ => rfl) (fun _ user => user) ?_
  have kept := sound.jobs
  rw [queue] at kept
  exact kept.perm perm_middle.symm

/-- A job that ends gives its data back. -/
theorem finish (sound : Sound [] s) {id : Nat} {rest : List Nat} (running : s.running = id :: rest)
    {jd : JobData} (found : s.job_data[id]? = some jd) : Sound [] (s.finish id jd rest) := by
  have kept := sound.jobs
  rw [running] at kept
  have order : (s.jobs ++ id :: rest).Perm (id :: (s.jobs ++ rest)) := perm_middle
  have kept := kept.perm order
  have done : id ∉ s.jobs ++ rest := (nodup_cons.mp kept.distinct).1
  have released : jd.released = 0 := by
    rw [kept.released id jd found, if_pos mem_cons_self]
  have change := count_flatMap_set JobData.refs found { jd with released := jd.released + 1 }
  have before : jd.refs = jd.all := if_pos released
  have behind : ({ jd with released := jd.released + 1 } : JobData).refs = [] :=
    if_neg (Nat.succ_ne_zero _)
  rw [before, behind] at change
  refine sound.moved rfl rfl rfl ?_ ?_ ?_
  · intro r
    have here := change r
    unfold places State.finish State.lr_free_value users
    simp only [count_append, count_nil] at here ⊢
    omega
  · intro r user
    have here := change r
    rw [← count_pos_iff] at user ⊢
    unfold users State.finish State.lr_free_value at user
    unfold users
    simp only [count_append, count_nil] at here user ⊢
    omega
  · constructor
    · exact (nodup_cons.mp kept.distinct).2
    · intro other member
      unfold State.finish State.lr_free_value
      rw [length_set]
      exact kept.known other (mem_cons_of_mem _ member)
    · intro other data here
      unfold State.finish State.lr_free_value at here ⊢
      by_cases same : other = id
      · subst same
        rw [List.getElem?_set_self (List.getElem?_eq_some_iff.mp found).1] at here
        cases here
        rw [if_neg done, released]
      · rw [getElem?_set_ne (Ne.symm same)] at here
        have iff : other ∈ id :: (s.jobs ++ rest) ↔ other ∈ s.jobs ++ rest := by
          rw [mem_cons, or_iff_right same]
        rw [kept.released other data here, if_congr iff rfl rfl]

variable {rest : List Ref}

theorem free_balanced (sound : Sound [] s) {r : Ref}
    (dropping : s.dropping = r :: rest) : Balanced (free s.ref_count r)
      ({ s with ref_count := free s.ref_count r, dropping := rest } : State).places := by
  have first : Balanced s.ref_count
      (r :: ({ s with ref_count := free s.ref_count r, dropping := rest } : State).places) := by
    refine sound.balanced.of_count fun other => ?_
    unfold places users
    simp only [dropping, count_append, count_cons, count_nil]
    omega
  exact first.free

theorem dropping_mem_places {r : Ref} (dropping : s.dropping = r :: rest) : r ∈ [] ++ s.places := by
  unfold places
  rw [dropping]
  simp only [mem_append, mem_cons]
  tauto

/-- A reference that is given back is no longer counted. -/
theorem freed (sound : Sound [] s) {r : Ref} (dropping : s.dropping = r :: rest)
    (kept : ∀ i pair, r = .resolve i → s.pairs[i]? = some pair → pair.data_free = true →
      s.ref_count r ≠ 1) :
    Sound [] { s with ref_count := free s.ref_count r, dropping := rest } where
  going := sound.going
  balanced := sound.free_balanced dropping
  whole i pair found := by
    rcases sound.whole i pair found with ⟨data_free, own, whole⟩ | foreign
    swap
    · exact .inr foreign
    refine .inl ⟨data_free, own, ?_⟩
    by_cases same : r = .resolve i
    · have held := sound.balanced.count_pos (dropping_mem_places dropping)
      have several := kept i pair same found data_free
      rcases whole with ⟨there, used⟩ | ⟨_, gone, _⟩
      · refine .inl ⟨there, ?_⟩
        dsimp only
        rw [← same, free_self]
        omega
      · rw [← same] at gone
        omega
    · have other : free s.ref_count r (.resolve i) = s.ref_count (.resolve i) :=
        free_of_ne _ (Ne.symm same)
      unfold Whole
      dsimp only
      rw [other]
      exact whole
  jobs := sound.jobs

/-- The last reference to a resolve function frees the record of its pair. -/
theorem freed_function (sound : Sound [] s) {i : Nat}
    (dropping : s.dropping = .resolve i :: rest) (last : s.ref_count (.resolve i) = 1)
    {data : PromiseResolveData} (found : s.pairs[i]? = some ⟨data, none, true⟩)
    (nobody : .reject i ∉ s.users) : Sound [] { s with
      ref_count := free s.ref_count (.resolve i)
      pairs := s.pairs.set i ⟨{ data with released := data.released + 1 }, none, true⟩
      dropping := [data.promise] ++ rest } := by
  have none_left : free s.ref_count (.resolve i) (.resolve i) = 0 := by
    rw [free_self, last]
  have released : data.released = 0 := by
    rcases sound.whole i _ found with ⟨_, _, ⟨there, _⟩ | ⟨_, gone, _⟩⟩ | ⟨foreign, _⟩
    · exact there
    · rw [last] at gone
      cases gone
    · cases foreign
  have change := count_flatMap_set Pair.refs found
    ⟨{ data with released := data.released + 1 }, none, true⟩
  have before : Pair.refs ⟨data, none, true⟩ = [data.promise] := by
    simp [Pair.refs, Pair.records, PromiseResolveData.refs, released]
  have behind : Pair.refs ⟨{ data with released := data.released + 1 }, none, true⟩ = [] := by
    simp [Pair.refs, Pair.records, PromiseResolveData.refs]
  rw [before, behind] at change
  constructor
  · exact sound.going
  · refine (sound.free_balanced dropping).of_count fun other => ?_
    have here := change other
    unfold places users
    simp only [count_append, count_nil] at here ⊢
    omega
  · intro j pair here
    by_cases same : j = i
    · subst same
      rw [List.getElem?_set_self (List.getElem?_eq_some_iff.mp found).1] at here
      cases here
      refine .inl ⟨rfl, rfl, .inr ⟨?_, none_left, nobody⟩⟩
      rw [released]
    · dsimp only at here
      rw [getElem?_set_ne (Ne.symm same)] at here
      refine (sound.whole j pair here).mono fun whole => ?_
      have different : Ref.resolve j ≠ .resolve i := fun equal => same (Ref.resolve.inj equal)
      unfold Whole
      dsimp only
      rw [free_of_ne _ different]
      exact whole
  · exact sound.jobs

theorem freed_promise (sound : Sound [] s) (found : s.promises[p]? = some pd) : Sound []
      ({ s with promises := s.promises.set p ⟨pd.state, none, [], []⟩ }.lr_free_value pd.refs) := by
  apply lr_free_value
  refine sound.set_promise found fun r => ?_
  simp only [refs, toList_none, flatMap_nil, append_nil,
    count_append, count_nil]
  omega

end Sound

/-! ## Steps -/

/-- The last reference to a resolve function with a `data_free` does not go while someone has the
reject function; and when the runtime is freed, all jobs have run and every resolve function has had
a `data_free`. -/
def Meets (s : State) : Event → Prop
  | .sweep =>
    match s.dropping with
    | .resolve i :: _ =>
      s.ref_count (.resolve i) = 1 → (∃ pair ∈ s.pairs[i]?, pair.data_free = true) →
        .reject i ∉ s.users
    | _ => True
  | .runtimeFree => s.jobs = [] ∧ ∀ pair ∈ s.pairs, pair.data_free = true
  | _ => True

/-- One reference that is given back keeps the counts sound. -/
theorem Sound.sweep (sound : Sound [] s) {r : Ref} {rest : List Ref}
    (dropping : s.dropping = r :: rest) (meets : s.Meets .sweep) : Sound [] (s.sweep r rest) := by
  unfold Meets at meets
  rw [dropping] at meets
  cases r with
  | promise p =>
    have sound := sound.freed dropping fun _ _ same _ => by cases same
    unfold State.sweep
    dsimp only
    split
    · unfold lr_free_object
      cases found : s.promises[p]? with
      | none =>
        dsimp only
        rw [found]
        exact sound
      | some pd =>
        dsimp only
        rw [found]
        exact sound.freed_promise found
    · exact sound
  | resolve i =>
    unfold State.sweep
    dsimp only
    split_ifs with gone
    · have held := sound.balanced.count_pos (Sound.dropping_mem_places dropping)
      rw [free_self] at gone
      have last : s.ref_count (.resolve i) = 1 := by omega
      unfold lr_free_object
      cases found : s.pairs[i]? with
      | none =>
        dsimp only
        rw [found]
        refine sound.freed dropping fun j pair same here _ => ?_
        cases same
        rw [found] at here
        cases here
      | some pair =>
        have cared := sound.whole i pair found
        obtain ⟨data, own, data_free⟩ := pair
        dsimp only
        rw [found]
        cases data_free with
        | true =>
          rcases cared with ⟨_, rfl, _⟩ | ⟨foreign, _⟩
          · exact sound.freed_function dropping last found (meets last ⟨_, found, rfl⟩)
          · cases foreign
        | false =>
          refine sound.freed dropping fun j pair same here free => ?_
          cases same
          rw [found] at here
          cases here
          cases free
    · refine sound.freed dropping fun j pair same here _ only => gone ?_
      rw [free_self, only]
  | reject i =>
    have sound := sound.freed dropping fun _ _ same _ => by cases same
    unfold State.sweep
    dsimp only
    split
    · exact sound
    · exact sound

/-- A step of the program keeps the counts sound. -/
theorem Sound.act {s' : State} (sound : Sound [] s) {event : Event}
    (going : event ≠ .runtimeFree) (taken : s.act event = some s') : Sound [] s' := by
  cases event with
  | newPromise =>
    cases taken
    exact sound.lr_new_promise.hold
  | resolvingFunctions p =>
    unfold State.act at taken
    dsimp only at taken
    split at taken
    · cases taken
      exact (sound.createResolvingFunctions p).hold
    · cases taken
  | capability =>
    cases taken
    exact sound.lr_new_promise_capability
  | chain p on_fulfilled on_rejected =>
    unfold State.act at taken
    dsimp only at taken
    split at taken
    · rename_i pd found
      split at taken
      · rename_i has
        cases taken
        exact sound.js_promise_then found has.2.1 has.2.2
      · cases taken
    · cases taken
  | settle p rejected value =>
    unfold State.act at taken
    dsimp only at taken
    split at taken
    · rename_i pd found
      split at taken
      · rename_i has
        cases taken
        exact sound.settle found has.2 rejected
      · cases taken
    · cases taken
  | hold r =>
    unfold State.act at taken
    dsimp only at taken
    split at taken
    · rename_i user
      cases taken
      apply Sound.hold
      apply sound.lr_dup_value
      intro other member
      rw [mem_singleton.mp member]
      exact .inl user
    · cases taken
  | drop refs =>
    unfold State.act at taken
    dsimp only at taken
    split at taken
    · rename_i has
      cases taken
      exact sound.drop has
    · cases taken
  | call r =>
    unfold State.act at taken
    dsimp only at taken
    split at taken
    · cases taken
      exact sound
    · cases taken
  | begin =>
    unfold State.act at taken
    dsimp only at taken
    split at taken
    · rename_i id rest queue
      cases taken
      exact sound.begins queue
    · cases taken
  | finish =>
    unfold State.act at taken
    dsimp only at taken
    split at taken
    · rename_i id rest running
      obtain ⟨jd, found, rfl⟩ := map_eq_some_iff.mp taken
      exact sound.finish running found
    · cases taken
  | sweep => cases taken
  | runtimeFree => exact (going rfl).elim

def Cleared (s : State) : Prop :=
  (∀ pair ∈ s.pairs, ∀ data ∈ pair.records, data.released = 1) ∧
    ∀ jd ∈ s.job_data, jd.released = 1

theorem Sound.cleared (sound : Sound [] s) (jobs : s.jobs = [])
    (data_free : ∀ pair ∈ s.pairs, pair.data_free = true) (running : s.running = []) :
    s.lr_runtime_free.Cleared := by
  constructor
  · intro pair member data record
    obtain ⟨i, found⟩ := getElem?_of_mem member
    unfold lr_runtime_free at found
    rw [getElem?_mapIdx] at found
    obtain ⟨before, here, rfl⟩ := map_eq_some_iff.mp found
    have free := data_free before (mem_of_getElem? here)
    unfold freeRecords at record
    rcases sound.whole i before here with ⟨_, own, ⟨there, used⟩ | ⟨released, gone, _⟩⟩ | foreign
    · rw [if_pos ⟨free, used⟩] at record
      rw [own] at record
      rw [mem_singleton.mp record]
      rw [there]
    · rw [if_neg (by omega)] at record
      unfold Pair.records at record
      rw [own] at record
      rw [mem_singleton.mp record]
      exact released
    · rw [free] at foreign
      cases foreign.1
  · intro jd member
    obtain ⟨id, found⟩ := getElem?_of_mem member
    rw [sound.jobs.released id jd found, jobs, running]
    rfl

def ReadsLive (s : State) (event : Event) : Prop :=
  ∀ r, event = .call r → ∀ next, s.step event = some next →
    ∀ data ∈ s.recordOf r, data.released = 0

/-- A record is freed once, not while someone has one of its functions; the data of a job once, when
it is done; and in the end all of them have been. -/
structure Lifetimes (s : State) : Prop where
  once : ∀ pair ∈ s.pairs, ∀ data ∈ pair.records, data.released ≤ 1
  jobsOnce : ∀ jd ∈ s.job_data, jd.released ≤ 1
  kept : s.ended = false → ∀ r ∈ s.users, ∀ data ∈ s.recordOf r, data.released = 0
  jobsKept : s.ended = false → ∀ id ∈ s.jobs ++ s.running, ∀ jd ∈ s.job_data[id]?,
    jd.released = 0
  cleared : s.ended = true → s.Cleared

theorem Sound.recordOf_released (sound : Sound [] s) {r : Ref} (user : r ∈ s.users)
    {data : PromiseResolveData} (record : data ∈ s.recordOf r) : data.released = 0 := by
  cases r with
  | promise p => cases record
  | resolve i =>
    obtain ⟨pair, found, rfl⟩ := map_eq_some_iff.mp record
    have held := sound.balanced.count_pos (mem_places_of_users user)
    rcases sound.whole i pair found with ⟨_, _, ⟨there, _⟩ | ⟨_, gone, _⟩⟩ | ⟨_, kept⟩
    · exact there
    · omega
    · exact kept _ mem_cons_self
  | reject i =>
    obtain ⟨pair, found, rfl⟩ := map_eq_some_iff.mp record
    rcases sound.whole i pair found with ⟨_, own, ⟨there, _⟩ | ⟨_, _, nobody⟩⟩ | ⟨_, kept⟩
    · rw [own]
      exact there
    · exact (nobody user).elim
    · apply kept
      unfold Pair.records
      cases pair.own with
      | none => exact mem_cons_self
      | some own => exact mem_cons_of_mem _ mem_cons_self

theorem Sound.lifetimes (sound : Sound [] s) : s.Lifetimes where
  once pair member data record := by
    obtain ⟨i, found⟩ := getElem?_of_mem member
    rcases sound.whole i pair found with ⟨_, own, whole⟩ | ⟨_, kept⟩
    · unfold Pair.records at record
      rw [own] at record
      rw [mem_singleton.mp record]
      rcases whole with ⟨there, _⟩ | ⟨released, _⟩ <;> omega
    · rw [kept data record]
      exact Nat.zero_le 1
  jobsOnce jd member := by
    obtain ⟨id, found⟩ := getElem?_of_mem member
    rw [sound.jobs.released id jd found]
    split <;> omega
  kept _ _ user _ record := sound.recordOf_released user record
  jobsKept _ id member jd found := by
    rw [sound.jobs.released id jd found, if_pos member]
  cleared ended := by
    rw [sound.going] at ended
    cases ended

def Invariant (s : State) : Prop :=
  Sound [] s ∨ s.ended = true ∧ s.Cleared

theorem Invariant.lifetimes (invariant : s.Invariant) : s.Lifetimes := by
  rcases invariant with sound | ⟨ended, cleared⟩
  · exact sound.lifetimes
  · refine ⟨fun pair member data record => ?_, fun jd member => ?_, ?_, ?_, fun _ => cleared⟩
    · exact Nat.le_of_eq (cleared.1 pair member data record)
    · exact Nat.le_of_eq (cleared.2 jd member)
    all_goals
      intro going
      rw [ended] at going
      cases going

theorem step_cases {next : State} {event : Event} (taken : s.step event = some next) :
    s.ended = false ∧ (s.act event = some next ∨
      ∃ r rest, s.dropping = r :: rest ∧ event = .sweep ∧ next = s.sweep r rest) := by
  unfold State.step at taken
  split at taken
  · cases taken
  rename_i going
  refine ⟨Bool.eq_false_iff.mpr going, ?_⟩
  split at taken
  · exact .inl taken
  · rename_i r rest dropping
    split at taken
    · rename_i sweeps
      cases taken
      exact .inr ⟨r, rest, dropping, sweeps, rfl⟩
    · cases taken

theorem Invariant.sound (invariant : s.Invariant) (going : s.ended = false) : Sound [] s := by
  rcases invariant with sound | ⟨ended, _⟩
  · exact sound
  · rw [going] at ended
    cases ended

theorem Invariant.step {next : State} {event : Event} (invariant : s.Invariant)
    (meets : s.Meets event) (taken : s.step event = some next) : next.Invariant := by
  obtain ⟨going, acts | ⟨r, rest, dropping, rfl, rfl⟩⟩ := step_cases taken
  · have sound := invariant.sound going
    by_cases free : event = .runtimeFree
    · subst free
      unfold State.act at acts
      dsimp only at acts
      split at acts
      · rename_i running
        cases acts
        exact .inr ⟨rfl, sound.cleared meets.1 meets.2 running⟩
      · cases acts
    · exact .inl (sound.act free acts)
  · exact .inl ((invariant.sound going).sweep dropping meets)

theorem Invariant.readsLive (invariant : s.Invariant) (event : Event) : s.ReadsLive event := by
  rintro r rfl next taken data record
  obtain ⟨going, acts | ⟨_, _, _, sweeps, _⟩⟩ := step_cases taken
  · unfold State.act at acts
    dsimp only at acts
    split at acts
    · rename_i user
      exact (invariant.sound going).recordOf_released user record
    · cases acts
  · cases sweeps

theorem invariant_start : start.Invariant := by
  refine .inl ⟨rfl, fun _ => rfl, ?_, nodup_nil, ?_, ?_⟩
  · intro i pair found
    cases found
  · intro id member
    cases member
  · intro id jd found
    cases found

instance (s : State) (event : Event) : Decidable (s.Meets event) :=
  match event with
  | .sweep =>
    match dropping : s.dropping with
    | .resolve i :: _ =>
      decidable_of_iff (s.ref_count (.resolve i) = 1 →
          (∃ pair ∈ s.pairs[i]?, pair.data_free = true) → .reject i ∉ s.users) <| by
        unfold Meets
        rw [dropping]
    | [] | .promise _ :: _ | .reject _ :: _ =>
      .isTrue <| by
        unfold Meets
        rw [dropping]
        trivial
  | .runtimeFree => inferInstanceAs (Decidable (s.jobs = [] ∧ ∀ pair ∈ s.pairs, _))
  | .capability | .newPromise | .resolvingFunctions _ | .chain _ _ _ | .settle _ _ _ | .hold _
  | .drop _ | .call _ | .begin | .finish => .isTrue trivial

/-- Under the condition no call reads a freed record, and every record is freed once, behind the
last one who could use it, as is the data of every job. -/
theorem records_freed_once (events : List Event) (meets : Runs.Throughout step Meets start events) :
    Runs.Throughout step ReadsLive start events ∧
      ∀ reached, Runs.after step start events = some reached → reached.Lifetimes := by
  constructor
  · exact Runs.Throughout.of_invariant Invariant
      (fun _ _ _ invariant meets taken => invariant.step meets taken)
      (fun _ event invariant _ => invariant.readsLive event) invariant_start meets
  · intro reached arrives
    exact (Runs.Throughout.invariant_after (fun _ _ _ invariant meets taken =>
      Invariant.step invariant meets taken) invariant_start meets arrives).lifetimes

/-- A promise gets a handler before the program resolves it; its functions are dropped one
after the other. -/
def sampleRun : List Event :=
  [.newPromise, .resolvingFunctions 0, .hold (.resolve 0), .hold (.reject 0),
    .drop [.resolve 0, .reject 0], .sweep, .sweep, .chain 0 none none, .sweep, .sweep,
    .call (.resolve 0), .settle 0 false none, .sweep, .sweep, .sweep, .begin, .call (.resolve 1),
    .settle 1 false none, .finish, .sweep, .sweep, .drop [.reject 0], .sweep, .call (.resolve 0),
    .drop [.resolve 0], .sweep, .sweep, .runtimeFree]

theorem records_freed_once_sample :
    (Runs.after step start sampleRun).map
        (fun s => (s.ended, s.pairs.map fun pair => pair.data.released)) = some (true, [1, 1]) ∧
      Runs.Throughout step ReadsLive start sampleRun :=
  ⟨by decide, (records_freed_once sampleRun (by decide)).1⟩

def keptReject : List Event :=
  [.newPromise, .resolvingFunctions 0, .hold (.reject 0), .drop [.resolve 0, .reject 0],
    .sweep, .sweep, .sweep]

theorem freed_record_read :
    ¬∀ events : List Event, Runs.Throughout step ReadsLive start events := by
  intro all
  have reads := all (keptReject ++ [.call (.reject 0)])
  have here := reads.at_step (some_get (by decide)).symm
  have live := here (.reject 0) rfl _ (some_get (by decide)).symm ⟨.promise 0, 1⟩ (by decide)
  cases live

end State
end LRJS.ResolveRecords
