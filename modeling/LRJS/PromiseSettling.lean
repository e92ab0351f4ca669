import LRJS.Promises

/-!
# Promises settle once

What each operation on the promises keeps: a settled promise stays as it is,
and its registrations are scheduled once, in their order, for its outcome.
-/

namespace LRJS.Promises

open List Option LRPromiseData

def World.scheduledOf (w : World) (p : Nat) : List JobData :=
  w.scheduled.filter fun job => job.source == p

/-- The reactions wait while the promise is pending; then all are scheduled, once and in the order
of registration. -/
def LRPromiseData.Registered (pd : LRPromiseData) (p : Nat) (jobs : List JobData) : Prop :=
  match pd.state with
  | .pending =>
    pd.fulfill_reactions = pd.registered.map Registration.onFulfilled ∧
      pd.reject_reactions = pd.registered.map Registration.onRejected ∧ jobs = []
  | .fulfilled => jobs = pd.registered.map fun entry => entry.onFulfilled.job .fulfill pd.result p
  | .rejected => jobs = pd.registered.map fun entry => entry.onRejected.job .reject pd.result p

structure World.Orderly (w : World) : Prop where
  registered : ∀ (p : Nat) (pd : LRPromiseData), w.promises[p]? = some pd →
    pd.Registered p (w.scheduledOf p)
  known : ∀ job ∈ w.scheduled, job.source < w.promises.length
  queue : w.jobs <:+ w.scheduled

def Stays (w w' : World) : Prop :=
  ∀ (p : Nat) (pd : LRPromiseData), w.promises[p]? = some pd → pd.state ≠ .pending →
    ∃ pd', w'.promises[p]? = some pd' ∧ pd'.state = pd.state ∧ pd'.result = pd.result

structure Keeps (w w' : World) : Prop where
  stays : Stays w w'
  orderly : w.Orderly → w'.Orderly

namespace Keeps

variable {w w' w'' : World}

theorem refl (w : World) : Keeps w w where
  stays _ pd found _ := ⟨pd, found, rfl, rfl⟩
  orderly := id

theorem trans (first : Keeps w w') (second : Keeps w' w'') : Keeps w w'' where
  stays p pd found settled := by
    obtain ⟨pd', found', state, result⟩ := first.stays p pd found settled
    obtain ⟨pd'', found'', state', result'⟩ := second.stays p pd' found' (state ▸ settled)
    exact ⟨pd'', found'', state'.trans state, result'.trans result⟩
  orderly orderly := second.orderly (first.orderly orderly)

theorem of_same (promises : w'.promises = w.promises) (jobs : w'.jobs = w.jobs)
    (scheduled : w'.scheduled = w.scheduled) : Keeps w w' where
  stays _ pd found _ := ⟨pd, promises ▸ found, rfl, rfl⟩
  orderly orderly := by
    constructor
    · intro p pd found
      rw [promises] at found
      have here := orderly.registered p pd found
      unfold World.scheduledOf at here ⊢
      rw [scheduled]
      exact here
    · rw [scheduled, promises]
      exact orderly.known
    · rw [jobs, scheduled]
      exact orderly.queue

theorem resolve_data_new (w : World) (p : Nat) (thenable : Option Value) :
    Keeps w (w.resolve_data_new p thenable) :=
  of_same rfl rfl rfl

theorem storeResult (w : World) (pad : Nat) (pd : PromiseAllData) (index : Nat) (value : Value) :
    Keeps w (w.storeResult pad pd index value) :=
  of_same rfl rfl rfl

theorem markRejected (w : World) (pad : Nat) (pd : PromiseAllData) :
    Keeps w (w.markRejected pad pd) :=
  of_same rfl rfl rfl

theorem raised (w : World) (e : Value) : Keeps w { w with current_exception := e } :=
  of_same rfl rfl rfl

theorem markCalled (w : World) (rd : Nat) : Keeps w (w.markCalled rd) :=
  of_same rfl rfl rfl

/-- A new promise keeps all settled promises. -/
theorem append (w : World) (state : PromiseState) (result : Value) (derived : Bool) :
    Keeps w { w with promises := w.promises ++ [⟨state, result, [], [], [], derived⟩] } where
  stays p pd found _ := by
    refine ⟨pd, ?_, rfl, rfl⟩
    rw [List.getElem?_append_left (List.getElem?_eq_some_iff.mp found).1]
    exact found
  orderly orderly := by
    constructor
    · intro p pd found
      cases Nat.lt_or_ge p w.promises.length with
      | inl old =>
        rw [List.getElem?_append_left old] at found
        exact orderly.registered p pd found
      | inr new =>
        have none_yet : w.scheduledOf p = [] := by
          refine filter_eq_nil_iff.mpr fun job member => ?_
          have := orderly.known job member
          simp only [beq_iff_eq]
          omega
        rw [getElem?_append_right new, getElem?_singleton] at found
        split at found
        · cases found
          cases state with
          | pending => exact ⟨rfl, rfl, none_yet⟩
          | fulfilled | rejected => exact none_yet
        · cases found
    · intro job member
      rw [length_append]
      exact Nat.lt_add_right _ (orderly.known job member)
    · exact orderly.queue

theorem lr_new_promise (w : World) (derived : Bool) : Keeps w (w.lr_new_promise derived) :=
  append w .pending .undefined derived

theorem newSettled (w : World) (state : PromiseState) (result : Value) :
    Keeps w (w.newSettled state result) :=
  append w state result false

/-- A pending promise may settle once, and schedules its own jobs. -/
theorem update {p : Nat} {pd pd' : LRPromiseData} {jobs : List JobData}
    (found : w.promises[p]? = some pd) (own : ∀ job ∈ jobs, job.source = p)
    (same : pd.state ≠ .pending → pd'.state = pd.state ∧ pd'.result = pd.result)
    (registered : ∀ before, pd.Registered p before → pd'.Registered p (before ++ jobs)) :
    Keeps w { w with
      promises := w.promises.set p pd'
      jobs := w.jobs ++ jobs
      scheduled := w.scheduled ++ jobs } where
  stays q pd₀ found₀ settled := by
    by_cases here : q = p
    · subst here
      rw [found] at found₀
      cases found₀
      exact ⟨pd', List.getElem?_set_self (List.getElem?_eq_some_iff.mp found).1, same settled⟩
    · refine ⟨pd₀, ?_, rfl, rfl⟩
      rw [getElem?_set_ne (Ne.symm here)]
      exact found₀
  orderly orderly := by
    constructor
    · intro q pd₀ found₀
      unfold World.scheduledOf
      rw [filter_append]
      by_cases here : q = p
      · subst here
        rw [List.getElem?_set_self (List.getElem?_eq_some_iff.mp found).1] at found₀
        cases found₀
        have all : jobs.filter (fun job => job.source == q) = jobs :=
          filter_eq_self.mpr fun job member => beq_iff_eq.mpr (own job member)
        rw [all]
        exact registered _ (orderly.registered q pd found)
      · rw [getElem?_set_ne (Ne.symm here)] at found₀
        have others : jobs.filter (fun job => job.source == q) = [] := by
          refine filter_eq_nil_iff.mpr fun job member => ?_
          rw [own job member, beq_iff_eq]
          exact Ne.symm here
        rw [others, append_nil]
        exact orderly.registered q pd₀ found₀
    · intro job member
      rw [length_set]
      cases mem_append.mp member with
      | inl old => exact orderly.known job old
      | inr new =>
        rw [own job new]
        exact (List.getElem?_eq_some_iff.mp found).1
    · obtain ⟨ran, whole⟩ := orderly.queue
      exact ⟨ran, by rw [← append_assoc, whole]⟩

end Keeps

theorem isPending_iff {w : World} {p : Nat} : w.isPending p = true ↔
    ∃ pd, w.promises[p]? = some pd ∧ pd.state = .pending := by
  unfold World.isPending
  cases w.promises[p]? with
  | none | some pd => simp

def JobKind.state : JobKind → PromiseState
  | .fulfill => .fulfilled
  | .reject => .rejected

def LRPromiseData.reactions (pd : LRPromiseData) : JobKind → List LRPromiseReaction
  | .fulfill => pd.fulfill_reactions
  | .reject => pd.reject_reactions

def Registration.reaction (entry : Registration) : JobKind → LRPromiseReaction
  | .fulfill => entry.onFulfilled
  | .reject => entry.onRejected

theorem settle_eq {w : World} {p : Nat} {pd : LRPromiseData} (found : w.promises[p]? = some pd)
    (kind : JobKind) (result : Value) :
    w.settle p kind result =
      let jobs := (pd.reactions kind).map fun reaction => reaction.job kind result p
      { w with
        promises := w.promises.set p ⟨kind.state, result, [], [], pd.registered, pd.derived⟩
        jobs := w.jobs ++ jobs
        scheduled := w.scheduled ++ jobs } := by
  unfold World.settle
  rw [found]
  cases kind with
  | fulfill | reject => rfl

def LRPromiseData.extended (pd : LRPromiseData) (added : Registration) : LRPromiseData :=
  match pd.state with
  | .pending => ⟨pd.state, pd.result, pd.fulfill_reactions ++ [added.onFulfilled],
      pd.reject_reactions ++ [added.onRejected], pd.registered ++ [added], pd.derived⟩
  | .fulfilled | .rejected => { pd with registered := pd.registered ++ [added] }

def LRPromiseData.jobsFor (pd : LRPromiseData) (p : Nat) (added : Registration) : List JobData :=
  match pd.state with
  | .pending => []
  | .fulfilled => [added.onFulfilled.job .fulfill pd.result p]
  | .rejected => [added.onRejected.job .reject pd.result p]

theorem promise_then_eq (w : World) (p : Nat) (pd : LRPromiseData)
    (on_fulfilled on_rejected : Handler) : w.promise_then p pd on_fulfilled on_rejected =
      let added := w.registration on_fulfilled on_rejected
      let extended := w.lr_new_promise true
      { extended with
        promises := extended.promises.set p (pd.extended added)
        jobs := extended.jobs ++ pd.jobsFor p added
        scheduled := extended.scheduled ++ pd.jobsFor p added } := by
  unfold World.promise_then extended jobsFor
  cases pd.state with
  | pending => simp
  | fulfilled | rejected => rfl

namespace Keeps

variable {w : World} {p : Nat}

/-- Settling a pending promise keeps all settled promises. -/
theorem settle (pending : w.isPending p = true) (kind : JobKind) (result : Value) :
    Keeps w (w.settle p kind result) := by
  obtain ⟨pd, found, here⟩ := isPending_iff.mp pending
  rw [settle_eq found]
  apply update found
  · intro job member
    obtain ⟨reaction, _, rfl⟩ := mem_map.mp member
    rfl
  · exact fun settled => absurd here settled
  · intro before waiting
    unfold LRPromiseData.Registered at waiting
    rw [here] at waiting
    obtain ⟨fulfill, reject, nothing⟩ := waiting
    rw [nothing, nil_append]
    cases kind with
    | fulfill =>
      dsimp only [LRPromiseData.Registered, reactions, JobKind.state]
      rw [fulfill, List.map_map]
      rfl
    | reject =>
      dsimp only [LRPromiseData.Registered, reactions, JobKind.state]
      rw [reject, List.map_map]
      rfl

theorem lr_promise_reject_internal (w : World) (p : Nat) (reason : Value) :
    Keeps w (w.lr_promise_reject_internal p reason) := by
  unfold World.lr_promise_reject_internal
  split_ifs with pending
  · exact settle pending .reject reason
  · exact refl w

/-- A registration keeps all settled promises. -/
theorem promise_then {pd : LRPromiseData} (found : w.promises[p]? = some pd)
    (on_fulfilled on_rejected : Handler) :
    Keeps w (w.promise_then p pd on_fulfilled on_rejected) := by
  have extended : Keeps w (w.lr_new_promise true) := lr_new_promise w true
  have found' : (w.lr_new_promise true).promises[p]? = some pd := by
    unfold World.lr_new_promise
    rw [List.getElem?_append_left (List.getElem?_eq_some_iff.mp found).1]
    exact found
  refine extended.trans ?_
  rw [promise_then_eq]
  apply update found'
  · intro job member
    unfold LRPromiseData.jobsFor at member
    split at member
    · cases member
    · rw [mem_singleton.mp member]
      rfl
    · rw [mem_singleton.mp member]
      rfl
  · unfold LRPromiseData.extended
    split <;> exact fun _ => ⟨rfl, rfl⟩
  · intro before here
    unfold LRPromiseData.Registered LRPromiseData.extended LRPromiseData.jobsFor at *
    cases state : pd.state with
    | pending =>
      simp only [state] at here ⊢
      obtain ⟨fulfill, reject, nothing⟩ := here
      rw [fulfill, reject, nothing]
      simp
    | fulfilled | rejected =>
      simp only [state] at here ⊢
      rw [here, map_append]
      rfl

theorem tail {w : World} {job : JobData} {rest : List JobData} (queue : w.jobs = job :: rest) :
    Keeps w { w with jobs := rest } where
  stays _ pd found _ := ⟨pd, found, rfl, rfl⟩
  orderly orderly := by
    refine ⟨orderly.registered, orderly.known, ?_⟩
    have whole := orderly.queue
    rw [queue] at whole
    exact (suffix_cons job rest).trans whole

theorem toArray (w : World) (iterable : Value) : Keeps w (w.toArray iterable).1 := by
  unfold World.toArray
  split
  · split
    · exact refl w
    · exact of_same rfl rfl rfl
  · exact of_same rfl rfl rfl

end Keeps

namespace Machine

variable (m : Machine)

theorem keeps_resolve_internal (p : Nat) (value : Value) :
    Keeps m.world (m.lr_promise_resolve_internal p value).world := by
  unfold lr_promise_resolve_internal
  split
  · exact Keeps.refl _
  rename_i pending
  rw [Bool.not_eq_false] at pending
  split
  · exact Keeps.settle pending .reject _
  split
  · exact Keeps.refl _
  · exact Keeps.settle pending .fulfill _

theorem promiseData_eq_some {this : Value} {p : Nat} {pd : LRPromiseData}
    (found : m.promiseData this = some (p, pd)) : m.world.promises[p]? = some pd := by
  unfold promiseData at found
  split at found
  · obtain ⟨data, here, same⟩ := map_eq_some_iff.mp found
    cases same
    exact here
  · cases found

theorem keeps_thenWith (method : String) (this : Value) (on_fulfilled on_rejected : Handler) :
    Keeps m.world (m.thenWith method this on_fulfilled on_rejected).world := by
  unfold thenWith
  cases found : m.promiseData this with
  | none => exact Keeps.raised _ _
  | some data => exact Keeps.promise_then (m.promiseData_eq_some found) _ _

theorem keeps_all_watch (pad index : Nat) (w : World) (q : Nat) :
    Keeps w (promise_all_watch pad index w q) := by
  unfold promise_all_watch
  cases found : w.promises[q]? with
  | none => exact Keeps.refl _
  | some pd => exact Keeps.promise_then found _ _

theorem keeps_all_item (pad : Nat) (w : World) (index : Nat) (item : Value) :
    Keeps w (promise_all_item pad w index item) := by
  cases item with
  | promise q => exact keeps_all_watch pad index w q
  | _ => exact (Keeps.newSettled w _ _).trans (keeps_all_watch pad index _ _)

theorem keeps_all_items (pad : Nat) (items : List (Value × Nat)) (w : World) :
    Keeps w (items.foldl (fun w item => promise_all_item pad w item.2 item.1) w) := by
  induction items generalizing w with
  | nil => exact Keeps.refl w
  | cons item rest ih =>
    exact (keeps_all_item pad w item.2 item.1).trans (ih _)

theorem keeps_resolveResult (w : World) (p : Nat) (value : Value) :
    Keeps w (m.resolveResult w p value).world :=
  keeps_resolve_internal ⟨w, .combined p :: m.stack, m.control⟩ p value

variable (iterable : Value)

theorem keeps_all : Keeps m.world (m.js_promise_all iterable).world := by
  unfold js_promise_all
  have arrays := (Keeps.lr_new_promise m.world false).trans (Keeps.toArray _ iterable)
  dsimp only [answer]
  split
  · exact arrays.trans (keeps_resolveResult _ _ _ _)
  · refine (arrays.trans ?_).trans (keeps_all_items _ _ _)
    exact Keeps.of_same rfl rfl rfl

theorem keeps_race : Keeps m.world (m.js_promise_race iterable).world := by
  unfold js_promise_race
  have arrays := (Keeps.lr_new_promise m.world false).trans (Keeps.toArray _ iterable)
  dsimp only [answer]
  split
  · exact arrays
  · exact arrays.trans (keeps_resolveResult _ _ _ _)

theorem keeps_all_settled :
    Keeps m.world (m.js_promise_all_settled iterable).world := by
  unfold js_promise_all_settled
  have arrays := (Keeps.lr_new_promise m.world false).trans (Keeps.toArray _ iterable)
  dsimp only
  split
  · exact arrays.trans (keeps_resolveResult _ _ _ _)
  · refine (arrays.trans ?_).trans (keeps_resolveResult _ _ _ _)
    exact Keeps.of_same rfl rfl rfl

theorem keeps_any : Keeps m.world (m.js_promise_any iterable).world := by
  unfold js_promise_any
  have arrays := (Keeps.lr_new_promise m.world false).trans (Keeps.toArray _ iterable)
  dsimp only [answer]
  split
  · exact arrays.trans (keeps_resolveResult _ _ _ _)
  · exact arrays.trans (Keeps.lr_promise_reject_internal _ _ _)

/-- A call of any function keeps all settled promises. -/
theorem keeps_enter (f : Fun) (this : Value) (args : List Value) :
    Keeps m.world (m.enter f this args).world := by
  cases f with
  | user f | native f => exact Keeps.refl _
  | promise_resolve_func rd =>
    unfold enter promise_resolve_func
    dsimp only
    split
    · exact Keeps.refl _
    · exact (Keeps.markCalled m.world rd).trans
        (keeps_resolve_internal { m with world := m.world.markCalled rd } _ _)
  | promise_reject_func rd =>
    unfold enter promise_reject_func
    dsimp only
    split
    · exact Keeps.refl _
    · exact (Keeps.markCalled m.world rd).trans (Keeps.lr_promise_reject_internal _ _ _)
  | js_promise_constructor =>
    unfold enter js_promise_constructor
    dsimp only
    split
    · exact (Keeps.lr_new_promise _ _).trans (Keeps.raised _ _)
    · exact (Keeps.lr_new_promise _ _).trans (Keeps.resolve_data_new _ _ _)
  | js_promise_then | js_promise_catch => exact keeps_thenWith m _ _ _ _
  | js_promise_finally =>
    unfold enter js_promise_finally
    dsimp only
    split
    · exact keeps_thenWith m _ _ _ _
    · exact keeps_thenWith m _ _ _ _
  | js_promise_resolve =>
    unfold enter js_promise_resolve
    dsimp only
    split
    · exact Keeps.refl _
    · exact Keeps.newSettled _ _ _
  | js_promise_reject => exact Keeps.newSettled _ _ _
  | js_promise_all => exact keeps_all m _
  | js_promise_race => exact keeps_race m _
  | js_promise_all_settled => exact keeps_all_settled m _
  | js_promise_any => exact keeps_any m _

/-- Running a handler keeps all settled promises. -/
theorem keeps_handle (h : Handler) (v : Value) : Keeps m.world (m.handle h v).world := by
  cases h with
  | promise_all_fulfill pad index =>
    unfold handle promise_all_fulfill
    dsimp only
    split
    · exact Keeps.refl _
    split
    · exact Keeps.refl _
    rename_i pd _ _
    have stored := Keeps.storeResult m.world pad pd index v
    split
    · exact stored.trans (keeps_resolve_internal ⟨_, m.stack, m.control⟩ _ _)
    · exact stored
  | promise_all_reject pad =>
    unfold handle promise_all_reject
    dsimp only
    split
    · exact Keeps.refl _
    split
    · exact Keeps.refl _
    exact (Keeps.markRejected _ _ _).trans (Keeps.lr_promise_reject_internal _ _ _)
  | thrower_func => exact Keeps.raised _ _
  | _ => exact Keeps.refl _

/-- Where `lr_promise_resolve_internal` gives an outcome without a look at the state, the
promise is still pending. -/
def MeetsBehind (result : Result) : Prop :=
  match m.stack with
  | .getter p _ :: _ =>
    match result.taken with
    | .ok (.function _) => True
    | _ => m.world.isPending p = true
  | .thenCall p :: _ =>
    match result.taken with
    | .ok _ => True
    | .error _ => m.world.isPending p = true
  | _ => True

/-- A result that meets the condition keeps all settled promises. -/
theorem keeps_resume {result : Result} (meets : m.MeetsBehind result) :
    Keeps m.world (m.resume result).world := by
  unfold MeetsBehind at meets
  unfold resume
  cases stack : m.stack with
  | nil => exact Keeps.refl _
  | cons frame rest =>
    rw [stack] at meets
    cases frame with
    | body native => exact Keeps.refl _
    | executor p =>
      dsimp only
      split
      · exact Keeps.refl _
      · exact Keeps.lr_promise_reject_internal _ _ _
    | getter p value =>
      dsimp only at meets ⊢
      split
      · exact Keeps.resolve_data_new _ _ _
      · rename_i no_function
        refine Keeps.settle ?_ .fulfill _
        split at meets
        · rename_i then_val here
          exact (no_function then_val here).elim
        · exact meets
    | thenCall p =>
      dsimp only at meets ⊢
      split
      · exact Keeps.refl _
      · rename_i e here
        rw [here] at meets
        exact Keeps.settle meets .reject _
    | handler job callback =>
      dsimp only
      split
      · exact Keeps.refl _
      · exact Keeps.refl _
    | resolving job callback result => exact Keeps.refl _
    | finallyFulfill original =>
      dsimp only
      split
      · exact Keeps.refl _
      · exact Keeps.refl _
    | finallyReject =>
      dsimp only
      split
      · exact Keeps.raised _ _
      · exact Keeps.refl _
    | combined p => exact Keeps.refl _

def CalledAgain (data : PromiseResolveData) : Prop :=
  data.called = true ∧ ∃ rd, m.world.resolve_data[rd]? = some data ∧
    ∃ this args, m.control = .call (.promise_resolve_func rd) this args ∨
      m.control = .call (.promise_reject_func rd) this args

/-- No resolving function is called again while its promise is pending, and nobody has settled a
promise whose outcome is then given without a look at it. -/
def Meets : Event → Prop
  | .native =>
    match m.control with
    | .call (.promise_resolve_func rd) _ _ | .call (.promise_reject_func rd) _ _ =>
      ∀ data ∈ m.world.resolve_data[rd]?, data.called = true →
        m.world.isPending data.promise = false
    | .back result => m.MeetsBehind result
    | _ => True
  | _ => True

instance (result : Result) : Decidable (m.MeetsBehind result) := by
  unfold MeetsBehind
  split
  · split <;> infer_instance
  · split <;> infer_instance
  · infer_instance

instance (event : Event) : Decidable (m.Meets event) := by
  unfold Meets
  split
  · split <;> infer_instance
  · infer_instance

/-- A step leaves settled promises as they are, and a resolving function that is called
again does nothing. -/
def SettlesOnce (event : Event) : Prop :=
  ∀ next, m.step event = some next → Stays m.world next.world ∧
    ∀ data, event = .native → m.CalledAgain data →
      next = m.answer m.world (.value .undefined)

variable {next : Machine}

/-- A native step that meets the condition keeps all settled promises. -/
theorem keeps_advance (meets : m.Meets .native)
    (taken : m.advance = some next) : Keeps m.world next.world := by
  unfold advance at taken
  unfold Meets at meets
  cases control : m.control with
  | program =>
    rw [control] at taken
    cases taken
  | call f this args =>
    rw [control] at taken
    cases taken
    exact m.keeps_enter f this args
  | handle h v =>
    rw [control] at taken
    cases taken
    exact m.keeps_handle h v
  | resolve p v =>
    rw [control] at taken
    cases taken
    exact m.keeps_resolve_internal p v
  | reject p e =>
    rw [control] at taken
    cases taken
    exact Keeps.lr_promise_reject_internal _ _ _
  | back result =>
    rw [control] at taken
    simp only [control] at meets
    cases taken
    exact m.keeps_resume meets

variable {event : Event}

/-- A step of the program keeps all settled promises. -/
theorem keeps_act (taken : m.act event = some next) : Keeps m.world next.world := by
  cases event with
  | native => cases taken
  | invoke f this args =>
    cases taken
    exact Keeps.refl _
  | finish v =>
    unfold act at taken
    dsimp only at taken
    split at taken
    · cases taken
      exact Keeps.refl _
    · cases taken
  | fail e =>
    unfold act at taken
    dsimp only at taken
    split at taken
    · cases taken
      exact Keeps.raised _ _
    · cases taken
      exact Keeps.refl _
    · cases taken
  | drain =>
    unfold act at taken
    dsimp only at taken
    split at taken
    · rename_i job rest queue
      cases taken
      exact Keeps.tail queue
    · cases taken
  | array elements =>
    cases taken
    exact Keeps.of_same rfl rfl rfl

theorem step_cases (taken : m.step event = some next) :
    event = .native ∧ m.advance = some next ∨
      m.control = .program ∧ m.act event = some next := by
  unfold step at taken
  split at taken
  · exact .inl ⟨rfl, taken⟩
  · rename_i program
    exact .inr ⟨program, taken⟩
  · cases taken

theorem keeps_step (meets : m.Meets event)
    (taken : m.step event = some next) : Keeps m.world next.world := by
  rcases m.step_cases taken with ⟨rfl, advances⟩ | ⟨_, acts⟩
  · exact m.keeps_advance meets advances
  · exact m.keeps_act acts

theorem markCalled_called {w : World} {rd : Nat} {data : PromiseResolveData}
    (found : w.resolve_data[rd]? = some data) (called : data.called = true) :
    w.markCalled rd = w := by
  have same : w.resolve_data.modify rd (fun data => { data with called := true }) =
      w.resolve_data := by
    refine ext_getElem? fun i => ?_
    rw [getElem?_modify]
    split_ifs with here
    · subst here
      rw [found, ← called]
      rfl
    · exact map_id' ..
  unfold World.markCalled
  rw [same]

/-- A step that meets the condition leaves pairs that were called without effect. -/
theorem settlesOnce_of_meets (meets : m.Meets event) : m.SettlesOnce event := by
  intro next taken
  refine ⟨(m.keeps_step meets taken).stays, ?_⟩
  rintro data rfl ⟨called, rd, found, this, args, resolves | rejects⟩
  · simp only [step, advance, resolves, some.injEq] at taken
    simp only [Meets, resolves] at meets
    have settled := meets data found called
    rw [← taken]
    simp [enter, promise_resolve_func, found, markCalled_called found called,
      lr_promise_resolve_internal, settled]
  · simp only [step, advance, rejects, some.injEq] at taken
    simp only [Meets, rejects] at meets
    have settled := meets data found called
    rw [← taken]
    simp [enter, promise_reject_func, found, markCalled_called found called,
      World.lr_promise_reject_internal, settled]

theorem orderly_start : start.world.Orderly where
  registered _ _ found := by cases found
  known _ member := by cases member
  queue := suffix_rfl

/-- Under the condition promises settle once, later calls of resolving functions do nothing, and
every registration is scheduled once, in order, for the outcome. -/
theorem promises_settle_once (events : List Event)
    (meets : Runs.Throughout step Meets start events) :
    Runs.Throughout step SettlesOnce start events ∧
      ∀ reached, Runs.after step start events = some reached → reached.world.Orderly := by
  constructor
  · exact Runs.Throughout.of_invariant (fun _ => True) (fun _ _ _ _ _ _ => trivial)
      (fun m _ _ meets => m.settlesOnce_of_meets meets) trivial meets
  · intro reached arrives
    have keeps : ∀ (m : Machine) event next, m.world.Orderly → m.Meets event →
        m.step event = some next → next.world.Orderly :=
      fun m _ _ orderly meets taken => (m.keeps_step meets taken).orderly orderly
    exact Runs.Throughout.invariant_after keeps orderly_start meets arrives

/-- A promise is resolved with an object whose `then` calls back, and then gets a handler. -/
def sampleRun : List Event :=
  [.invoke .js_promise_constructor .undefined [.function (.user 0)], .native, .native,
    .invoke (.promise_resolve_func 0) .undefined [.object 7], .native,
    .finish (.function (.user 1)), .native, .native,
    .invoke (.promise_resolve_func 1) .undefined [.plain 5], .native, .native,
    .finish .undefined, .native, .native, .finish .undefined, .native, .native,
    .invoke .js_promise_then (.promise 0) [.function (.user 2)], .native, .native,
    .drain, .native, .native, .finish (.plain 6), .native, .native, .native, .native]

theorem promises_settle_once_sample :
    (Runs.after step start sampleRun).map
        (fun m => m.world.promises.map fun pd => (pd.state, pd.result)) =
      some [(.fulfilled, .plain 5), (.fulfilled, .plain 6)] ∧
      Runs.Throughout step SettlesOnce start sampleRun :=
  ⟨by decide, (promises_settle_once sampleRun (by decide)).1⟩

/-- An executor resolves with an object; the accessor `then` of the object resolves again, and
returns no function. -/
def overwritten : List Event :=
  [.invoke .js_promise_constructor .undefined [.function (.user 0)], .native, .native,
    .invoke (.promise_resolve_func 0) .undefined [.object 7], .native,
    .invoke (.promise_resolve_func 0) .undefined [.plain 1], .native, .native,
    .finish .undefined]

theorem settled_promise_overwritten :
    ¬∀ events : List Event, Runs.Throughout step SettlesOnce start events := by
  intro all
  have settles := all (overwritten ++ [.native])
  have here := settles.at_step (some_get (by decide)).symm
  have stays := (here _ (some_get (by decide)).symm).1 0 _ (some_get (by decide)).symm
    (by decide)
  obtain ⟨pd, found, _, result⟩ := stays
  have same := (congrArg (Option.map LRPromiseData.result) found).trans (congrArg some result)
  revert same
  decide

end Machine

end LRJS.Promises
