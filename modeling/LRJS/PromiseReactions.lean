import LRJS.PromiseSettling
import LRJS.Library.RefCounts

/-!
# What reactions pass on

Each derived promise waits in one place: in the reactions of a promise, in one
job, or in the frame of that job.  So the job of a reaction alone settles it,
with what the handler has given.
-/

namespace LRJS.Promises

open List Option LRPromiseData World

def LRPromiseData.waiting (pd : LRPromiseData) : List Nat :=
  pd.fulfill_reactions.map LRPromiseReaction.promise

namespace World

variable (w : World)

def waiting : List Nat :=
  w.promises.flatMap LRPromiseData.waiting ++ w.jobs.map JobData.promise

def Open (d : Nat) : Prop :=
  ∃ pd, w.promises[d]? = some pd ∧ pd.derived = true ∧ pd.state = .pending ∧
    ∀ data ∈ w.resolve_data, data.promise ≠ d

def Free (p : Nat) : Prop :=
  (∃ data ∈ w.resolve_data, data.promise = p) ∨
    ∃ pd, w.promises[p]? = some pd ∧ pd.derived = false

/-- Derived promises wait once; the reactions of each promise belong together and come from its
registrations. -/
structure Linear (others : List Nat) : Prop where
  once : (others ++ w.waiting).Nodup
  isOpen : ∀ d ∈ others ++ w.waiting, w.Open d
  parallel : ∀ (p : Nat) (pd : LRPromiseData), w.promises[p]? = some pd →
    pd.reject_reactions.map LRPromiseReaction.promise = pd.waiting
  registered : ∀ (p : Nat) (pd : LRPromiseData), w.promises[p]? = some pd →
    ∀ kind, ∀ reaction ∈ pd.reactions kind, ∃ entry ∈ pd.registered,
      entry.reaction kind = reaction
  pads : ∀ pad ∈ w.pads, w.Free pad.result
  known : ∀ data ∈ w.resolve_data, data.promise < w.promises.length

def Sends (job : JobData) : Prop :=
  ∃ pd, w.promises[job.source]? = some pd ∧ pd.state = job.kind.state ∧ pd.result = job.value ∧
    ∃ entry ∈ pd.registered, entry.reaction job.kind = ⟨job.handler, job.promise⟩

namespace Linear

variable {w : World} {others : List Nat}

theorem lt_length (linear : w.Linear others) {d : Nat} (waits : d ∈ others ++ w.waiting) :
    d < w.promises.length := by
  obtain ⟨pd, found, _⟩ := linear.isOpen d waits
  exact (List.getElem?_eq_some_iff.mp found).1

theorem not_free (linear : w.Linear others) {p : Nat} (free : w.Free p) :
    p ∉ others ++ w.waiting := by
  intro waits
  obtain ⟨pd, found, derived, _, nothing⟩ := linear.isOpen p waits
  rcases free with ⟨data, member, same⟩ | ⟨pd', found', own⟩
  · exact nothing data member same
  · rw [found] at found'
    cases found'
    rw [derived] at own
    cases own

theorem free_lt (linear : w.Linear others) {p : Nat} (free : w.Free p) : p < w.promises.length := by
  rcases free with ⟨data, member, rfl⟩ | ⟨pd, found, _⟩
  · exact linear.known data member
  · exact (List.getElem?_eq_some_iff.mp found).1

theorem tail {p : Nat} (linear : w.Linear (p :: others)) : w.Linear others :=
  { linear with
    once := (nodup_cons.mp linear.once).2
    isOpen := fun d waits => linear.isOpen d (mem_cons_of_mem _ waits) }

theorem head_notMem {p : Nat} (linear : w.Linear (p :: others)) : p ∉ others ++ w.waiting :=
  (nodup_cons.mp linear.once).1

end Linear

structure Grows (w w' : World) : Prop where
  promises : ∀ (p : Nat) (pd : LRPromiseData), w.promises[p]? = some pd →
    ∃ pd', w'.promises[p]? = some pd' ∧ pd'.derived = pd.derived ∧ pd.registered ⊆ pd'.registered
  records : ∀ data ∈ w.resolve_data, ∃ data' ∈ w'.resolve_data,
    data'.promise = data.promise ∧ data'.thenable = data.thenable

namespace Grows

variable {w w' w'' : World}

theorem refl (w : World) : Grows w w where
  promises _ pd found := ⟨pd, found, rfl, List.Subset.refl _⟩
  records data member := ⟨data, member, rfl, rfl⟩

theorem trans (first : Grows w w') (second : Grows w' w'') : Grows w w'' where
  promises p pd found := by
    obtain ⟨pd', found', derived, registered⟩ := first.promises p pd found
    obtain ⟨pd'', found'', derived', registered'⟩ := second.promises p pd' found'
    exact ⟨pd'', found'', derived'.trans derived, List.Subset.trans registered registered'⟩
  records data member := by
    obtain ⟨data', member', promise, thenable⟩ := first.records data member
    obtain ⟨data'', member'', promise', thenable'⟩ := second.records data' member'
    exact ⟨data'', member'', promise'.trans promise, thenable'.trans thenable⟩

theorem free (grows : Grows w w') {p : Nat} (free : w.Free p) : w'.Free p := by
  rcases free with ⟨data, member, same⟩ | ⟨pd, found, own⟩
  · obtain ⟨data', member', promise, _⟩ := grows.records data member
    exact .inl ⟨data', member', promise.trans same⟩
  · obtain ⟨pd', found', derived, _⟩ := grows.promises p pd found
    exact .inr ⟨pd', found', derived.trans own⟩

theorem append (w : World) (pd : LRPromiseData) :
    Grows w { w with promises := w.promises ++ [pd] } where
  promises p before found := by
    refine ⟨before, ?_, rfl, List.Subset.refl _⟩
    rw [List.getElem?_append_left (List.getElem?_eq_some_iff.mp found).1]
    exact found
  records data member := ⟨data, member, rfl, rfl⟩

theorem set {p : Nat} {pd pd' : LRPromiseData} (found : w.promises[p]? = some pd)
    (derived : pd'.derived = pd.derived) (registered : pd.registered ⊆ pd'.registered)
    (jobs scheduled : List JobData) : Grows w { w with
      promises := w.promises.set p pd'
      jobs := jobs
      scheduled := scheduled } where
  promises q before found' := by
    by_cases same : q = p
    · subst same
      rw [found] at found'
      cases found'
      exact ⟨pd', List.getElem?_set_self (List.getElem?_eq_some_iff.mp found).1, derived,
        registered⟩
    · refine ⟨before, ?_, rfl, List.Subset.refl _⟩
      rw [getElem?_set_ne (Ne.symm same)]
      exact found'
  records data member := ⟨data, member, rfl, rfl⟩

theorem resolve_data_new (w : World) (p : Nat) (thenable : Option Value) :
    Grows w (w.resolve_data_new p thenable) where
  promises _ pd found := ⟨pd, found, rfl, List.Subset.refl _⟩
  records data member := ⟨data, mem_append_left _ member, rfl, rfl⟩

theorem markCalled (w : World) (rd : Nat) : Grows w (w.markCalled rd) where
  promises _ pd found := ⟨pd, found, rfl, List.Subset.refl _⟩
  records data member := by
    obtain ⟨i, found⟩ := getElem?_of_mem member
    have here : (w.markCalled rd).resolve_data[i]? =
        some (if rd = i then { data with called := true } else data) := by
      unfold World.markCalled
      rw [getElem?_modify, found]
      rfl
    refine ⟨_, mem_of_getElem? here, ?_⟩
    split
    · exact ⟨rfl, rfl⟩
    · exact ⟨rfl, rfl⟩

theorem of_same {w w' : World} (promises : w'.promises = w.promises)
    (records : w'.resolve_data = w.resolve_data) : Grows w w' where
  promises _ pd found := ⟨pd, promises ▸ found, rfl, List.Subset.refl _⟩
  records data member := ⟨data, records ▸ member, rfl, rfl⟩

end Grows

namespace Linear

variable {w : World} {others : List Nat}

section

variable (linear : w.Linear others)
include linear

theorem of_same {w' : World} (promises : w'.promises = w.promises)
    (records : w'.resolve_data = w.resolve_data) (jobs : w'.jobs = w.jobs)
    (pads : ∀ pad ∈ w'.pads, w.Free pad.result) : w'.Linear others := by
  have waiting : w'.waiting = w.waiting := by
    unfold waiting
    rw [promises, jobs]
  have grows : Grows w w' := .of_same promises records
  constructor
  · rw [waiting]
    exact linear.once
  · rw [waiting]
    intro d waits
    obtain ⟨pd, found, derived, pending, nothing⟩ := linear.isOpen d waits
    rw [← promises] at found
    rw [← records] at nothing
    exact ⟨pd, found, derived, pending, nothing⟩
  · rw [promises]
    exact linear.parallel
  · rw [promises]
    exact linear.registered
  · exact fun pad member => grows.free (pads pad member)
  · rw [promises, records]
    exact linear.known

theorem append (state : PromiseState) (result : Value) (derived : Bool) :
    ({ w with promises := w.promises ++ [⟨state, result, [], [], [], derived⟩] } : World).Linear
      others := by
  have waiting : ({ w with promises := w.promises ++ [⟨state, result, [], [], [], derived⟩] } :
      World).waiting = w.waiting := by
    unfold waiting
    simp [LRPromiseData.waiting]
  have grows := Grows.append w ⟨state, result, [], [], [], derived⟩
  have cases_of : ∀ (p : Nat) (pd : LRPromiseData),
      (w.promises ++ [⟨state, result, [], [], [], derived⟩])[p]? = some pd →
        w.promises[p]? = some pd ∨ pd = ⟨state, result, [], [], [], derived⟩ := by
    intro p pd found
    rcases Nat.lt_or_ge p w.promises.length with old | new
    · rw [List.getElem?_append_left old] at found
      exact .inl found
    · rw [getElem?_append_right new, getElem?_singleton] at found
      split at found
      · cases found
        exact .inr rfl
      · cases found
  constructor
  · rw [waiting]
    exact linear.once
  · rw [waiting]
    intro d waits
    obtain ⟨pd, found, derived, pending, nothing⟩ := linear.isOpen d waits
    refine ⟨pd, ?_, derived, pending, nothing⟩
    rw [List.getElem?_append_left (linear.lt_length waits)]
    exact found
  · intro p pd found
    rcases cases_of p pd found with old | rfl
    · exact linear.parallel p pd old
    · rfl
  · intro p pd found kind reaction member
    rcases cases_of p pd found with old | rfl
    · exact linear.registered p pd old kind reaction member
    · cases kind with
      | fulfill | reject => cases member
  · exact fun pad member => grows.free (linear.pads pad member)
  · intro data member
    rw [length_append]
    exact Nat.lt_add_right _ (linear.known data member)

theorem set {others' : List Nat} {p : Nat} {pd pd' : LRPromiseData}
    {jobs scheduled : List JobData}
    (found : w.promises[p]? = some pd)
    (derived : pd'.derived = pd.derived) (registered : pd.registered ⊆ pd'.registered)
    (parallel : pd'.reject_reactions.map LRPromiseReaction.promise = pd'.waiting)
    (reactions : ∀ kind, ∀ reaction ∈ pd'.reactions kind,
      ∃ entry ∈ pd'.registered, entry.reaction kind = reaction)
    (same : ∀ d, (others' ++ pd'.waiting ++ jobs.map JobData.promise).count d =
      (others ++ pd.waiting ++ w.jobs.map JobData.promise).count d)
    (kept : p ∈ others ++ w.waiting → pd'.state = pd.state) :
    ({ w with
      promises := w.promises.set p pd'
      jobs := jobs
      scheduled := scheduled } : World).Linear others' := by
  have change := RefCounts.count_flatMap_set LRPromiseData.waiting found pd'
  have perm : (others' ++ ({ w with
      promises := w.promises.set p pd'
      jobs := jobs
      scheduled := scheduled } : World).waiting).Perm (others ++ w.waiting) := by
    rw [perm_iff_count]
    intro d
    have here := change d
    have whole := same d
    unfold waiting
    simp only [count_append] at here whole ⊢
    omega
  have grows := Grows.set found derived registered jobs scheduled
  have bound := (List.getElem?_eq_some_iff.mp found).1
  have cases_of : ∀ (q : Nat) (data : LRPromiseData), (w.promises.set p pd')[q]? = some data →
      q = p ∧ data = pd' ∨ w.promises[q]? = some data := by
    intro q data here
    by_cases equal : q = p
    · subst equal
      rw [List.getElem?_set_self bound] at here
      cases here
      exact .inl ⟨rfl, rfl⟩
    · rw [getElem?_set_ne (Ne.symm equal)] at here
      exact .inr here
  constructor
  · exact perm.nodup_iff.mpr linear.once
  · intro d waits
    have before := perm.mem_iff.mp waits
    obtain ⟨data, here, isDerived, pending, nothing⟩ := linear.isOpen d before
    by_cases equal : d = p
    · subst equal
      rw [found] at here
      cases here
      exact ⟨pd', List.getElem?_set_self bound, derived.trans isDerived,
        (kept before).trans pending, nothing⟩
    · refine ⟨data, ?_, isDerived, pending, nothing⟩
      rw [getElem?_set_ne (Ne.symm equal)]
      exact here
  · intro q data here
    rcases cases_of q data here with ⟨rfl, rfl⟩ | old
    · exact parallel
    · exact linear.parallel q data old
  · intro q data here kind
    rcases cases_of q data here with ⟨rfl, rfl⟩ | old
    · exact reactions kind
    · exact linear.registered q data old kind
  · exact fun pad member => grows.free (linear.pads pad member)
  · intro data member
    rw [length_set]
    exact linear.known data member

theorem add {d : Nat} (isOpen : w.Open d)
    (new : d ∉ others ++ w.waiting) : w.Linear (d :: others) :=
  { linear with
    once := nodup_cons.mpr ⟨new, linear.once⟩
    isOpen := by
      intro other waits
      rcases mem_cons.mp waits with rfl | old
      · exact isOpen
      · exact linear.isOpen other old }

theorem pop {job : JobData} {rest : List JobData}
    (queue : w.jobs = job :: rest) : ({ w with jobs := rest } : World).Linear
      (job.promise :: others) := by
  have perm : (job.promise :: others ++ ({ w with jobs := rest } : World).waiting).Perm
      (others ++ w.waiting) := by
    rw [perm_iff_count]
    intro d
    unfold waiting
    rw [queue]
    simp only [count_append, count_cons, map_cons]
    omega
  exact { linear with
    once := perm.nodup_iff.mpr linear.once
    isOpen := fun d waits => linear.isOpen d (perm.mem_iff.mp waits) }

theorem resolve_data_new {p : Nat} (out : p ∉ others ++ w.waiting)
    (known : p < w.promises.length) (thenable : Option Value) :
    (w.resolve_data_new p thenable).Linear others :=
  { linear with
    isOpen := by
      intro d waits
      obtain ⟨pd, found, derived, pending, nothing⟩ := linear.isOpen d waits
      refine ⟨pd, found, derived, pending, ?_⟩
      intro data member
      rcases mem_append.mp member with old | new
      · exact nothing data old
      · rw [mem_singleton.mp new]
        rintro rfl
        exact out waits
    pads := fun pad member =>
      (Grows.resolve_data_new w p thenable).free (linear.pads pad member)
    known := by
      intro data member
      rcases mem_append.mp member with old | new
      · exact linear.known data old
      · rw [mem_singleton.mp new]
        exact known }

theorem settle {p : Nat} (out : p ∉ others ++ w.waiting)
    (kind : JobKind) (result : Value) : (w.settle p kind result).Linear others := by
  cases found : w.promises[p]? with
  | none =>
    unfold World.settle
    rw [found]
    exact linear
  | some pd =>
    have ids : ((pd.reactions kind).map fun reaction => reaction.job kind result p).map
        JobData.promise = pd.waiting := by
      rw [List.map_map]
      cases kind with
      | fulfill => rfl
      | reject => exact linear.parallel p pd found
    rw [settle_eq found]
    refine linear.set found rfl (List.Subset.refl _) rfl ?_ ?_ fun waits => (out waits).elim
    · intro other reaction member
      cases other with
      | fulfill | reject => cases member
    · intro d
      rw [map_append, ids]
      simp only [LRPromiseData.waiting, map_nil, append_nil, count_append]
      omega

theorem promise_then {p : Nat} {pd : LRPromiseData}
    (found : w.promises[p]? = some pd) (on_fulfilled on_rejected : Handler) :
    (w.promise_then p pd on_fulfilled on_rejected).Linear others := by
  have bound := (List.getElem?_eq_some_iff.mp found).1
  have found' : (w.lr_new_promise true).promises[p]? = some pd := by
    unfold lr_new_promise
    rw [List.getElem?_append_left bound]
    exact found
  have appended := linear.append .pending .undefined true
  have isOpen : (w.lr_new_promise true).Open w.newId := by
    refine ⟨promise_data_new true, ?_, rfl, rfl, ?_⟩
    · unfold lr_new_promise newId
      rw [getElem?_append_right (Nat.le_refl _), Nat.sub_self]
      rfl
    · intro data member same
      exact Nat.lt_irrefl _ (same ▸ linear.known data member)
  have new : w.newId ∉ others ++ (w.lr_new_promise true).waiting := by
    intro waits
    have waiting : (w.lr_new_promise true).waiting = w.waiting := by
      unfold waiting lr_new_promise
      simp [promise_data_new, LRPromiseData.waiting]
    rw [waiting] at waits
    exact Nat.lt_irrefl _ (linear.lt_length waits)
  have added := Linear.add (w := w.lr_new_promise true) appended isOpen new
  have parallel := linear.parallel p pd found
  have registered := linear.registered p pd found
  have one_job : ∀ (d : Nat) {job : JobData}, job.promise = w.newId →
      (others ++ pd.waiting ++
          ((w.lr_new_promise true).jobs ++ [job]).map JobData.promise).count d =
        (w.newId :: others ++ pd.waiting ++
          (w.lr_new_promise true).jobs.map JobData.promise).count d := by
    intro d job derived
    simp only [map_append, map_cons, map_nil, derived, count_append,
      count_cons, count_nil]
    omega
  rw [promise_then_eq]
  unfold LRPromiseData.extended LRPromiseData.jobsFor
  cases state : pd.state with
  | pending =>
    refine added.set found' rfl (subset_append_left _ _) ?_ ?_ ?_ fun _ => state.symm
    · simp only [LRPromiseData.waiting, map_append, parallel]
      rfl
    · intro kind reaction member
      have old_or : reaction ∈ pd.reactions kind ∨
          (w.registration on_fulfilled on_rejected).reaction kind = reaction := by
        cases kind with
        | fulfill | reject =>
          rcases mem_append.mp member with old | new
          · exact .inl old
          · exact .inr (mem_singleton.mp new).symm
      rcases old_or with old | new
      · obtain ⟨entry, mem, same⟩ := registered kind reaction old
        exact ⟨entry, mem_append_left _ mem, same⟩
      · exact ⟨_, mem_append_right _ (mem_singleton.mpr rfl), new⟩
    · intro d
      simp only [LRPromiseData.waiting, registration, map_append, map_cons,
        map_nil, append_nil, count_append, count_cons, count_nil,
        lr_new_promise]
      omega
  | fulfilled | rejected =>
    refine added.set found' rfl (subset_append_left _ _) parallel ?_ ?_ fun _ => state.symm
    · intro kind reaction member
      obtain ⟨entry, mem, same⟩ := registered kind reaction member
      exact ⟨entry, mem_append_left _ mem, same⟩
    · exact fun d => one_job d rfl

end

end Linear

def Schedules (w w' : World) : Prop :=
  ∃ new, w'.scheduled = w.scheduled ++ new ∧ ∀ job ∈ new, w'.Sends job

theorem Schedules.of_same {w w' : World} (same : w'.scheduled = w.scheduled) : w.Schedules w' :=
  ⟨[], by rw [same, append_nil], fun _ member => by cases member⟩

theorem Sends.later {w w' : World} {job : JobData} (sends : w.Sends job) (grows : Grows w w')
    (stays : Stays w w') : w'.Sends job := by
  obtain ⟨pd, found, state, result, entry, member, same⟩ := sends
  have settled : pd.state ≠ .pending := by
    rw [state]
    cases job.kind with
    | fulfill | reject => decide
  obtain ⟨pd', found', _, registered⟩ := grows.promises _ pd found
  obtain ⟨pd'', found'', state', result'⟩ := stays _ pd found settled
  rw [found'] at found''
  cases found''
  exact ⟨pd', found', state'.trans state, result'.trans result, entry, registered member, same⟩

structure Moves (gone : List Nat) (w w' : World) : Prop where
  grows : Grows w w'
  linear : ∀ others, w.Linear (gone ++ others) → w'.Linear others
  schedules : ∀ others, w.Linear (gone ++ others) → w.Schedules w'

namespace Moves

variable {w w' w'' : World} {gone : List Nat}

theorem refl (w : World) : Moves [] w w where
  grows := Grows.refl w
  linear _ linear := linear
  schedules _ _ := .of_same rfl

theorem trans (first : Moves gone w w') (second : Moves [] w' w'') (stays : Stays w' w'') :
    Moves gone w w'' where
  grows := first.grows.trans second.grows
  linear others linear := second.linear others (first.linear others linear)
  schedules others linear := by
    obtain ⟨new, scheduled, sends⟩ := first.schedules others linear
    obtain ⟨new', scheduled', sends'⟩ := second.schedules others (first.linear others linear)
    refine ⟨new ++ new', by rw [scheduled', scheduled, append_assoc], ?_⟩
    intro job member
    rcases mem_append.mp member with old | late
    · exact (sends job old).later second.grows stays
    · exact sends' job late

theorem of_same (promises : w'.promises = w.promises) (records : w'.resolve_data = w.resolve_data)
    (jobs : w'.jobs = w.jobs) (scheduled : w'.scheduled = w.scheduled)
    (pads : (∀ pad ∈ w.pads, w.Free pad.result) → ∀ pad ∈ w'.pads, w.Free pad.result) :
    Moves [] w w' where
  grows := .of_same promises records
  linear _ linear := linear.of_same promises records jobs (pads linear.pads)
  schedules _ _ := .of_same scheduled

theorem raised (w : World) (e : Value) : Moves [] w { w with current_exception := e } :=
  of_same rfl rfl rfl rfl id

section

variable {pad : Nat} {pd : PromiseAllData} (found : w.pads[pad]? = some pd)
include found

theorem pad_set {pd' : PromiseAllData}
    (result : pd'.result = pd.result) (free : ∀ pad ∈ w.pads, w.Free pad.result) :
    ∀ other ∈ w.pads.set pad pd', w.Free other.result := by
  intro other member
  rcases mem_or_eq_of_mem_set member with old | rfl
  · exact free other old
  · rw [result]
    exact free pd (mem_of_getElem? found)

theorem storeResult (index : Nat) (value : Value) : Moves [] w (w.storeResult pad pd index value) :=
  of_same rfl rfl rfl rfl (pad_set found rfl)

theorem markRejected : Moves [] w (w.markRejected pad pd) :=
  of_same rfl rfl rfl rfl (pad_set found rfl)

end

theorem toArray (w : World) (iterable : Value) : Moves [] w (w.toArray iterable).1 := by
  unfold World.toArray
  split
  · split
    · exact refl w
    · exact of_same rfl rfl rfl rfl id
  · exact of_same rfl rfl rfl rfl id

theorem append (w : World) (state : PromiseState) (result : Value) (derived : Bool) :
    Moves [] w { w with promises := w.promises ++ [⟨state, result, [], [], [], derived⟩] } where
  grows := Grows.append w _
  linear _ linear := linear.append state result derived
  schedules _ _ := .of_same rfl

theorem lr_new_promise (w : World) : Moves [] w (w.lr_new_promise false) :=
  append w .pending .undefined false

theorem newSettled (w : World) (state : PromiseState) (result : Value) :
    Moves [] w (w.newSettled state result) :=
  append w state result false

theorem markCalled (w : World) (rd : Nat) : Moves [] w (w.markCalled rd) where
  grows := Grows.markCalled w rd
  linear others linear := by
    have promises_of : ∀ data ∈ (w.markCalled rd).resolve_data,
        ∃ before ∈ w.resolve_data, before.promise = data.promise := by
      intro data member
      obtain ⟨i, found⟩ := getElem?_of_mem member
      unfold World.markCalled at found
      rw [getElem?_modify] at found
      obtain ⟨before, here, rfl⟩ := map_eq_some_iff.mp found
      refine ⟨before, mem_of_getElem? here, ?_⟩
      split
      · rfl
      · rfl
    exact { linear with
      isOpen := by
        intro d waits
        obtain ⟨pd, found, derived, pending, nothing⟩ := linear.isOpen d waits
        refine ⟨pd, found, derived, pending, ?_⟩
        intro data member
        obtain ⟨before, old, same⟩ := promises_of data member
        rw [← same]
        exact nothing before old
      pads := fun pad member => (Grows.markCalled w rd).free (linear.pads pad member)
      known := by
        intro data member
        obtain ⟨before, old, same⟩ := promises_of data member
        rw [← same]
        exact linear.known before old }
  schedules _ _ := .of_same rfl

section

variable {p : Nat} {pd : LRPromiseData} (found : w.promises[p]? = some pd)
    (on_fulfilled on_rejected : Handler)
include found on_fulfilled on_rejected

theorem grows_promise_then : Grows w (w.promise_then p pd on_fulfilled on_rejected) := by
  have found' : (w.lr_new_promise true).promises[p]? = some pd := by
    unfold World.lr_new_promise
    rw [List.getElem?_append_left (List.getElem?_eq_some_iff.mp found).1]
    exact found
  have appended : Grows w (w.lr_new_promise true) := Grows.append w _
  rw [promise_then_eq]
  apply appended.trans
  apply Grows.set found'
  · unfold extended
    split <;> rfl
  · unfold extended
    split <;> exact subset_append_left _ _

theorem promise_then : Moves [] w (w.promise_then p pd on_fulfilled on_rejected) where
  grows := grows_promise_then found on_fulfilled on_rejected
  linear _ linear := linear.promise_then found on_fulfilled on_rejected
  schedules _ _ := by
    have bound : p < (w.promises ++ [promise_data_new true]).length := by
      rw [length_append]
      exact Nat.lt_add_right _ (List.getElem?_eq_some_iff.mp found).1
    have appends : (w.promise_then p pd on_fulfilled on_rejected).scheduled =
        w.scheduled ++ pd.jobsFor p (w.registration on_fulfilled on_rejected) := by
      rw [promise_then_eq]
      rfl
    refine ⟨pd.jobsFor p (w.registration on_fulfilled on_rejected), appends, ?_⟩
    rw [promise_then_eq]
    intro job member
    unfold jobsFor at member
    cases state : pd.state with
    | pending =>
      rw [state] at member
      cases member
    | fulfilled | rejected =>
      rw [state] at member
      rw [mem_singleton.mp member]
      refine ⟨_, List.getElem?_set_self bound, ?_⟩
      unfold extended
      rw [state]
      exact ⟨rfl, rfl, _, mem_append_right _ (mem_singleton.mpr rfl), rfl⟩

end

theorem grows_settle (w : World) (p : Nat) (kind : JobKind) (result : Value) :
    Grows w (w.settle p kind result) := by
  cases found : w.promises[p]? with
  | none =>
    unfold settle
    rw [found]
    exact Grows.refl w
  | some pd =>
    rw [settle_eq found]
    refine Grows.set found ?_ ?_ _ _
    · rfl
    · exact List.Subset.refl _

theorem schedules_settle {others : List Nat} (linear : w.Linear others) (p : Nat) (kind : JobKind)
    (result : Value) : w.Schedules (w.settle p kind result) := by
  cases found : w.promises[p]? with
  | none =>
    unfold settle
    rw [found]
    exact .of_same rfl
  | some pd =>
    rw [settle_eq found]
    refine ⟨(pd.reactions kind).map fun reaction => reaction.job kind result p, rfl, ?_⟩
    intro job member
    obtain ⟨reaction, waits, rfl⟩ := mem_map.mp member
    obtain ⟨entry, registered, same⟩ := linear.registered p pd found kind reaction waits
    exact ⟨_, List.getElem?_set_self (List.getElem?_eq_some_iff.mp found).1, rfl, rfl, entry,
      registered, same⟩

variable {p : Nat}

theorem settle_free (free : w.Free p) (kind : JobKind) (result : Value) :
    Moves [] w (w.settle p kind result) where
  grows := grows_settle w p kind result
  linear _ linear := linear.settle (linear.not_free free) kind result
  schedules _ linear := schedules_settle linear p kind result

theorem settle_waiting (w : World) (p : Nat) (kind : JobKind) (result : Value) :
    Moves [p] w (w.settle p kind result) where
  grows := grows_settle w p kind result
  linear _ linear := linear.tail.settle linear.head_notMem kind result
  schedules _ linear := schedules_settle linear p kind result

theorem reject_free (free : w.Free p) (reason : Value) :
    Moves [] w (w.lr_promise_reject_internal p reason) := by
  unfold lr_promise_reject_internal
  split
  · exact settle_free free .reject reason
  · exact refl w

theorem resolve_data_new
    (out : ∀ others, w.Linear (gone ++ others) → w.Linear others ∧ p ∉ others ++ w.waiting)
    (known : p < w.promises.length) (thenable : Option Value) :
    Moves gone w (w.resolve_data_new p thenable) where
  grows := Grows.resolve_data_new w p thenable
  linear others linear :=
    (out others linear).1.resolve_data_new (out others linear).2 known thenable
  schedules _ _ := .of_same rfl

theorem resolve_data_free (free : w.Free p) (known : p < w.promises.length)
    (thenable : Option Value) : Moves [] w (w.resolve_data_new p thenable) := by
  apply resolve_data_new _ known
  intro others linear
  exact ⟨linear, linear.not_free free⟩

theorem resolve_data_waiting (known : p < w.promises.length) (thenable : Option Value) :
    Moves [p] w (w.resolve_data_new p thenable) := by
  apply resolve_data_new _ known
  intro others linear
  exact ⟨linear.tail, linear.head_notMem⟩

end Moves

end World

end LRJS.Promises
