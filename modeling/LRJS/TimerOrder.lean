import LRJS.Timers

/-!
# When timers fire

The list has the newest timer first, and each node is booked in the account of
the program.  As long as the timers that are due stand in the order of their
times, they fire in that order; and the last timer of the list decides about
`has_pending_jobs`.
-/

namespace LRJS.Timers

open List State LR_TimerNode LR_Runtime

theorem ticks_of_fits {delay clock : Int} (fits : DelayFits delay clock) :
    (clock + ticks delay).bmod (2 ^ 64) = clock + delay * (CLOCKS_PER_SEC / 1000) := by
  have exact : ticks delay = delay * (CLOCKS_PER_SEC / 1000) := by
    have product : (delay * CLOCKS_PER_SEC).bmod (2 ^ 64) = delay * CLOCKS_PER_SEC := fits.1
    rw [ticks, product, show delay * CLOCKS_PER_SEC = delay * (CLOCKS_PER_SEC / 1000) * 1000 by
      rw [Int.mul_assoc]
      rfl]
    exact Int.mul_tdiv_cancel _ (by decide)
  rw [exact]
  exact fits.2

/-! ## Clearing -/

def LR_TimerNode.clear (timer_id : Int) (node : LR_TimerNode) : LR_TimerNode :=
  { node with cleared := node.cleared || node.id == timer_id }

variable {timer_id : Int}

theorem map_clear_of_cleared {nodes : List LR_TimerNode}
    (spent : ∀ node ∈ nodes.filter (·.id = timer_id), node.cleared = true) :
    nodes.map (LR_TimerNode.clear timer_id) = nodes := by
  refine (map_congr_left fun node member => ?_).trans (map_id nodes)
  rw [clear]
  by_cases same : node.id = timer_id
  · have cleared := spent node (mem_filter.mpr ⟨member, decide_eq_true same⟩)
    rw [cleared, Bool.true_or, ← cleared]
    rfl
  · rw [beq_eq_false_iff_ne.mpr same, Bool.or_false]
    rfl

theorem markCleared_eq_map {nodes : List LR_TimerNode}
    (spent : ∀ node ∈ (nodes.filter (·.id = timer_id)).tail, node.cleared = true) :
    markCleared timer_id nodes = nodes.map (LR_TimerNode.clear timer_id) := by
  induction nodes with
  | nil => rfl
  | cons node rest ih =>
    rw [markCleared, map_cons]
    split_ifs with here
    · rw [filter_cons_of_pos (by simpa using here)] at spent
      rw [map_clear_of_cleared spent, clear, here]
      simp [cancel, here]
    · rw [filter_cons_of_neg (by simpa using here)] at spent
      rw [ih spent, clear, beq_eq_false_iff_ne.mpr here,
        Bool.or_false]

variable {rt : LR_Runtime}

/-- Where no other timer with the id can fire, it does not matter that only the first is marked. -/
theorem clear_timer_eq
    (spent : ∀ node ∈ (rt.timer_list.filter (·.id = timer_id)).tail, node.cleared = true) :
    rt.lr_clear_timer timer_id =
      { rt with
        before := rt.before.map (LR_TimerNode.clear timer_id)
        rest := rt.rest.map (LR_TimerNode.clear timer_id) } := by
  rw [timer_list, filter_append] at spent
  unfold lr_clear_timer
  split_ifs with found
  · obtain ⟨node, member, here⟩ := found
    have some_before : rt.before.filter (·.id = timer_id) ≠ [] :=
      ne_nil_of_mem (mem_filter.mpr ⟨member, decide_eq_true here⟩)
    rw [tail_append_of_ne_nil some_before, forall_mem_append] at spent
    rw [markCleared_eq_map spent.1, map_clear_of_cleared spent.2]
  · have none_before : rt.before.filter (·.id = timer_id) = [] := by
      refine filter_eq_nil_iff.mpr fun node member same => ?_
      exact found ⟨node, member, of_decide_eq_true same⟩
    rw [none_before, nil_append] at spent
    have untouched : rt.before.map (clear timer_id) = rt.before := by
      refine map_clear_of_cleared ?_
      rw [none_before]
      exact nofun
    rw [markCleared_eq_map spent, untouched]

/-! ## The account of the program -/

structure Timer.Books (timer : Timer) (node : LR_TimerNode) : Prop where
  id : timer.id = node.id
  due : timer.due = node.next_fire
  period : timer.period = node.delay_ms * (CLOCKS_PER_SEC / 1000)
  is_interval : timer.is_interval = node.is_interval
  live : timer.Live ↔ node.cleared = false

structure Timer.Calls (timer : Timer) (now : Int) (node : LR_TimerNode) : Prop where
  id : timer.id = node.id
  due : timer.due = if node.is_interval = true then now + timer.period else node.next_fire
  period : timer.period = node.delay_ms * (CLOCKS_PER_SEC / 1000)
  is_interval : timer.is_interval = node.is_interval
  fired : timer.fired = true
  fresh : timer.fresh = true
  cleared : timer.cleared = node.cleared

def LR_Runtime.waiting (rt : LR_Runtime) : List LR_TimerNode :=
  match rt.processing with
  | some processing => if processing.calling = true then rt.rest.tail else rt.rest
  | none => rt.rest

theorem waiting_clear :
    LR_Runtime.waiting
      { rt with
        before := rt.before.map (LR_TimerNode.clear timer_id)
        rest := rt.rest.map (LR_TimerNode.clear timer_id) } =
      rt.waiting.map (LR_TimerNode.clear timer_id) := by
  cases at_work : rt.processing with
  | none => simp only [waiting, at_work]
  | some processing =>
    simp only [waiting, at_work]
    split
    · exact map_tail.symm
    · rfl

variable {node : LR_TimerNode}

theorem mem_waiting {other : LR_TimerNode} {rest : List LR_TimerNode}
    (here : rt.rest = node :: rest) (member : other ∈ rest) : other ∈ rt.waiting := by
  unfold waiting
  rw [here]
  split
  · split
    · exact member
    · exact mem_cons_of_mem _ member
  · exact mem_cons_of_mem _ member

theorem clear_cleared :
    (node.clear timer_id).cleared = false ↔ node.cleared = false ∧ node.id ≠ timer_id := by
  rw [clear, Bool.or_eq_false_iff, beq_eq_false_iff_ne]

theorem clear_live {timer : Timer} :
    (timer.clear timer_id).Live ↔ timer.Live ∧ timer.id ≠ timer_id := by
  rw [Timer.Live, Timer.clear, Bool.or_eq_false_iff, beq_eq_false_iff_ne, and_right_comm]
  rfl

theorem Timer.Books.clear {timer : Timer} (books : timer.Books node)
    (timer_id : Int) : (timer.clear timer_id).Books (node.clear timer_id) where
  id := books.id
  due := books.due
  period := books.period
  is_interval := books.is_interval
  live := by rw [clear_live, clear_cleared, books.live, books.id]

theorem Timer.Calls.clear {timer : Timer} {now : Int}
    (calls : timer.Calls now node) (timer_id : Int) :
    (timer.clear timer_id).Calls now (node.clear timer_id) where
  id := calls.id
  due := calls.due
  period := calls.period
  is_interval := calls.is_interval
  fired := calls.fired
  fresh := calls.fresh
  cleared := by
    have cleared := calls.cleared
    rw [Timer.clear, LR_TimerNode.clear, cleared, calls.id]

/-- In the middle of a call of `lr_timers_process`. -/
structure Going (account : Account) (rt : LR_Runtime) (processing : Processing) : Prop where
  reading : account.now = processing.now
  first : processing.calling = false → processing.prev = false → rt.before = []
  passed : ∀ node ∈ rt.before, node.cleared = false →
    ∃ timer, account.timers[node.serial]? = some timer ∧
      (timer.fresh = true ∨ processing.now < timer.due)
  ordered : processing.calling = false →
    ∀ next ∈ rt.rest.find? fun node => node.Due processing.now,
      ∀ last ∈ account.last, last.1 < next.next_fire
  pending : processing.calling = false → (∀ node ∈ rt.rest, node.cleared = true) →
    (processing.has_pending = true ↔ ∃ node ∈ rt.before, node.cleared = false)
  called : processing.calling = true → ∃ node rest, rt.rest = node :: rest ∧
    account.last = some (node.next_fire, node.serial) ∧
      ∃ timer, account.timers[node.serial]? = some timer ∧
        timer.Calls processing.now node

namespace State

def account (s : State) : Account :=
  law.account s.journal

/-- The list has the newest timer first; all nodes are booked, and every timer that can still fire
is in the list. -/
structure Kept (s : State) : Prop where
  lawful : law.Lawful s.journal
  counted : s.account.timers.length = s.rt.created
  newest : s.rt.timer_list.Pairwise fun node other => other.serial < node.serial
  known : ∀ node ∈ s.rt.timer_list, node.serial < s.rt.created
  booked : ∀ node ∈ s.rt.before ++ s.rt.waiting,
    ∃ timer, s.account.timers[node.serial]? = some timer ∧ timer.Books node
  complete : ∀ (serial : Nat) (timer : Timer), s.account.timers[serial]? = some timer →
    timer.Live → ∃ node ∈ s.rt.timer_list, node.serial = serial
  idle : s.rt.processing = none → s.rt.before = []
  going : ∀ processing ∈ s.rt.processing, Going s.account s.rt processing

variable {s s' : State}

/-! ## Steps of the program -/

theorem timer_list_prepend (kept : s.Kept) (node : LR_TimerNode) :
    (s.rt.prepend node).timer_list = node :: s.rt.timer_list := by
  unfold prepend
  split
  · rename_i idle
    rw [timer_list, timer_list, kept.idle idle]
    rfl
  · rfl

theorem before_waiting_prepend (node : LR_TimerNode) {other : LR_TimerNode}
    (member : other ∈ (s.rt.prepend node).before ++ (s.rt.prepend node).waiting) :
    other = node ∨ other ∈ s.rt.before ++ s.rt.waiting := by
  cases at_work : s.rt.processing with
  | none | some processing =>
    simp only [prepend, waiting, at_work, mem_append, mem_cons] at member ⊢
    tauto

/-- A new timer is fresh and due after its delay. -/
theorem Kept.create (kept : s.Kept) (running : s.Runs) {is_interval : Bool} {callback : Callback}
    {delay clock : Int} (fits : DelayFits delay clock) :
    Kept ⟨s.rt.create is_interval callback delay clock, clock,
      s.journal ++ [.created s.rt.next_timer_id (clock + delay * (CLOCKS_PER_SEC / 1000))
        (delay * (CLOCKS_PER_SEC / 1000)) is_interval]⟩ := by
  let period := delay * (CLOCKS_PER_SEC / 1000)
  let timer : Timer := ⟨s.rt.next_timer_id, clock + period, period, is_interval, false, false, true⟩
  let node := s.rt.newNode is_interval callback delay clock
  have account : law.account (s.journal ++
      [.created s.rt.next_timer_id (clock + period) period is_interval]) =
        { s.account with timers := s.account.timers ++ [timer] } :=
    law.account_note ..
  have books : timer.Books node :=
    ⟨rfl, (ticks_of_fits fits).symm, rfl, rfl, ⟨fun _ => rfl, fun _ => ⟨rfl, .inr rfl⟩⟩⟩
  have list : (s.rt.create is_interval callback delay clock).timer_list =
      node :: s.rt.timer_list :=
    timer_list_prepend kept node
  have old {serial : Nat} {found : Timer} (here : s.account.timers[serial]? = some found) :
      (s.account.timers ++ [timer])[serial]? = some found :=
    (List.getElem?_append_left (List.getElem?_eq_some_iff.mp here).1).trans here
  have new : (s.account.timers ++ [timer])[node.serial]? = some timer := by
    rw [show node.serial = s.account.timers.length from kept.counted.symm,
      getElem?_append_right (Nat.le_refl _), Nat.sub_self]
    rfl
  refine ⟨kept.lawful.note trivial, ?_, ?_, ?_, ?_, ?_, ?_, ?_⟩
  · rw [State.account, account, length_append, kept.counted]
    rfl
  · rw [list]
    exact pairwise_cons.mpr ⟨kept.known, kept.newest⟩
  · rw [list]
    intro other member
    cases mem_cons.mp member with
    | inl same => rw [same]; exact Nat.lt_succ_self _
    | inr inList => exact Nat.lt_succ_of_lt (kept.known other inList)
  · rw [State.account, account]
    intro other member
    cases before_waiting_prepend node member with
    | inl same => exact ⟨timer, same ▸ new, same ▸ books⟩
    | inr before =>
      obtain ⟨found, here, books'⟩ := kept.booked other before
      exact ⟨found, old here, books'⟩
  · rw [State.account, account, list]
    intro serial found here live
    rcases Nat.lt_or_ge serial s.account.timers.length with before | after
    · have there := (List.getElem?_append_left before).symm.trans here
      obtain ⟨other, member, same⟩ := kept.complete serial found there live
      exact ⟨other, mem_cons_of_mem _ member, same⟩
    · have bound := (List.getElem?_eq_some_iff.mp here).1
      rw [length_append, length_singleton] at bound
      have counted := kept.counted
      exact ⟨node, mem_cons_self, show s.rt.created = serial by omega⟩
  · intro idle
    have idle' : s.rt.processing = none := by
      revert idle
      simp only [LR_Runtime.create, prepend]
      split <;> simp_all
    simp only [LR_Runtime.create, prepend, idle']
    exact kept.idle idle'
  · intro processing reading
    have reading' : s.rt.processing = some processing := by
      revert reading
      simp only [LR_Runtime.create, prepend]
      split <;> simp_all
    have going := kept.going processing reading'
    have calling := running processing reading'
    have placed : s.rt.create is_interval callback delay clock =
        { s.rt with
          before := node :: s.rt.before
          next_timer_id := (s.rt.next_timer_id + 1).bmod (2 ^ 32)
          created := s.rt.created + 1
          has_pending_jobs := true } := by
      simp only [LR_Runtime.create, prepend, reading']
      rfl
    rw [placed, State.account, account]
    refine ⟨going.reading, fun idle => ?_, fun other member stays => ?_, going.ordered,
      fun idle => ?_, fun _ => ?_⟩
    · rw [calling] at idle
      cases idle
    · cases mem_cons.mp member with
      | inl same => exact ⟨timer, same ▸ new, .inl rfl⟩
      | inr before =>
        obtain ⟨found, here, which⟩ := going.passed other before stays
        exact ⟨found, old here, which⟩
    · rw [calling] at idle
      cases idle
    · obtain ⟨cursor, rest, here, last, found, there, calls⟩ := going.called calling
      exact ⟨cursor, rest, here, last, found, old there, calls⟩

/-- A cleared timer is not fired again. -/
theorem Kept.clear (kept : s.Kept) (running : s.Runs) {timer_id : Int}
    (spent : ∀ node ∈ (s.rt.timer_list.filter (·.id = timer_id)).tail, node.cleared = true) :
    Kept ⟨s.rt.lr_clear_timer timer_id, s.clock, s.journal ++ [.cleared timer_id]⟩ := by
  let account : Account :=
    { s.account with timers := s.account.timers.map (Timer.clear timer_id) }
  have recorded : law.account (s.journal ++ [.cleared timer_id]) = account :=
    law.account_note ..
  have found {serial : Nat} {timer : Timer} (here : s.account.timers[serial]? = some timer) :
      account.timers[serial]? = some (timer.clear timer_id) := by
    rw [getElem?_map, here]
    rfl
  rw [clear_timer_eq spent]
  let rt : LR_Runtime :=
    { s.rt with
      before := s.rt.before.map (LR_TimerNode.clear timer_id)
      rest := s.rt.rest.map (LR_TimerNode.clear timer_id) }
  have list : rt.timer_list = s.rt.timer_list.map (LR_TimerNode.clear timer_id) :=
    map_append.symm
  have going : ∀ processing ∈ rt.processing, Going account rt processing := by
    intro processing reading
    have going := kept.going processing reading
    have calling := running processing reading
    refine ⟨going.reading, fun idle => ?_, fun node member stays => ?_, fun idle => ?_,
      fun idle => ?_, fun _ => ?_⟩
    · rw [calling] at idle
      cases idle
    · obtain ⟨old, before, rfl⟩ := mem_map.mp member
      obtain ⟨timer, here, which⟩ := going.passed old before (clear_cleared.mp stays).1
      exact ⟨timer.clear timer_id, found here, which⟩
    · rw [calling] at idle
      cases idle
    · rw [calling] at idle
      cases idle
    · obtain ⟨cursor, rest, here, last, timer, there, calls⟩ := going.called calling
      refine ⟨cursor.clear timer_id, rest.map (LR_TimerNode.clear timer_id), ?_, last,
        timer.clear timer_id, found there, calls.clear timer_id⟩
      rw [show rt.rest = s.rt.rest.map (LR_TimerNode.clear timer_id) from rfl, here]
      rfl
  refine ⟨kept.lawful.note trivial, ?_, ?_, ?_, ?_, ?_, ?_, ?_⟩
  · rw [State.account, recorded, length_map]
    exact kept.counted
  · rw [list]
    exact pairwise_map.mpr kept.newest
  · rw [list]
    intro node member
    obtain ⟨old, before, rfl⟩ := mem_map.mp member
    exact kept.known old before
  · rw [State.account, recorded, waiting_clear, ← map_append]
    intro node member
    obtain ⟨old, before, rfl⟩ := mem_map.mp member
    obtain ⟨timer, here, books⟩ := kept.booked old before
    exact ⟨timer.clear timer_id, found here, books.clear timer_id⟩
  · rw [State.account, recorded, list]
    intro serial timer here live
    obtain ⟨old, there, rfl⟩ :=
      Option.map_eq_some_iff.mp ((getElem?_map ..).symm.trans here)
    obtain ⟨node, member, same⟩ := kept.complete serial old there (clear_live.mp live).1
    exact ⟨node.clear timer_id, mem_map_of_mem member, same⟩
  · intro idle
    rw [kept.idle idle]
    rfl
  · rw [State.account, recorded]
    exact going

theorem Kept.process (kept : s.Kept) (idle : s.rt.processing = none) (now : Int) :
    Kept ⟨{ s.rt with processing := some ⟨now, false, false, false⟩ }, now,
      s.journal ++ [.process now]⟩ := by
  let stale (timer : Timer) : Timer := { timer with fresh := false }
  have recorded : law.account (s.journal ++ [.process now]) =
      ⟨s.account.timers.map stale, now, none⟩ :=
    law.account_note ..
  have waiting_eq : s.rt.waiting = s.rt.rest := by
    simp only [waiting, idle]
  refine ⟨kept.lawful.note trivial, ?_, kept.newest, kept.known, ?_, ?_, nofun, ?_⟩
  · rw [account, recorded, length_map]
    exact kept.counted
  · rw [account, recorded]
    intro node member
    obtain ⟨timer, here, books⟩ := kept.booked node (waiting_eq ▸ member)
    refine ⟨stale timer, ?_, books.id, books.due, books.period, books.is_interval, books.live⟩
    rw [getElem?_map, here]
    rfl
  · rw [account, recorded]
    intro serial timer here live
    obtain ⟨old, there, rfl⟩ :=
      Option.map_eq_some_iff.mp ((getElem?_map ..).symm.trans here)
    exact kept.complete serial old there live
  · intro processing reading
    cases reading
    have none_before := kept.idle idle
    rw [account, recorded]
    refine ⟨rfl, fun _ _ => none_before, fun node member => ?_, fun _ _ _ => nofun,
      fun _ _ => ?_, nofun⟩
    · rw [none_before] at member
      cases member
    · rw [none_before]
      exact ⟨nofun, fun ⟨_, member, _⟩ => nomatch member⟩

/-! ## Steps of the loop -/

variable {processing : Processing} {node : LR_TimerNode} {rest : List LR_TimerNode}

section

variable (kept : s.Kept) (reading : s.rt.processing = some processing)
include kept reading

/-- Passing a node that is not due keeps the order. -/
theorem Kept.advance {has_pending : Bool}
    {node' : LR_TimerNode} {timer : Timer} (here : s.rt.rest = node :: rest)
    (same : node'.serial = node.serial)
    (found : s.account.timers[node.serial]? = some timer) (books : timer.Books node')
    (passed : node'.cleared = false → timer.fresh = true ∨ processing.now < timer.due)
    (ordered : ∀ next ∈ rest.find? fun other => other.Due processing.now,
      ∀ last ∈ s.account.last, last.1 < next.next_fire)
    (pending : (∀ other ∈ rest, other.cleared = true) →
      (has_pending = true ↔ ∃ other ∈ s.rt.before ++ [node'], other.cleared = false)) :
    Kept ⟨s.rt.advance processing has_pending node' rest, s.clock, s.journal⟩ := by
  have going := kept.going processing reading
  have list : s.rt.timer_list = s.rt.before ++ node :: rest := by
    rw [timer_list, here]
  have list' : (s.rt.advance processing has_pending node' rest).timer_list =
      s.rt.before ++ node' :: rest :=
    append_assoc ..
  have serials : (s.rt.before ++ node' :: rest).map LR_TimerNode.serial =
      s.rt.timer_list.map LR_TimerNode.serial := by
    rw [list, map_append, map_append, map_cons, map_cons, same]
  refine ⟨kept.lawful, kept.counted, ?_, ?_, ?_, ?_, nofun, ?_⟩
  · rw [list', ← pairwise_map (f := LR_TimerNode.serial) (R := fun a b => b < a), serials]
    exact pairwise_map.mpr kept.newest
  · rw [list']
    intro other member
    have serial := serials ▸ mem_map_of_mem (f := LR_TimerNode.serial) member
    obtain ⟨old, before, eq⟩ := mem_map.mp serial
    exact eq ▸ kept.known old before
  · intro other member
    have where_it_is : other ∈ s.rt.before ∨ other = node' ∨ other ∈ rest := by
      have member' : other ∈ (s.rt.before ++ [node']) ++ rest := member
      rw [mem_append, mem_append, mem_singleton, or_assoc] at member'
      exact member'
    rcases where_it_is with before | rfl | after
    · exact kept.booked other (mem_append_left _ before)
    · exact ⟨timer, same ▸ found, books⟩
    · exact kept.booked other (mem_append_right _ (mem_waiting here after))
  · rw [list']
    intro serial timer' there live
    obtain ⟨old, before, eq⟩ := kept.complete serial timer' there live
    have member := serials.symm ▸ mem_map_of_mem (f := LR_TimerNode.serial) before
    obtain ⟨other, after, eq'⟩ := mem_map.mp member
    exact ⟨other, after, eq'.trans eq⟩
  · intro processing' reading'
    cases reading'
    refine ⟨going.reading, nofun, fun other member stays => ?_, fun _ => ordered,
      fun _ => pending, nofun⟩
    cases mem_append.mp member with
    | inl before => exact going.passed other before stays
    | inr last =>
      cases mem_singleton.mp last
      exact ⟨timer, same ▸ found, passed stays⟩

section

variable (idle : processing.calling = false)
include idle

/-- A call that has passed the list reports whether a timer is left. -/
theorem Kept.leave (here : s.rt.rest = []) :
    Kept ⟨{ s.rt with
        before := []
        rest := s.rt.before
        processing := none
        has_pending_jobs := processing.has_pending }, s.clock,
      s.journal ++ [.processed processing.has_pending]⟩ := by
  have going := kept.going processing reading
  have recorded : law.account (s.journal ++ [.processed processing.has_pending]) = s.account :=
    law.account_note ..
  have list : s.rt.timer_list = s.rt.before := by
    rw [timer_list, here, append_nil]
  have bookedBefore (node : LR_TimerNode) (member : node ∈ s.rt.before) :=
    kept.booked node (mem_append_left _ member)
  have live_node {serial : Nat} {timer : Timer} (found : s.account.timers[serial]? = some timer)
      (live : timer.Live) :
      ∃ node ∈ s.rt.before, node.serial = serial ∧ node.cleared = false := by
    obtain ⟨node, member, same⟩ := kept.complete serial timer found live
    rw [list] at member
    obtain ⟨timer', there, books⟩ := bookedBefore node member
    rw [same, found] at there
    cases there
    exact ⟨node, member, same, books.live.mp live⟩
  refine ⟨kept.lawful.note ⟨fun timer member live => ?_, ?_⟩, ?_, ?_, ?_, ?_, ?_, fun _ => rfl,
    nofun⟩
  · obtain ⟨serial, found⟩ := mem_iff_getElem?.mp member
    obtain ⟨node, before, same, stays⟩ := live_node found live
    obtain ⟨timer', there, which⟩ := going.passed node before stays
    rw [same] at there
    cases found.symm.trans there
    rw [show (law.account s.journal).now = processing.now from going.reading]
    exact which.symm
  · rw [going.pending idle (by rw [here]; nofun)]
    constructor
    · rintro ⟨node, member, stays⟩
      obtain ⟨timer, there, books⟩ := bookedBefore node member
      exact ⟨timer, mem_of_getElem? there, books.live.mpr stays⟩
    · rintro ⟨timer, member, live⟩
      obtain ⟨serial, found⟩ := mem_iff_getElem?.mp member
      obtain ⟨node, before, _, stays⟩ := live_node found live
      exact ⟨node, before, stays⟩
  · rw [account, recorded]
    exact kept.counted
  · exact list ▸ kept.newest
  · exact list ▸ kept.known
  · rw [account, recorded]
    exact bookedBefore
  · rw [account, recorded]
    exact list ▸ kept.complete

/-- A cleared node is taken out of the list. -/
theorem Kept.remove (here : s.rt.rest = node :: rest) (cleared : node.cleared = true) :
    Kept ⟨{ s.rt with rest := rest }, s.clock, s.journal⟩ := by
  have going := kept.going processing reading
  have list : s.rt.timer_list = s.rt.before ++ node :: rest := by
    rw [timer_list, here]
  have shorter : (s.rt.before ++ rest).Sublist s.rt.timer_list :=
    list ▸ (sublist_cons_self node rest).append_left s.rt.before
  have waiting_eq : waiting { s.rt with rest := rest } = rest := by
    simp [waiting, reading, idle]
  have waiting_node : node ∈ s.rt.waiting := by
    simp [waiting, reading, idle, here]
  refine ⟨kept.lawful, kept.counted, kept.newest.sublist shorter,
    fun other member => kept.known other (shorter.subset member), ?_, ?_, kept.idle, ?_⟩
  · rw [waiting_eq]
    intro other member
    refine kept.booked other ?_
    cases mem_append.mp member with
    | inl before => exact mem_append_left _ before
    | inr after => exact mem_append_right _ (mem_waiting here after)
  · intro serial timer found live
    obtain ⟨other, member, same⟩ := kept.complete serial timer found live
    rw [list, mem_append, mem_cons] at member
    rcases member with before | rfl | after
    · exact ⟨other, mem_append_left _ before, same⟩
    · obtain ⟨timer', there, books⟩ := kept.booked other (mem_append_right _ waiting_node)
      rw [same] at there
      cases found.symm.trans there
      rw [books.live.mp live] at cleared
      cases cleared
    · exact ⟨other, mem_append_right _ after, same⟩
  · intro processing' reading'
    cases reading.symm.trans reading'
    refine ⟨going.reading, going.first, going.passed, fun _ next found => ?_,
      fun _ gone => ?_, fun calling => ?_⟩
    · refine going.ordered idle next ?_
      rw [here, find?_cons_of_neg (by simp [LR_TimerNode.Due, cleared])]
      exact found
    · refine going.pending idle fun other member => ?_
      rw [here] at member
      cases mem_cons.mp member with
      | inl same => exact same ▸ cleared
      | inr after => exact gone other after
    · rw [idle] at calling
      cases calling

/-- A due timer is fired in order of its time. -/
theorem Kept.fire (here : s.rt.rest = node :: rest) (due : node.Due processing.now) :
    Kept ⟨{ s.rt with processing := some { processing with calling := true } }, s.clock,
      s.journal ++ [.fired node.serial]⟩ := by
  have going := kept.going processing reading
  have waiting_eq : s.rt.waiting = node :: rest := by
    simp [waiting, reading, idle, here]
  have waiting_node : node ∈ s.rt.waiting :=
    waiting_eq ▸ mem_cons_self
  have list : s.rt.timer_list = s.rt.before ++ node :: rest := by
    rw [timer_list, here]
  have newest := list ▸ kept.newest
  obtain ⟨_, newestRest, newestBefore⟩ := pairwise_append.mp newest
  have other_serial (other : LR_TimerNode) (member : other ∈ s.rt.before ++ rest) :
      node.serial ≠ other.serial := by
    cases mem_append.mp member with
    | inl before => exact Nat.ne_of_lt (newestBefore other before node mem_cons_self)
    | inr after => exact Nat.ne_of_gt ((pairwise_cons.mp newestRest).1 other after)
  obtain ⟨timer, found, books⟩ := kept.booked node (mem_append_right _ waiting_node)
  have live : timer.Live := books.live.mpr due.1
  let account : Account :=
    ⟨s.account.timers.modify node.serial (Timer.fire processing.now), processing.now,
      some (timer.due, node.serial)⟩
  have recorded : law.account (s.journal ++ [.fired node.serial]) = account := by
    refine (law.account_note ..).trans ?_
    change s.account.record (.fired node.serial) = account
    rw [Account.record, found, going.reading]
    rfl
  have same_timer {other : LR_TimerNode} (member : other ∈ s.rt.before ++ rest) :
      account.timers[other.serial]? = s.account.timers[other.serial]? :=
    getElem?_modify_ne _ _ (other_serial other member)
  refine ⟨kept.lawful.note ⟨timer, found, live, ?_, fun last member => .inl ?_⟩, ?_, kept.newest,
    kept.known, ?_, ?_, nofun, ?_⟩
  · rw [show (law.account s.journal).now = processing.now from going.reading, books.due]
    exact due.2
  · rw [books.due]
    refine going.ordered idle node ?_ last member
    rw [here, find?_cons_of_pos (by simpa using due)]
    rfl
  · rw [State.account, recorded, length_modify]
    exact kept.counted
  · rw [State.account, recorded]
    intro other member
    have member' : other ∈ s.rt.before ++ rest := by
      simp only [waiting, here, if_true, tail_cons] at member
      exact member
    obtain ⟨timer', there, books'⟩ := kept.booked other (by
      rw [waiting_eq]
      exact (sublist_cons_self node rest).append_left s.rt.before |>.subset member')
    exact ⟨timer', (same_timer member').trans there, books'⟩
  · rw [State.account, recorded]
    intro serial timer' there live'
    by_cases same : node.serial = serial
    · exact ⟨node, list ▸ mem_append_right _ mem_cons_self, same⟩
    · exact kept.complete serial timer' ((getElem?_modify_ne _ _ same).symm.trans there) live'
  · intro processing' reading'
    cases reading'
    rw [State.account, recorded]
    refine ⟨rfl, nofun, fun other member stays => ?_, nofun, nofun, fun _ => ?_⟩
    · obtain ⟨timer', there, which⟩ := going.passed other member stays
      exact ⟨timer', (same_timer (mem_append_left _ member)).trans there, which⟩
    · refine ⟨node, rest, here, books.due ▸ rfl, timer.fire processing.now, ?_, ?_⟩
      · change (s.account.timers.modify node.serial _)[node.serial]? = _
        rw [getElem?_modify_eq, found]
        rfl
      · have due_eq := books.due
        refine ⟨books.id, ?_, books.period, books.is_interval, rfl, rfl, live.1.trans due.1.symm⟩
        rw [Timer.fire, books.is_interval, due_eq]

/-- A turn of the loop keeps the order. -/
theorem Kept.turn :
    Kept ⟨(s.rt.turn processing).1, s.clock,
      s.journal ++ (s.rt.turn processing).2.notes⟩ := by
  have going := kept.going processing reading
  cases here : s.rt.rest with
  | nil =>
    simp only [LR_Runtime.turn, here, Action.notes]
    exact kept.leave reading idle here
  | cons node rest =>
    by_cases cleared : node.cleared = true
    · have removed := kept.remove reading idle here cleared
      by_cases prev : processing.prev = true
      · simp only [LR_Runtime.turn, here, if_pos cleared, if_pos prev, Action.notes,
          append_nil]
        exact removed
      · simp only [LR_Runtime.turn, here, if_pos cleared, if_neg prev, Action.notes,
          append_nil]
        have empty := going.first idle (Bool.eq_false_iff.mpr prev)
        have same : { s.rt with rest := rest } = { s.rt with before := [], rest := rest } := by
          rw [← empty]
        exact same ▸ removed
    · have stays : node.cleared = false := Bool.eq_false_iff.mpr cleared
      by_cases due : node.next_fire ≤ processing.now
      · simp only [LR_Runtime.turn, here, if_neg cleared, if_pos due, Action.notes]
        exact here ▸ kept.fire reading idle here ⟨stays, due⟩
      · simp only [LR_Runtime.turn, here, if_neg cleared, if_neg due, Action.notes,
          append_nil]
        have waiting_node : node ∈ s.rt.waiting := by
          simp [waiting, reading, idle, here]
        obtain ⟨timer, found, books⟩ :=
          kept.booked node (mem_append_right _ waiting_node)
        refine kept.advance reading here rfl found books (fun _ => .inr ?_) ?_ fun _ => ?_
        · rw [books.due]
          exact Int.not_le.mp due
        · have ordered := going.ordered idle
          rw [here, find?_cons_of_neg (by simp [LR_TimerNode.Due, due])] at ordered
          exact ordered
        · exact ⟨fun _ => ⟨node, mem_append_right _ mem_cons_self, stays⟩,
            fun _ => rfl⟩

end

/-- A callback that returns leaves the list to go on with. -/
theorem Kept.resume (calling : processing.calling = true)
    (later : NextLater processing.now s.rt.rest) (fits : RearmFits processing.now s.rt.rest)
    (right : LeavesRight s.rt.before s.rt.rest) :
    Kept ⟨s.rt.resume processing, s.clock, s.journal⟩ := by
  obtain ⟨node, rest, here, last, timer, found, calls⟩ :=
    (kept.going processing reading).called calling
  rw [here] at later fits right
  have ordered : ∀ next ∈ rest.find? fun other => other.Due processing.now,
      ∀ last ∈ s.account.last, last.1 < next.next_fire := by
    intro next first last' is_last
    cases last.symm.trans is_last
    exact later next first
  by_cases is_interval : node.is_interval = true
  · simp only [LR_Runtime.resume, here, if_pos is_interval]
    have period : timer.due = (node.rescheduled processing.now).next_fire := by
      rw [calls.due, if_pos is_interval, calls.period]
      exact (ticks_of_fits (fits is_interval)).symm
    have live : timer.Live ↔ node.cleared = false := by
      rw [Timer.Live, calls.cleared, calls.is_interval, is_interval]
      exact ⟨And.left, fun stays => ⟨stays, .inl rfl⟩⟩
    refine kept.advance reading here rfl found
      ⟨calls.id, period, calls.period, calls.is_interval, live⟩ (fun _ => .inl calls.fresh)
      ordered fun gone => ⟨fun _ => ?_, fun _ => rfl⟩
    obtain ⟨other, member, stays⟩ := (right gone).1 is_interval
    cases mem_append.mp member with
    | inl before => exact ⟨other, mem_append_left _ before, stays⟩
    | inr last =>
      cases mem_singleton.mp last
      exact ⟨node.rescheduled processing.now, mem_append_right _ mem_cons_self, stays⟩
  · simp only [LR_Runtime.resume, here, if_neg is_interval]
    have timeout : node.is_interval = false := Bool.eq_false_iff.mpr is_interval
    have spent : ¬ timer.Live := by
      rw [Timer.Live, calls.is_interval, calls.fired, timeout]
      rintro ⟨_, is | never⟩
      · cases is
      · cases never
    refine kept.advance reading here rfl found
      ⟨calls.id, by rw [calls.due, if_neg is_interval]; rfl, calls.period, calls.is_interval,
        ⟨fun live => absurd live spent, nofun⟩⟩ nofun ordered fun gone => ⟨nofun, ?_⟩
    rintro ⟨other, member, stays⟩
    cases mem_append.mp member with
    | inl before =>
      rw [(right gone).2 timeout other before] at stays
      cases stays
    | inr last =>
      cases mem_singleton.mp last
      cases stays

end

/-! ## Runs -/

/-- Every step that meets the condition keeps the order. -/
theorem Kept.step (kept : s.Kept) {event : Event} (meets : s.Meets event)
    (taken : s.step event = some s') : s'.Kept := by
  cases event with
  | set arguments is_interval clock =>
    obtain ⟨⟨running, _⟩, taken⟩ := Option.ite_none_right_eq_some.mp taken
    cases taken
    cases checked : arguments.check with
    | error answer =>
      simp only [lr_set_timeout, setNotes, checked, append_nil]
      exact { kept with }
    | ok parts =>
      simp only [lr_set_timeout, setNotes, checked]
      exact kept.create running (meets parts (by rw [checked]; rfl))
  | clear timer_id =>
    obtain ⟨running, taken⟩ := Option.ite_none_right_eq_some.mp taken
    cases taken
    exact kept.clear running meets
  | process now =>
    obtain ⟨⟨idle, _⟩, taken⟩ := Option.ite_none_right_eq_some.mp taken
    cases taken
    exact kept.process idle now
  | turn =>
    cases reading : s.rt.processing with
    | none => simp [State.step, reading] at taken
    | some processing =>
      simp only [State.step, reading] at taken
      obtain ⟨idle, taken⟩ := Option.ite_none_right_eq_some.mp taken
      cases taken
      exact kept.turn reading idle
  | resume =>
    cases reading : s.rt.processing with
    | none => simp [State.step, reading] at taken
    | some processing =>
      simp only [State.step, reading] at taken
      obtain ⟨calling, taken⟩ := Option.ite_none_right_eq_some.mp taken
      cases taken
      obtain ⟨later, fits, right⟩ := meets processing reading
      exact kept.resume reading calling later fits right

theorem kept_start : start.Kept where
  lawful := law.lawful_nil
  counted := rfl
  newest := List.Pairwise.nil
  known := nofun
  booked := nofun
  complete := nofun
  idle _ := rfl
  going := nofun

def left (s : State) : Nat :=
  match s.rt.processing with
  | some processing => 2 * s.rt.rest.length + if processing.calling = true then 0 else 1
  | none => 0

def Advances (s : State) : Prop :=
  ∀ event s', s.step event = some s' →
    match event with
    | .turn | .resume => s'.left < s.left
    | .set _ _ _ | .clear _ => s'.left = s.left
    | .process _ => True

theorem length_markCleared (timer_id : Int) (nodes : List LR_TimerNode) :
    (markCleared timer_id nodes).length = nodes.length := by
  induction nodes with
  | nil => rfl
  | cons node rest ih =>
    rw [markCleared]
    split
    · rfl
    · rw [length_cons, length_cons, ih]

section

variable (reading : s.rt.processing = some processing) {clock : Int} {journal : List Note}
include reading

theorem left_turn (idle : processing.calling = false) :
    State.left ⟨(s.rt.turn processing).1, clock, journal⟩ < s.left := by
  unfold turn
  cases here : s.rt.rest with
  | nil =>
    simp only [left, reading, idle, here, Bool.false_eq_true, if_false]
    exact Nat.succ_pos _
  | cons node rest =>
    simp only
    split
    · split <;>
      · simp only [left, reading, idle, here, length_cons]
        omega
    · split
      · simp only [left, reading, idle, here, Bool.false_eq_true, if_false, if_true]
        omega
      · simp only [left, advance, reading, idle, here, length_cons]
        omega

theorem left_resume (calling : processing.calling = true) (here : s.rt.rest = node :: rest) :
    State.left ⟨s.rt.resume processing, clock, journal⟩ < s.left := by
  simp only [resume, here]
  split <;>
  · simp only [left, advance, reading, calling, here, length_cons, if_true,
      Bool.false_eq_true, if_false]
    omega

end

/-- Every turn goes on in the list, or calls back. -/
theorem Kept.advances (kept : s.Kept) : s.Advances := by
  intro event s' taken
  cases event with
  | set arguments is_interval clock =>
    obtain ⟨_, taken⟩ := Option.ite_none_right_eq_some.mp taken
    cases taken
    unfold lr_set_timeout
    cases arguments.check with
    | error answer => rfl
    | ok parts =>
      cases reading : s.rt.processing with
      | none | some processing => simp only [State.left, LR_Runtime.create, prepend, reading]
  | clear timer_id =>
    obtain ⟨_, taken⟩ := Option.ite_none_right_eq_some.mp taken
    cases taken
    change State.left _ = s.left
    unfold lr_clear_timer
    split
    · rfl
    · simp only [State.left, length_markCleared]
  | process now => trivial
  | turn =>
    cases reading : s.rt.processing with
    | none => simp [State.step, reading] at taken
    | some processing =>
      simp only [State.step, reading] at taken
      obtain ⟨idle, taken⟩ := Option.ite_none_right_eq_some.mp taken
      cases taken
      exact left_turn reading idle
  | resume =>
    cases reading : s.rt.processing with
    | none => simp [State.step, reading] at taken
    | some processing =>
      simp only [State.step, reading] at taken
      obtain ⟨calling, taken⟩ := Option.ite_none_right_eq_some.mp taken
      cases taken
      obtain ⟨node, rest, here, _⟩ := (kept.going processing reading).called calling
      exact left_resume reading calling here

/-- In every run whose steps meet the condition, timers fire only while they are live and due, and
in order; every call of `lr_timers_process` ends, then all that was due has fired, and
`has_pending_jobs` is right. -/
theorem timers_fire_in_order {events : List Event} {s : State}
    (met : Runs.Throughout State.step Meets start events)
    (arrives : Runs.after State.step start events = some s) :
    law.Lawful s.journal ∧ s.Advances := by
  have kept : s.Kept := Runs.Throughout.invariant_after
    (fun _ _ _ kept meets taken => kept.step meets taken) kept_start met arrives
  exact ⟨kept.lawful, kept.advances⟩

/-- An interval clears a later timeout, and then itself. -/
theorem timers_fire_in_order_sample :
    ∃ s, Runs.after State.step start
        [.set ⟨some (.function 0), some (some 9)⟩ false 0,
          .set ⟨some (.function 1), some (some 5)⟩ true 0, .process 5000, .turn, .clear 1, .resume,
          .turn, .turn, .process 10000, .turn,
          .set ⟨some (.function 2), none⟩ false 10000, .resume, .turn] = some s ∧
      law.Lawful s.journal ∧ s.Advances := by
  have met : Runs.Throughout step Meets start
      [.set ⟨some (.function 0), some (some 9)⟩ false 0,
        .set ⟨some (.function 1), some (some 5)⟩ true 0, .process 5000, .turn, .clear 1, .resume,
        .turn, .turn, .process 10000, .turn,
        .set ⟨some (.function 2), none⟩ false 10000, .resume, .turn] := by
    decide +kernel
  exact ⟨_, rfl, timers_fire_in_order met rfl⟩

/-- Two timeouts that are due in the same call fire in the wrong order. -/
theorem newest_timer_first :
    ∃ s, Runs.after State.step start
        [.set ⟨some (.function 0), some (some 1)⟩ false 0,
          .set ⟨some (.function 1), some (some 2)⟩ false 0, .process 5000, .turn, .resume,
          .turn] = some s ∧ ¬law.Lawful s.journal := by
  refine ⟨_, rfl, fun lawful => ?_⟩
  obtain ⟨timer, found, _, _, behind⟩ := lawful [.created 1 1000 1000 false,
    .created 2 2000 2000 false, .process 5000, .fired 1] (.fired 0) [] rfl
  cases found
  exact absurd (behind (2000, 1) rfl) (by decide)

end State

end LRJS.Timers
