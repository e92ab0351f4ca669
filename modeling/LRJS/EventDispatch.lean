import LRJS.EventTargets
import Mathlib.Data.List.Forall2

/-!
# When event targets keep their lists

A world agrees with a board if the current items of each target, without the spent ones, are
its entries, and each dispatch has the same entries left to call.  Steps under the condition
keep this, so the listeners are called as they are meant to be.
-/

namespace LRJS.EventTargets

open Function Broadcast List Option

namespace World

variable {kind : Nat → LRFunction} {w w' : World} {b b' : Board Nat Nat Nat}

variable {elements : List (Option Item)}

theorem reduceOption_of_nextItem_none {i : Nat}
    (ended : nextItem elements i = none) : elements.reduceOption = [] := by
  induction elements generalizing i with
  | nil => rfl
  | cons element elements ih =>
    cases element with
    | none => exact ih ended
    | some item => cases ended

theorem reduceOption_of_nextItem {item : Item} {i j : Nat}
    (found : nextItem elements i = some (item, j)) :
    ∃ k, j = i + k ∧ elements.reduceOption = item :: (elements.drop k).reduceOption := by
  induction elements generalizing i with
  | nil => cases found
  | cons element elements ih =>
    cases element with
    | none =>
      obtain ⟨k, rfl, same⟩ := ih found
      exact ⟨k + 1, Nat.add_right_comm i 1 k, same⟩
    | some first =>
      cases found
      exact ⟨1, rfl, rfl⟩

theorem reduceOption_filtered (callback : Nat) (elements : List (Option Item)) :
    (filtered kind callback elements).reduceOption =
      elements.reduceOption.filter fun item => !isMatch kind callback (some item) := by
  have loop (elements new : List (Option Item)) (n : Nat) (short : new.length ≤ n) :
      ((elements.zipIdx n).foldl (fun new entry =>
        if isMatch kind callback entry.1 then new else setUint32 new entry.2 entry.1)
        new).reduceOption =
        new.reduceOption ++
          elements.reduceOption.filter fun item => !isMatch kind callback (some item) := by
    induction elements generalizing new n with
    | nil => exact (append_nil _).symm
    | cons element elements ih =>
      rw [zipIdx_cons, foldl_cons]
      have stored (item : Option Item) :
          (setUint32 new n item).reduceOption = new.reduceOption ++ [item].reduceOption ∧
            (setUint32 new n item).length ≤ n + 1 := by
        rw [setUint32, if_neg (Nat.not_lt.mpr short)]
        constructor
        · rw [reduceOption_append, reduceOption_append,
            reduceOption_replicate_none, append_nil]
        · simp only [length_append, length_replicate, length_singleton]
          omega
      cases element with
      | none =>
        rw [if_neg (by exact Bool.false_ne_true), ih _ _ (stored none).2, (stored none).1]
        exact congrArg (· ++ _) (append_nil _)
      | some item =>
        by_cases same : isMatch kind callback (some item) = true
        · rw [if_pos same, ih _ _ (Nat.le_succ_of_le short), reduceOption_cons_of_some,
            filter_cons, if_neg (by rw [same]; exact Bool.false_ne_true)]
        · have kept : (some item :: elements).reduceOption.filter
              (fun item => !isMatch kind callback (some item)) =
              item :: elements.reduceOption.filter
                fun item => !isMatch kind callback (some item) := by
            rw [reduceOption_cons_of_some, filter_cons,
              if_pos (by rw [Bool.eq_false_iff.mpr same]; rfl)]
          rw [if_neg same, ih _ _ (stored (some item)).2, (stored (some item)).1, kept,
            append_assoc]
          rfl
  exact loop elements [] 0 (Nat.zero_le 0)

variable {target : Nat}

theorem array_newListeners {a : Nat} :
    (w.newListeners target elements).array a =
      if a = w.arrays.length then elements else w.array a := by
  unfold array newListeners
  split
  · next last =>
      rw [last, getElem?_concat_length]
      rfl
  · next other =>
      rcases Nat.lt_or_ge a w.arrays.length with inside | beyond
      · rw [getElem?_append_left inside]
      · rw [getElem?_eq_none (by rw [length_append, length_singleton]; omega),
          getElem?_eq_none beyond]

structure Waits (w : World) (b : Board Nat Nat Nat) (frame : Frame)
    (d : Dispatch Nat Nat Nat) : Prop where
  target : d.target = frame.target
  event : d.event = frame.event
  inside : frame.listeners < w.arrays.length ∧ frame.len ≤ (w.array frame.listeners).length
  pending : d.pending.filter (· ∈ b.entries frame.target) = w.due frame
  stopped : d.stopped = true → w.due frame = []
  old : ∀ item ∈ d.pending, item.id < w.next

structure Agrees (w : World) (b : Board Nat Nat Nat) : Prop where
  calls : b.calls = w.calls
  next : b.next = w.next
  entries : ∀ target, b.entries target = (w.current target).filter fun item => !w.spent item
  running : List.Forall₂ (Waits w b) w.frames b.running
  allocated : ∀ target, ∀ a ∈ w.listeners target, a < w.arrays.length
  apart : ∀ target other, ∀ a ∈ w.listeners target, a ∈ w.listeners other → target = other
  single : ∀ target other, ∀ item ∈ w.current target, item ∈ w.current other → target = other
  known : ∀ target, ∀ item ∈ w.current target, item.id < w.next
  called : ∀ call ∈ w.calls, call.2.1.id < w.next

theorem agrees_start : start.Agrees .empty where
  calls := rfl
  next := rfl
  entries _ := rfl
  running := .nil
  allocated := nofun
  apart := nofun
  single := nofun
  known := nofun
  called := nofun

variable {frame : Frame}

theorem mem_due {item : Item} :
    item ∈ w.due frame ↔ item ∈ w.remaining frame ∧ w.spent item = false := by
  unfold due
  rw [mem_filter, Bool.not_eq_true']

theorem Waits.keep {frame : Frame} {d : Dispatch Nat Nat Nat} (waits : Waits w b frame d)
    (drops : Item → Bool) (arrays : w.arrays.length ≤ w'.arrays.length)
    (grows : ∀ a < w.arrays.length, ∃ more, w'.array a = w.array a ++ more)
    (spent : ∀ item, w'.spent item = (w.spent item || drops item))
    (entries : ∀ item ∈ d.pending, item ∈ b'.entries frame.target ↔
      item ∈ b.entries frame.target ∧ drops item = false)
    (next : w.next ≤ w'.next) : Waits w' b' frame d := by
  obtain ⟨more, array⟩ := grows frame.listeners waits.inside.1
  have remaining : w'.remaining frame = w.remaining frame := by
    unfold World.remaining
    rw [array, take_append_of_le_length waits.inside.2]
  have due : w'.due frame = (w.due frame).filter fun item => !drops item := by
    unfold World.due
    rw [remaining, List.filter_filter]
    refine filter_congr fun item _ => ?_
    rw [spent, Bool.not_or, Bool.and_comm]
  refine ⟨waits.target, waits.event, ⟨Nat.lt_of_lt_of_le waits.inside.1 arrays, ?_⟩, ?_, ?_,
    fun item member => Nat.lt_of_lt_of_le (waits.old item member) next⟩
  · rw [array, length_append]
    exact Nat.le_add_right_of_le waits.inside.2
  · rw [due, ← waits.pending, List.filter_filter]
    refine filter_congr fun item member => ?_
    rw [Bool.eq_iff_iff, Bool.and_eq_true, decide_eq_true_iff, decide_eq_true_iff,
      entries item member, Bool.not_eq_true', and_comm]
  · intro stopped
    rw [due, waits.stopped stopped]
    rfl

theorem Waits.registered {frame : Frame} {d : Dispatch Nat Nat Nat} (waits : Waits w b frame d)
    {item : Item} : item ∈ w.due frame ↔ item ∈ d.pending ∧ item ∈ b.entries frame.target := by
  rw [← waits.pending, mem_filter, decide_eq_true_iff]

/-- A new list of listeners that the dispatches under way do not need agrees. -/
theorem Agrees.relisted (agrees : w.Agrees b) {target : Nat} {elements : List (Option Item)}
    (items : elements.reduceOption ⊆ w.current target)
    (kept : ∀ frame ∈ w.frames, frame.target = target →
      ∀ item ∈ w.due frame, item ∈ elements.reduceOption) :
    (w.newListeners target elements).Agrees
      { b with
        entries := update b.entries target
          (elements.reduceOption.filter fun item => !w.spent item) } := by
  have own : (w.newListeners target elements).current target = elements.reduceOption := by
    unfold current
    simp only [newListeners, update_self, elim_some]
    exact congrArg reduceOption (array_newListeners.trans (if_pos rfl))
  have others {other : Nat} (different : other ≠ target) :
      (w.newListeners target elements).current other = w.current other := by
    unfold current
    have same : (w.newListeners target elements).listeners other = w.listeners other :=
      update_of_ne different _ _
    rw [same]
    cases here : w.listeners other with
    | none => rfl
    | some a =>
      have inside := agrees.allocated other a here
      exact congrArg reduceOption (array_newListeners.trans (if_neg (by omega)))
  have part (other : Nat) : (w.newListeners target elements).current other ⊆ w.current other := by
    by_cases same : other = target
    · rw [same, own]
      exact items
    · rw [others same]
      exact List.Subset.refl _
  have length : w.arrays.length < (w.newListeners target elements).arrays.length := by
    simp [newListeners]
  have allocated (other a : Nat) (here : a ∈ (w.newListeners target elements).listeners other) :
      other = target ∧ a = w.arrays.length ∨ other ≠ target ∧ a ∈ w.listeners other := by
    simp only [newListeners, update_apply] at here
    split at here
    · next same => exact .inl ⟨same, (mem_some_iff.mp here).symm⟩
    · next different => exact .inr ⟨different, here⟩
  refine ⟨agrees.calls, agrees.next, fun other => ?_, ?_, fun other a here => ?_,
    fun first second a here there => ?_, fun first second item here there => ?_,
    fun other item member => agrees.known other item (part other member), agrees.called⟩
  · by_cases same : other = target
    · rw [same, own]
      exact update_self _ _ _
    · rw [others same]
      exact (update_of_ne same _ _).trans (agrees.entries other)
  · refine ((forall₂_and_left _ _).mpr ⟨fun _ member => member, agrees.running⟩).imp ?_
    rintro frame d ⟨member, waits⟩
    refine waits.keep (fun _ => false) length.le (fun a inside => ⟨[], ?_⟩)
      (fun item => (Bool.or_false _).symm) (fun item pending => ?_) (Nat.le_refl _)
    · rw [append_nil, array_newListeners, if_neg (Nat.ne_of_lt inside)]
    · rw [and_iff_left rfl]
      dsimp only
      by_cases same : frame.target = target
      · have due := @waits.registered _ _ _ _ item
        subst same
        rw [update_self, mem_filter]
        constructor
        · rintro ⟨listed, fresh⟩
          rw [agrees.entries]
          exact mem_filter.mpr ⟨items listed, fresh⟩
        · intro registered
          have has := due.mpr ⟨pending, registered⟩
          exact ⟨kept frame member rfl item has, by rw [(mem_due.mp has).2]; rfl⟩
      · rw [update_of_ne same]
  · rcases allocated other a here with ⟨-, rfl⟩ | ⟨-, old⟩
    · exact length
    · exact (agrees.allocated other a old).trans length
  · rcases allocated first a here with ⟨rfl, rfl⟩ | ⟨_, old⟩
    · rcases allocated second _ there with ⟨rfl, -⟩ | ⟨-, old⟩
      · rfl
      · exact absurd (agrees.allocated second _ old) (Nat.lt_irrefl _)
    · rcases allocated second a there with ⟨-, rfl⟩ | ⟨-, other⟩
      · exact absurd (agrees.allocated first _ old) (Nat.lt_irrefl _)
      · exact agrees.apart first second a old other
  · exact agrees.single first second item (part first here) (part second there)

/-- A listener that is added stands behind the others. -/
theorem Agrees.added (agrees : w.Agrees b) {a callback : Nat} {once : Bool}
    (here : w.listeners target = some a) :
    Agrees
      { w with
        arrays := w.arrays.set a (w.array a ++ [some ⟨w.next, callback, once⟩])
        next := w.next + 1 } { b with
        entries := update b.entries target
          (b.entries target ++ [⟨b.next, callback, once⟩])
        next := b.next + 1 } := by
  let item : Item := ⟨w.next, callback, once⟩
  let t : World :=
    { w with arrays := w.arrays.set a (w.array a ++ [some item]), next := w.next + 1 }
  have inside := agrees.allocated target a here
  have array (other : Nat) :
      t.array other = if other = a then w.array a ++ [some item] else w.array other := by
    simp only [t, World.array, getElem?_set]
    by_cases same : other = a
    · rw [if_pos same.symm, if_pos same, if_pos (same ▸ inside)]
      rfl
    · rw [if_neg (Ne.symm same), if_neg same]
  have own : t.current target = w.current target ++ [item] := by
    unfold current
    rw [here]
    change (t.array a).reduceOption = (w.array a).reduceOption ++ [item]
    rw [array, if_pos rfl, reduceOption_append]
    rfl
  have others {other : Nat} (different : other ≠ target) : t.current other = w.current other := by
    unfold current
    cases there : w.listeners other with
    | none => rfl
    | some a' =>
      simp only [elim_some]
      rw [array, if_neg]
      rintro rfl
      exact different (agrees.apart other target a' there here)
  have either (other : Nat) {old : Item} (member : old ∈ t.current other) :
      old ∈ w.current other ∨ other = target ∧ old = item := by
    by_cases same : other = target
    · rw [same, own, mem_append, mem_singleton] at member
      exact member.imp (fun old => same ▸ old) fun new => ⟨same, new⟩
    · rw [others same] at member
      exact .inl member
  have absent (other : Nat) : item ∉ w.current other := fun member =>
    Nat.lt_irrefl _ (agrees.known other item member)
  have fresh : w.spent item = false := by
    unfold World.spent
    rw [Bool.and_eq_false_iff, List.any_eq_false]
    refine .inr fun call member same => ?_
    have known := agrees.called call member
    rw [eq_of_beq same] at known
    exact Nat.lt_irrefl _ known
  refine ⟨agrees.calls, congrArg (· + 1) agrees.next, fun other => ?_, agrees.running.imp ?_,
    fun other a' there => ?_, agrees.apart, fun first second old there again => ?_,
    fun other old member => ?_, fun call member => Nat.lt_succ_of_lt (agrees.called call member)⟩
  · change update b.entries target (b.entries target ++ [⟨b.next, callback, once⟩]) other =
      (t.current other).filter fun item => !w.spent item
    by_cases same : other = target
    · rw [same, update_self, own, filter_append, agrees.entries, agrees.next]
      have kept : [item].filter (fun item => !w.spent item) = [item] := by
        rw [filter_cons, if_pos (by rw [fresh]; rfl)]
        rfl
      rw [kept]
    · rw [update_of_ne same, others same, agrees.entries]
  · rintro frame d waits
    refine waits.keep (fun _ => false) (by rw [length_set]) (fun a' _ => ?_)
      (fun item => (Bool.or_false _).symm) (fun old pending => ?_) (Nat.le_succ _)
    · change ∃ more, t.array a' = _
      rw [array]
      split
      · next same => exact ⟨[some item], same ▸ rfl⟩
      · exact ⟨[], (append_nil _).symm⟩
    · rw [and_iff_left rfl]
      dsimp only
      by_cases same : frame.target = target
      · rw [same, update_self, mem_append, mem_singleton, or_iff_left]
        rintro rfl
        have known := waits.old _ pending
        rw [agrees.next] at known
        exact Nat.lt_irrefl _ known
      · rw [update_of_ne same]
  · rw [length_set]
    exact agrees.allocated other a' there
  · rcases either first there with old | ⟨rfl, rfl⟩
    · rcases either second again with other | ⟨-, rfl⟩
      · exact agrees.single first second _ old other
      · exact absurd old (absent first)
    · rcases either second again with other | ⟨rfl, -⟩
      · exact absurd other (absent second)
      · rfl
  · rcases either other member with known | ⟨-, rfl⟩
    · exact Nat.lt_succ_of_lt (agrees.known other old known)
    · exact Nat.lt_succ_self _

/-- The next listener of a dispatch is the next one of the meant dispatch. -/
theorem Agrees.resumed (agrees : w.Agrees b) {d : Dispatch Nat Nat Nat} (waits : Waits w b frame d)
    (fresh : ∀ item ∈ (w.remaining frame).head?, w.spent item = false) :
    (w.resume frame).Agrees (b.advance d) := by
  unfold resume
  cases found : nextItem (((w.array frame.listeners).take frame.len).drop frame.i) frame.i with
  | none =>
    have none_left : w.due frame = [] := by
      rw [due, remaining, reduceOption_of_nextItem_none found]
      rfl
    rw [Board.advance_eq_self (by rw [waits.target, waits.pending, none_left])]
    exact agrees
  | some next =>
    obtain ⟨item, j⟩ := next
    obtain ⟨k, rfl, left⟩ := reduceOption_of_nextItem found
    rw [drop_drop] at left
    have remains : w.remaining frame = item :: w.remaining { frame with i := frame.i + k } := left
    have unspent : w.spent item = false := fresh item (by rw [remains]; rfl)
    have due : w.due frame = item :: w.due { frame with i := frame.i + k } := by
      rw [World.due, remains, filter_cons, if_pos (by rw [unspent]; rfl)]
      rfl
    have going : d.stopped = false := by
      refine Bool.eq_false_iff.mpr fun stopped => ?_
      cases due.symm.trans (waits.stopped stopped)
    obtain ⟨later, dropped, same, part, waiting, registered⟩ :=
      Board.dropWhile_of_filter (waits.pending.trans due)
    let drops (other : Item) : Bool := other.once && item == other
    let t : World :=
      { w with
        frames := { frame with i := frame.i + k } :: w.frames
        calls := w.calls ++ [(frame.target, item, frame.event)] }
    have spent (other : Item) : t.spent other = (w.spent other || drops other) := by
      simp only [t, drops, World.spent, any_append, any_cons, any_nil,
        Bool.or_false, Bool.and_or_distrib_left]
    obtain ⟨entries, entriesEq⟩ : ∃ entries, entries = (b.advance d).entries := ⟨_, rfl⟩
    have advanced : b.advance d =
        ⟨entries, { d with pending := later } :: b.running, b.next,
          b.calls ++ [(d.target, item, d.event)]⟩ := by
      rw [entriesEq, Board.advance, going, waits.target, dropped]
    have filtered (other : Nat) :
        entries other = (b.entries other).filter fun other => !drops other := by
      have dropsEq {old : Item} (here : old ∈ b.entries other) :
          (!drops old) = true ↔ ¬ (item.once = true ∧ other = frame.target ∧ old = item) := by
        rw [Bool.not_eq_true', Bool.eq_false_iff, not_iff_not, Bool.and_eq_true, beq_iff_eq]
        constructor
        · rintro ⟨once, rfl⟩
          refine ⟨once, agrees.single _ _ item ?_ ?_, rfl⟩
          · rw [agrees.entries] at here
            exact mem_of_mem_filter here
          · rw [agrees.entries] at registered
            exact mem_of_mem_filter registered
        · rintro ⟨once, -, rfl⟩
          exact ⟨once, rfl⟩
      rw [entriesEq, Board.advance, going, waits.target, dropped]
      dsimp only
      by_cases own : item.once = true ∧ other = frame.target
      · rw [if_pos own.1, own.2, update_self]
        refine filter_congr fun old here => ?_
        rw [Bool.eq_iff_iff, decide_eq_true_iff, dropsEq (own.2.symm ▸ here)]
        exact not_congr ⟨fun same => ⟨own.1, own.2, same⟩, fun all => all.2.2⟩
      · have unchanged : (if item.once = true then update b.entries frame.target
            ((b.entries frame.target).filter (· ≠ item)) else b.entries) other =
            b.entries other := by
          split
          · next once => exact update_of_ne (fun same => own ⟨once, same⟩) _ _
          · rfl
        rw [unchanged]
        refine (filter_eq_self.mpr fun old here => (dropsEq here).mpr ?_).symm
        exact fun all => own ⟨all.1, all.2.1⟩
    have next : Waits w b { frame with i := frame.i + k } { d with pending := later } :=
      ⟨waits.target, waits.event, waits.inside, same,
        fun stopped => absurd (going.symm.trans stopped) Bool.false_ne_true,
        fun old member => waits.old old (part.subset member)⟩
    have kept {b' : Board Nat Nat Nat} (same : b'.entries = entries) {frame : Frame}
        {d : Dispatch Nat Nat Nat} (waits : Waits w b frame d) : Waits t b' frame d := by
      refine waits.keep drops (Nat.le_refl _) (fun a _ => ⟨[], (append_nil _).symm⟩) spent
        (fun old _ => ?_) (Nat.le_refl _)
      rw [same, filtered, mem_filter, Bool.not_eq_true']
    rw [advanced]
    refine ⟨?_, agrees.next, fun other => ?_,
      .cons (kept rfl next) (agrees.running.imp fun _ _ => kept rfl), agrees.allocated,
      agrees.apart, agrees.single, agrees.known, ?_⟩
    · rw [agrees.calls, waits.target, waits.event]
    · change entries other = (w.current other).filter fun item => !t.spent item
      rw [filtered, agrees.entries, List.filter_filter]
      refine filter_congr fun old _ => ?_
      rw [spent, Bool.not_or, Bool.and_comm]
    · intro call member
      rcases mem_append.mp member with old | new
      · exact agrees.called call old
      · rw [mem_singleton.mp new]
        exact waits.old item waiting

theorem current_eq_nil (none : w.listeners target = none) : w.current target = [] := by
  rw [current, none]
  rfl

section

variable (agrees : w.Agrees b)
include agrees

theorem Agrees.due_current (member : frame ∈ w.frames) : w.due frame ⊆ w.current frame.target := by
  have all := agrees.running.imp fun frame d waits =>
    (show w.due frame ⊆ w.current frame.target ∧ Waits w b frame d from
      ⟨fun item due => by
        have registered := (waits.registered.mp due).2
        rw [agrees.entries] at registered
        exact mem_of_mem_filter registered, waits⟩)
  exact ((forall₂_and_left _ _).mp all).1 frame member

theorem Agrees.constructed
    (none : w.listeners target = none) : (w.newListeners target []).Agrees b := by
  have entries : b.entries target = [] := by
    rw [agrees.entries, current_eq_nil none]
    rfl
  have relisted := @Agrees.relisted w b agrees target [] (nil_subset _)
    fun frame member same item due => by
      have here := agrees.due_current member due
      rw [same, current_eq_nil none] at here
      cases here
  have same : update b.entries target [] = b.entries := by
    rw [← entries, update_eq_self]
  change Agrees _ { b with entries := update b.entries target [] } at relisted
  rw [same] at relisted
  exact relisted

theorem Agrees.add (target callback : Nat) (once : Bool) :
    ∃ b', meantStep b (.addEventListener target (some callback) once) = some b' ∧
      (w.lr_event_target_addEventListener target (some callback) once).Agrees b' := by
  refine ⟨_, rfl, ?_⟩
  unfold lr_event_target_addEventListener
  cases here : w.listeners target with
  | none =>
    have listed : (w.newListeners target []).listeners target = some w.arrays.length :=
      update_self _ _ _
    simp only [isSome_none, Bool.false_eq_true, if_false, listed, getD_some]
    exact (agrees.constructed here).added listed
  | some a =>
    simp only [isSome_some, if_true, here, getD_some]
    exact agrees.added here

/-- A removal that meets the condition removes what is meant. -/
theorem Agrees.remove {callback : Nat}
    (meets : w.Meets kind (.removeEventListener target (some callback))) :
    ∃ b', meantStep b (.removeEventListener target (some callback)) = some b' ∧
      (w.lr_event_target_removeEventListener kind target (some callback)).Agrees b' := by
  refine ⟨_, rfl, ?_⟩
  unfold lr_event_target_removeEventListener
  cases here : w.listeners target with
  | none =>
      have entries : b.entries target = [] := by
        rw [agrees.entries, current_eq_nil here]
        rfl
      have same : update b.entries target
          ((b.entries target).filter (·.callback ≠ callback)) = b.entries := by
        rw [entries, filter_nil, ← entries, update_eq_self]
      rw [same]
      exact agrees
  | some a =>
    have items : w.current target = (w.array a).reduceOption := by
      rw [current, here]
      rfl
    have left := @reduceOption_filtered kind callback (w.array a)
    rw [← items] at left
    -- an unspent item of the target matches exactly if it has the function
    have alike {item : Item} (member : item ∈ w.current target) (unspent : w.spent item = false) :
        isMatch kind callback (some item) = true ↔ item.callback = callback := by
      refine ⟨meets.1 item member unspent, fun same => ?_⟩
      change ((kind item.callback).lr_to_cstring == (kind callback).lr_to_cstring) = true
      rw [same]
      exact beq_self_eq_true _
    have relisted := @Agrees.relisted w b agrees target (filtered kind callback (w.array a))
      (by rw [left]; exact filter_sublist.subset) fun frame member same item due => by
        have here := agrees.due_current member due
        rw [same] at here
        rw [left, mem_filter, Bool.not_eq_true', Bool.eq_false_iff, ne_eq,
          alike here (mem_due.mp due).2]
        exact ⟨here, meets.2 frame member same item due⟩
    have entries : (filtered kind callback (w.array a)).reduceOption.filter
        (fun item => !w.spent item) = (b.entries target).filter (·.callback ≠ callback) := by
      rw [left, agrees.entries, List.filter_filter, List.filter_filter]
      refine filter_congr fun item member => ?_
      cases unspent : w.spent item with
      | true => rw [Bool.not_true, Bool.false_and, Bool.and_false]
      | false =>
        rw [Bool.not_false, Bool.true_and, Bool.and_true, Bool.eq_iff_iff, Bool.not_eq_true',
          Bool.eq_false_iff, ne_eq, alike member unspent, decide_eq_true_iff]
    rw [entries] at relisted
    exact relisted

theorem Agrees.dispatch {event : Nat} (meets : w.Meets kind (.dispatchEvent target (some event))) :
    (w.lr_event_target_dispatchEvent target (some event)).Agrees
      (b.advance ⟨target, event, b.entries target, false⟩) := by
  have whole : (b.entries target).filter (· ∈ b.entries target) = b.entries target :=
    filter_eq_self.mpr fun item member => decide_eq_true member
  unfold lr_event_target_dispatchEvent
  cases here : w.listeners target with
  | none =>
    rw [Board.advance_eq_self]
    · exact agrees
    · rw [whole, agrees.entries, current_eq_nil here]
      rfl
  | some a =>
    have items : w.current target = (w.array a).reduceOption := by
      rw [current, here]
      rfl
    have remains : w.remaining ⟨target, event, a, (w.array a).length, 0⟩ = w.current target := by
      rw [items, remaining, take_length, drop_zero]
    refine agrees.resumed ⟨rfl, rfl, ⟨agrees.allocated target a here, Nat.le_refl _⟩, ?_, nofun,
      fun item member => ?_⟩ fun item first => meets item (remains ▸ first)
    · rw [whole, due, remains, agrees.entries]
    · rw [agrees.entries] at member
      exact agrees.known target item (mem_of_mem_filter member)

theorem Agrees.stop {event : Nat} (meets : w.Meets kind (.stopImmediatePropagation event)) :
    Agrees { w with stopImmediate := event :: w.stopImmediate } { b with
        running := b.running.map fun d =>
          if d.event = event then { d with stopped := true } else d } := by
  refine { agrees with
    running := forall₂_map_right_iff.mpr ?_ }
  refine ((forall₂_and_left _ _).mpr ⟨fun _ member => member, agrees.running⟩).imp ?_
  rintro frame d ⟨member, waits⟩
  split
  · next same =>
      exact ⟨waits.target, waits.event, waits.inside, waits.pending,
        fun _ => meets frame member (waits.event.symm.trans same), waits.old⟩
  · exact ⟨waits.target, waits.event, waits.inside, waits.pending, waits.stopped, waits.old⟩

theorem Agrees.pop {rest : List Frame} (frames : w.frames = frame :: rest) :
    ∃ d running, b.running = d :: running ∧
      Agrees { w with frames := rest } { b with running } ∧
      Waits { w with frames := rest } { b with running } frame d := by
  have all := agrees.running
  rw [frames] at all
  cases running : b.running with
  | nil =>
    rw [running] at all
    cases all
  | cons d others =>
    rw [running] at all
    cases all with
    | cons waits later =>
      have left {frame : Frame} {d : Dispatch Nat Nat Nat} (waits : Waits w b frame d) :
          Waits { w with frames := rest } { b with running := others } frame d :=
        ⟨waits.target, waits.event, waits.inside, waits.pending, waits.stopped, waits.old⟩
      exact ⟨d, others, rfl, { agrees with running := later.imp fun _ _ => left }, left waits⟩

/-- Every step that meets the condition is a step of the ordered list. -/
theorem Agrees.step {action : Action} (meets : w.Meets kind action)
    (taken : w.step kind action = some w') : ∃ b', meantStep b action = some b' ∧ w'.Agrees b' := by
  cases action with
  | construct target =>
    obtain ⟨none, taken⟩ := ite_none_right_eq_some.mp taken
    cases taken
    exact ⟨b, rfl, agrees.constructed none⟩
  | addEventListener target listener once =>
    cases taken
    cases listener with
    | none => exact ⟨b, rfl, agrees⟩
    | some callback => exact agrees.add target callback once
  | removeEventListener target listener =>
    cases taken
    cases listener with
    | none => exact ⟨b, rfl, agrees⟩
    | some callback => exact agrees.remove meets
  | dispatchEvent target event =>
    cases taken
    cases event with
    | none => exact ⟨b, rfl, agrees⟩
    | some event => exact ⟨_, rfl, agrees.dispatch meets⟩
  | stopImmediatePropagation event =>
    cases taken
    exact ⟨_, rfl, agrees.stop meets⟩
  | returns | leavesError =>
    cases frames : w.frames with
    | nil =>
      rw [World.step, frames] at taken
      cases taken
    | cons frame rest =>
      rw [World.step, frames] at taken
      cases taken
      obtain ⟨d, running, innermost, agrees, waits⟩ := agrees.pop frames
      refine ⟨_, ?_, agrees.resumed waits fun item first => ?_⟩
      · rw [meantStep, Action.meant, elim_some, Board.step, innermost]
      · exact meets frame (by rw [frames]; rfl) item first
  | throws =>
    cases frames : w.frames with
    | nil =>
      rw [World.step, frames] at taken
      cases taken
    | cons frame rest =>
      rw [World.step, frames] at taken
      obtain ⟨-, taken⟩ := ite_none_left_eq_some.mp taken
      cases taken
      obtain ⟨d, running, innermost, agrees, waits⟩ := agrees.pop frames
      have none_left : World.due { w with frames := rest } frame = [] :=
        meets frame (by rw [frames]; rfl)
      refine ⟨_, ?_, agrees⟩
      rw [meantStep, Action.meant, elim_some, Board.step, innermost]
      refine congrArg some (Board.advance_eq_self ?_)
      rw [waits.target, waits.pending, none_left]

end

end World

end LRJS.EventTargets
