import Mathlib.Init

/-!
# Computations with a log

A computation that may not end and that logs events.  `Obeys` says what its
log and its result are worth: as long as the events that are met keep to a
condition, they have a property, and so has the result.
-/

namespace Logged

open List Option

universe u v

structure Course (Event : Type u) (Value : Type v) where
  events : List Event
  result : Option Value

variable {Event : Type u} {Value Value' : Type v}

namespace Course

def done (value : Value) : Course Event Value :=
  ⟨[], some value⟩

def diverge : Course Event Value :=
  ⟨[], none⟩

def andThen (first : Course Event Value) (next : Value → Course Event Value') :
    Course Event Value' :=
  match first.result with
  | none => ⟨first.events, none⟩
  | some value => ⟨first.events ++ (next value).events, (next value).result⟩

theorem result_andThen (first : Course Event Value) (next : Value → Course Event Value') :
    (first.andThen next).result = first.result.bind fun value => (next value).result := by
  unfold andThen
  cases first.result with
  | none | some value => rfl

def log (event : Event) (next : Course Event Value) : Course Event Value :=
  ⟨event :: next.events, next.result⟩

def Obeys (met holds : Event → Prop) (run : Course Event Value) (post : Value → Prop) : Prop :=
  (∀ event ∈ run.events, met event) →
    (∀ event ∈ run.events, holds event) ∧ ∀ value, run.result = some value → post value

variable {met holds : Event → Prop} {post : Value → Prop}

theorem obeys_done {value : Value} (here : post value) :
    (done value : Course Event Value).Obeys met holds post := by
  intro _
  refine ⟨fun event member => absurd member not_mem_nil, fun other same => ?_⟩
  rw [← some.inj same]
  exact here

theorem obeys_diverge : (diverge : Course Event Value).Obeys met holds post := by
  intro _
  exact ⟨fun event member => absurd member not_mem_nil, fun other same => by cases same⟩

theorem Obeys.mono {run : Course Event Value} {weaker : Value → Prop}
    (obeys : run.Obeys met holds post) (implies : ∀ value, post value → weaker value) :
    run.Obeys met holds weaker := by
  intro all
  obtain ⟨events, result⟩ := obeys all
  exact ⟨events, fun value same => implies value (result value same)⟩

variable {next : Value → Course Event Value'}

/-- A course that obeys goes on with one that obeys. -/
theorem Obeys.andThen {first : Course Event Value} {post' : Value' → Prop}
    (obeys : first.Obeys met holds post)
    (continues : ∀ value, post value → (next value).Obeys met holds post') :
    (first.andThen next).Obeys met holds post' := by
  intro all
  unfold Course.andThen at all ⊢
  cases found : first.result with
  | none =>
    simp only [found] at all ⊢
    exact ⟨(obeys all).1, fun value same => by cases same⟩
  | some value =>
    simp only [found] at all ⊢
    have before := obeys fun event member => all event (mem_append_left _ member)
    have behind := continues value (before.2 value found) fun event member =>
      all event (mem_append_right _ member)
    refine ⟨fun event member => ?_, behind.2⟩
    cases mem_append.mp member with
    | inl early => exact before.1 event early
    | inr late => exact behind.1 event late

theorem Obeys.log {event : Event} {next : Course Event Value} (keeps : met event → holds event)
    (continues : met event → next.Obeys met holds post) :
    (Course.log event next).Obeys met holds post := by
  intro all
  have here : met event := all event mem_cons_self
  have behind := continues here fun other member => all other (mem_cons_of_mem _ member)
  refine ⟨fun other member => ?_, behind.2⟩
  cases mem_cons.mp member with
  | inl same => exact same ▸ keeps here
  | inr later => exact behind.1 other later

def Succeeds (good : Event → Prop) (run : Course Event Value) (post : Value → Prop) : Prop :=
  (∀ event ∈ run.events, good event) ∧ ∃ value, run.result = some value ∧ post value

variable {good : Event → Prop}

theorem succeeds_done {value : Value} :
    (done value : Course Event Value).Succeeds good post ↔ post value := by
  constructor
  · intro succeeds
    obtain ⟨other, same, holds⟩ := succeeds.2
    exact some.inj same ▸ holds
  · intro holds
    exact ⟨fun event member => absurd member not_mem_nil, value, rfl, holds⟩

theorem not_succeeds_diverge : ¬(diverge : Course Event Value).Succeeds good post := by
  intro succeeds
  obtain ⟨value, same, _⟩ := succeeds.2
  cases same

theorem succeeds_log {event : Event} {next : Course Event Value} :
    (log event next).Succeeds good post ↔ good event ∧ next.Succeeds good post := by
  constructor
  · intro succeeds
    refine ⟨succeeds.1 event mem_cons_self, fun other member => ?_, succeeds.2⟩
    exact succeeds.1 other (mem_cons_of_mem _ member)
  · intro both
    refine ⟨fun other member => ?_, both.2.2⟩
    cases mem_cons.mp member with
    | inl same => exact same ▸ both.1
    | inr later => exact both.2.1 other later

/-- A course succeeds exactly if its first part does, with a value from which the rest does. -/
theorem succeeds_andThen {first : Course Event Value} {post' : Value' → Prop} :
    (first.andThen next).Succeeds good post' ↔
      first.Succeeds good fun value => (next value).Succeeds good post' := by
  unfold andThen
  cases found : first.result with
  | none =>
    constructor
    · intro succeeds
      obtain ⟨value, same, _⟩ := succeeds.2
      cases same
    · intro succeeds
      obtain ⟨value, same, _⟩ := succeeds.2
      rw [found] at same
      cases same
  | some value =>
    constructor
    · intro succeeds
      refine ⟨fun event member => succeeds.1 event (mem_append_left _ member), value,
        found, fun event member => succeeds.1 event (mem_append_right _ member), ?_⟩
      exact succeeds.2
    · intro succeeds
      obtain ⟨before, other, same, behind⟩ := succeeds
      rw [found] at same
      obtain rfl := some.inj same
      refine ⟨fun event member => ?_, behind.2⟩
      cases mem_append.mp member with
      | inl early => exact before event early
      | inr late => exact behind.1 event late

end Course

end Logged
