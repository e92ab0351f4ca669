import Mathlib.Data.List.Basic
import Mathlib.Data.Option.Basic

/-!
# Monitored runs

A run that may fail to end, and that takes notes on the way.  `Ends` says that it ends with
a result and that all its notes are tolerated; `Reaches` says of a run without notes that it
ends with a result of some kind.
-/

universe u v w

/-- A result with the notes taken on the way; `none` when there is no result. -/
def Monitored (Note : Type u) (α : Type v) := Option (α × List Note)

namespace Monitored

variable {Note : Type u} {α : Type v} {β : Type w}

protected def pure (value : α) : Monitored Note α :=
  some (value, [])

protected def bind (run : Monitored Note α) (next : α → Monitored Note β) : Monitored Note β :=
  match run with
  | none => none
  | some (value, before) =>
    match next value with
    | none => none
    | some (result, after) => some (result, before ++ after)

instance : Monad (Monitored Note) where
  pure := Monitored.pure
  bind := Monitored.bind

def stuck : Monitored Note α :=
  none

def note (met : Bool) (taken : Note) : Monitored Note PUnit :=
  some (⟨⟩, if met then [taken] else [])

def result (run : Monitored Note α) : Option α :=
  Option.map Prod.fst run

def Ends (tolerated : Note → Prop) (run : Monitored Note α) (result : α) : Prop :=
  ∃ notes, run = some (result, notes) ∧ ∀ taken ∈ notes, tolerated taken

variable {tolerated : Note → Prop}

theorem ends_pair {β : Type} {a c : α} {b d : β} (ends : Ends tolerated (pure (a, b)) (c, d)) :
    a = c ∧ b = d := by
  obtain ⟨notes, same, _⟩ := ends
  cases same
  exact ⟨rfl, rfl⟩

@[simp] theorem ends_pure {value result : α} :
    Ends tolerated (pure value) result ↔ value = result := by
  constructor
  · rintro ⟨notes, same, _⟩
    cases same
    rfl
  · rintro rfl
    exact ⟨[], rfl, by simp⟩

@[simp] theorem ends_bind {γ : Type v} {run : Monitored Note γ} {next : γ → Monitored Note α}
    {result : α} :
    Ends tolerated (run >>= next) result ↔
      ∃ value, Ends tolerated run value ∧ Ends tolerated (next value) result := by
  constructor
  · rintro ⟨notes, same, quiet⟩
    change Monitored.bind run next = _ at same
    unfold Monitored.bind at same
    rcases run with _ | ⟨value, before⟩
    · cases same
    · rcases first : next value with _ | ⟨last, after⟩
      · simp only [first] at same
        cases same
      · simp only [first] at same
        cases same
        exact ⟨value, ⟨before, rfl,
            fun taken member => quiet taken (List.mem_append_left _ member)⟩,
          ⟨after, first, fun taken member => quiet taken (List.mem_append_right _ member)⟩⟩
  · rintro ⟨value, ⟨before, rfl, calm⟩, ⟨after, second, quiet⟩⟩
    refine ⟨before ++ after, ?_, ?_⟩
    · change Monitored.bind _ _ = _
      simp only [Monitored.bind, second]
      rfl
    · intro taken member
      exact (List.mem_append.mp member).elim (calm taken) (quiet taken)

@[simp] theorem not_ends_stuck {result : α} :
    ¬ Ends tolerated (stuck : Monitored Note α) result := by
  rintro ⟨notes, same, _⟩
  cases same

@[simp] theorem ends_note {met : Bool} {taken : Note} {result : PUnit} :
    Ends tolerated (note met taken) result ↔ (met = true → tolerated taken) := by
  cases met
  · exact ⟨fun _ => by simp, fun _ => ⟨[], rfl, by simp⟩⟩
  · constructor
    · rintro ⟨notes, same, quiet⟩ _
      cases same
      exact quiet taken (List.mem_singleton_self taken)
    · intro fine
      exact ⟨[taken], rfl, by simpa using fine rfl⟩

/-- What ends with few tolerated notes ends with more. -/
theorem Ends.mono {wider : Note → Prop} {run : Monitored Note α} {result : α}
    (ends : Ends tolerated run result) (weaker : ∀ taken, tolerated taken → wider taken) :
    Ends wider run result := by
  obtain ⟨notes, same, quiet⟩ := ends
  exact ⟨notes, same, fun taken member => weaker taken (quiet taken member)⟩

end Monitored

namespace Partial

variable {α β : Type v}

def Reaches (run : Option α) (post : α → Prop) : Prop :=
  ∃ result, run = some result ∧ post result

@[simp] theorem reaches_some {result : α} {post : α → Prop} :
    Reaches (some result) post ↔ post result := by
  simp [Reaches]

variable {run : Option α}

@[simp] theorem reaches_bind {next : α → Option β} {post : β → Prop} :
    Reaches (run >>= next) post ↔ Reaches run fun value => Reaches (next value) post := by
  cases run <;> simp [Reaches]

theorem Reaches.mono {post weaker : α → Prop} (reaches : Reaches run post)
    (implies : ∀ result, post result → weaker result) : Reaches run weaker := by
  obtain ⟨result, same, described⟩ := reaches
  exact ⟨result, same, implies result described⟩

/-- What is reached behind a reached value is reached. -/
theorem Reaches.bind {next : α → Option β} {middle : α → Prop} {post : β → Prop}
    (first : Reaches run middle) (second : ∀ value, middle value → Reaches (next value) post) :
    Reaches (run >>= next) post :=
  reaches_bind.mpr (first.mono second)

end Partial
