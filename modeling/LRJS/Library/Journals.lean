import Mathlib.Data.List.Induction

/-!
# Journals

The notes that an observer takes of a machine, the oldest first.  A law keeps
an account of the notes and says which note it allows next; a journal is lawful
when each of its notes is allowed by the account of the notes before it.
-/

namespace Journals

universe u v

structure Law (Note : Type u) (Account : Type v) where
  opening : Account
  record : Account → Note → Account
  Allows : Account → Note → Prop

namespace Law

variable {Note : Type u} {Account : Type v} (law : Law Note Account)

def account (journal : List Note) : Account :=
  journal.foldl law.record law.opening

def Lawful (journal : List Note) : Prop :=
  ∀ before note later, journal = before ++ note :: later → law.Allows (law.account before) note

/-- The account of a longer journal records its last note. -/
theorem account_note (journal : List Note) (note : Note) :
    law.account (journal ++ [note]) = law.record (law.account journal) note := by
  rw [account, List.foldl_append]
  rfl

theorem lawful_nil : law.Lawful [] := by
  intro before note later same
  cases before with
  | nil | cons first rest => cases same

variable {law} {journal : List Note}

/-- A journal stays lawful under a note that its account allows. -/
theorem Lawful.note {note : Note} (lawful : law.Lawful journal)
    (allowed : law.Allows (law.account journal) note) : law.Lawful (journal ++ [note]) := by
  intro before other later same
  induction later using List.reverseRecOn with
  | nil =>
    obtain ⟨rfl, last⟩ := List.append_inj' same rfl
    cases last
    exact allowed
  | append_singleton later last _ =>
    rw [← List.cons_append, ← List.append_assoc] at same
    exact lawful before other later (List.append_inj' same rfl).1

theorem Lawful.earlier {note : Note} (lawful : law.Lawful (journal ++ [note])) :
    law.Lawful journal := by
  intro before other later same
  refine lawful before other (later ++ [note]) ?_
  rw [same, List.append_assoc]
  rfl

/-- The last note of a lawful journal was allowed. -/
theorem Lawful.last {note : Note} (lawful : law.Lawful (journal ++ [note])) :
    law.Allows (law.account journal) note :=
  lawful journal note [] rfl

end Law

end Journals
