import LRJS.ArchiveFiles

/-!
# Archives across crashes

The calls on the archive of one script in any order, each of which a crash may
cut off between two file operations.  A complete archive stays on the disk, as
the archive or as its backup, as long as no call moves a worse file over it.
-/

namespace LRJS.Iome586

open Function

open Interaction (Program isChain_append_of_last)
open Interaction.Program (Along)

def Contents.complete : Contents → Bool
  | .empty | .garbage => false
  | .container header =>
    header.status == LR_IOME586_STATUS_ARCHIVED && header.payload.isSome

def Contents.writing : Contents → Bool
  | .empty | .garbage => false
  | .container header => header.status == LR_IOME586_STATUS_WRITING

def Complete (found : Option Contents) : Prop :=
  ∃ data ∈ found, data.complete = true

instance (found : Option Contents) : Decidable (Complete found) :=
  inferInstanceAs (Decidable (∃ data ∈ found, data.complete = true))

def Good (disk : Disk) : Prop :=
  Complete (disk .final) ∨ Complete (disk .bak)

instance (disk : Disk) : Decidable (Good disk) :=
  inferInstanceAs (Decidable (_ ∨ _))

theorem not_complete_none : ¬Complete none := by
  intro complete
  obtain ⟨data, member, _⟩ := complete
  cases member

variable {data : Contents}

theorem complete_some : Complete (some data) ↔ data.complete = true := by
  constructor
  · intro complete
    obtain ⟨found, member, holds⟩ := complete
    cases member
    exact holds
  · intro holds
    exact ⟨data, rfl, holds⟩

theorem not_writing_of_complete (complete : data.complete = true) : data.writing = false := by
  cases data with
  | empty | garbage => cases complete
  | container header =>
    have archived := eq_of_beq (Bool.and_eq_true_iff.mp complete).1
    exact beq_eq_false_iff_ne.mpr fun other => by
      rw [archived] at other
      cases other

inductive Call where
  | begin (c : LR_Iome586Cache) (script : Script) (ast_bc fits : Bool)
  | commit (c : LR_Iome586Cache) (outcome : Outcome)
  | abort
  | load (c : LR_Iome586Cache) (script : Script)
  | revert (c : LR_Iome586Cache) (has_path : Bool)

def Call.program (active : Option LR_Iome586Writer) : Call → Files (Option LR_Iome586Writer)
  | .begin c script ast_bc fits => lr_iome586_begin c script ast_bc fits
  | .commit c outcome =>
    match active with
    | none => return none
    | some w => do
        let _ ← lr_iome586_commit c w outcome
        return none
  | .abort =>
    match active with
    | none => return none
    | some w => do
        lr_iome586_abort w
        return none
  | .load c script => do
      let _ ← lr_iome586_load c script
      return active
  | .revert c has_path => do
      let _ ← lr_iome586_revert c has_path
      return active

structure World where
  disk : Disk
  writers : Nat → Option LR_Iome586Writer

/-- A call of a run, which a crash may cut off behind some file operations,
or a crash of a run between its calls. -/
inductive Event where
  | call (run : Nat) (now : Call) (cut : Option Nat)
  | crash (run : Nat)

def disks (world : World) : Event → List Disk
  | .call run now cut =>
    let all := (now.program (world.writers run)).states perform world.disk
    cut.elim all fun count => all.take count
  | .crash _ => []

def occur (world : World) (event : Event) : World where
  disk := (disks world event).getLastD world.disk
  writers :=
    match event with
    | .call run now none => Function.update world.writers run
        ((now.program (world.writers run)).value perform world.disk)
    | .call run _ (some _) | .crash run => Function.update world.writers run none

def step (world : World) (event : Event) : Option World :=
  some (occur world event)

def history (world : World) : List Event → List Disk
  | [] => []
  | event :: rest => disks world event ++ history (occur world event) rest

def load_moves (c : LR_Iome586Cache) (script : Script) (disk : Disk) : Option File :=
  match readable (disk .final) with
  | some fdata => if verdict c script fdata = .stale then some .final else none
  | none =>
    match readable (disk .alt) with
    | some fdata => if verdict c script fdata = .stale then some .alt else none
    | none => none

/-- A call does not move a worse file over a complete archive, and removes none
without a backup. -/
def Call.Meets (active : Option LR_Iome586Writer) (disk : Disk) : Call → Prop
  | .begin c _ ast_bc _ =>
    c.enabled = true ∧ c.cache_dir = true ∧ ast_bc = true → Complete (disk .bak) →
      Complete (disk .final) ∨ disk .final = none ∧ disk .alt = none
  | .commit _ outcome =>
    active.isSome = true → outcome.gain_below_min = true ∨ outcome.fits = false →
      Complete (disk .final) → Complete (disk .bak)
  | .abort => active.isSome = true → Complete (disk .final) → Complete (disk .bak)
  | .load c script =>
    c.enabled = true ∧ c.cache_dir = true → Complete (disk .bak) →
      ∀ path ∈ load_moves c script disk, path = .final ∧ Complete (disk .final)
  | .revert c has_path =>
    c.enabled = true ∧ c.cache_dir = true ∧ has_path = true → Complete (disk .final) →
      disk .bak = none ∨ Complete (disk .bak)

instance (active : Option LR_Iome586Writer) (disk : Disk) (now : Call) :
    Decidable (now.Meets active disk) := by
  cases now <;> unfold Call.Meets <;> infer_instance

def Meets (world : World) : Event → Prop
  | .call run now _ => now.Meets (world.writers run) world.disk
  | .crash _ => True

instance (world : World) (event : Event) : Decidable (Meets world event) := by
  cases event <;> unfold Meets <;> infer_instance

/-- An operation keeps complete archives, and moves no `WRITING` container over
a backup that was complete at the start. -/
def Safe (start disk : Disk) (access : Access) : Prop :=
  (Good disk → Good (perform access disk).2) ∧
    ∀ src, access.op = .rename src .bak → Complete (start .bak) →
      ∀ data ∈ disk src, data.writing = false

section Operations

variable {start disk : Disk} {phase : Phase}

variable {path : File}

theorem safe_file_exists : Safe start disk ⟨phase, .file_exists path⟩ :=
  ⟨id, fun _ same => by cases same⟩

theorem safe_read_all : Safe start disk ⟨phase, .read_all path⟩ :=
  ⟨id, fun _ same => by cases same⟩

theorem safe_remove (keeps : Good disk → Good (Function.update disk path none)) :
    Safe start disk ⟨phase, .remove path⟩ :=
  ⟨keeps, fun _ same => by cases same⟩

theorem safe_write_all {data : Contents} {fits : Bool}
    (keeps : Good disk → Good (Function.update disk path (some data))) :
    Safe start disk ⟨phase, .write_all path data fits⟩ := by
  refine ⟨fun good => ?_, fun _ same => by cases same⟩
  cases fits with
  | true => exact keeps good
  | false => exact good

end Operations

section Moves

variable {start disk : Disk} {phase : Phase} {Value : Type}
variable {next : Bool → Files Value} {post : Value → Disk → Prop}

theorem along_move_file {fine : Disk → Access → Prop} {src dst : File} {data : Contents}
    (different : src ≠ dst) (found : disk src = some data)
    (removes : fine disk ⟨phase, .remove dst⟩)
    (renames : fine (Function.update disk dst none) ⟨phase, .rename src dst⟩)
    (continues : (next true).Along perform fine post
      (Function.update (Function.update disk dst (some data)) src none)) :
    (move_file phase src dst >>= next).Along perform fine post disk := by
  refine ⟨removes, renames, ?_⟩
  have there : (update disk dst none) src = some data := by
    rw [update_of_ne different, found]
  unfold perform
  simp only [FileOp.perform]
  rw [there]
  simp only [update_idem]
  exact continues

end Moves

variable {start disk : Disk}

variable {phase : Phase} {Value : Type} {post : Value → Disk → Prop}

/-- Moving an archive to its backup keeps a complete archive at every crash. -/
theorem safe_move_to_bak {src : File} {next : Bool → Files Value} (different : src ≠ .bak)
    (found : start src = some data)
    (better : Complete (start .bak) → src = .final ∧ data.complete = true)
    (continues : (next true).Along perform (Safe start) post
      (Function.update (Function.update start .bak (some data)) src none)) :
    (move_file phase src .bak >>= next).Along perform (Safe start) post start := by
  refine along_move_file different found (safe_remove ?_) ⟨?_, ?_⟩ continues
  · intro good
    left
    rw [update_of_ne (by decide)]
    cases good with
    | inl final => exact final
    | inr bak =>
      obtain ⟨same, complete⟩ := better bak
      rw [← same, found]
      exact complete_some.mpr complete
  · intro good
    cases good with
    | inl final =>
      have there : update start .bak none src = some data := by
        rw [update_of_ne different, found]
      simp only [perform, FileOp.perform, there]
      by_cases same : src = .final
      · subst same
        rw [there] at final
        right
        exact final
      · left
        rw [update_of_ne (Ne.symm same), update_of_ne (by decide)]
        exact final
    | inr bak =>
      exact absurd bak not_complete_none
  · intro from_file same complete data' member
    cases same
    rw [update_of_ne different, found] at member
    cases member
    exact not_writing_of_complete (better complete).2

section

variable (backed : Complete (disk .final) → Complete (disk .bak))
include backed

theorem complete_bak_of_good (good : Good disk) : Complete (disk .bak) := by
  cases good with
  | inl final => exact backed final
  | inr bak => exact bak

theorem safe_remove_final : Safe start disk ⟨phase, .remove .final⟩ := by
  refine safe_remove fun good => .inr ?_
  rw [update_of_ne (by decide)]
  exact complete_bak_of_good backed good

theorem safe_move_to_final {next : Bool → Files Value}
    (continues : ∀ moved disk, (next moved).Along perform (Safe start) post disk) :
    (move_file phase .bak .final >>= next).Along perform (Safe start) post disk := by
  refine ⟨safe_remove_final backed, ⟨fun good => ?_, fun _ same => by cases same⟩,
    continues _ _⟩
  have bak : Complete (update disk .final none .bak) := by
    refine complete_bak_of_good (fun final => ?_) good
    exact absurd final not_complete_none
  obtain ⟨data, found, complete⟩ := bak
  left
  simp only [perform, FileOp.perform, Option.mem_def.mp found]
  exact complete_some.mpr complete

theorem safe_roll_back {w : LR_Iome586Writer} {next : Unit → Files Value}
    (continues : ∀ disk, (next ()).Along perform (Safe start) post disk) :
    (roll_back phase w >>= next).Along perform (Safe start) post disk := by
  refine ⟨safe_remove_final backed, ?_⟩
  change Along perform (Safe start) post ((if w.have_bak then _ else _) >>= next) _
  split
  · rw [bind_assoc]
    refine safe_move_to_final (fun final => ?_) fun _ disk => continues disk
    exact absurd final not_complete_none
  · exact continues _

end

variable {c : LR_Iome586Cache} {script : Script}

theorem safe_write_first {fits have_bak : Bool} (absent : disk .final = none) :
    (write_first c script fits have_bak).Along perform (Safe start) (fun _ _ => True) disk := by
  have backed : Complete (disk .final) → Complete (disk .bak) := by
    rw [absent]
    exact fun final => absurd final not_complete_none
  refine ⟨safe_write_all fun good => .inr ?_, ?_⟩
  · rw [update_of_ne (by decide)]
    exact complete_bak_of_good backed good
  cases fits with
  | true => trivial
  | false =>
    cases have_bak with
    | true => exact safe_move_to_final backed fun _ _ => trivial
    | false => trivial

variable {active : Option LR_Iome586Writer}

/-- A `begin` that meets the condition keeps a complete archive at every crash. -/
theorem safe_begin
    {ast_bc fits : Bool} (meets : (Call.begin c script ast_bc fits).Meets active start) :
    (lr_iome586_begin c script ast_bc fits).Along perform (Safe start) (fun _ _ => True)
      start := by
  unfold lr_iome586_begin
  split
  · trivial
  rename_i goes_on
  have better := meets (by simpa [and_assoc] using goes_on)
  refine ⟨safe_file_exists, ?_⟩
  change Along perform (Safe start) _
    ((if (start .final).isSome = true then _ else _) >>= write_first c script fits) start
  cases final : start .final with
  | some data =>
    refine safe_move_to_bak (by decide) final (fun bak => ⟨rfl, ?_⟩)
      (safe_write_first (update_self ..))
    cases better bak with
    | inl complete => exact complete_some.mp (final ▸ complete)
    | inr absent => exact absurd (final.symm.trans absent.1) (Option.some_ne_none data)
  | none =>
    refine ⟨safe_file_exists, ?_⟩
    change Along perform (Safe start) _
      ((if (start .alt).isSome = true then _ else _) >>= write_first c script fits) start
    cases alt : start .alt with
    | some data =>
      refine safe_move_to_bak (by decide) alt (fun bak => ?_) (safe_write_first ?_)
      · cases better bak with
        | inl complete => exact absurd (final ▸ complete) not_complete_none
        | inr absent => exact absurd (alt.symm.trans absent.2) (Option.some_ne_none data)
      · rw [update_of_ne (by decide), update_of_ne (by decide)]
        exact final
    | none => exact safe_write_first final

/-- A `commit` keeps a complete archive if a complete one is replaced only behind a backup. -/
theorem safe_commit {w : LR_Iome586Writer} {outcome : Outcome} {next : Int → Files Value}
    (backed : outcome.gain_below_min = true ∨ outcome.fits = false →
      Complete (disk .final) → Complete (disk .bak))
    (continues : ∀ rc disk, (next rc).Along perform (Safe start) post disk) :
    (lr_iome586_commit c w outcome >>= next).Along perform (Safe start) post disk := by
  unfold lr_iome586_commit
  split_ifs with below
  · rw [bind_assoc]
    exact safe_roll_back (backed (.inl below)) fun disk => continues _ disk
  · rw [bind_assoc]
    refine ⟨safe_write_all fun _ => .inl ?_, ?_⟩
    · rw [update_self]
      exact complete_some.mpr rfl
    cases fits : outcome.fits with
    | true => exact continues _ _
    | false =>
      change Along perform (Safe start) post
        ((roll_back .commit w >>= fun _ => return -1) >>= next) disk
      rw [bind_assoc]
      exact safe_roll_back (backed (.inr fits)) fun disk => continues _ disk

theorem not_complete_of_corrupt {fdata : Contents}
    (corrupt : verdict c script fdata = .corrupt) : fdata.complete = false := by
  cases fdata with
  | empty | garbage => rfl
  | container mf =>
    cases payload : mf.payload with
    | none => simp [Contents.complete, payload]
    | some entries =>
      simp only [verdict, payload] at corrupt
      grind

variable {next : Option Container → Files Value}

/-- Examining a path moves it away only where something better remains. -/
theorem safe_examine {path : File} {fdata : Contents} (found : start path = some fdata)
    (different : path ≠ .bak)
    (better : Complete (start .bak) → verdict c script fdata = .stale →
      path = .final ∧ fdata.complete = true)
    (continues : ∀ mf disk, (next mf).Along perform (Safe start) post disk) :
    (examine c script path fdata >>= next).Along perform (Safe start) post start := by
  unfold examine
  cases checked : verdict c script fdata with
  | hit mf | miss => exact continues _ _
  | corrupt =>
    refine ⟨safe_remove fun good => ?_, continues _ _⟩
    cases good with
    | inl final =>
      left
      rw [update_of_ne]
      · exact final
      · intro same
        rw [same, found, complete_some, not_complete_of_corrupt checked] at final
        cases final
    | inr bak =>
      right
      rw [update_of_ne different.symm]
      exact bak
  | stale =>
    exact safe_move_to_bak different found (fun bak => better bak checked) (continues _ _)

theorem readable_some {found : Option Contents}
    (read : readable found = some data) : found = some data := by
  unfold readable at read
  split at read
  · cases read
  · exact read

/-- A `load` that meets the condition keeps a complete archive at every crash. -/
theorem safe_load (meets : (Call.load c script).Meets active start)
    (continues : ∀ mf disk, (next mf).Along perform (Safe start) post disk) :
    (lr_iome586_load c script >>= next).Along perform (Safe start) post start := by
  unfold lr_iome586_load
  split
  · exact continues _ _
  rename_i goes_on
  have better := meets (by simpa using goes_on)
  unfold load_moves at better
  refine ⟨safe_read_all, ?_⟩
  change Along perform (Safe start) post ((match readable (start .final) with
    | some fdata => examine c script .final fdata
    | none => _) >>= next) start
  cases final : readable (start .final) with
  | some fdata =>
    rw [final] at better
    refine safe_examine (readable_some final) (by decide) (fun bak stale => ⟨rfl, ?_⟩) continues
    have complete := (better bak .final (by simp [stale])).2
    exact complete_some.mp (readable_some final ▸ complete)
  | none =>
    rw [final] at better
    refine ⟨safe_read_all, ?_⟩
    change Along perform (Safe start) post ((match readable (start .alt) with
      | some fdata => examine c script .alt fdata
      | none => _) >>= next) start
    cases alt : readable (start .alt) with
    | some fdata =>
      rw [alt] at better
      refine safe_examine (readable_some alt) (by decide) (fun bak stale => ?_) continues
      exact absurd (better bak .alt (by simp [stale])).1 (by decide)
    | none => exact continues _ _

theorem safe_revert {has_path : Bool} {next : Int → Files Value}
    (meets : (Call.revert c has_path).Meets active start)
    (continues : ∀ rc disk, (next rc).Along perform (Safe start) post disk) :
    (lr_iome586_revert c has_path >>= next).Along perform (Safe start) post start := by
  unfold lr_iome586_revert
  split
  · exact continues _ _
  rename_i goes_on
  have backed := meets (by simpa [and_assoc] using goes_on)
  refine ⟨safe_file_exists, ?_⟩
  change Along perform (Safe start) post
    ((if (start .bak).isSome = true then _ else _) >>= next) start
  cases bak : start .bak with
  | none => exact continues _ _
  | some data =>
    refine safe_move_to_final (fun final => ?_) fun moved disk => ?_
    · exact (backed final).resolve_left fun absent =>
        Option.some_ne_none data (bak.symm.trans absent)
    · cases moved with
      | true | false => exact continues _ _

theorem safe_call {now : Call} (meets : now.Meets active start) :
    (now.program active).Along perform (Safe start) (fun _ _ => True) start := by
  cases now with
  | begin c script ast_bc fits => exact safe_begin meets
  | commit c outcome =>
    cases active with
    | none => trivial
    | some w => exact safe_commit (meets rfl) fun _ _ => trivial
  | abort =>
    cases active with
    | none => trivial
    | some w => exact safe_roll_back (meets rfl) fun _ => trivial
  | load c script => exact safe_load meets fun _ _ => trivial
  | revert c has_path => exact safe_revert meets fun _ _ => trivial

/-- The call moves no `WRITING` container over a backup that is complete when it starts. -/
def NeverOver (world : World) : Event → Prop
  | .call run now _ =>
    (now.program (world.writers run)).Along perform
      (fun disk access => ∀ src, access.op = .rename src .bak → Complete (world.disk .bak) →
        ∀ data ∈ disk src, data.writing = false)
      (fun _ _ => True) world.disk
  | .crash _ => True

theorem isChain_disks {world : World} {event : Event} (meets : Meets world event) :
    List.IsChain (fun before after => Good before → Good after)
      (world.disk :: disks world event) := by
  cases event with
  | crash run => exact List.isChain_singleton _
  | call run now cut =>
    have chain : List.IsChain (fun before after => Good before → Good after)
        (world.disk :: (now.program (world.writers run)).states perform world.disk) :=
      Along.isChain ((safe_call meets).mono (fun _ _ safe => safe.1) fun _ _ here => here)
    cases cut with
    | none => exact chain
    | some count => exact chain.take (count + 1)

theorem isChain_history {events : List Event} {world : World}
    (meets : Runs.Throughout step Meets world events) :
    List.IsChain (fun before after => Good before → Good after)
      (world.disk :: history world events) := by
  induction events generalizing world with
  | nil => exact List.isChain_singleton _
  | cons event rest ih =>
    exact isChain_append_of_last (isChain_disks meets.1)
      (ih (meets.2 _ rfl))

/-- Once there is a complete archive, there is one for good, wherever crashes
cut off the calls that meet the condition. -/
theorem good_archive_kept (world : World) (events : List Event)
    (meets : Runs.Throughout step Meets world events) :
    (world.disk :: history world events).Pairwise (fun before after => Good before → Good after) ∧
      Runs.Throughout step NeverOver world events := by
  constructor
  · have : IsTrans Disk fun before after => Good before → Good after :=
      ⟨fun _ _ _ first second good => second (first good)⟩
    exact List.isChain_iff_pairwise.mp (isChain_history meets)
  · apply Runs.Throughout.of_invariant (fun _ => True) (fun _ _ _ _ _ _ => trivial) _ trivial meets
    intro world event _ meets
    cases event with
    | crash run => trivial
    | call run now cut =>
      exact (safe_call meets).mono (fun _ _ safe => safe.2) fun _ _ here => here

def sampleCache : LR_Iome586Cache :=
  ⟨true, true, 7⟩

def sampleScript : Script :=
  ⟨true, 5, 10, 3⟩

def sampleOutcome : Outcome :=
  ⟨false, true, false, true⟩

def emptyWorld : World :=
  ⟨fun _ => none, fun _ => none⟩

/-- A run commits, a second one aborts, a third one crashes with the old
archive moved away, and a fourth one commits. -/
def sampleEvents : List Event :=
  [.call 0 (.load sampleCache sampleScript) none,
    .call 0 (.begin sampleCache sampleScript true true) none,
    .call 0 (.commit sampleCache sampleOutcome) none,
    .call 1 (.begin sampleCache sampleScript true true) none,
    .call 1 .abort none,
    .call 2 (.load sampleCache { sampleScript with hash := 6 }) none,
    .call 2 (.begin sampleCache sampleScript true true) (some 2),
    .call 3 (.begin sampleCache sampleScript true true) none,
    .call 3 (.commit sampleCache sampleOutcome) none,
    .call 3 (.revert sampleCache true) none]

theorem good_archive_kept_sample :
    (history emptyWorld sampleEvents).getLast?.map (fun disk => decide (Good disk)) =
        some true ∧
      (emptyWorld.disk :: history emptyWorld sampleEvents).Pairwise
        fun before after => Good before → Good after :=
  ⟨by decide, (good_archive_kept emptyWorld sampleEvents (by decide)).1⟩

/-- A run commits, a second one crashes while it executes, and the load of a
third one moves what is left over the backup. -/
theorem writing_moved_over_backup :
    ¬∀ (world : World) (events : List Event),
      (world.disk :: history world events).Pairwise
        fun before after => Good before → Good after := by
  intro all
  have kept := all emptyWorld
    [.call 0 (.begin sampleCache sampleScript true true) none,
      .call 0 (.commit sampleCache sampleOutcome) none,
      .call 1 (.begin sampleCache sampleScript true true) none,
      .crash 1,
      .call 2 (.load sampleCache sampleScript) none]
  revert kept
  decide

end LRJS.Iome586
