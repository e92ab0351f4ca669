import LRJS.ArchiveCrashes

/-!
# Interleaved runs

Runs of one script whose file operations interleave.  As long as nobody changes
a file, or begins to write, while another run is between its begin and its
commit or abort, the archive is complete in the end, and no abort removes or
overwrites a complete one.
-/

namespace LRJS.Iome586

open Interaction Function
open Interaction.Program (Along Everywhere)

def Access.within (access : Access) : Bool :=
  match access.phase with
  | .begin | .commit | .abort => true
  | .load | .revert => false

def Access.quiet (access : Access) : Bool :=
  match access.op with
  | .file_exists _ | .read_all _ => true
  | .remove _ | .rename _ _ | .write_all _ _ _ => false

def discipline : Discipline Disk Access Access.Answer where
  perform := perform
  within := Access.within
  quiet := Access.quiet
  same_of_quiet access disk quiet := by
    obtain ⟨phase, op⟩ := access
    cases op with
    | file_exists path => rfl
    | read_all path => rfl
    | remove path => cases quiet
    | rename src dst => cases quiet
    | write_all path data fits => cases quiet

def Settled (disk : Disk) : Prop :=
  (disk .final = none ∨ Complete (disk .final)) ∧ (disk .alt = none ∨ Complete (disk .alt))

def Spares (disk : Disk) (access : Access) : Prop :=
  access.phase = .abort →
    match access.op with
    | .file_exists _ | .read_all _ => True
    | .remove path | .rename _ path | .write_all path _ _ => ¬Complete (disk path)

variable {Name : Type} [DecidableEq Name]

def runPool (runs : Name → Run) (disk : Disk) : Pool Name Disk Access Access.Answer Int :=
  ⟨disk, fun name => ⟨false, lr_exec_file_cached (runs name)⟩⟩

def Committed (run : Run) (data : Contents) : Prop :=
  ∃ have_bak, data = (run.script.writer have_bak).archived run.cache run.outcome

/-- Aborts spare complete archives, and once all runs have finished, the archive is absent, or one
that a run has committed, or an older one. -/
def KeepsArchives (runs : Name → Run) (disk : Disk) (schedule : List Name) : Prop :=
  Runs.Throughout (Interaction.step discipline) (Next Spares) (runPool runs disk) schedule ∧
    ∀ reached, Runs.after (Interaction.step discipline) (runPool runs disk) schedule =
      some reached → (∀ name, (reached.threads name).rest.finished = true) →
        ∀ data ∈ reached.state .final, data.complete = true ∧
          ((∃ path, disk path = some data) ∨ ∃ name, Committed (runs name) data)

instance (disk : Disk) : Decidable (Settled disk) :=
  inferInstanceAs (Decidable (_ ∧ _))

variable {disk : Disk}

theorem Settled.remove (settled : Settled disk) (path : File) :
    Settled (Function.update disk path none) := by
  cases path with
  | final => exact ⟨.inl rfl, settled.2⟩
  | alt => exact ⟨settled.1, .inl rfl⟩
  | bak => exact settled

theorem Settled.rename (settled : Settled disk) (phase : Phase) {src : File}
    (different : src ≠ .bak) : Settled (perform ⟨phase, .rename src .bak⟩ disk).2 := by
  unfold perform
  simp only [FileOp.perform]
  split
  · exact settled
  · rename_i data found
    cases src with
    | final => exact ⟨.inl rfl, settled.2⟩
    | alt => exact ⟨settled.1, .inl rfl⟩
    | bak => exact absurd rfl different

variable {phase : Phase}

theorem spares_of_ne {op : FileOp} (other : phase ≠ .abort) : Spares disk ⟨phase, op⟩ :=
  fun same => absurd same other

variable {c : LR_Iome586Cache} {script : Script}

/-- Examining a path is safe in every settled state, and settles the disk again. -/
theorem ready_examine {path : File} {fdata : Contents} (different : path ≠ .bak) :
    Ready discipline Settled Spares (fun _ => True) (examine c script path fdata) := by
  have removes : ∀ disk path, Settled disk → Spares disk ⟨.load, .remove path⟩ ∧
      Settled (perform ⟨.load, .remove path⟩ disk).2 := fun disk path settled =>
    ⟨spares_of_ne (by decide), settled.remove path⟩
  unfold examine
  split
  · trivial
  · trivial
  · exact ready_change rfl rfl (fun disk settled => removes disk path settled) fun _ => trivial
  · apply ready_change rfl rfl fun disk settled => removes disk .bak settled
    intro _
    apply ready_change rfl rfl
    · intro disk settled
      exact ⟨spares_of_ne (by decide), settled.rename .load different⟩
    · intro moved
      cases moved with
      | true => trivial
      | false =>
        exact ready_change rfl rfl (fun disk settled => removes disk path settled)
          fun _ => trivial

theorem ready_load (c : LR_Iome586Cache) (script : Script) :
    Ready discipline Settled Spares (fun _ => True) (lr_iome586_load c script) := by
  unfold lr_iome586_load
  split
  · trivial
  apply ready_quiet rfl rfl fun _ => spares_of_ne (by decide)
  intro found
  cases found with
  | some fdata => exact ready_examine (by decide)
  | none =>
    apply ready_quiet rfl rfl fun _ => spares_of_ne (by decide)
    intro found
    cases found with
    | some fdata => exact ready_examine (by decide)
    | none => trivial

/-- The disk while a run is inside: its own container, and the old archive as
the backup that it knows of. -/
structure Opened (w : LR_Iome586Writer) (disk : Disk) : Prop where
  final : ¬Complete (disk .final)
  alt : disk .alt = none ∨ Complete (disk .alt)
  bak : w.have_bak = true → Complete (disk .bak)

theorem along_move_to_bak (other : phase ≠ .abort) {src : File}
    (different : src ≠ .bak) {data : Contents} (found : disk src = some data) :
    (move_file phase src .bak).Along perform Spares
      (fun moved after => moved = true ∧
        after = Function.update (Function.update disk .bak (some data)) src none) disk := by
  exact along_move_file different found (spares_of_ne other) (spares_of_ne other) ⟨rfl, rfl⟩

/-- Behind `keep_previous` the final path is free, and a backup it reports is complete. -/
theorem along_keep_previous (settled : Settled disk) :
    keep_previous.Along perform Spares
      (fun have_bak after => after .final = none ∧
        (after .alt = none ∨ Complete (after .alt)) ∧
          (have_bak = true → Complete (after .bak))) disk := by
  refine ⟨spares_of_ne (by decide), ?_⟩
  change Along perform Spares _ (if (disk .final).isSome = true then _ else _) disk
  cases final : disk .final with
  | some data =>
    apply (along_move_to_bak (by decide) (by decide) final).mono fun _ _ here => here
    rintro moved after ⟨_, rfl⟩
    refine ⟨rfl, settled.2, fun _ => ?_⟩
    exact final ▸ settled.1.resolve_left fun absent =>
      Option.some_ne_none data (final.symm.trans absent)
  | none =>
    refine ⟨spares_of_ne (by decide), ?_⟩
    change Along perform Spares _ (if (disk .alt).isSome = true then _ else _) disk
    cases alt : disk .alt with
    | some data =>
      apply (along_move_to_bak (by decide) (by decide) alt).mono fun _ _ here => here
      rintro moved after ⟨_, rfl⟩
      refine ⟨final, .inl rfl, fun _ => ?_⟩
      exact alt ▸ settled.2.resolve_left fun absent =>
        Option.some_ne_none data (alt.symm.trans absent)
    | none => exact ⟨final, .inl alt, fun same => by cases same⟩

theorem along_move_back (final : ¬Complete (disk .final))
    (alt : disk .alt = none ∨ Complete (disk .alt)) (bak : Complete (disk .bak)) :
    (move_file phase .bak .final).Along perform Spares (fun _ after => Settled after) disk := by
  obtain ⟨data, found, complete⟩ := bak
  apply along_move_file (by decide) found (fun _ => final)
  · intro _
    exact not_complete_none
  · exact ⟨.inr (complete_some.mpr complete), alt⟩

theorem along_roll_back {w : LR_Iome586Writer} (opened : Opened w disk) :
    (roll_back phase w).Along perform Spares (fun _ after => Settled after) disk := by
  refine ⟨fun _ => opened.final, ?_⟩
  split_ifs with have_bak
  · have removed : ¬Complete (update disk .final none .final) := by
      exact not_complete_none
    exact (along_move_back removed opened.alt (opened.bak have_bak)).bind
      fun _ _ settled => settled
  · exact ⟨.inl rfl, opened.alt⟩

theorem along_write_first {fits have_bak : Bool} (final : disk .final = none)
    (alt : disk .alt = none ∨ Complete (disk .alt)) (bak : have_bak = true → Complete (disk .bak)) :
    (write_first c script fits have_bak).Along perform Spares
      (fun active after => active.elim (Settled after) fun w => Opened w after) disk := by
  refine ⟨spares_of_ne (by decide), ?_⟩
  cases fits with
  | true =>
    refine ⟨fun complete => ?_, alt, bak⟩
    exact Bool.false_ne_true (complete_some.mp complete)
  | false =>
    split_ifs with kept
    · exact (along_move_back (final ▸ not_complete_none) alt (bak kept)).bind
        fun _ _ settled => settled
    · exact ⟨.inl final, alt⟩

theorem along_begin {ast_bc fits : Bool} (settled : Settled disk) :
    (lr_iome586_begin c script ast_bc fits).Along perform Spares
      (fun active after => active.elim (Settled after) fun w => Opened w after) disk := by
  unfold lr_iome586_begin
  split
  · exact settled
  · exact (along_keep_previous settled).bind fun _ _ kept =>
      along_write_first kept.1 kept.2.1 kept.2.2

theorem along_commit {w : LR_Iome586Writer} {outcome : Outcome} (opened : Opened w disk) :
    (lr_iome586_commit c w outcome).Along perform Spares (fun _ after => Settled after) disk := by
  unfold lr_iome586_commit
  split
  · exact (along_roll_back opened).bind fun _ _ settled => settled
  · refine ⟨spares_of_ne (by decide), ?_⟩
    cases outcome.fits with
    | true => exact ⟨.inr (complete_some.mpr rfl), opened.alt⟩
    | false => exact (along_roll_back opened).bind fun _ _ settled => settled

theorem along_exec_cold {run : Run} (settled : Settled disk) :
    (exec_cold run true).Along perform Spares (fun _ after => Settled after ∧ True) disk := by
  apply (along_begin settled).bind
  intro active after begun
  cases active with
  | none => exact ⟨begun, trivial⟩
  | some w =>
    split
    · exact (along_roll_back begun).bind fun _ _ settled => ⟨settled, trivial⟩
    · exact (along_commit begun).bind fun _ _ settled => ⟨settled, trivial⟩

theorem ready_exec_cold (run : Run) (bc : Bool) :
    Ready discipline Settled Spares (fun _ => True) (exec_cold run bc) := by
  cases bc with
  | false => trivial
  | true =>
    have along : ∀ disk, Settled disk → (exec_cold run true).Along perform Spares
        (fun _ after => Settled after ∧ True) disk :=
      fun _ settled => along_exec_cold settled
    unfold exec_cold lr_iome586_begin at along ⊢
    rw [if_pos rfl] at along ⊢
    split
    · trivial
    · rename_i goes_on
      rw [if_neg goes_on] at along
      exact ready_section rfl along

theorem ready_exec (run : Run) :
    Ready discipline Settled Spares (fun _ => True) (lr_exec_file_cached run) := by
  apply (ready_load run.cache run.script).bind
  intro mf _
  split
  · trivial
  · cases run.unit with
    | none => trivial
    | some bc => exact ready_exec_cold run bc

def Writes (run : Run) (access : Access) : Prop :=
  ∀ path data fits, access.op = .write_all path data fits → data.complete = true →
    Committed run data

section Written

variable {run : Run} {phase : Phase}

theorem writes_file_exists {path : File} : Writes run ⟨phase, .file_exists path⟩ :=
  fun _ _ _ same => by cases same

theorem writes_read_all {path : File} : Writes run ⟨phase, .read_all path⟩ :=
  fun _ _ _ same => by cases same

theorem writes_remove {path : File} : Writes run ⟨phase, .remove path⟩ :=
  fun _ _ _ same => by cases same

theorem writes_rename {src dst : File} : Writes run ⟨phase, .rename src dst⟩ :=
  fun _ _ _ same => by cases same

theorem everywhere_move_file {src dst : File} :
    (move_file phase src dst).Everywhere (Writes run) fun _ => True :=
  ⟨writes_remove, fun _ => ⟨writes_rename, fun _ => trivial⟩⟩

theorem everywhere_roll_back {w : LR_Iome586Writer} :
    (roll_back phase w).Everywhere (Writes run) fun _ => True := by
  refine ⟨writes_remove, fun _ => ?_⟩
  split
  · exact everywhere_move_file.bind fun _ _ => trivial
  · trivial

/-- A `load` writes only what some run has produced. -/
theorem everywhere_load (c : LR_Iome586Cache) (script : Script) :
    (lr_iome586_load c script).Everywhere (Writes run) fun _ => True := by
  have examined : ∀ path fdata,
      (examine c script path fdata).Everywhere (Writes run) fun _ => True := by
    intro path fdata
    unfold examine
    split
    · trivial
    · trivial
    · exact ⟨writes_remove, fun _ => trivial⟩
    · apply everywhere_move_file.bind
      intro moved _
      split
      · trivial
      · exact ⟨writes_remove, fun _ => trivial⟩
  unfold lr_iome586_load
  split
  · trivial
  refine ⟨writes_read_all, fun found => ?_⟩
  cases found with
  | some fdata => exact examined .final fdata
  | none =>
    refine ⟨writes_read_all, fun found => ?_⟩
    cases found with
    | some fdata => exact examined .alt fdata
    | none => trivial

theorem everywhere_keep_previous : keep_previous.Everywhere (Writes run) fun _ => True := by
  refine ⟨writes_file_exists, fun found => ?_⟩
  cases found with
  | true => exact everywhere_move_file
  | false =>
    refine ⟨writes_file_exists, fun found => ?_⟩
    cases found with
    | true => exact everywhere_move_file
    | false => trivial

theorem everywhere_begin (c : LR_Iome586Cache) (script : Script) (ast_bc fits : Bool) :
    (lr_iome586_begin c script ast_bc fits).Everywhere (Writes run)
      fun active => ∀ w ∈ active, ∃ have_bak, w = script.writer have_bak := by
  unfold lr_iome586_begin
  split
  · exact fun w member => by cases member
  apply everywhere_keep_previous.bind
  intro have_bak _
  refine ⟨fun path data fits same complete => ?_, fun wrote => ?_⟩
  · cases same
    cases complete
  cases wrote with
  | true =>
    intro w member
    cases member
    exact ⟨have_bak, rfl⟩
  | false =>
    split
    · exact everywhere_move_file.bind fun _ _ w member => by cases member
    · exact fun w member => by cases member

/-- A cold run writes only what it has produced. -/
theorem everywhere_exec_cold (bc : Bool) :
    (exec_cold run bc).Everywhere (Writes run) fun _ => True := by
  cases bc with
  | false => trivial
  | true =>
    apply (everywhere_begin run.cache run.script true run.begin_fits).bind
    intro active begun
    cases active with
    | none => trivial
    | some w =>
      obtain ⟨have_bak, rfl⟩ := begun w rfl
      split
      · exact everywhere_roll_back.bind fun _ _ => trivial
      · have committed : (lr_iome586_commit run.cache (run.script.writer have_bak)
            run.outcome).Everywhere (Writes run) fun _ => True := by
          unfold lr_iome586_commit
          split
          · exact everywhere_roll_back.bind fun _ _ => trivial
          · refine ⟨fun path data fits same _ => ?_, fun wrote => ?_⟩
            · cases same
              exact ⟨have_bak, rfl⟩
            cases wrote with
            | true => trivial
            | false => exact everywhere_roll_back.bind fun _ _ => trivial
        exact committed.bind fun _ _ => trivial

theorem everywhere_exec (run : Run) :
    (lr_exec_file_cached run).Everywhere (Writes run) fun _ => True := by
  apply (everywhere_load run.cache run.script).bind
  intro mf _
  split
  · trivial
  · cases run.unit with
    | none => trivial
    | some bc => exact everywhere_exec_cold bc

end Written

def Known (runs : Name → Run) (before disk : Disk) : Prop :=
  ∀ path data, disk path = some data → data.complete = true →
    (∃ path, before path = some data) ∨ ∃ name, Committed (runs name) data

omit [DecidableEq Name] in
/-- Archives of known runs stay known under the accesses of all processes. -/
theorem known_perform {runs : Name → Run} {before : Disk} {name : Name} {access : Access}
    (writes : Writes (runs name) access) (known : Known runs before disk) :
    Known runs before (perform access disk).2 := by
  obtain ⟨phase, op⟩ := access
  have removed : ∀ {disk : Disk} path, Known runs before disk →
      Known runs before (update disk path none) := by
    intro disk path known other data found complete
    by_cases same : other = path
    · rw [same, update_self] at found
      cases found
    · rw [update_of_ne same] at found
      exact known other data found complete
  have stored : ∀ {disk : Disk} path data, Known runs before disk →
      (data.complete = true → (∃ path, before path = some data) ∨
        ∃ name, Committed (runs name) data) →
      Known runs before (update disk path (some data)) := by
    intro disk path data known here other data' found complete
    by_cases same : other = path
    · rw [same, update_self] at found
      cases found
      exact here complete
    · rw [update_of_ne same] at found
      exact known other data' found complete
  cases op with
  | file_exists path | read_all path => exact known
  | remove path => exact removed path known
  | rename src dst =>
    cases found : disk src with
    | none =>
      simp only [perform, FileOp.perform, found]
      exact known
    | some data =>
      simp only [perform, FileOp.perform, found]
      exact removed src (stored dst data known (known src data found))
  | write_all path data fits =>
    cases fits with
    | false => exact known
    | true =>
      exact stored path data known fun complete =>
        .inr ⟨name, writes path data true rfl complete⟩

/-- Runs whose sections nobody disturbs keep their archives. -/
theorem runs_keep_archives (runs : Name → Run) (disk : Disk) (schedule : List Name)
    (settled : Settled disk)
    (alone : Runs.Throughout (Interaction.step discipline) (Alone discipline)
      (runPool runs disk) schedule) : KeepsArchives runs disk schedule := by
  have orderly : Orderly discipline Settled Spares (fun _ _ => True) (runPool runs disk) :=
    Orderly.of_ready settled fun name => ready_exec (runs name)
  refine ⟨orderly.throughout alone, fun reached arrives finished data member => ?_⟩
  have settled := (orderly.after alone arrives).idle_of_finished finished
  have keeps : ∀ name access before, Writes (runs name) access → Known runs disk before →
      Known runs disk (discipline.perform access before).2 :=
    fun _ _ _ writes known => known_perform writes known
  have before : Known runs disk (runPool runs disk).state :=
    fun path data found _ => .inl ⟨path, found⟩
  have known : Known runs disk reached.state :=
    after_of_everywhere keeps (fun name => everywhere_exec (runs name)) before arrives
  have complete : data.complete = true := by
    cases settled.1 with
    | inl absent => exact absurd (absent.symm.trans member) (Option.some_ne_none data).symm
    | inr complete =>
      rw [Option.mem_def.mp member] at complete
      exact complete_some.mp complete
  exact ⟨complete, known .final data member complete⟩

def sampleRun (throws : Bool) : Run :=
  ⟨sampleCache, sampleScript, false, some true, true, throws, sampleOutcome⟩

/-- The second run looks for an archive while the first one writes it, and then
begins and throws. -/
theorem runs_keep_archives_sample :
    (Runs.after (Interaction.step discipline) (runPool sampleRun fun _ => none)
        [false, false, false, true, false, false, true, false,
          true, true, true, true, true, true, true]).map
      (fun pool => (pool.threads false).rest.finished && (pool.threads true).rest.finished) =
        some true ∧
      KeepsArchives sampleRun (fun _ => none) [false, false, false, true, false, false, true, false,
          true, true, true, true, true, true, true] :=
  ⟨by decide, runs_keep_archives sampleRun (fun _ => none) _ (by decide) (by decide)⟩

/-- The second run begins inside the first: it moves the incomplete container to the backup, and its
abort removes the complete one. -/
theorem abort_removes_committed :
    ¬∀ (runs : Bool → Run) (disk : Disk) (schedule : List Bool), Settled disk →
      KeepsArchives runs disk schedule := by
  intro all
  have kept := all sampleRun (fun _ => none)
    [false, false, true, true, false, false, false, true, true, true, true, false,
      true, true, true] (by decide)
  have ends := kept.2 _ (Option.some_get (by decide)).symm (by decide)
    ((sampleScript.writer false).writing sampleCache) (by decide)
  exact Bool.false_ne_true ends.1

end LRJS.Iome586
