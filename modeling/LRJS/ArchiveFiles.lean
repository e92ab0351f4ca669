import LRJS.Library.Interaction

/-!
# Archive files

The result cache of one script (`lr_iome586.c`) and the run of a script that
uses it, as programs of operations on the three files that go by the name of
the script: the archive, its older spelling, and the backup.
-/

namespace LRJS.Iome586

open Interaction (Program)

def LR_IOME586_CONTAINER_VERSION : Nat := 1

def LR_IOME586_STATUS_WRITING : Nat := 1

def LR_IOME586_STATUS_ARCHIVED : Nat := 2

/-- What the loader reads of a container.  The payload is the names of its entries, when all checks
succeed. -/
structure Container where
  container_version : Nat
  engine_version : Nat
  status : Nat
  source_hash : Nat
  source_mtime : Int
  source_size : Nat
  payload : Option (List String)
  deriving DecidableEq

inductive Contents where
  | empty
  | garbage
  | container (header : Container)
  deriving DecidableEq

/-- `.lrfile`, `.lrfile.lz4` and the backup. -/
inductive File where
  | final
  | alt
  | bak
  deriving DecidableEq

abbrev Disk :=
  File → Option Contents

/-- Each operation takes effect as a whole; `fits` says if a write has room. -/
inductive FileOp where
  | file_exists (path : File)
  | read_all (path : File)
  | remove (path : File)
  | rename (src dst : File)
  | write_all (path : File) (data : Contents) (fits : Bool)

inductive Phase where
  | load
  | begin
  | commit
  | abort
  | revert
  deriving DecidableEq

structure Access where
  phase : Phase
  op : FileOp

def FileOp.Answer : FileOp → Type
  | .file_exists _ => Bool
  | .read_all _ => Option Contents
  | .remove _ => Unit
  | .rename _ _ => Bool
  | .write_all _ _ _ => Bool

def Access.Answer (access : Access) : Type :=
  access.op.Answer

/-- `read_all` gives nothing for an empty file. -/
def readable : Option Contents → Option Contents
  | some .empty => none
  | found => found

def FileOp.perform : (op : FileOp) → Disk → op.Answer × Disk
  | .file_exists path, disk => ((disk path).isSome, disk)
  | .read_all path, disk => (readable (disk path), disk)
  | .remove path, disk => ((), Function.update disk path none)
  | .rename src dst, disk =>
    match disk src with
    | none => (false, disk)
    | some data => (true, Function.update (Function.update disk dst (some data)) src none)
  | .write_all path data fits, disk =>
    if fits then (true, Function.update disk path (some data)) else (false, disk)

def perform (access : Access) (disk : Disk) : access.Answer × Disk :=
  access.op.perform disk

abbrev Files (Value : Type) :=
  Program Access Access.Answer Value

def file_exists (phase : Phase) (path : File) : Files Bool :=
  .act ⟨phase, .file_exists path⟩ .done

def read_all (phase : Phase) (path : File) : Files (Option Contents) :=
  .act ⟨phase, .read_all path⟩ .done

def remove (phase : Phase) (path : File) : Files Unit :=
  .act ⟨phase, .remove path⟩ .done

def rename (phase : Phase) (src dst : File) : Files Bool :=
  .act ⟨phase, .rename src dst⟩ .done

def write_all (phase : Phase) (path : File) (data : Contents) (fits : Bool) : Files Bool :=
  .act ⟨phase, .write_all path data fits⟩ .done

def move_file (phase : Phase) (src dst : File) : Files Bool := do
  remove phase dst
  rename phase src dst

structure LR_Iome586Cache where
  enabled : Bool
  cache_dir : Bool
  /-- `engine_version_id` of this build. -/
  engine_version : Nat
  deriving DecidableEq

structure Script where
  /-- There is a path, and it does not begin with `<`. -/
  has_path : Bool
  hash : Nat
  src_len : Nat
  /-- `file_mtime`: 0 where it fails. -/
  mtime : Int
  deriving DecidableEq

structure LR_Iome586Writer where
  hash : Nat
  mtime : Int
  src_size : Nat
  have_bak : Bool
  deriving DecidableEq

/-- The writer that `lr_iome586_begin` fills in. -/
def Script.writer (script : Script) (have_bak : Bool) : LR_Iome586Writer where
  hash := script.hash
  mtime := if script.has_path then script.mtime else 0
  src_size := script.src_len
  have_bak := have_bak

/-- The container that `write_container` puts together. -/
def container (c : LR_Iome586Cache) (w : LR_Iome586Writer) (status : Nat)
    (entries : List String) : Container where
  container_version := LR_IOME586_CONTAINER_VERSION
  engine_version := c.engine_version
  status := status
  source_hash := w.hash
  source_mtime := w.mtime
  source_size := w.src_size
  payload := some entries

def keep_previous : Files Bool := do
  if ← file_exists .begin .final then
    move_file .begin .final .bak
  else if ← file_exists .begin .alt then
    move_file .begin .alt .bak
  else
    return false

def LR_Iome586Writer.writing (c : LR_Iome586Cache) (w : LR_Iome586Writer) : Contents :=
  .container (container c w LR_IOME586_STATUS_WRITING ["meta", "path", "ast"])

def write_first (c : LR_Iome586Cache) (script : Script) (fits have_bak : Bool) :
    Files (Option LR_Iome586Writer) := do
  let w := script.writer have_bak
  if ← write_all .begin .final (w.writing c) fits then
    return some w
  else if have_bak then do
    let _ ← move_file .begin .bak .final
    return none
  else
    return none

/-- `lr_iome586_begin`: the writer, unless it gives up. -/
def lr_iome586_begin (c : LR_Iome586Cache) (script : Script) (ast_bc fits : Bool) :
    Files (Option LR_Iome586Writer) :=
  if !c.enabled || !c.cache_dir || !ast_bc then
    return none
  else do
    let have_bak ← keep_previous
    write_first c script fits have_bak

def roll_back (phase : Phase) (w : LR_Iome586Writer) : Files Unit := do
  remove phase .final
  if w.have_bak then
    let _ ← move_file phase .bak .final
    return ()
  else
    return ()

structure Outcome where
  /-- The gain is below `LR_IOME586_MIN_GAIN`. -/
  gain_below_min : Bool
  bc_data : Bool
  mir_data : Bool
  fits : Bool
  deriving DecidableEq

def LR_Iome586Writer.archived (c : LR_Iome586Cache) (w : LR_Iome586Writer) (outcome : Outcome) :
    Contents :=
  .container (container c w LR_IOME586_STATUS_ARCHIVED
    (["meta", "path", "config", "init", "ast", "nodes", "globals", "state"] ++
      (if outcome.bc_data then ["bytecode"] else []) ++
      if outcome.mir_data then ["mir"] else []))

/-- `lr_iome586_commit` of an active writer. -/
def lr_iome586_commit (c : LR_Iome586Cache) (w : LR_Iome586Writer) (outcome : Outcome) :
    Files Int :=
  if outcome.gain_below_min then do
    roll_back .commit w
    return 1
  else do
    if ← write_all .commit .final (w.archived c outcome) outcome.fits then
      return 0
    else do
      roll_back .commit w
      return -1

/-- `lr_iome586_abort` of an active writer. -/
def lr_iome586_abort (w : LR_Iome586Writer) : Files Unit :=
  roll_back .abort w

inductive Verdict where
  | stale
  | corrupt
  | miss
  | hit (mf : Container)
  deriving DecidableEq

/-- The checks of `lr_iome586_load` on what it has read. -/
def verdict (c : LR_Iome586Cache) (script : Script) : Contents → Verdict
  | .empty | .garbage => .corrupt
  | .container mf =>
    if mf.container_version ≠ LR_IOME586_CONTAINER_VERSION then .stale
    else if mf.engine_version ≠ c.engine_version then .stale
    else if mf.status ≠ LR_IOME586_STATUS_ARCHIVED then .stale
    else if mf.source_hash ≠ script.hash then .stale
    else if mf.source_size ≠ script.src_len then .stale
    else if script.has_path = true ∧ mf.source_mtime ≠ 0 ∧ 0 < script.mtime ∧
        script.mtime ≠ mf.source_mtime then .stale
    else
      match mf.payload with
      | none => .corrupt
      | some entries => if "ast" ∈ entries then .hit mf else .miss

/-- The rest of `lr_iome586_load`, from the data of a file on. -/
def examine (c : LR_Iome586Cache) (script : Script) (path : File) (fdata : Contents) :
    Files (Option Container) :=
  match verdict c script fdata with
  | .hit mf => return some mf
  | .miss => return none
  | .corrupt => do
      remove .load path
      return none
  | .stale => do
      if ← move_file .load path .bak then
        return none
      else do
        remove .load path
        return none

/-- `lr_iome586_load`: the container of a hit. -/
def lr_iome586_load (c : LR_Iome586Cache) (script : Script) : Files (Option Container) :=
  if !c.enabled || !c.cache_dir then
    return none
  else do
    match ← read_all .load .final with
    | some fdata => examine c script .final fdata
    | none =>
      match ← read_all .load .alt with
      | some fdata => examine c script .alt fdata
      | none => return none

def lr_iome586_revert (c : LR_Iome586Cache) (has_path : Bool) : Files Int :=
  if !c.enabled || !c.cache_dir || !has_path then
    return -1
  else do
    if ← file_exists .revert .bak then
      if ← move_file .revert .bak .final then
        return 0
      else
        return -1
    else
      return -1

structure Run where
  cache : LR_Iome586Cache
  script : Script
  warm : Bool
  unit : Option Bool
  begin_fits : Bool
  throws : Bool
  outcome : Outcome
  deriving DecidableEq

/-- The cold path of `lr_exec_file_cached`, behind the parser. -/
def exec_cold (run : Run) (bc : Bool) : Files Int := do
  match ← if bc then lr_iome586_begin run.cache run.script bc run.begin_fits else pure none with
  | none => return if run.throws then -1 else 0
  | some w =>
    if run.throws then do
      lr_iome586_abort w
      return -1
    else do
      let _ ← lr_iome586_commit run.cache w run.outcome
      return 0

def lr_exec_file_cached (run : Run) : Files Int := do
  let mf ← lr_iome586_load run.cache run.script
  if mf.isSome && run.warm then
    return 0
  else
    match run.unit with
    | none => return -1
    | some bc => exec_cold run bc

end LRJS.Iome586
