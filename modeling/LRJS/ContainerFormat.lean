import LRJS.Archive
import LRJS.Lz4Safety
import LRJS.Lz4RoundTrip
import LRJS.Library.FixedFields

/-!
# The container format

`write_container` and `lr_iome586_load` (`lr_iome586.c`) on bytes.  The loader
logs its accesses to the file, to the block that it decompresses and to the
payload.  Allocation failures are left out.
-/

namespace LRJS.Containers

open Logged FixedFields
open Lz4 (Bytes)

def lr_iome586_hash64 (data : Bytes) : BitVec 64 :=
  data.foldl (fun h byte => (h ^^^ .ofNat 64 byte.toNat) * 0x100000001b3#64) 0xcbf29ce484222325#64

def fnv1a_32 (data : Bytes) : BitVec 32 :=
  data.foldl (fun h byte => (h ^^^ .ofNat 32 byte.toNat) * 0x01000193#32) 0x811c9dc5#32

def crc_turn (c : BitVec 32) : BitVec 32 :=
  if c.getLsbD 0 = true then 0xEDB88320#32 ^^^ (c >>> 1) else c >>> 1

/-- `table`, at the place of a byte. -/
def crc_table (i : BitVec 32) : BitVec 32 :=
  crc_turn (crc_turn (crc_turn (crc_turn (crc_turn (crc_turn (crc_turn (crc_turn i)))))))

def lr_iome586_crc32 (data : Bytes) : BitVec 32 :=
  data.foldl (fun crc byte =>
    crc_table ((crc ^^^ .ofNat 32 byte.toNat) &&& 0xFF#32) ^^^ (crc >>> 8)) 0xFFFFFFFF#32 ^^^
      0xFFFFFFFF#32

def ascii (text : String) : Bytes :=
  text.toList.map fun letter => UInt8.ofNat letter.toNat

def LR_JS_VERSION_STRING : Bytes :=
  ascii "0.2.0"

def engine_version_id : BitVec 32 :=
  fnv1a_32 LR_JS_VERSION_STRING

def xor_key (data : Bytes) (key : BitVec 64) : Bytes :=
  data.mapIdx fun i byte => byte ^^^ (LittleEndian.put 8 key.toNat).getD (i % 8) 0

structure Entry where
  name : Bytes
  data : Bytes
  plain : ∀ letter ∈ name, letter ≠ 0
  deriving DecidableEq

def entry_add (entry : Entry) : Bytes :=
  LittleEndian.put 2 entry.name.length ++
    (entry.name ++ (put_u32 entry.data.length ++ entry.data))

def payload (entries : List Entry) : Bytes :=
  entries.flatMap entry_add

inductive Kind where
  | «meta»
  | path
  | config
  | init
  | state
  | ast
  | nodes
  | globals
  | bytecode
  | mir
  deriving DecidableEq

def Kind.all : List Kind :=
  [.meta, .path, .config, .init, .state, .ast, .nodes, .globals, .bytecode, .mir]

def Kind.name : Kind → Bytes
  | .meta => ascii "meta"
  | .path => ascii "path"
  | .config => ascii "config"
  | .init => ascii "init"
  | .state => ascii "state"
  | .ast => ascii "ast"
  | .nodes => ascii "nodes"
  | .globals => ascii "globals"
  | .bytecode => ascii "bytecode"
  | .mir => ascii "mir"

/-- `"IOME586\0"`. -/
def magic : Bytes :=
  ascii "IOME586" ++ [0]

def LR_IOME586_CONTAINER_VERSION : Nat := 1

def LR_IOME586_STATUS_ARCHIVED : Nat := 2

/-- The bit of `LR_IOME586_FLAG_COMPRESSED`. -/
def FLAG_COMPRESSED : Nat := 2

/-- The bit of `LR_IOME586_FLAG_KEYED`. -/
def FLAG_KEYED : Nat := 3

/-- A script; `mtime` is 0 if there is no file. -/
structure Script where
  /-- The path is given, and does not begin with `<`. -/
  named : Bool
  mtime : Nat
  src : Bytes
  mtime_fits : mtime < 2 ^ 63

/-- What goes into an archive beside its entries.  `desc` is the text of the archive comment. -/
structure Writing where
  script : Script
  strict : Bool
  is_module : Bool
  created_at : Nat
  opt_ratio : Nat
  desc : Bytes
  desc_fits : desc.length < 768
  compression : Bool
  enough : Nat → Nat → Bool
  enough_shrinks : ∀ compressed original, 256 < original → enough compressed original = true →
    compressed + 4 ≤ original

namespace Writing

variable (w : Writing)

def flags (compressed : Bool) : Nat :=
  (if w.strict = true then 1 else 0) + (if w.is_module = true then 2 else 0) +
    (if compressed = true then 4 else 0)

def pack (raw : Bytes) : Bytes × Bool :=
  if w.compression = true ∧ 256 < raw.length then Lz4.lr_compress_if_beneficial w.enough raw
  else (raw, false)

def fields (raw stored : Bytes) (compressed : Bool) : List (Nat × Nat) :=
  [(4, LR_IOME586_CONTAINER_VERSION), (4, engine_version_id.toNat),
    (4, LR_IOME586_STATUS_ARCHIVED), (4, w.flags compressed), (8, w.created_at),
    (8, (lr_iome586_hash64 w.script.src).toNat),
    (8, if w.script.named = true then w.script.mtime else 0), (8, w.script.src.length),
    (4, w.opt_ratio), (4, (lr_iome586_crc32 raw).toNat), (4, stored.length), (4, raw.length),
    (4, w.desc.length)]

/-- `write_container`, with the status ARCHIVED. -/
def write_container (raw : Bytes) : Bytes :=
  let (stored, compressed) := w.pack raw
  magic ++ (putFields (w.fields raw stored compressed) ++ (w.desc ++ stored))

end Writing

inductive Access where
  | file (start length : Nat)
  | block (size capacity : Nat) (access : Lz4.Access)
  | raw (size start length : Nat)
  deriving DecidableEq

structure Header where
  container_version : Nat
  engine_version : Nat
  status : Nat
  flags : Nat
  created_at : Nat
  source_hash : Nat
  source_mtime : Nat
  source_size : Nat
  opt_ratio : Nat
  checksum : Nat
  stored_len : Nat
  raw_len : Nat
  desc_len : Nat
  deriving DecidableEq

def widths : List Nat :=
  [4, 4, 4, 4, 8, 8, 8, 8, 4, 4, 4, 4, 4]

def headerEnd : Nat := 76

/-- The fields of a header; a file that ends before the last one fails the test of the lengths
whatever stands there. -/
def readHeader (fdata : Bytes) : Header :=
  let fields := getFields widths (fdata.drop 8)
  ⟨fields.getD 0 0, fields.getD 1 0, fields.getD 2 0, fields.getD 3 0, fields.getD 4 0,
    fields.getD 5 0, fields.getD 6 0, fields.getD 7 0, fields.getD 8 0, fields.getD 9 0,
    fields.getD 10 0, fields.getD 11 0, fields.getD 12 0⟩

/-- `LR_Iome586Manifest`; `entries` is what the loop over the payload comes to, with the names as
the loader reads them. -/
structure Manifest where
  header : Header
  desc : Bytes
  data : Kind → Option Bytes
  entries : List Entry

inductive Outcome where
  | corrupt
  | stale
  /-- There is no entry `ast`. -/
  | incomplete
  | loaded (mf : Manifest)

/-- The chain of `strcmp`. -/
def kindOf (name : Bytes) : Option Kind :=
  Kind.all.find? fun kind => kind.name = name

def assign (data : Kind → Option Bytes) (entry : Entry) : Kind → Option Bytes :=
  match kindOf entry.name with
  | none => data
  | some kind => Function.update data kind (some entry.data)

def parseEntries (size : Nat) : Nat → Bytes → Course Access (List Entry)
  | 0, _ => .diverge
  | fuel + 1, rest =>
    if rest.length < 6 then .done []
    else
      .log (.raw size (size - rest.length) 2) <|
      let nlen := LittleEndian.get (rest.take 2)
      let rest := rest.drop 2
      if rest.length < nlen + 4 then .done []
      else
        .log (.raw size (size - rest.length) (min nlen 63)) <|
        let name := rest.take (min nlen 63)
        let rest := rest.drop nlen
        .log (.raw size (size - rest.length) 4) <|
        let dlen := LittleEndian.get (rest.take 4)
        let rest := rest.drop 4
        if rest.length < dlen then .done []
        else
          .log (.raw size (size - rest.length) dlen) <|
          (parseEntries size fuel (rest.drop dlen)).andThen fun entries =>
            .done (⟨c_string name, rest.take dlen, c_string_storable name⟩ :: entries)

def finish (h : Header) (desc raw : Bytes) : Course Access Outcome :=
  if (lr_iome586_crc32 raw).toNat ≠ h.checksum then .done .corrupt
  else
    (parseEntries raw.length (raw.length + 1) raw).andThen fun entries =>
      let data := entries.foldl assign fun _ => none
      .done (if data .ast = none then .incomplete else .loaded ⟨h, desc, data, entries⟩)

/-- A decompressed payload, or `NULL`. -/
def finish_decompressed (h : Header) (desc : Bytes) : Option Bytes → Course Access Outcome
  | none => .done .corrupt
  | some raw => if raw.length ≠ h.raw_len then .done .corrupt else finish h desc raw

def onBlock {Value : Type} (size capacity : Nat) (run : Course Lz4.Access Value) :
    Course Access Value :=
  ⟨run.events.map (.block size capacity), run.result⟩

def Stale (script : Script) (h : Header) : Prop :=
  h.container_version ≠ LR_IOME586_CONTAINER_VERSION ∨
    h.engine_version ≠ engine_version_id.toNat ∨ h.status ≠ LR_IOME586_STATUS_ARCHIVED ∨
    h.source_hash ≠ (lr_iome586_hash64 script.src).toNat ∨
    h.source_size ≠ script.src.length % 2 ^ 64 ∨
    script.named = true ∧ h.source_mtime ≠ 0 ∧ 0 < script.mtime ∧ script.mtime ≠ h.source_mtime

instance (script : Script) (h : Header) : Decidable (Stale script h) :=
  inferInstanceAs (Decidable (_ ∨ _))

def storedPayload (script : Script) (fdata : Bytes) : Bytes :=
  let h := readHeader fdata
  let stored := (fdata.drop (headerEnd + h.desc_len)).take h.stored_len
  if h.flags.testBit FLAG_KEYED = true then xor_key stored (lr_iome586_hash64 script.src)
  else stored

/-- `lr_iome586_load` of a file; `fresh` is what stands in the buffer of the decompressor. -/
def lr_iome586_load (fresh : Nat → UInt8) (script : Script) (fdata : Bytes) :
    Course Access Outcome :=
  if fdata.length < 8 + 4 * 4 + 8 * 4 + 4 * 4 then .done .corrupt
  else
    .log (.file 0 8) <|
    if fdata.take 8 ≠ magic then .done .corrupt
    else
      .log (.file 8 68) <|
      let h := readHeader fdata
      if Stale script h then .done .stale
      else if fdata.length < headerEnd + h.desc_len + h.stored_len then .done .corrupt
      else
        .log (.file headerEnd h.desc_len) <|
        let desc := (fdata.drop headerEnd).take h.desc_len
        .log (.file (headerEnd + h.desc_len) h.stored_len) <|
        let stored := storedPayload script fdata
        if h.flags.testBit FLAG_COMPRESSED = true then
          (onBlock (stored.length - 4) (Lz4.storedLength stored)
            (Lz4.lr_decompress_if_needed fresh stored true)).andThen (finish_decompressed h desc)
        else
          finish h desc stored

end LRJS.Containers
