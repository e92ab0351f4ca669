import LRJS.ContainerParsing

/-!
# The integrity of containers

For each file the accesses of the loader stay inside, and what it returns
agrees with the file, exactly if the file is intact.  Entries come back exactly
if the loader knows their names and their payload is short.
-/

namespace LRJS.Containers

open Logged FixedFields List Option Course
open Lz4 (Bytes)

structure Reaches (script : Script) (fdata : Bytes) : Prop where
  long : 8 + 4 * 4 + 8 * 4 + 4 * 4 ≤ fdata.length
  marked : fdata.take 8 = magic
  current : ¬Stale script (readHeader fdata)
  whole : headerEnd + (readHeader fdata).desc_len + (readHeader fdata).stored_len ≤ fdata.length

def unpacked (fresh : Nat → UInt8) (script : Script) (fdata : Bytes) : Option Bytes :=
  (Lz4.lr_decompress_if_needed fresh (storedPayload script fdata)
    ((readHeader fdata).flags.testBit FLAG_COMPRESSED)).result.join

/-- The file passes all tests with this payload; the length of a payload that is not compressed
is not among them. -/
structure Accepted (fresh : Nat → UInt8) (script : Script) (fdata raw : Bytes) : Prop extends
    Reaches script fdata where
  unpacks : unpacked fresh script fdata = some raw
  sized : (readHeader fdata).flags.testBit FLAG_COMPRESSED = true →
    raw.length = (readHeader fdata).raw_len
  checked : (lr_iome586_crc32 raw).toNat = (readHeader fdata).checksum

theorem length_storedPayload {script : Script} {fdata : Bytes}
    (whole : headerEnd + (readHeader fdata).desc_len + (readHeader fdata).stored_len ≤
      fdata.length) : (storedPayload script fdata).length = (readHeader fdata).stored_len := by
  have taken : ((fdata.drop (headerEnd + (readHeader fdata).desc_len)).take
      (readHeader fdata).stored_len).length = (readHeader fdata).stored_len := by
    apply length_take_of_le
    rw [length_drop]
    omega
  unfold storedPayload
  dsimp only
  split
  · rw [xor_key, length_mapIdx, taken]
  · exact taken

theorem finish_safe (flen : Nat) (h : Header) (desc raw : Bytes) :
    (finish h desc raw).Succeeds (InBounds flen) fun _ => True := by
  unfold finish
  split
  · exact succeeds_done.mpr trivial
  · have reads : (parseEntries raw.length (raw.length + 1) raw).Succeeds (InBounds flen)
        (Begins raw) :=
      parseEntries_reads (Nat.lt_succ_self _) (Nat.le_refl _)
    refine succeeds_andThen.mpr ⟨reads.1, ?_⟩
    obtain ⟨entries, result, _⟩ := reads.2
    exact ⟨entries, result, succeeds_done.mpr trivial⟩

theorem finish_decompressed_safe (flen : Nat) (h : Header) (desc : Bytes) (raw : Option Bytes) :
    (finish_decompressed h desc raw).Succeeds (InBounds flen) fun _ => True := by
  cases raw with
  | none => exact succeeds_done.mpr trivial
  | some raw =>
    rw [finish_decompressed]
    split
    · exact succeeds_done.mpr trivial
    · exact finish_safe ..

theorem onBlock_succeeds {Value : Type} {flen size capacity : Nat}
    {run : Course Lz4.Access Value} {post : Value → Prop} :
    (onBlock size capacity run).Succeeds (InBounds flen) post ↔
      run.Succeeds (Lz4.Access.InBounds size capacity) post := by
  unfold Course.Succeeds onBlock
  rw [List.forall_mem_map]
  rfl

/-- Loading stays in bounds exactly if the header is whole and a packed payload is regular. -/
theorem load_safe (fresh : Nat → UInt8) (script : Script) (fdata : Bytes) :
    (lr_iome586_load fresh script fdata).Succeeds (InBounds fdata.length) (fun _ => True) ↔
      (8 + 4 * 4 + 8 * 4 + 4 * 4 ≤ fdata.length → fdata.take 8 = magic →
        headerEnd ≤ fdata.length) ∧
      (Reaches script fdata → (readHeader fdata).flags.testBit FLAG_COMPRESSED = true →
        4 ≤ (readHeader fdata).stored_len →
        Lz4.Regular ((storedPayload script fdata).drop 4)
          (Lz4.storedLength (storedPayload script fdata))) := by
  have stops : ∀ outcome, (done outcome : Course Access Outcome).Succeeds
      (InBounds fdata.length) fun _ => True := fun _ => succeeds_done.mpr trivial
  unfold lr_iome586_load
  split
  next short =>
    refine iff_of_true (stops _) ⟨fun long => absurd short (Nat.not_lt.mpr long), fun reaches => ?_⟩
    exact absurd short (Nat.not_lt.mpr reaches.long)
  next long =>
    have long := Nat.not_lt.mp long
    rw [succeeds_log]
    have first : InBounds fdata.length (.file 0 8) := by
      show 0 + 8 ≤ fdata.length
      omega
    rw [and_iff_right first]
    split
    next other =>
      exact iff_of_true (stops _) ⟨fun _ marked => absurd marked other,
        fun reaches => absurd reaches.marked other⟩
    next marked =>
      have marked := not_not.mp marked
      rw [succeeds_log]
      refine and_congr ⟨fun inside _ _ => inside, fun headed => headed long marked⟩ ?_
      dsimp only
      split
      next stale =>
        exact iff_of_true (stops _) fun reaches => absurd stale reaches.current
      next current =>
        split
        next cut =>
          exact iff_of_true (stops _) fun reaches => absurd cut (Nat.not_lt.mpr reaches.whole)
        next whole =>
          have whole := Nat.not_lt.mp whole
          have reaches : Reaches script fdata := ⟨long, marked, current, whole⟩
          have size : (storedPayload script fdata).length = (readHeader fdata).stored_len :=
            length_storedPayload whole
          have desc : InBounds fdata.length (.file headerEnd (readHeader fdata).desc_len) := by
            show headerEnd + (readHeader fdata).desc_len ≤ fdata.length
            omega
          have stored : InBounds fdata.length
              (.file (headerEnd + (readHeader fdata).desc_len) (readHeader fdata).stored_len) :=
            whole
          rw [succeeds_log, and_iff_right desc, succeeds_log, and_iff_right stored]
          split
          next compressed =>
            have block := (Lz4.decompress_safe fresh).2 (storedPayload script fdata) true
            have behind : (fun raw => (finish_decompressed (readHeader fdata)
                ((fdata.drop headerEnd).take (readHeader fdata).desc_len) raw).Succeeds
                  (InBounds fdata.length) fun _ => True) = fun _ => True :=
              funext fun raw => eq_true (finish_decompressed_safe ..)
            rw [succeeds_andThen, onBlock_succeeds, behind, block, size]
            exact ⟨fun regular _ _ => regular rfl, fun regular _ => regular reaches compressed⟩
          next plain =>
            exact iff_of_true (finish_safe ..) fun _ compressed => absurd compressed plain

def manifestOf (fdata : Bytes) (entries : List Entry) : Manifest where
  header := readHeader fdata
  desc := (fdata.drop headerEnd).take (readHeader fdata).desc_len
  data := assigned entries
  entries := entries

/-- The end of a load succeeds on the right checksum, entries that parse and a syntax tree. -/
theorem finish_loaded_iff {h : Header} {desc raw : Bytes} {m : Manifest} :
    (finish h desc raw).result = some (.loaded m) ↔
      (lr_iome586_crc32 raw).toNat = h.checksum ∧ ∃ entries, parsed raw = some entries ∧
        assigned entries .ast ≠ none ∧ m = ⟨h, desc, assigned entries, entries⟩ := by
  unfold finish
  split
  next bad =>
    refine iff_of_false ?_ fun good => bad good.1
    intro same
    cases same
  next good =>
    have good := not_not.mp good
    rw [result_andThen, bind_eq_some_iff, and_iff_right good]
    apply exists_congr
    intro entries
    apply and_congr Iff.rfl
    show some (if assigned entries .ast = none then Outcome.incomplete else
      .loaded ⟨h, desc, assigned entries, entries⟩) = some (.loaded m) ↔ _
    split
    next none =>
      refine iff_of_false ?_ fun present => present.1 none
      intro same
      cases same
    next present =>
      rw [and_iff_right present]
      constructor
      · intro same
        cases same
        rfl
      · intro same
        rw [same]

theorem finish_decompressed_loaded_iff {h : Header} {desc : Bytes} {raw : Option Bytes}
    {m : Manifest} : (finish_decompressed h desc raw).result = some (.loaded m) ↔
      ∃ found, raw = some found ∧ found.length = h.raw_len ∧
        (finish h desc found).result = some (.loaded m) := by
  cases raw with
  | none =>
    refine iff_of_false ?_ ?_
    · intro same
      cases same
    · rintro ⟨found, same, _⟩
      cases same
  | some raw =>
    rw [finish_decompressed]
    split
    next other =>
      refine iff_of_false ?_ ?_
      · intro same
        cases same
      · rintro ⟨found, same, sized, _⟩
        exact other (some.inj same ▸ sized)
    next sized =>
      constructor
      · exact fun loaded => ⟨raw, rfl, not_not.mp sized, loaded⟩
      · rintro ⟨found, same, _, loaded⟩
        exact some.inj same ▸ loaded

/-- A load succeeds exactly with the manifest of a file that it accepts. -/
theorem load_loaded_iff {fresh : Nat → UInt8} {script : Script} {fdata : Bytes} {m : Manifest} :
    (lr_iome586_load fresh script fdata).result = some (.loaded m) ↔
      ∃ raw, Accepted fresh script fdata raw ∧ ∃ entries, parsed raw = some entries ∧
        assigned entries .ast ≠ none ∧ m = manifestOf fdata entries := by
  have stops : ∀ outcome, (∀ m, outcome ≠ Outcome.loaded m) → ¬Reaches script fdata →
      ((done outcome : Course Access Outcome).result = some (.loaded m) ↔
        ∃ raw, Accepted fresh script fdata raw ∧ ∃ entries, parsed raw = some entries ∧
          assigned entries .ast ≠ none ∧ m = manifestOf fdata entries) := by
    intro outcome refused unreached
    refine iff_of_false (fun same => refused m (some.inj same)) ?_
    rintro ⟨raw, accepted, _⟩
    exact unreached accepted.toReaches
  have corrupt : ∀ m, Outcome.corrupt ≠ Outcome.loaded m := by
    intro m same
    cases same
  have old : ∀ m, Outcome.stale ≠ Outcome.loaded m := by
    intro m same
    cases same
  unfold lr_iome586_load
  split
  next short =>
    exact stops _ corrupt fun reaches => absurd short (Nat.not_lt.mpr reaches.long)
  next long =>
    have long := Nat.not_lt.mp long
    split
    next other =>
      exact stops _ corrupt fun reaches => absurd reaches.marked other
    next marked =>
      have marked := not_not.mp marked
      show (ite _ _ _ : Course Access Outcome).result = _ ↔ _
      split
      next stale =>
        exact stops _ old fun reaches => absurd stale reaches.current
      next current =>
        split
        next cut =>
          exact stops _ corrupt fun reaches => absurd cut (Nat.not_lt.mpr reaches.whole)
        next whole =>
          have reaches : Reaches script fdata := ⟨long, marked, current, Nat.not_lt.mp whole⟩
          show (ite _ _ _ : Course Access Outcome).result = _ ↔ _
          split
          next compressed =>
            have unpacks : unpacked fresh script fdata = (Lz4.lr_decompress_if_needed fresh
                (storedPayload script fdata) true).result.join := by
              rw [unpacked, compressed]
            rw [result_andThen, bind_eq_some_iff]
            constructor
            · rintro ⟨block, result, loaded⟩
              obtain ⟨raw, rfl, sized, loaded⟩ := finish_decompressed_loaded_iff.mp loaded
              obtain ⟨checked, found⟩ := finish_loaded_iff.mp loaded
              have result : (Lz4.lr_decompress_if_needed fresh (storedPayload script fdata)
                true).result = some (some raw) := result
              have unpacks : unpacked fresh script fdata = some raw := by
                rw [unpacks, result]
                rfl
              exact ⟨raw, ⟨reaches, unpacks, fun _ => sized, checked⟩, found⟩
            · rintro ⟨raw, accepted, found⟩
              have result := join_eq_some_iff.mp (unpacks ▸ accepted.unpacks)
              refine ⟨some raw, result, finish_decompressed_loaded_iff.mpr ⟨raw, rfl,
                accepted.sized compressed, finish_loaded_iff.mpr ⟨accepted.checked, found⟩⟩⟩
          next plain =>
            have unpacks : unpacked fresh script fdata = some (storedPayload script fdata) := by
              rw [unpacked, Bool.eq_false_iff.mpr plain]
              rfl
            rw [finish_loaded_iff]
            constructor
            · rintro ⟨checked, found⟩
              exact ⟨_, ⟨reaches, unpacks, fun compressed => absurd compressed plain, checked⟩,
                found⟩
            · rintro ⟨raw, accepted, found⟩
              have same := some.inj (unpacks.symm.trans accepted.unpacks)
              rw [same]
              exact ⟨accepted.checked, found⟩

section Written

variable (w : Writing) (raw : Bytes)

theorem write_container_eq : w.write_container raw =
    magic ++ (putFields (w.fields raw (w.pack raw).1 (w.pack raw).2) ++
      (w.desc ++ (w.pack raw).1)) :=
  rfl

theorem length_magic : magic.length = 8 := by
  decide +kernel

theorem widths_written : (w.fields raw (w.pack raw).1 (w.pack raw).2).map Prod.fst = widths :=
  rfl

theorem flags_lt (compressed : Bool) : w.flags compressed < 8 := by
  unfold Writing.flags
  split <;> split <;> split <;> decide

theorem testBit_flags (compressed : Bool) :
    (w.flags compressed).testBit FLAG_COMPRESSED = compressed ∧
      (w.flags compressed).testBit FLAG_KEYED = false := by
  unfold Writing.flags
  cases w.strict <;> cases w.is_module <;> cases compressed <;> decide

/-- The header that is read back is the one that was written. -/
theorem readHeader_written : readHeader (w.write_container raw) = {
    container_version := LR_IOME586_CONTAINER_VERSION
    engine_version := engine_version_id.toNat
    status := LR_IOME586_STATUS_ARCHIVED
    flags := w.flags (w.pack raw).2
    created_at := w.created_at % 2 ^ 64
    source_hash := (lr_iome586_hash64 w.script.src).toNat
    source_mtime := if w.script.named = true then w.script.mtime else 0
    source_size := w.script.src.length % 2 ^ 64
    opt_ratio := w.opt_ratio % 2 ^ 32
    checksum := (lr_iome586_crc32 raw).toNat
    stored_len := (w.pack raw).1.length % 2 ^ 32
    raw_len := raw.length % 2 ^ 32
    desc_len := w.desc.length } := by
  have fields := getFields_putFields (w.fields raw (w.pack raw).1 (w.pack raw).2)
    (w.desc ++ (w.pack raw).1)
  rw [widths_written] at fields
  have container : LR_IOME586_CONTAINER_VERSION < 2 ^ 32 := by decide
  have version : engine_version_id.toNat < 2 ^ 32 := BitVec.isLt _
  have status : LR_IOME586_STATUS_ARCHIVED < 2 ^ 32 := by decide
  have flags : w.flags (w.pack raw).2 < 2 ^ 32 := (flags_lt w _).trans (by decide)
  have hash : (lr_iome586_hash64 w.script.src).toNat < 2 ^ 64 := BitVec.isLt _
  have mtime : (if w.script.named = true then w.script.mtime else 0) < 2 ^ 64 := by
    have fits := w.script.mtime_fits
    split <;> omega
  have checksum : (lr_iome586_crc32 raw).toNat < 2 ^ 32 := BitVec.isLt _
  have desc : w.desc.length < 2 ^ 32 := w.desc_fits.trans (by decide)
  have low : (256 : Nat) ^ 4 = 2 ^ 32 := by norm_num
  have wide : (256 : Nat) ^ 8 = 2 ^ 64 := by norm_num
  unfold readHeader
  rw [write_container_eq, drop_left' length_magic, fields]
  simp only [Writing.fields, map_cons, getD_cons_zero, getD_cons_succ, low, wide,
    Nat.mod_eq_of_lt container, Nat.mod_eq_of_lt version, Nat.mod_eq_of_lt status,
    Nat.mod_eq_of_lt flags, Nat.mod_eq_of_lt hash, Nat.mod_eq_of_lt mtime,
    Nat.mod_eq_of_lt checksum, Nat.mod_eq_of_lt desc]

theorem length_pack : (w.pack raw).1.length ≤ raw.length := by
  unfold Writing.pack Lz4.lr_compress_if_beneficial
  split
  next much =>
    split
    · exact Nat.le_refl _
    · split
      · exact Nat.le_refl _
      next compressed _ =>
        split
        next enough =>
          have shrinks := w.enough_shrinks compressed.length raw.length much.2 enough
          rw [length_append, Lz4.header]
          show 4 + compressed.length ≤ raw.length
          omega
        · exact Nat.le_refl _
  · exact Nat.le_refl _

theorem pack_returns (fresh : Nat → UInt8) {raw : Bytes} (short : raw.length < 2 ^ 32) :
    (Lz4.lr_decompress_if_needed fresh (w.pack raw).1 (w.pack raw).2).result =
      some (some raw) := by
  unfold Writing.pack
  split
  · exact (Lz4.framed_returns_iff fresh w.enough raw).mpr fun _ => short
  · rfl

/-- A written container is accepted with the payload it was written from. -/
theorem accepted_written (fresh : Nat → UInt8) {raw : Bytes} (short : raw.length < 2 ^ 32) :
    Accepted fresh w.script (w.write_container raw) raw := by
  have header := readHeader_written w raw
  have stored : (w.pack raw).1.length < 2 ^ 32 := Nat.lt_of_le_of_lt (length_pack w raw) short
  have fieldsLength : (putFields (w.fields raw (w.pack raw).1 (w.pack raw).2)).length = 68 := by
    rfl
  have front : (magic ++ putFields (w.fields raw (w.pack raw).1 (w.pack raw).2)).length =
      headerEnd := by
    rfl
  have split : w.write_container raw =
      (magic ++ putFields (w.fields raw (w.pack raw).1 (w.pack raw).2)) ++
        (w.desc ++ (w.pack raw).1) := by
    rw [write_container_eq, append_assoc]
  have size : (w.write_container raw).length =
      headerEnd + (w.desc.length + (w.pack raw).1.length) := by
    rw [split, length_append, front, length_append]
  have payload : storedPayload w.script (w.write_container raw) = (w.pack raw).1 := by
    unfold storedPayload
    dsimp only
    rw [header]
    rw [(testBit_flags w _).2, if_neg Bool.false_ne_true, Nat.mod_eq_of_lt stored,
      ← drop_drop, split, drop_left' front, drop_left, take_length]
  refine ⟨⟨?_, ?_, ?_, ?_⟩, ?_, ?_, ?_⟩
  · rw [size]
    exact Nat.le_trans (by decide) (Nat.le_add_right ..)
  · rw [write_container_eq, take_left' length_magic]
  · rw [header]
    rintro (other | other | other | other | other | ⟨named, _, _, other⟩)
    · exact other rfl
    · exact other rfl
    · exact other rfl
    · exact other rfl
    · exact other rfl
    · exact other (if_pos named).symm
  · rw [header, size]
    dsimp only
    omega
  · unfold unpacked
    rw [payload, header]
    rw [(testBit_flags w _).1, pack_returns w fresh short]
    rfl
  · intro _
    rw [header]
    exact (Nat.mod_eq_of_lt short).symm
  · rw [header]

theorem accepted_short {fresh : Nat → UInt8} {raw found : Bytes}
    (accepted : Accepted fresh w.script (w.write_container raw) found) : found.length < 2 ^ 32 := by
  have header := readHeader_written w raw
  by_cases compressed :
      (readHeader (w.write_container raw)).flags.testBit FLAG_COMPRESSED = true
  · rw [accepted.sized compressed, header]
    exact Nat.mod_lt _ (by decide)
  · have unpacks := accepted.unpacks
    rw [unpacked, Bool.eq_false_iff.mpr compressed] at unpacks
    obtain rfl : storedPayload w.script (w.write_container raw) = found :=
      some.inj unpacks
    rw [length_storedPayload accepted.whole, header]
    exact Nat.mod_lt _ (by decide)

end Written

def Returns (fresh : Nat → UInt8) (w : Writing) (entries : List Entry) : Prop :=
  ∃ m, (lr_iome586_load fresh w.script (w.write_container (payload entries))).result =
      some (.loaded m) ∧
    m.entries = entries ∧
    ∀ name data, (∃ e ∈ entries, e.name = name ∧ e.data = data) ↔
      ∃ kind : Kind, kind.name = name ∧ m.data kind = some data

/-- The loader knows the names, has a place for each entry, finds the tree, and the length of the
payload fits into the header. -/
structure Loadable (entries : List Entry) : Prop where
  named : ∀ e ∈ entries, ∃ kind : Kind, kind.name = e.name
  single : ∀ e ∈ entries, ∀ e' ∈ entries, e.name = e'.name → e.data = e'.data
  tree : ∃ e ∈ entries, e.name = Kind.ast.name
  short : (payload entries).length < 2 ^ 32

/-- What is returned lies in the payload, and the payload, its checksum and all lengths agree with
the file. -/
def Agrees (fresh : Nat → UInt8) (script : Script) (fdata : Bytes) (m : Manifest) : Prop :=
  m.header = readHeader fdata ∧
    fdata.length = headerEnd + m.header.desc_len + m.header.stored_len ∧
    ∃ (raw : Bytes) (records : List Record), unpacked fresh script fdata = some raw ∧
      (lr_iome586_crc32 raw).toNat = m.header.checksum ∧ raw.length = m.header.raw_len ∧
      raw = records.flatMap Record.bytes ∧ m.entries = records.map Record.entry ∧
      ∀ kind data, m.data kind = some data →
        ∃ r ∈ records, r.entry.name = kind.name ∧ r.data = data

def Sound (fresh : Nat → UInt8) (script : Script) (fdata : Bytes) : Prop :=
  (lr_iome586_load fresh script fdata).Succeeds (InBounds fdata.length) (fun _ => True) ∧
    ∀ m, (lr_iome586_load fresh script fdata).result = some (.loaded m) →
      Agrees fresh script fdata m

def HasTree (raw : Bytes) : Prop :=
  ∃ (records : List Record) (cut : Bytes), raw = records.flatMap Record.bytes ++ cut ∧
    ∃ r ∈ records, r.entry.name = Kind.ast.name

structure Intact (fresh : Nat → UInt8) (script : Script) (fdata : Bytes) : Prop where
  headed : 8 + 4 * 4 + 8 * 4 + 4 * 4 ≤ fdata.length → fdata.take 8 = magic →
    headerEnd ≤ fdata.length
  regular : Reaches script fdata → (readHeader fdata).flags.testBit FLAG_COMPRESSED = true →
    4 ≤ (readHeader fdata).stored_len →
    Lz4.Regular ((storedPayload script fdata).drop 4)
      (Lz4.storedLength (storedPayload script fdata))
  ends : ∀ raw, Accepted fresh script fdata raw → HasTree raw →
    fdata.length = headerEnd + (readHeader fdata).desc_len + (readHeader fdata).stored_len
  sized : ∀ raw, Accepted fresh script fdata raw → HasTree raw →
    raw.length = (readHeader fdata).raw_len
  tiled : ∀ raw, Accepted fresh script fdata raw → HasTree raw →
    ∃ records : List Record, raw = records.flatMap Record.bytes

variable {entries : List Entry}

theorem tree_iff {raw : Bytes} (found : parsed raw = some entries) :
    assigned entries .ast ≠ none ↔ HasTree raw := by
  constructor
  · intro present
    obtain ⟨data, same⟩ := ne_none_iff_exists'.mp present
    obtain ⟨e, member, named, _⟩ := assigned_mem same
    obtain ⟨other, again, records, cut, front, read⟩ := parsed_begins raw
    obtain rfl := some.inj (found.symm.trans again)
    rw [read] at member
    obtain ⟨r, inside, same⟩ := mem_map.mp member
    exact ⟨records, cut, front, r, inside, same ▸ named⟩
  · rintro ⟨records, cut, front, r, inside, named⟩
    obtain ⟨more, read, _⟩ := parsed_records records cut
    rw [← front, found] at read
    rw [some.inj read]
    exact assigned_ne_none (mem_append_left _ (mem_map_of_mem inside)) named

theorem agrees_iff (fresh : Nat → UInt8) (script : Script) (fdata : Bytes) :
    (∀ m, (lr_iome586_load fresh script fdata).result = some (.loaded m) →
      Agrees fresh script fdata m) ↔
      ∀ raw, Accepted fresh script fdata raw → HasTree raw →
        fdata.length = headerEnd + (readHeader fdata).desc_len + (readHeader fdata).stored_len ∧
        raw.length = (readHeader fdata).raw_len ∧
        ∃ records : List Record, raw = records.flatMap Record.bytes := by
  constructor
  · intro agrees raw accepted tree
    obtain ⟨entries, found, _⟩ := parsed_begins raw
    have loaded := load_loaded_iff.mpr
      ⟨raw, accepted, entries, found, (tree_iff found).mpr tree, rfl⟩
    obtain ⟨_, ends, other, records, unpacks, _, sized, tiled, _⟩ := agrees _ loaded
    obtain rfl := some.inj (accepted.unpacks.symm.trans unpacks)
    exact ⟨ends, sized, records, tiled⟩
  · intro tested m loaded
    obtain ⟨raw, accepted, entries, found, present, rfl⟩ := load_loaded_iff.mp loaded
    obtain ⟨ends, sized, records, tiled⟩ :=
      tested raw accepted ((tree_iff found).mp present)
    obtain ⟨more, read, none⟩ := parsed_records records []
    have same : entries = records.map Record.entry := by
      rw [append_nil, ← tiled, found] at read
      rw [some.inj read, none rfl, append_nil]
    refine ⟨rfl, ends, raw, records, accepted.unpacks, accepted.checked, sized, tiled, same,
      fun kind data here => ?_⟩
    obtain ⟨e, member, named, kept⟩ := assigned_mem here
    rw [same] at member
    obtain ⟨r, inside, rfl⟩ := mem_map.mp member
    exact ⟨r, inside, named, kept⟩

theorem loadable_returns (fresh : Nat → UInt8) (w : Writing)
    (loadable : Loadable entries) : Returns fresh w entries := by
  have names : ∀ e ∈ entries, e.name.length ≤ 63 := by
    intro e member
    obtain ⟨kind, same⟩ := loadable.named e member
    exact same ▸ length_name kind
  obtain ⟨records, tiled, same⟩ := exists_records names loadable.short
  obtain ⟨more, read, none⟩ := parsed_records records []
  have found : parsed (payload entries) = some entries := by
    rw [tiled, ← append_nil (records.flatMap _), read, none rfl, same, append_nil]
  obtain ⟨tree, member, named⟩ := loadable.tree
  refine ⟨_, load_loaded_iff.mpr ⟨_, accepted_written w fresh loadable.short, entries, found,
    assigned_ne_none member named, rfl⟩, rfl, fun name data => ?_⟩
  constructor
  · rintro ⟨e, member, rfl, rfl⟩
    obtain ⟨kind, known⟩ := loadable.named e member
    obtain ⟨data, here⟩ :=
      ne_none_iff_exists'.mp (assigned_ne_none member known.symm)
    obtain ⟨e', member', named', rfl⟩ := assigned_mem here
    have single := loadable.single e' member' e member (named'.trans known)
    exact ⟨kind, known, single ▸ here⟩
  · rintro ⟨kind, rfl, here⟩
    exact assigned_mem here

theorem returns_loadable {fresh : Nat → UInt8} {w : Writing}
    (returns : Returns fresh w entries) : Loadable entries := by
  obtain ⟨m, loaded, order, places⟩ := returns
  obtain ⟨raw, accepted, found, read, present, rfl⟩ := load_loaded_iff.mp loaded
  obtain rfl : found = entries := order
  have known : ∀ e ∈ found, ∃ kind : Kind, kind.name = e.name ∧
      assigned found kind = some e.data := fun e member =>
    (places e.name e.data).mp ⟨e, member, rfl, rfl⟩
  refine ⟨fun e member => ?_, fun e member e' member' same => ?_, ?_, ?_⟩
  · obtain ⟨kind, named, _⟩ := known e member
    exact ⟨kind, named⟩
  · obtain ⟨kind, named, here⟩ := known e member
    obtain ⟨kind', named', here'⟩ := known e' member'
    obtain rfl := name_injective ((named.trans same).trans named'.symm)
    exact some.inj (here.symm.trans here')
  · obtain ⟨data, here⟩ := ne_none_iff_exists'.mp present
    obtain ⟨e, member, named, _⟩ := assigned_mem here
    exact ⟨e, member, named⟩
  · obtain ⟨other, again, records, cut, front, same⟩ := parsed_begins raw
    obtain rfl := some.inj (read.symm.trans again)
    have inside : (records.flatMap Record.bytes).length ≤ raw.length := by
      rw [front, length_append]
      exact Nat.le_add_right ..
    calc (payload found).length
      _ ≤ (records.flatMap Record.bytes).length := by
        rw [same]
        exact length_payload records
      _ ≤ raw.length := inside
      _ < 2 ^ 32 := accepted_short w accepted

/-- Entries come back exactly if they are loadable, and the loader is sound for a file exactly if
the file is intact. -/
theorem containers_sound (fresh : Nat → UInt8) :
    (∀ (w : Writing) (entries : List Entry), Returns fresh w entries ↔ Loadable entries) ∧
      ∀ (script : Script) (fdata : Bytes),
        Sound fresh script fdata ↔ Intact fresh script fdata := by
  refine ⟨fun w entries => ⟨returns_loadable, loadable_returns fresh w⟩, fun script fdata => ?_⟩
  unfold Sound
  rw [load_safe, agrees_iff]
  constructor
  · rintro ⟨⟨headed, regular⟩, tested⟩
    exact ⟨headed, regular, fun raw accepted tree => (tested raw accepted tree).1,
      fun raw accepted tree => (tested raw accepted tree).2.1,
      fun raw accepted tree => (tested raw accepted tree).2.2⟩
  · intro intact
    exact ⟨⟨intact.headed, intact.regular⟩, fun raw accepted tree =>
      ⟨intact.ends raw accepted tree, intact.sized raw accepted tree,
        intact.tiled raw accepted tree⟩⟩

def headless : Bytes :=
  magic ++ List.replicate 64 0

/-- The length of the comment is read behind the end of the file. -/
theorem reads_behind_file :
    ¬∀ (fresh : Nat → UInt8) (script : Script) (fdata : Bytes), Sound fresh script fdata := by
  intro sound
  have safe := (load_safe (fun _ => 0) ⟨false, 0, [], by decide⟩ headless).mp (sound _ _ _).1
  have headed : headerEnd ≤ headless.length := safe.1 (by decide +kernel) (by decide +kernel)
  exact absurd headed (by decide +kernel)

end LRJS.Containers
