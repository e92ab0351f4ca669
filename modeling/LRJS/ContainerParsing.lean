import LRJS.ContainerFormat

/-!
# Payloads

Whatever a payload is, the loop over its entries stays inside of it and reads
the records that it begins with.  The data of a kind is that of an entry with
its name.
-/

namespace LRJS.Containers

open Logged FixedFields List Option LittleEndian Course
open Lz4 (Bytes)

structure Record where
  name : Bytes
  data : Bytes
  name_fits : name.length < 2 ^ 16
  data_fits : data.length < 2 ^ 32

namespace Record

def bytes (r : Record) : Bytes :=
  LittleEndian.put 2 r.name.length ++ (r.name ++ (put_u32 r.data.length ++ r.data))

def entry (r : Record) : Entry where
  name := c_string (r.name.take 63)
  data := r.data
  plain := c_string_storable _

theorem length_bytes (r : Record) : r.bytes.length = 6 + r.name.length + r.data.length := by
  unfold bytes put_u32
  rw [length_append, length_append, length_append, length_put,
    length_put]
  omega

theorem length_entry_add (r : Record) : (entry_add r.entry).length ≤ r.bytes.length := by
  have name : (c_string (r.name.take 63)).length ≤ r.name.length :=
    ((takeWhile_sublist _).length_le).trans (length_take_le' ..)
  have whole : (entry_add r.entry).length =
      2 + ((c_string (r.name.take 63)).length + (4 + r.data.length)) := by
    unfold entry_add entry put_u32
    rw [length_append, length_append, length_append, length_put,
      length_put]
  rw [length_bytes, whole]
  omega

end Record

variable (records : List Record)

theorem length_payload :
    (payload (records.map Record.entry)).length ≤ (records.flatMap Record.bytes).length := by
  induction records with
  | nil => exact Nat.le_refl _
  | cons r records ih =>
    have first := r.length_entry_add
    have whole : payload ((r :: records).map Record.entry) =
        entry_add r.entry ++ payload (records.map Record.entry) := rfl
    rw [whole, flatMap_cons, length_append, length_append]
    omega

variable {entries : List Entry}

/-- Entries whose names fit are the entries of the payload's records. -/
theorem exists_records (named : ∀ e ∈ entries, e.name.length ≤ 63)
    (short : (payload entries).length < 2 ^ 32) :
    ∃ records : List Record, payload entries = records.flatMap Record.bytes ∧
      records.map Record.entry = entries := by
  induction entries with
  | nil => exact ⟨[], rfl, rfl⟩
  | cons e entries ih =>
    have name : e.name.length ≤ 63 := named e mem_cons_self
    have split : payload (e :: entries) = entry_add e ++ payload entries := rfl
    rw [split, length_append] at short
    have data : e.data.length ≤ (entry_add e).length := by
      unfold entry_add
      rw [length_append, length_append, length_append]
      omega
    obtain ⟨records, tiled, same⟩ :=
      ih (fun e member => named e (mem_cons_of_mem _ member)) (by omega)
    let r : Record := ⟨e.name, e.data, by omega, by omega⟩
    have kept : r.entry = e := by
      have whole : c_string (e.name.take 63) = e.name := by
        rw [take_of_length_le name, c_string_eq e.plain]
      cases e
      exact Entry.mk.injEq .. |>.mpr ⟨whole, rfl⟩
    refine ⟨r :: records, ?_, ?_⟩
    · rw [split, tiled]
      rfl
    · rw [map_cons, kept, same]

def parsed (raw : Bytes) : Option (List Entry) :=
  (parseEntries raw.length (raw.length + 1) raw).result

def InBounds (flen : Nat) : Access → Prop
  | .file start length => start + length ≤ flen
  | .block size capacity access => access.InBounds size capacity
  | .raw size start length => start + length ≤ size

/-- One record is parsed with four reads, each where the one before ended. -/
theorem parseEntries_record (size fuel : Nat) (r : Record) (rest : Bytes) :
    parseEntries size (fuel + 1) (r.bytes ++ rest) =
      let first := r.bytes ++ rest
      let second := r.name ++ (put_u32 r.data.length ++ (r.data ++ rest))
      let third := put_u32 r.data.length ++ (r.data ++ rest)
      .log (.raw size (size - first.length) 2) <|
      .log (.raw size (size - second.length) (min r.name.length 63)) <|
      .log (.raw size (size - third.length) 4) <|
      .log (.raw size (size - (r.data ++ rest).length) r.data.length) <|
      (parseEntries size fuel rest).andThen fun entries => .done (r.entry :: entries) := by
  have long : ¬(r.bytes ++ rest).length < 6 := by
    rw [length_append, r.length_bytes]
    omega
  have bytes : r.bytes ++ rest = LittleEndian.put 2 r.name.length ++
      (r.name ++ (put_u32 r.data.length ++ (r.data ++ rest))) := by
    simp [Record.bytes]
  have nameWidth : (LittleEndian.put 2 r.name.length).length = 2 := LittleEndian.length_put ..
  have dataWidth : (put_u32 r.data.length).length = 4 := LittleEndian.length_put ..
  have nlen : LittleEndian.get (LittleEndian.put 2 r.name.length) = r.name.length :=
    LittleEndian.get_put_of_lt r.name_fits
  have dlen : LittleEndian.get (put_u32 r.data.length) = r.data.length :=
    LittleEndian.get_put_of_lt r.data_fits
  have nameInside : ¬(r.name ++ (put_u32 r.data.length ++ (r.data ++ rest))).length <
      r.name.length + 4 := by
    rw [length_append, length_append, dataWidth]
    omega
  have dataInside : ¬(r.data ++ rest).length < r.data.length := by
    rw [length_append]
    omega
  have name : (r.name ++ (put_u32 r.data.length ++ (r.data ++ rest))).take
      (min r.name.length 63) = r.name.take 63 := by
    rw [take_append_of_le_length (Nat.min_le_left ..), Nat.min_comm, ← take_take,
      take_length]
  rw [parseEntries, if_neg long]
  simp only [bytes, take_left' nameWidth, drop_left' nameWidth, nlen,
    if_neg nameInside, name, drop_left, take_left' dataWidth,
    drop_left' dataWidth, dlen, if_neg dataInside, take_left]
  rfl

theorem parseEntries_records (size : Nat) {fuel : Nat} (records : List Record) (rest : Bytes)
    (enough : records.length ≤ fuel) :
    (parseEntries size fuel (records.flatMap Record.bytes ++ rest)).result =
      (parseEntries size (fuel - records.length) rest).result.map fun entries =>
        records.map Record.entry ++ entries := by
  induction records generalizing fuel with
  | nil => exact map_id'.symm
  | cons r records ih =>
    obtain ⟨fuel, rfl⟩ : ∃ less, fuel = less + 1 :=
      ⟨fuel - 1, by rw [List.length_cons] at enough; omega⟩
    have fewer : records.length ≤ fuel := Nat.le_of_succ_le_succ enough
    have first : (parseEntries size (fuel + 1)
        (r.bytes ++ (records.flatMap Record.bytes ++ rest))).result =
        (parseEntries size fuel (records.flatMap Record.bytes ++ rest)).result.map
          fun entries => r.entry :: entries := by
      rw [parseEntries_record]
      exact (result_andThen ..).trans (map_eq_bind ..).symm
    rw [flatMap_cons, append_assoc, first, ih fewer,
      Option.map_map, List.length_cons, Nat.add_sub_add_right]
    rfl

/-- Bytes with a name and data inside begin with a record. -/
theorem exists_record {rest : Bytes} (long : 6 ≤ rest.length)
    (name : LittleEndian.get (rest.take 2) + 4 ≤ (rest.drop 2).length) (data : LittleEndian.get
        (((rest.drop 2).drop (LittleEndian.get (rest.take 2))).take 4) ≤
      (((rest.drop 2).drop (LittleEndian.get (rest.take 2))).drop 4).length) :
    ∃ (r : Record) (behind : Bytes), rest = r.bytes ++ behind := by
  set nlen := LittleEndian.get (rest.take 2) with nlenSame
  set middle := (rest.drop 2).drop nlen with middleSame
  set dlen := LittleEndian.get (middle.take 4) with dlenSame
  have middleLong : 4 ≤ middle.length := by
    rw [middleSame, length_drop]
    omega
  have nameWidth : ((rest.drop 2).take nlen).length = nlen := length_take_of_le (by omega)
  have dataWidth : ((middle.drop 4).take dlen).length = dlen := length_take_of_le data
  have nlenFits : nlen < 2 ^ 16 := get_take_lt 2 rest
  have dlenFits : dlen < 2 ^ 32 := get_take_lt 4 middle
  have nlenBytes : LittleEndian.put 2 nlen = rest.take 2 := put_get_take (by omega)
  have dlenBytes : put_u32 dlen = middle.take 4 := put_get_take middleLong
  refine ⟨⟨(rest.drop 2).take nlen, (middle.drop 4).take dlen, by rwa [nameWidth],
    by rwa [dataWidth]⟩, (middle.drop 4).drop dlen, ?_⟩
  show rest = LittleEndian.put 2 ((rest.drop 2).take nlen).length ++
    ((rest.drop 2).take nlen ++ (put_u32 ((middle.drop 4).take dlen).length ++
      (middle.drop 4).take dlen)) ++ (middle.drop 4).drop dlen
  rw [nameWidth, dataWidth, nlenBytes, dlenBytes, append_assoc, append_assoc,
    append_assoc, take_append_drop, take_append_drop, middleSame,
    take_append_drop, take_append_drop]

def Begins (raw : Bytes) (entries : List Entry) : Prop :=
  ∃ (records : List Record) (cut : Bytes), raw = records.flatMap Record.bytes ++ cut ∧
    entries = records.map Record.entry

/-- Parsing entries reads inside the payload, by induction on the fuel. -/
theorem parseEntries_reads {flen size fuel : Nat} {rest : Bytes} (enough : rest.length < fuel)
    (inside : rest.length ≤ size) :
    (parseEntries size fuel rest).Succeeds (InBounds flen) (Begins rest) := by
  induction fuel generalizing rest with
  | zero => exact absurd enough (Nat.not_lt_zero _)
  | succ fuel ih =>
    by_cases whole : ∃ (r : Record) (behind : Bytes), rest = r.bytes ++ behind
    · obtain ⟨r, behind, rfl⟩ := whole
      have sizes : (r.bytes ++ behind).length = 6 + r.name.length + r.data.length +
          behind.length := by
        rw [length_append, r.length_bytes]
      have width : (put_u32 r.data.length).length = 4 := length_put ..
      rw [parseEntries_record]
      refine succeeds_log.mpr ⟨?_, succeeds_log.mpr ⟨?_,
        succeeds_log.mpr ⟨?_, succeeds_log.mpr ⟨?_,
          succeeds_andThen.mpr ?_⟩⟩⟩⟩
      · show size - (r.bytes ++ behind).length + 2 ≤ size
        omega
      · show size - (r.name ++ (put_u32 r.data.length ++ (r.data ++ behind))).length +
          min r.name.length 63 ≤ size
        simp only [length_append, width]
        omega
      · show size - (put_u32 r.data.length ++ (r.data ++ behind)).length + 4 ≤ size
        simp only [length_append, width]
        omega
      · show size - (r.data ++ behind).length + r.data.length ≤ size
        rw [length_append]
        omega
      · have shorter : behind.length < fuel := by
          omega
        have within : behind.length ≤ size := by
          omega
        obtain ⟨events, entries, result, records, cut, tiled, same⟩ :=
          ih shorter within
        refine ⟨events, entries, result, succeeds_done.mpr ⟨r :: records, cut, ?_, ?_⟩⟩
        · rw [flatMap_cons, append_assoc, ← tiled]
        · rw [map_cons, same]
    · have stops : (done [] : Course Access (List Entry)).Succeeds (InBounds flen)
          (Begins rest) :=
        succeeds_done.mpr ⟨[], rest, rfl, rfl⟩
      have behind : (rest.drop 2).length = rest.length - 2 := length_drop ..
      rw [parseEntries]
      split
      · exact stops
      next long =>
        refine succeeds_log.mpr ⟨?_, ?_⟩
        · show size - rest.length + 2 ≤ size
          omega
        dsimp only
        split
        · exact stops
        next name =>
          refine succeeds_log.mpr ⟨?_, succeeds_log.mpr ⟨?_, ?_⟩⟩
          · show size - (rest.drop 2).length + min _ 63 ≤ size
            omega
          · show size - ((rest.drop 2).drop _).length + 4 ≤ size
            rw [length_drop]
            omega
          rw [if_pos]
          · exact stops
          · by_contra data
            exact whole (exists_record (by omega) (by omega) (by omega))

theorem parsed_begins (raw : Bytes) :
    ∃ entries, parsed raw = some entries ∧ Begins raw entries := by
  have reads : (parseEntries raw.length (raw.length + 1) raw).Succeeds (InBounds 0) (Begins raw) :=
    parseEntries_reads (Nat.lt_succ_self _) (Nat.le_refl _)
  exact reads.2

theorem length_records_le :
    records.length ≤ (records.flatMap Record.bytes).length := by
  induction records with
  | nil => exact Nat.le_refl _
  | cons r records ih =>
    rw [flatMap_cons, length_append, r.length_bytes, List.length_cons]
    omega

/-- Records are parsed back to their entries, in order. -/
theorem parsed_records (cut : Bytes) :
    ∃ more, parsed (records.flatMap Record.bytes ++ cut) = some (records.map Record.entry ++ more) ∧
      (cut = [] → more = []) := by
  set raw := records.flatMap Record.bytes ++ cut with whole
  have few := length_records_le records
  have enough : records.length + cut.length ≤ raw.length := by
    rw [whole, length_append]
    omega
  have fuelled : records.length ≤ raw.length + 1 := by
    omega
  have read := parseEntries_records raw.length records cut fuelled
  obtain ⟨_, more, result, _⟩ : (parseEntries raw.length (raw.length + 1 - records.length)
      cut).Succeeds (InBounds 0) (Begins cut) :=
    parseEntries_reads (by omega) (by omega)
  refine ⟨more, ?_, fun empty => ?_⟩
  · rw [parsed, whole, read, result]
    rfl
  · obtain ⟨fuel, positive⟩ : ∃ less, raw.length + 1 - records.length = less + 1 :=
      ⟨raw.length - records.length, by omega⟩
    rw [empty, positive] at result
    exact (some.inj result).symm

theorem kindOf_name (kind : Kind) : kindOf kind.name = some kind := by
  cases kind <;> decide +kernel

theorem kindOf_eq_some_iff {name : Bytes} {kind : Kind} :
    kindOf name = some kind ↔ kind.name = name := by
  constructor
  · intro found
    have kept := find?_some found
    exact of_decide_eq_true kept
  · intro same
    rw [← same, kindOf_name]

theorem name_injective : Function.Injective Kind.name := by
  intro kind other same
  have found := kindOf_name kind
  rw [same, kindOf_name] at found
  exact (some.inj found).symm

theorem length_name (kind : Kind) : kind.name.length ≤ 63 := by
  cases kind <;> decide +kernel

def assigned (entries : List Entry) : Kind → Option Bytes :=
  entries.foldl assign fun _ => none

theorem assign_apply (data : Kind → Option Bytes) (e : Entry) (kind : Kind) :
    assign data e kind = if e.name = kind.name then some e.data else data kind := by
  unfold assign
  cases known : kindOf e.name with
  | none =>
    have other : e.name ≠ kind.name := by
      intro same
      rw [same, kindOf_name] at known
      cases known
    rw [if_neg other]
  | some here =>
    rw [← kindOf_eq_some_iff.mp known]
    by_cases same : kind = here
    · rw [same, if_pos rfl]
      exact Function.update_self ..
    · rw [if_neg fun names => same (name_injective names).symm]
      exact Function.update_of_ne same ..

theorem assigned_mem {kind : Kind} {found : Bytes} (same : assigned entries kind = some found) :
    ∃ e ∈ entries, e.name = kind.name ∧ e.data = found := by
  have general : ∀ start : Kind → Option Bytes, entries.foldl assign start kind = some found →
      (∃ e ∈ entries, e.name = kind.name ∧ e.data = found) ∨ start kind = some found := by
    clear same
    induction entries with
    | nil => exact fun start same => Or.inr same
    | cons e entries ih =>
      intro start same
      obtain ⟨later, member, good⟩ | before := ih (assign start e) same
      · exact Or.inl ⟨later, mem_cons_of_mem _ member, good⟩
      · rw [assign_apply] at before
        split at before
        · exact Or.inl ⟨e, mem_cons_self, ‹_›, some.inj before⟩
        · exact Or.inr before
  obtain found | impossible := general _ same
  · exact found
  · cases impossible

theorem assigned_ne_none {e : Entry} {kind : Kind} (member : e ∈ entries)
    (named : e.name = kind.name) : assigned entries kind ≠ none := by
  have keeps : ∀ (data : Kind → Option Bytes) (e : Entry), data kind ≠ none →
      assign data e kind ≠ none := by
    intro data e present
    rw [assign_apply]
    split
    · exact some_ne_none _
    · exact present
  have sets : ∀ data : Kind → Option Bytes, assign data e kind ≠ none := by
    intro data
    rw [assign_apply, if_pos named]
    exact some_ne_none _
  obtain ⟨before, behind, rfl⟩ := append_of_mem member
  unfold assigned
  rw [foldl_append, foldl_cons]
  exact foldlRecOn (motive := fun data => data kind ≠ none) behind _ (sets _)
    fun data present later _ => keeps data later present

end LRJS.Containers
