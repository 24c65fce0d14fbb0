/-
# Columns.ColumnRoundTrip -- a stored row is read back

After some rows every writer holds the values of its column one after the other
(`ColumnChunkWriter.after`), whatever the other columns hold.  The serialised form is the
header and these regions, so the region offset and a locator together point at the value.

The store has no columns to read when it is opened without any, `nc` has no room for
`2 ^ 32` columns, and a buffer that does not fit memory is never built; everything else is
read back (`columnStore_roundTrip`).
-/
import VecFetch.Columns.ColumnStore
import Mathlib.Data.List.Induction
import Mathlib.Data.List.Dedup
import Mathlib.Algebra.Order.BigOperators.Group.List
import Mathlib.Algebra.Order.Ring.Nat

namespace VecFetch.Columns

open VecFetch.Theory

set_option autoImplicit false

/-! ## Rows and their values -/

/-- The row has a value of the right type for every column. -/
def MatchesRow (schemas : List ColumnSchema) (row : Row) : Prop :=
  ∀ schema ∈ schemas, ∃ datum, row schema.id = some datum ∧ datum.dtype = schema.dtype ∧
    datum.data.length < 2 ^ 32

/-- The bytes of the row's value in a column. -/
def valueOf (schema : ColumnSchema) (row : Row) : List UInt8 :=
  match row schema.id with
  | none => []
  | some datum => datum.data

/-- The bytes of a column after some rows. -/
def columnBytes (schema : ColumnSchema) (rows : List Row) : List UInt8 :=
  rows.flatMap (valueOf schema)

/-- What a column takes in the serialised form. -/
def regionSize (rows : List Row) (schema : ColumnSchema) : ℕ :=
  (columnBytes schema rows).length +
    if dTypeIsFixedWidth schema.dtype then 0 else 8 * (rows.length + 1)

/-- The size of the serialised form. -/
def serialisedSize (schemas : List ColumnSchema) (rows : List Row) : ℕ :=
  4 + 8 * schemas.length + (schemas.map (regionSize rows)).sum

/-- The columns `ids` of the row, and no others. -/
def HoldsColumns (row : Row) (ids : List ColumnId) (back : Row) : Prop :=
  ∀ id, if id ∈ ids then
      ∃ datum datum', row id = some datum ∧ back id = some datum' ∧ datum.SameValue datum'
    else back id = none

/-- Every row is read back, whole and in every part. -/
structure ReadsRows (opened : ColumnStore) (schemas : List ColumnSchema) (rows : List Row)
    (locs : List IngestResult) : Prop where
  length : locs.length = rows.length
  whole : ∀ entry ∈ rows.zip locs, ∃ back, opened.read entry.2 = .ok back ∧
    HoldsColumns entry.1 (schemas.map ColumnSchema.id) back
  parts : ∀ entry ∈ rows.zip locs, ∀ ids ⊆ schemas.map ColumnSchema.id,
    ∃ back, opened.readColumns entry.2 ids = .ok back ∧ HoldsColumns entry.1 ids back

/-- What `writer` writes `reader` reads back. -/
def ColumnRoundTrip (room : ℕ) (writer reader : ColumnStore) (schemas : List ColumnSchema)
    (rows : List Row) : Prop :=
  ∃ locs image opened, writer.writeAll room schemas rows = some (.ok (locs, image)) ∧
    reader.openForRead image schemas = (opened, .ok ()) ∧ ReadsRows opened schemas rows locs

theorem columnBytes_append (schema : ColumnSchema) (rows rows' : List Row) :
    columnBytes schema (rows ++ rows') = columnBytes schema rows ++ columnBytes schema rows' :=
  List.flatMap_append

theorem columnBytes_singleton (schema : ColumnSchema) (row : Row) :
    columnBytes schema [row] = valueOf schema row := List.flatMap_singleton ..

theorem regionSize_mono (schema : ColumnSchema) (rows rows' : List Row) :
    regionSize rows schema ≤ regionSize (rows ++ rows') schema := by
  rw [regionSize, regionSize, columnBytes_append, List.length_append, List.length_append]
  split <;> omega

section Matching

variable {schemas : List ColumnSchema} {row : Row} {schema : ColumnSchema}

theorem MatchesRow.tail (whole : MatchesRow (schema :: schemas) row) : MatchesRow schemas row :=
  fun schema' mem => whole schema' (List.mem_cons_of_mem _ mem)

theorem MatchesRow.value (whole : MatchesRow schemas row) (mem : schema ∈ schemas) :
    ∃ datum, row schema.id = some datum ∧ datum.dtype = schema.dtype ∧
      datum.data = valueOf schema row ∧ (valueOf schema row).length < 2 ^ 32 := by
  obtain ⟨datum, present, type, short⟩ := whole schema mem
  have value : valueOf schema row = datum.data := by rw [valueOf, present]
  exact ⟨datum, present, type, value.symm, by rw [value]; exact short⟩

/-- A fixed-width value has the width of its type. -/
theorem MatchesRow.width (whole : MatchesRow schemas row) (mem : schema ∈ schemas)
    (isFixed : dTypeIsFixedWidth schema.dtype = true) :
    (valueOf schema row).length = dTypeSize schema.dtype := by
  obtain ⟨datum, -, type, value, -⟩ := whole.value mem
  rw [← value, ← type]
  exact Datum.data_fixed_length (by rw [type]; exact isFixed)

end Matching

/-! ## One column -/

namespace ColumnChunkWriter

/-- A writer that has taken one more value. -/
def push (w : ColumnChunkWriter) (data : List UInt8) : ColumnChunkWriter :=
  { w with
    dataBuf := w.dataBuf ++ data
    offsets := if dTypeIsFixedWidth w.schema.dtype then w.offsets
      else w.offsets ++ [UInt64.ofNat (w.dataBuf ++ data).length]
    numRecords := w.numRecords + 1 }

/-- The locator of the value a writer takes next. -/
def locate (w : ColumnChunkWriter) (data : List UInt8) : ColumnLocator :=
  ⟨w.chunkId, w.baseOffset + UInt64.ofNat w.dataBuf.length, UInt32.ofNat data.length,
    if dTypeIsFixedWidth w.schema.dtype then 0 else w.numRecords⟩

/-- The writer of a column after some rows. -/
def after (schema : ColumnSchema) (rows : List Row) : ColumnChunkWriter :=
  rows.foldl (fun w row => w.push (valueOf schema row)) (new schema 0 0)

theorem after_concat (schema : ColumnSchema) (rows : List Row) (row : Row) :
    after schema (rows ++ [row]) = (after schema rows).push (valueOf schema row) := by
  rw [after, List.foldl_append]
  rfl

/-- What a column's writer holds after some rows. -/
structure Holds (w : ColumnChunkWriter) (schema : ColumnSchema) (rows : List Row) : Prop where
  ofSchema : w.schema = schema
  chunkId : w.chunkId = 0
  baseOffset : w.baseOffset = 0
  dataBuf : w.dataBuf = columnBytes schema rows
  offsets : w.offsets.length = if dTypeIsFixedWidth schema.dtype then 0 else rows.length + 1

theorem after_holds (schema : ColumnSchema) (rows : List Row) :
    (after schema rows).Holds schema rows := by
  induction rows using List.reverseRecOn with
  | nil =>
      refine ⟨rfl, rfl, rfl, rfl, ?_⟩
      simp only [after, new, List.foldl_nil, List.length_nil]
      split <;> rfl
  | append_singleton rows row ih =>
      rw [after_concat]
      refine ⟨ih.ofSchema, ih.chunkId, ih.baseOffset, ?_, ?_⟩
      · rw [columnBytes_append, columnBytes_singleton, ← ih.dataBuf]
        rfl
      · have before := ih.offsets
        simp only [push, ih.ofSchema]
        split at before
        · rename_i isFixed
          rw [if_pos isFixed, if_pos isFixed, before]
        · rename_i isVar
          rw [if_neg isVar, if_neg isVar, List.length_append, before]
          simp only [List.length_append, List.length_singleton]

theorem Holds.dataSize {w : ColumnChunkWriter} {schema : ColumnSchema} {rows : List Row}
    (holds : w.Holds schema rows) : w.dataSize = (columnBytes schema rows).length := by
  rw [ColumnChunkWriter.dataSize, holds.dataBuf]

theorem Holds.size {w : ColumnChunkWriter} {schema : ColumnSchema} {rows : List Row}
    (holds : w.Holds schema rows) : w.dataSize + w.offsetTableSize = regionSize rows schema := by
  rw [holds.dataSize, offsetTableSize, holds.ofSchema, regionSize, holds.offsets]
  split <;> rfl

/-- A value of the right width is taken while there is room for it. -/
theorem append_ok {room : ℕ} {schemas : List ColumnSchema} {schema : ColumnSchema}
    {rows : List Row} {row : Row} {datum : Datum} (matching : MatchesRow schemas row)
    (mem : schema ∈ schemas) (present : row schema.id = some datum)
    (fits : regionSize (rows ++ [row]) schema ≤ room) :
    (after schema rows).append room datum =
      some ((after schema rows).push (valueOf schema row),
        .ok ((after schema rows).locate (valueOf schema row))) := by
  have holds := after_holds schema rows
  have value : datum.data = valueOf schema row := by rw [valueOf, present]
  rw [regionSize, columnBytes_append, columnBytes_singleton, List.length_append,
    List.length_append, List.length_singleton] at fits
  rw [append, appendBytes, value, push, locate, holds.ofSchema, holds.dataBuf, holds.offsets]
  by_cases isFixed : dTypeIsFixedWidth schema.dtype = true
  · rw [if_pos isFixed] at fits
    simp only [if_pos isFixed]
    rw [if_neg (not_not.2 (matching.width mem isFixed)), if_neg (by omega)]
  · rw [if_neg isFixed] at fits
    simp only [if_neg isFixed]
    rw [if_neg (by omega), if_neg (by omega)]

end ColumnChunkWriter

/-! ## All columns -/

namespace ColumnStore

open ColumnChunkWriter

variable {room : ℕ} {schemas : List ColumnSchema} {rows : List Row}

/-- The locators of a row that comes after some rows. -/
def locsOf (schemas : List ColumnSchema) (front : List Row) (row : Row) : IngestResult :=
  schemas.map fun schema => (schema.id, (after schema front).locate (valueOf schema row))

theorem ingestColumns_ok {row : Row} (matching : MatchesRow schemas row)
    (fits : ∀ schema ∈ schemas, regionSize (rows ++ [row]) schema ≤ room) :
    ingestColumns room row schemas (schemas.map fun schema => after schema rows) =
      some (schemas.map fun schema => after schema (rows ++ [row]),
        .ok (locsOf schemas rows row)) := by
  induction schemas with
  | nil => rfl
  | cons schema schemas ih =>
      obtain ⟨datum, present, -⟩ := matching.value List.mem_cons_self
      rw [List.map_cons, ingestColumns, present]
      dsimp only
      rw [append_ok matching List.mem_cons_self present (fits _ List.mem_cons_self)]
      dsimp only [Option.bind_some]
      rw [ih matching.tail fun schema' mem => fits schema' (List.mem_cons_of_mem _ mem),
        ← after_concat]
      rfl

/-- A store that has been opened for writing and has taken some rows. -/
structure HasRows (s : ColumnStore) (schemas : List ColumnSchema) (rows : List Row) : Prop where
  ofSchemas : s.schemas = schemas
  writers : s.writers = schemas.map fun schema => after schema rows
  opened : s.openedForWrite = true

theorem HasRows.ingest {s : ColumnStore} {row : Row} (has : s.HasRows schemas rows)
    (matching : MatchesRow schemas row)
    (fits : ∀ schema ∈ schemas, regionSize (rows ++ [row]) schema ≤ room) :
    ∃ next, s.ingest room row = some (next, .ok (locsOf schemas rows row)) ∧
      next.HasRows schemas (rows ++ [row]) := by
  rw [ColumnStore.ingest, if_pos has.opened, has.ofSchemas, has.writers,
    ingestColumns_ok matching fits]
  exact ⟨_, rfl, rfl, rfl, has.opened⟩

/-- The locators of some rows that come after others. -/
def locsFrom (schemas : List ColumnSchema) : List Row → List Row → List IngestResult
  | _, [] => []
  | front, row :: rows => locsOf schemas front row :: locsFrom schemas (front ++ [row]) rows

theorem HasRows.ingestAll {s : ColumnStore} (rows' : List Row) (has : s.HasRows schemas rows)
    (matching : ∀ row ∈ rows', MatchesRow schemas row)
    (fits : ∀ schema ∈ schemas, regionSize (rows ++ rows') schema ≤ room) :
    ∃ last, ColumnStore.ingestAll room rows' s =
        some (.ok (last, locsFrom schemas rows rows')) ∧
      last.HasRows schemas (rows ++ rows') := by
  induction rows' generalizing s rows with
  | nil => exact ⟨s, rfl, by rw [List.append_nil]; exact has⟩
  | cons row rows' ih =>
      have split : rows ++ row :: rows' = rows ++ [row] ++ rows' := by simp
      rw [split] at fits
      obtain ⟨next, taken, hasNext⟩ := has.ingest (matching row List.mem_cons_self)
        fun schema mem => (regionSize_mono schema _ rows').trans (fits schema mem)
      obtain ⟨last, others, hasLast⟩ := ih hasNext
        (fun row' mem => matching row' (List.mem_cons_of_mem _ mem)) fits
      refine ⟨last, ?_, by rw [split]; exact hasLast⟩
      rw [ColumnStore.ingestAll, taken]
      dsimp only [Option.bind_some]
      rw [others]
      rfl

/-! ## The serialised form -/

/-- The bytes of the columns. -/
def regionsOf (writers : List ColumnChunkWriter) : List UInt8 :=
  writers.flatMap ColumnChunkWriter.region

/-- The regions behind their header. -/
def imageOf (writers : List ColumnChunkWriter) : List UInt8 :=
  leBytes 4 (UInt32.ofNat writers.length).toNat ++
    ((layout writers 0).1.flatMap (fun offset => leBytes 8 offset.toNat) ++ regionsOf writers)

theorem layout_cons (w : ColumnChunkWriter) (writers : List ColumnChunkWriter) (cursor : ℕ) :
    layout (w :: writers) (UInt64.ofNat cursor) =
      (UInt64.ofNat cursor :: (layout writers (UInt64.ofNat (cursor + w.region.length))).1,
        (layout writers (UInt64.ofNat (cursor + w.region.length))).2) := by
  rw [layout, region_length, ← UInt64.ofNat_add, ← UInt64.ofNat_add, Nat.add_assoc]

theorem layout_length (writers : List ColumnChunkWriter) (cursor : UInt64) :
    (layout writers cursor).1.length = writers.length := by
  induction writers generalizing cursor with
  | nil => rfl
  | cons w writers ih =>
      rw [layout]
      exact congrArg Nat.succ (ih _)

/-- The cursor ends behind the last region. -/
theorem layout_cursor (writers : List ColumnChunkWriter) (cursor : ℕ) :
    (layout writers (UInt64.ofNat cursor)).2 =
      UInt64.ofNat (cursor + (regionsOf writers).length) := by
  induction writers generalizing cursor with
  | nil => rfl
  | cons w writers ih =>
      rw [layout_cons, ih, regionsOf, regionsOf, List.flatMap_cons, List.length_append,
        Nat.add_assoc]

/-- A region's offset is the size of the regions before it. -/
theorem layout_offset (front : List ColumnChunkWriter) (w : ColumnChunkWriter)
    (back : List ColumnChunkWriter) (cursor : ℕ) :
    (layout (front ++ w :: back) (UInt64.ofNat cursor)).1[front.length]? =
      some (UInt64.ofNat (cursor + (regionsOf front).length)) := by
  induction front generalizing cursor with
  | nil =>
      rw [List.nil_append, layout_cons]
      rfl
  | cons first front ih =>
      rw [List.cons_append, layout_cons, List.length_cons, List.getElem?_cons_succ, ih, regionsOf,
        regionsOf, List.flatMap_cons, List.length_append, Nat.add_assoc]

theorem header_length (writers : List ColumnChunkWriter) :
    ((layout writers 0).1.flatMap fun offset => leBytes 8 offset.toNat).length =
      8 * writers.length := by
  rw [List.length_flatMap, List.map_congr_left (fun _ _ => leBytes_length _ _), List.map_const',
    List.sum_replicate_nat, layout_length, Nat.mul_comm]

theorem imageOf_length (writers : List ColumnChunkWriter) :
    (imageOf writers).length = 4 + 8 * writers.length + (regionsOf writers).length := by
  rw [imageOf, List.length_append, List.length_append, header_length, leBytes_length,
    Nat.add_assoc]

theorem regionsOf_length (schemas : List ColumnSchema) (rows : List Row) :
    (regionsOf (schemas.map fun schema => after schema rows)).length =
      (schemas.map (regionSize rows)).sum := by
  rw [regionsOf, List.length_flatMap, List.map_map]
  congr 1
  refine List.map_congr_left fun schema _ => ?_
  exact (region_length _).trans (after_holds schema rows).size

theorem HasRows.image_length {s : ColumnStore} (has : s.HasRows schemas rows) :
    (imageOf s.writers).length = serialisedSize schemas rows := by
  rw [imageOf_length, has.writers, regionsOf_length, List.length_map, serialisedSize]

theorem serialiseAll_eq {s : ColumnStore} {image : List UInt8}
    (written : s.serialiseAll room = some (.ok image)) : image = imageOf s.writers := by
  unfold ColumnStore.serialiseAll at written
  dsimp only at written
  split at written
  · split at written
    · cases written
    · split at written
      · cases written
      · cases written
        rfl
  · cases written

/-- What fits memory is serialised. -/
theorem HasRows.serialiseAll {s : ColumnStore} (has : s.HasRows schemas rows)
    (fits : serialisedSize schemas rows ≤ room) (memory : room < 2 ^ 63) :
    s.serialiseAll room = some (.ok (imageOf s.writers)) := by
  have size := has.image_length
  have total : (4 + UInt64.ofNat s.writers.length * 8 + (layout s.writers 0).2).toNat =
      (imageOf s.writers).length := by
    have cursor := layout_cursor s.writers 0
    rw [Nat.zero_add] at cursor
    change (layout s.writers 0).2 = _ at cursor
    have whole : (4 + UInt64.ofNat s.writers.length * 8 + (layout s.writers 0).2) =
        UInt64.ofNat (imageOf s.writers).length := by
      rw [cursor, imageOf_length, UInt64.ofNat_add, UInt64.ofNat_add, UInt64.ofNat_mul,
        UInt64.mul_comm]
      rfl
    rw [whole, UInt64.toNat_ofNat', Nat.mod_eq_of_lt (by omega)]
  rw [ColumnStore.serialiseAll, if_pos has.opened]
  dsimp only
  rw [total, if_neg (by omega)]
  exact congrArg some (if_neg (lt_irrefl _))

/-! ## Opening it -/

/-- A store that has been opened over the serialised form of some rows. -/
structure OpenedOver (s : ColumnStore) (schemas : List ColumnSchema) (rows : List Row) :
    Prop where
  opened : s.openedForRead = true
  idToIdx : s.idToIdx = buildIdMap schemas
  readers : s.readers = schemas.map fun schema =>
    ⟨regionsOf (schemas.map fun schema => after schema rows), schema, 0⟩
  offsets : ∀ front schema back, schemas = front ++ schema :: back →
    s.regionOffsets[front.length]? = some (UInt64.ofNat (front.map (regionSize rows)).sum)

/-- The count in the header is cut to 32 bits. -/
theorem header_count (writers : List ColumnChunkWriter) :
    leValue (slice (imageOf writers) 0 4) = writers.length % 2 ^ 32 := by
  have first := @slice_append_right _ [] _ _ _ rfl
    (leBytes_length 4 (UInt32.ofNat writers.length).toNat)
    ((layout writers 0).1.flatMap (fun offset => leBytes 8 offset.toNat) ++ regionsOf writers)
  rw [List.nil_append, List.length_nil] at first
  rw [imageOf, first, leValue_leBytes (UInt32.toNat_lt _), UInt32.toNat_ofNat']

theorem openForRead_ok (reader : ColumnStore) (few : schemas.length < 2 ^ 32)
    (small : serialisedSize schemas rows < 2 ^ 63) :
    ∃ opened, reader.openForRead (imageOf (schemas.map fun schema => after schema rows)) schemas =
        (opened, .ok ()) ∧ opened.OpenedOver schemas rows := by
  have size := imageOf_length (schemas.map fun schema => after schema rows)
  rw [List.length_map, regionsOf_length] at size
  have count : leValue (slice (imageOf (schemas.map fun schema => after schema rows)) 0 4) =
      schemas.length := by
    rw [header_count, List.length_map, Nat.mod_eq_of_lt few]
  rw [openForRead]
  dsimp only
  rw [if_neg (by omega), if_neg (not_not.2 count)]
  refine ⟨_, rfl, rfl, rfl, ?_, ?_⟩
  · dsimp only
    -- behind the header are the regions
    have regions : (imageOf (schemas.map fun schema => after schema rows)).drop
        (4 + schemas.length * 8) = regionsOf (schemas.map fun schema => after schema rows) := by
      rw [imageOf, ← List.append_assoc]
      refine List.drop_left' ?_
      rw [List.length_append, header_length, leBytes_length, List.length_map, Nat.mul_comm]
    rw [regions]
  · rintro front schema back rfl
    dsimp only
    have entry := layout_offset (front.map fun schema => after schema rows) (after schema rows)
      (back.map fun schema => after schema rows) 0
    rw [regionsOf_length, List.length_map, Nat.zero_add] at entry
    have bytes : slice (imageOf ((front ++ schema :: back).map fun schema => after schema rows))
        (4 + front.length * 8) 8 =
          leBytes 8 (UInt64.ofNat (front.map (regionSize rows)).sum).toNat := by
      rw [imageOf, slice_append_right_add (leBytes_length 4 _)]
      refine slice_flatMap (fun offset => leBytes_length 8 (UInt64.toNat offset)) ?_ _
      rw [List.map_append, List.map_cons]
      exact entry
    have inRange : front.length < (front ++ schema :: back).length := by simp
    rw [List.getElem?_map, List.getElem?_range inRange]
    dsimp only [Option.map_some]
    rw [bytes, leValue_leBytes (UInt64.toNat_lt _), UInt64.ofNat_toNat]

theorem foldl_update_of_not_mem (entries : List (ColumnSchema × ℕ)) (map : ColumnId → Option ℕ)
    {id : ColumnId} (absent : ∀ entry ∈ entries, entry.1.id ≠ id) :
    (entries.foldl (fun (map : ColumnId → Option ℕ) entry =>
      Function.update map entry.1.id (some entry.2)) map) id = map id := by
  induction entries generalizing map with
  | nil => rfl
  | cons entry entries ih =>
      rw [List.foldl_cons, ih _ fun entry' mem => absent entry' (List.mem_cons_of_mem _ mem),
        Function.update_of_ne (absent entry List.mem_cons_self).symm]

/-- With distinct ids every column is found at its place. -/
theorem buildIdMap_eq {front : List ColumnSchema} {schema : ColumnSchema}
    {back : List ColumnSchema}
    (distinct : ((front ++ schema :: back).map ColumnSchema.id).Nodup) :
    buildIdMap (front ++ schema :: back) schema.id = some front.length := by
  rw [buildIdMap, List.zipIdx_append, List.foldl_append, List.zipIdx_cons, List.foldl_cons,
    foldl_update_of_not_mem, Function.update_self, Nat.zero_add]
  intro entry mem same
  have inBack : entry.1 ∈ back := List.fst_mem_of_mem_zipIdx mem
  rw [List.map_append, List.map_cons] at distinct
  have apart := (List.nodup_cons.1 (List.nodup_append.1 distinct).2.1).1
  exact apart (same ▸ List.mem_map_of_mem inBack)

/-! ## Reading a value -/

/-- The datum with these bytes. -/
def decode (schema : ColumnSchema) (bytes : List UInt8) : Datum :=
  if dTypeIsFixedWidth schema.dtype then { dtype := schema.dtype, fixed := Datum.fixedOf bytes }
  else { dtype := schema.dtype, varData := bytes }

theorem decode_sameValue {row : Row} (matching : MatchesRow schemas row) {schema : ColumnSchema}
    (mem : schema ∈ schemas) :
    ∃ datum, row schema.id = some datum ∧
      datum.SameValue (decode schema (valueOf schema row)) := by
  obtain ⟨datum, present, type, value, -⟩ := matching.value mem
  refine ⟨datum, present, ?_⟩
  rw [decode]
  split
  · rename_i isFixed
    have width := matching.width mem isFixed
    refine ⟨type, ?_⟩
    rw [value, Datum.data_fixed isFixed]
    dsimp only
    rw [← width, Datum.fixedOf_take (by rw [width]; exact dTypeSize_le _)]
  · rename_i isVar
    refine ⟨type, ?_⟩
    rw [value, Datum.data_var (by simpa using isVar)]

/-- The value between the values before it and what follows. -/
theorem slice_region (schema : ColumnSchema) (before : List Row) (row : Row) (later : List Row) :
    ∃ rest, (after schema (before ++ row :: later)).region =
      columnBytes schema before ++ (valueOf schema row ++ rest) := by
  refine ⟨columnBytes schema later ++ (after schema (before ++ row :: later)).offsetTable, ?_⟩
  rw [region, (after_holds _ _).dataBuf, columnBytes_append, columnBytes, columnBytes, columnBytes,
    List.flatMap_cons, List.append_assoc, List.append_assoc]

theorem readBytes_ok {r : ColumnChunkReader} {place : ℕ} {len : UInt32}
    (base : r.baseOffset = 0) (inside : place + len.toNat ≤ r.memData.length)
    (small : r.memData.length < 2 ^ 63) :
    r.readBytes (UInt64.ofNat place) len = .ok (slice r.memData place len.toNat) := by
  have here : (UInt64.ofNat place).toNat = place := by
    rw [UInt64.toNat_ofNat', Nat.mod_eq_of_lt (by omega)]
  have there : (UInt64.ofNat place + len.toUInt64).toNat = place + len.toNat := by
    rw [UInt64.toNat_add, here, UInt32.toNat_toUInt64, Nat.mod_eq_of_lt (by omega)]
  rw [ColumnChunkReader.readBytes, base, UInt64.sub_zero, there, here, if_neg (by omega),
    if_neg (by omega)]

theorem readDatum_ok {r : ColumnChunkReader} {loc : ColumnLocator} {bytes : List UInt8}
    (length : loc.dataLength.toNat = bytes.length)
    (width : dTypeIsFixedWidth r.schema.dtype = true → bytes.length = dTypeSize r.schema.dtype)
    (read : r.readBytes loc.dataOffset loc.dataLength = .ok bytes) :
    r.readDatum loc = .ok (decode r.schema bytes) := by
  rw [ColumnChunkReader.readDatum, decode, read]
  by_cases isFixed : dTypeIsFixedWidth r.schema.dtype = true
  · have short := dTypeSize_le r.schema.dtype
    rw [if_pos isFixed, if_pos isFixed, if_neg ?_]
    · rfl
    · rw [UInt32.lt_iff_toNat_lt, length, width isFixed]
      exact Nat.not_lt.2 short
  · rw [if_neg isFixed, if_neg isFixed]
    by_cases empty : loc.dataLength = 0
    · rw [empty] at length
      rw [if_pos empty, List.eq_nil_of_length_eq_zero length.symm]
    · rw [if_neg empty]
      rfl

/-- The locator that was handed out with a row leads to its value. -/
theorem OpenedOver.readColumn {s : ColumnStore} {before later : List Row} {row : Row}
    (stored : s.OpenedOver schemas (before ++ row :: later))
    (distinct : (schemas.map ColumnSchema.id).Nodup) (matching : MatchesRow schemas row)
    (small : serialisedSize schemas (before ++ row :: later) < 2 ^ 63) {schema : ColumnSchema}
    (mem : schema ∈ schemas) :
    s.readColumn schema.id ((after schema before).locate (valueOf schema row)) =
      .ok (decode schema (valueOf schema row)) := by
  obtain ⟨front, back, rfl⟩ := List.append_of_mem mem
  obtain ⟨-, -, -, -, short⟩ := matching.value mem
  have holds := after_holds schema before
  have offset := stored.offsets front schema back rfl
  have reader : s.readers[front.length]? = some ⟨regionsOf ((front ++ schema :: back).map fun
      schema => after schema (before ++ row :: later)), schema, 0⟩ := by
    rw [stored.readers]
    simp
  rw [ColumnStore.readColumn, if_pos stored.opened, stored.idToIdx, buildIdMap_eq distinct]
  dsimp only
  rw [offset, reader]
  dsimp only
  -- the value in the file
  obtain ⟨rest, region⟩ := slice_region schema before row later
  have regions : regionsOf ((front ++ schema :: back).map fun schema =>
      after schema (before ++ row :: later)) =
        (regionsOf (front.map fun schema => after schema (before ++ row :: later)) ++
          columnBytes schema before) ++ (valueOf schema row ++ (rest ++
            regionsOf (back.map fun schema => after schema (before ++ row :: later)))) := by
    rw [regionsOf, List.map_append, List.map_cons, List.flatMap_append, List.flatMap_cons, region,
      regionsOf, regionsOf]
    simp only [List.append_assoc]
  have size := regionsOf_length (front ++ schema :: back) (before ++ row :: later)
  have frontSize := regionsOf_length front (before ++ row :: later)
  rw [serialisedSize] at small
  have inside := congrArg List.length regions
  rw [List.length_append, List.length_append, List.length_append] at inside
  have length : (UInt32.ofNat (valueOf schema row).length).toNat = (valueOf schema row).length := by
    rw [UInt32.toNat_ofNat', Nat.mod_eq_of_lt short]
  refine readDatum_ok length (fun isFixed => matching.width mem isFixed) ?_
  dsimp only [locate]
  rw [holds.baseOffset, holds.dataBuf, UInt64.zero_add, ← UInt64.ofNat_add, Nat.add_comm,
    readBytes_ok rfl (by dsimp only; rw [length]; omega) (by dsimp only; omega)]
  dsimp only
  rw [regions, length, slice_append_right (by rw [List.length_append, regionsOf_length]) rfl]

/-! ## Reading rows -/

/-- The values of some columns, each put in once. -/
def collect (value : ColumnId → Datum) (ids : List ColumnId) (row : Row) : Row :=
  ids.foldl (fun row id => row.emplace id (value id)) row

theorem collect_apply (value : ColumnId → Datum) (ids : List ColumnId) (row : Row)
    (id : ColumnId) :
    collect value ids row id =
      if (row id).isSome then row id else if id ∈ ids then some (value id) else none := by
  induction ids generalizing row with
  | nil => cases present : row id <;> simp [collect, present]
  | cons first ids ih =>
      have next := ih (row.emplace first (value first))
      change collect value (first :: ids) row id = _ at next
      rw [next, Row.emplace]
      by_cases taken : (row first).isSome = true
      · rw [if_pos taken]
        by_cases here : id = first
        · rw [here, if_pos taken, if_pos taken]
        · simp only [List.mem_cons, here, false_or]
      · rw [if_neg taken]
        by_cases here : id = first
        · subst here
          rw [Function.update_self, if_neg taken, if_pos List.mem_cons_self]
          rfl
        · rw [Function.update_of_ne here]
          simp only [List.mem_cons, here, false_or]

section Reading

variable {s : ColumnStore} {value : ColumnId → Datum}

theorem readInto_ok (locs : IngestResult) (start : Row)
    (reads : ∀ entry ∈ locs, s.readColumn entry.1 entry.2 = .ok (value entry.1)) :
    readInto s.readColumn locs start = .ok (collect value (locs.map (·.1)) start) := by
  induction locs generalizing start with
  | nil => rfl
  | cons entry locs ih =>
      rw [readInto, reads entry List.mem_cons_self]
      exact ih _ fun entry' mem => reads entry' (List.mem_cons_of_mem _ mem)

theorem readWanted_ok (locs : IngestResult) (ids : List ColumnId) (start : Row)
    (reads : ∀ id ∈ ids, ∃ loc, wantedLoc locs id = some loc ∧
      s.readColumn id loc = .ok (value id)) :
    readWanted s.readColumn locs ids start = .ok (collect value ids start) := by
  induction ids generalizing start with
  | nil => rfl
  | cons id ids ih =>
      obtain ⟨loc, wanted, read⟩ := reads id List.mem_cons_self
      rw [readWanted, wanted]
      dsimp only
      rw [read]
      exact ih _ fun id' mem => reads id' (List.mem_cons_of_mem _ mem)

end Reading

/-- What is read back of a row. -/
def backOf (schemas : List ColumnSchema) (row : Row) (id : ColumnId) : Datum :=
  match schemas.find? fun schema => schema.id = id with
  | none => {}
  | some schema => decode schema (valueOf schema row)

theorem backOf_eq (distinct : (schemas.map ColumnSchema.id).Nodup) (row : Row)
    {schema : ColumnSchema} (mem : schema ∈ schemas) :
    backOf schemas row schema.id = decode schema (valueOf schema row) := by
  rw [backOf]
  cases found : schemas.find? fun schema' => schema'.id = schema.id with
  | none => simpa using List.find?_eq_none.1 found schema mem
  | some schema' =>
      obtain rfl := List.inj_on_of_nodup_map distinct (List.mem_of_find?_eq_some found) mem
        (by simpa using List.find?_some found)
      rfl

theorem wantedLoc_locsOf (distinct : (schemas.map ColumnSchema.id).Nodup) (front : List Row)
    (row : Row) {schema : ColumnSchema} (mem : schema ∈ schemas) :
    wantedLoc (locsOf schemas front row) schema.id =
      some ((after schema front).locate (valueOf schema row)) := by
  rw [wantedLoc]
  cases found : (locsOf schemas front row).reverse.find? fun entry => entry.1 = schema.id with
  | none =>
      have entry := List.mem_reverse.2 (List.mem_map_of_mem (f := fun schema' =>
        (schema'.id, (after schema' front).locate (valueOf schema' row))) mem)
      simpa using List.find?_eq_none.1 found _ entry
  | some entry =>
      obtain ⟨schema', mem', rfl⟩ := List.mem_map.1
        (List.mem_reverse.1 (List.mem_of_find?_eq_some found))
      obtain rfl := List.inj_on_of_nodup_map distinct mem' mem
        (by simpa using List.find?_some found)
      rfl

/-- The columns that were collected are the row's. -/
theorem holdsColumns_collect (distinct : (schemas.map ColumnSchema.id).Nodup) {row : Row}
    (matching : MatchesRow schemas row) {ids : List ColumnId}
    (known : ids ⊆ schemas.map ColumnSchema.id) :
    HoldsColumns row ids (collect (backOf schemas row) ids fun _ => none) := by
  intro id
  rw [collect_apply]
  by_cases asked : id ∈ ids
  · rw [if_pos asked]
    obtain ⟨schema, mem, rfl⟩ := List.mem_map.1 (known asked)
    obtain ⟨datum, present, same⟩ := decode_sameValue matching mem
    rw [← backOf_eq distinct row mem] at same
    exact ⟨datum, _, present, by simp [asked], same⟩
  · rw [if_neg asked]
    simp [asked]

/-- Every locator list came with its row. -/
theorem mem_zip_locsFrom {front rows : List Row} {row : Row} {locs : IngestResult}
    (mem : (row, locs) ∈ rows.zip (locsFrom schemas front rows)) :
    ∃ before later, rows = before ++ row :: later ∧
      locs = locsOf schemas (front ++ before) row := by
  induction rows generalizing front with
  | nil => cases mem
  | cons first rows ih =>
      rw [locsFrom, List.zip_cons_cons] at mem
      rcases List.mem_cons.1 mem with here | inRest
      · obtain ⟨rfl, rfl⟩ := Prod.mk.inj here
        exact ⟨[], rows, rfl, by rw [List.append_nil]⟩
      · obtain ⟨before, later, rfl, rfl⟩ := ih inRest
        exact ⟨first :: before, later, rfl, by rw [List.append_assoc]; rfl⟩

theorem locsFrom_length (front rows : List Row) :
    (locsFrom schemas front rows).length = rows.length := by
  induction rows generalizing front with
  | nil => rfl
  | cons row rows ih => exact congrArg Nat.succ (ih _)

theorem OpenedOver.readsRows {s : ColumnStore} (stored : s.OpenedOver schemas rows)
    (distinct : (schemas.map ColumnSchema.id).Nodup)
    (matching : ∀ row ∈ rows, MatchesRow schemas row)
    (small : serialisedSize schemas rows < 2 ^ 63) :
    ReadsRows s schemas rows (locsFrom schemas [] rows) := by
  -- every column of every row
  have column : ∀ {row locs}, (row, locs) ∈ rows.zip (locsFrom schemas [] rows) →
      ∃ front, locs = locsOf schemas front row ∧ MatchesRow schemas row ∧
        ∀ schema ∈ schemas, s.readColumn schema.id
          ((after schema front).locate (valueOf schema row)) =
            .ok (backOf schemas row schema.id) := by
    intro row locs mem
    obtain ⟨before, later, rfl, rfl⟩ := mem_zip_locsFrom mem
    have fitting := matching row (by simp)
    refine ⟨before, rfl, fitting, fun schema inSchemas => ?_⟩
    rw [backOf_eq distinct row inSchemas]
    exact stored.readColumn distinct fitting small inSchemas
  refine ⟨locsFrom_length _ _, ?_, ?_⟩
  · rintro ⟨row, locs⟩ mem
    obtain ⟨front, rfl, fitting, reads⟩ := column mem
    refine ⟨collect (backOf schemas row) (schemas.map ColumnSchema.id) fun _ => none, ?_,
      holdsColumns_collect distinct fitting fun _ inIds => inIds⟩
    have ids : (locsOf schemas front row).map (·.1) = schemas.map ColumnSchema.id := by
      rw [locsOf, List.map_map]
      rfl
    rw [← ids]
    refine readInto_ok _ _ fun entry inLocs => ?_
    obtain ⟨schema, inSchemas, rfl⟩ := List.mem_map.1 inLocs
    exact reads schema inSchemas
  · rintro ⟨row, locs⟩ mem ids known
    obtain ⟨front, rfl, fitting, reads⟩ := column mem
    have sameIds : ∀ id, id ∈ wantedIds ids ↔ id ∈ ids := fun id => by
      rw [wantedIds, List.mem_dedup, List.mem_mergeSort]
    refine ⟨collect (backOf schemas row) (wantedIds ids) fun _ => none, ?_, ?_⟩
    · refine readWanted_ok _ _ _ fun id wanted => ?_
      obtain ⟨schema, inSchemas, rfl⟩ := List.mem_map.1 (known ((sameIds id).1 wanted))
      exact ⟨_, wantedLoc_locsOf distinct front row inSchemas, reads schema inSchemas⟩
    · have holds := holdsColumns_collect distinct fitting
        (fun id wanted => known ((sameIds id).1 wanted))
      intro id
      have here := holds id
      simp only [sameIds] at here
      exact here

end ColumnStore

open ColumnStore

/-- **A column store gives its rows back**, whole and in every part. -/
theorem columnStore_roundTrip (room : ℕ) (writer reader : ColumnStore)
    (schemas : List ColumnSchema) (rows : List Row) (memory : room < 2 ^ 63)
    (distinct : (schemas.map ColumnSchema.id).Nodup)
    (matching : ∀ row ∈ rows, MatchesRow schemas row) (some_column : schemas ≠ [])
    (few : schemas.length < 2 ^ 32) (fits : serialisedSize schemas rows ≤ room) :
    ColumnRoundTrip room writer reader schemas rows := by
  have each : ∀ schema ∈ schemas, regionSize rows schema ≤ room := by
    intro schema mem
    have part := List.le_sum_of_mem (List.mem_map_of_mem (f := regionSize rows) mem)
    rw [serialisedSize] at fits
    omega
  have fresh : HasRows { writer with
      schemas := schemas, idToIdx := buildIdMap schemas, numRows := 0, openedForWrite := true
      writers := schemas.map fun schema => .new schema 0 0 } schemas [] := ⟨rfl, rfl, rfl⟩
  obtain ⟨last, taken, has⟩ := fresh.ingestAll rows matching each
  rw [List.nil_append] at has
  have written := has.serialiseAll fits memory
  rw [has.writers] at written
  obtain ⟨opened, ok, stored⟩ := openForRead_ok reader few (by omega : serialisedSize schemas rows < _)
  refine ⟨_, _, opened, ?_, ok, stored.readsRows distinct matching (by omega)⟩
  rw [writeAll, ColumnStore.open, if_neg some_column]
  dsimp only
  rw [taken]
  dsimp only [Option.bind_some]
  rw [written]
  rfl

/-- The law on two rows of a number and a string. -/
theorem columnStore_roundTrip_two_rows :
    ColumnRoundTrip 4096 {} {} [⟨7, .int32⟩, ⟨2, .string⟩]
      [fun id => if id = 7 then some { dtype := .int32 } else some { dtype := .string },
        fun id => if id = 7 then some { dtype := .int32 }
          else some { dtype := .string, varData := [97, 98] }] := by
  refine columnStore_roundTrip 4096 {} {} _ _ (by decide) (by decide) ?_ (by decide) (by decide)
    (by decide)
  intro row mem schema inSchemas
  rcases List.mem_cons.1 mem with rfl | mem
  · rcases List.mem_cons.1 inSchemas with rfl | inSchemas
    · exact ⟨_, rfl, rfl, by decide⟩
    · obtain rfl := List.mem_singleton.1 inSchemas
      exact ⟨_, rfl, rfl, by decide⟩
  · obtain rfl := List.mem_singleton.1 mem
    rcases List.mem_cons.1 inSchemas with rfl | inSchemas
    · exact ⟨_, rfl, rfl, by decide⟩
    · obtain rfl := List.mem_singleton.1 inSchemas
      exact ⟨_, rfl, rfl, by decide⟩

/-- `nc` is 0 for `2 ^ 32` columns. -/
theorem not_roundTrip_many_columns {schemas : List ColumnSchema}
    (many : schemas.length = 2 ^ 32) (room : ℕ) (writer reader : ColumnStore) :
    ¬ ColumnRoundTrip room writer reader schemas [] := by
  intro trip
  obtain ⟨locs, image, opened, written, ok, -⟩ := trip
  have some_column : schemas ≠ [] := fun none => by
    rw [none] at many
    cases many
  rw [writeAll, ColumnStore.open, if_neg some_column] at written
  dsimp only [ingestAll, Option.bind_some] at written
  obtain ⟨result, serialised, result_ok⟩ := Option.map_eq_some_iff.1 written
  cases result with
  | error failure => cases result_ok
  | ok bytes =>
      cases result_ok
      obtain rfl := serialiseAll_eq serialised
      have count := header_count (schemas.map fun schema => .new schema 0 0)
      rw [List.length_map, many, Nat.mod_self] at count
      rw [openForRead] at ok
      dsimp only at ok
      split at ok
      · cases ok
      · rw [if_pos (by rw [count, many]; decide)] at ok
        cases ok

/-- No columns, more columns than `nc` can count, and a string that does not fit memory. -/
theorem not_every_store_is_read_back :
    (∀ room writer reader rows, ¬ ColumnRoundTrip room writer reader [] rows) ∧
      (∃ schemas : List ColumnSchema, (schemas.map ColumnSchema.id).Nodup ∧
        ∀ room writer reader, ¬ ColumnRoundTrip room writer reader schemas []) ∧
      ¬ ColumnRoundTrip 3 {} {} [⟨0, .string⟩]
        [fun _ => some { dtype := .string, varData := [97, 98, 99, 100] }] := by
  refine ⟨?_, ⟨(List.range (2 ^ 32)).map fun i => ⟨UInt32.ofNat i, .int8⟩, ?_, ?_⟩, ?_⟩
  · intro room writer reader rows trip
    obtain ⟨locs, image, opened, written, -⟩ := trip
    cases written
  · rw [List.map_map]
    refine List.Nodup.map_on (fun i iIn j jIn same => ?_) List.nodup_range
    have small := List.mem_range.1 iIn
    have small' := List.mem_range.1 jIn
    have values := congrArg UInt32.toNat same
    simp only [Function.comp_apply, UInt32.toNat_ofNat'] at values
    rwa [Nat.mod_eq_of_lt small, Nat.mod_eq_of_lt small'] at values
  · exact not_roundTrip_many_columns (by rw [List.length_map, List.length_range])
  · intro trip
    obtain ⟨locs, image, opened, written, -⟩ := trip
    cases written

end VecFetch.Columns
