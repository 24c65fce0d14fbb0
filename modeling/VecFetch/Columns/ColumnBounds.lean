/-
# Columns.ColumnBounds -- which locators are read inside the data

`ReadColumn` adds the region offset of the file to the offset of the locator, and
`ReadBytes` the length to that; both sums are 64-bit and only the last is compared with
the size of the data.  A sum from `2 ^ 64` on wraps, so a value lies where the file and
the locator say exactly if the sum stays below, or wraps to something still too large
(`readColumn_inside_iff`).
-/
import VecFetch.Columns.ColumnRoundTrip

namespace VecFetch.Columns

open VecFetch.Theory

set_option autoImplicit false

namespace ColumnStore

/-! ## Opened stores -/

/-- The region offset that a file has for column `idx`. -/
def regionOffset (data : List UInt8) (idx : ℕ) : ℕ := leValue (slice data (4 + idx * 8) 8)

/-- The bytes behind the header. -/
def columnData (schemas : List ColumnSchema) (data : List UInt8) : List UInt8 :=
  data.drop (4 + schemas.length * 8)

/-- Either `OpenForRead` accepts the bytes for these columns. -/
inductive Opens (opened : ColumnStore) (schemas : List ColumnSchema) (data : List UInt8) : Prop
  | buffer (s : ColumnStore) (ok : s.openForRead data schemas = (opened, .ok ()))
  | file (s : ColumnStore) (path : String) (own : s.schemas = schemas)
      (ok : s.openForReadFile path (.content data) = (opened, .ok ()))

/-- What reading looks at in a store that was opened. -/
structure OpenedFrom (opened : ColumnStore) (schemas : List ColumnSchema) (data : List UInt8) :
    Prop where
  isOpen : opened.openedForRead = true
  idToIdx : opened.idToIdx = buildIdMap schemas
  offsets : opened.regionOffsets =
    (List.range schemas.length).map fun i => UInt64.ofNat (regionOffset data i)
  readers : opened.readers = schemas.map fun schema => ⟨columnData schemas data, schema, 0⟩

theorem Opens.openedFrom {opened : ColumnStore} {schemas : List ColumnSchema}
    {data : List UInt8} (opens : opened.Opens schemas data) :
    opened.OpenedFrom schemas data := by
  cases opens with
  | buffer s ok =>
      rw [openForRead] at ok
      split at ok
      · cases congrArg Prod.snd ok
      · dsimp only at ok
        split at ok
        · cases congrArg Prod.snd ok
        · cases ok
          exact ⟨rfl, rfl, rfl, rfl⟩
  | file s path own ok =>
      subst own
      rw [openForReadFile] at ok
      dsimp only at ok
      split at ok
      · cases congrArg Prod.snd ok
      · split at ok
        · cases congrArg Prod.snd ok
        · split at ok
          · cases congrArg Prod.snd ok
          · cases ok
            exact ⟨rfl, rfl, rfl, rfl⟩

/-- An index in the map is that of a column with the id. -/
theorem buildIdMap_some {schemas : List ColumnSchema} {id : ColumnId} {idx : ℕ}
    (found : buildIdMap schemas id = some idx) :
    ∃ schema, schemas[idx]? = some schema ∧ schema.id = id := by
  have folded (entries : List (ColumnSchema × ℕ)) (map : ColumnId → Option ℕ)
      (here : entries.foldl (fun (map : ColumnId → Option ℕ) (entry : ColumnSchema × ℕ) =>
        Function.update map entry.1.id (some entry.2)) map id = some idx) :
      map id = some idx ∨ ∃ entry ∈ entries, entry.1.id = id ∧ entry.2 = idx := by
    induction entries generalizing map with
    | nil => exact .inl here
    | cons first entries ih =>
        rcases ih _ here with before | ⟨entry, mem, named⟩
        · dsimp only at before
          by_cases same : id = first.1.id
          · rw [same, Function.update_self] at before
            exact .inr ⟨first, List.mem_cons_self, same.symm, Option.some.inj before⟩
          · rw [Function.update_of_ne same] at before
            exact .inl before
        · exact .inr ⟨entry, List.mem_cons_of_mem _ mem, named⟩
  rcases folded _ _ found with none | ⟨entry, mem, named, place⟩
  · cases none
  · refine ⟨entry.1, ?_, named⟩
    rw [← place]
    exact List.mk_mem_zipIdx_iff_getElem?.1 mem

theorem regionOffset_lt (data : List UInt8) (idx : ℕ) : regionOffset data idx < 2 ^ 64 := by
  refine Nat.lt_of_lt_of_le (leNat_lt _ _) (Nat.pow_le_pow_right (by decide) ?_)
  have short := slice_length_le data (4 + idx * 8) 8
  omega

/-! ## One read -/

/-- Where a value ends, as the file and the locator say. -/
def valueEnd (data : List UInt8) (idx : ℕ) (loc : ColumnLocator) : ℕ :=
  regionOffset data idx + loc.dataOffset.toNat + loc.dataLength.toNat

/-- A read that comes to the bytes: no more than a datum holds, or some of a varying number. -/
def AsksBytes (schema : ColumnSchema) (loc : ColumnLocator) : Prop :=
  if dTypeIsFixedWidth schema.dtype then loc.dataLength ≤ 8 else loc.dataLength ≠ 0

/-- The datum is the value that lies where the file and the locator say, or the empty one. -/
def ValueFrom (schemas : List ColumnSchema) (data : List UInt8) (idx : ℕ) (schema : ColumnSchema)
    (loc : ColumnLocator) (datum : Datum) : Prop :=
  (¬ AsksBytes schema loc ∧ datum = { dtype := schema.dtype }) ∨
    (valueEnd data idx loc ≤ (columnData schemas data).length ∧
      datum = decode schema (slice (columnData schemas data)
        (regionOffset data idx + loc.dataOffset.toNat) loc.dataLength.toNat))

/-- A status, or a value from inside the data. -/
structure ReadsInside (opened : ColumnStore) (schemas : List ColumnSchema) (data : List UInt8)
    (id : ColumnId) (loc : ColumnLocator) : Prop where
  inside : opened.readColumn id loc ≠ .error .outOfBounds
  value : ∀ datum, opened.readColumn id loc = .ok datum → ∃ idx schema,
    buildIdMap schemas id = some idx ∧ schemas[idx]? = some schema ∧
      ValueFrom schemas data idx schema loc datum

/-- The sum of a read stays below `2 ^ 64`, or wraps past the data. -/
def SumFits (schemas : List ColumnSchema) (data : List UInt8) (id : ColumnId)
    (loc : ColumnLocator) : Prop :=
  ∀ idx schema, buildIdMap schemas id = some idx → schemas[idx]? = some schema →
    AsksBytes schema loc →
      valueEnd data idx loc < 2 ^ 64 ∨
        (columnData schemas data).length < valueEnd data idx loc % 2 ^ 64

section Read

variable {schemas : List ColumnSchema} {data : List UInt8} {idx : ℕ} {schema : ColumnSchema}
  {loc : ColumnLocator}

/-- The locator with the region offset added. -/
def adjust (data : List UInt8) (idx : ℕ) (loc : ColumnLocator) : ColumnLocator :=
  { loc with
    dataOffset := loc.dataOffset + UInt64.ofNat (regionOffset data idx)
    offsetTablePos := loc.offsetTablePos + (UInt64.ofNat (regionOffset data idx)).toUInt32 }

theorem OpenedFrom.readColumn {opened : ColumnStore} (from_ : opened.OpenedFrom schemas data)
    {id : ColumnId} (found : buildIdMap schemas id = some idx) (here : schemas[idx]? = some schema)
    (loc : ColumnLocator) :
    opened.readColumn id loc =
      (⟨columnData schemas data, schema, 0⟩ : ColumnChunkReader).readDatum (adjust data idx loc) := by
  have below : idx < schemas.length := (List.getElem?_eq_some_iff.1 here).1
  have offset : opened.regionOffsets[idx]? = some (UInt64.ofNat (regionOffset data idx)) := by
    rw [from_.offsets, List.getElem?_map, List.getElem?_range below]
    rfl
  have reader : opened.readers[idx]? = some ⟨columnData schemas data, schema, 0⟩ := by
    rw [from_.readers, List.getElem?_map, here]
    rfl
  rw [ColumnStore.readColumn, if_pos from_.isOpen, from_.idToIdx, found]
  dsimp only
  rw [offset, reader]
  rfl

/-- The sum that `ReadBytes` compares, and the place that it copies from. -/
theorem adjust_sums (data : List UInt8) (idx : ℕ) (loc : ColumnLocator) :
    ((adjust data idx loc).dataOffset - 0 + loc.dataLength.toUInt64).toNat =
        valueEnd data idx loc % 2 ^ 64 ∧
      ((adjust data idx loc).dataOffset - 0).toNat =
        (regionOffset data idx + loc.dataOffset.toNat) % 2 ^ 64 := by
  have region := regionOffset_lt data idx
  have place : ((adjust data idx loc).dataOffset - 0).toNat =
      (regionOffset data idx + loc.dataOffset.toNat) % 2 ^ 64 := by
    rw [adjust, UInt64.sub_zero, UInt64.toNat_add, UInt64.toNat_ofNat', Nat.mod_eq_of_lt region,
      Nat.add_comm]
  refine ⟨?_, place⟩
  rw [UInt64.toNat_add, place, UInt32.toNat_toUInt64, Nat.mod_add_mod, valueEnd]

/-- Bytes that are asked for: from their place if the sum stays below `2 ^ 64` and the data
holds them, refused if it is past the data, from elsewhere if it wraps into the data. -/
theorem readBytes_adjust (small : data.length < 2 ^ 64) :
    let r : ColumnChunkReader := ⟨columnData schemas data, schema, 0⟩
    let read := r.readBytes (adjust data idx loc).dataOffset loc.dataLength
    ((columnData schemas data).length < valueEnd data idx loc % 2 ^ 64 →
      ∃ message, read = Status.ioError message) ∧
    (valueEnd data idx loc ≤ (columnData schemas data).length →
      read = .ok (slice (columnData schemas data)
        (regionOffset data idx + loc.dataOffset.toNat) loc.dataLength.toNat)) ∧
    (2 ^ 64 ≤ valueEnd data idx loc →
      valueEnd data idx loc % 2 ^ 64 ≤ (columnData schemas data).length →
        read = .error .outOfBounds ∨ ∃ bytes, read = .ok bytes) := by
  intro r read
  obtain ⟨sum, place⟩ := adjust_sums data idx loc
  have size : (columnData schemas data).length < 2 ^ 64 := by
    rw [columnData, List.length_drop]
    omega
  have unfolded : read = if (columnData schemas data).length < valueEnd data idx loc % 2 ^ 64 then
      Status.ioError ("ReadBytes: out of bounds (local=" ++
        toString ((adjust data idx loc).dataOffset - 0) ++ " len=" ++
        toString loc.dataLength ++ " size=" ++ toString (columnData schemas data).length ++ ")")
    else if (columnData schemas data).length <
        (regionOffset data idx + loc.dataOffset.toNat) % 2 ^ 64 + loc.dataLength.toNat then
      .error .outOfBounds
    else .ok (slice (columnData schemas data)
      ((regionOffset data idx + loc.dataOffset.toNat) % 2 ^ 64) loc.dataLength.toNat) := by
    rw [← sum, ← place]
    rfl
  rw [unfolded]
  refine ⟨fun past => ⟨_, if_pos past⟩, fun fits => ?_, fun _ inData => ?_⟩
  · have below : valueEnd data idx loc % 2 ^ 64 = valueEnd data idx loc :=
      Nat.mod_eq_of_lt (by omega)
    have start : (regionOffset data idx + loc.dataOffset.toNat) % 2 ^ 64 =
        regionOffset data idx + loc.dataOffset.toNat := by
      apply Nat.mod_eq_of_lt
      rw [valueEnd] at fits
      omega
    rw [valueEnd] at fits below
    rw [start, if_neg (by rw [valueEnd, below]; omega), if_neg (by omega)]
  · rw [if_neg (by omega)]
    split
    · exact .inl rfl
    · exact .inr ⟨_, rfl⟩

/-- A read that comes to the bytes makes them a datum. -/
theorem readDatum_asks {r : ColumnChunkReader} {loc : ColumnLocator}
    (asks : AsksBytes r.schema loc) :
    r.readDatum loc = (r.readBytes loc.dataOffset loc.dataLength).map (decode r.schema) := by
  rw [AsksBytes] at asks
  rw [ColumnChunkReader.readDatum]
  by_cases isFixed : dTypeIsFixedWidth r.schema.dtype = true
  · rw [if_pos isFixed] at asks ⊢
    rw [if_neg (UInt32.not_lt.2 asks)]
    refine congrArg (Except.map · _) (funext fun bytes => ?_)
    rw [decode, if_pos isFixed]
  · rw [if_neg isFixed] at asks ⊢
    rw [if_neg asks]
    refine congrArg (Except.map · _) (funext fun bytes => ?_)
    rw [decode, if_neg isFixed]

/-- Any other read is refused, or gives the empty value. -/
theorem readDatum_empty {r : ColumnChunkReader} {loc : ColumnLocator}
    (empty : ¬ AsksBytes r.schema loc) :
    (∃ message, r.readDatum loc = .error (.status .internal message)) ∨
      r.readDatum loc = .ok { dtype := r.schema.dtype } := by
  rw [AsksBytes] at empty
  rw [ColumnChunkReader.readDatum]
  by_cases isFixed : dTypeIsFixedWidth r.schema.dtype = true
  · rw [if_pos isFixed] at empty ⊢
    exact .inl ⟨_, if_pos (UInt32.not_le.1 empty)⟩
  · rw [if_neg isFixed] at empty ⊢
    exact .inr (if_pos (not_not.1 empty))

/-- Bytes that are asked for come from inside the data exactly where the sum fits. -/
theorem readBytes_inside_iff (small : data.length < 2 ^ 64) (asks : AsksBytes schema loc) :
    let read := ((⟨columnData schemas data, schema, 0⟩ : ColumnChunkReader).readBytes
      (adjust data idx loc).dataOffset loc.dataLength).map (decode schema)
    (read ≠ .error .outOfBounds ∧
        ∀ datum, read = .ok datum → ValueFrom schemas data idx schema loc datum) ↔
      valueEnd data idx loc < 2 ^ 64 ∨
        (columnData schemas data).length < valueEnd data idx loc % 2 ^ 64 := by
  dsimp only
  obtain ⟨past, fits, wraps⟩ := @readBytes_adjust schemas data idx schema loc small
  by_cases refused : (columnData schemas data).length < valueEnd data idx loc % 2 ^ 64
  · obtain ⟨message, read⟩ := past refused
    rw [read]
    exact iff_of_true (by simp [Status.ioError, Except.map]) (.inr refused)
  · by_cases inside : valueEnd data idx loc ≤ (columnData schemas data).length
    · have below : valueEnd data idx loc < 2 ^ 64 := by
        rw [columnData, List.length_drop] at inside
        omega
      rw [fits inside]
      refine iff_of_true ⟨by simp [Except.map], fun datum ok => .inr ⟨inside, ?_⟩⟩ (.inl below)
      exact (Except.ok.inj ok).symm
    · -- the sum wrapped into the data
      have large : 2 ^ 64 ≤ valueEnd data idx loc := by
        by_contra below
        rw [Nat.mod_eq_of_lt (by omega)] at refused
        omega
      refine iff_of_false ?_ (by omega)
      rintro ⟨notOutside, value⟩
      rcases wraps large (by omega) with outside | ⟨bytes, read⟩
      · apply notOutside
        rw [outside]
        rfl
      · have from' := value (decode schema bytes) (by rw [read]; rfl)
        rcases from' with ⟨empty, -⟩ | ⟨fits', -⟩
        · exact empty asks
        · exact inside fits'

/-- What the sum has to do, at the one column that has the id. -/
theorem sumFits_iff {id : ColumnId} (found : buildIdMap schemas id = some idx)
    (here : schemas[idx]? = some schema) :
    SumFits schemas data id loc ↔ (AsksBytes schema loc →
      valueEnd data idx loc < 2 ^ 64 ∨
        (columnData schemas data).length < valueEnd data idx loc % 2 ^ 64) := by
  constructor
  · exact fun fits => fits idx schema found here
  · intro fits idx' schema' found' here'
    obtain rfl := Option.some.inj (found.symm.trans found')
    obtain rfl := Option.some.inj (here.symm.trans here')
    exact fits

/-- What a read has to give, at the one column that has the id. -/
theorem readsInside_iff {opened : ColumnStore} {id : ColumnId}
    (found : buildIdMap schemas id = some idx) (here : schemas[idx]? = some schema) :
    opened.ReadsInside schemas data id loc ↔
      opened.readColumn id loc ≠ .error .outOfBounds ∧
        ∀ datum, opened.readColumn id loc = .ok datum →
          ValueFrom schemas data idx schema loc datum := by
  constructor
  · rintro ⟨inside, value⟩
    refine ⟨inside, fun datum ok => ?_⟩
    obtain ⟨idx', schema', found', here', from'⟩ := value datum ok
    obtain rfl := Option.some.inj (found.symm.trans found')
    obtain rfl := Option.some.inj (here.symm.trans here')
    exact from'
  · rintro ⟨inside, value⟩
    exact ⟨inside, fun datum ok => ⟨idx, schema, found, here, value datum ok⟩⟩

end Read

/-- **Reads stay inside the data** exactly where the sum of region offset, offset and length
stays below `2 ^ 64` or wraps to something past the data, for every file that is accepted
and every locator. -/
theorem readColumn_inside_iff {opened : ColumnStore} {schemas : List ColumnSchema}
    {data : List UInt8} (opens : opened.Opens schemas data) (small : data.length < 2 ^ 64)
    (id : ColumnId) (loc : ColumnLocator) :
    opened.ReadsInside schemas data id loc ↔ SumFits schemas data id loc := by
  have from_ := opens.openedFrom
  cases found : buildIdMap schemas id with
  | none =>
      have unknown : opened.readColumn id loc =
          .error (.status .notFound ("ReadColumn: unknown column " ++ toString id)) := by
        rw [ColumnStore.readColumn, if_pos from_.isOpen, from_.idToIdx, found]
      refine iff_of_true ⟨?_, ?_⟩ ?_
      · rw [unknown]
        simp
      · intro datum ok
        rw [unknown] at ok
        cases ok
      · intro idx schema here
        rw [found] at here
        cases here
  | some idx =>
      obtain ⟨schema, here, -⟩ := buildIdMap_some found
      rw [sumFits_iff found here, readsInside_iff found here, from_.readColumn found here]
      by_cases asks : AsksBytes schema loc
      · have same : (⟨columnData schemas data, schema, 0⟩ : ColumnChunkReader).readDatum
            (adjust data idx loc) = ((⟨columnData schemas data, schema, 0⟩ :
              ColumnChunkReader).readBytes (adjust data idx loc).dataOffset loc.dataLength).map
                (decode schema) := readDatum_asks asks
        rw [same, forall_prop_of_true asks]
        exact readBytes_inside_iff small asks
      · refine iff_of_true ?_ fun asks' => absurd asks' asks
        have answered := @readDatum_empty ⟨columnData schemas data, schema, 0⟩
          (adjust data idx loc) (by exact asks)
        rcases answered with ⟨message, refused⟩ | empty
        · rw [refused]
          simp
        · rw [empty]
          exact ⟨by simp, fun datum ok => .inl ⟨asks, (Except.ok.inj ok).symm⟩⟩

/-- One column of numbers that starts at region offset 0 and holds four bytes. -/
def oneNumber : List UInt8 := leBytes 4 1 ++ leBytes 8 0 ++ [1, 2, 3, 4]

theorem readColumn_inside_number :
    (({} : ColumnStore).openForRead oneNumber [⟨7, .int32⟩]).1.ReadsInside [⟨7, .int32⟩] oneNumber 7
        ⟨0, 0, 4, 0⟩ ↔ SumFits [⟨7, .int32⟩] oneNumber 7 ⟨0, 0, 4, 0⟩ :=
  readColumn_inside_iff (.buffer {} rfl) (by decide) 7 ⟨0, 0, 4, 0⟩

/-- An offset of `2 ^ 64 - 4` with a length of 4 makes 0, which passes the check. -/
theorem wrapping_locator_outside :
    ¬ (({} : ColumnStore).openForRead oneNumber [⟨7, .int32⟩]).1.ReadsInside [⟨7, .int32⟩] oneNumber
      7 ⟨0, 0xFFFFFFFFFFFFFFFC, 4, 0⟩ := by
  intro safe
  exact safe.inside (by decide)

end ColumnStore

end VecFetch.Columns
