/-
# Storage.RawTable -- the raw address table of a data file

`EncodeRawTableV2` keeps an address as two page counts of 32 bits, and `DecodeRawEntryV2`
multiplies them back.  The encoder checks nothing, so the addresses of a file come back exactly
where every record starts below `2 ^ 32` pages and keeps a size of whole pages
(`rawTable_round_trips_iff`).
-/
import VecFetch.Storage.DataFileRoundTrip
import VecFetch.Storage.ClusterWriter

namespace VecFetch.Storage

open VecFetch.Theory VecFetch.Query

set_option autoImplicit false

/-! ## The table -/

/-- `AddressColumn::DecodeRawEntryV2`. -/
def decodeRawEntryV2 (entry : RawAddressEntryV2) (pageSize : UInt32) : AddressEntry :=
  ⟨entry.offsetPages.toUInt64 * pageSize.toUInt64,
    (entry.sizePages.toUInt64 * pageSize.toUInt64).toUInt32⟩

/-- `EncodeRawTableV2` as a call: `none` where a quotient by a page size of 0 ends the program.
There is no other way for it to fail. -/
def encodeRawTable (entries : List AddressEntry) (pageSize : UInt32) : Option AddressPayload :=
  if pageSize = 0 ∧ entries ≠ [] then none else some (encodeRawTableV2 entries pageSize)

/-- Entry `i` of a raw table, decoded. -/
def AddressPayload.entryAt (column : AddressPayload) (i : ℕ) : Option AddressEntry :=
  match column with
  | .v1Packed _ => none
  | .v2RawTable pageSize rawEntries _ => rawEntries[i]?.map (decodeRawEntryV2 · pageSize)

/-- An address that the fields of a table hold: whole pages, and fewer than `2 ^ 32` before it. -/
structure FitsTable (pageSize : UInt32) (entry : AddressEntry) : Prop where
  offset : pageSize.toNat ∣ entry.offset.toNat
  pages : entry.offset.toNat / pageSize.toNat < 2 ^ 32
  size : pageSize.toNat ∣ entry.size.toNat

/-- Every entry of the encoded table decodes to its address. -/
def TableRoundTrips (pageSize : UInt32) (addresses : List AddressEntry) : Prop :=
  ∃ column, encodeRawTable addresses pageSize = some column ∧
    ∀ i, i < addresses.length → column.entryAt i = addresses[i]?

/-- No table is given for an address that does not fit. -/
def TableRejects (pageSize : UInt32) (addresses : List AddressEntry) : Prop :=
  (∃ entry ∈ addresses, ¬ FitsTable pageSize entry) → encodeRawTable addresses pageSize = none

/-- One entry comes back exactly when it fits. -/
theorem decodeRawEntryV2_rawEntry {pageSize : UInt32} (pos : 0 < pageSize.toNat)
    (entry : AddressEntry) :
    decodeRawEntryV2 (rawEntry pageSize entry) pageSize = entry ↔ FitsTable pageSize entry := by
  have pageLt := pageSize.toNat_lt
  have offset : ((entry.offset / pageSize.toUInt64).toUInt32.toUInt64 * pageSize.toUInt64).toNat =
      entry.offset.toNat / pageSize.toNat % 2 ^ 32 * pageSize.toNat := by
    have small : entry.offset.toNat / pageSize.toNat % 2 ^ 32 * pageSize.toNat < 2 ^ 32 * 2 ^ 32 :=
      Nat.mul_lt_mul_of_lt_of_lt (Nat.mod_lt _ (by omega)) pageLt
    rw [UInt64.toNat_mul, UInt32.toNat_toUInt64, UInt64.toNat_toUInt32, UInt64.toNat_div,
      UInt32.toNat_toUInt64, Nat.mod_eq_of_lt (by omega)]
  have size : ((entry.size / pageSize).toUInt64 * pageSize.toUInt64).toUInt32.toNat =
      entry.size.toNat / pageSize.toNat * pageSize.toNat := by
    have whole := Nat.div_mul_le_self entry.size.toNat pageSize.toNat
    have small := entry.size.toNat_lt
    rw [UInt64.toNat_toUInt32, UInt64.toNat_mul, UInt32.toNat_toUInt64, UInt32.toNat_div,
      UInt32.toNat_toUInt64, Nat.mod_eq_of_lt (show _ * _ < 2 ^ 64 by omega),
      Nat.mod_eq_of_lt (by omega)]
  obtain ⟨entryOffset, entrySize⟩ := entry
  rw [decodeRawEntryV2, rawEntry, AddressEntry.mk.injEq, ← UInt64.toNat_inj, ← UInt32.toNat_inj,
    offset, size]
  constructor
  · rintro ⟨sameOffset, sameSize⟩
    have divides : pageSize.toNat ∣ entryOffset.toNat :=
      ⟨entryOffset.toNat / pageSize.toNat % 2 ^ 32, by rw [Nat.mul_comm]; exact sameOffset.symm⟩
    refine ⟨divides, ?_, ⟨entrySize.toNat / pageSize.toNat, by rw [Nat.mul_comm]; exact sameSize.symm⟩⟩
    dsimp only at sameOffset ⊢
    rw [← sameOffset, Nat.mul_div_cancel _ pos]
    exact Nat.mod_lt _ (by omega)
  · rintro ⟨divides, pages, wholeSize⟩
    dsimp only at divides pages wholeSize ⊢
    rw [Nat.mod_eq_of_lt pages]
    exact ⟨Nat.div_mul_cancel divides, Nat.div_mul_cancel wholeSize⟩

/-- A table gives its addresses back exactly when there are none, or each fits and a page has
bytes. -/
theorem tableRoundTrips_iff (pageSize : UInt32) (addresses : List AddressEntry) :
    TableRoundTrips pageSize addresses ↔
      addresses = [] ∨ (pageSize ≠ 0 ∧ ∀ entry ∈ addresses, FitsTable pageSize entry) := by
  by_cases empty : addresses = []
  · subst empty
    exact iff_of_true ⟨_, if_neg (by simp), fun i below => absurd below (by simp)⟩ (.inl rfl)
  · by_cases zero : pageSize = 0
    · refine iff_of_false ?_ (by simp [empty, zero])
      rintro ⟨column, encoded, _⟩
      rw [encodeRawTable, if_pos ⟨zero, empty⟩] at encoded
      cases encoded
    · have pos : 0 < pageSize.toNat := by
        refine Nat.pos_of_ne_zero fun none => zero (UInt32.toNat_inj.1 ?_)
        simpa using none
      have encoded : encodeRawTable addresses pageSize =
          some (encodeRawTableV2 addresses pageSize) := if_neg (by simp [zero])
      have entries : ∀ i, (encodeRawTableV2 addresses pageSize).entryAt i =
          addresses[i]?.map fun entry => decodeRawEntryV2 (rawEntry pageSize entry) pageSize := by
        intro i
        rw [encodeRawTableV2, AddressPayload.entryAt, List.getElem?_map, Option.map_map]
        rfl
      constructor
      · rintro ⟨column, given, each⟩
        obtain rfl := Option.some.inj (encoded.symm.trans given)
        refine .inr ⟨zero, fun entry mem => ?_⟩
        obtain ⟨i, inside, rfl⟩ := List.mem_iff_getElem.1 mem
        have here := each i inside
        rw [entries, List.getElem?_eq_getElem inside, Option.map_some] at here
        exact (decodeRawEntryV2_rawEntry pos _).1 (Option.some.inj here)
      · rintro (none | ⟨-, fits⟩)
        · exact absurd none empty
        · refine ⟨_, encoded, fun i inside => ?_⟩
          rw [entries, List.getElem?_eq_getElem inside, Option.map_some]
          rw [(decodeRawEntryV2_rawEntry pos _).2 (fits _ (List.getElem_mem inside))]

/-! ## The addresses of a file -/

section File

variable {dim : UInt32} {schemas : List ColumnSchema} {pageSize : UInt32}
  {records : List DataRecord}

/-- The bytes of a record in the file. -/
def storedBytes (dim : UInt32) (schemas : List ColumnSchema) (pageSize : UInt32)
    (record : DataRecord) : ℕ := paddedSize pageSize (rawBytes dim schemas record).length

/-- There are no records, or pages have bytes, each record starts below `2 ^ 32` pages, and what
32 bits keep of its size is whole pages. -/
def RecordsFitTable (dim : UInt32) (schemas : List ColumnSchema) (pageSize : UInt32)
    (records : List DataRecord) : Prop :=
  records = [] ∨ (pageSize ≠ 0 ∧ ∀ before record after, records = before ++ record :: after →
    (before.map (storedBytes dim schemas pageSize)).sum / pageSize.toNat < 2 ^ 32 ∧
      pageSize.toNat ∣ storedBytes dim schemas pageSize record % 2 ^ 32)

/-- Which addresses of parts that follow each other fit a table. -/
theorem addressesFrom_fit {parts : List (List UInt8)} {offset : ℕ}
    (small : offset + (parts.map List.length).sum < 2 ^ 63)
    (start : pageSize.toNat ∣ offset) (each : ∀ bytes ∈ parts, pageSize.toNat ∣ bytes.length) :
    (∀ entry ∈ DataFileWriter.addressesFrom offset parts, FitsTable pageSize entry) ↔
      ∀ before bytes after, parts = before ++ bytes :: after →
        (offset + (before.map List.length).sum) / pageSize.toNat < 2 ^ 32 ∧
          pageSize.toNat ∣ bytes.length % 2 ^ 32 := by
  induction parts generalizing offset with
  | nil => simp [DataFileWriter.addressesFrom]
  | cons bytes parts ih =>
      obtain ⟨exact_, later⟩ := offset_toNat bytes small
      have rest := ih later (Nat.dvd_add start (each bytes List.mem_cons_self))
        fun bytes mem => each bytes (List.mem_cons_of_mem _ mem)
      have here : FitsTable pageSize ⟨UInt64.ofNat offset, UInt32.ofNat bytes.length⟩ ↔
          offset / pageSize.toNat < 2 ^ 32 ∧ pageSize.toNat ∣ bytes.length % 2 ^ 32 := by
        constructor
        · rintro ⟨_, pages, size⟩
          dsimp only at pages size
          rw [exact_] at pages
          rw [UInt32.toNat_ofNat'] at size
          exact ⟨pages, size⟩
        · rintro ⟨pages, size⟩
          refine ⟨?_, ?_, ?_⟩ <;> dsimp only
          · rwa [exact_]
          · rwa [exact_]
          · rwa [UInt32.toNat_ofNat']
      rw [DataFileWriter.addressesFrom, List.forall_mem_cons, here, rest]
      constructor
      · rintro ⟨first, others⟩ before part after split
        cases before with
        | nil =>
            rw [List.nil_append, List.cons.injEq] at split
            rw [← split.1]
            simpa using first
        | cons head before =>
            rw [List.cons_append, List.cons.injEq] at split
            have there := others before part after split.2
            rw [← split.1, List.map_cons, List.sum_cons, ← Nat.add_assoc]
            exact there
      · intro all
        refine ⟨by simpa using all [] bytes parts rfl, fun before part after split => ?_⟩
        have there := all (bytes :: before) part after (by rw [split, List.cons_append])
        rwa [List.map_cons, List.sum_cons, ← Nat.add_assoc] at there

/-- The addresses of a file fit a table exactly when its records do. -/
theorem addresses_fit_iff (pos : 0 < pageSize.toNat)
    (small : ((records.map (recordBytes dim schemas pageSize)).map List.length).sum < 2 ^ 63) :
    (∀ entry ∈ DataFileWriter.addressesFrom 0 (records.map (recordBytes dim schemas pageSize)),
        FitsTable pageSize entry) ↔
      ∀ before record after, records = before ++ record :: after →
        (before.map (storedBytes dim schemas pageSize)).sum / pageSize.toNat < 2 ^ 32 ∧
          pageSize.toNat ∣ storedBytes dim schemas pageSize record % 2 ^ 32 := by
  have lengths : ∀ part : List DataRecord,
      (part.map (recordBytes dim schemas pageSize)).map List.length =
        part.map (storedBytes dim schemas pageSize) := by
    intro part
    rw [List.map_map]
    exact List.map_congr_left fun record _ => recordBytes_length dim schemas pageSize record
  have whole : ∀ bytes ∈ records.map (recordBytes dim schemas pageSize),
      pageSize.toNat ∣ bytes.length := by
    intro bytes mem
    obtain ⟨record, _, rfl⟩ := List.mem_map.1 mem
    have padded := paddedSize_dvd pageSize (rawBytes dim schemas record).length
    rwa [Nat.max_eq_right (by omega), ← recordBytes_length] at padded
  rw [addressesFrom_fit (by rwa [Nat.zero_add]) (Nat.dvd_zero _) whole]
  constructor
  · intro parts before record after split
    have there := parts (before.map (recordBytes dim schemas pageSize))
      (recordBytes dim schemas pageSize record) (after.map (recordBytes dim schemas pageSize))
      (by rw [split, List.map_append, List.map_cons])
    rwa [lengths, Nat.zero_add, recordBytes_length] at there
  · intro fits before bytes after split
    obtain ⟨before', tail, rfl, rfl, more⟩ := List.map_eq_append_iff.1 split
    obtain ⟨record, after', rfl, rfl, rfl⟩ := List.map_eq_cons_iff.1 more
    have there := fits before' record after' rfl
    rw [lengths, Nat.zero_add, recordBytes_length]
    exact there

end File

/-- **A file's addresses come back from a raw table exactly where its records fit one.** -/
theorem rawTable_round_trips_iff {space : ℕ} {dim : UInt32} {schemas : List ColumnSchema}
    {pageSize : UInt32} {records : List DataRecord} {addresses : List AddressEntry}
    {file : List UInt8}
    (written : DataFileWriter.writeFile space dim schemas pageSize records =
      .ok (addresses, file)) :
    (TableRoundTrips pageSize addresses ∧ TableRejects pageSize addresses) ↔
      RecordsFitTable dim schemas pageSize records := by
  obtain ⟨rfl, rfl, small⟩ := DataFileWriter.writeFile_spec written
  have total : ((records.map (recordBytes dim schemas pageSize)).map List.length).sum < 2 ^ 63 := by
    rwa [← List.length_flatten, ← List.flatMap_def]
  have none : DataFileWriter.addressesFrom 0 (records.map (recordBytes dim schemas pageSize)) = [] ↔
      records = [] := by
    cases records with
    | nil => simp [DataFileWriter.addressesFrom]
    | cons record records => simp [DataFileWriter.addressesFrom]
  have round : TableRoundTrips pageSize
      (DataFileWriter.addressesFrom 0 (records.map (recordBytes dim schemas pageSize))) ↔
        RecordsFitTable dim schemas pageSize records := by
    rw [tableRoundTrips_iff, none, RecordsFitTable]
    refine or_congr_right (and_congr_right fun nonzero => addresses_fit_iff ?_ total)
    exact Nat.pos_of_ne_zero fun zero => nonzero (UInt32.toNat_inj.1 (by simpa using zero))
  constructor
  · rintro ⟨trips, -⟩
    exact round.1 trips
  · intro fits
    refine ⟨round.2 fits, ?_⟩
    rintro ⟨entry, mem, unfit⟩
    rcases (tableRoundTrips_iff _ _).1 (round.2 fits) with empty | ⟨-, all⟩
    · rw [empty] at mem
      cases mem
    · exact absurd (all entry mem) unfit

/-- The law on two records in pages of 8 bytes. -/
theorem rawTable_round_trips_iff_two_records :
    ∃ addresses file,
      DataFileWriter.writeFile 4096 1 [] 8 [⟨[1, 2, 3, 4], []⟩, ⟨[5, 6, 7, 8], []⟩] =
        .ok (addresses, file) ∧
      ((TableRoundTrips 8 addresses ∧ TableRejects 8 addresses) ↔
        RecordsFitTable 1 [] 8 [⟨[1, 2, 3, 4], []⟩, ⟨[5, 6, 7, 8], []⟩]) := by
  obtain ⟨addresses, file, written⟩ : ∃ addresses file,
      DataFileWriter.writeFile 4096 1 [] 8 [⟨[1, 2, 3, 4], []⟩, ⟨[5, 6, 7, 8], []⟩] =
        .ok (addresses, file) := ⟨_, _, rfl⟩
  exact ⟨addresses, file, written, rawTable_round_trips_iff written⟩

/-- A record of `n` zero bytes. -/
def zeroRecord (n : ℕ) : DataRecord := ⟨List.replicate n 0, []⟩

theorem zeroRecord_bytes {n : ℕ} {dim : UInt32} (bytes : (vecBytesOf dim).toNat = n) :
    recordBytes dim [] 1 (zeroRecord n) = List.replicate n 0 := by
  rw [recordBytes, rawBytes, bytes, zeroRecord, List.take_replicate, Nat.min_self]
  simp [payloadBytes, paddedSize]

/-- Three records of `n` bytes, each `2 ^ 31`, unpadded: the third starts at byte `2 ^ 32`, whose
page count wraps to zero. -/
theorem third_record_wraps {n : ℕ} (large : n = 2 ^ 31) :
    ∃ addresses file,
      DataFileWriter.writeFile (2 ^ 63) 536870912 [] 1 [zeroRecord n, zeroRecord n, zeroRecord n] =
        .ok (addresses, file) ∧
      addresses[2]? = some ⟨4294967296, 2147483648⟩ ∧
      (encodeRawTableV2 addresses 1).entryAt 2 = some ⟨0, 2147483648⟩ := by
  have vec : (vecBytesOf 536870912).toNat = n := by
    rw [large]
    decide
  have lengths : ([zeroRecord n, zeroRecord n, zeroRecord n].flatMap
      (recordBytes 536870912 [] 1)).length = n + n + n := by
    rw [List.flatMap_cons, List.flatMap_cons, List.flatMap_cons, zeroRecord_bytes vec,
      List.flatMap_nil, List.append_nil, List.length_append, List.length_append,
      List.length_replicate]
    omega
  have written := @DataFileWriter.writeFile_ok (2 ^ 63) 536870912 [] 1
    [zeroRecord n, zeroRecord n, zeroRecord n] (by simp [zeroRecord]) (by
      rw [lengths, kMaxFileBytes]
      omega)
  have first : UInt32.ofNat n = 2147483648 := by
    rw [large]
    decide
  have second : UInt64.ofNat (0 + n + n) = 4294967296 := by
    rw [large]
    decide
  have addresses : DataFileWriter.addressesFrom 0
      ([zeroRecord n, zeroRecord n, zeroRecord n].map (recordBytes 536870912 [] 1)) =
        [⟨0, 2147483648⟩, ⟨UInt64.ofNat (0 + n), 2147483648⟩, ⟨4294967296, 2147483648⟩] := by
    rw [List.map_cons, List.map_cons, List.map_cons, List.map_nil, zeroRecord_bytes vec,
      DataFileWriter.addressesFrom, DataFileWriter.addressesFrom, DataFileWriter.addressesFrom,
      DataFileWriter.addressesFrom, List.length_replicate, first, second]
    rfl
  rw [addresses] at written
  exact ⟨_, _, written, rfl, rfl⟩

/-- The third record of a file without padding is read at the first one's place, and the encoder
gives the table. -/
theorem rawTable_wraps :
    ∃ addresses file,
      DataFileWriter.writeFile (2 ^ 63) 536870912 [] 1
        [zeroRecord (2 ^ 31), zeroRecord (2 ^ 31), zeroRecord (2 ^ 31)] = .ok (addresses, file) ∧
      ¬ (TableRoundTrips 1 addresses ∧ TableRejects 1 addresses) := by
  obtain ⟨addresses, file, written, third, decoded⟩ := third_record_wraps (Eq.refl (2 ^ 31))
  refine ⟨addresses, file, written, ?_⟩
  rintro ⟨⟨column, encoded, each⟩, -⟩
  obtain rfl : encodeRawTableV2 addresses 1 = column := by
    rw [encodeRawTable, if_neg (by simp)] at encoded
    exact Option.some.inj encoded
  have here := each 2 (List.getElem?_eq_some_iff.1 third).1
  rw [third, decoded] at here
  cases here

end VecFetch.Storage
