/-
# Storage.DataFileRoundTrip -- when a record read back is the record written

A record whose padded size fits 32 bits is read back as it was written, and one that does
not is not (`readsBack_iff`).  The addresses follow each other without gaps; they are
told apart unless the records have no bytes.
-/
import VecFetch.Storage.DataFileParse
import Mathlib.Algebra.Order.BigOperators.Group.List
import Mathlib.Algebra.Order.Group.Nat

namespace VecFetch.Storage

open VecFetch.Theory VecFetch.Query

set_option autoImplicit false

/-! ## Records -/

/-- A record as a caller must give it: the memory of `dim` floats, and values of the
columns' types. -/
structure LegalRecord (dim : UInt32) (schemas : List ColumnSchema) (record : DataRecord) :
    Prop where
  vec : record.vec.length = 4 * dim.toNat
  payload : MatchesSchemas record.payload schemas

/-- The bytes a record needs, without padding. -/
def recordSize (dim : UInt32) (record : DataRecord) : ℕ :=
  4 * dim.toNat + (record.payload.map storedSize).sum

/-- What is read at an address is the record. -/
def ReadsBack (r : DataFileReader) (grant : ℕ → ℕ → ℕ) (record : DataRecord)
    (addr : AddressEntry) : Prop :=
  ∃ payload, r.readRecord grant addr = .ok (record.vec, payload) ∧
    List.Forall₂ Datum.SameValue record.payload payload

theorem vecBytesOf_toNat (dim : UInt32) : (vecBytesOf dim).toNat = 4 * dim.toNat % 2 ^ 32 := by
  rw [vecBytesOf, UInt32.toNat_mul, Nat.mul_comm]
  rfl

/-- `ReadRecord` of a reader that is open. -/
theorem readRecord_open (file : List UInt8) (dim : UInt32) (schemas : List ColumnSchema)
    (grant : ℕ → ℕ → ℕ) (addr : AddressEntry) :
    (DataFileReader.open file dim schemas).readRecord grant addr =
      ((DataFileReader.open file dim schemas).readRaw grant addr.offset addr.size).bind fun buf =>
        if addr.size < vecBytesOf dim then Status.invalidArgument "Record too small for vector"
        else if schemas = [] then .ok (slice buf 0 (vecBytesOf dim).toNat, [])
        else
          (DataFileReader.parseColumns buf addr.size schemas (vecBytesOf dim) []).2.map fun _ =>
            (slice buf 0 (vecBytesOf dim).toNat,
              (DataFileReader.parseColumns buf addr.size schemas (vecBytesOf dim) []).1) := by
  unfold DataFileReader.readRecord
  rw [if_neg (by simp [DataFileReader.open])]
  rfl

theorem rawBytes_length {dim : UInt32} {schemas : List ColumnSchema} {record : DataRecord}
    (legal : LegalRecord dim schemas record) (dimFits : 4 * dim.toNat < 2 ^ 32)
    (fits : ∀ d ∈ record.payload, LengthFits d) :
    (rawBytes dim schemas record).length = recordSize dim record := by
  rw [rawBytes, List.length_append, List.length_take, legal.vec, vecBytesOf_toNat,
    Nat.mod_eq_of_lt dimFits, Nat.min_self, payloadBytes_length legal.payload fits, recordSize]

/-- A size padded past `2 ^ 32` keeps fewer bytes than it has. -/
theorem paddedSize_truncated {pageSize : UInt32} {size : ℕ}
    (room : size ≤ paddedSize pageSize size % 2 ^ 32) : paddedSize pageSize size < 2 ^ 32 := by
  have := paddedSize_lt pageSize size
  omega

section Reading

variable {dim : UInt32} {schemas : List ColumnSchema} {pageSize : UInt32} {record : DataRecord}
  {file front back : List UInt8}

theorem lengthFits_of_size {d : Datum} (mem : d ∈ record.payload)
    (small : recordSize dim record < 2 ^ 32) : LengthFits d := by
  intro isVar
  have part : storedSize d ≤ (record.payload.map storedSize).sum :=
    List.le_sum_of_mem (List.mem_map_of_mem mem)
  rw [storedSize, isVar, if_neg Bool.false_ne_true] at part
  unfold recordSize at small
  omega

/-- The values that are parsed from what `WriteRecord` leaves of a payload. -/
def storedPayload (record : DataRecord) : List Datum :=
  record.payload.map fun d => readBack (cutValue d)

/-- A record whose matching payload is written after at least `vec_bytes` bytes of vector. -/
structure WrittenRecord (dim : UInt32) (schemas : List ColumnSchema) (record : DataRecord) :
    Prop where
  vec : (vecBytesOf dim).toNat ≤ record.vec.length
  payload : MatchesSchemas record.payload schemas

theorem LegalRecord.written (legal : LegalRecord dim schemas record) :
    WrittenRecord dim schemas record := by
  refine ⟨?_, legal.payload⟩
  rw [legal.vec, vecBytesOf_toNat]
  exact Nat.mod_le _ _

namespace WrittenRecord

theorem noColumns (written : WrittenRecord dim schemas record) (none : schemas = []) :
    record.payload = [] := by
  have counted := written.payload.length_eq
  rw [none] at counted
  exact List.length_eq_zero_iff.1 counted

theorem vec_length (written : WrittenRecord dim schemas record) :
    (record.vec.take (vecBytesOf dim).toNat).length = (vecBytesOf dim).toNat := by
  rw [List.length_take, Nat.min_eq_left written.vec]

theorem raw_length (written : WrittenRecord dim schemas record) :
    (rawBytes dim schemas record).length =
      (vecBytesOf dim).toNat + (payloadBytes record.payload schemas).length := by
  rw [rawBytes, List.length_append, written.vec_length]

theorem raw_le (dim : UInt32) (schemas : List ColumnSchema) (pageSize : UInt32)
    (record : DataRecord) :
    (rawBytes dim schemas record).length ≤ (recordBytes dim schemas pageSize record).length := by
  rw [recordBytes_length]
  exact le_paddedSize _ _

/-- The record's bytes: vector, payload, padding. -/
theorem bytes_eq (dim : UInt32) (schemas : List ColumnSchema) (pageSize : UInt32)
    (record : DataRecord) :
    recordBytes dim schemas pageSize record = record.vec.take (vecBytesOf dim).toNat ++
      (payloadBytes record.payload schemas ++ List.replicate
        (paddedSize pageSize (rawBytes dim schemas record).length -
          (rawBytes dim schemas record).length) 0) := by
  rw [recordBytes, rawBytes, List.append_assoc]

theorem vec_slice (written : WrittenRecord dim schemas record) (pageSize : UInt32) :
    slice (recordBytes dim schemas pageSize record) 0 (vecBytesOf dim).toNat =
      record.vec.take (vecBytesOf dim).toNat := by
  rw [bytes_eq, slice_append_left (by rw [written.vec_length]; omega), slice, List.drop_zero,
    List.take_of_length_le (Nat.le_of_eq written.vec_length)]

theorem payload_slice (written : WrittenRecord dim schemas record) (pageSize : UInt32) :
    slice (recordBytes dim schemas pageSize record) (vecBytesOf dim).toNat
        (payloadBytes record.payload schemas).length = payloadBytes record.payload schemas := by
  rw [bytes_eq]
  exact slice_append_right written.vec_length rfl _

/-- The payload's columns, parsed from any buffer they are found in. -/
theorem parse (written : WrittenRecord dim schemas record) {buf : List UInt8} {bufLen : UInt32}
    (whole : buf.length = bufLen.toNat) (offset : UInt32)
    (inside : offset.toNat + (payloadBytes record.payload schemas).length ≤ buf.length)
    (here : slice buf offset.toNat (payloadBytes record.payload schemas).length =
      payloadBytes record.payload schemas) :
    DataFileReader.parseColumns buf bufLen schemas offset [] = (storedPayload record, .ok ()) := by
  have cut := payloadBytes_cut written.payload
  rw [← cut] at inside here
  rw [DataFileReader.parseColumns_written (matchesSchemas_cut written.payload)
    (fun d mem => by
      obtain ⟨d', -, rfl⟩ := List.mem_map.1 mem
      exact cutValue_fits d') whole offset inside here [],
    List.nil_append, List.map_map]
  rfl

/-- A record of fewer than `2 ^ 32` bytes is read back as it was stored. -/
theorem readRecord (written : WrittenRecord dim schemas record) (grant : ℕ → ℕ → ℕ)
    (split : file = front ++ (recordBytes dim schemas pageSize record ++ back))
    (small : file.length < 2 ^ 63)
    (fits : (recordBytes dim schemas pageSize record).length < 2 ^ 32) :
    (DataFileReader.open file dim schemas).readRecord grant ⟨UInt64.ofNat front.length,
        UInt32.ofNat (recordBytes dim schemas pageSize record).length⟩ =
      .ok (record.vec.take (vecBytesOf dim).toNat, storedPayload record) := by
  have raw := written.raw_length
  have inside := raw_le dim schemas pageSize record
  have size : (UInt32.ofNat (recordBytes dim schemas pageSize record).length).toNat =
      (recordBytes dim schemas pageSize record).length := by
    rw [UInt32.toNat_ofNat', Nat.mod_eq_of_lt fits]
  have offset : (UInt64.ofNat front.length).toNat = front.length := by
    rw [split, List.length_append] at small
    rw [UInt64.toNat_ofNat', Nat.mod_eq_of_lt (by omega)]
  have got : (DataFileReader.open file dim schemas).readRaw grant (UInt64.ofNat front.length)
      (UInt32.ofNat (recordBytes dim schemas pageSize record).length) =
        .ok (recordBytes dim schemas pageSize record) := by
    rw [DataFileReader.readRaw_inside rfl grant (by
      rw [offset, size]
      change _ ≤ file.length
      rw [split, List.length_append, List.length_append]
      omega), offset, size]
    change Except.ok (slice file _ _) = _
    rw [split, slice_append_right rfl rfl]
  rw [readRecord_open, got]
  dsimp only [Except.bind]
  rw [if_neg (by rw [UInt32.lt_iff_toNat_lt, size]; omega), written.vec_slice,
    written.parse size.symm (vecBytesOf dim) (by omega) (written.payload_slice pageSize)]
  by_cases none : schemas = []
  · rw [if_pos none, storedPayload, written.noColumns none, List.map_nil]
  · rw [if_neg none]
    rfl

/-- A record that can be read has fewer than `2 ^ 32` bytes. -/
theorem fits_of_readRecord (written : WrittenRecord dim schemas record) {grant : ℕ → ℕ → ℕ}
    (split : file = front ++ (recordBytes dim schemas pageSize record ++ back))
    (small : file.length < 2 ^ 63) {read : List UInt8 × List Datum}
    (ok : (DataFileReader.open file dim schemas).readRecord grant ⟨UInt64.ofNat front.length,
        UInt32.ofNat (recordBytes dim schemas pageSize record).length⟩ = .ok read) :
    (recordBytes dim schemas pageSize record).length < 2 ^ 32 := by
  have raw := written.raw_length
  have inside := raw_le dim schemas pageSize record
  have size : (UInt32.ofNat (recordBytes dim schemas pageSize record).length).toNat =
      (recordBytes dim schemas pageSize record).length % 2 ^ 32 := by rw [UInt32.toNat_ofNat']
  have shorter := Nat.mod_le (recordBytes dim schemas pageSize record).length (2 ^ 32)
  have offset : (UInt64.ofNat front.length).toNat = front.length := by
    rw [split, List.length_append] at small
    rw [UInt64.toNat_ofNat', Nat.mod_eq_of_lt (by omega)]
  have got : (DataFileReader.open file dim schemas).readRaw grant (UInt64.ofNat front.length)
      (UInt32.ofNat (recordBytes dim schemas pageSize record).length) =
        .ok ((recordBytes dim schemas pageSize record).take
          ((recordBytes dim schemas pageSize record).length % 2 ^ 32)) := by
    rw [DataFileReader.readRaw_inside rfl grant (by
      rw [offset, size]
      change _ ≤ file.length
      rw [split, List.length_append, List.length_append]
      omega), offset, size]
    change Except.ok (slice file _ _) = _
    rw [split, slice, List.drop_left, List.take_append_of_le_length shorter]
  rw [readRecord_open, got] at ok
  dsimp only [Except.bind] at ok
  -- what is parsed reaches to the end of the columns, past which nothing was cut off
  have reach : (rawBytes dim schemas record).length ≤
      (recordBytes dim schemas pageSize record).length % 2 ^ 32 := by
    by_cases short : UInt32.ofNat (recordBytes dim schemas pageSize record).length <
        vecBytesOf dim
    · rw [if_pos short] at ok
      cases ok
    · rw [if_neg short] at ok
      rw [UInt32.lt_iff_toNat_lt, size] at short
      by_cases none : schemas = []
      · have columns : payloadBytes record.payload schemas = [] := by
          rw [written.noColumns none]
          rfl
        rw [raw, columns, List.length_nil]
        omega
      · rw [if_neg none] at ok
        have whole : ((recordBytes dim schemas pageSize record).take
            ((recordBytes dim schemas pageSize record).length % 2 ^ 32)).length =
              (UInt32.ofNat (recordBytes dim schemas pageSize record).length).toNat := by
          rw [List.length_take, size, Nat.min_eq_left shorter]
        cases parsed : DataFileReader.parseColumns ((recordBytes dim schemas pageSize record).take
            ((recordBytes dim schemas pageSize record).length % 2 ^ 32))
            (UInt32.ofNat (recordBytes dim schemas pageSize record).length) schemas
            (vecBytesOf dim) [] with
        | mk columns status =>
            rw [parsed] at ok
            cases status with
            | error e => cases ok
            | ok u =>
                have cut := payloadBytes_cut written.payload
                have reached := DataFileReader.parseColumns_whole
                  (matchesSchemas_cut written.payload) (fun d mem => by
                    obtain ⟨d', -, rfl⟩ := List.mem_map.1 mem
                    exact cutValue_fits d') whole (by rw [whole, size]) (by rw [whole, size]; omega)
                  (by rw [cut]; exact written.payload_slice pageSize) parsed
                rw [cut, whole, size] at reached
                rw [raw]
                exact reached
  rw [recordBytes_length] at reach ⊢
  exact paddedSize_truncated reach

end WrittenRecord

theorem cutValue_of_fits {d : Datum} (fits : LengthFits d) : cutValue d = d := by
  unfold cutValue
  split
  · rfl
  · rename_i isVar
    have small := fits (by simpa using isVar)
    have len : (UInt32.ofNat d.varData.length).toNat = d.varData.length := by
      rw [UInt32.toNat_ofNat', Nat.mod_eq_of_lt small]
    rw [len, List.take_length]

/-- **A record is read back exactly when its padded size fits 32 bits.** -/
theorem readsBack_iff (grant : ℕ → ℕ → ℕ) (legal : LegalRecord dim schemas record)
    (split : file = front ++ (recordBytes dim schemas pageSize record ++ back))
    (small : file.length < 2 ^ 63) :
    ReadsBack (DataFileReader.open file dim schemas) grant record
        ⟨UInt64.ofNat front.length,
          UInt32.ofNat (recordBytes dim schemas pageSize record).length⟩ ↔
      paddedSize pageSize (recordSize dim record) < 2 ^ 32 := by
  have written := legal.written
  constructor
  · intro reads
    obtain ⟨payload, ok, same⟩ := reads
    have fits := written.fits_of_readRecord split small ok
    rw [written.readRecord grant split small fits] at ok
    obtain ⟨vec, stored⟩ := Prod.mk.inj (Except.ok.inj ok)
    have dimFits : 4 * dim.toNat < 2 ^ 32 := by
      have length := congrArg List.length vec
      rw [written.vec_length, legal.vec] at length
      have := (vecBytesOf dim).toNat_lt
      omega
    have payloadFits : ∀ d ∈ record.payload, LengthFits d := by
      rw [← stored, storedPayload, List.forall₂_map_right_iff, List.forall₂_same] at same
      intro d mem
      refine lengthFits_congr (same d mem) ?_
      exact lengthFits_congr (readBack_sameValue _).symm (cutValue_fits d)
    rw [recordBytes_length, rawBytes_length legal dimFits payloadFits] at fits
    exact fits
  · intro fits
    have lower := le_paddedSize pageSize (recordSize dim record)
    have sizeFits : recordSize dim record < 2 ^ 32 := by omega
    have dimFits : 4 * dim.toNat < 2 ^ 32 := by
      unfold recordSize at sizeFits
      omega
    have payloadFits : ∀ d ∈ record.payload, LengthFits d :=
      fun d mem => lengthFits_of_size mem sizeFits
    have raw := rawBytes_length legal dimFits payloadFits
    have vec : record.vec.take (vecBytesOf dim).toNat = record.vec := by
      rw [vecBytesOf_toNat, Nat.mod_eq_of_lt dimFits, ← legal.vec, List.take_length]
    refine ⟨storedPayload record, ?_, ?_⟩
    · rw [written.readRecord grant split small (by rw [recordBytes_length, raw]; exact fits), vec]
    · rw [storedPayload, List.forall₂_map_right_iff, List.forall₂_same]
      intro d mem
      rw [cutValue_of_fits (payloadFits d mem)]
      exact readBack_sameValue d

end Reading

/-! ## The addresses -/

/-- Addresses that start on pages, one after another without gaps, and never overlap. -/
structure AddressChain (pageSize : UInt32) (addresses : List AddressEntry) : Prop where
  aligned : ∀ a ∈ addresses, max 1 pageSize.toNat ∣ a.offset.toNat
  increasing : addresses.Pairwise fun a b => a.offset < b.offset
  contiguous : addresses.IsChain fun a b => b.offset.toNat = a.offset.toNat + a.size.toNat
  apart : addresses.Pairwise fun a b => a.offset.toNat + a.size.toNat ≤ b.offset.toNat

section Addresses

open DataFileWriter

variable {pageSize : UInt32} {parts : List (List UInt8)} {offset : ℕ}

theorem offset_toNat (bytes : List UInt8)
    (small : offset + ((bytes :: parts).map List.length).sum < 2 ^ 63) :
    (UInt64.ofNat offset).toNat = offset ∧
      offset + bytes.length + (parts.map List.length).sum < 2 ^ 63 := by
  rw [List.map_cons, List.sum_cons] at small
  refine ⟨?_, by omega⟩
  rw [UInt64.toNat_ofNat', Nat.mod_eq_of_lt (by omega)]

theorem addressesFrom_ge (small : offset + (parts.map List.length).sum < 2 ^ 63)
    {a : AddressEntry} (mem : a ∈ addressesFrom offset parts) : offset ≤ a.offset.toNat := by
  induction parts generalizing offset with
  | nil => cases mem
  | cons bytes parts ih =>
      obtain ⟨exact_, later⟩ := offset_toNat bytes small
      rcases List.mem_cons.1 mem with rfl | mem
      · exact Nat.le_of_eq exact_.symm
      · exact Nat.le_trans (Nat.le_add_right _ _) (ih later mem)

theorem addressesFrom_aligned (small : offset + (parts.map List.length).sum < 2 ^ 63) {page : ℕ}
    (start : page ∣ offset) (each : ∀ bytes ∈ parts, page ∣ bytes.length) :
    ∀ a ∈ addressesFrom offset parts, page ∣ a.offset.toNat := by
  induction parts generalizing offset with
  | nil => simp [addressesFrom]
  | cons bytes parts ih =>
      obtain ⟨exact_, later⟩ := offset_toNat bytes small
      intro a mem
      rcases List.mem_cons.1 mem with rfl | mem
      · dsimp only
        rwa [exact_]
      · exact ih later (Nat.dvd_add start (each bytes (by simp)))
          (fun bytes mem => each bytes (by simp [mem])) a mem

theorem addressesFrom_apart (small : offset + (parts.map List.length).sum < 2 ^ 63)
    (fits : ∀ bytes ∈ parts, bytes.length < 2 ^ 32) :
    (addressesFrom offset parts).Pairwise fun a b =>
      a.offset.toNat + a.size.toNat ≤ b.offset.toNat := by
  induction parts generalizing offset with
  | nil => exact .nil
  | cons bytes parts ih =>
      obtain ⟨exact_, later⟩ := offset_toNat bytes small
      refine .cons (fun a mem => ?_) (ih later fun bytes mem => fits bytes (by simp [mem]))
      dsimp only
      rw [exact_, UInt32.toNat_ofNat', Nat.mod_eq_of_lt (fits bytes (by simp))]
      exact addressesFrom_ge later mem

theorem addressesFrom_contiguous (small : offset + (parts.map List.length).sum < 2 ^ 63)
    (fits : ∀ bytes ∈ parts, bytes.length < 2 ^ 32) :
    (addressesFrom offset parts).IsChain fun a b =>
      b.offset.toNat = a.offset.toNat + a.size.toNat := by
  induction parts generalizing offset with
  | nil => exact .nil
  | cons bytes parts ih =>
      obtain ⟨exact_, later⟩ := offset_toNat bytes small
      have tail := ih later fun bytes mem => fits bytes (by simp [mem])
      cases parts with
      | nil => exact .singleton _
      | cons bytes' parts =>
          refine .cons_cons ?_ tail
          dsimp only
          rw [exact_, (offset_toNat bytes' later).1, UInt32.toNat_ofNat',
            Nat.mod_eq_of_lt (fits bytes (by simp))]

/-- Parts with bytes have rising addresses. -/
theorem addressesFrom_increasing (small : offset + (parts.map List.length).sum < 2 ^ 63)
    (some : ∀ bytes ∈ parts, 0 < bytes.length) :
    (addressesFrom offset parts).Pairwise fun a b => a.offset < b.offset := by
  induction parts generalizing offset with
  | nil => exact .nil
  | cons bytes parts ih =>
      obtain ⟨exact_, later⟩ := offset_toNat bytes small
      refine .cons (fun a mem => ?_) (ih later fun bytes mem => some bytes (by simp [mem]))
      have further := addressesFrom_ge later mem
      have here := some bytes (by simp)
      rw [UInt64.lt_iff_toNat_lt]
      dsimp only
      omega

end Addresses

/-! ## The whole file -/

section File

variable {dim : UInt32} {schemas : List ColumnSchema} {pageSize : UInt32}
  {records : List DataRecord}

/-- What was written is read back at the addresses that were returned, and these follow
each other. -/
structure DataFileRoundTrip (dim : UInt32) (schemas : List ColumnSchema) (pageSize : UInt32)
    (grant : ℕ → ℕ → ℕ) (records : List DataRecord) (addresses : List AddressEntry)
    (file : List UInt8) : Prop where
  reads : List.Forall₂ (ReadsBack (DataFileReader.open file dim schemas) grant) records addresses
  chain : AddressChain pageSize addresses

/-- Every padded record fits 32 bits, and two records are not both empty. -/
structure RecordsFit (dim : UInt32) (schemas : List ColumnSchema) (pageSize : UInt32)
    (records : List DataRecord) : Prop where
  sizes : ∀ record ∈ records, paddedSize pageSize (recordSize dim record) < 2 ^ 32
  bytes : records.length ≤ 1 ∨ 0 < dim.toNat ∨ schemas ≠ []

theorem reads_iff (grant : ℕ → ℕ → ℕ) (legal : ∀ record ∈ records, LegalRecord dim schemas record)
    {file front : List UInt8}
    (split : file = front ++ records.flatMap (recordBytes dim schemas pageSize))
    (small : file.length < 2 ^ 63) :
    List.Forall₂ (ReadsBack (DataFileReader.open file dim schemas) grant) records
        (DataFileWriter.addressesFrom front.length
          (records.map (recordBytes dim schemas pageSize))) ↔
      ∀ record ∈ records, paddedSize pageSize (recordSize dim record) < 2 ^ 32 := by
  induction records generalizing front with
  | nil => simp [DataFileWriter.addressesFrom]
  | cons record records ih =>
      rw [List.flatMap_cons] at split
      have here := readsBack_iff grant (legal record (by simp)) split small
      have later := ih (fun record mem => legal record (by simp [mem]))
        (show file = (front ++ recordBytes dim schemas pageSize record) ++
          records.flatMap (recordBytes dim schemas pageSize) by rw [split, List.append_assoc])
      rw [List.length_append] at later
      rw [List.map_cons, DataFileWriter.addressesFrom, List.forall₂_cons, here, later,
        List.forall_mem_cons]

theorem recordSize_pos {record : DataRecord} (legal : LegalRecord dim schemas record)
    (bytes : 0 < dim.toNat ∨ schemas ≠ []) : 0 < recordSize dim record := by
  unfold recordSize
  rcases bytes with some | columns
  · omega
  · have counted := legal.payload.length_eq
    cases payload : record.payload with
    | nil =>
        rw [payload] at counted
        exact absurd (List.length_eq_zero_iff.1 counted.symm) columns
    | cons d rest =>
        have := storedSize_pos d
        rw [List.map_cons, List.sum_cons]
        omega

/-- **The data file gives its records back, from addresses that follow each other, exactly
where every padded record fits 32 bits and no two records are empty.** -/
theorem dataFile_roundTrip_iff (space : ℕ) (grant : ℕ → ℕ → ℕ) (dim : UInt32)
    (schemas : List ColumnSchema) (pageSize : UInt32) (records : List DataRecord)
    (addresses : List AddressEntry) (file : List UInt8)
    (legal : ∀ record ∈ records, LegalRecord dim schemas record)
    (written : DataFileWriter.writeFile space dim schemas pageSize records =
      .ok (addresses, file)) :
    DataFileRoundTrip dim schemas pageSize grant records addresses file ↔
      RecordsFit dim schemas pageSize records := by
  obtain ⟨there, whole, small⟩ := DataFileWriter.writeFile_spec written
  have reads := @reads_iff dim schemas pageSize records grant legal file []
    (by rw [whole, List.nil_append]) small
  rw [List.length_nil, ← there] at reads
  have total : 0 + ((records.map (recordBytes dim schemas pageSize)).map List.length).sum <
      2 ^ 63 := by
    rw [whole, List.length_flatMap] at small
    rw [List.map_map, Nat.zero_add]
    exact small
  constructor
  · intro trip
    refine ⟨reads.1 trip.reads, ?_⟩
    by_contra empty
    rw [not_or, not_or, not_not] at empty
    obtain ⟨two, noDim, noColumns⟩ := empty
    have rising := trip.chain.increasing
    rw [there] at rising
    cases records with
    | nil => simp at two
    | cons first records =>
        cases records with
        | nil => simp at two
        | cons second records =>
            have none : (recordBytes dim schemas pageSize first).length = 0 := by
              have payload : first.payload = [] := by
                have := (legal first (by simp)).payload.length_eq
                rw [noColumns] at this
                exact List.length_eq_zero_iff.1 this
              have raw := rawBytes_length (legal first (by simp)) (by omega) (by simp [payload])
              rw [recordBytes_length, raw, recordSize, payload]
              have zero : dim.toNat = 0 := by omega
              rw [zero]
              exact paddedSize_zero pageSize
            simp [DataFileWriter.addressesFrom, none] at rising
  · intro fit
    refine ⟨reads.2 fit.sizes, ?_⟩
    have lengths : ∀ record ∈ records, (recordBytes dim schemas pageSize record).length =
        paddedSize pageSize (recordSize dim record) := by
      intro record mem
      have size := fit.sizes record mem
      have lower := le_paddedSize pageSize (recordSize dim record)
      have sizeFits : recordSize dim record < 2 ^ 32 := by omega
      have dimFits : 4 * dim.toNat < 2 ^ 32 := by
        unfold recordSize at sizeFits
        omega
      rw [recordBytes_length, rawBytes_length (legal record mem) dimFits
        fun d inPayload => lengthFits_of_size inPayload sizeFits]
    have fits : ∀ bytes ∈ records.map (recordBytes dim schemas pageSize),
        bytes.length < 2 ^ 32 := by
      intro bytes mem
      obtain ⟨record, inRecords, rfl⟩ := List.mem_map.1 mem
      rw [lengths record inRecords]
      exact fit.sizes record inRecords
    rw [there]
    refine ⟨addressesFrom_aligned total (Nat.dvd_zero _) fun bytes mem => ?_, ?_,
      addressesFrom_contiguous total fits, addressesFrom_apart total fits⟩
    · obtain ⟨record, inRecords, rfl⟩ := List.mem_map.1 mem
      rw [recordBytes_length]
      exact paddedSize_dvd _ _
    · rcases fit.bytes with few | bytes
      · cases records with
        | nil => exact .nil
        | cons record records =>
            cases records with
            | nil => exact List.pairwise_singleton _ _
            | cons _ _ => simp at few
      · refine addressesFrom_increasing total fun part mem => ?_
        obtain ⟨record, inRecords, rfl⟩ := List.mem_map.1 mem
        have positive := recordSize_pos (legal record inRecords) bytes
        rw [lengths record inRecords]
        exact Nat.lt_of_lt_of_le positive (le_paddedSize _ _)

/-- The law on two records with a number and a string, in pages of 8 bytes. -/
theorem dataFile_roundTrip_iff_two_records :
    ∃ addresses file,
      DataFileWriter.writeFile 4096 1 [⟨0, .int32⟩, ⟨1, .string⟩] 8
        [⟨[1, 2, 3, 4], [{ dtype := .int32 }, { dtype := .string, varData := [7, 8] }]⟩,
          ⟨[5, 6, 7, 8], [{ dtype := .int32 }, { dtype := .string }]⟩] = .ok (addresses, file) ∧
      (DataFileRoundTrip 1 [⟨0, .int32⟩, ⟨1, .string⟩] 8 (fun _ asked => asked / 2)
          [⟨[1, 2, 3, 4], [{ dtype := .int32 }, { dtype := .string, varData := [7, 8] }]⟩,
            ⟨[5, 6, 7, 8], [{ dtype := .int32 }, { dtype := .string }]⟩] addresses file ↔
        RecordsFit 1 [⟨0, .int32⟩, ⟨1, .string⟩] 8
          [⟨[1, 2, 3, 4], [{ dtype := .int32 }, { dtype := .string, varData := [7, 8] }]⟩,
            ⟨[5, 6, 7, 8], [{ dtype := .int32 }, { dtype := .string }]⟩]) := by
  refine ⟨_, _, rfl, dataFile_roundTrip_iff 4096 _ 1 _ 8 _ _ _ ?_ rfl⟩
  intro record mem
  rcases List.mem_cons.1 mem with rfl | mem
  · exact ⟨rfl, .cons rfl (.cons rfl .nil)⟩
  · obtain rfl := List.mem_singleton.1 mem
    exact ⟨rfl, .cons rfl (.cons rfl .nil)⟩

/-- A string of `2 ^ 32` bytes leaves an empty string in the file. -/
theorem writeFile_long_string {value : List UInt8} (long : value.length = 2 ^ 32) :
    DataFileWriter.writeFile 4096 1 [⟨0, .string⟩] 1
        [⟨[1, 2, 3, 4], [{ dtype := .string, varData := value }]⟩] =
      .ok ([⟨0, 8⟩], [1, 2, 3, 4, 0, 0, 0, 0]) := by
  have bytes : recordBytes 1 [⟨0, .string⟩] 1
      ⟨[1, 2, 3, 4], [{ dtype := .string, varData := value }]⟩ = [1, 2, 3, 4, 0, 0, 0, 0] := by
    have len : UInt32.ofNat value.length = 0 := by
      rw [long]
      rfl
    have columns : payloadBytes [{ dtype := .string, varData := value }] [⟨0, .string⟩] =
        [0, 0, 0, 0] := by
      change datumBytes { dtype := .string, varData := value } ⟨0, .string⟩ ++ [] = _
      rw [datumBytes, if_neg (by decide)]
      dsimp only
      rw [len]
      rfl
    rw [recordBytes, rawBytes, columns]
    rfl
  rw [DataFileWriter.writeFile_ok (by simp) (by rw [List.flatMap_singleton, bytes]; decide),
    List.map_singleton, List.flatMap_singleton, bytes]
  rfl

/-- The string that is read back from that file. -/
theorem readRecord_empty_string (grant : ℕ → ℕ → ℕ) :
    (DataFileReader.open [1, 2, 3, 4, 0, 0, 0, 0] 1 [⟨0, .string⟩]).readRecord grant ⟨0, 8⟩ =
      .ok ([1, 2, 3, 4], [{ dtype := .string, varData := [] }]) := by
  rw [readRecord_open, DataFileReader.readRaw_inside rfl grant (by decide)]
  rfl

theorem not_roundTrip_long_string {value : List UInt8} (long : value.length = 2 ^ 32)
    (grant : ℕ → ℕ → ℕ) :
    ¬ DataFileRoundTrip 1 [⟨0, .string⟩] 1 grant
      [⟨[1, 2, 3, 4], [{ dtype := .string, varData := value }]⟩] [⟨0, 8⟩]
      [1, 2, 3, 4, 0, 0, 0, 0] := by
  intro trip
  have back := trip.reads
  rw [List.forall₂_cons] at back
  obtain ⟨⟨payload, ok, same⟩, -⟩ := back
  rw [readRecord_empty_string grant] at ok
  have columns := (Prod.mk.inj (Except.ok.inj ok)).2
  rw [← columns] at same
  have length : value.length = 0 := congrArg List.length (List.forall₂_cons.1 same).1.2
  omega

/-- A string of `2 ^ 32` bytes: its length is written as zero, none of its bytes is
written, and the empty string is read back. -/
theorem long_string_comes_back_empty :
    LegalRecord 1 [⟨0, .string⟩]
        ⟨[1, 2, 3, 4], [{ dtype := .string, varData := List.replicate (2 ^ 32) 97 }]⟩ ∧
      DataFileWriter.writeFile 4096 1 [⟨0, .string⟩] 1
          [⟨[1, 2, 3, 4], [{ dtype := .string, varData := List.replicate (2 ^ 32) 97 }]⟩] =
        .ok ([⟨0, 8⟩], [1, 2, 3, 4, 0, 0, 0, 0]) ∧
      ∀ grant,
        (DataFileReader.open [1, 2, 3, 4, 0, 0, 0, 0] 1 [⟨0, .string⟩]).readRecord grant ⟨0, 8⟩ =
            .ok ([1, 2, 3, 4], [{ dtype := .string, varData := [] }]) ∧
          ¬ DataFileRoundTrip 1 [⟨0, .string⟩] 1 grant
            [⟨[1, 2, 3, 4], [{ dtype := .string, varData := List.replicate (2 ^ 32) 97 }]⟩]
            [⟨0, 8⟩] [1, 2, 3, 4, 0, 0, 0, 0] :=
  ⟨⟨rfl, .cons rfl .nil⟩, writeFile_long_string List.length_replicate, fun grant =>
    ⟨readRecord_empty_string grant, not_roundTrip_long_string List.length_replicate grant⟩⟩

end File

end VecFetch.Storage
