/-
# Storage.DataFileWrite -- what the writer leaves in the file

A record that is written appends its bytes (`recordBytes`) at the offset it returns; a
sequence of records leaves them one after another (`writeRecords_spec`).  The file stays
below `2 ^ 63` bytes, so no offset wraps, while the sizes are cut to 32 bits.
-/
import VecFetch.Storage.DataFile

namespace VecFetch.Storage

open VecFetch.Theory VecFetch.Query

set_option autoImplicit false

/-! ## The bytes of a record -/

/-- The bytes `WriteDatum` writes. -/
def datumBytes (datum : Datum) (schema : ColumnSchema) : List UInt8 :=
  if dTypeIsFixedWidth schema.dtype then datum.fixed.toList.take (dTypeSize schema.dtype)
  else
    let len := UInt32.ofNat datum.varData.length
    leBytes 4 len.toNat ++ datum.varData.take len.toNat

def payloadBytes : List Datum → List ColumnSchema → List UInt8
  | datum :: payload, schema :: schemas => datumBytes datum schema ++ payloadBytes payload schemas
  | _, _ => []

/-- A size rounded up to pages. -/
def paddedSize (pageSize : UInt32) (size : ℕ) : ℕ :=
  if 1 < pageSize then (size + pageSize.toNat - 1) / pageSize.toNat * pageSize.toNat else size

/-- The bytes `WriteRecord` writes before the padding. -/
def rawBytes (dim : UInt32) (schemas : List ColumnSchema) (record : DataRecord) : List UInt8 :=
  record.vec.take (vecBytesOf dim).toNat ++ payloadBytes record.payload schemas

def recordBytes (dim : UInt32) (schemas : List ColumnSchema) (pageSize : UInt32)
    (record : DataRecord) : List UInt8 :=
  rawBytes dim schemas record ++ List.replicate
    (paddedSize pageSize (rawBytes dim schemas record).length -
      (rawBytes dim schemas record).length) 0

theorem le_paddedSize (pageSize : UInt32) (size : ℕ) : size ≤ paddedSize pageSize size := by
  unfold paddedSize
  split
  · rename_i large
    have page : 1 < pageSize.toNat := UInt32.lt_iff_toNat_lt.1 large
    have row := Nat.div_add_mod (size + pageSize.toNat - 1) pageSize.toNat
    have inRow := Nat.mod_lt (size + pageSize.toNat - 1) (show 0 < pageSize.toNat by omega)
    rw [Nat.mul_comm] at row
    omega
  · exact Nat.le_refl _

theorem paddedSize_lt (pageSize : UInt32) (size : ℕ) :
    paddedSize pageSize size < size + 2 ^ 32 := by
  have small := pageSize.toNat_lt
  unfold paddedSize
  split
  · have := Nat.div_mul_le_self (size + pageSize.toNat - 1) pageSize.toNat
    omega
  · omega

theorem paddedSize_zero (pageSize : UInt32) : paddedSize pageSize 0 = 0 := by
  unfold paddedSize
  split
  · rename_i large
    have page : 1 < pageSize.toNat := UInt32.lt_iff_toNat_lt.1 large
    rw [Nat.div_eq_of_lt (by omega), Nat.zero_mul]
  · rfl

theorem paddedSize_dvd (pageSize : UInt32) (size : ℕ) :
    max 1 pageSize.toNat ∣ paddedSize pageSize size := by
  unfold paddedSize
  split
  · rename_i large
    have page : 1 < pageSize.toNat := UInt32.lt_iff_toNat_lt.1 large
    rw [Nat.max_eq_right (by omega)]
    exact Nat.dvd_mul_left _ _
  · rename_i small
    have page : ¬ 1 < pageSize.toNat := fun large => small (UInt32.lt_iff_toNat_lt.2 large)
    rw [Nat.max_eq_left (by omega)]
    exact Nat.one_dvd _

@[simp] theorem recordBytes_length (dim : UInt32) (schemas : List ColumnSchema)
    (pageSize : UInt32) (record : DataRecord) :
    (recordBytes dim schemas pageSize record).length =
      paddedSize pageSize (rawBytes dim schemas record).length := by
  have := le_paddedSize pageSize (rawBytes dim schemas record).length
  rw [recordBytes, List.length_append, List.length_replicate]
  omega

/-! ## The writer's steps -/

namespace DataFileWriter

variable {space : ℕ} {w w' : DataFileWriter}

/-- An open writer whose offset is the length of its file. -/
structure Ready (w : DataFileWriter) : Prop where
  isOpen : w.isOpen = true
  notFinalized : w.finalized = false
  offset : w.currentOffset = UInt64.ofNat w.file.length
  small : w.file.length < 2 ^ 63

/-- `w'` is `w` with `bytes` appended. -/
structure Appended (bytes : List UInt8) (w w' : DataFileWriter) : Prop where
  ready : w'.Ready
  file : w'.file = w.file ++ bytes
  dim : w'.dim = w.dim
  payloadSchemas : w'.payloadSchemas = w.payloadSchemas
  pageSize : w'.pageSize = w.pageSize

theorem Ready.appended_nil (ready : w.Ready) : Appended [] w w :=
  ⟨ready, (List.append_nil _).symm, rfl, rfl, rfl⟩

theorem Appended.append {bytes bytes' : List UInt8} {w'' : DataFileWriter}
    (first : Appended bytes w w') (second : Appended bytes' w' w'') :
    Appended (bytes ++ bytes') w w'' :=
  ⟨second.ready, by rw [second.file, first.file, List.append_assoc],
    by rw [second.dim, first.dim], by rw [second.payloadSchemas, first.payloadSchemas],
    by rw [second.pageSize, first.pageSize]⟩

theorem put_spec {bytes : List UInt8} {message : String} (ready : w.Ready)
    (ok : w.put space bytes message = .ok w') : Appended bytes w w' := by
  unfold put at ok
  split at ok
  · rename_i room
    rw [← Except.ok.inj ok]
    have bound : min space kMaxFileBytes ≤ kMaxFileBytes := Nat.min_le_right _ _
    refine ⟨⟨ready.isOpen, ready.notFinalized, ?_, ?_⟩, rfl, rfl, rfl, rfl⟩
    · rw [ready.offset, List.length_append, UInt64.ofNat_add]
    · rw [List.length_append]
      unfold kMaxFileBytes at room bound
      omega
  · cases ok

theorem writeDatum_spec {datum : Datum} {schema : ColumnSchema} (ready : w.Ready)
    (ok : w.writeDatum space datum schema = .ok w') :
    Appended (datumBytes datum schema) w w' := by
  unfold writeDatum at ok
  unfold datumBytes
  split at ok
  · rename_i isFixed
    rw [if_pos isFixed]
    exact put_spec ready ok
  · rename_i isVar
    rw [if_neg isVar]
    dsimp only at ok ⊢
    cases wrote : w.put space (leBytes 4 (UInt32.ofNat datum.varData.length).toNat)
        "Failed to write var-length prefix" with
    | error e =>
        rw [wrote] at ok
        cases ok
    | ok mid =>
        rw [wrote] at ok
        have length := put_spec ready wrote
        by_cases some : 0 < UInt32.ofNat datum.varData.length
        · have ok : mid.put space (datum.varData.take (UInt32.ofNat datum.varData.length).toNat)
              "Failed to write var-length data" = .ok w' := by
            rw [← ok]
            exact (if_pos some).symm
          exact length.append (put_spec length.ready ok)
        · have none : UInt32.ofNat datum.varData.length = 0 := by
            rw [UInt32.lt_iff_toNat_lt] at some
            rw [← UInt32.toNat_inj]
            simp only [UInt32.reduceToNat] at some ⊢
            omega
          have ok : Except.ok mid = (.ok w' : Result DataFileWriter) := by
            rw [← ok]
            exact (if_neg some).symm
          cases ok
          rw [none]
          simpa [none] using length

theorem writePayload_spec {payload : List Datum} {schemas : List ColumnSchema} (ready : w.Ready)
    (ok : w.writePayload space payload schemas = .ok w') :
    Appended (payloadBytes payload schemas) w w' := by
  induction payload generalizing schemas w with
  | nil =>
      cases ok
      exact ready.appended_nil
  | cons datum payload ih =>
      cases schemas with
      | nil =>
          cases ok
          exact ready.appended_nil
      | cons schema schemas =>
          rw [writePayload] at ok
          cases wrote : w.writeDatum space datum schema with
          | error e =>
              rw [wrote] at ok
              cases ok
          | ok mid =>
              rw [wrote] at ok
              have first := writeDatum_spec ready wrote
              exact first.append (ih first.ready ok)

/-- The padding of a record of `size` bytes that started at `start`. -/
theorem pad_eq {start size : ℕ} (ready : w.Ready) (from_ : w.file.length = start + size) :
    w.pad space (UInt64.ofNat start) =
      if 0 < paddedSize w.pageSize size - size then
        w.put space (List.replicate (paddedSize w.pageSize size - size) 0)
          "Failed to write page padding"
      else .ok w := by
  have small := ready.small
  have pageLt := w.pageSize.toNat_lt
  have raw : (w.currentOffset - UInt64.ofNat start).toNat = size := by
    rw [ready.offset, from_, UInt64.ofNat_add, UInt64.add_comm, UInt64.add_sub_cancel,
      UInt64.toNat_ofNat']
    exact Nat.mod_eq_of_lt (by omega)
  unfold pad
  by_cases large : 1 < w.pageSize
  · have page : 1 < w.pageSize.toNat := UInt32.lt_iff_toNat_lt.1 large
    have upper := paddedSize_lt w.pageSize size
    have lower := le_paddedSize w.pageSize size
    have sum : (w.currentOffset - UInt64.ofNat start + w.pageSize.toUInt64 - 1).toNat =
        size + w.pageSize.toNat - 1 := by
      rw [UInt64.toNat_sub_of_le, UInt64.toNat_add, raw, UInt32.toNat_toUInt64,
        Nat.mod_eq_of_lt (by omega)]
      · rfl
      · rw [UInt64.le_iff_toNat_le, UInt64.toNat_add, raw, UInt32.toNat_toUInt64,
          Nat.mod_eq_of_lt (by omega)]
        simp only [UInt64.reduceToNat]
        omega
    have padded : ((w.currentOffset - UInt64.ofNat start + w.pageSize.toUInt64 - 1) /
        w.pageSize.toUInt64 * w.pageSize.toUInt64).toNat = paddedSize w.pageSize size := by
      rw [UInt64.toNat_mul, UInt64.toNat_div, sum, UInt32.toNat_toUInt64]
      unfold paddedSize at upper ⊢
      rw [if_pos large] at upper ⊢
      exact Nat.mod_eq_of_lt (by omega)
    have padBytes : ((w.currentOffset - UInt64.ofNat start + w.pageSize.toUInt64 - 1) /
        w.pageSize.toUInt64 * w.pageSize.toUInt64 -
          (w.currentOffset - UInt64.ofNat start)).toNat = paddedSize w.pageSize size - size := by
      rw [UInt64.toNat_sub_of_le _ _ (by rw [UInt64.le_iff_toNat_le, padded, raw]; exact lower),
        padded, raw]
    rw [if_pos large]
    dsimp only
    simp only [UInt64.lt_iff_toNat_lt, padBytes, UInt64.reduceToNat]
  · rw [if_neg large, paddedSize, if_neg large, Nat.sub_self, if_neg (Nat.lt_irrefl 0)]

theorem pad_spec {start size : ℕ} (ready : w.Ready) (from_ : w.file.length = start + size)
    (ok : w.pad space (UInt64.ofNat start) = .ok w') :
    Appended (List.replicate (paddedSize w.pageSize size - size) 0) w w' := by
  rw [pad_eq ready from_] at ok
  split at ok
  · exact put_spec ready ok
  · rename_i none
    cases ok
    rw [show paddedSize w.pageSize size - size = 0 by omega]
    exact ready.appended_nil

/-- **A record appends its bytes at the address it is given.** -/
theorem writeRecord_spec {record : DataRecord} {addr : AddressEntry} (ready : w.Ready)
    (ok : w.writeRecord space record = .ok (addr, w')) :
    addr = ⟨UInt64.ofNat w.file.length,
        UInt32.ofNat (recordBytes w.dim w.payloadSchemas w.pageSize record).length⟩ ∧
      Appended (recordBytes w.dim w.payloadSchemas w.pageSize record) w w' ∧
      record.payload.length = w.payloadSchemas.length := by
  unfold writeRecord at ok
  rw [if_neg (by simp [ready.isOpen]), if_neg (by simp [ready.notFinalized])] at ok
  split at ok
  · cases ok
  · rename_i counted
    dsimp only at ok
    cases wroteVec : w.put space (record.vec.take (vecBytesOf w.dim).toNat)
        "Failed to write vector data" with
    | error e =>
        rw [wroteVec] at ok
        cases ok
    | ok afterVec =>
        rw [wroteVec] at ok
        have vec := put_spec ready wroteVec
        cases wrotePayload : afterVec.writePayload space record.payload
            afterVec.payloadSchemas with
        | error e =>
            rw [Except.bind, wrotePayload] at ok
            cases ok
        | ok afterPayload =>
            rw [Except.bind, wrotePayload] at ok
            have raw := vec.append (writePayload_spec vec.ready wrotePayload)
            cases padded : afterPayload.pad space w.currentOffset with
            | error e =>
                rw [Except.bind, padded] at ok
                cases ok
            | ok afterPad =>
                rw [Except.bind, padded] at ok
                rw [ready.offset] at padded
                rw [vec.payloadSchemas] at raw
                have padding := pad_spec raw.ready (by rw [raw.file, List.length_append]) padded
                have whole := raw.append padding
                rw [raw.pageSize] at whole
                have small := whole.ready.small
                have whole : Appended (recordBytes w.dim w.payloadSchemas w.pageSize record) w
                    afterPad := whole
                cases ok
                refine ⟨?_, ⟨⟨whole.ready.isOpen, whole.ready.notFinalized, whole.ready.offset,
                  small⟩, whole.file, whole.dim, whole.payloadSchemas, whole.pageSize⟩,
                  not_not.1 counted⟩
                have size : (afterPad.currentOffset - w.currentOffset).toUInt32 =
                    UInt32.ofNat
                      (recordBytes w.dim w.payloadSchemas w.pageSize record).length := by
                  rw [whole.ready.offset, ready.offset, whole.file, List.length_append,
                    UInt64.ofNat_add, UInt64.add_comm, UInt64.add_sub_cancel]
                  rw [← UInt32.toNat_inj, UInt64.toNat_toUInt32, UInt64.toNat_ofNat',
                    UInt32.toNat_ofNat']
                  exact Nat.mod_mod_of_dvd _ (by decide)
                rw [size, ready.offset]

/-- Addresses of byte strings that follow each other from an offset. -/
def addressesFrom : ℕ → List (List UInt8) → List AddressEntry
  | _, [] => []
  | offset, bytes :: parts =>
      ⟨UInt64.ofNat offset, UInt32.ofNat bytes.length⟩ ::
        addressesFrom (offset + bytes.length) parts

theorem writeRecords_spec {records : List DataRecord} {addresses : List AddressEntry}
    (ready : w.Ready) (ok : w.writeRecords space records = .ok (addresses, w')) :
    addresses = addressesFrom w.file.length
        (records.map (recordBytes w.dim w.payloadSchemas w.pageSize)) ∧
      Appended (records.flatMap (recordBytes w.dim w.payloadSchemas w.pageSize)) w w' := by
  induction records generalizing w addresses with
  | nil =>
      cases ok
      exact ⟨rfl, ready.appended_nil⟩
  | cons record records ih =>
      rw [writeRecords] at ok
      cases wrote : w.writeRecord space record with
      | error e =>
          rw [wrote] at ok
          cases ok
      | ok written =>
          obtain ⟨addr, mid⟩ := written
          rw [wrote] at ok
          obtain ⟨here, first, -⟩ := writeRecord_spec ready wrote
          cases wroteRest : mid.writeRecords space records with
          | error e =>
              rw [Except.bind, wroteRest] at ok
              cases ok
          | ok later =>
              obtain ⟨addresses', last⟩ := later
              rw [Except.bind, wroteRest] at ok
              cases ok
              obtain ⟨there, second⟩ := ih first.ready wroteRest
              rw [first.dim, first.payloadSchemas, first.pageSize] at there second
              refine ⟨?_, first.append second⟩
              rw [there, here, first.file, List.length_append]
              rfl

/-- A file holds its records' bytes one after another. -/
theorem writeFile_spec {dim : UInt32} {schemas : List ColumnSchema} {pageSize : UInt32}
    {records : List DataRecord} {addresses : List AddressEntry} {file : List UInt8}
    (ok : writeFile space dim schemas pageSize records = .ok (addresses, file)) :
    addresses = addressesFrom 0 (records.map (recordBytes dim schemas pageSize)) ∧
      file = records.flatMap (recordBytes dim schemas pageSize) ∧ file.length < 2 ^ 63 := by
  have ready : (DataFileWriter.open dim schemas pageSize).Ready :=
    ⟨rfl, rfl, rfl, by simp [DataFileWriter.open]⟩
  unfold writeFile at ok
  cases wrote : writeRecords space records (DataFileWriter.open dim schemas pageSize) with
  | error e =>
      rw [wrote] at ok
      cases ok
  | ok written =>
      obtain ⟨addresses', last⟩ := written
      rw [wrote] at ok
      obtain ⟨there, all⟩ := writeRecords_spec ready wrote
      have done : last.finalize = .ok { last with isOpen := false, finalized := true } := by
        unfold finalize
        rw [if_neg (by simp [all.ready.isOpen]), if_neg (by simp [all.ready.notFinalized])]
      rw [Except.bind, done] at ok
      cases ok
      exact ⟨there, all.file, all.ready.small⟩

/-! ## The writer accepts records while there is space -/

/-- There is space for that many bytes more. -/
def Room (space n : ℕ) (w : DataFileWriter) : Prop := w.file.length + n ≤ min space kMaxFileBytes

theorem Room.after {bytes : List UInt8} {n : ℕ} (room : w.Room space (bytes.length + n))
    (appended : Appended bytes w w') : w'.Room space n := by
  unfold Room at room ⊢
  rw [appended.file, List.length_append]
  omega

theorem Room.put {bytes : List UInt8} (room : w.Room space bytes.length) (message : String) :
    ∃ w', w.put space bytes message = .ok w' := ⟨_, if_pos room⟩

theorem Room.writeDatum {datum : Datum} {schema : ColumnSchema} (ready : w.Ready)
    (room : w.Room space (datumBytes datum schema).length) :
    ∃ w', w.writeDatum space datum schema = .ok w' := by
  unfold datumBytes at room
  unfold DataFileWriter.writeDatum
  split at room
  · rename_i isFixed
    rw [if_pos isFixed]
    exact room.put _
  · rename_i isVar
    rw [if_neg isVar]
    dsimp only at room ⊢
    rw [List.length_append] at room
    have first : w.Room space (leBytes 4 (UInt32.ofNat datum.varData.length).toNat).length := by
      unfold Room at room ⊢
      omega
    obtain ⟨mid, wrote⟩ := first.put "Failed to write var-length prefix"
    rw [wrote]
    by_cases some : 0 < UInt32.ofNat datum.varData.length
    · obtain ⟨w', wrote'⟩ := (room.after (put_spec ready wrote)).put "Failed to write var-length data"
      exact ⟨w', by rw [← wrote']; exact if_pos some⟩
    · exact ⟨mid, if_neg some⟩

theorem Room.writePayload {payload : List Datum} {schemas : List ColumnSchema} (ready : w.Ready)
    (room : w.Room space (payloadBytes payload schemas).length) :
    ∃ w', w.writePayload space payload schemas = .ok w' := by
  induction payload generalizing schemas w with
  | nil => exact ⟨w, rfl⟩
  | cons datum payload ih =>
      cases schemas with
      | nil => exact ⟨w, rfl⟩
      | cons schema schemas =>
          rw [payloadBytes, List.length_append] at room
          have first : w.Room space (datumBytes datum schema).length := by
            unfold Room at room ⊢
            omega
          obtain ⟨mid, wrote⟩ := first.writeDatum ready
          have appended := writeDatum_spec ready wrote
          obtain ⟨w', wrote'⟩ := ih appended.ready (room.after appended)
          exact ⟨w', by rw [DataFileWriter.writePayload, wrote]; exact wrote'⟩

theorem Room.writeRecord {record : DataRecord} (ready : w.Ready)
    (counted : record.payload.length = w.payloadSchemas.length)
    (room : w.Room space (recordBytes w.dim w.payloadSchemas w.pageSize record).length) :
    ∃ written, w.writeRecord space record = .ok written := by
  rw [recordBytes, rawBytes, List.append_assoc, List.length_append, List.length_append] at room
  have first : w.Room space (record.vec.take (vecBytesOf w.dim).toNat).length := by
    unfold Room at room ⊢
    omega
  obtain ⟨afterVec, wroteVec⟩ := first.put "Failed to write vector data"
  have vec := put_spec ready wroteVec
  have room := room.after vec
  have second : afterVec.Room space (payloadBytes record.payload afterVec.payloadSchemas).length := by
    rw [vec.payloadSchemas]
    unfold Room at room ⊢
    omega
  obtain ⟨afterPayload, wrotePayload⟩ := second.writePayload vec.ready
  have payload := writePayload_spec vec.ready wrotePayload
  rw [vec.payloadSchemas] at payload
  have room := room.after payload
  have raw := vec.append payload
  have size : afterPayload.file.length =
      w.file.length + (rawBytes w.dim w.payloadSchemas record).length := by
    rw [raw.file, List.length_append]
    rfl
  obtain ⟨afterPad, padded⟩ : ∃ afterPad,
      afterPayload.pad space w.currentOffset = .ok afterPad := by
    rw [ready.offset, pad_eq raw.ready size, raw.pageSize]
    split
    · exact room.put _
    · exact ⟨_, rfl⟩
  unfold DataFileWriter.writeRecord
  rw [if_neg (by simp [ready.isOpen]), if_neg (by simp [ready.notFinalized]),
    if_neg (not_not.2 counted)]
  dsimp only
  rw [wroteVec]
  dsimp only [Except.bind]
  rw [wrotePayload]
  dsimp only
  rw [padded]
  exact ⟨_, rfl⟩

theorem Room.writeRecords {records : List DataRecord} (ready : w.Ready)
    (counted : ∀ record ∈ records, record.payload.length = w.payloadSchemas.length)
    (room : w.Room space
      (records.flatMap (recordBytes w.dim w.payloadSchemas w.pageSize)).length) :
    ∃ written, w.writeRecords space records = .ok written := by
  induction records generalizing w with
  | nil => exact ⟨_, rfl⟩
  | cons record records ih =>
      rw [List.flatMap_cons, List.length_append] at room
      have first : w.Room space
          (recordBytes w.dim w.payloadSchemas w.pageSize record).length := by
        unfold Room at room ⊢
        omega
      obtain ⟨written, wrote⟩ := first.writeRecord ready (counted record (by simp))
      obtain ⟨-, appended, -⟩ := @writeRecord_spec space w written.2 record written.1 ready wrote
      have room := room.after appended
      rw [← appended.dim, ← appended.payloadSchemas, ← appended.pageSize] at room
      obtain ⟨later, wroteLater⟩ := ih appended.ready (by
        intro record mem
        rw [appended.payloadSchemas]
        exact counted record (by simp [mem])) room
      rw [DataFileWriter.writeRecords, wrote]
      dsimp only [Except.bind]
      rw [wroteLater]
      exact ⟨_, rfl⟩

/-- Records with as many values as there are columns are written if the file has space. -/
theorem writeFile_ok {dim : UInt32} {schemas : List ColumnSchema} {pageSize : UInt32}
    {records : List DataRecord}
    (counted : ∀ record ∈ records, record.payload.length = schemas.length)
    (room : (records.flatMap (recordBytes dim schemas pageSize)).length ≤
      min space kMaxFileBytes) :
    writeFile space dim schemas pageSize records =
      .ok (addressesFrom 0 (records.map (recordBytes dim schemas pageSize)),
        records.flatMap (recordBytes dim schemas pageSize)) := by
  have ready : (DataFileWriter.open dim schemas pageSize).Ready :=
    ⟨rfl, rfl, rfl, by simp [DataFileWriter.open]⟩
  have roomy : (DataFileWriter.open dim schemas pageSize).Room space
      (records.flatMap (recordBytes dim schemas pageSize)).length := by
    unfold Room
    rw [show (DataFileWriter.open dim schemas pageSize).file = [] from rfl, List.length_nil,
      Nat.zero_add]
    exact room
  obtain ⟨written, wrote⟩ := roomy.writeRecords ready counted
  cases file : writeFile space dim schemas pageSize records with
  | error e =>
      have spec := @writeRecords_spec space _ written.2 records written.1 ready wrote
      have done : written.2.finalize = .ok { written.2 with isOpen := false, finalized := true } := by
        unfold finalize
        rw [if_neg (by simp [spec.2.ready.isOpen]), if_neg (by simp [spec.2.ready.notFinalized])]
      rw [writeFile, wrote, Except.bind, done] at file
      cases file
  | ok pair =>
      obtain ⟨addresses, bytes⟩ := pair
      obtain ⟨there, whole, -⟩ := writeFile_spec file
      rw [there, whole]

end DataFileWriter

end VecFetch.Storage
