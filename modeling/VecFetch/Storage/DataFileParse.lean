/-
# Storage.DataFileParse -- what the reader makes of written columns

Columns written one after another are parsed into the same values (`parseColumns_written`),
and columns parsed from a front part of what was written are all in that part
(`parseColumns_whole`).  A value longer than its prefix can say is cut when it is written
(`cutValue`).  `ReadRaw` gives the bytes at an offset, however few at a time.
-/
import VecFetch.Storage.DataFileWrite
import Mathlib.Data.List.Forall2

namespace VecFetch.Storage

open VecFetch.Theory VecFetch.Query

set_option autoImplicit false

/-! ## Parsing the payload -/

/-- Datums of the columns' types. -/
def MatchesSchemas (payload : List Datum) (schemas : List ColumnSchema) : Prop :=
  List.Forall₂ (fun d schema => d.dtype = schema.dtype) payload schemas

/-- The bytes a datum takes in a record. -/
def storedSize (d : Datum) : ℕ :=
  if dTypeIsFixedWidth d.dtype then dTypeSize d.dtype else 4 + d.varData.length

/-- A value whose length fits its prefix. -/
def LengthFits (d : Datum) : Prop := dTypeIsFixedWidth d.dtype = false → d.varData.length < 2 ^ 32

/-- The datum that is parsed for a value. -/
def readBack (d : Datum) : Datum :=
  if dTypeIsFixedWidth d.dtype then { dtype := d.dtype, fixed := Datum.fixedOf d.data }
  else { dtype := d.dtype, varData := d.varData }

theorem readBack_sameValue (d : Datum) : Datum.SameValue d (readBack d) := by
  by_cases isFixed : dTypeIsFixedWidth d.dtype = true
  · have length := Datum.data_fixed_length isFixed
    refine ⟨by rw [readBack, if_pos isFixed], ?_⟩
    have kept := @Datum.fixedOf_take d.data (by rw [length]; exact dTypeSize_le d.dtype)
    rw [length] at kept
    rw [readBack, if_pos isFixed]
    exact (Eq.trans (Datum.data_fixed (by exact isFixed)) kept).symm
  · have isVar : dTypeIsFixedWidth d.dtype = false := by simpa using isFixed
    refine ⟨by rw [readBack, if_neg isFixed], ?_⟩
    rw [readBack, if_neg isFixed, Datum.data_var isVar, Datum.data_var (by exact isVar)]

theorem storedSize_pos (d : Datum) : 0 < storedSize d := by
  unfold storedSize
  split
  · rename_i isFixed
    simpa [dTypeIsFixedWidth] using isFixed
  · omega

theorem lengthFits_congr {d d' : Datum} (same : Datum.SameValue d d') (fits : LengthFits d') :
    LengthFits d := by
  obtain ⟨dtype, data⟩ := same
  intro isVar
  have isVar' : dTypeIsFixedWidth d'.dtype = false := by rw [← dtype]; exact isVar
  rw [Datum.data_var isVar, Datum.data_var isVar'] at data
  rw [data]
  exact fits isVar'

theorem datumBytes_fixed {d : Datum} {schema : ColumnSchema} (dtype : d.dtype = schema.dtype)
    (isFixed : dTypeIsFixedWidth d.dtype = true) : datumBytes d schema = d.data := by
  rw [datumBytes, ← dtype, if_pos isFixed, Datum.data_fixed isFixed]

theorem datumBytes_var {d : Datum} {schema : ColumnSchema} (dtype : d.dtype = schema.dtype)
    (isVar : dTypeIsFixedWidth d.dtype = false) (fits : d.varData.length < 2 ^ 32) :
    datumBytes d schema = leBytes 4 d.varData.length ++ d.varData := by
  have len : (UInt32.ofNat d.varData.length).toNat = d.varData.length := by
    rw [UInt32.toNat_ofNat', Nat.mod_eq_of_lt fits]
  rw [datumBytes, ← dtype, isVar, if_neg Bool.false_ne_true]
  dsimp only
  rw [len, List.take_length]

theorem datumBytes_length {d : Datum} {schema : ColumnSchema} (dtype : d.dtype = schema.dtype)
    (fits : LengthFits d) : (datumBytes d schema).length = storedSize d := by
  by_cases isFixed : dTypeIsFixedWidth d.dtype = true
  · rw [datumBytes_fixed dtype isFixed, Datum.data_fixed_length isFixed, storedSize,
      if_pos isFixed]
  · have isVar : dTypeIsFixedWidth d.dtype = false := by simpa using isFixed
    rw [datumBytes_var dtype isVar (fits isVar), List.length_append, leBytes_length, storedSize,
      if_neg isFixed]

theorem payloadBytes_length {payload : List Datum} {schemas : List ColumnSchema}
    (matching : MatchesSchemas payload schemas) (fits : ∀ d ∈ payload, LengthFits d) :
    (payloadBytes payload schemas).length = (payload.map storedSize).sum := by
  induction matching with
  | nil => rfl
  | cons dtype _ ih =>
      rw [payloadBytes, List.length_append, datumBytes_length dtype (fits _ (by simp)),
        ih fun d mem => fits d (by simp [mem]), List.map_cons, List.sum_cons]

namespace DataFileReader

/-- The columns written are the columns parsed. -/
theorem parseColumns_written {payload : List Datum} {schemas : List ColumnSchema}
    (matching : MatchesSchemas payload schemas) (fits : ∀ d ∈ payload, LengthFits d)
    {buf : List UInt8} {bufLen : UInt32} (whole : buf.length = bufLen.toNat) (offset : UInt32)
    (inside : offset.toNat + (payloadBytes payload schemas).length ≤ buf.length)
    (here : slice buf offset.toNat (payloadBytes payload schemas).length =
      payloadBytes payload schemas) (out : List Datum) :
    parseColumns buf bufLen schemas offset out = (out ++ payload.map readBack, .ok ()) := by
  have bound := bufLen.toNat_lt
  induction matching generalizing offset out with
  | nil => rw [parseColumns, List.map_nil, List.append_nil]
  | @cons d schema payload schemas dtype _ ih =>
      have dFits := fits d (by simp)
      have length := datumBytes_length dtype dFits
      rw [payloadBytes, List.length_append] at inside here
      obtain ⟨first, later⟩ := slice_append_inj here
      rw [length] at inside first later
      by_cases isFixed : dTypeIsFixedWidth d.dtype = true
      · have size : storedSize d = dTypeSize schema.dtype := by
          rw [storedSize, if_pos isFixed, dtype]
        have small := dTypeSize_le schema.dtype
        rw [size] at inside first later
        rw [datumBytes_fixed dtype isFixed] at first
        have next : (offset + UInt32.ofNat (dTypeSize schema.dtype)).toNat =
            offset.toNat + dTypeSize schema.dtype := by
          rw [UInt32.toNat_add, UInt32.toNat_ofNat', Nat.mod_eq_of_lt (by omega),
            Nat.mod_eq_of_lt (by omega)]
        rw [parseColumns, ← dtype, if_pos isFixed, dtype]
        dsimp only
        rw [if_neg (by omega), if_neg (by omega), first,
          ih (fun d mem => fits d (by simp [mem])) _ (by rw [next]; omega) (by rw [next]; exact later),
          List.map_cons, readBack, if_pos isFixed, dtype, List.append_assoc,
          List.singleton_append]
      · have isVar : dTypeIsFixedWidth d.dtype = false := by simpa using isFixed
        have size : storedSize d = 4 + d.varData.length := by rw [storedSize, if_neg isFixed]
        rw [size] at inside first later
        rw [datumBytes_var dtype isVar (dFits isVar)] at first
        have parts : slice buf offset.toNat
            ((leBytes 4 d.varData.length).length + d.varData.length) =
              leBytes 4 d.varData.length ++ d.varData := by
          rw [leBytes_length]
          exact first
        obtain ⟨lengthBytes, value⟩ := slice_append_inj parts
        rw [leBytes_length] at lengthBytes value
        have len : (UInt32.ofNat (leValue (slice buf offset.toNat 4))).toNat =
            d.varData.length := by
          have small := dFits isVar
          rw [lengthBytes, leValue_leBytes (by omega), UInt32.toNat_ofNat']
          exact Nat.mod_eq_of_lt small
        have past : (offset + 4).toNat = offset.toNat + 4 := by
          rw [UInt32.toNat_add]
          simp only [UInt32.reduceToNat]
          exact Nat.mod_eq_of_lt (by omega)
        have next : (offset + 4 + UInt32.ofNat (leValue (slice buf offset.toNat 4))).toNat =
            offset.toNat + (4 + d.varData.length) := by
          rw [UInt32.toNat_add, past, len, Nat.mod_eq_of_lt (by omega), Nat.add_assoc]
        rw [parseColumns, ← dtype, isVar, if_neg Bool.false_ne_true, if_neg (by omega),
          if_neg (by omega), dtype]
        dsimp only
        rw [if_neg (by rw [UInt32.lt_iff_toNat_lt, next]; omega),
          if_neg (by rw [past, len]; omega), past, len, value,
          ih (fun d mem => fits d (by simp [mem])) _ (by rw [next]; omega)
            (by rw [next]; exact later),
          List.map_cons, readBack, if_neg isFixed, dtype, List.append_assoc,
          List.singleton_append]

end DataFileReader

/-! ## Values that are cut -/

/-- A value as it is written: its length is cut to 32 bits, and its bytes to that. -/
def cutValue (d : Datum) : Datum :=
  if dTypeIsFixedWidth d.dtype then d
  else { d with varData := d.varData.take (UInt32.ofNat d.varData.length).toNat }

@[simp] theorem cutValue_dtype (d : Datum) : (cutValue d).dtype = d.dtype := by
  unfold cutValue
  split <;> rfl

theorem cutValue_fits (d : Datum) : LengthFits (cutValue d) := by
  intro isVar
  rw [cutValue_dtype] at isVar
  rw [cutValue, isVar, if_neg Bool.false_ne_true]
  have small := (UInt32.ofNat d.varData.length).toNat_lt
  dsimp only
  rw [List.length_take]
  omega

theorem datumBytes_cut (d : Datum) {schema : ColumnSchema} (dtype : d.dtype = schema.dtype) :
    datumBytes (cutValue d) schema = datumBytes d schema := by
  by_cases isFixed : dTypeIsFixedWidth d.dtype = true
  · rw [cutValue, if_pos isFixed]
  · have inside : (UInt32.ofNat d.varData.length).toNat ≤ d.varData.length := by
      rw [UInt32.toNat_ofNat']
      exact Nat.mod_le _ _
    have length : (d.varData.take (UInt32.ofNat d.varData.length).toNat).length =
        (UInt32.ofNat d.varData.length).toNat := by
      rw [List.length_take, Nat.min_eq_left inside]
    rw [cutValue, if_neg isFixed, datumBytes, datumBytes, ← dtype, if_neg isFixed, if_neg isFixed]
    dsimp only
    rw [length, UInt32.ofNat_toNat, List.take_take, Nat.min_self]

theorem matchesSchemas_cut {payload : List Datum} {schemas : List ColumnSchema}
    (matching : MatchesSchemas payload schemas) :
    MatchesSchemas (payload.map cutValue) schemas := by
  rw [MatchesSchemas, List.forall₂_map_left_iff]
  exact matching.imp fun d schema dtype => by rw [cutValue_dtype, dtype]

theorem payloadBytes_cut {payload : List Datum} {schemas : List ColumnSchema}
    (matching : MatchesSchemas payload schemas) :
    payloadBytes (payload.map cutValue) schemas = payloadBytes payload schemas := by
  induction matching with
  | nil => rfl
  | cons dtype _ ih => rw [List.map_cons, payloadBytes, payloadBytes, datumBytes_cut _ dtype, ih]

/-- Columns parsed from a front part of what was written are all in that part. -/
theorem DataFileReader.parseColumns_whole {payload : List Datum} {schemas : List ColumnSchema}
    (matching : MatchesSchemas payload schemas) (fits : ∀ d ∈ payload, LengthFits d)
    {written buf : List UInt8} {bufLen : UInt32} (whole : buf.length = bufLen.toNat)
    (front : buf = written.take buf.length) {offset : UInt32} (inside : offset.toNat ≤ buf.length)
    (here : slice written offset.toNat (payloadBytes payload schemas).length =
      payloadBytes payload schemas) {out all : List Datum}
    (ok : parseColumns buf bufLen schemas offset out = (all, .ok ())) :
    offset.toNat + (payloadBytes payload schemas).length ≤ buf.length := by
  have bound := bufLen.toNat_lt
  have same : ∀ {off len : ℕ}, off + len ≤ buf.length → slice buf off len = slice written off len := by
    intro off len within
    rw [front, slice_take within]
  induction matching generalizing offset out with
  | nil => simpa [payloadBytes] using inside
  | @cons d schema payload schemas dtype _ ih =>
      have dFits := fits d (by simp)
      have length := datumBytes_length dtype dFits
      rw [payloadBytes, List.length_append] at here ⊢
      obtain ⟨first, later⟩ := slice_append_inj here
      rw [length] at first later ⊢
      rw [parseColumns] at ok
      by_cases isFixed : dTypeIsFixedWidth d.dtype = true
      · have size : storedSize d = dTypeSize schema.dtype := by
          rw [storedSize, if_pos isFixed, dtype]
        have small := dTypeSize_le schema.dtype
        rw [← dtype, if_pos isFixed, dtype] at ok
        dsimp only at ok
        split at ok
        · cases ok
        · split at ok
          · cases ok
          · have next : (offset + UInt32.ofNat (dTypeSize schema.dtype)).toNat =
                offset.toNat + storedSize d := by
              rw [UInt32.toNat_add, UInt32.toNat_ofNat', Nat.mod_eq_of_lt (by omega), size,
                Nat.mod_eq_of_lt (by omega)]
            have consumed := ih (fun d mem => fits d (by simp [mem])) (by rw [next]; omega)
              (by rw [next]; exact later) ok
            omega
      · have isVar : dTypeIsFixedWidth d.dtype = false := by simpa using isFixed
        have size : storedSize d = 4 + d.varData.length := by rw [storedSize, if_neg isFixed]
        rw [← dtype, if_neg isFixed] at ok
        split at ok
        · cases ok
        · split at ok
          · cases ok
          · rename_i _ room
            rw [size, datumBytes_var dtype isVar (dFits isVar)] at first
            have parts : slice written offset.toNat
                ((leBytes 4 d.varData.length).length + d.varData.length) =
              leBytes 4 d.varData.length ++ d.varData := by
              rw [leBytes_length]
              exact first
            obtain ⟨lengthBytes, -⟩ := slice_append_inj parts
            rw [leBytes_length, ← same (by omega)] at lengthBytes
            have len : (UInt32.ofNat (leValue (slice buf offset.toNat 4))).toNat =
                d.varData.length := by
              have small := dFits isVar
              rw [lengthBytes, leValue_leBytes (by omega), UInt32.toNat_ofNat']
              exact Nat.mod_eq_of_lt small
            have past : (offset + 4).toNat = offset.toNat + 4 := by
              rw [UInt32.toNat_add]
              simp only [UInt32.reduceToNat]
              exact Nat.mod_eq_of_lt (by omega)
            dsimp only at ok
            split at ok
            · cases ok
            · split at ok
              · cases ok
              · rename_i _ room'
                rw [past, len] at room'
                have next : (offset + 4 +
                    UInt32.ofNat (leValue (slice buf offset.toNat 4))).toNat =
                      offset.toNat + storedSize d := by
                  rw [UInt32.toNat_add, past, len, size, Nat.mod_eq_of_lt (by omega),
                    Nat.add_assoc]
                have consumed := ih (fun d mem => fits d (by simp [mem])) (by rw [next]; omega)
                  (by rw [next]; exact later) ok
                omega

namespace DataFileReader

/-! ## Reading bytes -/

/-- `ReadRaw` gives the bytes at the offset, however few at a time. -/
theorem readRawLoop_inside (grant : ℕ → ℕ → ℕ) {file : List UInt8} {offset length : ℕ}
    (inside : offset + length ≤ file.length) {fuel totalRead : ℕ} (buf : List UInt8)
    (upto : totalRead ≤ length) (enough : length < totalRead + fuel) :
    readRawLoop grant file offset length fuel totalRead buf =
      .ok (buf ++ slice file (offset + totalRead) (length - totalRead)) := by
  induction fuel generalizing totalRead buf with
  | zero => omega
  | succ fuel ih =>
      unfold readRawLoop
      by_cases more : totalRead < length
      · have some : preadCount grant file (offset + totalRead) (length - totalRead) ≠ 0 := by
          unfold preadCount
          omega
        have atMost : preadCount grant file (offset + totalRead) (length - totalRead) ≤
            min (length - totalRead) (file.length - (offset + totalRead)) := Nat.min_le_right _ _
        rw [if_pos more]
        dsimp only
        rw [if_neg some, ih _ (by omega) (by omega), List.append_assoc, ← Nat.add_assoc,
          ← slice_add]
        congr 3
        omega
      · rw [if_neg more, show length - totalRead = 0 by omega, slice_zero_len, List.append_nil]

theorem readRaw_inside {r : DataFileReader} (isOpen : r.isOpen = true) (grant : ℕ → ℕ → ℕ)
    {offset : UInt64} {length : UInt32} (inside : offset.toNat + length.toNat ≤ r.file.length) :
    r.readRaw grant offset length = .ok (slice r.file offset.toNat length.toNat) := by
  rw [readRaw, if_neg (by simp [isOpen]),
    readRawLoop_inside grant inside [] (Nat.zero_le _) (by omega), List.nil_append,
    Nat.add_zero, Nat.sub_zero]

end DataFileReader

end VecFetch.Storage
