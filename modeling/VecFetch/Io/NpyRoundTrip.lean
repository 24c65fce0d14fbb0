/-
# Io.NpyRoundTrip -- a saved vector is loaded again

The header of a saved vector is the same text for every vector but for its count and its
padding, and everything but the shape is read out of the part that does not change.
-/
import VecFetch.Io.NpyShape

namespace VecFetch.Io

open VecFetch.Theory

set_option autoImplicit false

/-! ## The saved text -/

/-- The text before the count. -/
def dictFront : Text := "\x7b'descr': '<f4', 'fortran_order': False, 'shape': (".toList

/-- The text behind the count. -/
def dictBack : Text := ",), \x7d".toList

theorem toString_toList (n : ℕ) : (toString n).toList = Nat.toDigits 10 n := by
  have digits : toString n = n.repr := rfl
  rw [digits]
  exact Nat.toList_repr

theorem savedDict_eq (n : ℕ) : savedDict n = dictFront ++ (Nat.toDigits 10 n ++ dictBack) := by
  rw [← toString_toList]
  unfold savedDict dictFront dictBack
  with_reducible rfl

theorem descr_saved (rest : Text) :
    stripQuotes (extractValue (dictFront ++ rest) "descr".toList) = "<f4".toList := rfl

theorem fortran_saved (rest : Text) :
    extractValue (dictFront ++ rest) "fortran_order".toList = "False".toList := rfl

theorem shape_saved (rest : Text) :
    shapeText (dictFront ++ rest) = ('(' :: valueText 1 rest).rdropWhile fun c => c = ' ' := rfl

/-- Digits stay in a value, and in brackets a comma does too. -/
theorem valueText_digits {digits : Text} (all : ∀ c ∈ digits, c.isDigit = true) (text : Text) :
    valueText 1 (digits ++ text) = digits ++ valueText 1 text := by
  induction digits with
  | nil => rfl
  | cons c digits ih =>
      have digit := all c List.mem_cons_self
      have plain : ∀ d : Char, d.isDigit = false → c ≠ d := by
        rintro d other rfl
        rw [digit] at other
        cases other
      rw [List.cons_append, valueText, if_neg, if_neg, if_neg,
        ih fun c' mem => all c' (List.mem_cons_of_mem _ mem)]
      · rfl
      · rintro ⟨-, none⟩
        cases none
      · exact not_or.2 ⟨plain _ rfl, plain _ rfl⟩
      · exact not_or.2 ⟨plain _ rfl, plain _ rfl⟩

theorem digits_all (n : ℕ) : ∀ c ∈ Nat.toDigits 10 n, c.isDigit = true := fun _ mem =>
  Nat.isDigit_of_mem_toDigits (by decide) (by decide) mem

/-- The count as an entry of the tuple. -/
def countEntry (n : ℕ) : ShapeEntry where
  before := 0
  minus := false
  digits := Nat.toDigits 10 n
  after := 0
  someDigit := Nat.toDigits_ne_nil
  allDigits := digits_all n

theorem countEntry_value (n : ℕ) : (countEntry n).value = n := by
  rw [ShapeEntry.value, if_neg (by exact Bool.false_ne_true)]
  exact congrArg Nat.cast Nat.ofDigitChars_ten_toDigits

/-- The shape text of a saved vector is the tuple of its count. -/
theorem shape_tuple (n : ℕ) (pad : Text) :
    IsTuple (shapeText (savedDict n ++ pad)) [(n : ℤ)] := by
  have text : savedDict n ++ pad = dictFront ++ (Nat.toDigits 10 n ++ (dictBack ++ pad)) := by
    rw [savedDict_eq, List.append_assoc, List.append_assoc]
  have rest : valueText 1 (dictBack ++ pad) = [',', ')'] := rfl
  have value : shapeText (savedDict n ++ pad) = '(' :: ((countEntry n).text ++ [',', ')']) := by
    have entry : (countEntry n).text = Nat.toDigits 10 n := by
      rw [ShapeEntry.text]
      exact List.append_nil _
    rw [text, shape_saved, valueText_digits (digits_all n), rest, entry]
    have last : '(' :: (Nat.toDigits 10 n ++ [',', ')']) =
        ('(' :: (Nat.toDigits 10 n ++ [','])) ++ [')'] := by simp
    rw [last]
    exact List.rdropWhile_concat_neg _ _ _ (by decide)
  refine ⟨_, value, ?_⟩
  have entry := TupleRest.entry (countEntry n) (.close 0)
  rw [countEntry_value] at entry
  exact entry

/-! ## The saved file -/

/-- The header of a saved vector. -/
def savedHeader (n : ℕ) : Text := savedDict n ++ padding (savedDict n)

theorem savedHeader_small {n : ℕ} (small : n < 2 ^ 32) : (savedHeader n).length < 2 ^ 16 := by
  have digits : (Nat.toDigits 10 n).length ≤ 10 :=
    (Nat.length_toDigits_le_iff (by decide) (by decide)).2 (by omega)
  have front : dictFront.length = 51 := by decide
  have back : dictBack.length = 5 := by decide
  have dict : (savedDict n).length ≤ 66 := by
    rw [savedDict_eq, List.length_append, List.length_append, front, back]
    omega
  have pad : (padding (savedDict n)).length ≤ 17 := by
    rw [padding, List.length_append, List.length_singleton]
    split
    · rw [List.length_replicate]
      omega
    · exact Nat.le_add_left ..
  rw [savedHeader, List.length_append]
  omega

/-- A character below 256 is one byte. -/
theorem textOf_bytes {text : Text} (small : ∀ c ∈ text, c.toNat < 256) :
    textOf (text.map fun c => UInt8.ofNat c.toNat) = text := by
  rw [textOf, List.map_map]
  refine (List.map_congr_left fun c mem => ?_).trans (List.map_id _)
  rw [Function.comp_apply, UInt8.toNat_ofNat', Nat.mod_eq_of_lt (small c mem)]
  exact Char.ofNat_toNat c

theorem savedHeader_bytes (n : ℕ) : ∀ c ∈ savedHeader n, c.toNat < 256 := by
  intro c mem
  rw [savedHeader, savedDict_eq, padding] at mem
  simp only [List.mem_append, List.mem_singleton] at mem
  rcases mem with (front | digit | back) | pad | last
  · have small : (dictFront.all fun c => decide (c.toNat < 256)) = true := by decide
    exact of_decide_eq_true (List.all_eq_true.1 small c front)
  · have isDigit := digits_all n c digit
    simp only [Char.isDigit, Bool.and_eq_true, decide_eq_true_eq] at isDigit
    have high := UInt32.le_iff_toNat_le.1 isDigit.2
    have nine : '9'.val.toNat = 57 := rfl
    rw [nine] at high
    exact Nat.lt_of_le_of_lt high (by decide)
  · have small : (dictBack.all fun c => decide (c.toNat < 256)) = true := by decide
    exact of_decide_eq_true (List.all_eq_true.1 small c back)
  · split at pad
    · rw [List.eq_of_mem_replicate pad]
      decide
    · cases pad
  · rw [last]
    decide

/-- The bytes of a saved vector. -/
def savedFile (values : List UInt32) : List UInt8 :=
  kNpyMagic ++ ([1, 0] ++ (leBytes 2 (savedHeader values.length).length ++
    ((savedHeader values.length).map (fun c => UInt8.ofNat c.toNat) ++
      values.flatMap fun value => leBytes 4 value.toNat)))

section Saved

variable {values : List UInt32} (small : values.length < 2 ^ 32)

include small

theorem save_ok (path : String) : saveNpyFloat32Vector path values = .ok (savedFile values) := by
  have header := savedHeader_small small
  rw [savedHeader] at header
  rw [saveNpyFloat32Vector]
  rw [if_neg (by omega)]
  rfl

theorem savedFile_header (stale : Stale) :
    HeaderAt stale (savedFile values) 10 (savedHeader values.length).length := by
  have size : 10 ≤ (savedFile values).length := by
    rw [savedFile]
    simp only [List.length_append, leBytes_length, kNpyMagic, List.length_cons, List.length_nil]
    omega
  refine ⟨rfl, size, .inl ⟨rfl, rfl, ?_⟩⟩
  have length : slice (savedFile values) 8 2 = leBytes 2 (savedHeader values.length).length := by
    rw [savedFile, ← List.append_assoc]
    exact slice_append_right rfl (leBytes_length _ _) _
  rw [length, leValue_leBytes (savedHeader_small small)]

variable (values) in
omit small in
theorem savedFile_text :
    headerText (savedFile values) 10 (savedHeader values.length).length =
      savedHeader values.length := by
  have bytes : slice (savedFile values) 10 (savedHeader values.length).length =
      (savedHeader values.length).map fun c => UInt8.ofNat c.toNat := by
    rw [savedFile, ← List.append_assoc, ← List.append_assoc]
    refine slice_append_right ?_ (List.length_map _) _
    rw [List.length_append, leBytes_length]
    rfl
  rw [headerText, bytes, textOf_bytes (savedHeader_bytes _)]

variable (values) in
omit small in
theorem savedFile_length :
    (savedFile values).length = 10 + (savedHeader values.length).length + 4 * values.length := by
  rw [savedFile]
  simp only [List.length_append, leBytes_length, kNpyMagic, List.length_cons, List.length_nil,
    List.length_map, List.length_flatMap, List.map_const', List.sum_replicate_nat]
  omega

omit small in
/-- Each float is where it was written. -/
theorem savedFile_value {i : ℕ} {value : UInt32} (at_ : values[i]? = some value) :
    leValue (slice (savedFile values) (10 + (savedHeader values.length).length + i * 4) 4) =
      value.toNat := by
  have bytes : slice (savedFile values) (10 + (savedHeader values.length).length + i * 4) 4 =
      leBytes 4 value.toNat := by
    rw [savedFile, ← List.append_assoc, ← List.append_assoc, ← List.append_assoc,
      slice_append_right_add]
    · have entry := slice_flatMap (f := fun value : UInt32 => leBytes 4 value.toNat)
        (fun value => leBytes_length 4 value.toNat) at_ []
      rw [List.append_nil] at entry
      exact entry
    · rw [List.length_append, List.length_append, List.length_map, leBytes_length]
      rfl
  rw [bytes, leValue_leBytes value.toNat_lt]

/-- **A saved vector is loaded as it was**, bit for bit, where memory holds its file. -/
theorem load_saved (room : ℕ) (stale : Stale) (path : String)
    (memory : (savedFile values).length ≤ room) :
    loadNpyFloat32 room stale path (some (savedFile values)) =
      some (.ok ⟨values, UInt32.ofNat values.length, 1⟩) := by
  have length := savedFile_length values
  have at_ := savedFile_header small stale
  have text := savedFile_text values
  have read : readHeader room stale path (savedFile values) = some (.ok
      (headerText (savedFile values) 10 (savedHeader values.length).length,
        10 + (savedHeader values.length).length)) := by
    rcases readHeader_cases room stale path (savedFile values) with
      ⟨start, len, at', found⟩ | ⟨nowhere, -⟩
    · obtain ⟨rfl, rfl⟩ := at_.unique at'
      rw [found, readHeaderText, if_neg (by omega), if_neg (by omega), if_neg (by omega)]
      rfl
    · exact absurd at_ (nowhere _ _)
  have shape : floatExtents (parseShape (shapeText (savedHeader values.length))) =
      .ok (UInt32.ofNat values.length, 1) := by
    rw [savedHeader, parseShape_tuple (shape_tuple _ _)]
    rfl
  have passes : Passes float32Descrs floatExtents (savedHeader values.length)
      (UInt32.ofNat values.length) 1 := by
    refine ⟨?_, ?_, shape⟩
    · have descr : stripQuotes (extractValue (savedHeader values.length) "descr".toList) =
          "<f4".toList := descr_saved _
      rw [descr]
      exact List.mem_cons_self
    · have order : extractValue (savedHeader values.length) "fortran_order".toList =
          "False".toList := fortran_saved _
      rw [order]
      decide
  have rows : (UInt32.ofNat values.length).toNat = values.length := by
    rw [UInt32.toNat_ofNat', Nat.mod_eq_of_lt small]
  have one : (1 : UInt32).toNat = 1 := rfl
  rw [loadNpyFloat32]
  rcases loadArray_text 4 float32Descrs floatExtents UInt32.ofNat "float32 (<f4)" read with
    ⟨rows', cols', passes', loaded⟩ | ⟨never, -⟩
  · rw [text] at passes'
    obtain ⟨rfl, rfl⟩ := Prod.mk.inj (Except.ok.inj (passes.2.2.symm.trans passes'.2.2))
    rw [loaded, readElements, rows, one, Nat.mul_one, if_neg (by omega), if_neg (by omega)]
    have data : ((List.range values.length).map fun i => UInt32.ofNat (leValue (slice
        (savedFile values) (10 + (savedHeader values.length).length + i * 4) 4))) = values := by
      refine List.ext_getElem (by rw [List.length_map, List.length_range]) fun i _ inside => ?_
      rw [List.getElem_map, List.getElem_range,
        savedFile_value (List.getElem?_eq_getElem inside), UInt32.ofNat_toNat]
    rw [data]
    rfl
  · rw [text] at never
    exact absurd passes (never _ _)

end Saved

/-! ## All loaders -/

/-- The vector loader's arrays have one column. -/
theorem loadArray_extents {β : Type} {room width : ℕ} {stale : Stale} {path : String}
    {file : Option (List UInt8)} {descrs : List Text}
    {extents : List UInt32 → Result (UInt32 × UInt32)} {decode : ℕ → β} {expected : String}
    {arr : NpyArray β}
    (loaded : loadArray room stale path file expected descrs extents width decode =
      some (.ok arr)) : ∃ shape, extents shape = .ok (arr.rows, arr.cols) := by
  obtain ⟨parsed, -, rest⟩ := Option.bind_eq_some_iff.1 loaded
  cases parsed with
  | error failure => cases rest
  | ok hdr =>
      dsimp only at rest
      split at rest
      · cases rest
      · split at rest
        · cases rest
        · cases taken : extents hdr.shape with
          | error failure =>
              rw [taken] at rest
              cases rest
          | ok sizes =>
              rw [taken] at rest
              obtain ⟨read, -, made⟩ := Option.map_eq_some_iff.1 rest
              cases read with
              | error failure => cases made
              | ok data =>
                  obtain rfl := Except.ok.inj made
                  exact ⟨hdr.shape, taken⟩

theorem loadNpyInt64_honours_iff (room : ℕ) (stale : Stale) (path : String) (file : List UInt8) :
    Honours stale file (loadNpyInt64 room stale path (some file)) ShapedVector ↔
      HeaderFits room stale file int64Descrs vectorExtents 8 [1] := by
  have loads : Honours stale file (loadArray room stale path (some file) "int64 (<i8)" int64Descrs
      vectorExtents 8 fun bits => (UInt64.ofNat bits).toInt64) (ShapedAs [1]) ↔
      HeaderFits room stale file int64Descrs vectorExtents 8 [1] :=
    loadArray_honours_iff vectorExtents_takes
  rw [← loads, loadNpyInt64]
  cases loaded : loadArray room stale path (some file) "int64 (<i8)" int64Descrs vectorExtents 8
      (fun bits => (UInt64.ofNat bits).toInt64) with
  | none =>
      constructor
      · rintro ⟨outcome, bad, -⟩
        cases bad
      · rintro ⟨outcome, bad, -⟩
        cases bad
  | some outcome =>
      cases outcome with
      | error failure => exact ⟨fun _ => honours_error rfl, fun _ => honours_error rfl⟩
      | ok arr =>
          obtain ⟨shape, taken⟩ := loadArray_extents loaded
          have one : arr.cols = 1 := by
            cases shape with
            | nil => cases taken
            | cons count rest => exact (Prod.mk.inj (Except.ok.inj taken)).2.symm
          constructor
          · rintro ⟨outcome, ok, each⟩
            cases ok
            obtain ⟨start, len, dims, at_, tuple, dim, size⟩ := each _ rfl
            refine ⟨_, rfl, fun arr' same => ?_⟩
            cases same
            exact ⟨start, len, dims, at_, tuple, by rw [dim]; exact List.mem_singleton_self _,
              .inl ⟨dim, one⟩, size⟩
          · rintro ⟨outcome, ok, each⟩
            cases ok
            obtain ⟨start, len, dims, at_, tuple, some_dims, dim, size⟩ := each _ rfl
            refine ⟨_, rfl, fun arr' same => ?_⟩
            cases same
            refine ⟨start, len, dims, at_, tuple, ?_, size⟩
            rcases dim with ⟨dim, -⟩ | two
            · exact dim
            · rw [two] at some_dims
              simp at some_dims

/-- A file with this header text behind a version 1.0 prefix. -/
def fileOf (header : Text) (data : List UInt8) : List UInt8 :=
  kNpyMagic ++ ([1, 0] ++ (leBytes 2 header.length ++
    (header.map (fun c => UInt8.ofNat c.toNat) ++ data)))

/-- Three dimensions. -/
def deepFile : List UInt8 :=
  fileOf "\x7b'descr': '<f4', 'fortran_order': False, 'shape': (1, 1, 2), \x7d".toList
    (List.replicate 8 0)

/-- One number more than 32 bits hold. -/
def wideFile : List UInt8 :=
  fileOf "\x7b'descr': '<i8', 'fortran_order': False, 'shape': (4294967297,), \x7d".toList
    (List.replicate 8 0)

end VecFetch.Io
