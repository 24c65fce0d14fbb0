/-
# Io.NpyShape -- the shape a header means and the shape a loader takes

The shape of a header is a tuple of decimal numbers (`IsTuple`).  The loaders take its runs
of digits, cut to 32 bits each, and look at the first one or two of them.  A loader honours
the header of a file (`Honours`) exactly if what it does not refuse is a tuple of as many
numbers as it has dimensions, each below `2 ^ 32`, and fits memory (`loadArray_honours_iff`).
-/
import VecFetch.Io.Npy
import Mathlib.Algebra.BigOperators.Group.List.Basic
import Mathlib.Data.Int.Basic
import Mathlib.Algebra.Order.Ring.Int

namespace VecFetch.Io

open VecFetch.Theory

set_option autoImplicit false

/-! ## Tuples -/

/-- A decimal number among blanks. -/
structure ShapeEntry where
  before : ℕ
  minus : Bool
  digits : Text
  after : ℕ
  someDigit : digits ≠ []
  allDigits : ∀ c ∈ digits, c.isDigit = true

namespace ShapeEntry

def text (e : ShapeEntry) : Text :=
  List.replicate e.before ' ' ++
    ((if e.minus then ['-'] else []) ++ (e.digits ++ List.replicate e.after ' '))

def value (e : ShapeEntry) : ℤ :=
  if e.minus then -(Nat.ofDigitChars 10 e.digits 0 : ℤ) else Nat.ofDigitChars 10 e.digits 0

end ShapeEntry

/-- What comes behind the opening parenthesis; a comma may end the entries. -/
inductive TupleRest : Text → List ℤ → Prop
  | close (blanks : ℕ) : TupleRest (List.replicate blanks ' ' ++ [')']) []
  | last (e : ShapeEntry) : TupleRest (e.text ++ [')']) [e.value]
  | entry (e : ShapeEntry) {rest : Text} {dims : List ℤ} (others : TupleRest rest dims) :
      TupleRest (e.text ++ ',' :: rest) (e.value :: dims)

/-- The text is a tuple of these numbers. -/
def IsTuple (text : Text) (dims : List ℤ) : Prop := ∃ rest, text = '(' :: rest ∧ TupleRest rest dims

/-- A number as `ParseShape` keeps it. -/
def cut (dim : ℤ) : UInt32 := UInt32.ofNat dim.natAbs

/-! ## Loading what the header says -/

/-- Where a file has its header text. -/
def HeaderAt (stale : Stale) (file : List UInt8) (start len : ℕ) : Prop :=
  file.take 6 = kNpyMagic ∧ start ≤ file.length ∧
    (file.getD 6 stale.major = 1 ∧ start = 10 ∧ len = leValue (slice file 8 2) ∨
      file.getD 6 stale.major = 2 ∧ start = 12 ∧ len = leValue (slice file 8 4))

def headerText (file : List UInt8) (start len : ℕ) : Text := textOf (slice file start len)

def shapeText (header : Text) : Text := extractValue header "shape".toList

/-- The call returns an error, or an array shaped as the header of the file says. -/
def Honours {A : Type} (stale : Stale) (file : List UInt8) (loaded : Option (Result A))
    (Shaped : A → List ℤ → Prop) : Prop :=
  ∃ outcome, loaded = some outcome ∧ ∀ arr, outcome = .ok arr → ∃ start len dims,
    HeaderAt stale file start len ∧ IsTuple (shapeText (headerText file start len)) dims ∧
      Shaped arr dims

/-- The array has these dimensions, as many as `allowed`, and as many elements as their
product; an array of one dimension has one column. -/
def ShapedAs {β : Type} (allowed : List ℕ) (arr : NpyArray β) (dims : List ℤ) : Prop :=
  dims.length ∈ allowed ∧
    (dims = [(arr.rows.toNat : ℤ)] ∧ arr.cols = 1 ∨
      dims = [(arr.rows.toNat : ℤ), (arr.cols.toNat : ℤ)]) ∧
    (arr.data.length : ℤ) = dims.prod

/-- The vector has the one dimension, and as many elements. -/
def ShapedVector (arr : NpyArrayInt64) (dims : List ℤ) : Prop :=
  dims = [(arr.count.toNat : ℤ)] ∧ (arr.data.length : ℤ) = dims.prod

/-- The checks on the header text pass, for so many rows and columns. -/
def Passes (descrs : List Text) (extents : List UInt32 → Result (UInt32 × UInt32))
    (header : Text) (rows cols : UInt32) : Prop :=
  stripQuotes (extractValue header "descr".toList) ∈ descrs ∧
    extractValue header "fortran_order".toList ≠ "True".toList ∧
      extents (parseShape (shapeText header)) = .ok (rows, cols)

/-- The shape is a tuple of as many numbers as `allowed`, none negative and each below
`2 ^ 32`. -/
def FitsHeader (allowed : List ℕ) (header : Text) : Prop :=
  ∃ dims, IsTuple (shapeText header) dims ∧ dims.length ∈ allowed ∧
    ∀ dim ∈ dims, 0 ≤ dim ∧ dim < 2 ^ 32

/-- A file is refused, or its shape fits and memory holds it: the header, and the elements of
`width` bytes unless a check fails. -/
def HeaderFits (room : ℕ) (stale : Stale) (file : List UInt8) (descrs : List Text)
    (extents : List UInt32 → Result (UInt32 × UInt32)) (width : ℕ) (allowed : List ℕ) : Prop :=
  ∀ start len, HeaderAt stale file start len → len ≤ room ∧
    (start + len ≤ file.length → ∀ rows cols : UInt32,
      Passes descrs extents (headerText file start len) rows cols →
        (width * (rows.toNat * cols.toNat) ≤ room ∧ width * (rows.toNat * cols.toNat) < 2 ^ 63) ∧
          (start + len + width * (rows.toNat * cols.toNat) ≤ file.length →
            FitsHeader allowed (headerText file start len)))

/-! ## Digits -/

/-- The runs of digits as numbers, with the number that is being read. -/
def numbersFrom : Option ℕ → Text → List ℕ
  | val, [] => val.toList
  | val, c :: text =>
      if c.isDigit then numbersFrom (some (10 * val.getD 0 + (c.toNat - 48))) text
      else val.toList ++ numbersFrom none text

/-- `ParseShape` keeps 32 bits of each. -/
theorem parseShapeFrom_eq (val : Option ℕ) (text : Text) :
    parseShapeFrom (val.map UInt32.ofNat) text = (numbersFrom val text).map UInt32.ofNat := by
  induction text generalizing val with
  | nil => cases val <;> rfl
  | cons c text ih =>
      rw [parseShapeFrom, numbersFrom]
      split
      · rw [← ih]
        cases val with
        | none =>
            simp only [Option.map_none, Option.map_some, Option.getD_none, UInt32.zero_mul,
              UInt32.zero_add, Nat.mul_zero, Nat.zero_add]
        | some n =>
            simp only [Option.map_some, Option.getD_some, UInt32.ofNat_add, UInt32.ofNat_mul]
            rw [UInt32.mul_comm]
            rfl
      · rw [List.map_append, ← ih none]
        cases val <;> rfl

theorem numbersFrom_skip {skipped : Text} (none_digit : ∀ c ∈ skipped, c.isDigit = false)
    (text : Text) : numbersFrom none (skipped ++ text) = numbersFrom none text := by
  induction skipped with
  | nil => rfl
  | cons c skipped ih =>
      rw [List.cons_append, numbersFrom, none_digit c List.mem_cons_self,
        if_neg Bool.false_ne_true]
      exact ih fun c' mem => none_digit c' (List.mem_cons_of_mem _ mem)

theorem numbersFrom_end {skipped : Text} (none_digit : ∀ c ∈ skipped, c.isDigit = false)
    (some_char : skipped ≠ []) (val : ℕ) (text : Text) :
    numbersFrom (some val) (skipped ++ text) = val :: numbersFrom none text := by
  cases skipped with
  | nil => exact absurd rfl some_char
  | cons c skipped =>
      rw [List.cons_append, numbersFrom, none_digit c List.mem_cons_self,
        if_neg Bool.false_ne_true,
        numbersFrom_skip fun c' mem => none_digit c' (List.mem_cons_of_mem _ mem)]
      rfl

theorem numbersFrom_digits {digits : Text} (all : ∀ c ∈ digits, c.isDigit = true) (n : ℕ)
    (text : Text) :
    numbersFrom (some n) (digits ++ text) =
      numbersFrom (some (Nat.ofDigitChars 10 digits n)) text := by
  induction digits generalizing n with
  | nil => rw [List.nil_append, Nat.ofDigitChars_nil]
  | cons c digits ih =>
      have zero : '0'.toNat = 48 := rfl
      rw [List.cons_append, numbersFrom, if_pos (all c List.mem_cons_self), Option.getD_some,
        ih fun c' mem => all c' (List.mem_cons_of_mem _ mem), Nat.ofDigitChars_cons, zero]

/-- A number begins from nothing. -/
theorem numbersFrom_number {digits : Text} (some_digit : digits ≠ [])
    (all : ∀ c ∈ digits, c.isDigit = true) (text : Text) :
    numbersFrom none (digits ++ text) =
      numbersFrom (some (Nat.ofDigitChars 10 digits 0)) text := by
  rw [← numbersFrom_digits all]
  cases digits with
  | nil => exact absurd rfl some_digit
  | cons c digits =>
      have first := all c List.mem_cons_self
      rw [List.cons_append, numbersFrom, numbersFrom, if_pos first, if_pos first]
      rfl

theorem blanks_no_digit {n : ℕ} : ∀ c ∈ List.replicate n ' ', c.isDigit = false := by
  intro c mem
  rw [List.eq_of_mem_replicate mem]
  rfl

theorem ShapeEntry.value_natAbs (e : ShapeEntry) :
    e.value.natAbs = Nat.ofDigitChars 10 e.digits 0 := by
  rw [ShapeEntry.value]
  split
  · rw [Int.natAbs_neg, Int.natAbs_natCast]
  · rw [Int.natAbs_natCast]

/-- An entry is read up to the character that ends it. -/
theorem numbersFrom_entry (e : ShapeEntry) {c : Char} (ends : c.isDigit = false) (text : Text) :
    numbersFrom none (e.text ++ c :: text) = e.value.natAbs :: numbersFrom none text := by
  have sign : ∀ c' ∈ (if e.minus then ['-'] else []), c'.isDigit = false := by
    intro c' mem
    split at mem
    · rw [List.mem_singleton.1 mem]
      rfl
    · cases mem
  have tail : ∀ c' ∈ List.replicate e.after ' ' ++ [c], c'.isDigit = false := by
    intro c' mem
    rcases List.mem_append.1 mem with blank | last
    · exact blanks_no_digit c' blank
    · rw [List.mem_singleton.1 last]
      exact ends
  have split : e.text ++ c :: text = List.replicate e.before ' ' ++
      ((if e.minus then ['-'] else []) ++ (e.digits ++
        ((List.replicate e.after ' ' ++ [c]) ++ text))) := by
    simp only [ShapeEntry.text, List.append_assoc, List.singleton_append]
  rw [split, numbersFrom_skip blanks_no_digit, numbersFrom_skip sign,
    numbersFrom_number e.someDigit e.allDigits, numbersFrom_end tail (by simp), e.value_natAbs]

/-- A tuple is read number by number, but for the signs. -/
theorem numbersFrom_tuple {text : Text} {dims : List ℤ} (tuple : IsTuple text dims) :
    numbersFrom none text = dims.map Int.natAbs := by
  obtain ⟨rest, rfl, shape⟩ := tuple
  have start : numbersFrom none ('(' :: rest) = numbersFrom none rest := rfl
  rw [start]
  clear start
  induction shape with
  | close blanks =>
      rw [numbersFrom_skip blanks_no_digit]
      rfl
  | last e =>
      rw [numbersFrom_entry e rfl]
      rfl
  | entry e others ih =>
      rw [numbersFrom_entry e rfl, ih]
      rfl

theorem parseShape_tuple {text : Text} {dims : List ℤ} (tuple : IsTuple text dims) :
    parseShape text = dims.map cut := by
  have read := parseShapeFrom_eq none text
  rw [numbersFrom_tuple tuple, List.map_map] at read
  exact read

/-! ## Reading the header -/

section Header

variable {room : ℕ} {stale : Stale} {path : String} {file : List UInt8}

variable (room stale path file) in
/-- The header text is read where it lies, or nothing is. -/
theorem readHeader_cases :
    (∃ start len, HeaderAt stale file start len ∧
        readHeader room stale path file = readHeaderText room path file start len) ∨
      (∀ start len, ¬ HeaderAt stale file start len) ∧
        ∃ failure, readHeader room stale path file = some (.error failure) := by
  rw [readHeader]
  by_cases magic : file.take 6 = kNpyMagic
  · rw [if_neg (not_not.2 magic)]
    dsimp only
    -- a length that is not there is never used
    have short {start : ℕ} (len : ℕ) (few : file.length < start) :
        ∃ failure, readHeaderText room path file start len = some (.error failure) := by
      rw [readHeaderText, if_pos few]
      exact ⟨_, rfl⟩
    by_cases one : file.getD 6 stale.major = 1
    · rw [if_pos one]
      by_cases there : 10 ≤ file.length
      · exact .inl ⟨10, _, ⟨magic, there, .inl ⟨one, rfl, rfl⟩⟩, rfl⟩
      · refine .inr ⟨?_, short _ (by omega)⟩
        rintro start len ⟨-, enough, ⟨-, rfl, -⟩ | ⟨two, -⟩⟩
        · exact there enough
        · rw [one] at two
          cases two
    · rw [if_neg one]
      by_cases two : file.getD 6 stale.major = 2
      · rw [if_pos two]
        by_cases there : 12 ≤ file.length
        · exact .inl ⟨12, _, ⟨magic, there, .inr ⟨two, rfl, rfl⟩⟩, rfl⟩
        · refine .inr ⟨?_, short _ (by omega)⟩
          rintro start len ⟨-, enough, ⟨one', -⟩ | ⟨-, rfl, -⟩⟩
          · exact one one'
          · exact there enough
      · rw [if_neg two]
        refine .inr ⟨?_, _, rfl⟩
        rintro start len ⟨-, -, ⟨one', -⟩ | ⟨two', -⟩⟩
        · exact one one'
        · exact two two'
  · rw [if_pos magic]
    exact .inr ⟨fun start len at_ => magic at_.1, _, rfl⟩

theorem HeaderAt.unique {start len start' len' : ℕ} (first : HeaderAt stale file start len)
    (second : HeaderAt stale file start' len') : start = start' ∧ len = len' := by
  obtain ⟨-, -, ⟨one, rfl, rfl⟩ | ⟨two, rfl, rfl⟩⟩ := first
  · obtain ⟨-, -, ⟨-, rfl, rfl⟩ | ⟨two, -⟩⟩ := second
    · exact ⟨rfl, rfl⟩
    · rw [one] at two
      cases two
  · obtain ⟨-, -, ⟨one, -⟩ | ⟨-, rfl, rfl⟩⟩ := second
    · rw [one] at two
      cases two
    · exact ⟨rfl, rfl⟩

end Header

/-! ## Loading -/

/-- What a loader makes of as many numbers as it has dimensions. -/
def TakesDims (allowed : List ℕ) (extents : List UInt32 → Result (UInt32 × UInt32)) : Prop :=
  ∀ shape rows cols, extents shape = .ok (rows, cols) → shape.length ∈ allowed →
    shape = [rows] ∧ cols = 1 ∨ shape = [rows, cols]

theorem floatExtents_takes : TakesDims [1, 2] floatExtents := by
  intro shape rows cols taken some_dims
  match shape with
  | [] => cases taken
  | [n] =>
      cases taken
      exact .inl ⟨rfl, rfl⟩
  | [n, m] =>
      cases taken
      exact .inr rfl
  | n :: m :: l :: rest => simp at some_dims

theorem vectorExtents_takes : TakesDims [1] vectorExtents := by
  intro shape rows cols taken one_dim
  match shape with
  | [] => cases taken
  | [n] =>
      cases taken
      exact .inl ⟨rfl, rfl⟩
  | n :: m :: rest => simp at one_dim

theorem matrixExtents_takes (type path : String) : TakesDims [2] (matrixExtents type path) := by
  intro shape rows cols taken two_dims
  match shape with
  | [] => cases taken
  | [n] => simp at two_dims
  | [n, m] =>
      cases taken
      exact .inr rfl
  | n :: m :: l :: rest => simp at two_dims

/-- A number that fits is its own cut. -/
theorem cut_eq_iff {dim : ℤ} {n : UInt32} (low : 0 ≤ dim) (high : dim < 2 ^ 32) :
    cut dim = n ↔ dim = (n.toNat : ℤ) := by
  rw [cut, ← UInt32.toNat_inj, UInt32.toNat_ofNat', Nat.mod_eq_of_lt (by omega)]
  omega

section Load

variable {β : Type} {room width : ℕ} {stale : Stale} {path : String} {file : List UInt8}
  {descrs : List Text} {extents : List UInt32 → Result (UInt32 × UInt32)} {allowed : List ℕ}
  {decode : ℕ → β} {expected : String}

/-- An array of rows and columns is shaped as the header's tuple exactly if that fits. -/
theorem shapedAs_iff (takes : TakesDims allowed extents) (header : Text) (arr : NpyArray β)
    (taken : extents (parseShape (shapeText header)) = .ok (arr.rows, arr.cols))
    (whole : arr.data.length = arr.rows.toNat * arr.cols.toNat) :
    (∃ dims, IsTuple (shapeText header) dims ∧ ShapedAs allowed arr dims) ↔
      FitsHeader allowed header := by
  constructor
  · rintro ⟨dims, tuple, some_dims, shaped, -⟩
    refine ⟨dims, tuple, some_dims, fun dim mem => ?_⟩
    have rowsBound := arr.rows.toNat_lt
    have colsBound := arr.cols.toNat_lt
    rcases shaped with ⟨rfl, -⟩ | rfl
    · obtain rfl := List.mem_singleton.1 mem
      omega
    · rcases List.mem_cons.1 mem with rfl | mem
      · omega
      · obtain rfl := List.mem_singleton.1 mem
        omega
  · rintro ⟨dims, tuple, some_dims, small⟩
    refine ⟨dims, tuple, some_dims, ?_⟩
    have read := parseShape_tuple tuple
    rw [read] at taken
    rcases takes _ _ _ taken (by rw [List.length_map]; exact some_dims) with ⟨one, col⟩ | two
    · obtain ⟨dim, rfl, first⟩ := List.map_eq_singleton_iff.1 one
      obtain ⟨low, high⟩ := small dim List.mem_cons_self
      rw [cut_eq_iff low high] at first
      refine ⟨.inl ⟨by rw [first], col⟩, ?_⟩
      rw [whole, col, first, List.prod_singleton]
      simp
    · obtain ⟨dim, rest, rfl, first, rest_eq⟩ := List.map_eq_cons_iff.1 two
      obtain ⟨dim', rfl, second⟩ := List.map_eq_singleton_iff.1 rest_eq
      obtain ⟨low, high⟩ := small dim List.mem_cons_self
      obtain ⟨low', high'⟩ := small dim' (List.mem_cons_of_mem _ List.mem_cons_self)
      rw [cut_eq_iff low high] at first
      rw [cut_eq_iff low' high'] at second
      refine ⟨.inr (by rw [first, second]), ?_⟩
      rw [whole, first, second, List.prod_cons, List.prod_singleton, Int.natCast_mul]

variable (width descrs extents decode expected) in
/-- What `loadArray` does with a header text. -/
theorem loadArray_text {start len : ℕ}
    (read : readHeader room stale path file =
      some (.ok (headerText file start len, start + len))) :
    (∃ rows cols, Passes descrs extents (headerText file start len) rows cols ∧
        loadArray room stale path (some file) expected descrs extents width decode =
          (readElements room width decode path file (start + len)
            (rows.toNat * cols.toNat)).map fun read => read.map fun data => ⟨data, rows, cols⟩) ∨
      (∀ rows cols, ¬ Passes descrs extents (headerText file start len) rows cols) ∧
        ∃ failure, loadArray room stale path (some file) expected descrs extents width decode =
          some (.error failure) := by
  rw [loadArray, parseNpyHeader, read]
  dsimp only [Option.map_some, Except.map, Option.bind_some, parseHeader, Option.getD_some]
  by_cases type : stripQuotes (extractValue (headerText file start len) "descr".toList) ∈ descrs
  · rw [if_neg (not_not.2 type)]
    by_cases order : extractValue (headerText file start len) "fortran_order".toList = "True".toList
    · rw [if_pos (decide_eq_true order)]
      exact .inr ⟨fun rows cols passes => passes.2.1 order, _, rfl⟩
    · rw [if_neg fun bad => order (of_decide_eq_true bad)]
      cases taken : extents (parseShape (shapeText (headerText file start len))) with
      | error failure =>
          refine .inr ⟨fun rows cols passes => ?_, failure, ?_⟩
          · have ok := passes.2.2
            rw [taken] at ok
            cases ok
          · rw [shapeText] at taken
            rw [taken]
      | ok sizes =>
          refine .inl ⟨sizes.1, sizes.2, ⟨type, order, taken⟩, ?_⟩
          rw [shapeText] at taken
          rw [taken]
  · rw [if_pos type]
    exact .inr ⟨fun rows cols passes => type passes.1, _, rfl⟩

theorem readElements_none_iff {count dataOffset : ℕ} :
    readElements room width decode path file dataOffset count = none ↔
      ¬ (width * count ≤ room ∧ width * count < 2 ^ 63) := by
  rw [readElements]
  by_cases large : room < width * count ∨ 2 ^ 63 ≤ width * count
  · rw [if_pos large]
    exact ⟨fun _ => by omega, fun _ => rfl⟩
  · rw [if_neg large]
    constructor
    · intro none
      split at none <;> cases none
    · intro bad
      omega

variable (path file decode) in
theorem readElements_ok_iff {count : ℕ} (dataOffset : ℕ)
    (fits : width * count ≤ room ∧ width * count < 2 ^ 63) :
    (∃ data, readElements room width decode path file dataOffset count = some (.ok data)) ↔
      dataOffset + width * count ≤ file.length := by
  rw [readElements, if_neg (by omega)]
  by_cases short : file.length < dataOffset + width * count
  · rw [if_pos short]
    constructor
    · rintro ⟨data, ok⟩
      cases ok
    · intro enough
      omega
  · rw [if_neg short]
    exact ⟨fun _ => by omega, fun _ => ⟨_, rfl⟩⟩

theorem readElements_length {count dataOffset : ℕ} {data : List β}
    (read : readElements room width decode path file dataOffset count = some (.ok data)) :
    data.length = count := by
  rw [readElements] at read
  split at read
  · cases read
  · split at read
    · cases read
    · cases read
      rw [List.length_map, List.length_range]

/-- Two header texts of a file, or two sizes of a text, are the same. -/
theorem headerFits_iff {start len : ℕ} (at_ : HeaderAt stale file start len) {rows cols : UInt32}
    (passes : Passes descrs extents (headerText file start len) rows cols) (fits : len ≤ room)
    (whole : start + len ≤ file.length) :
    HeaderFits room stale file descrs extents width allowed ↔
      (width * (rows.toNat * cols.toNat) ≤ room ∧ width * (rows.toNat * cols.toNat) < 2 ^ 63) ∧
        (start + len + width * (rows.toNat * cols.toNat) ≤ file.length →
          FitsHeader allowed (headerText file start len)) := by
  constructor
  · intro all
    exact (all start len at_).2 whole rows cols passes
  · rintro here start' len' at'
    obtain ⟨rfl, rfl⟩ := at_.unique at'
    refine ⟨fits, fun _ rows' cols' passes' => ?_⟩
    obtain ⟨rfl, rfl⟩ := Prod.mk.inj (Except.ok.inj (passes.2.2.symm.trans passes'.2.2))
    exact here

/-- A header that passes the checks is honoured exactly if the file fits. -/
theorem honours_elements_iff (takes : TakesDims allowed extents) {start len : ℕ}
    (at_ : HeaderAt stale file start len) {rows cols : UInt32}
    (passes : Passes descrs extents (headerText file start len) rows cols) :
    Honours stale file
        ((readElements room width decode path file (start + len) (rows.toNat * cols.toNat)).map
          fun read => read.map fun data => (⟨data, rows, cols⟩ : NpyArray β)) (ShapedAs allowed) ↔
      (width * (rows.toNat * cols.toNat) ≤ room ∧ width * (rows.toNat * cols.toNat) < 2 ^ 63) ∧
        (start + len + width * (rows.toNat * cols.toNat) ≤ file.length →
          FitsHeader allowed (headerText file start len)) := by
  have shaped {data : List β} (size : data.length = rows.toNat * cols.toNat) :=
    shapedAs_iff takes (headerText file start len) ⟨data, rows, cols⟩ passes.2.2 size
  cases read : readElements room width decode path file (start + len)
      (rows.toNat * cols.toNat) with
  | none =>
      have large := readElements_none_iff.1 read
      constructor
      · rintro ⟨outcome, loaded, -⟩
        cases loaded
      · rintro ⟨small, -⟩
        exact absurd small large
  | some outcome =>
      have small : width * (rows.toNat * cols.toNat) ≤ room ∧
          width * (rows.toNat * cols.toNat) < 2 ^ 63 := by
        by_contra large
        rw [readElements_none_iff.2 large] at read
        cases read
      have enough := readElements_ok_iff path file decode (start + len) small
      rw [read] at enough
      rw [and_iff_right small]
      cases outcome with
      | error failure =>
          constructor
          · rintro - there
            obtain ⟨data, ok⟩ := enough.2 there
            cases ok
          · intro _
            refine ⟨_, rfl, fun arr ok => ?_⟩
            cases ok
      | ok data =>
          have there := enough.1 ⟨data, rfl⟩
          rw [← shaped (readElements_length read)]
          constructor
          · rintro ⟨outcome, loaded, each⟩ -
            obtain ⟨start', len', dims, at', tuple, good⟩ :=
              each ⟨data, rows, cols⟩ (Option.some.inj loaded).symm
            obtain ⟨rfl, rfl⟩ := at_.unique at'
            exact ⟨dims, tuple, good⟩
          · intro fitting
            refine ⟨_, rfl, fun arr ok => ?_⟩
            cases ok
            obtain ⟨dims, tuple, good⟩ := fitting there
            exact ⟨start, len, dims, at_, tuple, good⟩

/-- An error honours every header. -/
theorem honours_error {A : Type} {Shaped : A → List ℤ → Prop} {loaded : Option (Result A)}
    {failure : Failure} (refused : loaded = some (.error failure)) :
    Honours stale file loaded Shaped := by
  refine ⟨_, refused, fun arr ok => ?_⟩
  cases ok

/-- **A loader honours a header** exactly if the file fits. -/
theorem loadArray_honours_iff (takes : TakesDims allowed extents) :
    Honours stale file (loadArray room stale path (some file) expected descrs extents width decode)
        (ShapedAs allowed) ↔
      HeaderFits room stale file descrs extents width allowed := by
  have refused {failure : Failure}
      (read : readHeader room stale path file = some (.error failure)) :
      loadArray room stale path (some file) expected descrs extents width decode =
        some (.error failure) := by
    rw [loadArray, parseNpyHeader, read]
    rfl
  rcases readHeader_cases room stale path file with
    ⟨start, len, at_, text⟩ | ⟨nowhere, failure, read⟩
  · have there := at_.2.1
    rw [readHeaderText, if_neg (by omega)] at text
    by_cases fits : len ≤ room
    · rw [if_neg (by omega)] at text
      by_cases whole : start + len ≤ file.length
      · rw [if_neg (by omega)] at text
        rcases loadArray_text width descrs extents decode expected text with
          ⟨rows, cols, passes, loaded⟩ | ⟨never, failure, loaded⟩
        · rw [loaded, honours_elements_iff takes at_ passes, headerFits_iff at_ passes fits whole]
        · refine ⟨fun _ start' len' at' => ?_, fun _ => honours_error loaded⟩
          obtain ⟨rfl, rfl⟩ := at_.unique at'
          exact ⟨fits, fun _ rows cols passes => absurd passes (never rows cols)⟩
      · rw [if_pos (by omega)] at text
        refine ⟨fun _ start' len' at' => ?_, fun _ => honours_error (refused text)⟩
        obtain ⟨rfl, rfl⟩ := at_.unique at'
        exact ⟨fits, fun whole' => absurd whole' whole⟩
    · rw [if_pos (by omega)] at text
      constructor
      · rintro ⟨outcome, loaded, -⟩
        rw [loadArray, parseNpyHeader, text] at loaded
        cases loaded
      · intro all
        exact absurd (all start len at_).1 fits
  · exact ⟨fun _ start len at_ => absurd at_ (nowhere start len), fun _ =>
      honours_error (refused read)⟩

end Load

end VecFetch.Io
