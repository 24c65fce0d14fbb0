/-
# Theory.Bytes -- little-endian words and slices of byte strings

A word is written as its bytes and read back from them (`leValue_leBytes`).  `slice` is
the run of elements a reader takes from an offset; a slice of an append that starts at a
border is the appended part.
-/
import VecFetch.Theory.Bits
import Mathlib.Data.List.Basic

namespace VecFetch.Theory

set_option autoImplicit false

/-! ## Words -/

/-- The number whose bytes these are, lowest first. -/
def leValue (bytes : List UInt8) : ℕ := leNat (fun i => bytes.getD i 0) bytes.length

theorem leValue_leBytes {width n : ℕ} (bound : n < 2 ^ (8 * width)) :
    leValue (leBytes width n) = n := by
  rw [leValue, leBytes_length]
  exact leNat_leBytes bound fun i _ => rfl

/-! ## Slices -/

section Slices

variable {α : Type}

/-- The elements from `off` on, at most `len` of them. -/
def slice (l : List α) (off len : ℕ) : List α := (l.drop off).take len

theorem slice_length {l : List α} {off len : ℕ} (inside : off + len ≤ l.length) :
    (slice l off len).length = len := by
  rw [slice, List.length_take, List.length_drop]
  omega

theorem slice_length_le (l : List α) (off len : ℕ) : (slice l off len).length ≤ len :=
  List.length_take_le _ _

@[simp] theorem slice_zero_len (l : List α) (off : ℕ) : slice l off 0 = [] := List.take_zero

/-- A slice inside the front does not see the back. -/
theorem slice_append_left {front : List α} {off len : ℕ} (inside : off + len ≤ front.length)
    (back : List α) : slice (front ++ back) off len = slice front off len := by
  rw [slice, slice, List.drop_append_of_le_length (by omega),
    List.take_append_of_le_length (by rw [List.length_drop]; omega)]

/-- The part appended at the border `off`. -/
theorem slice_append_right {front part : List α} {off len : ℕ} (border : front.length = off)
    (whole : part.length = len) (back : List α) :
    slice (front ++ (part ++ back)) off len = part := by
  subst border whole
  rw [slice, List.drop_left, List.take_left]

/-- A slice behind the front. -/
theorem slice_append_right_add {front : List α} {k : ℕ} (border : front.length = k)
    (back : List α) (off len : ℕ) :
    slice (front ++ back) (k + off) len = slice back off len := by
  subst border
  rw [slice, slice, List.drop_append, List.drop_of_length_le (by omega), List.nil_append,
    Nat.add_sub_cancel_left]

/-- A slice taken in two parts. -/
theorem slice_add (l : List α) (off m n : ℕ) :
    slice l off (m + n) = slice l off m ++ slice l (off + m) n := by
  rw [slice, slice, slice, List.take_add, List.drop_drop]

theorem slice_drop (l : List α) (skip off len : ℕ) :
    slice (l.drop skip) off len = slice l (skip + off) len := by
  rw [slice, slice, List.drop_drop]

/-- A slice that is an append is the one part and then the other. -/
theorem slice_append_inj {l a b : List α} {off : ℕ}
    (here : slice l off (a.length + b.length) = a ++ b) :
    slice l off a.length = a ∧ slice l (off + a.length) b.length = b := by
  rw [slice_add] at here
  have lengths := congrArg List.length here
  have first := slice_length_le l off a.length
  have second := slice_length_le l (off + a.length) b.length
  rw [List.length_append, List.length_append] at lengths
  exact List.append_inj here (by omega)

/-- A slice inside a front part. -/
theorem slice_take {l : List α} {k off len : ℕ} (inside : off + len ≤ k) :
    slice (l.take k) off len = slice l off len := by
  rw [slice, slice, List.drop_take, List.take_take, Nat.min_eq_left (by omega)]

/-- A slice of a slice. -/
theorem slice_slice {l : List α} {off len off' len' : ℕ} (inside : off' + len' ≤ len) :
    slice (slice l off len) off' len' = slice l (off + off') len' := by
  rw [slice, slice, slice, List.drop_take, List.drop_drop, List.take_take,
    Nat.min_eq_left (by omega)]

/-- A part of what lies at a place. -/
theorem slice_part {l front part back : List α} {start k : ℕ}
    (here : slice l start (front ++ (part ++ back)).length = front ++ (part ++ back))
    (border : front.length = k) : slice l (start + k) part.length = part := by
  subst border
  have inside : front.length + part.length ≤ (front ++ (part ++ back)).length := by
    rw [List.length_append, List.length_append]
    omega
  rw [← slice_slice inside, here]
  exact slice_append_right rfl rfl back

/-- The entry of a table whose entries all have one width. -/
theorem slice_flatMap {β : Type} {f : β → List α} {width : ℕ} (widths : ∀ b, (f b).length = width)
    {table : List β} {i : ℕ} {b : β} (entry : table[i]? = some b) (back : List α) :
    slice (table.flatMap f ++ back) (i * width) width = f b := by
  induction table generalizing i with
  | nil => cases entry
  | cons first table ih =>
      rw [List.flatMap_cons, List.append_assoc]
      cases i with
      | zero =>
          obtain rfl := Option.some.inj entry
          have here := @slice_append_right _ [] (f first) _ _ rfl (widths first)
            (table.flatMap f ++ back)
          rw [List.nil_append, List.length_nil] at here
          rw [Nat.zero_mul, here]
      | succ i =>
          rw [Nat.succ_mul, Nat.add_comm, slice_append_right_add (widths first)]
          exact ih entry

end Slices

/-! ## Words in place -/

/-- The 32-bit word at an offset. -/
def word32 (bytes : List UInt8) (off : ℕ) : ℕ := leValue (slice bytes off 4)

theorem word32_lt (bytes : List UInt8) (off : ℕ) : word32 bytes off < 2 ^ 32 := by
  refine Nat.lt_of_lt_of_le (leNat_lt _ _) (Nat.pow_le_pow_right (by decide) ?_)
  have short := slice_length_le bytes off 4
  omega

theorem word32_of_slice {bytes : List UInt8} {off n : ℕ} (here : slice bytes off 4 = leBytes 4 n)
    (small : n < 2 ^ 32) : word32 bytes off = n := by
  rw [word32, here, leValue_leBytes small]

/-- A word behind the front. -/
theorem word32_append (front back : List UInt8) {off n : ℕ} (border : front.length = off)
    (small : n < 2 ^ 32) :
    word32 (front ++ (leBytes 4 n ++ back)) off = n :=
  word32_of_slice (slice_append_right border (leBytes_length 4 n) back) small

theorem word32_append_right {front : List UInt8} {k : ℕ} (border : front.length = k)
    (back : List UInt8) (off : ℕ) : word32 (front ++ back) (k + off) = word32 back off := by
  rw [word32, word32, slice_append_right_add border]

/-- A word of a row of words. -/
theorem word32_words {words : List ℕ} {i n : ℕ} (found : words[i]? = some n) (small : n < 2 ^ 32) :
    word32 (words.flatMap (leBytes 4)) (i * 4) = n := by
  have here := slice_flatMap (leBytes_length 4) found []
  rw [List.append_nil] at here
  exact word32_of_slice here small

/-- A word of a part. -/
theorem word32_part {bytes part : List UInt8} {start off : ℕ}
    (here : slice bytes start part.length = part) (inside : off + 4 ≤ part.length) :
    word32 bytes (start + off) = word32 part off := by
  rw [word32, word32, ← slice_slice inside, here]

end VecFetch.Theory
