/-
# Theory.Fields -- rows of little-endian fields

A row is written field by field, each with its own width.  `At` says that a row lies at a place,
and a row at a place is taken apart field by field: the first field is read back (`At.value`) and
the others lie behind it (`At.tail`).
-/
import VecFetch.Theory.Bytes

namespace VecFetch.Theory

set_option autoImplicit false

/-- A row of fields, each a width in bytes and a value. -/
abbrev Fields := List (ℕ × ℕ)

namespace Fields

def bytes (fields : Fields) : List UInt8 := fields.flatMap fun f => leBytes f.1 f.2

def size (fields : Fields) : ℕ := (fields.map Prod.fst).sum

@[simp] theorem bytes_nil : bytes [] = [] := rfl

@[simp] theorem bytes_cons (f : ℕ × ℕ) (fields : Fields) :
    bytes (f :: fields) = leBytes f.1 f.2 ++ bytes fields := List.flatMap_cons

@[simp] theorem bytes_append (front back : Fields) :
    bytes (front ++ back) = bytes front ++ bytes back := List.flatMap_append

@[simp] theorem size_nil : size [] = 0 := rfl

@[simp] theorem size_cons (f : ℕ × ℕ) (fields : Fields) : size (f :: fields) = f.1 + size fields :=
  List.sum_cons

@[simp] theorem size_append (front back : Fields) :
    size (front ++ back) = size front + size back := by
  rw [size, List.map_append, List.sum_append, size, size]

theorem bytes_length (fields : Fields) : (bytes fields).length = size fields := by
  induction fields with
  | nil => rfl
  | cons f fields ih => rw [bytes_cons, List.length_append, leBytes_length, ih, size_cons]

/-- Fields of one width. -/
theorem size_map {α : Type} (width : ℕ) (field : α → ℕ) (l : List α) :
    size (l.map fun a => (width, field a)) = l.length * width := by
  induction l with
  | nil => simp
  | cons a l ih => rw [List.map_cons, size_cons, ih, List.length_cons, Nat.succ_mul, Nat.add_comm]

/-! ## Rows in place -/

/-- The bytes hold a row at a place. -/
def At (held : List UInt8) (start : ℕ) (fields : Fields) : Prop :=
  slice held start fields.size = fields.bytes

section At

variable {held : List UInt8} {start width n : ℕ} {front back rest : Fields}

theorem At.append (here : At held start (front ++ back)) :
    At held start front ∧ At held (start + front.size) back := by
  rw [At, size_append, bytes_append, ← bytes_length, ← bytes_length] at here
  have parts := slice_append_inj here
  rwa [bytes_length, bytes_length] at parts

theorem At.tail (here : At held start ((width, n) :: rest)) : At held (start + width) rest := by
  have whole : At held start ([(width, n)] ++ rest) := here
  exact whole.append.2

/-- **A field is read back from its place.** -/
theorem At.value (here : At held start ((width, n) :: rest)) (small : n < 2 ^ (8 * width)) :
    leNat (fun j => held.getD (start + j) 0) width = n := by
  have whole : At held start ([(width, n)] ++ rest) := here
  have first : slice held start width = leBytes width n := by simpa [At] using whole.append.1
  refine leNat_leBytes small fun j below => ?_
  rw [← first, slice, List.getD_eq_getElem?_getD, List.getD_eq_getElem?_getD,
    List.getElem?_take_of_lt below, List.getElem?_drop]

/-- A field of a row whose fields have one width. -/
theorem At.nth {α : Type} {field : α → ℕ} {l : List α} {i : ℕ} {a : α}
    (here : At held start (l.map fun a => (width, field a))) (found : l[i]? = some a)
    (small : field a < 2 ^ (8 * width)) :
    leNat (fun j => held.getD (start + i * width + j) 0) width = field a := by
  induction l generalizing start i with
  | nil => cases found
  | cons b l ih =>
      rw [List.map_cons] at here
      cases i with
      | zero =>
          obtain rfl := Option.some.inj found
          rw [Nat.zero_mul, Nat.add_zero]
          exact here.value small
      | succ i =>
          rw [Nat.succ_mul, Nat.add_comm (i * width), ← Nat.add_assoc]
          exact ih here.tail found

end At

end Fields

end VecFetch.Theory
