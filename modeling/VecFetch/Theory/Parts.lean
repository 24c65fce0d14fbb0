/-
# Theory.Parts -- parts of a buffer

`Has` says that a buffer has a byte string at a place.  The parts of a string that is put
together have their own places: one behind the other (`has_append`), or at multiples of a width
(`Has.row`).
-/
import VecFetch.Theory.Bits
import VecFetch.Theory.Bytes
import VecFetch.Theory.Emit

namespace VecFetch.Theory

set_option autoImplicit false

namespace Buffer

/-- The buffer has these bytes at a place. -/
structure Has (b : Buffer) (off : ℕ) (part : List UInt8) : Prop where
  inside : off + part.length ≤ b.size
  bytes : ∀ j, j < part.length → b.byte (off + j) = part.getD j 0

section Has

variable {b : Buffer} {off : ℕ} {part front back : List UInt8}

theorem has_append :
    b.Has off (front ++ back) ↔ b.Has off front ∧ b.Has (off + front.length) back := by
  constructor
  · rintro ⟨inside, bytes⟩
    rw [List.length_append] at inside bytes
    refine ⟨⟨by omega, fun j below => ?_⟩, ⟨by omega, fun j below => ?_⟩⟩
    · rw [bytes j (by omega), List.getD_append _ _ _ _ below]
    · rw [Nat.add_assoc, bytes (front.length + j) (by omega),
        List.getD_append_right _ _ _ _ (Nat.le_add_right _ _), Nat.add_sub_cancel_left]
  · rintro ⟨⟨-, first⟩, ⟨inside, second⟩⟩
    refine ⟨by rw [List.length_append]; omega, fun j below => ?_⟩
    rw [List.length_append] at below
    by_cases early : j < front.length
    · rw [first j early, List.getD_append _ _ _ _ early]
    · have late := second (j - front.length) (by omega)
      rw [Nat.add_assoc, Nat.add_sub_cancel' (Nat.not_lt.1 early)] at late
      rw [late, List.getD_append_right _ _ _ _ (Nat.not_lt.1 early)]

theorem Has.left (has : b.Has off (front ++ back)) : b.Has off front := (has_append.1 has).1

theorem Has.right (has : b.Has off (front ++ back)) : b.Has (off + front.length) back :=
  (has_append.1 has).2

/-- The indices below a bound, around one of them. -/
theorem range_around {n i : ℕ} (below : i < n) :
    List.range n = List.range i ++ (i :: (List.range (n - (i + 1))).map (i + 1 + ·)) := by
  have total : n = i + (1 + (n - (i + 1))) := by omega
  conv_lhs => rw [total]
  rw [List.range_add, List.range_add, List.map_append, List.map_map]
  simp [Function.comp_def, Nat.add_assoc]

/-- A part of a row. -/
theorem Has.nth {part : ℕ → List UInt8} {n i : ℕ} (has : b.Has off ((List.range n).flatMap part))
    (below : i < n) : b.Has (off + ((List.range i).flatMap part).length) (part i) := by
  rw [range_around below, List.flatMap_append, List.flatMap_cons] at has
  exact has.right.left

/-- A part of a row, behind parts of one width. -/
theorem Has.row {part : ℕ → List UInt8} {n width i : ℕ}
    (has : b.Has off ((List.range n).flatMap part)) (below : i < n)
    (widths : ∀ k, k < i → (part k).length = width) : b.Has (off + i * width) (part i) := by
  have here := has.nth below
  rwa [flatMap_range_length widths] at here

/-- A part is loaded. -/
theorem Has.load (has : b.Has off part) : b.load off part.length = some fun j => b.byte (off + j) :=
  load_inside has.inside

/-- A word of the part. -/
theorem Has.word {width n : ℕ} (has : b.Has off (leBytes width n)) (small : n < 2 ^ (8 * width)) :
    leNat (fun j => b.byte (off + j)) width = n := by
  refine leNat_leBytes small fun j below => ?_
  exact has.bytes j (by rw [leBytes_length]; exact below)

/-- A part of what a buffer has, cut out with what is behind it. -/
theorem Has.shift {start : ℕ} (has : b.Has (start + off) part) :
    (⟨b.size - start, fun j => b.byte (start + j)⟩ : Buffer).Has off part := by
  obtain ⟨inside, bytes⟩ := has
  refine ⟨by show _ ≤ b.size - start; omega, fun j below => ?_⟩
  rw [← bytes j below, Nat.add_assoc]

end Has

end Buffer

end VecFetch.Theory
