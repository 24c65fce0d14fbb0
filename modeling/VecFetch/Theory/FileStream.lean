/-
# Theory.FileStream -- a file with a put position

Writes go over the bytes from the put position on.  A stream that cannot take all bytes of
a write takes what it can and fails, and a failed stream takes nothing more: writes and
seeks leave it as it is.  Bytes before the put position stay (`write_before`).
-/
import VecFetch.Theory.Bytes

namespace VecFetch.Theory

set_option autoImplicit false

/-- `room` is how many more bytes the device takes, if it is bounded. -/
structure FileStream where
  bytes : List UInt8 := []
  pos : ℕ := 0
  good : Bool := true
  room : Option ℕ := none

/-- `data` over the bytes from `pos` on. -/
def overwrite (bytes : List UInt8) (pos : ℕ) (data : List UInt8) : List UInt8 :=
  bytes.take pos ++ data ++ bytes.drop (pos + data.length)

theorem overwrite_length {bytes data : List UInt8} {pos : ℕ} (inside : pos ≤ bytes.length) :
    (overwrite bytes pos data).length = max bytes.length (pos + data.length) := by
  rw [overwrite, List.length_append, List.length_append, List.length_take, List.length_drop]
  omega

theorem overwrite_before {bytes data : List UInt8} {pos off len : ℕ}
    (inside : pos ≤ bytes.length) (before : off + len ≤ pos) :
    slice (overwrite bytes pos data) off len = slice bytes off len := by
  have front : off + len ≤ (bytes.take pos).length := by
    rw [List.length_take]
    omega
  rw [overwrite, List.append_assoc, slice_append_left front, slice_take before]

theorem overwrite_after {bytes data : List UInt8} {pos off len : ℕ}
    (inside : pos ≤ bytes.length) (after : pos + data.length ≤ off) :
    slice (overwrite bytes pos data) off len = slice bytes off len := by
  have front : (bytes.take pos ++ data).length = pos + data.length := by
    rw [List.length_append, List.length_take]
    omega
  have split : off = (pos + data.length) + (off - (pos + data.length)) := by omega
  rw [overwrite, split, slice_append_right_add front, slice_drop]

theorem overwrite_here {bytes data : List UInt8} {pos : ℕ} (inside : pos ≤ bytes.length) :
    slice (overwrite bytes pos data) pos data.length = data := by
  rw [overwrite, List.append_assoc]
  exact slice_append_right (by rw [List.length_take]; omega) rfl _

namespace FileStream

def write (f : FileStream) (data : List UInt8) : FileStream :=
  if f.good then
    let n := match f.room with
      | none => data.length
      | some room => min room data.length
    { bytes := overwrite f.bytes f.pos (data.take n)
      pos := f.pos + n
      good := decide (n = data.length)
      room := f.room.map (· - n) }
  else f

def seek (f : FileStream) (pos : ℕ) : FileStream := if f.good then { f with pos := pos } else f

theorem write_of_bad {f : FileStream} (bad : f.good = false) (data : List UInt8) :
    f.write data = f := by
  rw [write, bad]
  rfl

/-- A write the device has room for. -/
theorem write_of_room {f : FileStream} {data : List UInt8} (good : f.good = true)
    (fits : ∀ room, f.room = some room → data.length ≤ room) :
    f.write data =
      { bytes := overwrite f.bytes f.pos data, pos := f.pos + data.length, good := true,
        room := f.room.map (· - data.length) } := by
  rw [write, if_pos good]
  cases bound : f.room with
  | none => simp
  | some room =>
      have all : min room data.length = data.length := Nat.min_eq_right (fits room bound)
      simp [all]

/-- A write the device has no room for. -/
theorem write_of_full {f : FileStream} {data : List UInt8} {room : ℕ} (bound : f.room = some room)
    (full : room < data.length) : (f.write data).good = false := by
  rw [write]
  split
  · rw [bound]
    simp only [decide_eq_false_iff_not]
    omega
  · simpa using ‹¬ f.good = true›

/-- The bytes a write adds reach from the old put position to the new. -/
theorem write_pos (f : FileStream) (data : List UInt8) :
    ∃ taken, (f.write data).bytes = overwrite f.bytes f.pos taken ∧
      (f.write data).pos = f.pos + taken.length ∧ taken.length ≤ data.length ∨
      f.write data = f := by
  rw [write]
  split
  · refine ⟨data.take (match f.room with
      | none => data.length
      | some room => min room data.length), .inl ⟨rfl, ?_, ?_⟩⟩
    · rw [List.length_take]
      cases f.room with
      | none => simp
      | some room => simp
    · rw [List.length_take]
      omega
  · exact ⟨[], .inr rfl⟩

/-! ## Appending -/

/-- The put position is behind the last byte. -/
def AtEnd (f : FileStream) : Prop := f.pos = f.bytes.length

/-- Writes one after the other. -/
def writeAll (f : FileStream) (parts : List (List UInt8)) : FileStream := parts.foldl write f

theorem good_of_write {f : FileStream} {data : List UInt8} (good : (f.write data).good = true) :
    f.good = true := by
  by_contra bad
  rw [write_of_bad (by simpa using bad)] at good
  exact bad good

theorem write_good_iff {f : FileStream} {data : List UInt8} :
    (f.write data).good = true ↔
      f.good = true ∧ ∀ room, f.room = some room → data.length ≤ room := by
  constructor
  · intro good
    refine ⟨good_of_write good, fun room bound => ?_⟩
    by_contra full
    rw [write_of_full bound (by omega)] at good
    cases good
  · rintro ⟨good, fits⟩
    rw [write_of_room good fits]

theorem write_good {f : FileStream} {data : List UInt8} (good : (f.write data).good = true) :
    (f.write data).bytes = overwrite f.bytes f.pos data ∧
      (f.write data).pos = f.pos + data.length := by
  obtain ⟨before, fits⟩ := write_good_iff.1 good
  rw [write_of_room before fits]
  exact ⟨rfl, rfl⟩

theorem write_front_good {f : FileStream} {front back : List UInt8}
    (good : (f.write (front ++ back)).good = true) : (f.write front).good = true := by
  obtain ⟨before, fits⟩ := write_good_iff.1 good
  refine write_good_iff.2 ⟨before, fun room bound => ?_⟩
  have whole := fits room bound
  rw [List.length_append] at whole
  omega

theorem write_nil (f : FileStream) : f.write [] = f := by
  cases good : f.good with
  | false => exact write_of_bad good []
  | true =>
      rw [write_of_room good (by simp)]
      cases f with
      | mk bytes pos held room => cases room <;> simp_all [overwrite]

theorem overwrite_end (bytes data : List UInt8) :
    overwrite bytes bytes.length data = bytes ++ data := by
  simp [overwrite]

theorem AtEnd.write {f : FileStream} {data : List UInt8} (atEnd : f.AtEnd)
    (good : (f.write data).good = true) :
    (f.write data).bytes = f.bytes ++ data ∧ (f.write data).AtEnd := by
  obtain ⟨bytes, pos⟩ := write_good good
  rw [atEnd, overwrite_end] at bytes
  refine ⟨bytes, ?_⟩
  rw [AtEnd, bytes, pos, atEnd, List.length_append]

theorem good_of_writeAll {f : FileStream} {parts : List (List UInt8)}
    (good : (f.writeAll parts).good = true) : f.good = true := by
  induction parts generalizing f with
  | nil => exact good
  | cons part parts ih => exact good_of_write (ih good)

theorem AtEnd.writeAll {f : FileStream} {parts : List (List UInt8)} (atEnd : f.AtEnd)
    (good : (f.writeAll parts).good = true) :
    (f.writeAll parts).bytes = f.bytes ++ parts.flatten ∧ (f.writeAll parts).AtEnd := by
  induction parts generalizing f with
  | nil => simpa [FileStream.writeAll] using atEnd
  | cons part parts ih =>
      obtain ⟨first, atEnd'⟩ := atEnd.write (good_of_writeAll good)
      obtain ⟨rest, last⟩ := ih atEnd' good
      refine ⟨?_, last⟩
      rw [List.flatten_cons, ← List.append_assoc, ← first]
      exact rest

/-- A write at a place the stream is moved to. -/
theorem seek_write_good {f : FileStream} {pos : ℕ} {data : List UInt8}
    (good : ((f.seek pos).write data).good = true) :
    f.good = true ∧ ((f.seek pos).write data).bytes = overwrite f.bytes pos data ∧
      ((f.seek pos).write data).pos = pos + data.length := by
  have before : f.good = true := by
    have moved := good_of_write good
    rw [seek] at moved
    split at moved
    · exact moved
    · exact moved
  obtain ⟨bytes, last⟩ := write_good good
  rw [seek, if_pos before] at bytes last ⊢
  exact ⟨before, bytes, last⟩

/-- A write behind the last byte keeps all bytes, whether it fails or not. -/
theorem seek_end_write (f : FileStream) (data : List UInt8) :
    ∃ taken, ((f.seek f.bytes.length).write data).bytes = f.bytes ++ taken := by
  cases good : f.good with
  | false =>
      have still : f.seek f.bytes.length = f := by simp [seek, good]
      rw [still, write_of_bad good]
      exact ⟨[], (List.append_nil _).symm⟩
  | true =>
      have moved : f.seek f.bytes.length = { f with pos := f.bytes.length } := by simp [seek, good]
      rw [moved]
      obtain ⟨taken, ⟨bytes, -, -⟩ | same⟩ :=
        write_pos { f with pos := f.bytes.length } data
      · exact ⟨taken, bytes.trans (overwrite_end _ _)⟩
      · exact ⟨[], by rw [same, List.append_nil]⟩

/-! ## Streams that take everything -/

theorem write_unbounded {f : FileStream} (good : f.good = true) (unbounded : f.room = none)
    (data : List UInt8) :
    (f.write data).good = true ∧ (f.write data).room = none := by
  rw [write_of_room good (by simp [unbounded])]
  simp [unbounded]

theorem writeAll_unbounded {f : FileStream} (good : f.good = true) (unbounded : f.room = none)
    (parts : List (List UInt8)) :
    (f.writeAll parts).good = true ∧ (f.writeAll parts).room = none := by
  induction parts generalizing f with
  | nil => exact ⟨good, unbounded⟩
  | cons part parts ih =>
      obtain ⟨good, unbounded⟩ := write_unbounded good unbounded part
      exact ih good unbounded

end FileStream

end VecFetch.Theory
