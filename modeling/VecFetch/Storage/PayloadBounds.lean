/-
# Storage.PayloadBounds -- which payloads are parsed inside their buffer

`ParsePayload` compares in `size_t` everywhere but behind a length prefix, where the sum
of the offset and the length is a `uint32_t`.  A sum from `2 ^ 32` on wraps below the
offset and passes, so a payload is parsed inside its buffer exactly if no prefix that is
reached leads that far (`parsePayload_inside_iff`).
-/
import VecFetch.Storage.DataFileParse

namespace VecFetch.Storage

open VecFetch.Theory

set_option autoImplicit false

namespace DataFileReader

/-- Every length prefix the parser reaches ends a value below `2 ^ 32`. -/
def PrefixesFit (buf : List UInt8) : List ColumnSchema → ℕ → Prop
  | [], _ => True
  | schema :: schemas, offset =>
      if dTypeIsFixedWidth schema.dtype then
        offset + dTypeSize schema.dtype ≤ buf.length →
          PrefixesFit buf schemas (offset + dTypeSize schema.dtype)
      else
        offset + 4 ≤ buf.length →
          offset + 4 + word32 buf offset < 2 ^ 32 ∧
            (offset + 4 + word32 buf offset ≤ buf.length →
              PrefixesFit buf schemas (offset + 4 + word32 buf offset))

/-- A status, or the datums of all columns; nothing is read outside the buffer. -/
structure ParsesInside (r : DataFileReader) (buf : List UInt8) (bufLen bufOffset : UInt32) :
    Prop where
  inside : (r.parsePayload buf bufLen bufOffset).2 ≠ .error .outOfBounds
  parsed : (r.parsePayload buf bufLen bufOffset).2 = .ok () →
    MatchesSchemas (r.parsePayload buf bufLen bufOffset).1 r.payloadSchemas

section Columns

variable {buf : List UInt8} {bufLen : UInt32}

/-- Whatever is parsed has the types of the columns. -/
theorem parseColumns_matches {schemas done : List ColumnSchema} {offset : UInt32}
    {out : List Datum} (before : MatchesSchemas out done)
    (ok : (parseColumns buf bufLen schemas offset out).2 = .ok ()) :
    MatchesSchemas (parseColumns buf bufLen schemas offset out).1 (done ++ schemas) := by
  induction schemas generalizing done offset out with
  | nil => simpa [parseColumns] using before
  | cons schema schemas ih =>
      have next (d : Datum) (dtype : d.dtype = schema.dtype) :
          MatchesSchemas (out ++ [d]) (done ++ [schema]) :=
        List.rel_append before (.cons dtype .nil)
      rw [List.append_cons]
      rw [parseColumns] at ok ⊢
      by_cases isFixed : dTypeIsFixedWidth schema.dtype = true
      · rw [if_pos isFixed] at ok ⊢
        dsimp only at ok ⊢
        by_cases short : bufLen.toNat < offset.toNat + dTypeSize schema.dtype
        · rw [if_pos short] at ok
          cases ok
        · by_cases outside : buf.length < offset.toNat + dTypeSize schema.dtype
          · rw [if_neg short, if_pos outside] at ok
            cases ok
          · rw [if_neg short, if_neg outside] at ok ⊢
            exact ih (next _ rfl) ok
      · rw [if_neg isFixed] at ok ⊢
        by_cases short : bufLen.toNat < offset.toNat + 4
        · rw [if_pos short] at ok
          cases ok
        · by_cases outside : buf.length < offset.toNat + 4
          · rw [if_neg short, if_pos outside] at ok
            cases ok
          · rw [if_neg short, if_neg outside] at ok ⊢
            dsimp only at ok ⊢
            by_cases past : bufLen < offset + 4 + UInt32.ofNat (leValue (slice buf offset.toNat 4))
            · rw [if_pos past] at ok
              cases ok
            · by_cases beyond : buf.length < (offset + 4).toNat +
                  (UInt32.ofNat (leValue (slice buf offset.toNat 4))).toNat
              · rw [if_neg past, if_pos beyond] at ok
                cases ok
              · rw [if_neg past, if_neg beyond] at ok ⊢
                exact ih (next _ rfl) ok

/-- The loop stays inside exactly if the prefixes from here on fit. -/
theorem parseColumns_inside_iff (whole : buf.length = bufLen.toNat) (schemas : List ColumnSchema)
    (offset : UInt32) (out : List Datum) :
    (parseColumns buf bufLen schemas offset out).2 ≠ .error .outOfBounds ↔
      PrefixesFit buf schemas offset.toNat := by
  have bound := bufLen.toNat_lt
  induction schemas generalizing offset out with
  | nil => simp [parseColumns, PrefixesFit]
  | cons schema schemas ih =>
      rw [parseColumns, PrefixesFit]
      by_cases isFixed : dTypeIsFixedWidth schema.dtype = true
      · rw [if_pos isFixed, if_pos isFixed]
        dsimp only
        by_cases short : bufLen.toNat < offset.toNat + dTypeSize schema.dtype
        · rw [if_pos short]
          exact iff_of_true (by simp [Status.ioError]) fun inside => by omega
        · have small := dTypeSize_le schema.dtype
          have next : (offset + UInt32.ofNat (dTypeSize schema.dtype)).toNat =
              offset.toNat + dTypeSize schema.dtype := by
            rw [UInt32.toNat_add, UInt32.toNat_ofNat', Nat.mod_eq_of_lt (by omega),
              Nat.mod_eq_of_lt (by omega)]
          rw [if_neg short, if_neg (whole ▸ short)]
          refine (ih _ _).trans ?_
          rw [next]
          exact ⟨fun rest _ => rest, fun rest => rest (by omega)⟩
      · rw [if_neg isFixed, if_neg isFixed]
        by_cases short : bufLen.toNat < offset.toNat + 4
        · rw [if_pos short]
          exact iff_of_true (by simp [Status.ioError]) fun inside => by omega
        · have prefixLt := word32_lt buf offset.toNat
          have len : (UInt32.ofNat (leValue (slice buf offset.toNat 4))).toNat =
              word32 buf offset.toNat := by
            rw [UInt32.toNat_ofNat', ← word32, Nat.mod_eq_of_lt prefixLt]
          have behind : (offset + 4).toNat = offset.toNat + 4 := by
            rw [UInt32.toNat_add, show (4 : UInt32).toNat = 4 from rfl, Nat.mod_eq_of_lt (by omega)]
          rw [if_neg short, if_neg (whole ▸ short)]
          dsimp only
          by_cases fits : offset.toNat + 4 + word32 buf offset.toNat < 2 ^ 32
          · have stop : (offset + 4 + UInt32.ofNat (leValue (slice buf offset.toNat 4))).toNat =
                offset.toNat + 4 + word32 buf offset.toNat := by
              rw [UInt32.toNat_add, len, behind, Nat.mod_eq_of_lt fits]
            by_cases past : bufLen.toNat < offset.toNat + 4 + word32 buf offset.toNat
            · rw [if_pos (by rw [UInt32.lt_iff_toNat_lt, stop]; exact past)]
              exact iff_of_true (by simp [Status.ioError]) fun _ => ⟨fits, fun inside => by omega⟩
            · rw [if_neg (by rw [UInt32.lt_iff_toNat_lt, stop]; exact past),
                if_neg (by rw [behind, len, whole]; exact past)]
              refine (ih _ _).trans ?_
              rw [stop]
              exact ⟨fun rest _ => ⟨fits, fun _ => rest⟩, fun rest => (rest (by omega)).2 (by omega)⟩
          · -- the sum wraps below the offset, and the check passes
            have stop : (offset + 4 + UInt32.ofNat (leValue (slice buf offset.toNat 4))).toNat =
                offset.toNat + 4 + word32 buf offset.toNat - 2 ^ 32 := by
              rw [UInt32.toNat_add, len, behind]
              omega
            rw [if_neg (by rw [UInt32.lt_iff_toNat_lt, stop]; omega),
              if_pos (by rw [behind, len, whole]; omega)]
            exact iff_of_false (by simp) fun rest => fits (rest (by omega)).1

end Columns

/-- **A payload is parsed inside its buffer** exactly if no length prefix that the parser
reaches leads to `2 ^ 32` or beyond. -/
theorem parsePayload_inside_iff (r : DataFileReader) {buf : List UInt8} {bufLen : UInt32}
    (whole : buf.length = bufLen.toNat) (bufOffset : UInt32) :
    r.ParsesInside buf bufLen bufOffset ↔
      PrefixesFit buf r.payloadSchemas bufOffset.toNat := by
  rw [← parseColumns_inside_iff whole r.payloadSchemas bufOffset []]
  refine ⟨fun safe => safe.inside, fun inside => ⟨inside, fun ok => ?_⟩⟩
  exact @parseColumns_matches buf bufLen r.payloadSchemas [] bufOffset [] .nil ok

theorem parsePayload_inside_one_string :
    ({ payloadSchemas := [⟨0, .string⟩] } : DataFileReader).ParsesInside [1, 0, 0, 0, 65] 5 0 ↔
      PrefixesFit [1, 0, 0, 0, 65] [⟨0, .string⟩] 0 :=
  parsePayload_inside_iff _ rfl 0

/-- A length of `2 ^ 32 - 1` behind an offset of 4 passes the check, and the value is copied
from outside. -/
theorem long_prefix_outside :
    ¬ ({ payloadSchemas := [⟨0, .string⟩] } : DataFileReader).ParsesInside
      [255, 255, 255, 255] 4 0 := by
  intro safe
  exact safe.inside (by decide)

end DataFileReader

end VecFetch.Storage
