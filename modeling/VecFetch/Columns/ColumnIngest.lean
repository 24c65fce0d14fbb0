/-
# Columns.ColumnIngest -- a row that is refused on the way

`Ingest` gives the columns their values one after the other and stops at the first that
cannot take its own.  The columns before it keep theirs, so a call that fails leaves the
store as it was exactly if it fails at the first column (`ingest_unchanged_iff`).  Whether a
column takes a value is up to the row and the column's type alone, so over a whole run the
condition speaks of the rows only (`ingest_atomic_iff`).
-/
import VecFetch.Columns.ColumnRoundTrip

namespace VecFetch.Columns

open VecFetch.Theory

set_option autoImplicit false

/-! ## One column -/

namespace ColumnChunkWriter

variable {room : ℕ} {w w' : ColumnChunkWriter} {datum : Datum}

/-- The value has the width of the column. -/
def Fits (kind : ColumnSchema) (datum : Datum) : Prop :=
  dTypeIsFixedWidth kind.dtype = true → datum.data.length = dTypeSize kind.dtype

theorem append_taken {loc : ColumnLocator} (done : w.append room datum = some (w', .ok loc)) :
    Fits w.schema datum ∧ w'.schema = w.schema ∧ w'.numRecords = w.numRecords + 1 := by
  rw [append, appendBytes] at done
  by_cases isFixed : dTypeIsFixedWidth w.schema.dtype = true
  · rw [if_pos isFixed] at done
    by_cases wide : datum.data.length ≠ dTypeSize w.schema.dtype
    · rw [if_pos wide] at done
      cases done
    · rw [if_neg wide] at done
      split at done
      · cases done
      · cases done
        exact ⟨fun _ => not_not.1 wide, rfl, rfl⟩
  · rw [if_neg isFixed] at done
    split at done
    · cases done
    · split at done
      · cases done
      · cases done
        exact ⟨fun fixed => absurd fixed isFixed, rfl, rfl⟩

theorem append_refused {failure : Failure} (done : w.append room datum = some (w', .error failure)) :
    ¬ Fits w.schema datum ∧ w' = w ∧ ∃ code message, failure = .status code message := by
  rw [append, appendBytes] at done
  by_cases isFixed : dTypeIsFixedWidth w.schema.dtype = true
  · rw [if_pos isFixed] at done
    by_cases wide : datum.data.length ≠ dTypeSize w.schema.dtype
    · rw [if_pos wide] at done
      cases done
      exact ⟨fun fits => wide (fits isFixed), rfl, _, _, rfl⟩
    · rw [if_neg wide] at done
      split at done <;> cases done
  · rw [if_neg isFixed] at done
    split at done
    · cases done
    · split at done <;> cases done

theorem ne_of_taken {loc : ColumnLocator} (done : w.append room datum = some (w', .ok loc)) :
    w' ≠ w := by
  rintro rfl
  have counted := congrArg UInt32.toNat (append_taken done).2.2
  rw [UInt32.toNat_add] at counted
  have small := w'.numRecords.toNat_lt
  have one : (1 : UInt32).toNat = 1 := rfl
  omega

end ColumnChunkWriter

namespace ColumnStore

open ColumnChunkWriter

/-! ## Runs -/

/-- Rows given to a store one after the other, whatever comes of each. -/
def ingestEach (room : ℕ) : List Row → ColumnStore →
    Option (ColumnStore × List (Result IngestResult))
  | [], s => some (s, [])
  | row :: rows, s =>
      (s.ingest room row).bind fun done =>
        (ingestEach room rows done.1).map fun rest => (rest.1, done.2 :: rest.2)

/-- The rows that were taken, each with its locators. -/
def taken : List Row → List (Result IngestResult) → List (Row × IngestResult)
  | row :: rows, .ok locs :: results => (row, locs) :: taken rows results
  | _ :: rows, .error _ :: results => taken rows results
  | _, _ => []

/-- A run of `Ingest` in which a failed call changes nothing, so that the rows that were taken
are aligned and are read back. -/
structure AtomicRun (room : ℕ) (s : ColumnStore) (rows : List Row) (s' : ColumnStore)
    (results : List (Result IngestResult)) : Prop where
  unchanged : ∀ before row later between earlier next failure, rows = before ++ row :: later →
    ingestEach room before s = some (between, earlier) →
      between.ingest room row = some (next, .error failure) →
        (∃ code message, failure = .status code message) ∧ next = between
  aligned : ∀ (i : ℕ) w w', i < s.schemas.length → s.writers[i]? = some w →
    s'.writers[i]? = some w' →
      w'.numRecords = w.numRecords + UInt32.ofNat (taken rows results).length
  counted : s'.numRows = s.numRows + UInt64.ofNat (taken rows results).length
  readBack : ∀ (writer reader : ColumnStore) schemas, writer.open schemas = .ok s →
    room < 2 ^ 63 → schemas.length < 2 ^ 32 → (schemas.map ColumnSchema.id).Nodup →
      (∀ row ∈ (taken rows results).map (·.1), MatchesRow schemas row) →
        serialisedSize schemas ((taken rows results).map (·.1)) ≤ room →
          ∃ image opened, s'.serialiseAll room = some (.ok image) ∧
            reader.openForRead image schemas = (opened, .ok ()) ∧
              ReadsRows opened schemas ((taken rows results).map (·.1))
                ((taken rows results).map (·.2))

/-! ## Rows that are taken -/

/-- The row has a value that a column of this kind takes. -/
def Takes (schema kind : ColumnSchema) (row : Row) : Prop :=
  ∃ datum, row schema.id = some datum ∧ Fits kind datum

/-- Every column takes its value. -/
def TakesAll (row : Row) : List ColumnSchema → List ColumnSchema → Prop
  | [], _ => True
  | _ :: _, [] => False
  | schema :: schemas, kind :: kinds => Takes schema kind row ∧ TakesAll row schemas kinds

/-- The first column does not take its value. -/
def FirstRefuses (row : Row) : List ColumnSchema → List ColumnSchema → Prop
  | schema :: _, kind :: _ => ¬ Takes schema kind row
  | _, _ => False

/-- What the writers were made for; `schemas` may have been replaced since. -/
def kinds (s : ColumnStore) : List ColumnSchema := s.writers.map (·.schema)

/-- All columns take the row, or the first one does not. -/
def AllOrFirst (s : ColumnStore) (row : Row) : Prop :=
  s.openedForWrite = true →
    TakesAll row s.schemas s.kinds ∨ FirstRefuses row s.schemas s.kinds

/-- The stores have the same columns, of the same kinds. -/
structure Alike (s s' : ColumnStore) : Prop where
  schemas : s'.schemas = s.schemas
  kinds : s'.kinds = s.kinds
  opened : s'.openedForWrite = s.openedForWrite

theorem Alike.refl (s : ColumnStore) : Alike s s := ⟨rfl, rfl, rfl⟩

theorem Alike.trans {s s' s'' : ColumnStore} (first : Alike s s') (second : Alike s' s'') :
    Alike s s'' :=
  ⟨second.schemas.trans first.schemas, second.kinds.trans first.kinds,
    second.opened.trans first.opened⟩

theorem Alike.allOrFirst {s s' : ColumnStore} (alike : Alike s s') (row : Row) :
    s'.AllOrFirst row ↔ s.AllOrFirst row := by
  rw [AllOrFirst, AllOrFirst, alike.schemas, alike.kinds, alike.opened]

/-! ## One call -/

section Columns

variable {room : ℕ} {row : Row}

/-- What `ingestColumns` does to the columns when all of them take their value. -/
theorem ingestColumns_taken {schemas : List ColumnSchema} {writers writers' : List ColumnChunkWriter}
    {locs : IngestResult}
    (done : ingestColumns room row schemas writers = some (writers', .ok locs)) :
    TakesAll row schemas (writers.map (·.schema)) ∧
      writers'.map (·.schema) = writers.map (·.schema) ∧
        ∀ (i : ℕ) w w', i < schemas.length → writers[i]? = some w → writers'[i]? = some w' →
          w'.numRecords = w.numRecords + 1 := by
  induction schemas generalizing writers writers' locs with
  | nil =>
      cases done
      exact ⟨trivial, rfl, fun i w w' inside => absurd inside (Nat.not_lt_zero i)⟩
  | cons schema schemas ih =>
      cases writers with
      | nil => cases done
      | cons w writers =>
          rw [ingestColumns] at done
          cases present : row schema.id with
          | none =>
              rw [present] at done
              cases done
          | some datum =>
              rw [present] at done
              obtain ⟨⟨next, result⟩, appended, rest⟩ := Option.bind_eq_some_iff.1 done
              cases result with
              | error failure => cases rest
              | ok loc =>
                  obtain ⟨⟨others, locs'⟩, others_eq, pair⟩ := Option.map_eq_some_iff.1 rest
                  cases locs' with
                  | error failure => cases congrArg Prod.snd pair
                  | ok locs' =>
                      obtain rfl : next :: others = writers' := congrArg Prod.fst pair
                      obtain ⟨fits, kind, counted⟩ := append_taken appended
                      obtain ⟨all, kinds, grown⟩ := ih others_eq
                      refine ⟨⟨⟨datum, present, fits⟩, all⟩, ?_, ?_⟩
                      · rw [List.map_cons, List.map_cons, kind, kinds]
                      · rintro (_ | i) v v' inside old new
                        · cases old
                          cases new
                          exact counted
                        · exact grown i v v' (Nat.lt_of_succ_lt_succ inside) old new

/-- What it does when one of them does not. -/
theorem ingestColumns_refused {schemas : List ColumnSchema}
    {writers writers' : List ColumnChunkWriter} {failure : Failure}
    (done : ingestColumns room row schemas writers = some (writers', .error failure)) :
    ¬ TakesAll row schemas (writers.map (·.schema)) ∧
      writers'.map (·.schema) = writers.map (·.schema) ∧
        ((∃ code message, failure = .status code message) ∧ writers' = writers ↔
          FirstRefuses row schemas (writers.map (·.schema))) := by
  induction schemas generalizing writers writers' failure with
  | nil => cases done
  | cons schema schemas ih =>
      cases writers with
      | nil =>
          cases done
          refine ⟨not_false, rfl, ?_, False.elim⟩
          rintro ⟨⟨code, message, status⟩, -⟩
          cases status
      | cons w writers =>
          rw [ingestColumns] at done
          cases present : row schema.id with
          | none =>
              rw [present] at done
              have refuses : ¬ Takes schema w.schema row := by
                rintro ⟨datum, here, -⟩
                rw [present] at here
                cases here
              cases done
              exact ⟨fun all => refuses all.1, rfl, fun _ => refuses, fun _ => ⟨⟨_, _, rfl⟩, rfl⟩⟩
          | some datum =>
              rw [present] at done
              obtain ⟨⟨next, result⟩, appended, rest⟩ := Option.bind_eq_some_iff.1 done
              cases result with
              | error failure' =>
                  cases rest
                  obtain ⟨wide, rfl, status⟩ := append_refused appended
                  have refuses : ¬ Takes schema next.schema row := by
                    rintro ⟨datum', here, fits⟩
                    obtain rfl := Option.some.inj (present.symm.trans here)
                    exact wide fits
                  exact ⟨fun all => refuses all.1, rfl, fun _ => refuses, fun _ => ⟨status, rfl⟩⟩
              | ok loc =>
                  obtain ⟨⟨others, locs'⟩, others_eq, pair⟩ := Option.map_eq_some_iff.1 rest
                  cases locs' with
                  | ok locs' => cases congrArg Prod.snd pair
                  | error failure' =>
                      obtain rfl : next :: others = writers' := congrArg Prod.fst pair
                      obtain ⟨fits, kind, -⟩ := append_taken appended
                      obtain ⟨some_refuses, kinds, -⟩ := ih others_eq
                      refine ⟨fun all => some_refuses all.2, ?_, ?_, ?_⟩
                      · rw [List.map_cons, List.map_cons, kind, kinds]
                      · rintro ⟨-, same⟩
                        exact absurd (List.cons.inj same).1 (ne_of_taken appended)
                      · intro refuses
                        exact absurd ⟨datum, present, fits⟩ refuses

end Columns

section Calls

variable {room : ℕ} {s s' : ColumnStore} {row : Row}

/-- A call that took its row. -/
theorem ingest_taken {locs : IngestResult} (done : s.ingest room row = some (s', .ok locs)) :
    TakesAll row s.schemas s.kinds ∧ Alike s s' ∧ s'.numRows = s.numRows + 1 ∧
      ∀ (i : ℕ) w w', i < s.schemas.length → s.writers[i]? = some w → s'.writers[i]? = some w' →
        w'.numRecords = w.numRecords + 1 := by
  rw [ingest] at done
  split at done
  · obtain ⟨⟨writers, result⟩, columns, pair⟩ := Option.map_eq_some_iff.1 done
    cases result with
    | error failure => cases congrArg Prod.snd pair
    | ok locs' =>
        obtain ⟨all, kinds, grown⟩ := ingestColumns_taken columns
        obtain rfl : { s with writers := writers, numRows := s.numRows + 1 } = s' :=
          congrArg Prod.fst pair
        exact ⟨all, ⟨rfl, kinds, rfl⟩, rfl, grown⟩
  · cases done

/-- A call that refused its row. -/
theorem ingest_refused {failure : Failure} (done : s.ingest room row = some (s', .error failure)) :
    (s.openedForWrite = true → ¬ TakesAll row s.schemas s.kinds) ∧ Alike s s' ∧
      ((∃ code message, failure = .status code message) ∧ s' = s ↔
        (s.openedForWrite = true → FirstRefuses row s.schemas s.kinds)) := by
  rw [ingest] at done
  split at done
  · next isOpen =>
      obtain ⟨⟨writers, result⟩, columns, pair⟩ := Option.map_eq_some_iff.1 done
      cases result with
      | ok locs => cases congrArg Prod.snd pair
      | error failure' =>
          obtain ⟨some_refuses, kinds, unchanged⟩ := ingestColumns_refused columns
          obtain rfl : { s with writers := writers } = s' := congrArg Prod.fst pair
          obtain rfl : failure' = failure := Except.error.inj (congrArg Prod.snd pair)
          refine ⟨fun _ => some_refuses, ⟨rfl, kinds, rfl⟩, ?_⟩
          rw [ColumnStore.kinds, ← unchanged]
          constructor
          · rintro ⟨status, same⟩ -
            exact ⟨status, congrArg ColumnStore.writers same⟩
          · intro first
            obtain ⟨status, rfl⟩ := first isOpen
            exact ⟨status, rfl⟩
  · next isClosed =>
      obtain rfl := congrArg Prod.fst (Option.some.inj done)
      obtain rfl := Except.error.inj (congrArg Prod.snd (Option.some.inj done))
      exact ⟨fun isOpen => absurd isOpen isClosed, .refl s, fun _ isOpen => absurd isOpen isClosed,
        fun _ => ⟨⟨_, _, rfl⟩, rfl⟩⟩

/-- A failed call leaves the store as it was exactly if it fails at the first column. -/
theorem ingest_unchanged_iff {failure : Failure}
    (done : s.ingest room row = some (s', .error failure)) :
    (∃ code message, failure = .status code message) ∧ s' = s ↔ s.AllOrFirst row := by
  obtain ⟨some_refuses, -, unchanged⟩ := ingest_refused done
  rw [unchanged, AllOrFirst]
  constructor
  · intro first isOpen
    exact .inr (first isOpen)
  · intro either isOpen
    exact (either isOpen).resolve_left (some_refuses isOpen)

theorem ingest_alike {result : Result IngestResult} (done : s.ingest room row = some (s', result)) :
    Alike s s' := by
  cases result with
  | ok locs => exact (ingest_taken done).2.1
  | error failure => exact (ingest_refused done).2.1

end Calls

/-! ## Whole runs -/

section Run

variable {room : ℕ} {s s' : ColumnStore} {rows : List Row} {results : List (Result IngestResult)}

theorem ingestEach_cons {row : Row} (run : ingestEach room (row :: rows) s = some (s', results)) :
    ∃ next result rest, s.ingest room row = some (next, result) ∧
      ingestEach room rows next = some (s', rest) ∧ results = result :: rest := by
  obtain ⟨⟨next, result⟩, first, others⟩ := Option.bind_eq_some_iff.1 run
  obtain ⟨⟨last, rest⟩, others_eq, pair⟩ := Option.map_eq_some_iff.1 others
  cases pair
  exact ⟨next, result, rest, first, others_eq, rfl⟩

theorem ingestEach_append {before later : List Row}
    (run : ingestEach room (before ++ later) s = some (s', results)) :
    ∃ between earlier rest, ingestEach room before s = some (between, earlier) ∧
      ingestEach room later between = some (s', rest) := by
  induction before generalizing s results with
  | nil => exact ⟨s, [], results, rfl, run⟩
  | cons row before ih =>
      obtain ⟨next, result, rest, first, others, rfl⟩ := ingestEach_cons run
      obtain ⟨between, earlier, rest', start, later⟩ := ih others
      refine ⟨between, result :: earlier, rest', ?_, later⟩
      rw [ingestEach, first]
      dsimp only [Option.bind_some]
      rw [start]
      rfl

theorem ingestEach_alike (run : ingestEach room rows s = some (s', results)) : Alike s s' := by
  induction rows generalizing s results with
  | nil =>
      cases run
      exact .refl _
  | cons row rows ih =>
      obtain ⟨next, result, rest, first, others, rfl⟩ := ingestEach_cons run
      exact (ingest_alike first).trans (ih others)

/-- The rows that were taken were taken alone. -/
theorem ingestAll_taken (run : ingestEach room rows s = some (s', results))
    (clean : ∀ row ∈ rows, s.AllOrFirst row) :
    ingestAll room ((taken rows results).map (·.1)) s =
      some (.ok (s', (taken rows results).map (·.2))) := by
  induction rows generalizing s results with
  | nil =>
      cases run
      rfl
  | cons row rows ih =>
      obtain ⟨next, result, rest, first, others, rfl⟩ := ingestEach_cons run
      have later := ih others fun row' mem =>
        ((ingest_alike first).allOrFirst row').2 (clean row' (List.mem_cons_of_mem _ mem))
      cases result with
      | ok locs =>
          rw [taken, List.map_cons, List.map_cons, ingestAll, first]
          dsimp only [Option.bind_some]
          rw [later]
          rfl
      | error failure =>
          obtain ⟨-, rfl⟩ := (ingest_unchanged_iff first).2 (clean row List.mem_cons_self)
          exact later

/-- Rows that are all taken grow every column by as many. -/
theorem ingestAll_grown {locs : List IngestResult}
    (all : ingestAll room rows s = some (.ok (s', locs))) :
    (∀ (i : ℕ) w w', i < s.schemas.length → s.writers[i]? = some w → s'.writers[i]? = some w' →
      w'.numRecords = w.numRecords + UInt32.ofNat rows.length) ∧
      s'.numRows = s.numRows + UInt64.ofNat rows.length := by
  induction rows generalizing s locs with
  | nil =>
      cases all
      refine ⟨fun i w w' _ old new => ?_, (UInt64.add_zero _).symm⟩
      obtain rfl := Option.some.inj (old.symm.trans new)
      exact (UInt32.add_zero _).symm
  | cons row rows ih =>
      obtain ⟨⟨next, result⟩, first, others⟩ := Option.bind_eq_some_iff.1 all
      cases result with
      | error failure => cases others
      | ok loc =>
          obtain ⟨last, others_eq, pair⟩ := Option.map_eq_some_iff.1 others
          cases last with
          | error failure => cases pair
          | ok last =>
              cases pair
              obtain ⟨-, alike, counted, grown⟩ := ingest_taken first
              obtain ⟨later, total⟩ := ih others_eq
              constructor
              · intro i w w' inside old new
                obtain ⟨v, here⟩ : ∃ v, next.writers[i]? = some v := by
                  have same := congrArg List.length alike.kinds
                  rw [ColumnStore.kinds, ColumnStore.kinds, List.length_map, List.length_map] at same
                  have short := (List.getElem?_eq_some_iff.1 old).1
                  exact ⟨_, List.getElem?_eq_getElem (by omega)⟩
                rw [later i v w' (by rw [alike.schemas]; exact inside) here new,
                  grown i w v inside old here, List.length_cons, Nat.add_comm, UInt32.ofNat_add,
                  UInt32.add_assoc]
                rfl
              · rw [total, counted, List.length_cons, Nat.add_comm, UInt64.ofNat_add,
                  UInt64.add_assoc]
                rfl

/-- A run in which all columns or none took each row. -/
theorem AtomicRun.of_clean (run : ingestEach room rows s = some (s', results))
    (clean : ∀ row ∈ rows, s.AllOrFirst row) : AtomicRun room s rows s' results := by
  have alone := ingestAll_taken run clean
  have grown := ingestAll_grown alone
  rw [List.length_map] at grown
  refine ⟨?_, grown.1, grown.2, ?_⟩
  · rintro before row later between earlier next failure rfl start call
    refine (ingest_unchanged_iff call).2 (((ingestEach_alike start).allOrFirst row).2 ?_)
    exact clean row (by simp)
  · intro writer reader schemas isOpen memory few distinct matching fits
    have each : ∀ schema ∈ schemas,
        regionSize ([] ++ (taken rows results).map (·.1)) schema ≤ room := by
      intro schema mem
      have part := List.le_sum_of_mem (List.mem_map_of_mem
        (f := regionSize ((taken rows results).map (·.1))) mem)
      rw [serialisedSize] at fits
      rw [List.nil_append]
      omega
    have fresh : HasRows s schemas [] := by
      rw [ColumnStore.open] at isOpen
      split at isOpen
      · cases isOpen
      · cases isOpen
        exact ⟨rfl, rfl, rfl⟩
    obtain ⟨last, all, has⟩ := fresh.ingestAll _ matching each
    rw [alone] at all
    obtain ⟨rfl, locs⟩ := Prod.mk.inj (Except.ok.inj (Option.some.inj all))
    rw [List.nil_append] at has
    have written := has.serialiseAll fits memory
    rw [has.writers] at written
    obtain ⟨opened, ok, stored⟩ := openForRead_ok reader few (lt_of_le_of_lt fits memory)
    refine ⟨_, opened, written, ok, ?_⟩
    rw [locs]
    exact stored.readsRows distinct matching (by omega)

/-- **`Ingest` is atomic exactly over rows that all columns take or the first refuses**: over
every other run some call fails and leaves its mark. -/
theorem ingest_atomic_iff (run : ingestEach room rows s = some (s', results)) :
    AtomicRun room s rows s' results ↔ ∀ row ∈ rows, s.AllOrFirst row := by
  constructor
  · intro atomic row mem
    obtain ⟨before, later, rfl⟩ := List.append_of_mem mem
    obtain ⟨between, earlier, rest, start, others⟩ := ingestEach_append run
    obtain ⟨next, result, rest', call, -, -⟩ := ingestEach_cons others
    rw [← (ingestEach_alike start).allOrFirst row]
    cases result with
    | ok locs => exact fun _ => .inl (ingest_taken call).1
    | error failure =>
        exact (ingest_unchanged_iff call).1
          (atomic.unchanged before row later between earlier next failure rfl start call)
  · exact .of_clean run

end Run

/-- A store for a number and a string. -/
def numberAndString : ColumnStore :=
  { schemas := [⟨7, .int32⟩, ⟨2, .string⟩], openedForWrite := true
    writers := [.new ⟨7, .int32⟩ 0 0, .new ⟨2, .string⟩ 0 0] }

/-- A row without the number is refused at once. -/
theorem ingest_atomic_no_number :
    AtomicRun 64 numberAndString [fun _ => none] numberAndString
      [Status.invalidArgument "Ingest: missing column 7"] := by
  refine (ingest_atomic_iff (by rfl)).2 ?_
  intro row mem
  obtain rfl := List.mem_singleton.1 mem
  refine fun _ => .inr ?_
  rintro ⟨datum, present, -⟩
  cases present

/-- A row of a number alone. -/
def numberAlone : Row := fun id => if id = 7 then some { dtype := .int32 } else none

/-- Its number stays behind. -/
theorem not_ingest_atomic_no_string :
    ∃ s' results, ingestEach 64 [numberAlone] numberAndString = some (s', results) ∧
      ¬ AtomicRun 64 numberAndString [numberAlone] s' results := by
  have runs : (ingestEach 64 [numberAlone] numberAndString).isSome = true := by decide
  obtain ⟨⟨s', results⟩, run⟩ := Option.isSome_iff_exists.1 runs
  refine ⟨s', results, run, fun atomic => ?_⟩
  obtain ⟨next, result, rest, call, -, -⟩ := ingestEach_cons run
  have grown : ((numberAndString.ingest 64 numberAlone).map fun done =>
      done.1.writers.map (·.numRecords)) = some [1, 0] := by decide
  have refused : ((numberAndString.ingest 64 numberAlone).map fun done =>
      done.2.toOption.isSome) = some false := by decide
  rw [call] at grown refused
  cases result with
  | ok locs => cases refused
  | error failure =>
      obtain ⟨-, rfl⟩ := atomic.unchanged [] _ [] numberAndString [] next failure rfl rfl call
      cases grown

end ColumnStore

end VecFetch.Columns
