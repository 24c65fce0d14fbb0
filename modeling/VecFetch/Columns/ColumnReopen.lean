/-
# Columns.ColumnReopen -- what a failed `OpenForRead` leaves

The readers of a store point into its buffer, and both overloads of `OpenForRead` replace
the buffer before they have checked it.  The one that takes a buffer also counts the store
as opened, with the new columns, before its first check.  A `TrackedStore` remembers which
buffer its readers point into, so that a read through a missing reader, or through one of
an earlier buffer, can be told from a read of the source.  A failed call leaves a store
whose reads are sound exactly in the cases of `LeavesSound` (`failed_open_sound_iff`).
-/
import VecFetch.Columns.ColumnBounds

namespace VecFetch.Columns

open VecFetch.Theory

set_option autoImplicit false

/-! ## Stores and the buffers of their readers -/

/-- A store, how often its buffer was replaced, and which of these its readers point into. -/
structure TrackedStore where
  store : ColumnStore := {}
  buffers : ℕ := 0
  readersOf : ℕ := 0
  known : readersOf ≤ buffers := by decide

inductive OpenCall where
  | buffer (data : List UInt8) (schemas : List ColumnSchema)
  | file (path : String) (file : ColumnStore.FileRead)

/-- `read_buf` is replaced by the call. -/
def OpenCall.replaces : OpenCall → Bool
  | .buffer .. => true
  | .file _ .notOpened | .file _ .notStated => false
  | .file .. => true

/-- `OpenForRead`, either of the two. -/
def ColumnStore.openCall (s : ColumnStore) : OpenCall → ColumnStore × Result Unit
  | .buffer data schemas => s.openForRead data schemas
  | .file path file => s.openForReadFile path file

namespace TrackedStore

/-- The readers are made last, over the buffer the call has put there. -/
def openCall (t : TrackedStore) (call : OpenCall) : TrackedStore × Result Unit :=
  let done := t.store.openCall call
  let buffers := if call.replaces then t.buffers + 1 else t.buffers
  match done.2 with
  | .ok () => ({ store := done.1, buffers := buffers, readersOf := buffers, known := le_refl _ },
      .ok ())
  | .error failure =>
      ({ store := done.1, buffers := buffers, readersOf := t.readersOf
         known := by
           have known := t.known
           dsimp only [buffers]
           split <;> omega },
        .error failure)

/-- A read of the column takes a reader out of the list. -/
def Indexes (t : TrackedStore) (id : ColumnId) : Prop :=
  t.store.openedForRead = true ∧ (t.store.idToIdx id).isSome = true

/-- The reader is there and points into the buffer the store has. -/
def Live (t : TrackedStore) (id : ColumnId) : Prop :=
  ∃ idx reader, t.store.idToIdx id = some idx ∧ t.store.readers[idx]? = some reader ∧
    t.readersOf = t.buffers

/-- `ReadColumn`; a reader of an earlier buffer reads memory that is not the store's. -/
def readColumn (t : TrackedStore) (id : ColumnId) (loc : ColumnLocator) : Result Datum :=
  if t.store.openedForRead && (t.store.idToIdx id).isSome && decide (t.readersOf ≠ t.buffers) then
    .error .outOfBounds
  else t.store.readColumn id loc

def read (t : TrackedStore) (locs : IngestResult) : Result Row :=
  ColumnStore.readInto t.readColumn locs fun _ => none

def readColumns (t : TrackedStore) (locs : IngestResult) (columnIds : List ColumnId) :
    Result Row :=
  ColumnStore.readWanted t.readColumn locs (ColumnStore.wantedIds columnIds) fun _ => none

/-- The call returns a status. -/
def Refused {α : Type} (r : Result α) : Prop := ∃ code message, r = .error (.status code message)

/-- After a call that led from `t` to `t'`, every read is refused or gives what it gave before,
and none takes a reader that is missing or points into an earlier buffer. -/
structure SoundAfter (t t' : TrackedStore) : Prop where
  live : ∀ id, t'.Indexes id → t'.Live id
  column : ∀ id loc, Refused (t'.readColumn id loc) ∨ t'.readColumn id loc = t.readColumn id loc
  row : ∀ locs, Refused (t'.read locs) ∨ t'.read locs = t.read locs
  columns : ∀ locs ids,
    Refused (t'.readColumns locs ids) ∨ t'.readColumns locs ids = t.readColumns locs ids

/-- A failed call leaves nothing to read: the columns given are none; or the file was not
touched and the readers were sound before; or nothing was readable before. -/
def LeavesSound (t : TrackedStore) : OpenCall → Prop
  | .buffer _ schemas => schemas = []
  | .file _ .notOpened | .file _ .notStated => ∀ id, t.Indexes id → t.Live id
  | .file .. => ∀ id, ¬ t.Indexes id

/-! ## Reads of nothing -/

section Refusing

variable {t t' : TrackedStore}

/-- Columns that are never indexed are refused. -/
theorem readColumn_refused (none : ∀ id, ¬ t.Indexes id) (id : ColumnId) (loc : ColumnLocator) :
    Refused (t.readColumn id loc) := by
  have off := none id
  rw [Indexes] at off
  rw [readColumn, ColumnStore.readColumn]
  cases isOpen : t.store.openedForRead with
  | false => exact ⟨_, _, rfl⟩
  | true =>
      cases found : t.store.idToIdx id with
      | none => exact ⟨_, _, rfl⟩
      | some idx => exact absurd ⟨isOpen, by rw [found]; rfl⟩ off

/-- A store all of whose columns are refused refuses every row but the empty one. -/
theorem sound_of_refused (none : ∀ id, ¬ t'.Indexes id) : SoundAfter t t' where
  live id indexes := absurd indexes (none id)
  column id loc := .inl (readColumn_refused none id loc)
  row locs := by
    cases locs with
    | nil => exact .inr rfl
    | cons entry locs =>
        obtain ⟨code, message, refused⟩ := readColumn_refused none entry.1 entry.2
        refine .inl ⟨code, message, ?_⟩
        rw [read, ColumnStore.readInto, refused]
        rfl
  columns locs ids := by
    rw [readColumns, readColumns]
    cases ColumnStore.wantedIds ids with
    | nil => exact .inr rfl
    | cons id ids =>
        rw [ColumnStore.readWanted]
        cases ColumnStore.wantedLoc locs id with
        | none => exact .inl ⟨_, _, rfl⟩
        | some loc =>
            obtain ⟨code, message, refused⟩ := readColumn_refused none id loc
            refine .inl ⟨code, message, ?_⟩
            dsimp only
            rw [refused]
            rfl

theorem sound_of_same (live : ∀ id, t.Indexes id → t.Live id) : SoundAfter t t where
  live := live
  column _ _ := .inr rfl
  row _ := .inr rfl
  columns _ _ := .inr rfl

end Refusing

/-! ## Failed calls -/

/-- Every column given is in the map. -/
theorem buildIdMap_isSome {schemas : List ColumnSchema} {schema : ColumnSchema}
    (mem : schema ∈ schemas) : (ColumnStore.buildIdMap schemas schema.id).isSome = true := by
  have kept (entries : List (ColumnSchema × ℕ)) (map : ColumnId → Option ℕ)
      (here : (map schema.id).isSome = true ∨ ∃ entry ∈ entries, entry.1 = schema) :
      (entries.foldl (fun (map : ColumnId → Option ℕ) (entry : ColumnSchema × ℕ) =>
        Function.update map entry.1.id (some entry.2)) map schema.id).isSome = true := by
    induction entries generalizing map with
    | nil =>
        rcases here with here | ⟨entry, none, -⟩
        · exact here
        · cases none
    | cons first entries ih =>
        refine ih _ ?_
        by_cases same : first.1.id = schema.id
        · left
          show (Function.update map first.1.id (some first.2) schema.id).isSome = true
          rw [← same, Function.update_self]
          rfl
        · rcases here with here | ⟨entry, among, rfl⟩
          · left
            show (Function.update map first.1.id (some first.2) _).isSome = true
            rw [Function.update_of_ne (Ne.symm same)]
            exact here
          · right
            rcases List.mem_cons.1 among with rfl | later
            · exact absurd rfl same
            · exact ⟨entry, later, rfl⟩
  obtain ⟨i, inside, rfl⟩ := List.mem_iff_getElem.1 mem
  refine kept _ _ (.inr ⟨(schemas[i], i), ?_, rfl⟩)
  exact List.mk_mem_zipIdx_iff_getElem?.2 (List.getElem?_eq_getElem inside)

section Failed

variable {t t' : TrackedStore} {failure : Failure}

/-- A failed call keeps the readers, and replaces the buffer or not. -/
theorem openCall_failed {call : OpenCall} (failed : t.openCall call = (t', .error failure)) :
    (t.store.openCall call).2 = .error failure ∧ t'.store = (t.store.openCall call).1 ∧
      t'.readersOf = t.readersOf ∧
      t'.buffers = if call.replaces then t.buffers + 1 else t.buffers := by
  rw [openCall] at failed
  split at failed
  · cases congrArg Prod.snd failed
  · next failure' status =>
      obtain rfl := Except.error.inj (congrArg Prod.snd failed)
      obtain rfl := congrArg Prod.fst failed
      exact ⟨status, rfl, rfl, rfl⟩

/-- Once the buffer is replaced no reader is live. -/
theorem not_live_of_replaced {call : OpenCall} (failed : t.openCall call = (t', .error failure))
    (replaced : call.replaces = true) (id : ColumnId) : ¬ t'.Live id := by
  obtain ⟨-, -, readers, buffers⟩ := openCall_failed failed
  have known := t.known
  rw [replaced, if_pos rfl] at buffers
  rintro ⟨-, -, -, -, same⟩
  omega

/-- A refused buffer leaves its columns, and the store opened. -/
theorem openForRead_failed {s : ColumnStore} {data : List UInt8} {schemas : List ColumnSchema}
    (failed : (s.openForRead data schemas).2 = .error failure) :
    (s.openForRead data schemas).1.openedForRead = true ∧
      (s.openForRead data schemas).1.idToIdx = ColumnStore.buildIdMap schemas := by
  rw [ColumnStore.openForRead] at failed ⊢
  dsimp only at failed ⊢
  by_cases short : data.length < 4 + schemas.length * 8
  · rw [if_pos short]
    exact ⟨rfl, rfl⟩
  · rw [if_neg short] at failed ⊢
    by_cases other : leValue (slice data 0 4) ≠ schemas.length
    · rw [if_pos other]
      exact ⟨rfl, rfl⟩
    · rw [if_neg other] at failed
      cases failed

/-- A refused file leaves the columns and the flag as they were. -/
theorem openForReadFile_failed {s : ColumnStore} {path : String} {file : ColumnStore.FileRead}
    (failed : (s.openForReadFile path file).2 = .error failure) :
    (s.openForReadFile path file).1.openedForRead = s.openedForRead ∧
      (s.openForReadFile path file).1.idToIdx = s.idToIdx := by
  cases file with
  | notOpened => exact ⟨rfl, rfl⟩
  | notStated => exact ⟨rfl, rfl⟩
  | readFails size start => exact ⟨rfl, rfl⟩
  | content data =>
      rw [ColumnStore.openForReadFile] at failed ⊢
      dsimp only at failed ⊢
      by_cases none : s.schemas = []
      · rw [if_pos none]
        exact ⟨rfl, rfl⟩
      · rw [if_neg none] at failed ⊢
        by_cases short : data.length < 4 + s.schemas.length * 8
        · rw [if_pos short]
          exact ⟨rfl, rfl⟩
        · rw [if_neg short] at failed ⊢
          by_cases other : leValue (slice data 0 4) ≠ s.schemas.length
          · rw [if_pos other]
            exact ⟨rfl, rfl⟩
          · rw [if_neg other] at failed
            cases failed

/-- A file that was read and refused: sound exactly if nothing was readable. -/
theorem file_read_sound_iff {path : String} {file : ColumnStore.FileRead}
    (failed : t.openCall (.file path file) = (t', .error failure))
    (replaced : (OpenCall.file path file).replaces = true) :
    SoundAfter t t' ↔ ∀ id, ¬ t.Indexes id := by
  obtain ⟨status, store, -, -⟩ := openCall_failed failed
  obtain ⟨isOpen, idToIdx⟩ := openForReadFile_failed status
  have same (id : ColumnId) : t'.Indexes id ↔ t.Indexes id := by
    rw [Indexes, Indexes, store]
    show (t.store.openForReadFile path file).1.openedForRead = true ∧
      ((t.store.openForReadFile path file).1.idToIdx id).isSome = true ↔ _
    rw [isOpen, idToIdx]
  constructor
  · intro sound id indexes
    exact not_live_of_replaced failed replaced id (sound.live id ((same id).2 indexes))
  · intro none
    exact sound_of_refused fun id indexes => none id ((same id).1 indexes)

/-- **A failed `OpenForRead` leaves a store whose reads are sound** exactly in the cases of
`LeavesSound`, whatever the store was before. -/
theorem failed_open_sound_iff {call : OpenCall}
    (failed : t.openCall call = (t', .error failure)) :
    SoundAfter t t' ↔ t.LeavesSound call := by
  obtain ⟨status, store, readers, buffers⟩ := openCall_failed failed
  cases call with
  | buffer data schemas =>
      obtain ⟨isOpen, idToIdx⟩ := openForRead_failed status
      rw [LeavesSound]
      constructor
      · intro sound
        cases schemas with
        | nil => rfl
        | cons schema schemas =>
            exfalso
            refine not_live_of_replaced failed rfl schema.id (sound.live schema.id ?_)
            rw [Indexes, store]
            refine ⟨isOpen, ?_⟩
            show ((t.store.openForRead data (schema :: schemas)).1.idToIdx schema.id).isSome = true
            rw [idToIdx]
            exact buildIdMap_isSome List.mem_cons_self
      · rintro rfl
        refine sound_of_refused fun id indexes => ?_
        rw [Indexes, store] at indexes
        have found : ((t.store.openForRead data []).1.idToIdx id).isSome = true := indexes.2
        rw [idToIdx] at found
        cases found
  | file path file =>
      cases file with
      | notOpened =>
          have same : t' = t := by
            have opened := congrArg Prod.fst failed
            exact opened.symm
          subst same
          exact ⟨fun sound => sound.live, sound_of_same⟩
      | notStated =>
          have same : t' = t := by
            have opened := congrArg Prod.fst failed
            exact opened.symm
          subst same
          exact ⟨fun sound => sound.live, sound_of_same⟩
      | readFails size start => exact file_read_sound_iff failed rfl
      | content data => exact file_read_sound_iff failed rfl

end Failed

/-- A file with a column of one `INT32` value. -/
def oneColumnFile : List UInt8 := [1, 0, 0, 0, 0, 0, 0, 0, 0, 0, 0, 0, 42, 0, 0, 0]

/-- A store opened over it. -/
def openedStore : TrackedStore :=
  (({} : TrackedStore).openCall (.buffer oneColumnFile [⟨7, .int32⟩])).1

/-- A second file that cannot be opened leaves the readers of the first one: its value is
still read. -/
theorem failed_open_sound_second_file :
    SoundAfter openedStore (openedStore.openCall (.file "gone" .notOpened)).1 ∧
      (openedStore.openCall (.file "gone" .notOpened)).1.readColumn 7 ⟨0, 0, 4, 0⟩ =
        .ok { dtype := .int32, fixed := Datum.fixedOf [42, 0, 0, 0] } := by
  have failed : openedStore.openCall (.file "gone" .notOpened) =
      ((openedStore.openCall (.file "gone" .notOpened)).1,
        Status.ioError ("OpenForRead: cannot open " ++ "gone")) := rfl
  have map : openedStore.store.idToIdx = ColumnStore.buildIdMap [⟨7, .int32⟩] := by rfl
  refine ⟨(failed_open_sound_iff failed).2 fun id indexes => ?_, by decide⟩
  obtain rfl : id = 7 := by
    by_contra other
    have found := indexes.2
    rw [map] at found
    change (Function.update (fun _ => none) 7 (some 0) id).isSome = true at found
    rw [Function.update_of_ne other] at found
    cases found
  exact ⟨0, _, by decide, rfl, rfl⟩

/-- A fresh store that was given four bytes for one column takes a reader that is not there. -/
theorem refused_buffer_not_sound :
    ¬ SoundAfter {} (({} : TrackedStore).openCall (.buffer [1, 0, 0, 0] [⟨7, .int32⟩])).1 := by
  intro sound
  obtain ⟨idx, reader, -, missing, -⟩ := sound.live 7 ⟨by decide, by decide⟩
  have empty : (({} : TrackedStore).openCall
      (.buffer [1, 0, 0, 0] [⟨7, .int32⟩])).1.store.readers = [] := by rfl
  rw [empty] at missing
  cases missing

end TrackedStore

end VecFetch.Columns
