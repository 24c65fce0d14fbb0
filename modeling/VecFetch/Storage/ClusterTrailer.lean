/-
# Storage.ClusterTrailer -- the trailers that a parser accepts

The last two words of a block are the size of its trailer and a magic.  A trailer is
accepted exactly if its fields end right before them and agree with the lookup entry
(`HasTrailer`), and any other is refused with a status: no read of a trailer leaves it.
-/
import VecFetch.Storage.ClusterParse

namespace VecFetch.Storage

open VecFetch.Theory VecFetch.Simd VecFetch.Rabitq VecFetch.Query

set_option autoImplicit false

/-! ## Statuses -/

/-- A call that returns a status. -/
def Refuses {α : Type} (r : Result α) : Prop := ∃ code message, r = .error (.status code message)

theorem refuses_corruption {α : Type} (message : String) :
    Refuses (Status.corruption message : Result α) := ⟨_, _, rfl⟩

theorem refuses_invalid {α : Type} (message : String) :
    Refuses (Status.invalidArgument message : Result α) := ⟨_, _, rfl⟩

theorem Refuses.bind {α β : Type} {r : Result α} (refused : Refuses r) (f : α → Result β) :
    Refuses (r.bind f) := by
  obtain ⟨code, message, rfl⟩ := refused
  exact ⟨code, message, rfl⟩

@[simp] theorem ok_bind {α β : Type} (a : α) (f : α → Result β) :
    (Except.ok a : Result α).bind f = f a := rfl

@[simp] theorem ok_map {α β : Type} (a : α) (f : α → β) :
    (Except.ok a : Result α).map f = .ok (f a) := rfl

theorem of_bind_ok {α β : Type} {r : Result α} {f : α → Result β} {b : β}
    (ok : r.bind f = .ok b) : ∃ a, r = .ok a ∧ f a = .ok b := by
  cases r with
  | error e => cases ok
  | ok a => exact ⟨a, rfl, ok⟩

theorem of_map_ok {α β : Type} {r : Result α} {f : α → β} {b : β} (ok : r.map f = .ok b) :
    ∃ a, r = .ok a ∧ f a = b := by
  cases r with
  | error e => cases ok
  | ok a => exact ⟨a, rfl, Except.ok.inj ok⟩

theorem Refuses.map {α β : Type} {r : Result α} (refused : Refuses r) (f : α → β) :
    Refuses (r.map f) := by
  obtain ⟨code, message, rfl⟩ := refused
  exact ⟨code, message, rfl⟩

/-! ## Words -/

/-- The `uint32_t` at an offset. -/
def wordAt (b : Buffer) (off : ℕ) : UInt32 := UInt32.ofNat (leNat (fun j => b.byte (off + j)) 4)

theorem leNat_congr {a b : ℕ → UInt8} {n : ℕ} (same : ∀ j, j < n → a j = b j) :
    leNat a n = leNat b n := by
  induction n with
  | zero => rfl
  | succ n ih => rw [leNat, leNat, same n (by omega), ih fun j below => same j (by omega)]

/-- Entry `i` of the table at an offset. -/
def tableEntry (table : Buffer) (off i : ℕ) : RawAddressEntryV2 :=
  ⟨wordAt table (off + 8 * i), wordAt table (off + 8 * i + 4)⟩

section Loads

variable {b : Buffer} {off : ℕ}

theorem load32_inside (inside : off + 4 ≤ b.size) : load32 b off = .ok (wordAt b off) := by
  rw [load32, Buffer.load_inside inside]
  rfl

theorem load32_outside (outside : b.size < off + 4) : load32 b off = .error .outOfBounds := by
  rw [load32, Buffer.load_outside outside]
  rfl

end Loads

/-! ## Fields -/

/-- The values of these widths that lie behind each other at an offset. -/
def fieldsAt (b : Buffer) : List ℕ → ℕ → List ℕ
  | [], _ => []
  | width :: widths, off =>
      leNat (fun j => b.byte (off + j)) width :: fieldsAt b widths (off + width)

/-- Fields are read exactly if the buffer holds them. -/
theorem readFields_eq (b : Buffer) (width : ℕ) (widths : List ℕ) (tpos : ℕ) :
    readFields b (width :: widths) tpos =
      if tpos + (width :: widths).sum ≤ b.size then
        some (fieldsAt b (width :: widths) tpos, tpos + (width :: widths).sum)
      else none := by
  induction widths generalizing width tpos with
  | nil =>
      rw [readFields]
      split
      · next inside =>
          rw [Buffer.load_inside (by simpa using inside)]
          simp [readFields, fieldsAt]
      · next outside =>
          rw [Buffer.load_outside (by simpa using outside)]
          rfl
  | cons next widths ih =>
      rw [readFields]
      by_cases inside : tpos + width ≤ b.size
      · rw [Buffer.load_inside inside, Option.bind_some, ih]
        by_cases rest : tpos + width + (next :: widths).sum ≤ b.size
        · rw [if_pos rest, if_pos (by simpa [Nat.add_assoc] using rest)]
          simp [fieldsAt, Nat.add_assoc]
        · rw [if_neg rest, if_neg (by simpa [Nat.add_assoc] using rest)]
          rfl
      · rw [Buffer.load_outside (by omega), if_neg (by simp only [List.sum_cons]; omega)]
        rfl

theorem readBaseOffsets_ok {message : ℕ → String} {trailer : Buffer} {i n tpos : ℕ}
    (inside : tpos + 4 * n ≤ trailer.size) :
    readBaseOffsets message trailer i n tpos =
      .ok ((List.range n).map fun k => wordAt trailer (tpos + 4 * k), tpos + 4 * n) := by
  induction n generalizing i tpos with
  | zero => simp [readBaseOffsets]
  | succ n ih =>
      rw [readBaseOffsets, readFields_eq,
        if_pos (by simp only [List.sum_cons, List.sum_nil]; omega)]
      simp only [List.sum_cons, List.sum_nil, Nat.add_zero]
      rw [ih (by omega), List.range_succ_eq_map]
      simp [Except.map, fieldsAt, wordAt, Nat.add_assoc, Nat.mul_add, Nat.add_comm,
        Function.comp_def]

theorem readBaseOffsets_refuses {message : ℕ → String} {trailer : Buffer} {i n tpos : ℕ}
    (start : tpos ≤ trailer.size) (outside : trailer.size < tpos + 4 * n) :
    Refuses (readBaseOffsets message trailer i n tpos) := by
  induction n generalizing i tpos with
  | zero => omega
  | succ n ih =>
      rw [readBaseOffsets, readFields_eq]
      by_cases first : tpos + 4 ≤ trailer.size
      · rw [if_pos (by simpa using first)]
        simp only [List.sum_cons, List.sum_nil, Nat.add_zero]
        exact (ih first (by omega)).map _
      · rw [if_neg (by simpa using first)]
        exact refuses_corruption _

/-! ## Accepted trailers -/

/-- The layout that a trailer of packed addresses starts with. -/
def packedLayoutAt (b : Buffer) (start : ℕ) : AddressColumnLayout :=
  { pageSize := wordAt b start
    bitWidth := b.byte (start + 4)
    blockGranularity := wordAt b (start + 5)
    fixedPackedSize := wordAt b (start + 9)
    lastPackedSize := wordAt b (start + 13)
    numAddressBlocks := wordAt b (start + 17) }

/-- What a trailer at an offset says about the addresses. -/
def trailerAddresses (fileVersion : UInt32) (b : Buffer) (start : ℕ) : AddressTrailer :=
  if 9 ≤ fileVersion then
    .rawTable (wordAt b (start + 4)) (wordAt b (start + 16)) (wordAt b (start + 20))
  else
    .packed (packedLayoutAt b start)
      ((List.range (packedLayoutAt b start).numAddressBlocks.toNat).map fun k =>
        wordAt b (start + 21 + 4 * k))

/-- The bytes of the fields before the footer. -/
def AddressTrailer.fieldBytes : AddressTrailer → ℕ
  | .rawTable .. => 24
  | .packed layout _ => 21 + 4 * layout.numAddressBlocks.toNat

/-- There are blocks of addresses where there are records, and only there. -/
structure CountsAgree (layout : AddressColumnLayout) (numRecords : UInt32) : Prop where
  empty : numRecords = 0 → layout.numAddressBlocks = 0 ∧ layout.lastPackedSize = 0
  some : numRecords ≠ 0 → layout.numAddressBlocks ≠ 0

/-- The fields are those of a block with `numRecords` records. -/
def FieldsAgree (fileVersion numRecords : UInt32) (b : Buffer) (start : ℕ) : Prop :=
  if 9 ≤ fileVersion then
    wordAt b start = kAddressFormatV2 ∧ wordAt b (start + 8) = 8 ∧
      wordAt b (start + 12) = numRecords
  else CountsAgree (packedLayoutAt b start) numRecords

/-- Packed addresses come in blocks that are not empty. -/
def AddressTrailer.GranularityOk : AddressTrailer → Prop
  | .rawTable .. => True
  | .packed layout _ => ¬ (0 < layout.numAddressBlocks ∧ layout.blockGranularity = 0)

/-- The size that a block says its trailer has. -/
def trailerSize (block : Buffer) : UInt32 := wordAt block (block.size - 8)

def trailerStart (block : Buffer) : ℕ := block.size - (trailerSize block).toNat

/-- What the trailer of a block says about its addresses. -/
def addressesAt (fileVersion : UInt32) (block : Buffer) : AddressTrailer :=
  trailerAddresses fileVersion block (trailerStart block)

theorem addressesAt_raw {fileVersion : UInt32} (raw : 9 ≤ fileVersion) (block : Buffer) :
    addressesAt fileVersion block =
      .rawTable (wordAt block (trailerStart block + 4)) (wordAt block (trailerStart block + 16))
        (wordAt block (trailerStart block + 20)) :=
  if_pos raw

theorem addressesAt_packed {fileVersion : UInt32} (packed : ¬ 9 ≤ fileVersion) (block : Buffer) :
    addressesAt fileVersion block =
      .packed (packedLayoutAt block (trailerStart block))
        ((List.range (packedLayoutAt block (trailerStart block)).numAddressBlocks.toNat).map
          fun k => wordAt block (trailerStart block + 21 + 4 * k)) :=
  if_neg packed

/-- A block with a trailer for `numRecords` records. -/
structure HasTrailer (fileVersion numRecords : UInt32) (block : Buffer) : Prop where
  magic : wordAt block (block.size - 4) = kBlockMagic
  inside : (trailerSize block).toNat ≤ block.size
  size : (trailerSize block).toNat = (addressesAt fileVersion block).fieldBytes + 8
  fields : FieldsAgree fileVersion numRecords block (trailerStart block)
  granularity : (addressesAt fileVersion block).GranularityOk

/-! ## Reading a trailer -/

section Reading

variable {t : Buffer} {numRecords mini : UInt32} {tpos : ℕ} {message : ℕ → String}

theorem readRawTable_ok (message : String) (inside : 24 ≤ t.size)
    (format : wordAt t 0 = kAddressFormatV2)
    (entrySize : wordAt t 8 = 8) (numEntries : wordAt t 12 = numRecords) :
    readRawTable message t numRecords =
      .ok (.rawTable (wordAt t 4) (wordAt t 16) (wordAt t 20), 24) := by
  rw [readRawTable, readFields_eq, if_pos (by simpa using inside)]
  simp only [wordAt, Nat.zero_add] at format entrySize numEntries
  simp [fieldsAt, format, entrySize, numEntries, wordAt]

theorem readRawTable_refuses (message : String)
    (bad : ¬ (24 ≤ t.size ∧ wordAt t 0 = kAddressFormatV2 ∧ wordAt t 8 = 8 ∧
      wordAt t 12 = numRecords)) : Refuses (readRawTable message t numRecords) := by
  rw [readRawTable, readFields_eq]
  by_cases inside : 24 ≤ t.size
  · rw [if_pos (by simpa using inside)]
    simp only [fieldsAt, List.getD_cons_zero, List.getD_cons_succ, Nat.zero_add]
    simp only [wordAt, Nat.zero_add, inside, true_and] at bad
    split
    · exact refuses_corruption _
    · next format =>
        split
        · exact refuses_corruption _
        · next entrySize =>
            split
            · exact refuses_corruption _
            · next numEntries =>
                exact absurd ⟨not_not.1 format, not_not.1 entrySize, not_not.1 numEntries⟩ bad
  · rw [if_neg (by simpa using inside)]
    exact refuses_corruption _

/-- The layout is read, and the offsets behind it. -/
theorem readPackedLayout_eq (inside : 21 ≤ t.size) :
    readPackedLayout message t numRecords =
      if numRecords = 0 ∧ ((packedLayoutAt t 0).numAddressBlocks ≠ 0 ∨
          (packedLayoutAt t 0).lastPackedSize ≠ 0) then
        Status.corruption "Empty cluster has invalid address layout"
      else if numRecords ≠ 0 ∧ (packedLayoutAt t 0).numAddressBlocks = 0 then
        Status.corruption "Non-empty cluster has zero address blocks"
      else
        (readBaseOffsets message t 0 (packedLayoutAt t 0).numAddressBlocks.toNat 21).map fun rest =>
          (.packed (packedLayoutAt t 0) rest.1, rest.2) := by
  have byte : UInt8.ofNat (leNat (fun j => t.byte (4 + j)) 1) = t.byte 4 := by simp [leNat]
  rw [readPackedLayout, readFields_eq, if_pos (by simpa using inside)]
  simp only [fieldsAt, List.getD_cons_zero, List.getD_cons_succ, Nat.zero_add, byte]
  simp only [packedLayoutAt, wordAt, Nat.zero_add]
  rfl

theorem readPackedLayout_ok
    (inside : 21 + 4 * (packedLayoutAt t 0).numAddressBlocks.toNat ≤ t.size)
    (counts : CountsAgree (packedLayoutAt t 0) numRecords) :
    readPackedLayout message t numRecords =
      .ok (.packed (packedLayoutAt t 0)
        ((List.range (packedLayoutAt t 0).numAddressBlocks.toNat).map fun k =>
          wordAt t (21 + 4 * k)), 21 + 4 * (packedLayoutAt t 0).numAddressBlocks.toNat) := by
  rw [readPackedLayout_eq (by omega), if_neg, if_neg, readBaseOffsets_ok inside]
  · rfl
  · exact fun none => counts.some none.1 none.2
  · rintro ⟨none, left⟩
    obtain ⟨blocks, last⟩ := counts.empty none
    exact left.elim (fun some => some blocks) fun some => some last

theorem readPackedLayout_refuses
    (bad : ¬ (21 + 4 * (packedLayoutAt t 0).numAddressBlocks.toNat ≤ t.size ∧
      CountsAgree (packedLayoutAt t 0) numRecords)) :
    Refuses (readPackedLayout message t numRecords) := by
  by_cases inside : 21 ≤ t.size
  · rw [readPackedLayout_eq inside]
    split
    · exact refuses_corruption _
    · next empty =>
        split
        · exact refuses_corruption _
        · next some =>
            refine (readBaseOffsets_refuses inside ?_).map _
            by_contra fits
            refine bad ⟨by omega, fun none => ?_, fun more blocks => some ⟨more, blocks⟩⟩
            rw [not_and_or, not_or, not_not, not_not] at empty
            exact empty.resolve_left (not_not.2 none)
  · rw [readPackedLayout, readFields_eq, if_neg (by simpa using inside)]
    exact refuses_corruption _

theorem readFooter_eq (t : Buffer) (tpos : ℕ) :
    readFields t [4, 4] tpos =
      if tpos + 8 ≤ t.size then some (fieldsAt t [4, 4] tpos, tpos + 8) else none :=
  readFields_eq t 4 [4] tpos

theorem checkFooter_ok (size : t.size = mini.toNat) (whole : tpos + 8 = mini.toNat)
    (stored : wordAt t tpos = mini) (magic : wordAt t (tpos + 4) = kBlockMagic) :
    checkFooter t mini tpos = .ok () := by
  unfold checkFooter
  rw [readFooter_eq, if_pos (by omega)]
  simp only [wordAt] at stored magic
  simp only [fieldsAt, List.getD_cons_zero, List.getD_cons_succ, stored, magic]
  rw [if_neg (by simp), if_neg (by omega)]

theorem checkFooter_refuses
    (bad : ¬ (tpos + 8 = mini.toNat ∧ wordAt t tpos = mini ∧ wordAt t (tpos + 4) = kBlockMagic)) :
    Refuses (checkFooter t mini tpos) := by
  unfold checkFooter
  rw [readFooter_eq]
  by_cases inside : tpos + 8 ≤ t.size
  · rw [if_pos inside]
    simp only [fieldsAt, List.getD_cons_zero, List.getD_cons_succ]
    split
    · exact refuses_corruption _
    · next words =>
        rw [not_or, not_not, not_not] at words
        split
        · exact refuses_corruption _
        · next whole => exact absurd ⟨not_not.1 whole, words⟩ bad
  · rw [if_neg inside]
    exact refuses_corruption _

theorem checkGranularity_ok {addresses : AddressTrailer} (granularity : addresses.GranularityOk) :
    checkGranularity addresses = .ok () := by
  cases addresses with
  | packed layout baseOffsets => exact if_neg granularity
  | rawTable => rfl

theorem checkGranularity_refuses {addresses : AddressTrailer}
    (granularity : ¬ addresses.GranularityOk) : Refuses (checkGranularity addresses) := by
  cases addresses with
  | packed layout baseOffsets =>
      rw [checkGranularity, if_pos (not_not.1 granularity)]
      exact refuses_corruption _
  | rawTable => exact absurd trivial granularity

variable {g : ReaderGeometry}

/-- The fields of a trailer are read exactly if it holds them and they agree with the entry. -/
theorem readAddresses_ok (messages : TrailerMessages)
    (inside : (trailerAddresses g.fileVersion t 0).fieldBytes ≤ t.size)
    (fields : FieldsAgree g.fileVersion numRecords t 0) :
    readAddresses messages g numRecords t =
      .ok (trailerAddresses g.fileVersion t 0,
        (trailerAddresses g.fileVersion t 0).fieldBytes) := by
  rw [readAddresses]
  by_cases raw : 9 ≤ g.fileVersion
  · rw [trailerAddresses, if_pos raw] at inside ⊢
    rw [FieldsAgree, if_pos raw] at fields
    simp only [Nat.zero_add] at fields ⊢
    rw [if_pos raw, readRawTable_ok _ inside fields.1 fields.2.1 fields.2.2]
    rfl
  · rw [trailerAddresses, if_neg raw] at inside ⊢
    rw [FieldsAgree, if_neg raw] at fields
    simp only [Nat.zero_add]
    rw [if_neg raw, readPackedLayout_ok inside fields]
    rfl

theorem readAddresses_refuses (messages : TrailerMessages)
    (bad : ¬ ((trailerAddresses g.fileVersion t 0).fieldBytes ≤ t.size ∧
      FieldsAgree g.fileVersion numRecords t 0)) :
    Refuses (readAddresses messages g numRecords t) := by
  rw [readAddresses]
  by_cases raw : 9 ≤ g.fileVersion
  · rw [trailerAddresses, FieldsAgree, if_pos raw, if_pos raw] at bad
    simp only [Nat.zero_add] at bad
    rw [if_pos raw]
    exact readRawTable_refuses _ bad
  · rw [trailerAddresses, FieldsAgree, if_neg raw, if_neg raw] at bad
    rw [if_neg raw]
    exact readPackedLayout_refuses bad

/-- A trailer of `mini` bytes that every parser accepts. -/
structure AcceptsTrailer (fileVersion numRecords : UInt32) (t : Buffer) (mini : UInt32) :
    Prop where
  size : (trailerAddresses fileVersion t 0).fieldBytes + 8 = mini.toNat
  fields : FieldsAgree fileVersion numRecords t 0
  stored : wordAt t (trailerAddresses fileVersion t 0).fieldBytes = mini
  magic : wordAt t ((trailerAddresses fileVersion t 0).fieldBytes + 4) = kBlockMagic
  granularity : (trailerAddresses fileVersion t 0).GranularityOk

/-- A trailer is read exactly if it is accepted, and refused otherwise. -/
theorem readTrailer_cases (messages : TrailerMessages) (size : t.size = mini.toNat) :
    let read := readTrailer messages g numRecords t mini
    (AcceptsTrailer g.fileVersion numRecords t mini →
        read = .ok (trailerAddresses g.fileVersion t 0)) ∧
      (¬ AcceptsTrailer g.fileVersion numRecords t mini → Refuses read) := by
  intro read
  constructor
  · intro accepts
    dsimp only [read]
    rw [readTrailer, readAddresses_ok messages (by have whole := accepts.size; omega)
      accepts.fields]
    simp only [Except.bind]
    rw [checkFooter_ok size accepts.size accepts.stored accepts.magic,
      checkGranularity_ok accepts.granularity]
    rfl
  · intro refused
    dsimp only [read]
    rw [readTrailer]
    by_cases fields : (trailerAddresses g.fileVersion t 0).fieldBytes ≤ t.size ∧
        FieldsAgree g.fileVersion numRecords t 0
    · rw [readAddresses_ok messages fields.1 fields.2]
      simp only [Except.bind]
      by_cases footer : (trailerAddresses g.fileVersion t 0).fieldBytes + 8 = mini.toNat ∧
          wordAt t (trailerAddresses g.fileVersion t 0).fieldBytes = mini ∧
            wordAt t ((trailerAddresses g.fileVersion t 0).fieldBytes + 4) = kBlockMagic
      · rw [checkFooter_ok size footer.1 footer.2.1 footer.2.2]
        refine (checkGranularity_refuses fun granularity => refused ?_).map _
        exact ⟨footer.1, fields.2, footer.2.1, footer.2.2, granularity⟩
      · exact (checkFooter_refuses footer).bind _
    · exact (readAddresses_refuses messages fields).bind _

end Reading

/-! ## The trailer of a block -/

section Trailer

variable {fileVersion numRecords : UInt32} {block : Buffer}

/-- The trailer that a block says it has. -/
def storedTrailer (block : Buffer) : Buffer := trailerOf block (trailerSize block)

theorem wordAt_trailer (off : ℕ) :
    wordAt (storedTrailer block) off = wordAt block (trailerStart block + off) := by
  simp only [wordAt, storedTrailer, trailerOf, trailerStart, Nat.add_assoc]

theorem packedLayoutAt_trailer :
    packedLayoutAt (storedTrailer block) 0 = packedLayoutAt block (trailerStart block) := by
  simp only [packedLayoutAt, wordAt_trailer, Nat.zero_add, Nat.add_zero]
  rfl

theorem trailerAddresses_trailer :
    trailerAddresses fileVersion (storedTrailer block) 0 = addressesAt fileVersion block := by
  rw [addressesAt, trailerAddresses, trailerAddresses]
  simp only [packedLayoutAt_trailer, wordAt_trailer, Nat.zero_add, Nat.add_assoc]

theorem fieldsAgree_trailer : FieldsAgree fileVersion numRecords (storedTrailer block) 0 ↔
    FieldsAgree fileVersion numRecords block (trailerStart block) := by
  rw [FieldsAgree, FieldsAgree]
  simp only [packedLayoutAt_trailer, wordAt_trailer, Nat.zero_add, Nat.add_zero]

/-- The footer of a trailer is the end of its block. -/
theorem footer_words (inside : (trailerSize block).toNat ≤ block.size) {tpos : ℕ}
    (whole : tpos + 8 = (trailerSize block).toNat) :
    wordAt (storedTrailer block) tpos = trailerSize block ∧
      wordAt (storedTrailer block) (tpos + 4) = wordAt block (block.size - 4) := by
  rw [wordAt_trailer, wordAt_trailer, trailerStart]
  constructor
  · rw [trailerSize]
    congr 1
    have size : (wordAt block (block.size - 8)).toNat = (trailerSize block).toNat := rfl
    omega
  · congr 1
    omega

/-- A block has a trailer exactly if the end of the block is a trailer that is accepted. -/
theorem hasTrailer_iff : HasTrailer fileVersion numRecords block ↔
    wordAt block (block.size - 4) = kBlockMagic ∧ (trailerSize block).toNat ≤ block.size ∧
      AcceptsTrailer fileVersion numRecords (storedTrailer block) (trailerSize block) := by
  constructor
  · rintro ⟨magic, inside, size, fields, granularity⟩
    obtain ⟨stored, same⟩ := footer_words inside size.symm
    refine ⟨magic, inside, ?_⟩
    constructor
    · rw [trailerAddresses_trailer]
      exact size.symm
    · exact fieldsAgree_trailer.2 fields
    · rw [trailerAddresses_trailer]
      exact stored
    · rw [trailerAddresses_trailer, same]
      exact magic
    · rw [trailerAddresses_trailer]
      exact granularity
  · rintro ⟨magic, inside, accepts⟩
    refine ⟨magic, inside, ?_, fieldsAgree_trailer.1 accepts.fields, ?_⟩
    · rw [← accepts.size, trailerAddresses_trailer]
    · rw [← trailerAddresses_trailer]
      exact accepts.granularity

end Trailer

end VecFetch.Storage
