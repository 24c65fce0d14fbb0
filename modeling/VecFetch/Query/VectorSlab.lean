/-
# Query.VectorSlab -- where RerankConsumer puts its copies

A consumed vector is copied behind the last one into a chunk, and a chunk that has no room
for one more is followed by a new one.  Capacities, fill marks and the test for room are 32
bits wide.  The chunk size is a product that may wrap, and that is harmless, as it is never
below one copy.  The test for room is a sum that may wrap, and that is not: the copies stay
in their chunks just if one copy more than a chunk holds still counts below `2 ^ 32`
(`slabsSafe_iff`).
-/
import VecFetch.Theory.Arena
import VecFetch.Query.PoolRun

namespace VecFetch.Query.VectorSlab

open VecFetch.Theory

set_option autoImplicit false

/-! ## The consumer -/

/-- `VectorChunk`.  `storage` is the address `std::aligned_alloc` returned. -/
structure VectorChunk where
  storage : ℕ
  capacity : UInt32
  used : UInt32 := 0

/-- `BufferedCandidate`.  `chunk` is the chunk the copy was placed in; nothing reads it. -/
structure BufferedCandidate where
  addr : AddressEntry
  vec : ℕ
  chunk : ℕ

/-- What the copies read and write of `RerankConsumer`. -/
structure RerankConsumer where
  bufferedCandidates : List BufferedCandidate := []
  vectorChunks : List VectorChunk := []

variable (dim : UInt32)

/-- `vec_bytes_`. -/
def vecBytes : UInt32 := dim * 4

/-- `aligned_vec_bytes_`. -/
def alignedVecBytes : UInt32 := (vecBytes dim + 4095) &&& ~~~4095

/-- `chunk_capacity` of `GrowVectorChunk`. -/
def chunkCapacity (minCapacity : UInt32) : UInt32 := max (alignedVecBytes dim * 1024) minCapacity

namespace RerankConsumer

/-- `GrowVectorChunk`; `raw` is what `std::aligned_alloc` returns, `none` for null. -/
def growVectorChunk (minCapacity : UInt32) (raw : Option ℕ) (r : RerankConsumer) :
    Bool × RerankConsumer :=
  match raw with
  | none => (false, r)
  | some raw =>
      (true, { r with
        vectorChunks := r.vectorChunks ++
          [{ storage := raw, capacity := chunkCapacity dim minCapacity }] })

/-- The test for room of `AllocateVectorCopy`. -/
def lacksRoom (r : RerankConsumer) : Bool :=
  match r.vectorChunks.getLast? with
  | none => true
  | some chunk => decide (chunk.capacity < chunk.used + alignedVecBytes dim)

/-- `AllocateVectorCopy`, which aborts if the chunk it needs is not allocated. -/
def allocateVectorCopy (raw : Option ℕ) (r : RerankConsumer) : Option (ℕ × RerankConsumer) :=
  let grown :=
    if r.lacksRoom dim then r.growVectorChunk dim (alignedVecBytes dim) raw else (true, r)
  if grown.1 then
    grown.2.vectorChunks.getLast?.map fun chunk =>
      (chunk.storage + chunk.used.toNat,
        { grown.2 with
          vectorChunks := grown.2.vectorChunks.dropLast ++
            [{ chunk with used := chunk.used + alignedVecBytes dim }] })
  else none

/-- `ConsumeVec`. -/
def consumeVec (addr : AddressEntry) (raw : Option ℕ) (r : RerankConsumer) :
    Option RerankConsumer :=
  (r.allocateVectorCopy dim raw).map fun copied =>
    { copied.2 with
      bufferedCandidates := copied.2.bufferedCandidates ++
        [⟨addr, copied.1, copied.2.vectorChunks.length - 1⟩] }

/-- `ConsumeAll` copies the vector as `ConsumeVec` does; its payload goes to the cache. -/
def consumeAll (addr : AddressEntry) (raw : Option ℕ) (r : RerankConsumer) :
    Option RerankConsumer :=
  r.consumeVec dim addr raw

/-- `ResetVectorChunks`. -/
def resetVectorChunks (r : RerankConsumer) : RerankConsumer :=
  { r with vectorChunks := r.vectorChunks.map fun chunk => { chunk with used := 0 } }

/-- The end of `ExecuteBuffered`, once the copies have been read. -/
def executeBuffered (r : RerankConsumer) : RerankConsumer :=
  { r with bufferedCandidates := [] }.resetVectorChunks

/-- The constructor, which does not look whether its chunk was allocated. -/
def construct (raw : Option ℕ) : RerankConsumer :=
  (growVectorChunk dim (alignedVecBytes dim * 1024) raw {}).2

/-- What `std::aligned_alloc(4096, size)` may return: null, or whole pages that no chunk
holds. -/
def MayReturn (size : UInt32) (r : RerankConsumer) : Option ℕ → Prop
  | none => True
  | some raw =>
      raw ≠ 0 ∧ 4096 ∣ raw ∧ ∀ chunk ∈ r.vectorChunks,
        raw + size.toNat ≤ chunk.storage ∨ chunk.storage + chunk.capacity.toNat ≤ raw

instance (size : UInt32) (r : RerankConsumer) (raw : Option ℕ) :
    Decidable (MayReturn size r raw) :=
  match raw with
  | none => inferInstanceAs (Decidable True)
  | some _ => inferInstanceAs (Decidable (_ ∧ _ ∧ _))

end RerankConsumer

/-- A call, with what `std::aligned_alloc` returns if it is asked. -/
inductive SlabEvent where
  | consumeVec (addr : AddressEntry) (raw : Option ℕ)
  | consumeAll (addr : AddressEntry) (raw : Option ℕ)
  | executeBuffered

def slabStep (r : RerankConsumer) : SlabEvent → Option RerankConsumer
  | .consumeVec addr raw =>
      if r.MayReturn (chunkCapacity dim (alignedVecBytes dim)) raw then r.consumeVec dim addr raw
      else none
  | .consumeAll addr raw =>
      if r.MayReturn (chunkCapacity dim (alignedVecBytes dim)) raw then r.consumeAll dim addr raw
      else none
  | .executeBuffered => some r.executeBuffered

/-! ## What is asked of the copies -/

/-- The copy lies inside the capacity of the chunk it was placed in. -/
def InsideChunk (r : RerankConsumer) (copy : BufferedCandidate) : Prop :=
  ∃ chunk, r.vectorChunks[copy.chunk]? = some chunk ∧ chunk.storage ≤ copy.vec ∧
    copy.vec + (vecBytes dim).toNat ≤ chunk.storage + chunk.capacity.toNat

/-- The two copies share no byte. -/
def Apart (c d : BufferedCandidate) : Prop :=
  c.vec + (vecBytes dim).toNat ≤ d.vec ∨ d.vec + (vecBytes dim).toNat ≤ c.vec

structure CopiesSafe (r : RerankConsumer) : Prop where
  inside : ∀ copy ∈ r.bufferedCandidates, InsideChunk dim r copy
  apart : r.bufferedCandidates.Pairwise (Apart dim)

/-- The copies are safe in every state of every run. -/
def SlabsSafe : Prop :=
  ∀ (first : Option ℕ) (events : List SlabEvent),
    RerankConsumer.MayReturn (alignedVecBytes dim * 1024) {} first →
      ∀ r ∈ states (slabStep dim) (RerankConsumer.construct dim first) events, CopiesSafe dim r

/-! ## Sizes -/

/-- The bytes of a copy, in whole pages. -/
def copyBytes : ℕ := ((vecBytes dim).toNat + 4095) / 4096 * 4096

/-- The bytes of a chunk: 1024 copies, but wrapped, and at least one. -/
def chunkBytes : ℕ := max (copyBytes dim * 1024 % 2 ^ 32) (copyBytes dim)

theorem vecBytes_le_copyBytes : (vecBytes dim).toNat ≤ copyBytes dim := by
  rw [copyBytes]
  omega

/-- Less than a page is lost to a copy. -/
theorem copyBytes_lt_vecBytes_add : copyBytes dim < (vecBytes dim).toNat + 4096 := by
  rw [copyBytes]
  omega

theorem copyBytes_le_chunkBytes : copyBytes dim ≤ chunkBytes dim := le_max_right _ _

theorem pages_dvd_chunkBytes : 4096 ∣ chunkBytes dim := by
  have copies : 4096 ∣ copyBytes dim := Nat.dvd_mul_left _ _
  have wrapped : 4096 ∣ copyBytes dim * 1024 % 2 ^ 32 :=
    (Nat.dvd_mod_iff (by decide)).2 (Nat.dvd_mul_right_of_dvd copies _)
  rw [chunkBytes]
  rcases max_choice (copyBytes dim * 1024 % 2 ^ 32) (copyBytes dim) with larger | larger
  · rwa [larger]
  · rwa [larger]

variable {dim}

theorem alignedVecBytes_toNat (fits : (vecBytes dim).toNat ≤ 2 ^ 32 - 4096) :
    (alignedVecBytes dim).toNat = copyBytes dim := by
  have aligned := Buffers.alignedSize_toNat (vecBytes dim)
  rw [Nat.mod_eq_of_lt (by omega)] at aligned
  exact aligned

theorem wanted_toNat (fits : (vecBytes dim).toNat ≤ 2 ^ 32 - 4096) :
    (alignedVecBytes dim * 1024).toNat = copyBytes dim * 1024 % 2 ^ 32 := by
  rw [UInt32.toNat_mul, alignedVecBytes_toNat fits]
  rfl

theorem max_toNat (x y : UInt32) : (max x y).toNat = max x.toNat y.toNat := by
  have larger : max x y = if x ≤ y then y else x := rfl
  rw [larger, max_def]
  split <;> simp_all [UInt32.le_iff_toNat_le]

theorem chunkCapacity_toNat (fits : (vecBytes dim).toNat ≤ 2 ^ 32 - 4096) :
    (chunkCapacity dim (alignedVecBytes dim)).toNat = chunkBytes dim := by
  rw [chunkCapacity, max_toNat, wanted_toNat fits, alignedVecBytes_toNat fits, chunkBytes]

/-! ## One copy -/

section Copy

variable {r : RerankConsumer} {addr : AddressEntry}

/-- The copy behind the last one of the last chunk. -/
def RerankConsumer.copyBehind (dim : UInt32) (addr : AddressEntry)
    (copies : List BufferedCandidate) (front : List VectorChunk) (chunk : VectorChunk) :
    RerankConsumer where
  bufferedCandidates := copies ++ [⟨addr, chunk.storage + chunk.used.toNat, front.length⟩]
  vectorChunks := front ++ [{ chunk with used := chunk.used + alignedVecBytes dim }]

/-- There is room in the last chunk. -/
theorem consumeVec_behind {front : List VectorChunk} {chunk : VectorChunk}
    (last : r.vectorChunks = front ++ [chunk]) (raw : Option ℕ)
    (room : r.lacksRoom dim = false) :
    r.consumeVec dim addr raw =
      some (.copyBehind dim addr r.bufferedCandidates front chunk) := by
  simp [RerankConsumer.consumeVec, RerankConsumer.allocateVectorCopy, room, last,
    RerankConsumer.copyBehind]

/-- There is none, and a chunk is allocated. -/
theorem consumeVec_grown (base : ℕ) (full : r.lacksRoom dim = true) :
    r.consumeVec dim addr (some base) =
      some (.copyBehind dim addr r.bufferedCandidates r.vectorChunks
        { storage := base, capacity := chunkCapacity dim (alignedVecBytes dim) }) := by
  simp [RerankConsumer.consumeVec, RerankConsumer.allocateVectorCopy, full,
    RerankConsumer.growVectorChunk, RerankConsumer.copyBehind]

/-- There is none, and none is allocated. -/
theorem consumeVec_aborts (full : r.lacksRoom dim = true) :
    r.consumeVec dim addr none = none := by
  simp [RerankConsumer.consumeVec, RerankConsumer.allocateVectorCopy, full,
    RerankConsumer.growVectorChunk]

theorem lacksRoom_append {front : List VectorChunk} {chunk : VectorChunk}
    (last : r.vectorChunks = front ++ [chunk]) :
    r.lacksRoom dim = decide (chunk.capacity < chunk.used + alignedVecBytes dim) := by
  simp [RerankConsumer.lacksRoom, last]

end Copy

/-! ## What every run keeps -/

def VectorChunk.block (chunk : VectorChunk) : Block :=
  ⟨chunk.storage, chunk.capacity.toNat, chunk.used.toNat⟩

def BufferedCandidate.piece (dim : UInt32) (copy : BufferedCandidate) : Piece :=
  ⟨copy.vec, (vecBytes dim).toNat, copy.chunk⟩

/-- The chunks as an arena, and the copies as its pieces. -/
def RerankConsumer.arena (dim : UInt32) (r : RerankConsumer) : Arena :=
  ⟨r.vectorChunks.map VectorChunk.block, r.bufferedCandidates.map (BufferedCandidate.piece dim)⟩

/-- The arena is sound, and chunks are filled by whole copies up to the size of a chunk. -/
structure SlabsOk (dim : UInt32) (r : RerankConsumer) : Prop where
  sound : (r.arena dim).Sound
  counted : ∀ chunk ∈ r.vectorChunks, copyBytes dim ∣ chunk.used.toNat ∧
    chunk.capacity.toNat ≤ chunkBytes dim

/-- One copy more than a chunk holds still counts below `2 ^ 32`. -/
def SumFits (dim : UInt32) : Prop :=
  (chunkBytes dim / copyBytes dim + 1) * copyBytes dim < 2 ^ 32

instance : Decidable (SumFits dim) := inferInstanceAs (Decidable (_ < _))

theorem SlabsOk.copiesSafe {r : RerankConsumer} (ok : SlabsOk dim r) : CopiesSafe dim r where
  inside copy held := by
    obtain ⟨b, at_copy, above, below⟩ := ok.sound.inside (List.mem_map_of_mem held)
    rw [RerankConsumer.arena, List.getElem?_map] at at_copy
    obtain ⟨chunk, at_chunk, rfl⟩ := Option.map_eq_some_iff.1 at_copy
    exact ⟨chunk, at_chunk, above, below⟩
  apart := by
    have apart := ok.sound.apart
    rw [RerankConsumer.arena, List.pairwise_map] at apart
    exact apart

/-- A fill mark and one copy more do not wrap. -/
theorem used_add_toNat {used : UInt32} (fits : (vecBytes dim).toNat ≤ 2 ^ 32 - 4096)
    (sums : SumFits dim) (whole : copyBytes dim ∣ used.toNat)
    (bounded : used.toNat ≤ chunkBytes dim) :
    (used + alignedVecBytes dim).toNat = used.toNat + copyBytes dim := by
  obtain ⟨n, counted⟩ := whole
  have few : n * copyBytes dim ≤ chunkBytes dim / copyBytes dim * copyBytes dim := by
    rcases Nat.eq_zero_or_pos (copyBytes dim) with zero | positive
    · simp [zero]
    · have held : n ≤ chunkBytes dim / copyBytes dim :=
        (Nat.le_div_iff_mul_le positive).2 (by rw [Nat.mul_comm, ← counted]; exact bounded)
      exact Nat.mul_le_mul_right _ held
  have small : used.toNat + copyBytes dim < 2 ^ 32 := by
    rw [SumFits, Nat.add_mul, Nat.one_mul] at sums
    rw [counted, Nat.mul_comm]
    omega
  rw [UInt32.toNat_add, alignedVecBytes_toNat fits, Nat.mod_eq_of_lt small]

section Steps

variable {r : RerankConsumer} {addr : AddressEntry}

theorem SlabsOk.grow (ok : SlabsOk dim r) {size : UInt32} {base : ℕ}
    (returned : r.MayReturn size (some base)) (small : size.toNat ≤ chunkBytes dim) :
    SlabsOk dim
      { r with vectorChunks := r.vectorChunks ++ [{ storage := base, capacity := size }] } where
  sound := by
    rw [RerankConsumer.arena, List.map_append]
    refine ok.sound.grow ?_
    intro b held
    obtain ⟨chunk, inChunks, rfl⟩ := List.mem_map.1 held
    exact returned.2.2 chunk inChunks
  counted chunk held := by
    rcases List.mem_append.1 held with old | is_new
    · exact ok.counted chunk old
    · obtain rfl := List.mem_singleton.1 is_new
      exact ⟨Nat.dvd_zero _, small⟩

theorem SlabsOk.copyBehind {copies : List BufferedCandidate} {front : List VectorChunk}
    {chunk : VectorChunk} (ok : SlabsOk dim ⟨copies, front ++ [chunk]⟩)
    (sum : (chunk.used + alignedVecBytes dim).toNat = chunk.used.toNat + copyBytes dim)
    (room : chunk.used.toNat + copyBytes dim ≤ chunk.capacity.toNat) :
    SlabsOk dim (.copyBehind dim addr copies front chunk) where
  sound := by
    have before : Arena.Sound ⟨front.map VectorChunk.block ++ [chunk.block],
        copies.map (BufferedCandidate.piece dim)⟩ := by
      simpa [RerankConsumer.arena] using ok.sound
    have after := before.cut (vecBytes_le_copyBytes dim) room
    simpa [RerankConsumer.arena, RerankConsumer.copyBehind, Arena.cut, VectorChunk.block,
      BufferedCandidate.piece, sum] using after
  counted c held := by
    rcases List.mem_append.1 held with old | is_new
    · exact ok.counted c (List.mem_append_left _ old)
    · obtain rfl := List.mem_singleton.1 is_new
      obtain ⟨whole, small⟩ := ok.counted chunk (by simp)
      refine ⟨?_, small⟩
      rw [sum]
      exact Nat.dvd_add whole (Nat.dvd_refl _)

theorem SlabsOk.consumeVec (fits : (vecBytes dim).toNat ≤ 2 ^ 32 - 4096) (sums : SumFits dim)
    (ok : SlabsOk dim r) {raw : Option ℕ} {r' : RerankConsumer}
    (returned : r.MayReturn (chunkCapacity dim (alignedVecBytes dim)) raw)
    (copied : r.consumeVec dim addr raw = some r') : SlabsOk dim r' := by
  have size := chunkCapacity_toNat fits
  cases full : r.lacksRoom dim with
  | true =>
      cases raw with
      | none => simp [consumeVec_aborts full] at copied
      | some base =>
          rw [consumeVec_grown base full, Option.some.injEq] at copied
          subst copied
          refine (ok.grow returned size.le).copyBehind ?_ ?_
          · exact used_add_toNat fits sums (Nat.dvd_zero _) (Nat.zero_le _)
          · have enough := copyBytes_le_chunkBytes dim
            simp only [UInt32.toNat_zero, size]
            omega
  | false =>
      rcases List.eq_nil_or_concat' r.vectorChunks with empty | ⟨front, chunk, last⟩
      · simp [RerankConsumer.lacksRoom, empty] at full
      · rw [consumeVec_behind last raw full, Option.some.injEq] at copied
        subst copied
        have ok' : SlabsOk dim ⟨r.bufferedCandidates, front ++ [chunk]⟩ := by
          rw [← last]
          exact ok
        obtain ⟨whole, small⟩ := ok'.counted chunk (by simp)
        have mark : chunk.used.toNat ≤ chunk.capacity.toNat :=
          ok'.sound.filled chunk.block (by simp [RerankConsumer.arena])
        have sum := used_add_toNat fits sums whole (mark.trans small)
        refine ok'.copyBehind sum ?_
        rw [lacksRoom_append last, decide_eq_false_iff_not, UInt32.not_lt,
          UInt32.le_iff_toNat_le, sum] at full
        exact full

/-- After a batch nothing is buffered and no chunk is used. -/
theorem SlabsOk.executeBuffered (ok : SlabsOk dim r) : SlabsOk dim r.executeBuffered where
  sound := by
    have after := ok.sound.reset
    rw [RerankConsumer.arena, List.map_map] at after
    rw [RerankConsumer.arena, RerankConsumer.executeBuffered, RerankConsumer.resetVectorChunks,
      List.map_map]
    exact after
  counted chunk held := by
    obtain ⟨old, inChunks, rfl⟩ := List.mem_map.1 held
    exact ⟨Nat.dvd_zero _, (ok.counted old inChunks).2⟩

theorem SlabsOk.step (fits : (vecBytes dim).toNat ≤ 2 ^ 32 - 4096) (sums : SumFits dim)
    (ok : SlabsOk dim r) {e : SlabEvent} {r' : RerankConsumer}
    (stepped : slabStep dim r e = some r') : SlabsOk dim r' := by
  cases e with
  | consumeVec addr raw =>
      obtain ⟨returned, copied⟩ := Option.ite_none_right_eq_some.1 stepped
      exact ok.consumeVec fits sums returned copied
  | consumeAll addr raw =>
      obtain ⟨returned, copied⟩ := Option.ite_none_right_eq_some.1 stepped
      exact ok.consumeVec fits sums returned copied
  | executeBuffered =>
      obtain rfl := Option.some.inj stepped
      exact ok.executeBuffered

/-- The first chunk, which may be smaller than one copy. -/
theorem SlabsOk.construct (fits : (vecBytes dim).toNat ≤ 2 ^ 32 - 4096) {first : Option ℕ}
    (returned : RerankConsumer.MayReturn (alignedVecBytes dim * 1024) {} first) :
    SlabsOk dim (.construct dim first) := by
  have empty : SlabsOk dim {} := ⟨Arena.sound_empty, fun _ held => absurd held List.not_mem_nil⟩
  cases first with
  | none => exact empty
  | some base =>
      refine empty.grow ⟨returned.1, returned.2.1, by simp⟩ ?_
      rw [chunkCapacity, max_toNat, wanted_toNat fits, max_self, chunkBytes]
      exact le_max_left _ _

/-- As long as the sum does not wrap, the copies of every run are safe. -/
theorem slabsSafe_of_sumFits (fits : (vecBytes dim).toNat ≤ 2 ^ 32 - 4096)
    (sums : SumFits dim) : SlabsSafe dim := by
  intro first events returned r visited
  have ok : ∀ v ∈ states (slabStep dim) (.construct dim first) events, SlabsOk dim v :=
    invariant_states (.construct fits returned) fun t taken before =>
      before.step fits sums (transition_step taken).1
  exact (ok r visited).copiesSafe

end Steps

/-! ## A chunk filled to its end -/

/-- The last chunk is of full size and holds `n` copies. -/
def HoldsCopies (dim : UInt32) (n : ℕ) (r : RerankConsumer) : Prop :=
  ∃ front chunk, r.vectorChunks = front ++ [chunk] ∧
    chunk.capacity.toNat = chunkBytes dim ∧ chunk.used.toNat = n * copyBytes dim

section Fill

variable {r : RerankConsumer} (addr : AddressEntry)

theorem copyBehind_holds {n : ℕ} {copies : List BufferedCandidate} {front : List VectorChunk}
    {chunk : VectorChunk} (full : chunk.capacity.toNat = chunkBytes dim)
    (sum : (chunk.used + alignedVecBytes dim).toNat = n * copyBytes dim) :
    HoldsCopies dim n (.copyBehind dim addr copies front chunk) :=
  ⟨front, _, rfl, full, sum⟩

/-- The step without an allocation. -/
theorem step_null : slabStep dim r (.consumeVec addr none) = r.consumeVec dim addr none := by
  have null : r.MayReturn (chunkCapacity dim (alignedVecBytes dim)) none := trivial
  rw [slabStep, if_pos null]

/-- One more copy that the chunk has room for. -/
theorem HoldsCopies.next (fits : (vecBytes dim).toNat ≤ 2 ^ 32 - 4096) {n : ℕ}
    (holds : HoldsCopies dim n r) (room : (n + 1) * copyBytes dim ≤ chunkBytes dim) :
    ∃ r', slabStep dim r (.consumeVec addr none) = some r' ∧ HoldsCopies dim (n + 1) r' := by
  obtain ⟨front, chunk, last, full, used⟩ := holds
  have width := chunk.capacity.toNat_lt
  have sum : (chunk.used + alignedVecBytes dim).toNat = (n + 1) * copyBytes dim := by
    rw [UInt32.toNat_add, alignedVecBytes_toNat fits, used, ← Nat.add_one_mul, Nat.mod_eq_of_lt]
    omega
  have roomy : r.lacksRoom dim = false := by
    rw [lacksRoom_append last, decide_eq_false_iff_not, UInt32.not_lt, UInt32.le_iff_toNat_le,
      sum, full]
    exact room
  refine ⟨_, (step_null addr).trans (consumeVec_behind last none roomy), ?_⟩
  exact copyBehind_holds addr full sum

/-- The copies that a chunk has room for. -/
theorem HoldsCopies.run (fits : (vecBytes dim).toNat ≤ 2 ^ 32 - 4096) {n : ℕ} (m : ℕ)
    (holds : HoldsCopies dim n r) (room : (n + m) * copyBytes dim ≤ chunkBytes dim) :
    ∃ r', run (slabStep dim) r (List.replicate m (.consumeVec addr none)) = some r' ∧
      HoldsCopies dim (n + m) r' := by
  induction m generalizing n r with
  | zero => exact ⟨r, rfl, holds⟩
  | succ m ih =>
      have fewer : (n + 1) * copyBytes dim ≤ (n + (m + 1)) * copyBytes dim :=
        Nat.mul_le_mul_right _ (by omega)
      obtain ⟨next, stepped, held⟩ := holds.next addr fits (fewer.trans room)
      obtain ⟨r', ran, held'⟩ := ih held (by rwa [Nat.add_right_comm])
      refine ⟨r', ?_, by rwa [Nat.add_right_comm] at held'⟩
      rw [List.replicate_succ, Theory.run, stepped]
      exact ran

/-- The first copy goes to a chunk of full size, allocated now if the first one is short. -/
theorem first_copy (fits : (vecBytes dim).toNat ≤ 2 ^ 32 - 4096) :
    ∃ r', slabStep dim (.construct dim (some 4096)) (.consumeVec addr (some (2 ^ 33))) =
        some r' ∧ HoldsCopies dim 1 r' := by
  have size : (chunkCapacity dim (alignedVecBytes dim * 1024)).toNat =
      copyBytes dim * 1024 % 2 ^ 32 := by
    rw [chunkCapacity, max_toNat, max_self, wanted_toNat fits]
  have sum : ((0 : UInt32) + alignedVecBytes dim).toNat = 1 * copyBytes dim := by
    rw [UInt32.zero_add, alignedVecBytes_toNat fits, Nat.one_mul]
  have returned : RerankConsumer.MayReturn (chunkCapacity dim (alignedVecBytes dim))
      (.construct dim (some 4096)) (some (2 ^ 33)) := by
    refine ⟨by decide, by decide, ?_⟩
    intro chunk held
    obtain rfl := List.mem_singleton.1 held
    refine .inr ?_
    dsimp only
    omega
  rw [slabStep, if_pos returned]
  have last : (RerankConsumer.construct dim (some 4096)).vectorChunks =
      [] ++ [{ storage := 4096, capacity := chunkCapacity dim (alignedVecBytes dim * 1024) }] :=
    rfl
  cases full : (RerankConsumer.construct dim (some 4096)).lacksRoom dim with
  | true =>
      exact ⟨_, consumeVec_grown _ full, copyBehind_holds addr (chunkCapacity_toNat fits) sum⟩
  | false =>
      refine ⟨_, consumeVec_behind last _ full, copyBehind_holds addr ?_ sum⟩
      rw [lacksRoom_append last, decide_eq_false_iff_not, UInt32.not_lt, UInt32.le_iff_toNat_le,
        size, sum] at full
      rw [size, chunkBytes, max_eq_left (by omega)]

/-- The copy after the last one there is room for is taken to fit, and does not. -/
theorem HoldsCopies.overrun (fits : (vecBytes dim).toNat ≤ 2 ^ 32 - 4096) {n : ℕ}
    (holds : HoldsCopies dim n r) (few : n * copyBytes dim ≤ chunkBytes dim)
    (wraps : 2 ^ 32 ≤ (n + 1) * copyBytes dim) :
    ∃ r', slabStep dim r (.consumeVec addr none) = some r' ∧ ¬ CopiesSafe dim r' := by
  obtain ⟨front, chunk, last, full, used⟩ := holds
  have width := chunk.capacity.toNat_lt
  have pages := copyBytes_lt_vecBytes_add dim
  rw [Nat.add_one_mul] at wraps
  have roomy : r.lacksRoom dim = false := by
    rw [lacksRoom_append last, decide_eq_false_iff_not, UInt32.not_lt, UInt32.le_iff_toNat_le,
      UInt32.toNat_add, alignedVecBytes_toNat fits, used, full]
    omega
  refine ⟨_, (step_null addr).trans (consumeVec_behind last none roomy), fun safe => ?_⟩
  obtain ⟨c, at_copy, -, below⟩ :=
    safe.inside _ (List.mem_append_right _ (List.mem_singleton_self _))
  obtain rfl := Option.some.inj (List.getElem?_concat_length.symm.trans at_copy)
  obtain ⟨m, counted⟩ := pages_dvd_chunkBytes dim
  dsimp only at below
  omega

end Fill

/-- If the sum wraps, some run overruns a chunk. -/
theorem sumFits_of_slabsSafe (fits : (vecBytes dim).toNat ≤ 2 ^ 32 - 4096)
    (safe : SlabsSafe dim) : SumFits dim := by
  by_contra wraps
  rw [SumFits, Nat.not_lt] at wraps
  have positive : 0 < copyBytes dim := by
    by_contra zero
    simp [Nat.eq_zero_of_not_pos zero] at wraps
  have some_fit : 1 ≤ chunkBytes dim / copyBytes dim :=
    (Nat.le_div_iff_mul_le positive).2 (by simpa using copyBytes_le_chunkBytes dim)
  have few := Nat.div_mul_le_self (chunkBytes dim) (copyBytes dim)
  generalize chunkBytes dim / copyBytes dim = n at wraps some_fit few
  let addr : AddressEntry := ⟨0, 0⟩
  obtain ⟨r₁, stepped, holds⟩ := first_copy addr fits
  obtain ⟨r₂, ran, holds'⟩ := holds.run addr fits (n - 1)
    (by rwa [Nat.add_sub_cancel' some_fit])
  rw [Nat.add_sub_cancel' some_fit] at holds'
  obtain ⟨r₃, stepped', broken⟩ := holds'.overrun addr fits few wraps
  refine broken (safe (some 4096)
    (.consumeVec addr (some (2 ^ 33)) ::
      (List.replicate (n - 1) (.consumeVec addr none) ++ [.consumeVec addr none])) ?_ r₃ ?_)
  · exact ⟨by decide, by decide, by simp⟩
  · refine run_mem_states ?_
    rw [Theory.run, stepped, Option.bind_some, run_append, ran, Option.bind_some, Theory.run,
      stepped']
    rfl

/-- Up to 1024 pages a copy the sum does not wrap, whatever the product does. -/
theorem sumFits_of_pages (small : copyBytes dim ≤ 2 ^ 22) : SumFits dim := by
  have pages : 4096 ∣ copyBytes dim := Nat.dvd_mul_left _ _
  rw [SumFits, chunkBytes]
  generalize copyBytes dim = a at small pages
  rcases Nat.eq_zero_or_pos a with rfl | positive
  · decide
  rcases Nat.lt_or_ge a (2 ^ 22) with fewer | exactly
  · rw [Nat.mod_eq_of_lt (by omega), max_eq_left (by omega), Nat.mul_div_cancel_left _ positive]
    omega
  · obtain rfl : a = 2 ^ 22 := by omega
    decide

/-- Vectors of up to `2 ^ 20` components are safe. -/
theorem slabsSafe_of_small (small : dim.toNat ≤ 2 ^ 20) : SlabsSafe dim := by
  have bytes : (vecBytes dim).toNat = dim.toNat * 4 := by
    rw [vecBytes, UInt32.toNat_mul]
    exact Nat.mod_eq_of_lt (by simp only [UInt32.reduceToNat]; omega)
  refine slabsSafe_of_sumFits (by omega) (sumFits_of_pages ?_)
  rw [copyBytes]
  omega

/-- **Copies stay in their chunks, and apart, just if the test for room never wraps.** -/
theorem slabsSafe_iff (dim : UInt32) (fits : (vecBytes dim).toNat ≤ 2 ^ 32 - 4096) :
    SlabsSafe dim ↔ SumFits dim :=
  ⟨sumFits_of_slabsSafe fits, slabsSafe_of_sumFits fits⟩

theorem slabsSafe_768 : SlabsSafe 768 :=
  (slabsSafe_iff 768 (by decide)).2 (by decide)

/-- Of vectors of 12578816 bytes, 341 fill a chunk, and the next one is copied beyond it. -/
theorem slabs_overrun :
    (vecBytes 3144704).toNat = 4 * 3144704 ∧ 4 * 3144704 ≤ 2 ^ 32 - 4096 ∧
      ¬ SlabsSafe 3144704 := by
  refine ⟨by decide, by decide, fun safe => ?_⟩
  have sums := sumFits_of_slabsSafe (by decide) safe
  exact absurd sums (by decide)

end VecFetch.Query.VectorSlab
