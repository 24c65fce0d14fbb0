/-
# Query.Ownership -- every slot id and every buffer has one owner

A slot id is in use or once in the free list.  A buffer is with one slot in use, in its
own free list or pool, or with the rerank consumer.  Between two of the scheduler's
operations a buffer is in nobody's hands but the caller's: `Balanced hand` counts the
buffers with what the caller holds, and each operation moves a buffer into or out of
the hand.
-/
import VecFetch.Query.Buffers
import Mathlib.Data.List.Perm.Basic

namespace VecFetch.Query.Buffers

open VecFetch.Theory

set_option autoImplicit false

namespace PendingSlot

/-- The buffer a slot in use holds with this cleanup. -/
def holds (cleanup : PendingBufferCleanup) (slot : PendingSlot) : Option Address :=
  if slot.inUse ∧ slot.cleanup = cleanup then slot.buffer else none

/-- The fixed buffer index a slot in use holds. -/
def holdsFixed (slot : PendingSlot) : Option UInt16 :=
  if slot.inUse ∧ slot.cleanup = .fixedVec then some slot.fixedBufferIndex else none

theorem holds_unused {slot : PendingSlot} (unused : slot.inUse = false)
    (cleanup : PendingBufferCleanup) : slot.holds cleanup = none := by
  simp [holds, unused]

theorem holdsFixed_unused {slot : PendingSlot} (unused : slot.inUse = false) :
    slot.holdsFixed = none := by
  simp [holdsFixed, unused]

end PendingSlot

/-- What the caller holds between two operations. -/
structure Hand where
  vecOnly : List Address := []
  fixed : List UInt16 := []
  pooled : List Address := []

/-- The buffer of a slot with this cleanup, in the caller's hand. -/
def Hand.of (cleanup : PendingBufferCleanup) (buf : Address) (index : UInt16) : Hand :=
  match cleanup with
  | .vecPool => { vecOnly := [buf] }
  | .fixedVec => { fixed := [index] }
  | .pool => { pooled := [buf] }
  | _ => {}

/-- How many owners an index has: one, below the number of fixed buffers. -/
def fixedShare (count : Nat) (index : UInt16) : Nat := if index.toNat < count then 1 else 0

namespace BufferState

/-- The pool knows the buffer as outstanding. -/
def isOutstanding (buf : Address) (q : BufferState) : Prop :=
  ∃ cap, (buf, cap) ∈ q.bufferPool.outstanding

/-- The buffer of a slot in use fits its cleanup. -/
def Fits (cleanup : PendingBufferCleanup) (buf : Address) (index : UInt16) (q : BufferState) :
    Prop :=
  match cleanup with
  | .pool => q.isOutstanding buf
  | .vecPool => True
  | .fixedVec => q.fixedVecBuffers[index.toNat]? = some buf
  | _ => False

/-- A slot in use holds a buffer, and a payload read's buffer is the pool's. -/
structure SlotOk (q : BufferState) (slot : PendingSlot) : Prop where
  buffer : ∃ buf, slot.buffer = some buf ∧ q.Fits slot.cleanup buf slot.fixedBufferIndex
  payload : slot.io.type = .payload → slot.cleanup = .pool

/-- The books of the scheduler, with what the caller holds. -/
structure Balanced (hand : Hand) (q : BufferState) : Prop where
  slots_le : q.pendingSlots.length ≤ 2 ^ 32
  free_iff : ∀ id : UInt32, id ∈ q.freePendingSlots ↔
    ∃ slot, q.pendingSlots[id.toNat]? = some slot ∧ slot.inUse = false
  free_nodup : q.freePendingSlots.Nodup
  vecOnly : ∀ buf, (held (PendingSlot.holds .vecPool) q.pendingSlots).count buf +
    q.freeVecOnlyBuffers.count buf + hand.vecOnly.count buf = q.vecOnlyOwnedBuffers.count buf
  fixed : ∀ index : UInt16, (held PendingSlot.holdsFixed q.pendingSlots).count index +
    q.freeFixedVecBuffers.count index + hand.fixed.count index =
      fixedShare q.fixedVecBuffers.length index
  pooled : ∀ buf, (held (PendingSlot.holds .pool) q.pendingSlots).count buf +
    (q.bufferPool.pool.map PoolEntry.buf).count buf +
    (q.payloadCache.map Prod.snd).count buf + hand.pooled.count buf = q.allocated.count buf
  distinct : q.live.Nodup
  keys : (q.payloadCache.map Prod.fst).Nodup
  slot_ok : ∀ slot ∈ q.pendingSlots, slot.inUse = true → q.SlotOk slot

variable {hand : Hand} {q : BufferState}

/-! ## The slot table -/

/-- The place `AllocatePendingSlot` takes: a slot that was not in use. -/
theorem allocatePendingSlot_spec (ok : Balanced hand q)
    (room : q.freePendingSlots = [] → q.pendingSlots.length < 2 ^ 32) (io : PendingIO)
    (buffer : Address) (cleanup : PendingBufferCleanup) (index : UInt16) :
    ∃ id base free old,
      q.allocatePendingSlot io buffer cleanup index =
        (id, { q with
          pendingSlots := base.set id.toNat ⟨true, some buffer, index, cleanup, io⟩
          freePendingSlots := free }) ∧
      base[id.toNat]? = some old ∧ old.inUse = false ∧ base.length ≤ 2 ^ 32 ∧
      (base = q.pendingSlots ∧ q.freePendingSlots.getLast? = some id ∨
        base = q.pendingSlots ++ [({} : PendingSlot)] ∧ id.toNat = q.pendingSlots.length) ∧
      free.Nodup ∧
      (∀ other : UInt32, other ∈ free ↔
        other ≠ id ∧ ∃ slot, base[other.toNat]? = some slot ∧ slot.inUse = false) := by
  unfold allocatePendingSlot
  split
  · rename_i id last
    obtain ⟨front, split⟩ := List.getLast?_eq_some_iff.1 last
    have inFree : id ∈ q.freePendingSlots := by rw [split]; simp
    obtain ⟨old, at_id, unused⟩ := (ok.free_iff id).1 inFree
    have nodup := ok.free_nodup
    rw [split, List.nodup_append] at nodup
    have front_eq : q.freePendingSlots.dropLast = front := by rw [split, List.dropLast_concat]
    refine ⟨id, q.pendingSlots, front, old, by rw [front_eq], at_id, unused, ok.slots_le,
      Or.inl ⟨rfl, last⟩, nodup.1, ?_⟩
    intro other
    rw [← ok.free_iff other, split]
    constructor
    · intro mem
      exact ⟨nodup.2.2 other mem id (by simp), by simp [mem]⟩
    · intro ⟨differs, mem⟩
      simpa [differs] using mem
  · rename_i last
    have noFree : q.freePendingSlots = [] := List.getLast?_eq_none_iff.1 last
    have small := room noFree
    have id_eq : (UInt32.ofNat q.pendingSlots.length).toNat = q.pendingSlots.length := by
      rw [UInt32.toNat_ofNat']
      exact Nat.mod_eq_of_lt small
    refine ⟨UInt32.ofNat q.pendingSlots.length, q.pendingSlots ++ [({} : PendingSlot)], q.freePendingSlots, {},
      rfl, ?_, rfl, ?_, Or.inr ⟨rfl, id_eq⟩, ok.free_nodup, ?_⟩
    · rw [id_eq, List.getElem?_concat_length]
    · rw [List.length_append, List.length_singleton]
      omega
    · intro other
      rw [noFree]
      constructor
      · intro mem
        cases mem
      · intro ⟨differs, slot, at_other, unused⟩
        have bound : other.toNat < q.pendingSlots.length := by
          obtain ⟨lt, -⟩ := List.getElem?_eq_some_iff.1 at_other
          rw [List.length_append, List.length_singleton] at lt
          have ne : other.toNat ≠ q.pendingSlots.length := by
            intro same
            exact differs (UInt32.toNat_inj.1 (same.trans id_eq.symm))
          omega
        rw [List.getElem?_append_left bound] at at_other
        have mem := (ok.free_iff other).2 ⟨slot, at_other, unused⟩
        rw [noFree] at mem
        cases mem

/-- A new slot at the end holds nothing. -/
theorem count_held_new {A : Type} [BEq A] (holds : PendingSlot → Option A)
    (empty : holds {} = none) (slots : List PendingSlot) (a : A) :
    (held holds (slots ++ [({} : PendingSlot)])).count a = (held holds slots).count a := by
  rw [count_held_append, count_held_cons, empty]
  rfl

/-- **A read gets its slot**: the buffer in hand goes to the slot. -/
theorem Balanced.allocatePendingSlot {cleanup : PendingBufferCleanup} {buf : Address}
    {index : UInt16} (ok : Balanced (Hand.of cleanup buf index) q)
    (room : q.freePendingSlots = [] → q.pendingSlots.length < 2 ^ 32) (io : PendingIO)
    (fits : q.Fits cleanup buf index) (payload : io.type = .payload → cleanup = .pool) :
    Balanced {} (q.allocatePendingSlot io buf cleanup index).2 := by
  obtain ⟨id, base, free, old, allocated, at_id, unused, base_le, place, free_nodup, free_iff⟩ :=
    allocatePendingSlot_spec ok room io buf cleanup index
  have counted : ∀ (A : Type) [BEq A] (holds : PendingSlot → Option A)
      (_ : ∀ slot : PendingSlot, slot.inUse = false → holds slot = none) (a : A),
      (held holds (base.set id.toNat ⟨true, some buf, index, cleanup, io⟩)).count a =
        (held holds q.pendingSlots).count a +
          (holds ⟨true, some buf, index, cleanup, io⟩).toList.count a := by
    intro A _ holds none_unused a
    have moved := count_held_set holds at_id ⟨true, some buf, index, cleanup, io⟩ a
    rw [none_unused old unused] at moved
    rcases place with ⟨rfl, -⟩ | ⟨rfl, -⟩
    · simpa using moved
    · rw [count_held_new holds (none_unused {} rfl)] at moved
      simpa using moved
  rw [allocated]
  refine ⟨by rw [List.length_set]; exact base_le, ?_, free_nodup, ?_, ?_, ?_, ok.distinct, ok.keys,
    ?_⟩
  · intro other
    rw [free_iff other]
    by_cases same : other = id
    · subst same
      obtain ⟨bound, -⟩ := List.getElem?_eq_some_iff.1 at_id
      simp [List.getElem?_set_self bound]
    · have differs : id.toNat ≠ other.toNat := by
        intro eq
        exact same (UInt32.toNat_inj.1 eq.symm)
      rw [List.getElem?_set_ne differs]
      exact ⟨fun h => h.2, fun h => ⟨same, h⟩⟩
  · intro a
    have before := ok.vecOnly a
    have after := counted _ (PendingSlot.holds .vecPool)
      (fun slot h => PendingSlot.holds_unused h _) a
    cases cleanup <;> simp [Hand.of, PendingSlot.holds] at before after ⊢ <;> omega
  · intro i
    have before := ok.fixed i
    have after := counted _ PendingSlot.holdsFixed (fun slot h => PendingSlot.holdsFixed_unused h) i
    cases cleanup <;> simp [Hand.of, PendingSlot.holdsFixed] at before after ⊢ <;> omega
  · intro a
    have before := ok.pooled a
    have after := counted _ (PendingSlot.holds .pool) (fun slot h => PendingSlot.holds_unused h _) a
    cases cleanup <;> simp [Hand.of, PendingSlot.holds] at before after ⊢ <;> omega
  · intro slot mem used
    rcases List.mem_or_eq_of_mem_set mem with inBase | rfl
    · have inSlots : slot ∈ q.pendingSlots := by
        rcases place with ⟨rfl, -⟩ | ⟨rfl, -⟩
        · exact inBase
        · rcases List.mem_append.1 inBase with h | h
          · exact h
          · rw [List.mem_singleton] at h
            rw [h] at used
            cases used
      exact ⟨(ok.slot_ok slot inSlots used).buffer, (ok.slot_ok slot inSlots used).payload⟩
    · exact ⟨⟨buf, rfl, fits⟩, payload⟩

/-- Clear a slot and list its id as free. -/
def vacate (slotId : UInt32) (q : BufferState) : BufferState :=
  { q with
    pendingSlots := q.pendingSlots.set slotId.toNat {}
    freePendingSlots := q.freePendingSlots ++ [slotId] }

/-- **A slot is cleared**: its buffer comes to the caller's hand. -/
theorem Balanced.vacate (ok : Balanced {} q) {id : UInt32} {slot : PendingSlot} {buf : Address}
    (at_id : q.pendingSlots[id.toNat]? = some slot) (used : slot.inUse = true)
    (holding : slot.buffer = some buf) :
    Balanced (Hand.of slot.cleanup buf slot.fixedBufferIndex) (q.vacate id) := by
  obtain ⟨bound, -⟩ := List.getElem?_eq_some_iff.1 at_id
  have notFree : id ∉ q.freePendingSlots := by
    intro mem
    obtain ⟨other, at_other, unused⟩ := (ok.free_iff id).1 mem
    rw [at_id, Option.some.injEq] at at_other
    rw [at_other, unused] at used
    cases used
  refine ⟨by simpa [BufferState.vacate] using ok.slots_le, ?_, ?_, ?_, ?_, ?_, ok.distinct, ok.keys,
    ?_⟩
  · intro other
    by_cases same : other = id
    · subst same
      simp [BufferState.vacate, List.getElem?_set_self bound]
    · have differs : id.toNat ≠ other.toNat := by
        intro eq
        exact same (UInt32.toNat_inj.1 eq.symm)
      simp only [BufferState.vacate, List.mem_append, List.mem_singleton, same, or_false]
      rw [List.getElem?_set_ne differs]
      exact ok.free_iff other
  · exact List.nodup_append.2 ⟨ok.free_nodup, by simp, by
      intro a mem b isId
      rw [List.mem_singleton.1 isId]
      intro eq
      exact notFree (eq ▸ mem)⟩
  · intro a
    have before := ok.vecOnly a
    have after := count_held_set (PendingSlot.holds .vecPool) at_id {} a
    cases kind : slot.cleanup <;>
      simp [BufferState.vacate, Hand.of, PendingSlot.holds, used, holding, kind]
        at before after ⊢ <;> omega
  · intro i
    have before := ok.fixed i
    have after := count_held_set PendingSlot.holdsFixed at_id {} i
    cases kind : slot.cleanup <;>
      simp [BufferState.vacate, Hand.of, PendingSlot.holdsFixed, used, kind]
        at before after ⊢ <;> omega
  · intro a
    have before := ok.pooled a
    have after := count_held_set (PendingSlot.holds .pool) at_id {} a
    cases kind : slot.cleanup <;>
      simp [BufferState.vacate, Hand.of, PendingSlot.holds, used, holding, kind]
        at before after ⊢ <;> omega
  · intro other mem otherUsed
    rcases List.mem_or_eq_of_mem_set mem with inSlots | rfl
    · exact ⟨(ok.slot_ok other inSlots otherUsed).buffer, (ok.slot_ok other inSlots otherUsed).payload⟩
    · cases otherUsed

/-! ## Giving buffers back -/

/-- What a slot needs of the state: the outstanding buffers and the fixed ones. -/
theorem SlotOk.keep {q' : BufferState} {slot : PendingSlot} (ok : q.SlotOk slot)
    (outstanding : ∀ buf, slot.cleanup = .pool → slot.buffer = some buf → q.isOutstanding buf →
      q'.isOutstanding buf)
    (fixed : q'.fixedVecBuffers = q.fixedVecBuffers) : q'.SlotOk slot := by
  obtain ⟨buf, holding, fits⟩ := ok.buffer
  refine ⟨⟨buf, holding, ?_⟩, ok.payload⟩
  cases kind : slot.cleanup with
  | pool =>
      rw [kind] at fits
      exact outstanding buf kind holding fits
  | vecPool => trivial
  | fixedVec =>
      rw [kind] at fits
      rw [Fits, fixed]
      exact fits
  | none =>
      rw [kind] at fits
      exact fits
  | free =>
      rw [kind] at fits
      exact fits

/-- No buffer of the pool is held twice. -/
theorem Balanced.allocated_le (ok : Balanced hand q) (buf : Address) :
    q.allocated.count buf ≤ 1 := by
  have nodup := (List.nodup_append.1 ok.distinct).2.1
  exact List.nodup_iff_count.1 nodup buf

/-- A slot in use with a pooled buffer counts among the holders. -/
theorem count_holds_pos {slot : PendingSlot} {buf : Address} (mem : slot ∈ q.pendingSlots)
    (used : slot.inUse = true) (holding : slot.buffer = some buf) :
    0 < (held (PendingSlot.holds slot.cleanup) q.pendingSlots).count buf := by
  apply count_held_pos _ mem
  simp [PendingSlot.holds, used, holding]

/-- `Release` of an outstanding buffer puts it in the pool, once. -/
theorem release_spec {buf : Address} (outstanding : q.isOutstanding buf) :
    ∃ cap, q.bufferPool.release buf =
      { pool := q.bufferPool.pool ++ [⟨buf, cap⟩]
        outstanding := q.bufferPool.outstanding.filter fun held => held.1 ≠ buf } := by
  obtain ⟨cap, mem⟩ := outstanding
  unfold BufferPool.release
  cases found : q.bufferPool.outstanding.find? fun held => held.1 == buf with
  | none =>
      have absent := List.find?_eq_none.1 found _ mem
      simp at absent
  | some entry => exact ⟨entry.2, rfl⟩

/-- **A buffer is given back**: it leaves the caller's hand. -/
theorem Balanced.giveBack {cleanup : PendingBufferCleanup} {buf : Address} {index : UInt16}
    (ok : Balanced (Hand.of cleanup buf index) q) (fits : q.Fits cleanup buf index) :
    Balanced {} (q.giveBack cleanup buf index) := by
  cases cleanup with
  | none => exact fits.elim
  | free => exact fits.elim
  | vecPool =>
      refine { ok with vecOnly := ?_, slot_ok := ?_ }
      · intro a
        have before := ok.vecOnly a
        simp only [Hand.of, BufferState.giveBack, releaseVecOnlyBuffer, List.count_append,
          List.count_nil] at before ⊢
        omega
      · intro slot mem used
        exact (ok.slot_ok slot mem used).keep (fun _ _ _ h => h) rfl
  | fixedVec =>
      refine { ok with fixed := ?_, slot_ok := ?_ }
      · intro i
        have before := ok.fixed i
        simp only [Hand.of, BufferState.giveBack, releaseFixedVecBuffer, List.count_append,
          List.count_nil] at before ⊢
        omega
      · intro slot mem used
        exact (ok.slot_ok slot mem used).keep (fun _ _ _ h => h) rfl
  | pool =>
      obtain ⟨cap, released⟩ := release_spec fits
      have given : q.giveBack .pool buf index = { q with bufferPool := ⟨q.bufferPool.pool ++
          [⟨buf, cap⟩], q.bufferPool.outstanding.filter fun held => held.1 ≠ buf⟩ } := by
        rw [BufferState.giveBack, released]
      rw [given]
      refine { ok with pooled := ?_, slot_ok := ?_ }
      · intro a
        have before := ok.pooled a
        simp only [Hand.of, List.map_append, List.map_cons, List.map_nil, List.count_append,
          List.count_nil] at before ⊢
        omega
      · intro slot mem used
        refine (ok.slot_ok slot mem used).keep ?_ rfl
        intro other kind holding ⟨otherCap, known⟩
        have differs : other ≠ buf := by
          intro same
          have inSlot : 0 < (held (PendingSlot.holds slot.cleanup) q.pendingSlots).count other :=
            count_holds_pos mem used holding
          have books := ok.pooled other
          have once := ok.allocated_le other
          rw [kind] at inSlot
          rw [same] at inSlot books once
          simp only [Hand.of, List.count_cons_self, List.count_nil] at books
          omega
        exact ⟨otherCap, List.mem_filter.2 ⟨known, by simpa using differs⟩⟩

/-- Giving a buffer back and clearing a slot touch different fields. -/
theorem giveBack_slots (cleanup : PendingBufferCleanup) (buf : Address) (index : UInt16)
    (slots : List PendingSlot) (free : List UInt32) :
    ({ q with pendingSlots := slots, freePendingSlots := free } : BufferState).giveBack cleanup buf
        index =
      { q.giveBack cleanup buf index with pendingSlots := slots, freePendingSlots := free } := by
  cases cleanup <;> rfl

/-- The slots, the reads and what the consumer got are the same. -/
structure SameTable (q q' : BufferState) : Prop where
  slots : q'.pendingSlots = q.pendingSlots
  free : q'.freePendingSlots = q.freePendingSlots
  reads : q'.reads = q.reads
  delivered : q'.delivered = q.delivered

theorem giveBack_table (cleanup : PendingBufferCleanup) (buf : Address) (index : UInt16)
    (q : BufferState) : SameTable q (q.giveBack cleanup buf index) := by
  cases cleanup <;> exact ⟨rfl, rfl, rfl, rfl⟩

/-- A slot in use, as the dispatch finds it. -/
structure SlotAt (q : BufferState) (id : UInt32) (slot : PendingSlot) (buf : Address) : Prop where
  at_id : q.pendingSlots[id.toNat]? = some slot
  used : slot.inUse = true
  holding : slot.buffer = some buf

theorem SlotAt.vacate_giveBack {id : UInt32} {slot : PendingSlot} {buf : Address}
    (here : q.SlotAt id slot buf) (ok : Balanced {} q) :
    Balanced {} ((q.vacate id).giveBack slot.cleanup buf slot.fixedBufferIndex) := by
  have cleared := ok.vacate here.at_id here.used here.holding
  obtain ⟨other, holding, fits⟩ :=
    (ok.slot_ok slot (List.mem_of_getElem? here.at_id) here.used).buffer
  rw [here.holding, Option.some.injEq] at holding
  subst holding
  exact cleared.giveBack fits

theorem SlotAt.releaseVectorOnly {id : UInt32} {slot : PendingSlot} {buf : Address}
    (here : q.SlotAt id slot buf) :
    q.releaseVectorOnlyPendingSlot id =
      (q.vacate id).giveBack slot.cleanup buf slot.fixedBufferIndex := by
  have same := giveBack_table slot.cleanup buf slot.fixedBufferIndex q
  rw [BufferState.vacate, giveBack_slots, releaseVectorOnlyPendingSlot, here.at_id]
  simp only [here.used, if_true, here.holding, same.slots, same.free]

theorem SlotAt.cleanup_release {id : UInt32} {slot : PendingSlot} {buf : Address}
    (here : q.SlotAt id slot buf) :
    (q.cleanupPendingSlot id).releasePendingSlot id =
      (q.vacate id).giveBack slot.cleanup buf slot.fixedBufferIndex := by
  have same := giveBack_table slot.cleanup buf slot.fixedBufferIndex q
  obtain ⟨bound, -⟩ := List.getElem?_eq_some_iff.1 here.at_id
  rw [BufferState.vacate, giveBack_slots, cleanupPendingSlot, here.at_id]
  simp only [here.used, here.holding, same.slots]
  rw [releasePendingSlot, if_neg (by simpa using bound)]
  simp only [List.set_set, same.free]

/-! ## Taking a buffer -/

/-- `AcquireVecOnlyBuffer` puts a vec-only buffer in the caller's hand. -/
theorem Balanced.acquireVecOnlyBuffer (ok : Balanced {} q) {fresh : Address}
    (unused : fresh ∉ q.live) :
    Balanced (Hand.of .vecPool (q.acquireVecOnlyBuffer fresh).1 0)
      (q.acquireVecOnlyBuffer fresh).2 := by
  unfold BufferState.acquireVecOnlyBuffer
  split
  · rename_i buf last
    obtain ⟨front, split⟩ := List.getLast?_eq_some_iff.1 last
    refine { ok with vecOnly := ?_, slot_ok := ?_ }
    · intro a
      have before := ok.vecOnly a
      rw [split] at before
      simp only [Hand.of, split, List.dropLast_concat, List.count_append, List.count_nil]
        at before ⊢
      omega
    · intro slot mem used
      exact (ok.slot_ok slot mem used).keep (fun _ _ _ h => h) rfl
  · refine { ok with vecOnly := ?_, distinct := ?_, slot_ok := ?_ }
    · intro a
      have before := ok.vecOnly a
      simp only [Hand.of, List.count_append, List.count_nil] at before ⊢
      omega
    · have nodup := ok.distinct
      simp only [live, List.mem_append, not_or] at unused
      simp only [live] at nodup ⊢
      have moved : (q.fixedVecBuffers ++ (q.vecOnlyOwnedBuffers ++ [fresh]) ++ q.allocated).Perm
          (fresh :: (q.fixedVecBuffers ++ q.vecOnlyOwnedBuffers ++ q.allocated)) := by
        rw [← List.append_assoc, List.append_assoc]
        exact List.perm_middle
      rw [moved.nodup_iff, List.nodup_cons]
      exact ⟨by simp [unused.1.1, unused.1.2, unused.2], nodup⟩
    · intro slot mem used
      exact (ok.slot_ok slot mem used).keep (fun _ _ _ h => h) rfl

/-- `TryAcquireFixedVecBuffer` puts an index in the caller's hand, and its buffer. -/
theorem Balanced.tryAcquireFixedVecBuffer (ok : Balanced {} q) {buf : Address} {index : UInt16}
    {q' : BufferState} (taken : q.tryAcquireFixedVecBuffer = some (buf, index, q')) :
    Balanced (Hand.of .fixedVec buf index) q' ∧ q'.Fits .fixedVec buf index ∧
      ∃ free, q' = { q with freeFixedVecBuffers := free } := by
  unfold BufferState.tryAcquireFixedVecBuffer at taken
  split at taken
  · split at taken
    · rename_i idx last
      obtain ⟨front, split⟩ := List.getLast?_eq_some_iff.1 last
      simp only [Option.some.injEq, Prod.mk.injEq] at taken
      obtain ⟨rfl, rfl, rfl⟩ := taken
      refine ⟨{ ok with fixed := ?_, slot_ok := ?_ }, ?_, _, rfl⟩
      · intro i
        have before := ok.fixed i
        rw [split] at before
        simp only [Hand.of, split, List.dropLast_concat, List.count_append, List.count_nil]
          at before ⊢
        omega
      · intro slot mem used
        exact (ok.slot_ok slot mem used).keep (fun _ _ _ h => h) rfl
      · have books := ok.fixed idx
        have inFree : 0 < q.freeFixedVecBuffers.count idx := by
          rw [split]
          simp
        have bound : idx.toNat < q.fixedVecBuffers.length := by
          rw [fixedShare] at books
          split at books
          · assumption
          · omega
        rw [Fits, List.getD_eq_getElem?_getD, List.getElem?_eq_getElem bound]
        rfl
    · cases taken
  · cases taken

theorem swapAndPop_perm {entries : List PoolEntry} {i : Nat} {entry : PoolEntry}
    (at_i : entries[i]? = some entry) :
    (entry :: BufferPool.swapAndPop i entries).Perm entries := by
  obtain ⟨bound, at_i⟩ := List.getElem?_eq_some_iff.1 at_i
  unfold BufferPool.swapAndPop
  split
  · rename_i last isLast
    obtain ⟨front, rfl⟩ := List.getLast?_eq_some_iff.1 isLast
    rw [List.length_append, List.length_singleton] at bound
    by_cases inFront : i < front.length
    · rw [List.getElem_append_left inFront] at at_i
      rw [List.set_append_left _ _ inFront, List.dropLast_concat, ← at_i]
      calc List.Perm (front[i] :: front.set i last) (front[i] :: last :: front.eraseIdx i) :=
            (List.set_perm_cons_eraseIdx inFront last).cons _
        List.Perm _ (last :: front[i] :: front.eraseIdx i) := List.Perm.swap _ _ _
        List.Perm _ (last :: front) := (List.getElem_cons_eraseIdx_perm inFront).cons _
        List.Perm _ (front ++ [last]) := (List.perm_append_singleton last front).symm
    · have atEnd : i = front.length := by omega
      subst atEnd
      rw [List.getElem_concat_length rfl] at at_i
      rw [List.set_append_right _ _ (le_refl _), Nat.sub_self, List.set_cons_zero,
        List.dropLast_concat, ← at_i]
      exact (List.perm_append_singleton last front).symm
  · rename_i noLast
    rw [List.getLast?_eq_none_iff] at noLast
    simp [noLast] at bound

/-- `Acquire` makes its buffer outstanding and keeps the others so. -/
theorem isOutstanding_hold {raw : Address} {cap : UInt32} {p : BufferPool}
    (buf : Address) (known : buf = raw ∨ ∃ cap, (buf, cap) ∈ p.outstanding) :
    ∃ cap', (buf, cap') ∈ (p.hold raw cap).outstanding := by
  by_cases same : buf = raw
  · exact ⟨cap, by simp [BufferPool.hold, same]⟩
  · rcases known with eq | ⟨other, mem⟩
    · exact absurd eq same
    · exact ⟨other, by simp [BufferPool.hold, mem, same]⟩

/-- `Acquire` takes a buffer out of the pool, or hands out `fresh`. -/
theorem acquire_spec (p : BufferPool) (size : UInt32) (fresh : Address) :
    ∃ buf cap pool, p.acquire size fresh = (buf, { p with pool := pool }.hold buf cap) ∧
      ((pool = p.pool ∧ buf = fresh) ∨
        ∃ entry, entry.buf = buf ∧ (entry :: pool).Perm p.pool) := by
  unfold BufferPool.acquire
  split
  · rename_i i found
    split
    · rename_i entry at_i
      exact ⟨_, _, _, rfl, Or.inr ⟨entry, rfl, swapAndPop_perm at_i⟩⟩
    · exact ⟨_, _, p.pool, rfl, Or.inl ⟨rfl, rfl⟩⟩
  · exact ⟨_, _, p.pool, rfl, Or.inl ⟨rfl, rfl⟩⟩

/-- A new buffer among the pool's. -/
theorem live_nodup_allocate (ok : Balanced hand q) {fresh : Address} (unused : fresh ∉ q.live) :
    ({ q with allocated := q.allocated ++ [fresh] } : BufferState).live.Nodup := by
  have nodup := ok.distinct
  rw [live] at nodup unused ⊢
  rw [← List.append_assoc, (List.perm_append_singleton fresh _).nodup_iff, List.nodup_cons]
  exact ⟨unused, nodup⟩

/-- `buffer_pool_.Acquire` puts a pooled buffer in the caller's hand. -/
theorem Balanced.acquirePooled (ok : Balanced {} q) (size : UInt32) {fresh : Address}
    (unused : fresh ∉ q.live) :
    Balanced (Hand.of .pool (q.acquirePooled size fresh).1 0) (q.acquirePooled size fresh).2 ∧
      (q.acquirePooled size fresh).2.isOutstanding (q.acquirePooled size fresh).1 := by
  obtain ⟨buf, cap, pool, acquired, source⟩ := acquire_spec q.bufferPool size fresh
  have taken : ∃ allocated, q.acquirePooled size fresh =
      (buf, { q with
        bufferPool := { q.bufferPool with pool := pool }.hold buf cap
        allocated := allocated }) ∧
      (∀ a, (pool.map PoolEntry.buf).count a + [buf].count a + q.allocated.count a =
        (q.bufferPool.pool.map PoolEntry.buf).count a + allocated.count a) ∧
      ({ q with allocated := allocated } : BufferState).live.Nodup := by
    rw [BufferState.acquirePooled, acquired]
    rcases source with ⟨rfl, rfl⟩ | ⟨entry, rfl, perm⟩
    · have absent : buf ∉ q.allocated := by
        intro mem
        exact unused (List.mem_append_right _ mem)
      refine ⟨_, rfl, ?_, ?_⟩
      · intro a
        rw [if_neg absent, List.count_append]
        omega
      · rw [if_neg absent]
        exact live_nodup_allocate ok unused
    · have counted : ∀ a, (pool.map PoolEntry.buf).count a + [entry.buf].count a =
          (q.bufferPool.pool.map PoolEntry.buf).count a := by
        intro a
        have same := (perm.map PoolEntry.buf).count_eq a
        rw [List.map_cons, ← List.singleton_append, List.count_append] at same
        omega
      have present : entry.buf ∈ q.allocated := by
        apply List.count_pos_iff.1
        have books := ok.pooled entry.buf
        have moved := counted entry.buf
        rw [List.count_singleton_self] at moved
        omega
      refine ⟨_, rfl, ?_, ?_⟩
      · intro a
        have moved := counted a
        rw [if_pos present]
        omega
      · rw [if_pos present]
        exact ok.distinct
  obtain ⟨allocated, taken, counted, nodup⟩ := taken
  rw [taken]
  refine ⟨{ ok with pooled := ?_, distinct := nodup, slot_ok := ?_ }, ?_⟩
  · intro a
    have before := ok.pooled a
    have moved := counted a
    simp only [Hand.of, BufferPool.hold, List.count_nil] at before ⊢
    omega
  · intro slot mem used
    refine (ok.slot_ok slot mem used).keep ?_ rfl
    intro other _ _ known
    exact isOutstanding_hold other (Or.inr known)
  · exact isOutstanding_hold buf (Or.inl rfl)

/-! ## The payload cache -/

/-- With distinct keys, erasing an offset takes one entry. -/
theorem count_erase_offset {cache : List (UInt64 × Address)} (keys : (cache.map Prod.fst).Nodup)
    {offset : UInt64} {entry : UInt64 × Address}
    (found : cache.find? (fun entry => entry.1 == offset) = some entry) (buf : Address) :
    ((cache.filter fun entry => entry.1 ≠ offset).map Prod.snd).count buf + [entry.2].count buf =
      (cache.map Prod.snd).count buf := by
  induction cache with
  | nil => cases found
  | cons head rest ih =>
      rw [List.map_cons, List.nodup_cons] at keys
      by_cases here : head.1 = offset
      · rw [List.find?_cons_of_pos (by simpa using here), Option.some.injEq] at found
        have others : (rest.filter fun entry => entry.1 ≠ offset) = rest := by
          rw [List.filter_eq_self]
          intro other mem
          have differs : other.1 ≠ offset := by
            intro same
            apply keys.1
            rw [here, ← same]
            exact List.mem_map_of_mem mem
          simpa using differs
        rw [List.filter_cons_of_neg (by simpa using here), others, ← found]
        simp only [List.map_cons, List.count_cons, List.count_nil]
        omega
      · rw [List.find?_cons_of_neg (by simpa using here)] at found
        have rest_eq := ih keys.2 found
        rw [List.filter_cons_of_pos (by simpa using here)]
        simp only [List.map_cons, List.count_cons] at rest_eq ⊢
        omega

/-- The cache of `dropPayload` has no entry of the offset. -/
theorem dropPayload_cache (offset : UInt64) (q : BufferState) :
    (q.dropPayload offset).payloadCache = q.payloadCache.filter fun entry => entry.1 ≠ offset := by
  unfold dropPayload
  split
  · rfl
  · rename_i absent
    rw [eq_comm, List.filter_eq_self]
    intro entry mem
    simpa using List.find?_eq_none.1 absent entry mem

/-- Erasing a cached payload frees its buffer. -/
theorem Balanced.dropPayload (ok : Balanced hand q) (offset : UInt64) :
    Balanced hand (q.dropPayload offset) := by
  have cache := dropPayload_cache offset q
  unfold BufferState.dropPayload at cache ⊢
  split
  · rename_i entry buf found
    have counted := count_erase_offset ok.keys found
    refine { ok with pooled := ?_, distinct := ?_, keys := ?_, slot_ok := ?_ }
    · intro a
      have before := ok.pooled a
      have moved := counted a
      dsimp only at moved
      rw [List.count_singleton] at moved
      simp only [freeBuffer, List.count_erase]
      omega
    · exact ok.distinct.sublist
        (List.Sublist.append_left (List.erase_sublist) _)
    · exact ok.keys.sublist ((List.filter_sublist).map _)
    · intro slot mem used
      exact (ok.slot_ok slot mem used).keep (fun _ _ _ h => h) rfl
  · exact ok

/-- A cached payload: the buffer passes from the caller's hand to the consumer. -/
theorem Balanced.cachePayload {buf : Address} (ok : Balanced (Hand.of .pool buf 0) q)
    (offset : UInt64) : Balanced {} (q.cachePayload offset buf) := by
  have dropped := ok.dropPayload offset
  unfold BufferState.cachePayload
  refine { dropped with pooled := ?_, keys := ?_, slot_ok := ?_ }
  · intro a
    have before := dropped.pooled a
    simp only [Hand.of, List.map_append, List.map_cons, List.map_nil, List.count_append,
      List.count_nil] at before ⊢
    omega
  · rw [List.map_append, List.nodup_append]
    refine ⟨dropped.keys, by simp, ?_⟩
    intro key mem other isOffset
    rw [dropPayload_cache, List.mem_map] at mem
    obtain ⟨entry, inFilter, rfl⟩ := mem
    have differs := (List.mem_filter.1 inFilter).2
    simp only [List.map_cons, List.map_nil, List.mem_singleton] at isOffset
    simpa [isOffset] using differs
  · intro slot mem used
    exact (dropped.slot_ok slot mem used).keep (fun _ _ _ h => h) rfl

/-! ## Dispatch and cleanup -/

theorem Balanced.deliver (ok : Balanced hand q) (type : ReadType) (buf : Option Address)
    (addr : AddressEntry) : Balanced hand (q.deliver type buf addr) := by
  refine { ok with slot_ok := ?_ }
  intro slot mem used
  exact (ok.slot_ok slot mem used).keep (fun _ _ _ h => h) rfl

theorem Balanced.consumeAll (ok : Balanced {} q) (vecBytes : UInt32) {fresh : Address}
    (unused : fresh ∉ q.live) (buf : Option Address) (addr : AddressEntry) :
    Balanced {} (q.consumeAll vecBytes fresh buf addr) := by
  have delivered := ok.deliver .vecAll buf addr
  unfold BufferState.consumeAll
  dsimp only
  split
  · apply Balanced.cachePayload
    refine { delivered with pooled := ?_, distinct := ?_, slot_ok := ?_ }
    · intro a
      have before := delivered.pooled a
      simp only [Hand.of, List.count_append, List.count_nil] at before ⊢
      omega
    · exact live_nodup_allocate delivered unused
    · intro slot mem used
      exact (delivered.slot_ok slot mem used).keep (fun _ _ _ h => h) rfl
  · exact delivered

/-- The consumer does not touch the slots. -/
theorem dropPayload_slots (offset : UInt64) (slots : List PendingSlot) (free : List UInt32) :
    ({ q with pendingSlots := slots, freePendingSlots := free } : BufferState).dropPayload offset =
      { q.dropPayload offset with pendingSlots := slots, freePendingSlots := free } := by
  unfold dropPayload
  dsimp only
  split <;> rfl

theorem dropPayload_table (offset : UInt64) (q : BufferState) :
    SameTable q (q.dropPayload offset) := by
  unfold dropPayload
  split <;> exact ⟨rfl, rfl, rfl, rfl⟩

theorem cachePayload_slots (offset : UInt64) (buf : Address) (slots : List PendingSlot)
    (free : List UInt32) :
    ({ q with pendingSlots := slots, freePendingSlots := free } : BufferState).cachePayload offset
        buf =
      { q.cachePayload offset buf with pendingSlots := slots, freePendingSlots := free } := by
  unfold cachePayload
  rw [dropPayload_slots]

theorem cachePayload_table (offset : UInt64) (buf : Address) (q : BufferState) :
    SameTable q (q.cachePayload offset buf) :=
  have same := dropPayload_table offset q
  ⟨same.slots, same.free, same.reads, same.delivered⟩

theorem consumeAll_table (vecBytes : UInt32) (fresh : Address) (buf : Option Address)
    (addr : AddressEntry) (q : BufferState) :
    SameTable (q.deliver .vecAll buf addr) (q.consumeAll vecBytes fresh buf addr) := by
  unfold consumeAll
  dsimp only
  split
  · have same := cachePayload_table addr.offset fresh
      { q.deliver .vecAll buf addr with allocated := (q.deliver .vecAll buf addr).allocated ++ [fresh] }
    exact ⟨same.slots, same.free, same.reads, same.delivered⟩
  · exact ⟨rfl, rfl, rfl, rfl⟩

/-- A token that `GetPendingSlot` accepts names a slot in use. -/
theorem getPendingSlot_some {token : UInt64} {slot : PendingSlot}
    (found : q.getPendingSlot token = some slot) :
    q.pendingSlots[token.toUInt32.toNat]? = some slot ∧ slot.inUse = true := by
  unfold getPendingSlot at found
  split at found
  · cases found
  · split at found
    · rename_i other at_id
      split at found
      · rename_i used
        rw [Option.some.injEq] at found
        exact ⟨found ▸ at_id, found ▸ used⟩
      · cases found
    · cases found

/-- A slot in use holds a buffer. -/
theorem Balanced.slotAt (ok : Balanced hand q) {id : UInt32} {slot : PendingSlot}
    (at_id : q.pendingSlots[id.toNat]? = some slot) (used : slot.inUse = true) :
    ∃ buf, q.SlotAt id slot buf := by
  obtain ⟨buf, holding, -⟩ := (ok.slot_ok slot (List.mem_of_getElem? at_id) used).buffer
  exact ⟨buf, at_id, used, holding⟩

/-- A payload read's slot is cleared and its buffer passes to the consumer. -/
theorem SlotAt.payload {id : UInt32} {slot : PendingSlot} {buf : Address}
    (here : q.SlotAt id slot buf) (offset : UInt64) :
    ({ q.cachePayload offset buf with
        pendingSlots := (q.cachePayload offset buf).pendingSlots.set id.toNat
          { slot with buffer := none, cleanup := .none } } : BufferState).releasePendingSlot id =
      (q.vacate id).cachePayload offset buf := by
  have same := cachePayload_table offset buf q
  obtain ⟨bound, -⟩ := List.getElem?_eq_some_iff.1 here.at_id
  have cleared : (q.vacate id).cachePayload offset buf = { q.cachePayload offset buf with
      pendingSlots := q.pendingSlots.set id.toNat {}
      freePendingSlots := q.freePendingSlots ++ [id] } := cachePayload_slots offset buf _ _
  rw [cleared, releasePendingSlot, same.slots, if_neg (by simpa using bound)]
  simp only [List.set_set, same.free]

/-- What `DispatchCompletion` does with a token of a slot in use: the consumer gets the
slot's buffer, address and type, the slot is cleared, and the buffer is given back or
passes to the consumer. -/
theorem dispatchCompletion_spec (ok : Balanced {} q) (vecBytes : UInt32) (fresh : Address)
    {token : UInt64} {slot : PendingSlot} (found : q.getPendingSlot token = some slot) :
    ∃ buf consumed, consumed.SlotAt token.toUInt32 slot buf ∧
      SameTable (q.deliver slot.io.type slot.buffer slot.io.addr) consumed ∧
      (fresh ∉ q.live → Balanced {} consumed) ∧
      (q.dispatchCompletion vecBytes fresh token =
          (consumed.vacate token.toUInt32).giveBack slot.cleanup buf slot.fixedBufferIndex ∨
        slot.io.type = .payload ∧ q.dispatchCompletion vecBytes fresh token =
          (consumed.vacate token.toUInt32).cachePayload slot.io.addr.offset buf) := by
  obtain ⟨at_id, used⟩ := getPendingSlot_some found
  obtain ⟨buf, here⟩ := ok.slotAt at_id used
  unfold BufferState.dispatchCompletion
  rw [found]
  dsimp only
  cases kind : slot.io.type with
  | vecOnly =>
      have hereStill : (q.deliver .vecOnly slot.buffer slot.io.addr).SlotAt token.toUInt32 slot buf :=
        ⟨here.at_id, here.used, here.holding⟩
      exact ⟨buf, _, hereStill, ⟨rfl, rfl, rfl, rfl⟩, fun _ => ok.deliver _ _ _,
        Or.inl hereStill.releaseVectorOnly⟩
  | vecAll =>
      have same := consumeAll_table vecBytes fresh slot.buffer slot.io.addr q
      have hereStill : (q.consumeAll vecBytes fresh slot.buffer slot.io.addr).SlotAt
          token.toUInt32 slot buf := ⟨by rw [same.slots]; exact here.at_id, here.used, here.holding⟩
      exact ⟨buf, _, hereStill, same, fun unused => ok.consumeAll vecBytes unused _ _,
        Or.inl hereStill.cleanup_release⟩
  | payload =>
      have hereStill : (q.deliver .payload slot.buffer slot.io.addr).SlotAt token.toUInt32 slot buf :=
        ⟨here.at_id, here.used, here.holding⟩
      have handed : q.consumePayload slot.buffer slot.io.addr =
          (q.deliver .payload slot.buffer slot.io.addr).cachePayload slot.io.addr.offset buf := by
        unfold consumePayload
        rw [here.holding]
      refine ⟨buf, _, hereStill, ⟨rfl, rfl, rfl, rfl⟩, fun _ => ok.deliver _ _ _, Or.inr ⟨rfl, ?_⟩⟩
      rw [handed, hereStill.payload]

/-- **A dispatch keeps the books.** -/
theorem Balanced.dispatchCompletion (ok : Balanced {} q) (vecBytes : UInt32) {fresh : Address}
    (unused : fresh ∉ q.live) (token : UInt64) :
    Balanced {} (q.dispatchCompletion vecBytes fresh token) := by
  cases found : q.getPendingSlot token with
  | none =>
      unfold BufferState.dispatchCompletion
      rw [found]
      exact ok
  | some slot =>
      obtain ⟨buf, consumed, here, same, books, given | ⟨isPayload, cached⟩⟩ :=
        dispatchCompletion_spec ok vecBytes fresh found
      · rw [given]
        exact here.vacate_giveBack (books unused)
      · have cleared := (books unused).vacate here.at_id here.used here.holding
        have slotOk := (books unused).slot_ok slot (List.mem_of_getElem? here.at_id) here.used
        rw [slotOk.payload isPayload] at cleared
        rw [cached]
        exact Balanced.cachePayload cleared slot.io.addr.offset

theorem Balanced.cleanupSlot (ok : Balanced {} q) (id : UInt32) :
    Balanced {} (q.cleanupSlot id) := by
  unfold BufferState.cleanupSlot
  split
  · rename_i slot at_id
    split
    · rename_i used
      obtain ⟨buf, here⟩ := ok.slotAt at_id used
      rw [here.cleanup_release]
      exact here.vacate_giveBack ok
    · exact ok
  · exact ok

/-- A fold of operations that each keep the books keeps them. -/
theorem Balanced.foldl {A : Type} {op : BufferState → A → BufferState}
    (kept : ∀ q a, Balanced hand q → Balanced hand (op q a)) (as : List A)
    (ok : Balanced hand q) : Balanced hand (as.foldl op q) := by
  induction as generalizing q with
  | nil => exact ok
  | cons a as ih => exact ih (kept q a ok)

theorem Balanced.cleanupPendingSlots (ok : Balanced {} q) : Balanced {} q.cleanupPendingSlots :=
  ok.foldl (fun _ _ h => h.cleanupSlot _) _

theorem Balanced.endQuery (ok : Balanced {} q) : Balanced {} q.endQuery :=
  ok.foldl (fun _ _ h => h.dropPayload _) _

/-! ## Preparing reads -/

theorem Balanced.prepRead (ok : Balanced hand q) (id : UInt32) (buf : Address) (io : PendingIO) :
    Balanced hand (q.prepRead id buf io) := by
  refine { ok with slot_ok := ?_ }
  intro slot mem used
  exact (ok.slot_ok slot mem used).keep (fun _ _ _ h => h) rfl

/-- A read finds a slot id: one is free, or the table has room for another. -/
def room (q : BufferState) : Prop := q.freePendingSlots = [] → q.pendingSlots.length < 2 ^ 32

theorem Balanced.emitPooled (ok : Balanced {} q) (space : q.room) (io : PendingIO)
    {fresh : Address} (unused : fresh ∉ q.live) : Balanced {} (q.emitPooled io fresh) := by
  obtain ⟨inHand, outstanding⟩ := ok.acquirePooled io.readLength unused
  have kept : (q.acquirePooled io.readLength fresh).2.room := space
  exact (inHand.allocatePendingSlot kept io outstanding (fun _ => rfl)).prepRead _ _ _

theorem Balanced.emitVecOnly (ok : Balanced {} q) (space : q.room) (vecBytes : UInt32)
    (addr : AddressEntry) {fresh : Address} (unused : fresh ∉ q.live) :
    Balanced {} (q.emitVecOnly vecBytes addr fresh) := by
  have notPayload : ReadType.vecOnly ≠ .payload := by decide
  unfold BufferState.emitVecOnly
  dsimp only
  split
  · rename_i buf index q' taken
    obtain ⟨inHand, fits, free, rfl⟩ := ok.tryAcquireFixedVecBuffer taken
    exact (inHand.allocatePendingSlot space _ fits (fun h => absurd h notPayload)).prepRead _ _ _
  · have inHand := ok.acquireVecOnlyBuffer unused
    have kept : (q.acquireVecOnlyBuffer fresh).2.room := by
      unfold BufferState.acquireVecOnlyBuffer
      split <;> exact space
    exact (inHand.allocatePendingSlot kept _ trivial
      (fun h => absurd h notPayload)).prepRead _ _ _

end BufferState

end VecFetch.Query.Buffers
