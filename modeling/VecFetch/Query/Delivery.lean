/-
# Query.Delivery -- runs of the slot table, and which read a completion is taken for

Over any run the ids and buffers keep one owner each.  A completion names its slot and
not its read, so it is delivered as its own read only while no later read has been given
the slot: the guard of `GetPendingSlot` sees that a slot is free, not that it changed
hands.
-/
import VecFetch.Query.Ownership
import Mathlib.Data.List.Nodup

namespace VecFetch.Query.Buffers

open VecFetch.Theory

set_option autoImplicit false

namespace BufferState

variable {hand : Hand} {q : BufferState}

/-! ## What a step does to the slots -/

/-- What preparing a read does to the slots: a slot that was not in use now holds the
read under the token the read carries. -/
structure Prepares (q q' : BufferState) (id : UInt32) (buf : Address) (io : PendingIO) : Prop where
  table : ∃ base old slot, q'.pendingSlots = base.set id.toNat slot ∧
    slot.inUse = true ∧ slot.buffer = some buf ∧ slot.io = io ∧
    base[id.toNat]? = some old ∧ old.inUse = false ∧
    (base = q.pendingSlots ∧ q.freePendingSlots.getLast? = some id ∨
      base = q.pendingSlots ++ [({} : PendingSlot)] ∧ id.toNat = q.pendingSlots.length)
  reads : q'.reads = q.reads ++ [⟨id.toUInt64, buf, io⟩]

theorem allocatePendingSlot_prepares (ok : Balanced hand q) (space : q.room) (io : PendingIO)
    (buf : Address) (cleanup : PendingBufferCleanup) (index : UInt16) :
    Prepares q ((q.allocatePendingSlot io buf cleanup index).2.prepRead
        (q.allocatePendingSlot io buf cleanup index).1 buf io)
      (q.allocatePendingSlot io buf cleanup index).1 buf io := by
  obtain ⟨id, base, free, old, allocated, at_id, unused, -, place, -, -⟩ :=
    allocatePendingSlot_spec ok space io buf cleanup index
  rw [allocated]
  exact ⟨⟨base, old, _, rfl, rfl, rfl, rfl, at_id, unused, place⟩, rfl⟩

theorem Prepares.of_same {q₀ q' : BufferState} {id : UInt32} {buf : Address} {io : PendingIO}
    (prepared : Prepares q₀ q' id buf io) (slots : q₀.pendingSlots = q.pendingSlots)
    (free : q₀.freePendingSlots = q.freePendingSlots) (reads : q₀.reads = q.reads) :
    Prepares q q' id buf io := by
  obtain ⟨table, prepared⟩ := prepared
  rw [slots, free] at table
  rw [reads] at prepared
  exact ⟨table, prepared⟩

theorem emitPooled_prepares (ok : Balanced {} q) (space : q.room) (io : PendingIO)
    {fresh : Address} (unused : fresh ∉ q.live) :
    ∃ id buf, Prepares q (q.emitPooled io fresh) id buf io := by
  obtain ⟨inHand, -⟩ := ok.acquirePooled io.readLength unused
  have kept : (q.acquirePooled io.readLength fresh).2.room := space
  have prepared := allocatePendingSlot_prepares inHand kept io
    (q.acquirePooled io.readLength fresh).1 .pool 0
  exact ⟨_, _, prepared.of_same rfl rfl rfl⟩

theorem emitVecOnly_prepares (ok : Balanced {} q) (space : q.room) (vecBytes : UInt32)
    (addr : AddressEntry) {fresh : Address} (unused : fresh ∉ q.live) :
    ∃ id buf, Prepares q (q.emitVecOnly vecBytes addr fresh) id buf
      ⟨.vecOnly, addr, addr.offset, vecBytes⟩ := by
  unfold BufferState.emitVecOnly
  dsimp only
  split
  · rename_i buf index q' taken
    obtain ⟨inHand, -, free, rfl⟩ := ok.tryAcquireFixedVecBuffer taken
    have prepared := allocatePendingSlot_prepares inHand space
      ⟨.vecOnly, addr, addr.offset, vecBytes⟩ buf .fixedVec index
    exact ⟨_, _, prepared.of_same rfl rfl rfl⟩
  · have inHand := ok.acquireVecOnlyBuffer unused
    have same : (q.acquireVecOnlyBuffer fresh).2.pendingSlots = q.pendingSlots ∧
        (q.acquireVecOnlyBuffer fresh).2.freePendingSlots = q.freePendingSlots ∧
        (q.acquireVecOnlyBuffer fresh).2.reads = q.reads := by
      unfold BufferState.acquireVecOnlyBuffer
      split <;> exact ⟨rfl, rfl, rfl⟩
    have kept : (q.acquireVecOnlyBuffer fresh).2.room := by
      rw [room, same.1, same.2.1]
      exact space
    have prepared := allocatePendingSlot_prepares inHand kept
      ⟨.vecOnly, addr, addr.offset, vecBytes⟩ (q.acquireVecOnlyBuffer fresh).1 .vecPool 0
    exact ⟨_, _, prepared.of_same same.1 same.2.1 same.2.2⟩

/-- Which reads are outstanding is not in the books. -/
theorem Balanced.dropRead (ok : Balanced hand q) (i : Nat) :
    Balanced hand { q with reads := q.reads.eraseIdx i } := by
  refine { ok with slot_ok := ?_ }
  intro slot mem used
  exact (ok.slot_ok slot mem used).keep (fun _ _ _ h => h) rfl

/-- What a step other than preparing a read does to the slots: some are cleared. -/
structure Clears (q q' : BufferState) : Prop where
  length : q'.pendingSlots.length = q.pendingSlots.length
  slots : ∀ (i : Nat) (slot : PendingSlot), q'.pendingSlots[i]? = some slot →
    slot.inUse = true → q.pendingSlots[i]? = some slot
  reads : q'.reads = q.reads

theorem Clears.refl (q : BufferState) : Clears q q := ⟨rfl, fun _ _ h _ => h, rfl⟩

theorem Clears.trans {q q' q'' : BufferState} (first : Clears q q') (second : Clears q' q'') :
    Clears q q'' where
  length := second.length.trans first.length
  slots := fun i slot at_i used => first.slots i slot (second.slots i slot at_i used) used
  reads := second.reads.trans first.reads

theorem SameTable.clears {q q' : BufferState} (same : SameTable q q') : Clears q q' where
  length := by rw [same.slots]
  slots := by
    intro i slot at_i _
    rw [← same.slots]
    exact at_i
  reads := same.reads

theorem vacate_clears (id : UInt32) (q : BufferState) : Clears q (q.vacate id) where
  length := by simp [vacate]
  slots := by
    intro i slot at_i used
    simp only [vacate, List.getElem?_set] at at_i
    split at at_i
    · split at at_i
      · rw [Option.some.injEq] at at_i
        rw [← at_i] at used
        cases used
      · cases at_i
    · exact at_i
  reads := rfl

theorem foldl_clears {A : Type} {op : BufferState → A → BufferState}
    (clears : ∀ q a, Balanced {} q → Clears q (op q a))
    (kept : ∀ q a, Balanced {} q → Balanced {} (op q a)) (as : List A) (ok : Balanced {} q) :
    Clears q (as.foldl op q) := by
  induction as generalizing q with
  | nil => exact Clears.refl q
  | cons a as ih => exact (clears q a ok).trans (ih (kept q a ok))

theorem Balanced.cleanupPendingSlots_clears (ok : Balanced {} q) :
    Clears q q.cleanupPendingSlots := by
  apply foldl_clears (fun q i ok => ?_) (fun _ _ h => h.cleanupSlot _) _ ok
  unfold BufferState.cleanupSlot
  split
  · rename_i slot at_id
    split
    · rename_i used
      obtain ⟨buf, here⟩ := ok.slotAt at_id used
      rw [here.cleanup_release]
      exact (vacate_clears _ q).trans (giveBack_table _ _ _ _).clears
    · exact Clears.refl q
  · exact Clears.refl q

theorem endQuery_table (q : BufferState) : SameTable q q.endQuery := by
  unfold BufferState.endQuery
  generalize q.payloadCache = entries
  induction entries generalizing q with
  | nil => exact ⟨rfl, rfl, rfl, rfl⟩
  | cons entry entries ih =>
      have first := dropPayload_table entry.1 q
      have rest := ih (q.dropPayload entry.1)
      exact ⟨rest.slots.trans first.slots, rest.free.trans first.free,
        rest.reads.trans first.reads, rest.delivered.trans first.delivered⟩

/-- A dispatch clears at most its token's slot. -/
theorem Balanced.dispatchCompletion_clears (ok : Balanced {} q) (vecBytes : UInt32)
    (fresh : Address) (token : UInt64) : Clears q (q.dispatchCompletion vecBytes fresh token) := by
  cases found : q.getPendingSlot token with
  | none =>
      unfold BufferState.dispatchCompletion
      rw [found]
      exact Clears.refl q
  | some slot =>
      obtain ⟨buf, consumed, -, same, -, given | ⟨-, cached⟩⟩ :=
        dispatchCompletion_spec ok vecBytes fresh found
      · rw [given]
        have first : Clears q consumed := ⟨same.clears.length, same.clears.slots, same.reads⟩
        exact (first.trans (vacate_clears _ consumed)).trans (giveBack_table _ _ _ _).clears
      · rw [cached]
        have first : Clears q consumed := ⟨same.clears.length, same.clears.slots, same.reads⟩
        exact (first.trans (vacate_clears _ consumed)).trans (cachePayload_table _ _ _).clears

/-- A dispatch clears its token's slot. -/
theorem Balanced.dispatchCompletion_slots (ok : Balanced {} q) (vecBytes : UInt32)
    (fresh : Address) {token : UInt64} {slot : PendingSlot}
    (found : q.getPendingSlot token = some slot) :
    (q.dispatchCompletion vecBytes fresh token).pendingSlots =
      q.pendingSlots.set token.toUInt32.toNat {} := by
  obtain ⟨buf, consumed, -, same, -, given | ⟨-, cached⟩⟩ :=
    dispatchCompletion_spec ok vecBytes fresh found
  · rw [given, (giveBack_table _ _ _ _).slots, BufferState.vacate, same.slots]
    rfl
  · rw [cached, (cachePayload_table _ _ _).slots, BufferState.vacate, same.slots]
    rfl

/-- ... and lists it as free. -/
theorem Balanced.dispatchCompletion_free (ok : Balanced {} q) (vecBytes : UInt32)
    (fresh : Address) {token : UInt64} {slot : PendingSlot}
    (found : q.getPendingSlot token = some slot) :
    (q.dispatchCompletion vecBytes fresh token).freePendingSlots =
      q.freePendingSlots ++ [token.toUInt32] := by
  obtain ⟨buf, consumed, -, same, -, given | ⟨-, cached⟩⟩ :=
    dispatchCompletion_spec ok vecBytes fresh found
  · rw [given, (giveBack_table _ _ _ _).free, BufferState.vacate, same.free]
    rfl
  · rw [cached, (cachePayload_table _ _ _).free, BufferState.vacate, same.free]
    rfl

/-- What the consumer gets from a dispatch. -/
theorem Balanced.dispatchCompletion_delivered (ok : Balanced {} q) (vecBytes : UInt32)
    (fresh : Address) {token : UInt64} {slot : PendingSlot}
    (found : q.getPendingSlot token = some slot) :
    (q.dispatchCompletion vecBytes fresh token).delivered =
      q.delivered ++ [⟨slot.io.type, slot.buffer, slot.io.addr⟩] := by
  obtain ⟨buf, consumed, -, same, -, given | ⟨-, cached⟩⟩ :=
    dispatchCompletion_spec ok vecBytes fresh found
  · rw [given, (giveBack_table _ _ _ _).delivered]
    exact same.delivered
  · rw [cached, (cachePayload_table _ _ _).delivered]
    exact same.delivered

/-! ## One owner each -/

/-- A slot id is in use or listed once. -/
structure SlotsOwned (q : BufferState) : Prop where
  ids : q.pendingSlots.length ≤ 2 ^ 32
  once : ∀ (id : UInt32) (slot : PendingSlot), q.pendingSlots[id.toNat]? = some slot →
    q.freePendingSlots.count id = if slot.inUse then 0 else 1
  known : ∀ id ∈ q.freePendingSlots, id.toNat < q.pendingSlots.length

/-- The buffer a slot in use holds. -/
def holdsBuffer (slot : PendingSlot) : Option Address := if slot.inUse then slot.buffer else none

/-- How many owners a buffer has: slots in use, free list, pool and consumer. -/
def owners (buf : Address) (q : BufferState) : Nat :=
  (held holdsBuffer q.pendingSlots).count buf + q.freeVecOnlyBuffers.count buf +
    (q.bufferPool.pool.map PoolEntry.buf).count buf + (q.payloadCache.map Prod.snd).count buf

/-- Each vec-only and each pooled buffer has one owner, each fixed index is with one
slot in use or once in its free list, and no list holds another kind's buffers. -/
structure BuffersOwned (q : BufferState) : Prop where
  once : ∀ buf ∈ q.vecOnlyOwnedBuffers ++ q.allocated, q.owners buf = 1
  fixed : ∀ index : UInt16, index.toNat < q.fixedVecBuffers.length →
    (held PendingSlot.holdsFixed q.pendingSlots).count index +
      q.freeFixedVecBuffers.count index = 1
  vecOnly_list : q.freeVecOnlyBuffers ⊆ q.vecOnlyOwnedBuffers
  pool_list : q.bufferPool.pool.map PoolEntry.buf ⊆ q.allocated
  consumer : q.payloadCache.map Prod.snd ⊆ q.allocated
  distinct : q.live.Nodup

theorem Balanced.slotsOwned (ok : Balanced {} q) : q.SlotsOwned where
  ids := ok.slots_le
  once := by
    intro id slot at_id
    cases used : slot.inUse with
    | true =>
        rw [if_pos rfl, List.count_eq_zero]
        intro mem
        obtain ⟨other, at_other, unused⟩ := (ok.free_iff id).1 mem
        rw [at_id, Option.some.injEq] at at_other
        rw [at_other, unused] at used
        cases used
    | false =>
        rw [if_neg (by simp)]
        exact List.count_eq_one_of_mem ok.free_nodup ((ok.free_iff id).2 ⟨slot, at_id, used⟩)
  known := by
    intro id mem
    obtain ⟨slot, at_id, -⟩ := (ok.free_iff id).1 mem
    exact (List.getElem?_eq_some_iff.1 at_id).1

/-- The buffers of the slots in use, by their cleanup. -/
theorem count_holdsBuffer {slots : List PendingSlot}
    (ok : ∀ slot ∈ slots, slot.inUse = true → q.SlotOk slot) (buf : Address) :
    (held holdsBuffer slots).count buf = (held (PendingSlot.holds .vecPool) slots).count buf +
      (held (PendingSlot.holds .pool) slots).count buf +
        (held (PendingSlot.holds .fixedVec) slots).count buf := by
  induction slots with
  | nil => rfl
  | cons slot slots ih =>
      have rest := ih fun other mem => ok other (List.mem_cons_of_mem _ mem)
      simp only [count_held_cons]
      have one : (holdsBuffer slot).toList.count buf =
          (slot.holds .vecPool).toList.count buf + (slot.holds .pool).toList.count buf +
            (slot.holds .fixedVec).toList.count buf := by
        cases used : slot.inUse with
        | false => simp [holdsBuffer, PendingSlot.holds, used]
        | true =>
            obtain ⟨b, holding, fits⟩ := (ok slot List.mem_cons_self used).buffer
            cases kind : slot.cleanup with
            | none => exact absurd (kind ▸ fits) (by simp [Fits])
            | free => exact absurd (kind ▸ fits) (by simp [Fits])
            | pool => simp [holdsBuffer, PendingSlot.holds, used, kind]
            | vecPool => simp [holdsBuffer, PendingSlot.holds, used, kind]
            | fixedVec => simp [holdsBuffer, PendingSlot.holds, used, kind]
      omega

/-- Only fixed buffers are held under a fixed index. -/
theorem Balanced.fixed_not_other (ok : Balanced hand q) {buf : Address}
    (other : buf ∉ q.fixedVecBuffers) :
    (held (PendingSlot.holds .fixedVec) q.pendingSlots).count buf = 0 := by
  rw [List.count_eq_zero, mem_held]
  intro ⟨slot, mem, holding⟩
  unfold PendingSlot.holds at holding
  split at holding
  · rename_i isFixed
    obtain ⟨b, holds, fits⟩ := (ok.slot_ok slot mem isFixed.1).buffer
    rw [isFixed.2] at fits
    rw [holds, Option.some.injEq] at holding
    subst holding
    exact other (List.mem_of_getElem? fits)
  · cases holding

theorem Balanced.buffersOwned (ok : Balanced {} q) : q.BuffersOwned where
  once := by
    intro buf mem
    have nodup := ok.distinct
    rw [live, List.append_assoc, List.nodup_append] at nodup
    have notFixed : buf ∉ q.fixedVecBuffers := by
      intro isFixed
      exact nodup.2.2 buf isFixed buf mem rfl
    have one := List.count_eq_one_of_mem nodup.2.1 mem
    rw [List.count_append] at one
    have slots := count_holdsBuffer ok.slot_ok buf
    have fixed := ok.fixed_not_other notFixed
    have vecOnly := ok.vecOnly buf
    have pooled := ok.pooled buf
    simp only [List.count_nil] at vecOnly pooled
    unfold owners
    omega
  fixed := by
    intro index bound
    have books := ok.fixed index
    rw [fixedShare, if_pos bound] at books
    simpa using books
  vecOnly_list := by
    intro buf mem
    have books := ok.vecOnly buf
    have pos := List.count_pos_iff.2 mem
    apply List.count_pos_iff.1
    omega
  pool_list := by
    intro buf mem
    have books := ok.pooled buf
    have pos := List.count_pos_iff.2 mem
    apply List.count_pos_iff.1
    omega
  consumer := by
    intro buf mem
    have books := ok.pooled buf
    have pos := List.count_pos_iff.2 mem
    apply List.count_pos_iff.1
    omega
  distinct := ok.distinct

end BufferState

open BufferState

/-! ## Steps -/

/-- The event prepares a read. -/
def BufferEvent.prepares : BufferEvent → Bool
  | .emitAll _ _ => true
  | .emitVecOnly _ _ => true
  | .fetchPayload _ _ => true
  | _ => false

variable {vecBytes : UInt32} {q q' : BufferState} {e : BufferEvent}

/-- **What a step can do**, from a state whose books are kept. -/
theorem bufferStep_cases (ok : Balanced {} q) (space : e.prepares = true → q.room)
    (taken : bufferStep vecBytes q e = some q') :
    Balanced {} q' ∧
      ((e.prepares = true ∧ ∃ id buf io, Prepares q q' id buf io) ∨
        (e.prepares = false ∧ (∀ i fresh, e ≠ .complete i fresh) ∧ Clears q q' ∧
          (e = .cleanupPendingSlots ∨ q'.pendingSlots = q.pendingSlots)) ∨
        (∃ i fresh read, e = .complete i fresh ∧ q.reads[i]? = some read ∧
          q' = ({ q with reads := q.reads.eraseIdx i } : BufferState).dispatchCompletion vecBytes
            fresh read.token)) := by
  unfold bufferStep at taken
  split at taken
  · cases taken
  · rename_i unused
    have notLive : ∀ fresh, e.fresh = some fresh → fresh ∉ q.live := by
      intro fresh has live
      exact unused ⟨fresh, has, live⟩
    cases e with
    | emitAll plan fresh =>
        rw [Option.some.injEq] at taken
        subst taken
        refine ⟨ok.emitPooled (space rfl) _ (notLive fresh rfl), Or.inl ⟨rfl, ?_⟩⟩
        obtain ⟨id, buf, prepared⟩ := emitPooled_prepares ok (space rfl) _ (notLive fresh rfl)
        exact ⟨id, buf, _, prepared⟩
    | emitVecOnly addr fresh =>
        rw [Option.some.injEq] at taken
        subst taken
        refine ⟨ok.emitVecOnly (space rfl) _ _ (notLive fresh rfl), Or.inl ⟨rfl, ?_⟩⟩
        obtain ⟨id, buf, prepared⟩ :=
          emitVecOnly_prepares ok (space rfl) vecBytes addr (notLive fresh rfl)
        exact ⟨id, buf, _, prepared⟩
    | fetchPayload addr fresh =>
        rw [Option.some.injEq] at taken
        subst taken
        refine ⟨ok.emitPooled (space rfl) _ (notLive fresh rfl), Or.inl ⟨rfl, ?_⟩⟩
        obtain ⟨id, buf, prepared⟩ := emitPooled_prepares ok (space rfl) _ (notLive fresh rfl)
        exact ⟨id, buf, _, prepared⟩
    | complete i fresh =>
        obtain ⟨read, at_i, dispatched⟩ := Option.map_eq_some_iff.1 taken
        subst dispatched
        refine ⟨?_, Or.inr (Or.inr ⟨i, fresh, read, rfl, at_i, rfl⟩)⟩
        exact (ok.dropRead i).dispatchCompletion vecBytes (notLive fresh rfl) read.token
    | cleanupPendingSlots =>
        rw [Option.some.injEq] at taken
        subst taken
        exact ⟨ok.cleanupPendingSlots,
          Or.inr (Or.inl ⟨rfl, by simp, ok.cleanupPendingSlots_clears, Or.inl rfl⟩)⟩
    | takePayload offset =>
        rw [Option.some.injEq] at taken
        subst taken
        exact ⟨ok.dropPayload offset,
          Or.inr (Or.inl ⟨rfl, by simp, (dropPayload_table offset q).clears,
            Or.inr (dropPayload_table offset q).slots⟩)⟩
    | endQuery =>
        rw [Option.some.injEq] at taken
        subst taken
        exact ⟨ok.endQuery, Or.inr (Or.inl ⟨rfl, by simp, q.endQuery_table.clears,
          Or.inr q.endQuery_table.slots⟩)⟩

/-! ## Outstanding reads -/

/-- A read can be prepared safely: a slot id is left, and the slot it would get is no
outstanding read's. -/
def SlotUnclaimed (q : BufferState) (e : BufferEvent) : Prop :=
  e.prepares = true → q.room ∧
    ∀ read ∈ q.reads, ∀ id ∈ q.freePendingSlots.getLast?, read.token ≠ id.toUInt64

-- Only the id that would be given is looked at, not every `UInt32`.
instance (q : BufferState) (e : BufferEvent) : Decidable (SlotUnclaimed q e) :=
  have (read : PreparedRead) :
      Decidable (∀ id ∈ q.freePendingSlots.getLast?, read.token ≠ id.toUInt64) :=
    Option.decidableForallMem _
  inferInstanceAs (Decidable (_ → (_ → _) ∧ _))

/-- A completion is taken for its own read, or ignored when its slot is not in use. -/
def DeliveredAsPrepared (t : Transition BufferState BufferEvent) : Prop :=
  ∀ i fresh read, t.event = .complete i fresh → t.before.reads[i]? = some read →
    match t.before.getPendingSlot read.token with
    | some _ => t.after.delivered =
        t.before.delivered ++ [⟨read.io.type, some read.buffer, read.io.addr⟩]
    | none => t.after = { t.before with reads := t.before.reads.eraseIdx i }

/-- A slot id as a token names its slot. -/
theorem getPendingSlot_token {id : UInt32} {slot : PendingSlot} :
    q.getPendingSlot id.toUInt64 = some slot ↔
      q.pendingSlots[id.toNat]? = some slot ∧ slot.inUse = true := by
  constructor
  · intro found
    have spec := getPendingSlot_some found
    rwa [UInt32.toUInt32_toUInt64] at spec
  · intro ⟨at_id, used⟩
    have small : ¬ UInt64.ofNat (2 ^ 32 - 1) < id.toUInt64 := by
      rw [UInt64.lt_iff_toNat_lt, UInt32.toNat_toUInt64]
      have bound := id.toNat_lt
      have limit : (UInt64.ofNat (2 ^ 32 - 1)).toNat = 2 ^ 32 - 1 := by decide
      omega
    unfold getPendingSlot
    rw [if_neg small, UInt32.toUInt32_toUInt64, at_id]
    simp only [used, if_true]

/-- A slot in use under an outstanding read's token holds that read. -/
structure Traced (q : BufferState) : Prop where
  token : ∀ read ∈ q.reads, ∃ id : UInt32, read.token = id.toUInt64 ∧
    id.toNat < q.pendingSlots.length
  same : ∀ read ∈ q.reads, ∀ slot, q.getPendingSlot read.token = some slot →
    slot.buffer = some read.buffer ∧ slot.io = read.io

theorem Traced.clears (traced : Traced q) (cleared : Clears q q') : Traced q' where
  token := by
    rw [cleared.reads, cleared.length]
    exact traced.token
  same := by
    rw [cleared.reads]
    intro read mem slot found
    obtain ⟨id, token, -⟩ := traced.token read mem
    rw [token] at found
    obtain ⟨at_id, used⟩ := getPendingSlot_token.1 found
    apply traced.same read mem slot
    rw [token]
    exact getPendingSlot_token.2 ⟨cleared.slots _ _ at_id used, used⟩

theorem Traced.dropRead (traced : Traced q) (i : Nat) :
    Traced { q with reads := q.reads.eraseIdx i } where
  token := fun read mem => traced.token read (List.eraseIdx_subset mem)
  same := fun read mem => traced.same read (List.eraseIdx_subset mem)

/-- The slots of other ids, after a read was prepared. -/
theorem BufferState.Prepares.others {id : UInt32} {buf : Address} {io : PendingIO}
    (prepared : Prepares q q' id buf io) {other : UInt32} (differs : other ≠ id)
    (bound : other.toNat < q.pendingSlots.length) :
    q'.pendingSlots[other.toNat]? = q.pendingSlots[other.toNat]? := by
  obtain ⟨base, old, slot, table, -, -, -, -, -, place⟩ := prepared.table
  have apart : id.toNat ≠ other.toNat := by
    intro eq
    exact differs (UInt32.toNat_inj.1 eq.symm)
  rw [table, List.getElem?_set_ne apart]
  rcases place with ⟨rfl, -⟩ | ⟨rfl, -⟩
  · rfl
  · exact List.getElem?_append_left bound

theorem BufferState.Prepares.length_le {id : UInt32} {buf : Address} {io : PendingIO}
    (prepared : Prepares q q' id buf io) : q.pendingSlots.length ≤ q'.pendingSlots.length := by
  obtain ⟨base, old, slot, table, -, -, -, -, -, place⟩ := prepared.table
  rw [table, List.length_set]
  rcases place with ⟨rfl, -⟩ | ⟨rfl, -⟩
  · rfl
  · simp

theorem BufferState.Prepares.here {id : UInt32} {buf : Address} {io : PendingIO}
    (prepared : Prepares q q' id buf io) : ∃ slot, q'.pendingSlots[id.toNat]? = some slot ∧
      slot.inUse = true ∧ slot.buffer = some buf ∧ slot.io = io := by
  obtain ⟨base, old, slot, table, used, holding, reading, at_id, -, -⟩ := prepared.table
  obtain ⟨bound, -⟩ := List.getElem?_eq_some_iff.1 at_id
  exact ⟨slot, by rw [table, List.getElem?_set_self bound], used, holding, reading⟩

/-- No outstanding read has the id of a new read, if its slot is unclaimed. -/
theorem BufferState.Prepares.token_ne {id : UInt32} {buf : Address} {io : PendingIO}
    (prepared : Prepares q q' id buf io)
    (token : ∀ read ∈ q.reads, ∃ id : UInt32, read.token = id.toUInt64 ∧
      id.toNat < q.pendingSlots.length)
    (unclaimed : ∀ read ∈ q.reads, ∀ id ∈ q.freePendingSlots.getLast?,
      read.token ≠ id.toUInt64) :
    ∀ read ∈ q.reads, ∃ other : UInt32, read.token = other.toUInt64 ∧ other ≠ id ∧
      other.toNat < q.pendingSlots.length := by
  intro read mem
  obtain ⟨other, isOther, bound⟩ := token read mem
  refine ⟨other, isOther, ?_, bound⟩
  intro same
  obtain ⟨base, old, slot, -, -, -, -, -, -, ⟨-, last⟩ | ⟨-, atEnd⟩⟩ := prepared.table
  · exact unclaimed read mem id last (by rw [isOther, same])
  · rw [same, atEnd] at bound
    exact lt_irrefl _ bound

theorem Traced.prepares {id : UInt32} {buf : Address} {io : PendingIO} (traced : Traced q)
    (prepared : Prepares q q' id buf io)
    (unclaimed : ∀ read ∈ q.reads, ∀ id ∈ q.freePendingSlots.getLast?,
      read.token ≠ id.toUInt64) : Traced q' := by
  have others := prepared.token_ne traced.token unclaimed
  obtain ⟨slot, at_id, used, holding, reading⟩ := prepared.here
  constructor
  · intro read mem
    rw [prepared.reads] at mem
    rcases List.mem_append.1 mem with old | new
    · obtain ⟨other, token, -, bound⟩ := others read old
      exact ⟨other, token, lt_of_lt_of_le bound prepared.length_le⟩
    · rw [List.mem_singleton] at new
      subst new
      exact ⟨id, rfl, (List.getElem?_eq_some_iff.1 at_id).1⟩
  · intro read mem found_slot found
    rw [prepared.reads] at mem
    rcases List.mem_append.1 mem with old | new
    · obtain ⟨other, token, differs, bound⟩ := others read old
      rw [token] at found
      obtain ⟨at_other, otherUsed⟩ := getPendingSlot_token.1 found
      rw [prepared.others differs bound] at at_other
      apply traced.same read old found_slot
      rw [token]
      exact getPendingSlot_token.2 ⟨at_other, otherUsed⟩
    · rw [List.mem_singleton] at new
      subst new
      obtain ⟨at_new, -⟩ := getPendingSlot_token.1 found
      rw [at_id, Option.some.injEq] at at_new
      subst at_new
      exact ⟨holding, reading⟩

/-- **A step keeps the books and the outstanding reads' slots**, and takes a completion
for its own read. -/
theorem bufferStep_kept (ok : Balanced {} q) (traced : Traced q) (safe : SlotUnclaimed q e)
    (taken : bufferStep vecBytes q e = some q') :
    Balanced {} q' ∧ Traced q' ∧ DeliveredAsPrepared ⟨q, e, q'⟩ := by
  obtain ⟨books, step⟩ := bufferStep_cases ok (fun prepares => (safe prepares).1) taken
  refine ⟨books, ?_⟩
  rcases step with ⟨prepares, id, buf, io, prepared⟩ | ⟨-, noCompletion, cleared, -⟩ |
      ⟨i, fresh, read, rfl, at_i, rfl⟩
  · refine ⟨traced.prepares prepared (safe prepares).2, ?_⟩
    intro i fresh read isCompletion
    dsimp only at isCompletion
    rw [isCompletion] at prepares
    cases prepares
  · refine ⟨traced.clears cleared, ?_⟩
    intro i fresh read isCompletion
    exact absurd isCompletion (noCompletion i fresh)
  · refine ⟨(traced.dropRead i).clears ((ok.dropRead i).dispatchCompletion_clears _ _ _), ?_⟩
    intro i' fresh' read' isCompletion at_i'
    rw [BufferEvent.complete.injEq] at isCompletion
    obtain ⟨rfl, rfl⟩ := isCompletion
    dsimp only at at_i' ⊢
    rw [at_i, Option.some.injEq] at at_i'
    subst at_i'
    split
    · rename_i slot found
      have same := traced.same read (List.mem_of_getElem? at_i) slot found
      rw [(ok.dropRead i).dispatchCompletion_delivered vecBytes fresh found, same.1, same.2]
    · rename_i absent
      have ignored : ({ q with reads := q.reads.eraseIdx i } : BufferState).getPendingSlot
          read.token = none := absent
      unfold dispatchCompletion
      rw [ignored]

/-! ## Runs -/

/-- The scheduler as the constructor leaves it: every primed buffer is in the pool and
every fixed index in its free list. -/
theorem construct_balanced (vecBytes : UInt32) {primed fixed : List Address}
    (distinct : (fixed ++ primed).Nodup) (registered : fixed.length ≤ 2 ^ 16) :
    Balanced {} (construct vecBytes primed fixed) where
  slots_le := by simp [construct]
  free_iff := by simp [construct]
  free_nodup := by simp [construct]
  vecOnly := by simp [construct, held]
  fixed := by
    intro index
    have back : ∀ i ∈ List.range fixed.length, (UInt16.ofNat i).toNat = i := by
      intro i mem
      rw [UInt16.toNat_ofNat']
      exact Nat.mod_eq_of_lt (lt_of_lt_of_le (List.mem_range.1 mem) registered)
    have nodup : ((List.range fixed.length).map UInt16.ofNat).Nodup := by
      apply List.Nodup.map_on _ List.nodup_range
      intro i mem j mem' same
      rw [← back i mem, same, back j mem']
    have listed : index ∈ (List.range fixed.length).map UInt16.ofNat ↔
        index.toNat < fixed.length := by
      rw [List.mem_map]
      constructor
      · rintro ⟨i, mem, same⟩
        rw [← same, back i mem]
        exact List.mem_range.1 mem
      · intro bound
        exact ⟨index.toNat, List.mem_range.2 bound, UInt16.ofNat_toNat⟩
    have share : ((List.range fixed.length).map UInt16.ofNat).count index =
        fixedShare fixed.length index := by
      rw [nodup.count, fixedShare]
      exact if_congr listed rfl rfl
    simp only [construct, held, List.filterMap_nil, List.count_nil, share]
    omega
  pooled := by simp [construct, held, BufferPool.prime, Function.comp_def]
  distinct := by simpa [construct, live] using distinct
  keys := by simp [construct]
  slot_ok := by simp [construct]

/-- **Slots, buffers and deliveries.**  In every run whose reads are prepared into slots
that no outstanding read holds, each slot id and each buffer has one owner in every
state, every completion is delivered as the read it was prepared as, and one whose slot
is not in use is ignored. -/
theorem slots_and_buffers_owned (vecBytes : UInt32) (primed fixed : List Address)
    (events : List BufferEvent) (distinct : (fixed ++ primed).Nodup)
    (registered : fixed.length ≤ 2 ^ 16)
    (unclaimed : ∀ t ∈ transitions (bufferStep vecBytes) (construct vecBytes primed fixed) events,
      SlotUnclaimed t.before t.event) :
    (∀ q ∈ states (bufferStep vecBytes) (construct vecBytes primed fixed) events,
      q.SlotsOwned ∧ q.BuffersOwned) ∧
    ∀ t ∈ transitions (bufferStep vecBytes) (construct vecBytes primed fixed) events,
      DeliveredAsPrepared t := by
  have start : Balanced {} (construct vecBytes primed fixed) ∧
      Traced (construct vecBytes primed fixed) :=
    ⟨construct_balanced vecBytes distinct registered, by simp [construct], by simp [construct]⟩
  have kept : ∀ q ∈ states (bufferStep vecBytes) (construct vecBytes primed fixed) events,
      Balanced {} q ∧ Traced q := by
    refine @invariant_states _ _ _ (fun q => Balanced {} q ∧ Traced q) _ _ start ?_
    intro t mem before
    obtain ⟨taken, -⟩ := transition_step mem
    obtain ⟨books, traced, -⟩ := bufferStep_kept before.1 before.2 (unclaimed t mem) taken
    exact ⟨books, traced⟩
  constructor
  · intro q mem
    exact ⟨(kept q mem).1.slotsOwned, (kept q mem).1.buffersOwned⟩
  · intro t mem
    obtain ⟨taken, visited⟩ := transition_step mem
    obtain ⟨books, traced⟩ := kept t.before visited
    exact (bufferStep_kept books traced (unclaimed t mem) taken).2.2

theorem slots_and_buffers_owned_two_reads :
    (∀ q ∈ states (bufferStep 8) (construct 8 [1] [2])
        [.emitVecOnly ⟨0, 8⟩ 3, .emitAll ⟨.vecAll, ⟨64, 24⟩, 24⟩ 3, .complete 1 3, .complete 0 4,
          .cleanupPendingSlots, .endQuery],
      q.SlotsOwned ∧ q.BuffersOwned) ∧
    ∀ t ∈ transitions (bufferStep 8) (construct 8 [1] [2])
        [.emitVecOnly ⟨0, 8⟩ 3, .emitAll ⟨.vecAll, ⟨64, 24⟩, 24⟩ 3, .complete 1 3, .complete 0 4,
          .cleanupPendingSlots, .endQuery],
      DeliveredAsPrepared t :=
  slots_and_buffers_owned 8 [1] [2] _ (by decide) (by decide) (by decide +kernel)

/-- A record's vector is read and delivered; the next vector read is refused by the ring
and its slot cleaned up; the payload read of the record gets that slot; and the refused
read, submitted along with it, completes first. -/
def lateRun : List BufferEvent :=
  [.emitVecOnly ⟨64, 24⟩ 100, .complete 0 200, .emitVecOnly ⟨0, 8⟩ 200, .cleanupPendingSlots,
    .fetchPayload ⟨64, 24⟩ 300, .complete 0 400]

/-- The vector read is delivered as the payload: another buffer, address and type than
it was prepared with. -/
theorem late_completion_delivered_as_payload :
    ¬ ∀ t ∈ transitions (bufferStep 8) (construct 8 [1] []) lateRun, DeliveredAsPrepared t := by
  intro law
  have late : ∃ t ∈ transitions (bufferStep 8) (construct 8 [1] []) lateRun,
      t.event = .complete 0 400 ∧
      t.before.reads[0]? = some ⟨0, 100, ⟨.vecOnly, ⟨0, 8⟩, 0, 8⟩⟩ ∧
      t.before.delivered = [⟨.vecOnly, some 100, ⟨64, 24⟩⟩] ∧
      t.after.delivered = [⟨.vecOnly, some 100, ⟨64, 24⟩⟩, ⟨.payload, some 1, ⟨64, 24⟩⟩] := by
    decide +kernel
  obtain ⟨t, mem, isCompletion, outstanding, before, after⟩ := late
  have asPrepared := law t mem 0 400 _ isCompletion outstanding
  split at asPrepared
  · rw [before, after] at asPrepared
    revert asPrepared
    decide
  · rw [asPrepared, before] at after
    revert after
    decide

/-! ## Draining before every cleanup -/

/-- The slots are cleaned up when no read is outstanding, and a slot id is left for each
read that is prepared. -/
def DrainedCleanup (q : BufferState) (e : BufferEvent) : Prop :=
  (e = .cleanupPendingSlots → q.reads = []) ∧ (e.prepares = true → q.room)

/-- Each outstanding read has a slot in use of its own. -/
structure Claimed (q : BufferState) : Prop where
  inUse : ∀ read ∈ q.reads, ∃ (id : UInt32) (slot : PendingSlot), read.token = id.toUInt64 ∧
    q.pendingSlots[id.toNat]? = some slot ∧ slot.inUse = true
  distinct : (q.reads.map PreparedRead.token).Nodup

theorem Claimed.token (claimed : Claimed q) : ∀ read ∈ q.reads, ∃ id : UInt32,
    read.token = id.toUInt64 ∧ id.toNat < q.pendingSlots.length := by
  intro read mem
  obtain ⟨id, slot, token, at_id, -⟩ := claimed.inUse read mem
  exact ⟨id, token, (List.getElem?_eq_some_iff.1 at_id).1⟩

/-- A claimed slot is not in the free list, so no new read gets it. -/
theorem Claimed.unclaimed (claimed : Claimed q) (ok : Balanced {} q) :
    ∀ read ∈ q.reads, ∀ id ∈ q.freePendingSlots.getLast?, read.token ≠ id.toUInt64 := by
  intro read mem id last same
  obtain ⟨other, slot, token, at_other, used⟩ := claimed.inUse read mem
  rw [token, UInt32.toUInt64_inj] at same
  obtain ⟨freed, at_id, unused⟩ := (ok.free_iff id).1 (List.mem_of_getLast? last)
  rw [← same, at_other, Option.some.injEq] at at_id
  rw [at_id, unused] at used
  cases used

theorem Claimed.prepares {id : UInt32} {buf : Address} {io : PendingIO} (claimed : Claimed q)
    (ok : Balanced {} q) (prepared : Prepares q q' id buf io) : Claimed q' := by
  have others := prepared.token_ne claimed.token (claimed.unclaimed ok)
  constructor
  · intro read mem
    rw [prepared.reads] at mem
    rcases List.mem_append.1 mem with old | new
    · obtain ⟨other, token, differs, bound⟩ := others read old
      obtain ⟨same, slot, token', at_same, used⟩ := claimed.inUse read old
      rw [token, UInt32.toUInt64_inj] at token'
      subst token'
      exact ⟨other, slot, token, by rw [prepared.others differs bound, at_same], used⟩
    · rw [List.mem_singleton] at new
      subst new
      obtain ⟨slot, at_id, used, -, -⟩ := prepared.here
      exact ⟨id, slot, rfl, at_id, used⟩
  · rw [prepared.reads, List.map_append, List.nodup_append]
    refine ⟨claimed.distinct, by simp, ?_⟩
    intro token mem new isNew
    obtain ⟨read, inReads, rfl⟩ := List.mem_map.1 mem
    obtain ⟨other, isOther, differs, -⟩ := others read inReads
    simp only [List.map_cons, List.map_nil, List.mem_singleton] at isNew
    rw [isNew, isOther]
    intro same
    exact differs (UInt32.toUInt64_inj.1 same)

/-- The reads other than the `i`-th have other tokens. -/
theorem Claimed.others_differ (claimed : Claimed q) {i : Nat} {read : PreparedRead}
    (at_i : q.reads[i]? = some read) :
    (∀ other ∈ q.reads.eraseIdx i, other.token ≠ read.token) ∧
      ((q.reads.eraseIdx i).map PreparedRead.token).Nodup := by
  obtain ⟨bound, eq⟩ := List.getElem?_eq_some_iff.1 at_i
  have perm := List.getElem_cons_eraseIdx_perm bound
  have nodup := (perm.map PreparedRead.token).nodup_iff.2 claimed.distinct
  rw [List.map_cons, List.nodup_cons, eq] at nodup
  refine ⟨?_, nodup.2⟩
  intro other mem same
  exact nodup.1 (same ▸ List.mem_map_of_mem mem)

theorem Claimed.complete (claimed : Claimed q) (ok : Balanced {} q) {i : Nat}
    {read : PreparedRead} (at_i : q.reads[i]? = some read) (fresh : Address) :
    Claimed (({ q with reads := q.reads.eraseIdx i } : BufferState).dispatchCompletion vecBytes
      fresh read.token) := by
  obtain ⟨differ, nodup⟩ := claimed.others_differ at_i
  obtain ⟨id, slot, token, at_id, used⟩ := claimed.inUse read (List.mem_of_getElem? at_i)
  have found : ({ q with reads := q.reads.eraseIdx i } : BufferState).getPendingSlot read.token =
      some slot := by
    rw [token]
    exact getPendingSlot_token.2 ⟨at_id, used⟩
  have slots := (ok.dropRead i).dispatchCompletion_slots vecBytes fresh found
  have reads := ((ok.dropRead i).dispatchCompletion_clears vecBytes fresh read.token).reads
  rw [token, UInt32.toUInt32_toUInt64] at slots
  constructor
  · rw [reads]
    intro other mem
    obtain ⟨otherId, otherSlot, otherToken, at_other, otherUsed⟩ :=
      claimed.inUse other (List.eraseIdx_subset mem)
    have apart : id.toNat ≠ otherId.toNat := by
      intro same
      apply differ other mem
      rw [otherToken, token, UInt32.toNat_inj.1 same]
    refine ⟨otherId, otherSlot, otherToken, ?_, otherUsed⟩
    rw [token, slots, List.getElem?_set_ne apart]
    exact at_other
  · rw [reads]
    exact nodup

/-- A step with drained cleanups keeps the outstanding reads' slots claimed. -/
theorem Claimed.step (claimed : Claimed q) (ok : Balanced {} q) (drained : DrainedCleanup q e)
    (taken : bufferStep vecBytes q e = some q') : Claimed q' := by
  obtain ⟨-, step⟩ := bufferStep_cases ok drained.2 taken
  rcases step with ⟨-, id, buf, io, prepared⟩ | ⟨-, -, cleared, isCleanup | same⟩ |
      ⟨i, fresh, read, rfl, at_i, rfl⟩
  · exact claimed.prepares ok prepared
  · have none : q'.reads = [] := cleared.reads.trans (drained.1 isCleanup)
    exact ⟨by simp [none], by simp [none]⟩
  · refine ⟨?_, ?_⟩
    · rw [cleared.reads, same]
      exact claimed.inUse
    · rw [cleared.reads]
      exact claimed.distinct
  · exact claimed.complete ok at_i fresh

/-- **Draining is enough.**  When every cleanup finds no read outstanding, no read is
prepared into an outstanding read's slot. -/
theorem unclaimed_of_drained (vecBytes : UInt32) (primed fixed : List Address)
    (events : List BufferEvent) (distinct : (fixed ++ primed).Nodup)
    (registered : fixed.length ≤ 2 ^ 16)
    (drained : ∀ t ∈ transitions (bufferStep vecBytes) (construct vecBytes primed fixed) events,
      DrainedCleanup t.before t.event) :
    ∀ t ∈ transitions (bufferStep vecBytes) (construct vecBytes primed fixed) events,
      SlotUnclaimed t.before t.event := by
  have start : Balanced {} (construct vecBytes primed fixed) ∧
      Claimed (construct vecBytes primed fixed) :=
    ⟨construct_balanced vecBytes distinct registered, by simp [construct], by simp [construct]⟩
  have kept : ∀ q ∈ states (bufferStep vecBytes) (construct vecBytes primed fixed) events,
      Balanced {} q ∧ Claimed q := by
    refine @invariant_states _ _ _ (fun q => Balanced {} q ∧ Claimed q) _ _ start ?_
    intro t mem before
    obtain ⟨taken, -⟩ := transition_step mem
    exact ⟨(bufferStep_cases before.1 (drained t mem).2 taken).1,
      before.2.step before.1 (drained t mem) taken⟩
  intro t mem prepares
  obtain ⟨-, visited⟩ := transition_step mem
  obtain ⟨ok, claimed⟩ := kept t.before visited
  exact ⟨(drained t mem).2 prepares, claimed.unclaimed ok⟩

end VecFetch.Query.Buffers
