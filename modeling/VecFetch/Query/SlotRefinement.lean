/-
# Query.SlotRefinement -- the scheduler's buffers refine the slots of a query

`QueryIo` says which read a slot holds and nothing of its buffer; `BufferState` knows whose each
buffer is.  While the slots are cleaned up only when no read is outstanding, each event of the
buffers is a run of the slots (`slotEvents`), whatever the reads return: the slots in use, the free
list and the reads under way agree, and the consumer gets the same reads (`buffers_refine_slots`).
So a run that leaves no read outstanding has delivered the reads it prepared
(`delivered_are_prepared`).
-/
import VecFetch.Query.Delivery
import VecFetch.Query.Slots

namespace VecFetch.Query.Buffers

open VecFetch.Theory

set_option autoImplicit false

/-- A slot without its buffer. -/
def PendingSlot.read (slot : PendingSlot) : Query.PendingSlot :=
  if slot.inUse then ⟨true, some slot.io, none⟩ else {}

/-- What happens to a query's slots at an event of its buffers; a completed read reports the
number beside it. -/
def slotEvents (vecBytes : UInt32) (e : BufferEvent × Int) : List QueryIoEvent :=
  match e.1 with
  | .emitAll plan _ => [.prepRead ⟨.vecAll, plan.addr, plan.addr.offset, plan.readLength⟩]
  | .emitVecOnly addr _ => [.prepRead ⟨.vecOnly, addr, addr.offset, vecBytes⟩]
  | .fetchPayload addr _ => [.prepRead (payloadRead vecBytes addr)]
  | .complete i _ => [.finishRead i e.2, .dispatch]
  | _ => []

/-- The slots of `s` are those of `q`, its reads under way those outstanding, and it has finished
what `q` has delivered. -/
structure Refines (q : BufferState) (s : QueryIo) : Prop where
  slots : s.pendingSlots = q.pendingSlots.map PendingSlot.read
  free : s.freePendingSlots = q.freePendingSlots.map UInt32.toNat
  reading : s.reading = q.reads.map fun read => read.token.toNat
  completions : s.completions = []
  delivered : q.delivered.map (fun d => (d.type, d.addr)) =
    s.finished.map fun c => (c.io.type, c.io.addr)
  busy : ∀ id slot, q.pendingSlots[id]? = some slot → slot.inUse = true → id ∈ s.reading

namespace Refines

open BufferState

variable {q q' : BufferState} {s : QueryIo} {vecBytes : UInt32}

theorem of_same (refines : Refines q s) (same : SameTable q q') : Refines q' s where
  slots := by rw [same.slots, refines.slots]
  free := by rw [same.free, refines.free]
  reading := by rw [same.reads, refines.reading]
  completions := refines.completions
  delivered := by rw [same.delivered, refines.delivered]
  busy := by
    rw [same.slots]
    exact refines.busy

/-! ## A read is prepared -/

/-- Both allocate the last freed slot, or a new one. -/
theorem allocate (refines : Refines q s) (space : q.room) (io : PendingIO) (buf : Address)
    (cleanup : PendingBufferCleanup) (index : UInt16) :
    Refines ((q.allocatePendingSlot io buf cleanup index).2.prepRead
      (q.allocatePendingSlot io buf cleanup index).1 buf io) (s.prepRead io) := by
  have last : s.freePendingSlots.getLast? = q.freePendingSlots.getLast?.map UInt32.toNat := by
    rw [refines.free, List.getLast?_map]
  have token (id : UInt32) : id.toUInt64.toNat = id.toNat := UInt32.toNat_toUInt64 id
  have newSlot : PendingSlot.read ⟨true, some buf, index, cleanup, io⟩ = ⟨true, some io, none⟩ := rfl
  rw [QueryIo.prepRead, QueryIo.allocatePendingSlot, BufferState.allocatePendingSlot, last]
  cases free : q.freePendingSlots.getLast? with
  | some id =>
      refine ⟨?_, ?_, ?_, refines.completions, refines.delivered, ?_⟩
      · simp only [Option.map_some, BufferState.prepRead, refines.slots, List.map_set, newSlot]
      · simp only [Option.map_some, BufferState.prepRead, refines.free, List.map_dropLast]
      · simp only [Option.map_some, BufferState.prepRead, refines.reading, List.map_append,
          List.map_cons, List.map_nil, token]
      · intro other slot at_other used
        simp only [Option.map_some, BufferState.prepRead, List.getElem?_set] at at_other ⊢
        split at at_other
        · next same => exact List.mem_append_right _ (List.mem_singleton.2 same.symm)
        · exact List.mem_append_left _ (refines.busy other slot at_other used)
  | none =>
      have small := space (List.getLast?_eq_none_iff.1 free)
      have id : (UInt32.ofNat q.pendingSlots.length).toNat = q.pendingSlots.length := by
        rw [UInt32.toNat_ofNat']
        exact Nat.mod_eq_of_lt small
      have table (slot : PendingSlot) : (q.pendingSlots ++ [({} : PendingSlot)]).set
          q.pendingSlots.length slot = q.pendingSlots ++ [slot] := by
        rw [List.set_append_right _ _ le_rfl, Nat.sub_self, List.set_cons_zero]
      have length : s.pendingSlots.length = q.pendingSlots.length := by
        rw [refines.slots, List.length_map]
      refine ⟨?_, refines.free, ?_, refines.completions, refines.delivered, ?_⟩
      · simp only [Option.map_none, BufferState.prepRead, id, table, refines.slots, List.map_append,
          List.map_cons, List.map_nil, newSlot]
      · simp only [Option.map_none, BufferState.prepRead, refines.reading, List.map_append,
          List.map_cons, List.map_nil, token, id, length]
      · intro other slot at_other used
        simp only [BufferState.prepRead, id, table] at at_other
        simp only [Option.map_none, length]
        rw [List.getElem?_append] at at_other
        split at at_other
        · exact List.mem_append_left _ (refines.busy other slot at_other used)
        · obtain ⟨bound, -⟩ := List.getElem?_eq_some_iff.1 at_other
          rw [List.length_singleton] at bound
          exact List.mem_append_right _ (List.mem_singleton.2 (by omega))

theorem emitPooled (refines : Refines q s) (space : q.room) (io : PendingIO) (fresh : Address) :
    Refines (q.emitPooled io fresh) (s.prepRead io) := by
  have same : SameTable q (q.acquirePooled io.readLength fresh).2 := ⟨rfl, rfl, rfl, rfl⟩
  exact (refines.of_same same).allocate space io _ .pool 0

theorem emitVecOnly (refines : Refines q s) (space : q.room) (addr : AddressEntry)
    (fresh : Address) : Refines (q.emitVecOnly vecBytes addr fresh)
      (s.prepRead ⟨.vecOnly, addr, addr.offset, vecBytes⟩) := by
  rw [BufferState.emitVecOnly]
  cases taken : q.tryAcquireFixedVecBuffer with
  | some acquired =>
      obtain ⟨buf, index, q'⟩ := acquired
      have same : SameTable q q' := by
        rw [tryAcquireFixedVecBuffer] at taken
        split at taken
        · split at taken
          · cases taken
            exact ⟨rfl, rfl, rfl, rfl⟩
          · cases taken
        · cases taken
      have kept : q'.room := by
        rw [room, same.slots, same.free]
        exact space
      exact (refines.of_same same).allocate kept _ buf .fixedVec index
  | none =>
      have same : SameTable q (q.acquireVecOnlyBuffer fresh).2 := by
        rw [acquireVecOnlyBuffer]
        split <;> exact ⟨rfl, rfl, rfl, rfl⟩
      have kept : (q.acquireVecOnlyBuffer fresh).2.room := by
        rw [room, same.slots, same.free]
        exact space
      exact (refines.of_same same).allocate kept _ _ .vecPool 0

/-! ## A read is completed -/

/-- A read that is finished while nothing waits is dispatched at once: its slot is freed. -/
theorem finish_dispatch {id i : Nat} {io : PendingIO} (idle : s.completions = [])
    (reading : s.reading[i]? = some id)
    (holds : s.pendingSlots[id]? = some ⟨true, some io, none⟩) (res : Int) :
    run (queryIoStep vecBytes) s [.finishRead i res, .dispatch] = some { s with
      pendingSlots := s.pendingSlots.set id {}
      freePendingSlots := s.freePendingSlots ++ [id]
      reading := s.reading.eraseIdx i
      completions := []
      reranker := QueryIo.consume vecBytes s.reranker ⟨io, res⟩
      finished := s.finished ++ [⟨io, res⟩] } := by
  obtain ⟨bound, -⟩ := List.getElem?_eq_some_iff.1 holds
  have finish : s.finishRead i res = some { s with
      pendingSlots := s.pendingSlots.set id ⟨true, some io, some res⟩
      reading := s.reading.eraseIdx i
      completions := [id]
      finished := s.finished ++ [⟨io, res⟩] } := by
    rw [QueryIo.finishRead, reading]
    dsimp only
    rw [holds, idle]
    rfl
  have here : (s.pendingSlots.set id ⟨true, some io, some res⟩)[id]? =
      some ⟨true, some io, some res⟩ := List.getElem?_set_self bound
  rw [run, queryIoStep, finish, Option.bind_some, run, queryIoStep, QueryIo.dispatchNext]
  dsimp only
  rw [QueryIo.dispatchCompletion, QueryIo.getPendingSlot]
  dsimp only
  rw [here]
  dsimp only
  rw [if_pos rfl]
  dsimp only
  rw [QueryIo.releasePendingSlot, if_neg (by simpa using bound), List.set_set]
  rfl

/-- The completion of an outstanding read finds its slot, in both. -/
theorem complete (refines : Refines q s) (ok : Balanced {} q) (claimed : Claimed q) {i : Nat}
    {read : PreparedRead} (at_i : q.reads[i]? = some read) (fresh : Address) (res : Int) :
    ∃ s', run (queryIoStep vecBytes) s [.finishRead i res, .dispatch] = some s' ∧
      Refines (({ q with reads := q.reads.eraseIdx i } : BufferState).dispatchCompletion vecBytes
        fresh read.token) s' := by
  obtain ⟨id, slot, token, at_id, used⟩ := claimed.inUse read (List.mem_of_getElem? at_i)
  have found : ({ q with reads := q.reads.eraseIdx i } : BufferState).getPendingSlot read.token =
      some slot := by
    rw [token]
    exact getPendingSlot_token.2 ⟨at_id, used⟩
  have slots := (ok.dropRead i).dispatchCompletion_slots vecBytes fresh found
  have free := (ok.dropRead i).dispatchCompletion_free vecBytes fresh found
  have delivered := (ok.dropRead i).dispatchCompletion_delivered vecBytes fresh found
  have reads := ((ok.dropRead i).dispatchCompletion_clears vecBytes fresh read.token).reads
  have number : read.token.toNat = id.toNat := by rw [token, UInt32.toNat_toUInt64]
  have same : read.token.toUInt32 = id := by rw [token, UInt32.toUInt32_toUInt64]
  rw [same] at slots free
  have reading : s.reading[i]? = some id.toNat := by
    rw [refines.reading, List.getElem?_map, at_i, Option.map_some, number]
  have holds : s.pendingSlots[id.toNat]? = some ⟨true, some slot.io, none⟩ := by
    rw [refines.slots, List.getElem?_map, at_id, Option.map_some, PendingSlot.read, if_pos used]
  refine ⟨_, finish_dispatch refines.completions reading holds res, ⟨?_, ?_, ?_, rfl, ?_, ?_⟩⟩
  · rw [slots, refines.slots, List.map_set]
    rfl
  · rw [free, List.map_append, refines.free]
    rfl
  · rw [reads, refines.reading, ← List.eraseIdx_map]
  · rw [delivered, List.map_append, List.map_append, refines.delivered]
    rfl
  · intro other slot' at_other used'
    rw [slots, List.getElem?_set] at at_other
    split at at_other
    · split at at_other
      · cases at_other
        cases used'
      · cases at_other
    · next apart =>
        -- the slot of another read, which stays outstanding
        obtain ⟨j, there⟩ := List.mem_iff_getElem?.1 (refines.busy other slot' at_other used')
        have further : j ≠ i := by
          rintro rfl
          rw [reading, Option.some.injEq] at there
          exact apart there
        exact List.mem_eraseIdx_iff_getElem?.2 ⟨j, further, there⟩

/-! ## Runs -/

/-- With no read outstanding there is nothing to clean up. -/
theorem cleanup_idle (refines : Refines q s) (idle : q.reads = []) :
    q.cleanupPendingSlots = q := by
  have none : s.reading = [] := by rw [refines.reading, idle, List.map_nil]
  refine List.foldl_fixed' (fun i => ?_) _
  rw [cleanupSlot]
  split
  · next slot at_id =>
      rw [if_neg]
      intro used
      have busy := refines.busy _ slot at_id used
      rw [none] at busy
      cases busy
  · rfl

/-- **Each step of the buffers is a run of the slots.** -/
theorem step {e : BufferEvent × Int} (refines : Refines q s) (ok : Balanced {} q)
    (claimed : Claimed q) (drained : DrainedCleanup q e.1)
    (taken : bufferStep vecBytes q e.1 = some q') :
    ∃ s', run (queryIoStep vecBytes) s (slotEvents vecBytes e) = some s' ∧ Refines q' s' := by
  obtain ⟨event, res⟩ := e
  unfold bufferStep at taken
  split at taken
  · cases taken
  cases event with
  | emitAll plan fresh =>
      cases taken
      exact ⟨_, rfl, refines.emitPooled (drained.2 rfl) _ fresh⟩
  | emitVecOnly addr fresh =>
      cases taken
      exact ⟨_, rfl, refines.emitVecOnly (drained.2 rfl) addr fresh⟩
  | fetchPayload addr fresh =>
      cases taken
      exact ⟨_, rfl, refines.emitPooled (drained.2 rfl) (payloadRead vecBytes addr) fresh⟩
  | complete i fresh =>
      obtain ⟨read, at_i, rfl⟩ := Option.map_eq_some_iff.1 taken
      exact refines.complete ok claimed at_i fresh res
  | cleanupPendingSlots =>
      cases taken
      rw [refines.cleanup_idle (drained.1 rfl)]
      exact ⟨s, rfl, refines⟩
  | takePayload offset =>
      cases taken
      exact ⟨s, rfl, refines.of_same (dropPayload_table offset q)⟩
  | endQuery =>
      cases taken
      exact ⟨s, rfl, refines.of_same (endQuery_table q)⟩

end Refines

open BufferState

/-- The step of the buffers, with what a completed read reports. -/
def reportedStep (vecBytes : UInt32) (q : BufferState) (e : BufferEvent × Int) :
    Option BufferState :=
  bufferStep vecBytes q e.1

/-- **The buffers refine the slots.**  A run of the buffers whose cleanups find no read outstanding
is a run of the slots, whatever the reads return. -/
theorem buffers_refine_slots (vecBytes : UInt32) (primed fixed : List Address)
    (events : List (BufferEvent × Int)) (distinct : (fixed ++ primed).Nodup)
    (registered : fixed.length ≤ 2 ^ 16)
    (drained : ∀ t ∈ transitions (reportedStep vecBytes) (construct vecBytes primed fixed) events,
      DrainedCleanup t.before t.event.1)
    {q : BufferState}
    (ran : run (reportedStep vecBytes) (construct vecBytes primed fixed) events = some q) :
    ∃ s, run (queryIoStep vecBytes) {} (events.flatMap (slotEvents vecBytes)) = some s ∧
      Refines q s := by
  have start : Balanced {} (construct vecBytes primed fixed) ∧
      Claimed (construct vecBytes primed fixed) ∧ Refines (construct vecBytes primed fixed) {} :=
    ⟨construct_balanced vecBytes distinct registered, ⟨by simp [construct], by simp [construct]⟩,
      ⟨rfl, rfl, rfl, rfl, rfl, fun id slot at_id => by simp [construct] at at_id⟩⟩
  obtain ⟨s, ran', -, -, refines⟩ := @run_simulates _ _ (reportedStep vecBytes) _ _
    (queryIoStep vecBytes) (fun q s => Balanced {} q ∧ Claimed q ∧ Refines q s)
    (fun q e => DrainedCleanup q e.1) (slotEvents vecBytes)
    (fun q s e q' held drained taken => by
      obtain ⟨ok, claimed, refines⟩ := held
      obtain ⟨s', steps, refines'⟩ := refines.step ok claimed drained taken
      exact ⟨s', steps, (bufferStep_cases ok drained.2 taken).1, claimed.step ok drained taken,
        refines'⟩) _ _ _ _ start drained ran
  exact ⟨s, ran', refines⟩

/-- **A run that leaves no read outstanding has delivered what it prepared.** -/
theorem delivered_are_prepared (vecBytes : UInt32) (primed fixed : List Address)
    (events : List (BufferEvent × Int)) (distinct : (fixed ++ primed).Nodup)
    (registered : fixed.length ≤ 2 ^ 16)
    (drained : ∀ t ∈ transitions (reportedStep vecBytes) (construct vecBytes primed fixed) events,
      DrainedCleanup t.before t.event.1)
    {q : BufferState}
    (ran : run (reportedStep vecBytes) (construct vecBytes primed fixed) events = some q)
    (idle : q.reads = []) :
    (q.delivered.map fun d => (d.type, d.addr)).Perm
      (((events.flatMap (slotEvents vecBytes)).filterMap QueryIoEvent.prepared?).map
        fun io => (io.type, io.addr)) := by
  obtain ⟨s, ran', refines⟩ :=
    buffers_refine_slots vecBytes primed fixed events distinct registered drained ran
  have noSlots : QueryIo.SlotsOk {} :=
    ⟨by simp, by simp, List.nodup_nil, by simp, List.nodup_nil⟩
  have done : s.drained := ⟨by rw [refines.reading, idle, List.map_nil], refines.completions⟩
  obtain ⟨reads, -, finished, -, -, perm⟩ := QueryIo.drained_run noSlots ⟨rfl, rfl⟩ ran' done
  rw [refines.delivered, finished, List.nil_append]
  have same := (perm.map fun io : PendingIO => (io.type, io.addr)).symm
  rwa [List.map_map] at same

end VecFetch.Query.Buffers
