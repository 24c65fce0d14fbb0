/-
# Query.Slots -- every completion is dispatched to the read it belongs to

The slot of a read in the reader's hands is in use and holds the read; a freed slot
is not.  So the ids never collide, and the consumer sees exactly the reads that were
finished, in the order they finished (`drained_run`).
-/
import VecFetch.Query.Completion
import Mathlib.Data.List.Basic

namespace VecFetch.Query

open VecFetch.Theory

set_option autoImplicit false

namespace QueryIo

/-- The read in a slot. -/
def ioOf (q : QueryIo) (id : Nat) : Option PendingIO := q.pendingSlots[id]?.bind PendingSlot.io

/-- The finished read in a slot. -/
def originOf (q : QueryIo) (id : Nat) : Option ReadCompletion :=
  match q.pendingSlots[id]? with
  | some ⟨_, some io, some res⟩ => some ⟨io, res⟩
  | _ => none

/-- The slot table agrees with what the reader and the free list hold. -/
structure SlotsOk (q : QueryIo) : Prop where
  reading : ∀ id ∈ q.reading, ∃ io, q.pendingSlots[id]? = some ⟨true, some io, none⟩
  completed : ∀ id ∈ q.completions, ∃ io res,
    q.pendingSlots[id]? = some ⟨true, some io, some res⟩
  distinct : (q.reading ++ q.completions).Nodup
  free : ∀ id ∈ q.freePendingSlots, ∃ slot, q.pendingSlots[id]? = some slot ∧ slot.inUse = false
  free_distinct : q.freePendingSlots.Nodup

/-- An id in the reader's hands names a slot in use. -/
theorem SlotsOk.inUse {q : QueryIo} (ok : q.SlotsOk) {id : Nat}
    (mem : id ∈ q.reading ++ q.completions) :
    ∃ slot, q.pendingSlots[id]? = some slot ∧ slot.inUse = true := by
  rcases List.mem_append.1 mem with h | h
  · obtain ⟨io, eq⟩ := ok.reading id h
    exact ⟨_, eq, rfl⟩
  · obtain ⟨io, res, eq⟩ := ok.completed id h
    exact ⟨_, eq, rfl⟩

/-- What `AllocatePendingSlot` gives: an id that was not in use, whose slot now holds
the read, every other slot unchanged. -/
theorem allocatePendingSlot_spec (io : PendingIO) {q : QueryIo} (ok : q.SlotsOk) :
    ∃ id slots free, q.allocatePendingSlot io =
        (id, { q with pendingSlots := slots, freePendingSlots := free }) ∧
      (∀ slot, q.pendingSlots[id]? = some slot → slot.inUse = false) ∧
      slots[id]? = some ⟨true, some io, none⟩ ∧
      (∀ other slot, other ≠ id → q.pendingSlots[other]? = some slot → slots[other]? = some slot) ∧
      free.Nodup ∧ (∀ other ∈ free, other ≠ id ∧ other ∈ q.freePendingSlots) := by
  unfold allocatePendingSlot
  split
  · rename_i id last
    obtain ⟨front, split⟩ := List.getLast?_eq_some_iff.1 last
    have inFree : id ∈ q.freePendingSlots := by rw [split]; simp
    obtain ⟨slot, at_id, unused⟩ := ok.free id inFree
    obtain ⟨bound, -⟩ := List.getElem?_eq_some_iff.1 at_id
    have nodup := ok.free_distinct
    rw [split, List.nodup_append] at nodup
    refine ⟨id, _, _, rfl, ?_, ?_, ?_, ?_, ?_⟩
    · intro slot' at_id'
      rw [at_id] at at_id'
      exact Option.some.inj at_id' ▸ unused
    · rw [List.getElem?_set_self bound]
    · intro other slot' differs at_other
      rw [List.getElem?_set_ne differs.symm, at_other]
    · rw [split, List.dropLast_concat]
      exact nodup.1
    · intro other mem
      rw [split, List.dropLast_concat] at mem
      exact ⟨fun same => nodup.2.2 other mem id (by simp) same, by rw [split]; simp [mem]⟩
  · rename_i last
    have noFree : q.freePendingSlots = [] := List.getLast?_eq_none_iff.1 last
    refine ⟨_, _, q.freePendingSlots, rfl, ?_, ?_, ?_, ok.free_distinct, by simp [noFree]⟩
    · intro slot at_end
      simp at at_end
    · simp
    · intro other slot differs at_other
      obtain ⟨bound, -⟩ := List.getElem?_eq_some_iff.1 at_other
      rw [List.getElem?_append_left bound, at_other]

/-! ## What the consumer has seen -/

variable (vecBytes : UInt32)

/-- One finished read reaches the consumer. -/
def consume (r : RerankConsumer) (c : ReadCompletion) : RerankConsumer :=
  match c.io.type with
  | .vecOnly => r.consumeVec vecBytes c
  | .vecAll => r.consumeAll vecBytes c
  | .payload => r.consumePayload c

/-- `q` comes from `start` by preparing the reads `new`, finishing and dispatching the
reads `done`; what else is finished waits in the completion queue. -/
structure Progress (start : QueryIo) (new : List PendingIO) (done : List ReadCompletion)
    (q : QueryIo) : Prop where
  slots : q.SlotsOk
  prepared : q.prepared = start.prepared ++ new
  finished : q.finished = start.finished ++ done ++ q.completions.filterMap q.originOf
  reranker : q.reranker = done.foldl (consume vecBytes) start.reranker
  reads : new.Perm ((done ++ q.completions.filterMap q.originOf).map ReadCompletion.io ++
    q.reading.filterMap q.ioOf)

theorem Progress.start {q : QueryIo} (slots : q.SlotsOk) (drained : q.drained) :
    Progress vecBytes q [] [] q where
  slots := slots
  prepared := by simp
  finished := by simp [drained.2]
  reranker := rfl
  reads := by simp [drained.1, drained.2]

variable {vecBytes} {start : QueryIo} {new : List PendingIO} {done : List ReadCompletion}
  {q : QueryIo}

/-- Ids whose slots did not change still name the same finished reads. -/
theorem origins_of_same {q' : QueryIo} {ids : List Nat}
    (same : ∀ id ∈ ids, q'.pendingSlots[id]? = q.pendingSlots[id]?) :
    ids.filterMap q'.originOf = ids.filterMap q.originOf :=
  List.filterMap_congr fun id mem => by rw [originOf, originOf, same id mem]

/-- ... and the same reads under way. -/
theorem ios_of_same {q' : QueryIo} {ids : List Nat}
    (same : ∀ id ∈ ids, q'.pendingSlots[id]? = q.pendingSlots[id]?) :
    ids.filterMap q'.ioOf = ids.filterMap q.ioOf :=
  List.filterMap_congr fun id mem => by rw [ioOf, ioOf, same id mem]

theorem Progress.prepRead (ok : Progress vecBytes start new done q) (io : PendingIO) :
    Progress vecBytes start (new ++ [io]) done (q.prepRead io) := by
  obtain ⟨id, slots, free, allocated, wasFree, atId, others, freeNodup, freeOld⟩ :=
    allocatePendingSlot_spec io ok.slots
  have fresh : ∀ other ∈ q.reading ++ q.completions, other ≠ id := by
    rintro other mem rfl
    obtain ⟨slot, at_other, used⟩ := ok.slots.inUse mem
    rw [wasFree slot at_other] at used
    cases used
  have kept : ∀ other ∈ q.reading ++ q.completions, slots[other]? = q.pendingSlots[other]? := by
    intro other mem
    obtain ⟨slot, at_other, -⟩ := ok.slots.inUse mem
    rw [at_other]
    exact others other slot (fresh other mem) at_other
  have slotsEq : (q.prepRead io).pendingSlots = slots := by simp [QueryIo.prepRead, allocated]
  have origins : q.completions.filterMap (q.prepRead io).originOf =
      q.completions.filterMap q.originOf :=
    origins_of_same fun other mem => slotsEq ▸ kept other (List.mem_append_right _ mem)
  have ios : q.reading.filterMap (q.prepRead io).ioOf = q.reading.filterMap q.ioOf :=
    ios_of_same fun other mem => slotsEq ▸ kept other (List.mem_append_left _ mem)
  have newIo : (q.prepRead io).ioOf id = some io := by
    simp [ioOf, QueryIo.prepRead, allocated, atId]
  have reading : (q.prepRead io).reading = q.reading ++ [id] := by
    simp [QueryIo.prepRead, allocated]
  have completions : (q.prepRead io).completions = q.completions := by
    simp [QueryIo.prepRead, allocated]
  refine ⟨⟨?_, ?_, ?_, ?_, ?_⟩, ?_, ?_, ?_, ?_⟩
  · intro other mem
    rw [reading] at mem
    simp only [QueryIo.prepRead, allocated]
    rcases List.mem_append.1 mem with h | h
    · obtain ⟨io', at_other⟩ := ok.slots.reading other h
      exact ⟨io', (kept other (List.mem_append_left _ h)).trans at_other⟩
    · exact ⟨io, List.mem_singleton.1 h ▸ atId⟩
  · intro other mem
    rw [completions] at mem
    obtain ⟨io', res, at_other⟩ := ok.slots.completed other mem
    simp only [QueryIo.prepRead, allocated]
    exact ⟨io', res, (kept other (List.mem_append_right _ mem)).trans at_other⟩
  · rw [reading, completions]
    have perm : (q.reading ++ [id] ++ q.completions).Perm (id :: (q.reading ++ q.completions)) := by
      simp [List.perm_middle]
    exact perm.nodup_iff.2 (List.nodup_cons.2 ⟨fun mem => fresh id mem rfl, ok.slots.distinct⟩)
  · intro other mem
    simp only [QueryIo.prepRead, allocated] at mem ⊢
    obtain ⟨differs, inOld⟩ := freeOld other mem
    obtain ⟨slot, at_other, unused⟩ := ok.slots.free other inOld
    exact ⟨slot, others other slot differs at_other, unused⟩
  · simpa [QueryIo.prepRead, allocated] using freeNodup
  · simp [QueryIo.prepRead, allocated, ok.prepared]
  · rw [completions, origins]
    simpa [QueryIo.prepRead, allocated] using ok.finished
  · simpa [QueryIo.prepRead, allocated] using ok.reranker
  · rw [completions, reading, origins, List.filterMap_append, ios]
    simp only [List.filterMap_cons, newIo, List.filterMap_nil]
    rw [← List.append_assoc]
    exact ok.reads.append_right [io]

theorem Progress.finishRead (ok : Progress vecBytes start new done q) {i : Nat} {res : Int}
    {q' : QueryIo} (finished : q.finishRead i res = some q') :
    Progress vecBytes start new done q' := by
  unfold QueryIo.finishRead at finished
  split at finished
  · cases finished
  rename_i id at_i
  obtain ⟨bound, idEq⟩ := List.getElem?_eq_some_iff.1 at_i
  have inReading : id ∈ q.reading := idEq ▸ List.getElem_mem bound
  obtain ⟨io, at_id⟩ := ok.slots.reading id inReading
  rw [at_id] at finished
  obtain rfl := Option.some.inj finished
  have rest : (id :: q.reading.eraseIdx i).Perm q.reading := by
    rw [← idEq]
    exact List.getElem_cons_eraseIdx_perm bound
  have distinct : (id :: (q.reading.eraseIdx i ++ q.completions)).Nodup :=
    (rest.append_right q.completions).nodup_iff.2 ok.slots.distinct
  obtain ⟨notElsewhere, restDistinct⟩ := List.nodup_cons.1 distinct
  obtain ⟨slotBound, -⟩ := List.getElem?_eq_some_iff.1 at_id
  set slots := q.pendingSlots.set id ⟨true, some io, some res⟩ with hslots
  have others : ∀ other, other ≠ id → slots[other]? = q.pendingSlots[other]? :=
    fun other differs => List.getElem?_set_ne differs.symm
  have atId : slots[id]? = some ⟨true, some io, some res⟩ := List.getElem?_set_self slotBound
  have inRest : ∀ other ∈ q.reading.eraseIdx i, other ≠ id ∧ other ∈ q.reading := fun other mem =>
    ⟨fun same => notElsewhere (same ▸ List.mem_append_left _ mem), List.mem_of_mem_eraseIdx mem⟩
  have inCompletions : ∀ other ∈ q.completions, other ≠ id := fun other mem same =>
    notElsewhere (same ▸ List.mem_append_right _ mem)
  generalize hq' : ({ q with
    reading := q.reading.eraseIdx i
    completions := q.completions ++ [id]
    pendingSlots := slots
    finished := q.finished ++ [⟨io, res⟩] } : QueryIo) = q'
  have slotsEq : q'.pendingSlots = slots := hq' ▸ rfl
  have readingEq : q'.reading = q.reading.eraseIdx i := hq' ▸ rfl
  have completionsEq : q'.completions = q.completions ++ [id] := hq' ▸ rfl
  have finishedEq : q'.finished = q.finished ++ [⟨io, res⟩] := hq' ▸ rfl
  have preparedEq : q'.prepared = q.prepared := hq' ▸ rfl
  have rerankerEq : q'.reranker = q.reranker := hq' ▸ rfl
  have freeEq : q'.freePendingSlots = q.freePendingSlots := hq' ▸ rfl
  have origins : q'.completions.filterMap q'.originOf =
      q.completions.filterMap q.originOf ++ [⟨io, res⟩] := by
    rw [completionsEq, List.filterMap_append]
    congr 1
    · exact origins_of_same fun other mem => slotsEq ▸ others other (inCompletions other mem)
    · simp [originOf, slotsEq, atId]
  have ios : (q.reading.filterMap q.ioOf).Perm (io :: q'.reading.filterMap q'.ioOf) := by
    have same : q'.reading.filterMap q'.ioOf = (q.reading.eraseIdx i).filterMap q.ioOf := by
      rw [readingEq]
      exact ios_of_same fun other mem => slotsEq ▸ others other (inRest other mem).1
    have idIo : q.ioOf id = some io := by simp [ioOf, at_id]
    have := rest.symm.filterMap q.ioOf
    rwa [List.filterMap_cons_some idIo, ← same] at this
  refine ⟨⟨?_, ?_, ?_, ?_, ?_⟩, ?_, ?_, ?_, ?_⟩
  · intro other mem
    obtain ⟨differs, old⟩ := inRest other (readingEq ▸ mem)
    obtain ⟨io', at_other⟩ := ok.slots.reading other old
    exact ⟨io', by rw [slotsEq, others other differs, at_other]⟩
  · intro other mem
    rw [completionsEq] at mem
    rcases List.mem_append.1 mem with h | h
    · obtain ⟨io', res', at_other⟩ := ok.slots.completed other h
      exact ⟨io', res', by rw [slotsEq, others other (inCompletions other h), at_other]⟩
    · exact ⟨io, res, by rw [slotsEq, List.mem_singleton.1 h, atId]⟩
  · rw [readingEq, completionsEq]
    have perm : (q.reading.eraseIdx i ++ (q.completions ++ [id])).Perm
        (id :: (q.reading.eraseIdx i ++ q.completions)) := by
      rw [← List.append_assoc]
      exact List.perm_append_singleton id _
    exact perm.nodup_iff.2 distinct
  · intro other mem
    obtain ⟨slot, at_other, unused⟩ := ok.slots.free other (freeEq ▸ mem)
    have differs : other ≠ id := by
      rintro rfl
      rw [at_id] at at_other
      obtain rfl := Option.some.inj at_other
      cases unused
    exact ⟨slot, by rw [slotsEq, others other differs, at_other], unused⟩
  · rw [freeEq]
    exact ok.slots.free_distinct
  · rw [preparedEq, ok.prepared]
  · rw [finishedEq, origins, ok.finished, List.append_assoc]
  · rw [rerankerEq, ok.reranker]
  · rw [origins]
    refine ok.reads.trans ?_
    have := ios.append_left ((done ++ q.completions.filterMap q.originOf).map ReadCompletion.io)
    simpa using this

/-- **A dispatch consumes the read the completion belongs to.** -/
theorem Progress.dispatchNext (ok : Progress vecBytes start new done q) {q' : QueryIo}
    (dispatched : q.dispatchNext vecBytes = some q') :
    ∃ done', Progress vecBytes start new done' q' := by
  unfold QueryIo.dispatchNext at dispatched
  split at dispatched
  · cases dispatched
  rename_i token rest completions
  obtain ⟨io, res, at_token⟩ := ok.slots.completed token (completions ▸ List.mem_cons_self)
  obtain ⟨bound, -⟩ := List.getElem?_eq_some_iff.1 at_token
  have distinct := ok.slots.distinct
  rw [completions] at distinct
  have perm : (q.reading ++ token :: rest).Perm (token :: (q.reading ++ rest)) := List.perm_middle
  obtain ⟨notElsewhere, restDistinct⟩ := List.nodup_cons.1 (perm.nodup_iff.1 distinct)
  have tokenOrigin : q.originOf token = some ⟨io, res⟩ := by simp [originOf, at_token]
  have others : ∀ other, other ≠ token →
      (q.pendingSlots.set token {})[other]? = q.pendingSlots[other]? :=
    fun other differs => List.getElem?_set_ne differs.symm
  have released : q' =
      { q with
        completions := rest
        reranker := consume vecBytes q.reranker ⟨io, res⟩
        pendingSlots := q.pendingSlots.set token {}
        freePendingSlots := q.freePendingSlots ++ [token] } := by
    obtain rfl := Option.some.inj dispatched
    have got : getPendingSlot token { q with completions := rest } =
        some ⟨true, some io, some res⟩ := by
      simp [getPendingSlot, at_token]
    unfold dispatchCompletion releasePendingSlot
    rw [got]
    exact if_neg (Nat.not_le.2 bound)
  have slotsEq : q'.pendingSlots = q.pendingSlots.set token {} := released ▸ rfl
  have readingEq : q'.reading = q.reading := released ▸ rfl
  have completionsEq : q'.completions = rest := released ▸ rfl
  have finishedEq : q'.finished = q.finished := released ▸ rfl
  have preparedEq : q'.prepared = q.prepared := released ▸ rfl
  have rerankerEq : q'.reranker = consume vecBytes q.reranker ⟨io, res⟩ := released ▸ rfl
  have freeEq : q'.freePendingSlots = q.freePendingSlots ++ [token] := released ▸ rfl
  have differ : ∀ other ∈ q.reading ++ rest, other ≠ token := fun other mem same =>
    notElsewhere (same ▸ mem)
  have origins : q.completions.filterMap q.originOf =
      ⟨io, res⟩ :: q'.completions.filterMap q'.originOf := by
    rw [completions, List.filterMap_cons_some tokenOrigin, completionsEq]
    refine congrArg _ (origins_of_same fun other mem => ?_).symm
    rw [slotsEq, others other (differ other (List.mem_append_right _ mem))]
  have ios : q'.reading.filterMap q'.ioOf = q.reading.filterMap q.ioOf := by
    rw [readingEq]
    refine ios_of_same fun other mem => ?_
    rw [slotsEq, others other (differ other (List.mem_append_left _ mem))]
  refine ⟨done ++ [⟨io, res⟩], ⟨⟨?_, ?_, ?_, ?_, ?_⟩, ?_, ?_, ?_, ?_⟩⟩
  · intro other mem
    rw [readingEq] at mem
    obtain ⟨io', at_other⟩ := ok.slots.reading other mem
    exact ⟨io', by rw [slotsEq, others other (differ other (List.mem_append_left _ mem)), at_other]⟩
  · intro other mem
    rw [completionsEq] at mem
    obtain ⟨io', res', at_other⟩ := ok.slots.completed other
      (completions ▸ List.mem_cons_of_mem _ mem)
    exact ⟨io', res', by
      rw [slotsEq, others other (differ other (List.mem_append_right _ mem)), at_other]⟩
  · rw [readingEq, completionsEq]
    exact restDistinct
  · intro other mem
    rw [freeEq] at mem
    by_cases same : other = token
    · exact ⟨{}, by rw [slotsEq, same, List.getElem?_set_self bound], rfl⟩
    · have old : other ∈ q.freePendingSlots := by simpa [same] using mem
      obtain ⟨slot, at_other, unused⟩ := ok.slots.free other old
      exact ⟨slot, by rw [slotsEq, others other same, at_other], unused⟩
  · rw [freeEq, List.nodup_append]
    refine ⟨ok.slots.free_distinct, by simp, ?_⟩
    intro other mem token' mem' same
    obtain ⟨slot, at_other, unused⟩ := ok.slots.free other mem
    rw [same, List.mem_singleton.1 mem', at_token] at at_other
    obtain rfl := Option.some.inj at_other
    cases unused
  · rw [preparedEq, ok.prepared]
  · rw [finishedEq, ok.finished, origins]
    simp
  · rw [rerankerEq, ok.reranker, List.foldl_append]
    rfl
  · rw [ios]
    refine ok.reads.trans ?_
    rw [origins]
    simp

end QueryIo

/-! ## Runs -/

/-- The read an event prepares. -/
def QueryIoEvent.prepared? : QueryIoEvent → Option PendingIO
  | .prepRead io => some io
  | _ => none

namespace QueryIo

variable {vecBytes : UInt32} {start : QueryIo} {new : List PendingIO}
  {done : List ReadCompletion} {q : QueryIo}

theorem Progress.run (events : List QueryIoEvent) (ok : Progress vecBytes start new done q)
    {q' : QueryIo} (ran : Theory.run (queryIoStep vecBytes) q events = some q') :
    ∃ done', Progress vecBytes start (new ++ events.filterMap QueryIoEvent.prepared?) done' q' := by
  induction events generalizing new done q with
  | nil => exact ⟨done, by simpa using Option.some.inj ran ▸ ok⟩
  | cons e rest ih =>
      obtain ⟨next, taken, ran'⟩ := Option.bind_eq_some_iff.1 ran
      cases e with
      | prepRead io =>
          obtain rfl := Option.some.inj taken
          obtain ⟨done', ok'⟩ := ih (ok.prepRead io) ran'
          exact ⟨done', by simpa [QueryIoEvent.prepared?] using ok'⟩
      | finishRead i res => exact ih (ok.finishRead taken) ran'
      | dispatch =>
          obtain ⟨done₁, ok₁⟩ := ok.dispatchNext taken
          exact ih ok₁ ran'

/-- **A run to a drained state.**  The reads it prepared are the reads it finished, and
the consumer has seen each of them once, in the order they finished. -/
theorem drained_run {events : List QueryIoEvent} (slots : start.SlotsOk) (idle : start.drained)
    (ran : Theory.run (queryIoStep vecBytes) start events = some q) (drained : q.drained) :
    ∃ done, q.SlotsOk ∧ q.finished = start.finished ++ done ∧
      q.reranker = done.foldl (consume vecBytes) start.reranker ∧
      q.prepared = start.prepared ++ events.filterMap QueryIoEvent.prepared? ∧
      (events.filterMap QueryIoEvent.prepared?).Perm (done.map ReadCompletion.io) := by
  obtain ⟨done, ok⟩ := (Progress.start vecBytes slots idle).run events ran
  refine ⟨done, ok.slots, ?_, ok.reranker, by simpa using ok.prepared, ?_⟩
  · simpa [drained.2] using ok.finished
  · simpa [drained.1, drained.2] using ok.reads

end QueryIo

end VecFetch.Query
