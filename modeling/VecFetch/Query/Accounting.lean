/-
# Query.Accounting -- when the reader's counters account for every read

`Submit` moves the count of what the kernel took to `inFlight` and zeroes `prepped`,
whatever was left in the submission queue.  So the counters account for every read
exactly as long as every `Submit` finds the kernel taking what `prepped` counts
(`accounting_iff`): after a negative return or a short one the rest is counted
nowhere, and a short automatic flush counts reads as in flight that a later `Submit`
counts again.
-/
import VecFetch.Query.IoUringReader
import Mathlib.Logic.Relation
import Mathlib.Algebra.Ring.Nat

namespace VecFetch.Query

open VecFetch.Theory

set_option autoImplicit false

/-! ## What a step can do -/

namespace IoUringReader

/-- The reader after a successful automatic flush. -/
def autoFlush (ret : Int) (r : IoUringReader) : IoUringReader :=
  { r with ring := r.ring.submit ret, inFlight := r.inFlight + r.prepped, prepped := 0 }

/-- The reader after an accepted read. -/
def push (sqe : Sqe) (r : IoUringReader) : IoUringReader :=
  { r with ring := { r.ring with sq := r.ring.sq ++ [sqe] }, prepped := r.prepped + 1 }

/-- The reader after a `Submit` that reaches the kernel. -/
def submitted (ret : Int) (r : IoUringReader) : IoUringReader :=
  { r with
    ring := r.ring.submit ret
    inFlight := r.inFlight + UInt32.ofNat ret.toNat
    prepped := 0 }

/-- What a `PrepRead` may do: it leaves the reader alone or flushes it, and then
refuses or accepts one read. -/
inductive AfterPrep (ret : Int) (r : IoUringReader) :
    Except PrepError Unit × IoUringReader → Prop
  | refused {r₁ : IoUringReader} (flush : r₁ = r ∨ 0 ≤ ret ∧ r₁ = r.autoFlush ret)
      (e : PrepError) : AfterPrep ret r (.error e, r₁)
  | accepted {r₁ : IoUringReader} (flush : r₁ = r ∨ 0 ≤ ret ∧ r₁ = r.autoFlush ret)
      (sqe : Sqe) : AfterPrep ret r (.ok (), r₁.push sqe)

theorem prepSqe_after (sqe : Sqe) (ret : Int) (r : IoUringReader) :
    AfterPrep ret r (r.prepSqe sqe ret) := by
  unfold prepSqe acquireSqeWithAutoFlush
  by_cases room : r.ring.hasRoom = true
  · simp only [room, if_true]
    exact .accepted (.inl rfl) sqe
  by_cases negative : ret < 0
  · simp only [room, negative, if_true, Bool.false_eq_true, if_false]
    exact .refused (.inl rfl) _
  have flush : r.autoFlush ret = r ∨ 0 ≤ ret ∧ r.autoFlush ret = r.autoFlush ret :=
    .inr ⟨by omega, rfl⟩
  by_cases room' : (r.ring.submit ret).hasRoom = true
  · simp only [room, negative, room', if_true, Bool.false_eq_true, if_false]
    exact .accepted flush sqe
  · simp only [room, negative, room', Bool.false_eq_true, if_false]
    exact .refused flush _

theorem prepFixedFile_after (fdIndex : Int) (buf : UInt64) (bufIndex : UInt16) (len : UInt32)
    (offset userData : UInt64) (ret : Int) (r : IoUringReader) :
    AfterPrep ret r (r.prepReadRegisteredBufferFixedFileTagged fdIndex buf bufIndex len offset
      userData ret) := by
  unfold prepReadRegisteredBufferFixedFileTagged
  split_ifs
  · exact .refused (.inl rfl) _
  · exact .refused (.inl rfl) _
  · exact prepSqe_after _ ret r

end IoUringReader

open IoUringReader in
theorem PrepCall.run_after (call : PrepCall) (ret : Int) (r : IoUringReader) :
    AfterPrep ret r (call.run ret r) := by
  cases call with
  | tagged => exact prepSqe_after _ ret r
  | fixedTagged => exact prepSqe_after _ ret r
  | fixed => exact prepSqe_after _ ret r
  | registeredBuffer =>
      simp only [PrepCall.run, prepReadRegisteredBufferTagged]
      split_ifs
      · exact .refused (.inl rfl) _
      · exact prepFixedFile_after _ _ _ _ _ _ ret r
      · exact prepSqe_after _ ret r
  | registeredBufferFixedFile => exact prepFixedFile_after _ _ _ _ _ _ ret r

/-- The events that take completions. -/
def ReaderEvent.polls : ReaderEvent → Prop
  | .poll _ => True
  | .waitAndPoll _ _ => True
  | _ => False

/-- Everything an event can do to the reader and to what its caller has seen. -/
inductive StepOutcome (w : ReaderWorld) : ReaderEvent → ReaderWorld → Prop
  | refused {call : PrepCall} {ret : Int} {r₁ : IoUringReader}
      (flush : r₁ = w.reader ∨ 0 ≤ ret ∧ r₁ = w.reader.autoFlush ret)
      (allowed : ret ≤ w.reader.ring.sq.length) :
      StepOutcome w (.prep call ret) { w with reader := r₁ }
  | accepted {call : PrepCall} {ret : Int} {r₁ : IoUringReader} {sqe : Sqe}
      (flush : r₁ = w.reader ∨ 0 ≤ ret ∧ r₁ = w.reader.autoFlush ret)
      (allowed : ret ≤ w.reader.ring.sq.length) :
      StepOutcome w (.prep call ret) { w with reader := r₁.push sqe, accepted := w.accepted + 1 }
  | nothingPrepped {ret : Int} (none : w.reader.prepped = 0) : StepOutcome w (.submit ret) w
  | submitted {ret : Int} (some : w.reader.prepped ≠ 0)
      (allowed : ret ≤ w.reader.ring.sq.length) :
      StepOutcome w (.submit ret) { w with reader := w.reader.submitted ret }
  | drained {e : ReaderEvent} (maxCount : Nat) (polls : e.polls) :
      StepOutcome w e
        { w with
          reader := (w.reader.drain maxCount).2
          returned := w.returned ++ (w.reader.drain maxCount).1 }
  | idle {maxCount : UInt32} {waited : Int} : StepOutcome w (.waitAndPoll maxCount waited) w
  | completed {i : Nat} {res : Int} {sqe : Sqe} (owned : w.reader.ring.kernel[i]? = some sqe) :
      StepOutcome w (.complete i res)
        { w with reader := { w.reader with ring := { w.reader.ring with
          kernel := w.reader.ring.kernel.eraseIdx i
          cq := w.reader.ring.cq ++ [⟨sqe.userData, res⟩] } } }

theorem readerStep_outcome {w w' : ReaderWorld} {e : ReaderEvent}
    (step : readerStep w e = some w') : StepOutcome w e w' := by
  cases e with
  | prep call ret =>
      simp only [readerStep, Ring.mayReturn, decide_eq_true_eq] at step
      split at step
      · rename_i allowed
        have after := call.run_after ret w.reader
        generalize call.run ret w.reader = result at after step
        cases after with
        | refused flush e =>
            simp only [Option.some.injEq] at step
            exact step ▸ .refused flush allowed
        | accepted flush sqe =>
            simp only [Option.some.injEq] at step
            exact step ▸ .accepted flush allowed
      · cases step
  | submit ret =>
      simp only [readerStep, Ring.mayReturn, decide_eq_true_eq] at step
      split at step
      · rename_i allowed
        simp only [IoUringReader.submit, Option.some.injEq] at step
        split at step
        · rename_i none
          exact step ▸ .nothingPrepped (beq_iff_eq.1 none)
        · rename_i some
          have count : (if 0 < ret then UInt32.ofNat ret.toNat else 0) = UInt32.ofNat ret.toNat := by
            split
            · rfl
            · rename_i notPositive
              rw [show ret.toNat = 0 by omega]
              rfl
          simp only [count] at step
          exact step ▸ .submitted (by simpa using some) allowed
      · cases step
  | poll maxCount =>
      simp only [readerStep, IoUringReader.poll, Option.some.injEq] at step
      exact step ▸ .drained maxCount.toNat trivial
  | waitAndPoll maxCount waited =>
      simp only [readerStep, IoUringReader.waitAndPoll] at step
      split_ifs at step
      · simp only [Option.map_some, Option.some.injEq, List.append_nil] at step
        exact step ▸ .idle
      · simp at step
      · simp only [Option.map_some, Option.some.injEq] at step
        exact step ▸ .drained maxCount.toNat trivial
  | complete i res =>
      simp only [readerStep, Ring.complete, Option.map_map, Option.map_eq_some_iff] at step
      obtain ⟨sqe, owned, rfl⟩ := step
      exact .completed owned

/-! ## Conservation -/

/-- Every accepted read is returned, or in the submission queue, the kernel or the
completion queue. -/
def Conserved (w : ReaderWorld) : Prop :=
  w.accepted = w.returned.length + w.reader.ring.sq.length + w.reader.ring.kernel.length +
    w.reader.ring.cq.length

/-- The reads in the ring. -/
def Ring.held (ring : Ring) : Nat := ring.sq.length + ring.kernel.length + ring.cq.length

theorem Ring.held_submit (ret : Int) (ring : Ring) : (ring.submit ret).held = ring.held := by
  simp only [Ring.held, Ring.submit, List.length_drop, List.length_append, List.length_take]
  omega

theorem held_of_flush {r r₁ : IoUringReader} {ret : Int}
    (flush : r₁ = r ∨ 0 ≤ ret ∧ r₁ = r.autoFlush ret) : r₁.ring.held = r.ring.held := by
  rcases flush with rfl | ⟨-, rfl⟩
  · rfl
  · exact r.ring.held_submit ret

theorem conserved_iff {w : ReaderWorld} :
    Conserved w ↔ w.accepted = w.returned.length + w.reader.ring.held := by
  simp only [Conserved, Ring.held]
  omega

/-- **No event loses or invents a read.** -/
theorem conserved_step {w w' : ReaderWorld} {e : ReaderEvent}
    (step : readerStep w e = some w') (ok : Conserved w) : Conserved w' := by
  rw [conserved_iff] at ok ⊢
  cases readerStep_outcome step with
  | refused flush => rw [held_of_flush flush, ok]
  | accepted flush =>
      have := held_of_flush flush
      simp only [IoUringReader.push, Ring.held, List.length_append, List.length_singleton]
        at this ok ⊢
      omega
  | nothingPrepped => exact ok
  | submitted => rw [ok, IoUringReader.submitted, Ring.held_submit]
  | drained maxCount =>
      simp only [IoUringReader.drain, Ring.seen, Ring.held, List.length_append, List.length_take,
        List.length_drop] at ok ⊢
      omega
  | idle => exact ok
  | completed owned =>
      obtain ⟨inBounds, -⟩ := List.getElem?_eq_some_iff.1 owned
      simp only [Ring.held, List.length_append, List.length_singleton,
        List.length_eraseIdx_of_lt inBounds] at ok ⊢
      omega

theorem outstanding_eq {w : ReaderWorld} (ok : Conserved w) :
    w.outstanding = w.reader.ring.held := by
  rw [conserved_iff] at ok
  rw [ReaderWorld.outstanding, ok]
  omega

/-! ## The counters -/

/-- The counters add up to the reads in the ring, and `prepped` counts only reads in
the submission queue. -/
structure Counted (r : IoUringReader) : Prop where
  sum : r.prepped.toNat + r.inFlight.toNat = r.ring.held
  prepped_le : r.prepped.toNat ≤ r.ring.sq.length

/-- `inFlight` covers what the kernel owns and what it has completed. -/
theorem Counted.covered {r : IoUringReader} (ok : Counted r) :
    r.ring.kernel.length + r.ring.cq.length ≤ r.inFlight.toNat := by
  have sum := ok.sum
  have le := ok.prepped_le
  simp only [Ring.held] at sum
  omega

theorem counted_flush {r r₁ : IoUringReader} {ret : Int}
    (flush : r₁ = r ∨ 0 ≤ ret ∧ r₁ = r.autoFlush ret) (few : r.ring.held < 2 ^ 32)
    (ok : Counted r) : Counted r₁ := by
  rcases flush with rfl | ⟨-, rfl⟩
  · exact ok
  · refine ⟨?_, Nat.zero_le _⟩
    have sum := ok.sum
    simp only [IoUringReader.autoFlush, Ring.held_submit, UInt32.toNat_add, UInt32.toNat_zero]
    omega

theorem counted_push {r : IoUringReader} (sqe : Sqe) (few : (r.push sqe).ring.held < 2 ^ 32)
    (ok : Counted r) : Counted (r.push sqe) := by
  have sum := ok.sum
  have le := ok.prepped_le
  have one : (r.prepped + 1).toNat = (r.prepped.toNat + 1) % 2 ^ 32 := UInt32.toNat_add _ _
  simp only [IoUringReader.push, Ring.held, List.length_append, List.length_singleton]
    at few sum ⊢
  constructor
  · simp only [one, Ring.held, List.length_append, List.length_singleton]
    omega
  · simp only [one, List.length_append, List.length_singleton]
    omega

/-- A `Submit` that the kernel answers in full. -/
theorem counted_submitted {r : IoUringReader} (few : r.ring.held < 2 ^ 32) (ok : Counted r) :
    Counted (r.submitted r.prepped.toNat) := by
  refine ⟨?_, Nat.zero_le _⟩
  have sum := ok.sum
  simp only [IoUringReader.submitted, Ring.held_submit, Int.toNat_natCast, UInt32.toNat_add,
    UInt32.ofNat_toNat, UInt32.toNat_zero]
  omega

theorem drained_le {r : IoUringReader} (ok : Counted r) (maxCount : Nat) :
    (r.drain maxCount).1.length ≤ r.inFlight.toNat := by
  have := ok.covered
  simp only [IoUringReader.drain, List.length_take]
  omega

theorem counted_drain {r : IoUringReader} (maxCount : Nat) (ok : Counted r) :
    Counted (r.drain maxCount).2 := by
  have sum := ok.sum
  have le := drained_le ok maxCount
  have small := r.inFlight.toNat_lt
  have count : (UInt32.ofNat (r.drain maxCount).1.length).toNat = (r.drain maxCount).1.length :=
    UInt32.toNat_ofNat_of_lt' (Nat.lt_of_le_of_lt le small)
  have lowered : (r.drain maxCount).2.inFlight.toNat =
      r.inFlight.toNat - (r.drain maxCount).1.length := by
    have : UInt32.ofNat (r.drain maxCount).1.length ≤ r.inFlight := by
      rw [UInt32.le_iff_toNat_le, count]
      exact le
    rw [← count]
    exact UInt32.toNat_sub_of_le _ _ this
  constructor
  · rw [lowered]
    simp only [IoUringReader.drain, Ring.seen, Ring.held, List.length_take, List.length_drop]
      at sum le ⊢
    omega
  · exact ok.prepped_le

/-- What a step needs for the counters to keep adding up: a `Submit` with reads
prepped finds the kernel taking exactly that many. -/
def SubmitsPrepped (w : ReaderWorld) : ReaderEvent → Prop
  | .submit ret => w.reader.prepped = 0 ∨ ret = w.reader.prepped.toNat
  | _ => True

/-- **The counters keep adding up.** -/
theorem counted_step {w w' : ReaderWorld} {e : ReaderEvent} (step : readerStep w e = some w')
    (full : SubmitsPrepped w e) (few : w.reader.ring.held < 2 ^ 32)
    (few' : w'.reader.ring.held < 2 ^ 32) (ok : Counted w.reader) : Counted w'.reader := by
  cases readerStep_outcome step with
  | refused flush => exact counted_flush flush few ok
  | accepted flush => exact counted_push _ few' (counted_flush flush few ok)
  | nothingPrepped => exact ok
  | submitted some =>
      rcases full with none | rfl
      · exact absurd none some
      · exact counted_submitted few ok
  | drained maxCount => exact counted_drain maxCount ok
  | idle => exact ok
  | completed owned =>
      obtain ⟨inBounds, -⟩ := List.getElem?_eq_some_iff.1 owned
      refine ⟨?_, ok.prepped_le⟩
      have sum := ok.sum
      simp only [Ring.held, List.length_append, List.length_singleton,
        List.length_eraseIdx_of_lt inBounds] at sum ⊢
      omega

/-- A step returns no more completions than `inFlight` counts. -/
theorem returned_le_of_step {w w' : ReaderWorld} {e : ReaderEvent}
    (step : readerStep w e = some w') (ok : Counted w.reader) :
    w'.returned.length - w.returned.length ≤ w.reader.inFlight.toNat := by
  cases readerStep_outcome step with
  | drained maxCount =>
      have := drained_le ok maxCount
      rw [List.length_append]
      omega
  | _ => simp

/-- What every state of a well-submitted run satisfies. -/
def Accounted (w : ReaderWorld) : Prop := Conserved w ∧ Counted w.reader

/-! ## FinalDrain -/

/-- An event that prepares nothing adds nothing to the ring. -/
theorem held_le_of_step {w w' : ReaderWorld} {e : ReaderEvent} (step : readerStep w e = some w')
    (notPrep : ∀ call ret, e ≠ .prep call ret) :
    w'.reader.ring.held ≤ w.reader.ring.held := by
  cases readerStep_outcome step with
  | refused => exact absurd rfl (notPrep _ _)
  | accepted => exact absurd rfl (notPrep _ _)
  | nothingPrepped => exact Nat.le_refl _
  | submitted => exact Nat.le_of_eq (Ring.held_submit _ _)
  | drained maxCount =>
      simp only [IoUringReader.drain, Ring.seen, Ring.held, List.length_drop]
      omega
  | idle => exact Nat.le_refl _
  | completed owned =>
      obtain ⟨inBounds, -⟩ := List.getElem?_eq_some_iff.1 owned
      simp only [Ring.held, List.length_append, List.length_singleton,
        List.length_eraseIdx_of_lt inBounds]
      omega

/-- What the drain keeps: the counters, and past its waiting loop an `inFlight` of
zero. -/
structure Draining (p : DrainPhase × ReaderWorld) : Prop where
  accounted : Accounted p.2
  few : p.2.reader.ring.held < 2 ^ 32
  idle : p.1 ≠ .waiting → p.2.reader.inFlight = 0

/-- With `inFlight` zero there is nothing to poll. -/
theorem poll_of_idle {w : ReaderWorld} (ok : Accounted w) (idle : w.reader.inFlight = 0)
    (maxCount : UInt32) : (w.reader.poll maxCount).1 = [] := by
  have := drained_le ok.2 maxCount.toNat
  rw [idle] at this
  exact List.eq_nil_of_length_eq_zero (Nat.le_zero.1 this)

/-- **The drain's steps submit nothing**, so the counters keep adding up. -/
theorem draining_step {p p' : DrainPhase × ReaderWorld} (step : DrainStep p p')
    (ok : Draining p) : Draining p' := by
  have kept : ∀ {w w' : ReaderWorld} {e : ReaderEvent}, readerStep w e = some w' →
      (∀ call ret, e ≠ .prep call ret) → (∀ ret, e ≠ .submit ret) → Accounted w →
      w.reader.ring.held < 2 ^ 32 → Accounted w' ∧ w'.reader.ring.held < 2 ^ 32 := by
    intro w w' e taken notPrep notSubmit accounted few
    have few' := Nat.lt_of_le_of_lt (held_le_of_step taken notPrep) few
    have full : SubmitsPrepped w e := by
      cases e with
      | submit ret => exact absurd rfl (notSubmit ret)
      | _ => trivial
    exact ⟨⟨conserved_step taken accounted.1, counted_step taken full few few' accounted.2⟩, few'⟩
  cases step with
  | kernel taken =>
      obtain ⟨accounted, few⟩ := kept taken (by simp) (by simp) ok.accounted ok.few
      refine ⟨accounted, few, fun past => ?_⟩
      cases readerStep_outcome taken with
      | drained maxCount polls => exact polls.elim
      | completed => exact ok.idle past
  | wait busy taken =>
      obtain ⟨accounted, few⟩ := kept taken (by simp) (by simp) ok.accounted ok.few
      exact ⟨accounted, few, fun past => absurd rfl past⟩
  | stopWaiting idle => exact ⟨ok.accounted, ok.few, fun _ => idle⟩
  | poll some_out taken =>
      exact absurd (poll_of_idle ok.accounted (ok.idle (by simp)) 128) some_out
  | finish no_out taken =>
      obtain ⟨accounted, few⟩ := kept taken (by simp) (by simp) ok.accounted ok.few
      refine ⟨accounted, few, fun _ => ?_⟩
      simp only [readerStep, Option.some.injEq] at taken
      have idle := ok.idle (by simp)
      rw [← taken]
      simp only [IoUringReader.poll] at no_out ⊢
      simp only [IoUringReader.drain] at no_out ⊢
      rw [no_out]
      simpa using idle

/-- **When `FinalDrain` returns, the kernel owns no buffer.** -/
theorem drain_leaves_nothing {w w' : ReaderWorld} (ok : Accounted w)
    (few : w.reader.ring.held < 2 ^ 32)
    (drain : Relation.ReflTransGen DrainStep (.waiting, w) (.returned, w')) :
    w'.reader.ring.kernel = [] := by
  have kept : Draining (.returned, w') := by
    generalize (DrainPhase.returned, w') = p at drain
    induction drain with
    | refl => exact ⟨ok, few, fun past => absurd rfl past⟩
    | tail _ step ih => exact draining_step step ih
  have covered := kept.accounted.2.covered
  have idle := kept.idle (by simp)
  simp only at covered idle
  rw [idle] at covered
  exact List.eq_nil_of_length_eq_zero (by
    have : (0 : UInt32).toNat = 0 := rfl
    omega)

/-! ## The law -/

/-- The reader's accounting over a run. -/
structure AccountingLaw (w₀ : ReaderWorld) (es : List ReaderEvent) : Prop where
  /-- The counters add up to the accepted reads whose completion was not returned. -/
  sum : ∀ w ∈ states readerStep w₀ es,
    w.reader.prepped.toNat + w.reader.inFlight.toNat = w.outstanding
  /-- No decrement of `inFlight` goes below zero. -/
  no_underflow : ∀ t ∈ transitions readerStep w₀ es,
    t.after.returned.length - t.before.returned.length ≤ t.before.reader.inFlight.toNat
  /-- A drain from any state leaves the kernel without a buffer. -/
  drained : ∀ w ∈ states readerStep w₀ es, ∀ w',
    Relation.ReflTransGen DrainStep (.waiting, w) (.returned, w') → w'.reader.ring.kernel = []

/-- A reader after `Init` and the registrations. -/
def ReaderWorld.start (entries : Nat) (filesRegistered : Bool) (registeredFds : List Int)
    (buffersRegistered : Bool) : ReaderWorld where
  reader := { ring := { entries }, filesRegistered, registeredFds, buffersRegistered }

theorem accounted_start (entries : Nat) (files : Bool) (fds : List Int) (buffers : Bool) :
    Accounted (.start entries files fds buffers) := ⟨rfl, rfl, Nat.zero_le _⟩

/-- A `Submit` that moves anything but what is prepped breaks the sum. -/
theorem submitsPrepped_of_sum {w w' : ReaderWorld} {e : ReaderEvent}
    (step : readerStep w e = some w') (conserved : Conserved w) (few : w.outstanding < 2 ^ 32)
    (sum : w.reader.prepped.toNat + w.reader.inFlight.toNat = w.outstanding)
    (sum' : w'.reader.prepped.toNat + w'.reader.inFlight.toNat = w'.outstanding) :
    SubmitsPrepped w e := by
  have outcome := readerStep_outcome step
  cases e with
  | submit ret =>
      cases outcome with
      | nothingPrepped none => exact .inl none
      | drained maxCount polls => exact polls.elim
      | submitted some allowed =>
          right
          have held := outstanding_eq conserved
          simp only [ReaderWorld.outstanding, IoUringReader.submitted, UInt32.toNat_zero,
            UInt32.toNat_add, UInt32.toNat_ofNat'] at sum sum' few held
          simp only [Ring.held] at held
          have : w.reader.prepped.toNat ≠ 0 := fun h => some (UInt32.toNat_inj.1 (by simpa using h))
          omega
  | _ => trivial

/-- **The reader's accounting, exactly.**  Over every run in which fewer than `2 ^ 32`
reads are outstanding, the law holds if and only if at every `Submit` with reads
prepped the kernel takes exactly the prepped count. -/
theorem accounting_iff (entries : Nat) (files : Bool) (fds : List Int) (buffers : Bool)
    (es : List ReaderEvent)
    (few : ∀ w ∈ states readerStep (.start entries files fds buffers) es, w.outstanding < 2 ^ 32) :
    AccountingLaw (.start entries files fds buffers) es ↔
      ∀ t ∈ transitions readerStep (.start entries files fds buffers) es,
        SubmitsPrepped t.before t.event := by
  have conserved : ∀ w ∈ states readerStep (.start entries files fds buffers) es, Conserved w :=
    invariant_states (accounted_start entries files fds buffers).1
      fun t mem ok => conserved_step (transition_step mem).1 ok
  constructor
  · intro law t mem
    obtain ⟨step, visited⟩ := transition_step mem
    exact submitsPrepped_of_sum step (conserved _ visited) (few _ visited) (law.sum _ visited)
      (law.sum _ (mem_states_after mem))
  · intro full
    have small : ∀ w ∈ states readerStep (.start entries files fds buffers) es,
        w.reader.ring.held < 2 ^ 32 := fun w mem => outstanding_eq (conserved w mem) ▸ few w mem
    have accounted : ∀ w ∈ states readerStep (.start entries files fds buffers) es,
        Accounted w :=
      invariant_states (accounted_start entries files fds buffers) fun t mem ok =>
        have ⟨step, visited⟩ := transition_step mem
        ⟨conserved_step step ok.1, counted_step step (full t mem) (small _ visited)
          (small _ (mem_states_after mem)) ok.2⟩
    refine ⟨fun w mem => ?_, fun t mem => ?_, fun w mem w' drain =>
      drain_leaves_nothing (accounted w mem) (small w mem) drain⟩
    · rw [outstanding_eq (accounted w mem).1]
      exact (accounted w mem).2.sum
    · obtain ⟨step, visited⟩ := transition_step mem
      exact returned_le_of_step step (accounted _ visited).2

namespace FailedSubmit

/-- The `i`-th read of a run. -/
def read (i : Nat) : PrepCall := .tagged 3 (UInt64.ofNat i) 4096 0 (UInt64.ofNat i)

/-- Two reads and a `Submit` the kernel refuses; the third read's flush reaches the
kernel, and one read completes. -/
def events : List ReaderEvent :=
  [.prep (read 0) 0, .prep (read 1) 0, .submit (-11), .prep (read 2) 2, .complete 0 4096, .poll 128]

def start : ReaderWorld := .start 2 false [] false

/-- `prepped`, `inFlight` and the outstanding reads along the run: the two reads of
the refused `Submit` are counted nowhere, and polling one of them wraps `inFlight`. -/
example : (states readerStep start events).map
    (fun w => (w.reader.prepped.toNat, w.reader.inFlight.toNat, w.outstanding)) =
      [(0, 0, 0), (1, 0, 1), (2, 0, 2), (0, 0, 2), (1, 0, 3), (1, 0, 3), (1, 2 ^ 32 - 1, 2)] := by
  decide

/-- The state before the completion. -/
def flushed : ReaderWorld where
  reader :=
    { ring :=
        { entries := 2
          sq := [⟨3, false, 2, none, 4096, 0, 2⟩]
          kernel := [⟨3, false, 0, none, 4096, 0, 0⟩, ⟨3, false, 1, none, 4096, 0, 1⟩] }
      prepped := 1 }
  accepted := 3

end FailedSubmit

/-- A refused `Submit` forgets its reads: the sum is wrong, `inFlight` goes below
zero, and `FinalDrain` returns while the kernel owns two buffers. -/
theorem reads_forgotten_by_failed_submit :
    (∀ w ∈ states readerStep FailedSubmit.start FailedSubmit.events, w.outstanding < 2 ^ 32) ∧
      (∃ w ∈ states readerStep FailedSubmit.start FailedSubmit.events,
        w.reader.prepped.toNat + w.reader.inFlight.toNat ≠ w.outstanding) ∧
      (∃ t ∈ transitions readerStep FailedSubmit.start FailedSubmit.events,
        t.before.reader.inFlight.toNat < t.after.returned.length - t.before.returned.length) ∧
      (∃ w ∈ states readerStep FailedSubmit.start FailedSubmit.events, ∃ w',
        Relation.ReflTransGen DrainStep (.waiting, w) (.returned, w') ∧
          w'.reader.ring.kernel.length = 2) := by
  refine ⟨by decide, by decide, by decide, FailedSubmit.flushed, by decide, FailedSubmit.flushed,
    ?_, rfl⟩
  exact .tail (.single (.stopWaiting rfl)) (.finish rfl rfl)

/-- The law on a run whose one `Submit` is answered in full. -/
theorem accounting_iff_full_submit :
    AccountingLaw (.start 2 false [] false)
        [.prep (FailedSubmit.read 0) 0, .submit 1, .complete 0 4096, .poll 128] ↔
      ∀ t ∈ transitions readerStep (.start 2 false [] false)
        [.prep (FailedSubmit.read 0) 0, .submit 1, .complete 0 4096, .poll 128],
        SubmitsPrepped t.before t.event :=
  accounting_iff 2 false [] false
    [.prep (FailedSubmit.read 0) 0, .submit 1, .complete 0 4096, .poll 128] (by decide)

end VecFetch.Query
