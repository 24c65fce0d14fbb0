/-
# Query.ResultCollector -- the best results of a query

The collector is a heap of at most `top_k` entries with the largest distance on top.  Whatever
is offered to it, and in whatever order, what it gives in the end is the `top_k` entries of
smallest distance, ascending (`collector_keeps_best`).
-/
import VecFetch.Query.Rerank

namespace VecFetch.Query

open VecFetch.Theory

set_option autoImplicit false

/-- A `ResultCollector`; `heap` is the container of its `std::priority_queue`. -/
structure ResultCollector where
  topK : UInt32
  heap : List CollectorEntry := []

namespace ResultCollector

variable (std : StdAlgo)

/-- `TryInsert`: the collector after it and what it returns; `none` is the top of an empty
heap. -/
def tryInsert (distance : Flt) (addr : AddressEntry) (c : ResultCollector) :
    Option (ResultCollector × Bool) :=
  if c.topK.toNat ≤ c.heap.length ∧ c.heap = [] then none
  else
    let offered := Query.tryInsert std c.topK c.heap ⟨distance, addr⟩
    some ({ c with heap := offered.1 }, offered.2)

/-- `Finalize`: the entries, and the collector without them. -/
def finalize (c : ResultCollector) : List CollectorEntry × ResultCollector :=
  (Query.finalize std c.heap, { c with heap := [] })

/-- One `TryInsert` after the other. -/
def insertAll (entries : List CollectorEntry) (c : ResultCollector) : Option ResultCollector :=
  entries.foldlM (fun c e => (c.tryInsert std e.distance e.addr).map Prod.fst) c

theorem tryInsert_eq {c : ResultCollector} (holds : 1 ≤ c.topK) (e : CollectorEntry) :
    c.tryInsert std e.distance e.addr =
      some ({ c with heap := (Query.tryInsert std c.topK c.heap e).1 },
        (Query.tryInsert std c.topK c.heap e).2) := by
  rw [tryInsert, if_neg]
  rintro ⟨full, empty⟩
  have positive := UInt32.le_iff_toNat_le.1 holds
  rw [empty, List.length_nil] at full
  simp only [UInt32.reduceToNat] at positive
  omega

theorem insertAll_eq (entries : List CollectorEntry) {c : ResultCollector} (holds : 1 ≤ c.topK) :
    c.insertAll std entries =
      some { c with
        heap := entries.foldl (fun heap e => (Query.tryInsert std c.topK heap e).1) c.heap } := by
  induction entries generalizing c with
  | nil => rfl
  | cons e entries ih =>
      rw [insertAll, List.foldlM_cons, tryInsert_eq std holds, Option.map_some, Option.bind_eq_bind,
        Option.bind_some, ← insertAll, ih (by exact holds)]
      rfl

/-- Distances that are numbers are compared by a strict weak order. -/
theorem order_of_numbers {entries : List CollectorEntry}
    (numbers : ∀ e ∈ entries, e.distance ≠ .nan) : StrictWeakOn CollectorEntry.lt entries where
  asymm _ _ _ _ below := Flt.lt_asymm below
  negTrans _ _ _ inside _ _ first second := Flt.lt_negTrans (numbers _ inside) first second

theorem lt_irrefl (e : CollectorEntry) : e.lt e = false := by
  cases below : e.lt e with
  | false => rfl
  | true => exact below.symm.trans (Flt.lt_asymm below)

/-- What a collector gives in the end are the best of all that it was offered. -/
theorem insertAll_topK {topK : UInt32} {entries : List CollectorEntry} {c : ResultCollector}
    (holds : 1 ≤ topK) (numbers : ∀ e ∈ entries, e.distance ≠ .nan)
    (inserted : insertAll std entries ⟨topK, []⟩ = some c) :
    TopK CollectorEntry.lt topK.toNat entries (c.finalize std).1 := by
  have same := inserted.symm.trans (insertAll_eq std entries (c := ⟨topK, []⟩) holds)
  obtain rfl := Option.some.inj same
  have small := StdAlgo.foldl_addBounded_smallest entries (order_of_numbers numbers)
    (std.smallest_nil CollectorEntry.lt topK.toNat)
  exact small.topK_drain (order_of_numbers numbers)

/-- `ExecuteBuffered` offers its candidates to a collector, one after the other. -/
theorem executeBuffered_insertAll {topK : UInt32} (holds : 1 ≤ topK)
    (distance : List BufferByte → Flt) (r : RerankConsumer) (heap : List CollectorEntry) :
    insertAll std ((ranked std r).map fun c => ⟨distance c.vec, c.addr⟩) ⟨topK, heap⟩ =
      some ⟨topK, (executeBuffered std topK distance r heap).1⟩ := by
  rw [insertAll_eq std _ (c := ⟨topK, heap⟩) holds, List.foldl_map]
  rfl

/-- An answer of `TryInsert` that is right: the entry is in the heap once more than before, or
the collector is as it was. -/
def Answers (c : ResultCollector) (e : CollectorEntry) : Prop :=
  ∃ c' taken, c.tryInsert std e.distance e.addr = some (c', taken) ∧
    (taken = true ↔ c'.heap.count e = c.heap.count e + 1) ∧ (taken = false → c' = c)

theorem answers {c : ResultCollector} (holds : 1 ≤ c.topK) (e : CollectorEntry) :
    c.Answers std e := by
  obtain ⟨taken, refused⟩ :=
    @StdAlgo.addBounded_flag _ std CollectorEntry.lt _ c.topK.toNat e c.heap (lt_irrefl e)
  rw [← Query.tryInsert] at taken refused
  refine ⟨_, _, tryInsert_eq std holds e, ⟨taken, fun more => ?_⟩, fun no => ?_⟩
  · cases flag : (Query.tryInsert std c.topK c.heap e).2 with
    | true => rfl
    | false =>
        dsimp only at more
        rw [refused flag] at more
        omega
  · rw [refused no]

/-- **The collector keeps the best.**  Its results are the `top_k` inserted entries of smallest
distance, ascending, and every answer on the way is right. -/
theorem collector_keeps_best {topK : UInt32} (holds : 1 ≤ topK) {entries : List CollectorEntry}
    (numbers : ∀ e ∈ entries, e.distance ≠ .nan) :
    ∃ c, insertAll std entries ⟨topK, []⟩ = some c ∧
      TopK CollectorEntry.lt topK.toNat entries (c.finalize std).1 ∧
      ∀ before e after, entries = before ++ e :: after →
        ∃ c', insertAll std before ⟨topK, []⟩ = some c' ∧ c'.Answers std e := by
  have inserted := insertAll_eq std entries (c := ⟨topK, []⟩) holds
  refine ⟨_, inserted, insertAll_topK std holds numbers inserted, fun before e _ _ => ?_⟩
  exact ⟨_, insertAll_eq std before (c := ⟨topK, []⟩) holds, answers std (by exact holds) e⟩

theorem collector_keeps_best_of_two :
    ∃ c, insertAll .reference [⟨.fin 2, ⟨0, 1⟩⟩, ⟨.fin 1, ⟨1, 1⟩⟩] ⟨1, []⟩ = some c ∧
      TopK CollectorEntry.lt 1 [⟨.fin 2, ⟨0, 1⟩⟩, ⟨.fin 1, ⟨1, 1⟩⟩] (c.finalize .reference).1 ∧
      ∀ before e after, [⟨.fin 2, ⟨0, 1⟩⟩, ⟨.fin 1, ⟨1, 1⟩⟩] = before ++ e :: after →
        ∃ c', insertAll .reference before ⟨1, []⟩ = some c' ∧ c'.Answers .reference e := by
  refine collector_keeps_best .reference (by decide) fun e mem => ?_
  simp only [List.mem_cons, List.not_mem_nil, or_false] at mem
  rcases mem with rfl | rfl
  · exact Flt.noConfusion
  · exact Flt.noConfusion

end ResultCollector

end VecFetch.Query
