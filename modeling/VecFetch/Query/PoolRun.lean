/-
# Query.PoolRun -- the buffers a pool hands out

Any calls of a pool whose callers give back only what they hold.  A buffer is in the pool
or with one caller, never both, so none is handed out twice.  Capacities are page counts
below `2 ^ 32`, and `(size + 4095) & ~4095` of a size above `2 ^ 32 - 4096` is 0: such a
size is served by the first buffer there is, and no other size is served short
(`acquire_serves_iff`).
-/
import VecFetch.Query.Ownership

namespace VecFetch.Query.Buffers

open VecFetch.Theory

set_option autoImplicit false

/-! ## Runs -/

/-- A pool, the buffers its callers hold, and the size each buffer was allocated with. -/
structure PoolState where
  pool : BufferPool := {}
  held : List Address := []
  sizes : Address → UInt32 := fun _ => 0

/-- A call, with the addresses it gets if it allocates.  `free` is the caller's own
`std::free` of a buffer it holds, as the payload cache does it. -/
inductive PoolEvent where
  | prime (size : UInt32) (fresh : List Address)
  | acquire (size : UInt32) (fresh : Address)
  | release (buf : Address)
  | free (buf : Address)

namespace PoolState

def pooled (s : PoolState) : List Address := s.pool.pool.map (·.buf)

/-- What is allocated. -/
def live (s : PoolState) : List Address := s.pooled ++ s.held

/-- `outstanding_.find(buf)`. -/
def recorded (s : PoolState) (buf : Address) : Option UInt32 :=
  (s.pool.outstanding.find? fun held => held.1 == buf).map (·.2)

/-- The buffer `Acquire` returns. -/
def handedOut (s : PoolState) (size : UInt32) (fresh : Address) : Address :=
  (s.pool.acquire size fresh).1

/-- The state after `Acquire`; a buffer that was not in the pool is a new one. -/
def acquire (s : PoolState) (size : UInt32) (fresh : Address) : PoolState where
  pool := (s.pool.acquire size fresh).2
  held := s.handedOut size fresh :: s.held
  sizes :=
    if s.handedOut size fresh ∈ s.pooled then s.sizes
    else Function.update s.sizes fresh (BufferPool.alignedSize size)

def prime (s : PoolState) (size : UInt32) (fresh : List Address) : PoolState :=
  { s with
    pool := s.pool.prime size fresh
    sizes := fun buf => if buf ∈ fresh then BufferPool.alignedSize size else s.sizes buf }

/-- `Acquire` returns a buffer that nobody holds, and whose recorded capacity is its own and
at least `size`. -/
def Serves (s : PoolState) (size : UInt32) (fresh : Address) : Prop :=
  s.handedOut size fresh ∉ s.held ∧
    ∃ cap, (s.acquire size fresh).recorded (s.handedOut size fresh) = some cap ∧
      cap = (s.acquire size fresh).sizes (s.handedOut size fresh) ∧ size ≤ cap

end PoolState

def poolStep (s : PoolState) : PoolEvent → Option PoolState
  | .prime size fresh =>
      if fresh.Nodup ∧ ∀ raw ∈ fresh, raw ∉ s.live then some (s.prime size fresh) else none
  | .acquire size fresh => if fresh ∈ s.live then none else some (s.acquire size fresh)
  | .release buf =>
      if buf ∈ s.held then
        some { s with pool := s.pool.release buf, held := s.held.erase buf }
      else none
  | .free buf => if buf ∈ s.held then some { s with held := s.held.erase buf } else none

/-! ## Page counts -/

/-- The last 12 bits go. -/
theorem and_pages (x : ℕ) (small : x < 2 ^ 32) : x &&& (2 ^ 32 - 2 ^ 12) = x / 2 ^ 12 * 2 ^ 12 := by
  have mask : 2 ^ 32 - 2 ^ 12 = (2 ^ 20 - 1) * 2 ^ 12 := by decide
  rw [mask, ← Nat.shiftLeft_eq, ← Nat.shiftLeft_eq, ← Nat.shiftRight_eq_div_pow]
  apply Nat.eq_of_testBit_eq
  intro i
  rw [Nat.testBit_and, Nat.testBit_shiftLeft, Nat.testBit_shiftLeft, Nat.testBit_shiftRight,
    Nat.testBit_two_pow_sub_one]
  by_cases low : 12 ≤ i
  · have back : 12 + (i - 12) = i := by omega
    rw [back]
    by_cases high : i - 12 < 20
    · simp [low, high]
    · have none : x.testBit i = false :=
        Nat.testBit_lt_two_pow (small.trans_le (Nat.pow_le_pow_right (by decide) (by omega)))
      simp [low, none]
  · simp [low]

theorem alignedSize_toNat (size : UInt32) :
    (BufferPool.alignedSize size).toNat =
      (size.toNat + 4095) % 2 ^ 32 / 2 ^ 12 * 2 ^ 12 := by
  have mask : (~~~(4095 : UInt32)).toNat = 2 ^ 32 - 2 ^ 12 := by decide
  rw [BufferPool.alignedSize, UInt32.toNat_and, mask, UInt32.toNat_add]
  exact and_pages _ (Nat.mod_lt _ (by decide))

/-- The largest capacity there is. -/
def maxCapacity : UInt32 := 0xFFFFF000

theorem alignedSize_le (size : UInt32) : BufferPool.alignedSize size ≤ maxCapacity := by
  rw [UInt32.le_iff_toNat_le, alignedSize_toNat]
  have max : maxCapacity.toNat = 4294963200 := rfl
  omega

theorem le_alignedSize {size : UInt32} (fits : size ≤ maxCapacity) :
    size ≤ BufferPool.alignedSize size := by
  rw [UInt32.le_iff_toNat_le] at fits ⊢
  rw [alignedSize_toNat]
  have max : maxCapacity.toNat = 4294963200 := rfl
  omega

/-! ## What every run keeps -/

/-- A buffer is in one place, and its capacity is known. -/
structure PoolOk (s : PoolState) : Prop where
  distinct : s.live.Nodup
  pooled : ∀ entry ∈ s.pool.pool, entry.capacity = s.sizes entry.buf
  outstanding : ∀ buf ∈ s.held, s.recorded buf = some (s.sizes buf)
  paged : ∀ buf ∈ s.live, s.sizes buf ≤ maxCapacity

/-- `Acquire` takes a buffer that is large enough out of the pool, or allocates one. -/
theorem acquire_cases (p : BufferPool) (size : UInt32) (fresh : Address) :
    (∃ entry pool, (entry :: pool).Perm p.pool ∧ BufferPool.alignedSize size ≤ entry.capacity ∧
        p.acquire size fresh = (entry.buf, { p with pool := pool }.hold entry.buf entry.capacity)) ∨
      p.acquire size fresh = (fresh, p.hold fresh (BufferPool.alignedSize size)) := by
  rw [BufferPool.acquire]
  cases found : p.pool.findIdx? fun entry =>
      decide (BufferPool.alignedSize size ≤ entry.capacity) with
  | none => exact .inr rfl
  | some i =>
      obtain ⟨bound, enough, -⟩ := List.findIdx?_eq_some_iff_getElem.1 found
      have at_i : p.pool[i]? = some p.pool[i] := List.getElem?_eq_getElem bound
      dsimp only
      rw [at_i]
      exact .inl ⟨_, _, BufferState.swapAndPop_perm at_i, of_decide_eq_true enough, rfl⟩

section Recorded

variable {p : BufferPool} {raw buf : Address} {cap : UInt32}

theorem find_hold_self :
    ((p.hold raw cap).outstanding.find? fun held => held.1 == raw) = some (raw, cap) := by
  rw [BufferPool.hold, List.find?_cons_of_pos (by simp)]

theorem find_filter_ne {entries : List (Address × UInt32)} (other : buf ≠ raw) :
    ((entries.filter fun held => held.1 ≠ raw).find? fun held => held.1 == buf) =
      entries.find? fun held => held.1 == buf := by
  rw [List.find?_filter]
  congr 1
  funext held
  by_cases here : held.1 = buf
  · simp [here, other]
  · simp [here]

theorem find_hold_of_ne (other : buf ≠ raw) :
    ((p.hold raw cap).outstanding.find? fun held => held.1 == buf) =
      p.outstanding.find? fun held => held.1 == buf := by
  rw [BufferPool.hold, List.find?_cons_of_neg (by simpa using other.symm)]
  exact find_filter_ne other

end Recorded

section Steps

variable {s : PoolState}

/-- What is in the pool is nobody's. -/
theorem PoolOk.not_held (ok : PoolOk s) {buf : Address} (inPool : buf ∈ s.pooled) :
    buf ∉ s.held := by
  intro held
  exact (List.nodup_append.1 ok.distinct).2.2 buf inPool buf held rfl

theorem PoolOk.prime (ok : PoolOk s) (size : UInt32) {fresh : List Address}
    (each : fresh.Nodup) (unused : ∀ raw ∈ fresh, raw ∉ s.live) : PoolOk (s.prime size fresh) := by
  have buffers : (s.prime size fresh).pooled = s.pooled ++ fresh := by
    simp [PoolState.pooled, PoolState.prime, BufferPool.prime, Function.comp_def]
  have old : ∀ buf ∈ s.live, (s.prime size fresh).sizes buf = s.sizes buf := by
    intro buf mem
    have known : buf ∉ fresh := fun among => unused buf among mem
    simp [PoolState.prime, known]
  have placed : ∀ buf ∈ (s.prime size fresh).live, buf ∈ s.live ∨ buf ∈ fresh := by
    intro buf mem
    rw [PoolState.live, buffers, List.append_assoc] at mem
    rw [PoolState.live]
    have same : (s.prime size fresh).held = s.held := rfl
    rw [same] at mem
    simp only [List.mem_append] at mem ⊢
    tauto
  have new : ∀ buf ∈ fresh, (s.prime size fresh).sizes buf = BufferPool.alignedSize size := by
    intro buf among
    simp [PoolState.prime, among]
  refine ⟨?_, ?_, ?_, ?_⟩
  · have order : (s.prime size fresh).live.Perm (fresh ++ s.live) := by
      rw [PoolState.live, buffers, PoolState.live, ← List.append_assoc]
      exact List.perm_append_comm.append_right _
    rw [order.nodup_iff, List.nodup_append]
    refine ⟨each, ok.distinct, ?_⟩
    rintro raw among buf mem rfl
    exact unused raw among mem
  · intro entry mem
    rcases List.mem_append.1 mem with before | added
    · rw [old _ (List.mem_append_left _ (List.mem_map_of_mem before))]
      exact ok.pooled entry before
    · obtain ⟨raw, among, rfl⟩ := List.mem_map.1 added
      exact (new raw among).symm
  · intro buf mem
    rw [old _ (List.mem_append_right _ mem)]
    exact ok.outstanding buf mem
  · intro buf mem
    rcases placed buf mem with before | among
    · rw [old _ before]
      exact ok.paged buf before
    · rw [new _ among]
      exact alignedSize_le size

/-- A buffer that a caller gives up in some way. -/
theorem PoolOk.giveUp (ok : PoolOk s) (buf : Address) :
    PoolOk { s with held := s.held.erase buf } := by
  have fewer : ∀ other ∈ s.held.erase buf, other ∈ s.held := fun other => List.mem_of_mem_erase
  refine ⟨?_, ok.pooled, fun other kept => ok.outstanding other (fewer other kept), ?_⟩
  · exact ok.distinct.sublist ((List.erase_sublist).append_left _)
  · intro other kept
    refine ok.paged other ?_
    rcases List.mem_append.1 kept with inPool | inHand
    · exact List.mem_append_left _ inPool
    · exact List.mem_append_right _ (fewer other inHand)

theorem PoolOk.release (ok : PoolOk s) {buf : Address} (mem : buf ∈ s.held) :
    PoolOk { s with pool := s.pool.release buf, held := s.held.erase buf } := by
  have known := ok.outstanding buf mem
  obtain ⟨⟨raw, cap⟩, found, rfl : cap = s.sizes buf⟩ := Option.map_eq_some_iff.1 known
  have released : s.pool.release buf =
      { pool := s.pool.pool ++ [⟨buf, s.sizes buf⟩]
        outstanding := s.pool.outstanding.filter fun held => held.1 ≠ buf } := by
    rw [BufferPool.release, found]
  have nodup := ok.distinct
  have order : (s.pooled ++ [buf] ++ s.held.erase buf).Perm s.live := by
    rw [List.append_assoc]
    exact (List.perm_cons_erase mem).symm.append_left _
  have buffers : (s.pool.release buf).pool.map (·.buf) = s.pooled ++ [buf] := by
    rw [released, List.map_append]
    rfl
  refine ⟨?_, ?_, ?_, ?_⟩
  · rw [PoolState.live, PoolState.pooled, buffers, order.nodup_iff]
    exact nodup
  · intro entry inPool
    dsimp only at inPool
    rw [released] at inPool
    rcases List.mem_append.1 inPool with before | added
    · exact ok.pooled entry before
    · obtain rfl := List.mem_singleton.1 added
      rfl
  · intro other kept
    have inHand : other ∈ s.held := List.mem_of_mem_erase kept
    have differs : other ≠ buf := by
      rintro rfl
      exact (List.nodup_append.1 nodup).2.1.not_mem_erase kept
    rw [PoolState.recorded]
    dsimp only
    rw [released, find_filter_ne differs]
    exact ok.outstanding other inHand
  · intro other kept
    rw [PoolState.live, PoolState.pooled, buffers] at kept
    exact ok.paged other (order.mem_iff.1 kept)

/-- A call served from the pool moves one buffer from there to its caller. -/
theorem PoolOk.reuse (ok : PoolOk s) {size : UInt32} {fresh : Address} {entry : PoolEntry}
    {pool : List PoolEntry} (order : (entry :: pool).Perm s.pool.pool)
    (taken : s.pool.acquire size fresh =
      (entry.buf, { s.pool with pool := pool }.hold entry.buf entry.capacity)) :
    PoolOk (s.acquire size fresh) ∧ s.handedOut size fresh ∉ s.held ∧
      (s.acquire size fresh).sizes (s.handedOut size fresh) = entry.capacity := by
  have out : s.handedOut size fresh = entry.buf := congrArg Prod.fst taken
  have inPool : entry ∈ s.pool.pool := order.mem_iff.1 List.mem_cons_self
  have buffer : entry.buf ∈ s.pooled := List.mem_map_of_mem inPool
  have sizes : (s.acquire size fresh).sizes = s.sizes := by
    rw [PoolState.acquire, out, if_pos buffer]
  have rest : (s.acquire size fresh).pool =
      { s.pool with pool := pool }.hold entry.buf entry.capacity := congrArg Prod.snd taken
  have held : (s.acquire size fresh).held = entry.buf :: s.held := by
    rw [PoolState.acquire, out]
  have same : (s.acquire size fresh).live.Perm s.live := by
    rw [PoolState.live, PoolState.pooled, rest, held]
    exact List.perm_middle.trans ((order.map (·.buf)).append_right _)
  refine ⟨⟨?_, ?_, ?_, ?_⟩, ?_, ?_⟩
  · rw [same.nodup_iff]
    exact ok.distinct
  · intro other mem
    rw [rest] at mem
    rw [sizes]
    exact ok.pooled other (order.mem_iff.1 (List.mem_cons_of_mem _ mem))
  · intro buf mem
    rw [PoolState.recorded, rest, sizes]
    by_cases here : buf = entry.buf
    · rw [here, find_hold_self]
      exact congrArg some (ok.pooled entry inPool)
    · rw [find_hold_of_ne here]
      rw [held] at mem
      exact ok.outstanding buf ((List.mem_cons.1 mem).resolve_left here)
  · intro buf mem
    rw [sizes]
    exact ok.paged buf (same.mem_iff.1 mem)
  · rw [out]
    exact ok.not_held buffer
  · rw [sizes, out, ← ok.pooled entry inPool]

/-- A call that allocates adds one buffer, of the aligned size. -/
theorem PoolOk.allocate (ok : PoolOk s) {size : UInt32} {fresh : Address}
    (unused : fresh ∉ s.live)
    (taken : s.pool.acquire size fresh = (fresh, s.pool.hold fresh (BufferPool.alignedSize size))) :
    PoolOk (s.acquire size fresh) ∧ s.handedOut size fresh ∉ s.held ∧
      (s.acquire size fresh).sizes (s.handedOut size fresh) = BufferPool.alignedSize size := by
  have out : s.handedOut size fresh = fresh := congrArg Prod.fst taken
  have absent : fresh ∉ s.pooled := fun mem => unused (List.mem_append_left _ mem)
  have sizes : (s.acquire size fresh).sizes =
      Function.update s.sizes fresh (BufferPool.alignedSize size) := by
    rw [PoolState.acquire, out, if_neg absent]
  have rest : (s.acquire size fresh).pool =
      s.pool.hold fresh (BufferPool.alignedSize size) := congrArg Prod.snd taken
  have held : (s.acquire size fresh).held = fresh :: s.held := by
    rw [PoolState.acquire, out]
  have more : (s.acquire size fresh).live.Perm (fresh :: s.live) := by
    rw [PoolState.live, PoolState.pooled, rest, held]
    exact List.perm_middle
  have old : ∀ buf ∈ s.live, (s.acquire size fresh).sizes buf = s.sizes buf := by
    intro buf mem
    rw [sizes, Function.update_of_ne]
    rintro rfl
    exact unused mem
  refine ⟨⟨?_, ?_, ?_, ?_⟩, ?_, ?_⟩
  · rw [more.nodup_iff, List.nodup_cons]
    exact ⟨unused, ok.distinct⟩
  · intro other mem
    rw [rest] at mem
    rw [old _ (List.mem_append_left _ (List.mem_map_of_mem mem))]
    exact ok.pooled other mem
  · intro buf mem
    rw [PoolState.recorded, rest]
    by_cases here : buf = fresh
    · rw [here, find_hold_self, sizes, Function.update_self]
      rfl
    · rw [held] at mem
      have before := (List.mem_cons.1 mem).resolve_left here
      rw [find_hold_of_ne here, old _ (List.mem_append_right _ before)]
      exact ok.outstanding buf before
  · intro buf mem
    rcases List.mem_cons.1 (more.mem_iff.1 mem) with rfl | before
    · rw [sizes, Function.update_self]
      exact alignedSize_le size
    · rw [old _ before]
      exact ok.paged buf before
  · rw [out]
    exact fun mem => unused (List.mem_append_right _ mem)
  · rw [sizes, out, Function.update_self]

/-- What `Acquire` hands out. -/
theorem PoolOk.handedOut (ok : PoolOk s) (size : UInt32) {fresh : Address}
    (unused : fresh ∉ s.live) :
    PoolOk (s.acquire size fresh) ∧ s.handedOut size fresh ∉ s.held ∧
      BufferPool.alignedSize size ≤ (s.acquire size fresh).sizes (s.handedOut size fresh) := by
  rcases acquire_cases s.pool size fresh with ⟨entry, pool, order, enough, taken⟩ | taken
  · obtain ⟨after, apart, capacity⟩ := ok.reuse order taken
    refine ⟨after, apart, ?_⟩
    rw [capacity]
    exact enough
  · obtain ⟨after, apart, capacity⟩ := ok.allocate unused taken
    refine ⟨after, apart, ?_⟩
    rw [capacity]
    exact UInt32.le_refl _

theorem PoolOk.step (ok : PoolOk s) {e : PoolEvent} {s' : PoolState}
    (taken : poolStep s e = some s') : PoolOk s' := by
  cases e with
  | prime size fresh =>
      rw [poolStep] at taken
      split at taken
      · next new =>
          cases taken
          exact ok.prime size new.1 new.2
      · cases taken
  | acquire size fresh =>
      rw [poolStep] at taken
      split at taken
      · cases taken
      · next unused =>
          cases taken
          exact (ok.handedOut size unused).1
  | release buf =>
      rw [poolStep] at taken
      split at taken
      · next mem =>
          cases taken
          exact ok.release mem
      · cases taken
  | free buf =>
      rw [poolStep] at taken
      split at taken
      · cases taken
        exact ok.giveUp buf
      · cases taken

end Steps

theorem poolOk_states (es : List PoolEvent) : ∀ s ∈ states poolStep {} es, PoolOk s := by
  refine invariant_states ⟨List.nodup_nil, ?_, ?_, ?_⟩ fun t mem ok =>
    ok.step (transition_step mem).1
  · intro entry mem
    cases mem
  · intro buf mem
    cases mem
  · intro buf mem
    cases mem

/-- **`Acquire(size)` returns a buffer that is free and long enough** exactly for the sizes up
to `2 ^ 32 - 4096`, in every run. -/
theorem acquire_serves_iff (es : List PoolEvent) (t : Transition PoolState PoolEvent)
    (mem : t ∈ transitions poolStep {} es) (size : UInt32) (fresh : Address)
    (call : t.event = .acquire size fresh) :
    t.before.Serves size fresh ↔ size ≤ maxCapacity := by
  obtain ⟨taken, visited⟩ := transition_step mem
  have ok := poolOk_states es t.before visited
  have unused : fresh ∉ t.before.live := by
    rw [call, poolStep] at taken
    split at taken
    · cases taken
    · assumption
  obtain ⟨after, free, enough⟩ := ok.handedOut size unused
  have held : t.before.handedOut size fresh ∈ (t.before.acquire size fresh).held :=
    List.mem_cons_self
  constructor
  · rintro ⟨-, cap, -, rfl, long⟩
    exact UInt32.le_trans long (after.paged _ (List.mem_append_right _ held))
  · intro fits
    exact ⟨free, _, after.outstanding _ held, rfl,
      UInt32.le_trans (le_alignedSize fits) enough⟩

/-- A page from a primed pool. -/
theorem acquire_serves_page :
    (({} : PoolState).prime 4096 [1]).Serves 4096 2 ↔ (4096 : UInt32) ≤ maxCapacity :=
  acquire_serves_iff [.prime 4096 [1], .acquire 4096 2]
    ⟨({} : PoolState).prime 4096 [1], .acquire 4096 2, (({} : PoolState).prime 4096 [1]).acquire 4096 2⟩
    (by exact List.mem_cons_of_mem _ List.mem_cons_self) 4096 2 rfl

/-- 4095 bytes more than the pool can count get a page. -/
theorem not_acquire_serves :
    ∃ t ∈ transitions poolStep {} [.prime 4096 [1], .acquire 0xFFFFFFFF 2],
      t.event = .acquire 0xFFFFFFFF 2 ∧ ¬ t.before.Serves 0xFFFFFFFF 2 := by
  refine ⟨⟨({} : PoolState).prime 4096 [1], .acquire 0xFFFFFFFF 2,
    (({} : PoolState).prime 4096 [1]).acquire 0xFFFFFFFF 2⟩,
    List.mem_cons_of_mem _ List.mem_cons_self, rfl, ?_⟩
  rintro ⟨-, cap, recorded, -, long⟩
  have page : ((({} : PoolState).prime 4096 [1]).acquire 0xFFFFFFFF 2).recorded
      ((({} : PoolState).prime 4096 [1]).handedOut 0xFFFFFFFF 2) = some 4096 := by decide
  obtain rfl := Option.some.inj (recorded.symm.trans page)
  exact absurd long (by decide)

end VecFetch.Query.Buffers
