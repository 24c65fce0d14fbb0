/-
# Query.DedupSet -- the offsets a query has submitted

`QueryDedupSet` keeps keys by linear probing in a table that `Reserve` sizes once; the
number of keys of a query has no bound.  `kEmpty` marks an empty slot and is also a key.
Both loops of the set may go on for ever: such a call has no outcome for any `fuel`.  A
vector of more than `room` slots throws, and nothing catches it.

Between two `Clear`s the set is exact, and every `Insert` ends, exactly while the keys are
no more than the slots and none is `kEmpty` (`inserts_exact_iff`).
-/
import VecFetch.Theory.LinearProbing
import Mathlib.Algebra.Order.Ring.Int
import Mathlib.Data.Nat.Log

namespace VecFetch.Query

open VecFetch.Theory

set_option autoImplicit false

/-! ## The set -/

/-- The loop of `NextPowerOfTwo`. -/
def nextPowerOfTwoFrom (value : UInt64) : ℕ → UInt64 → Option UInt64
  | 0, _ => none
  | fuel + 1, result =>
      if result < value then nextPowerOfTwoFrom value fuel (result <<< 1) else some result

def nextPowerOfTwo (fuel : ℕ) (value : UInt64) : Option UInt64 := nextPowerOfTwoFrom value fuel 1

def mixOffset (value : UInt64) : UInt64 :=
  let value := value ^^^ (value >>> 33)
  let value := value * 0xff51afd7ed558ccd
  let value := value ^^^ (value >>> 33)
  let value := value * 0xc4ceb9fe1a85ec53
  value ^^^ (value >>> 33)

structure QueryDedupSet where
  slots : List UInt64 := []
  mask : UInt64 := 0
  size : UInt64 := 0
  deriving DecidableEq

namespace QueryDedupSet

def kEmpty : UInt64 := 0xFFFFFFFFFFFFFFFF

/-- `Reserve`; what the set held is forgotten. -/
def reserve (room fuel : ℕ) (expected : UInt64) : Option QueryDedupSet :=
  (nextPowerOfTwo fuel (max 16 (expected * 2))).bind fun capacity =>
    if room < capacity.toNat then none
    else
      some { slots := List.replicate capacity.toNat kEmpty, mask := capacity - 1, size := 0 }

def clear (s : QueryDedupSet) : QueryDedupSet :=
  if s.slots = [] then s
  else { s with slots := List.replicate s.slots.length kEmpty, size := 0 }

/-- The loop of `Insert`. -/
def insertFrom (key : UInt64) : ℕ → UInt64 → QueryDedupSet → Option (Bool × QueryDedupSet)
  | 0, _, _ => none
  | fuel + 1, idx, s =>
      match s.slots[idx.toNat]? with
      | none => none
      | some slot =>
          if slot = key then some (false, s)
          else if slot = kEmpty then
            some (true, { s with slots := s.slots.set idx.toNat key, size := s.size + 1 })
          else insertFrom key fuel ((idx + 1) &&& s.mask) s

def insert (room fuel : ℕ) (s : QueryDedupSet) (key : UInt64) : Option (Bool × QueryDedupSet) :=
  (if s.slots = [] then reserve room fuel 256 else some s).bind fun s =>
    insertFrom key fuel (mixOffset key &&& s.mask) s

end QueryDedupSet

/-! ## Sequences of keys -/

inductive DedupEvent where
  | insert (key : UInt64)
  | clear

/-- Every `Insert` ends, and is true exactly for a key that is not among `seen`, the keys since
the last `Clear`. -/
def InsertsExact (room : ℕ) : List DedupEvent → QueryDedupSet → List UInt64 → Prop
  | [], _, _ => True
  | .clear :: es, s, _ => InsertsExact room es s.clear []
  | .insert key :: es, s, seen =>
      ∃ fuel out, s.insert room fuel key = some out ∧ (out.1 = true ↔ key ∉ seen) ∧
        InsertsExact room es out.2 (key :: seen)

/-- The keys up to the first `Clear`, those up to the next, and so on. -/
def segments : List DedupEvent → List UInt64 × List (List UInt64)
  | [] => ([], [])
  | .clear :: es => ([], (segments es).1 :: (segments es).2)
  | .insert key :: es => (key :: (segments es).1, (segments es).2)

/-- How many slots `Reserve` makes. -/
def capacityFor (expected : UInt64) : ℕ := 2 ^ Nat.clog 2 (max 16 (expected * 2)).toNat

/-- The keys are proper and as many as there are slots, or fewer. -/
def FitsTable (capacity : ℕ) (keys : List UInt64) : Prop :=
  QueryDedupSet.kEmpty ∉ keys ∧ keys.toFinset.card ≤ capacity

/-! ## How large the table is -/

theorem shiftLeft_pow {i : ℕ} (small : i < 63) :
    UInt64.ofNat (2 ^ i) <<< 1 = UInt64.ofNat (2 ^ (i + 1)) := by
  apply UInt64.toNat_inj.1
  have below : 2 ^ i < 2 ^ 63 := Nat.pow_lt_pow_right (by decide) small
  have one : UInt64.toNat 1 % 64 = 1 := rfl
  rw [UInt64.toNat_shiftLeft, UInt64.toNat_ofNat', UInt64.toNat_ofNat', one, Nat.shiftLeft_eq,
    Nat.mod_eq_of_lt (by omega : 2 ^ i < 2 ^ 64), ← Nat.pow_add]

/-- From 0 the loop never ends. -/
theorem nextPowerOfTwoFrom_zero {value : UInt64} (positive : 0 < value) (fuel : ℕ) :
    nextPowerOfTwoFrom value fuel 0 = none := by
  induction fuel with
  | zero => rfl
  | succ fuel ih =>
      rw [nextPowerOfTwoFrom, if_pos positive]
      exact ih

theorem nextPowerOfTwoFrom_some {value capacity : UInt64} {fuel i : ℕ} (small : i ≤ 63)
    (below : i = 0 ∨ 2 ^ (i - 1) < value.toNat)
    (ends : nextPowerOfTwoFrom value fuel (UInt64.ofNat (2 ^ i)) = some capacity) :
    ∃ k ≤ 63, capacity.toNat = 2 ^ k ∧ value.toNat ≤ 2 ^ k ∧
      (k = 0 ∨ 2 ^ (k - 1) < value.toNat) := by
  induction fuel generalizing i with
  | zero => cases ends
  | succ fuel ih =>
      have size : (UInt64.ofNat (2 ^ i)).toNat = 2 ^ i := by
        have bound : 2 ^ i ≤ 2 ^ 63 := Nat.pow_le_pow_right (by decide) small
        rw [UInt64.toNat_ofNat', Nat.mod_eq_of_lt (by omega)]
      rw [nextPowerOfTwoFrom] at ends
      by_cases more : UInt64.ofNat (2 ^ i) < value
      · rw [if_pos more] at ends
        rw [UInt64.lt_iff_toNat_lt, size] at more
        rcases Nat.lt_or_ge i 63 with inside | last
        · rw [shiftLeft_pow inside] at ends
          exact ih (by omega) (.inr more) ends
        · -- 2 ^ 64 is 0
          obtain rfl : i = 63 := Nat.le_antisymm small last
          have gone : UInt64.ofNat (2 ^ 63) <<< 1 = 0 := by decide
          have positive : 0 < value := by
            rw [UInt64.lt_iff_toNat_lt]
            exact Nat.lt_of_le_of_lt (Nat.zero_le _) more
          rw [gone, nextPowerOfTwoFrom_zero positive] at ends
          cases ends
      · rw [if_neg more] at ends
        cases ends
        rw [UInt64.lt_iff_toNat_lt, size, Nat.not_lt] at more
        exact ⟨i, small, size, more, below⟩

namespace QueryDedupSet

variable {room : ℕ} {s : QueryDedupSet}

/-- The slots are a power of two, and the mask keeps an index among them. -/
structure Sized (s : QueryDedupSet) (capacity : ℕ) : Prop where
  length : s.slots.length = capacity
  power : ∃ k ≤ 63, capacity = 2 ^ k
  mask : s.mask.toNat = capacity - 1

theorem reserve_some {fuel : ℕ} {expected : UInt64}
    (reserved : reserve room fuel expected = some s) :
    s.slots = List.replicate (capacityFor expected) kEmpty ∧ s.Sized (capacityFor expected) := by
  obtain ⟨capacity, ends, made⟩ := Option.bind_eq_some_iff.1 reserved
  have first : (1 : UInt64) = UInt64.ofNat (2 ^ 0) := rfl
  rw [nextPowerOfTwo, first] at ends
  obtain ⟨k, small, size, above, below⟩ := nextPowerOfTwoFrom_some (by decide) (.inl rfl) ends
  have exponent : Nat.clog 2 (max 16 (expected * 2)).toNat = k := by
    refine Nat.le_antisymm ((Nat.clog_le_iff_le_pow (by decide)).2 above) ?_
    rcases below with rfl | below
    · exact Nat.zero_le _
    · have next := (Nat.lt_clog_iff_pow_lt (b := 2) (by decide)).2 below
      omega
  have slots : capacityFor expected = capacity.toNat := by rw [capacityFor, exponent, size]
  split at made
  · cases made
  · cases made
    rw [slots]
    refine ⟨rfl, List.length_replicate, ⟨k, small, size⟩, ?_⟩
    have one : (1 : UInt64) ≤ capacity := by
      rw [UInt64.le_iff_toNat_le, size]
      exact Nat.one_le_two_pow
    exact UInt64.toNat_sub_of_le _ _ one

/-- Where a key's probe begins. -/
def home (capacity : ℕ) (key : UInt64) : ℕ := (mixOffset key).toNat % capacity

section Sized

variable {capacity : ℕ}

theorem Sized.positive (sized : s.Sized capacity) : 0 < capacity := by
  obtain ⟨k, -, rfl⟩ := sized.power
  exact Nat.two_pow_pos k

theorem Sized.and_mask (sized : s.Sized capacity) (idx : UInt64) :
    (idx &&& s.mask).toNat = idx.toNat % capacity := by
  obtain ⟨k, -, power⟩ := sized.power
  rw [UInt64.toNat_and, sized.mask, power, Nat.and_two_pow_sub_one_eq_mod]

theorem Sized.next (sized : s.Sized capacity) (idx : UInt64) :
    ((idx + 1) &&& s.mask).toNat = (idx.toNat + 1) % capacity := by
  obtain ⟨k, small, power⟩ := sized.power
  have divides : capacity ∣ 2 ^ 64 := by
    rw [power]
    exact Nat.pow_dvd_pow 2 (by omega)
  rw [sized.and_mask, UInt64.toNat_add, Nat.mod_mod_of_dvd _ divides]
  rfl

/-! ## The loop of `Insert` -/

/-- What `Insert` leaves when its probe stops in turn `d`. -/
def outcome (s : QueryDedupSet) (key : UInt64) (h d : ℕ) : Bool × QueryDedupSet :=
  if probed s.slots h d = some key then (false, s)
  else
    (true, { s with slots := s.slots.set ((h + d) % s.slots.length) key, size := s.size + 1 })

/-- The loop reaches the first stop and no other. -/
theorem Sized.insertFrom_stop (sized : s.Sized capacity) {key : UInt64} {h d : ℕ}
    (stop : StopsAt kEmpty s.slots h key d) (fuel j : ℕ) (before : j ≤ d) (idx : UInt64) (here : idx.toNat = (h + j) % capacity) :
    insertFrom key fuel idx s = if d - j < fuel then some (s.outcome key h d) else none := by
  induction fuel generalizing j idx with
  | zero => rw [insertFrom, if_neg (Nat.not_lt_zero _)]
  | succ fuel ih =>
      have at_j : s.slots[idx.toNat]? = probed s.slots h j := by
        rw [probed, sized.length, here]
      rw [insertFrom, at_j]
      rcases Nat.lt_or_ge j d with earlier | last
      · obtain ⟨noKey, noGap⟩ := stop.first j earlier
        have bound : (h + j) % capacity < s.slots.length := by
          rw [sized.length]
          exact Nat.mod_lt _ sized.positive
        have seen : probed s.slots h j = some (s.slots[(h + j) % capacity]) := by
          rw [← at_j, here, List.getElem?_eq_getElem bound]
        rw [seen] at noKey noGap ⊢
        dsimp only
        rw [if_neg fun same => noKey (congrArg some same),
          if_neg fun same => noGap (congrArg some same),
          ih (j + 1) earlier _ (by rw [sized.next, here, Nat.mod_add_mod, Nat.add_assoc])]
        by_cases enough : d - (j + 1) < fuel
        · rw [if_pos enough, if_pos (by omega)]
        · rw [if_neg enough, if_neg (by omega)]
      · obtain rfl : j = d := Nat.le_antisymm before last
        rw [if_pos (by omega), outcome]
        rcases stop.stops with found | gap
        · rw [found, if_pos rfl]
          exact if_pos rfl
        · rw [gap]
          dsimp only
          by_cases same : kEmpty = key
          · rw [if_pos same, if_pos (congrArg some same)]
          · rw [if_neg same, if_pos rfl, if_neg fun eq => same (Option.some.inj eq), here,
              sized.length]

/-- A full table without the key keeps the loop going. -/
theorem insertFrom_full {key : UInt64} (absent : key ∉ s.slots) (full : kEmpty ∉ s.slots)
    (fuel : ℕ) (idx : UInt64) : insertFrom key fuel idx s = none := by
  induction fuel generalizing idx with
  | zero => rfl
  | succ fuel ih =>
      rw [insertFrom]
      cases seen : s.slots[idx.toNat]? with
      | none => rfl
      | some slot =>
          have mem := List.mem_of_getElem? seen
          dsimp only
          rw [if_neg (by rintro rfl; exact absent mem), if_neg (by rintro rfl; exact full mem)]
          exact ih _

end Sized

/-- `kEmpty` is never new. -/
theorem insertFrom_kEmpty {fuel : ℕ} {idx : UInt64} {out : Bool × QueryDedupSet}
    (ends : insertFrom kEmpty fuel idx s = some out) : out.1 = false := by
  induction fuel generalizing idx with
  | zero => cases ends
  | succ fuel ih =>
      rw [insertFrom] at ends
      cases seen : s.slots[idx.toNat]? with
      | none =>
          rw [seen] at ends
          cases ends
      | some slot =>
          rw [seen] at ends
          dsimp only at ends
          by_cases same : slot = kEmpty
          · rw [if_pos same] at ends
            cases ends
            rfl
          · rw [if_neg same, if_neg same] at ends
            exact ih ends

/-! ## One call -/

/-- A table of `capacity` slots that holds the keys. -/
structure Holds (s : QueryDedupSet) (capacity : ℕ) (keys : List UInt64) : Prop where
  sized : s.Sized capacity
  probing : Probing kEmpty (home capacity) s.slots
  stores : Stores kEmpty s.slots keys

variable {capacity : ℕ} {keys : List UInt64}

theorem Holds.insert_eq (holds : s.Holds capacity keys) (fuel : ℕ) (key : UInt64) :
    s.insert room fuel key = insertFrom key fuel (mixOffset key &&& s.mask) s := by
  have some_slot : s.slots ≠ [] := fun none => by
    have length := holds.sized.length
    have positive := holds.sized.positive
    rw [none, List.length_nil] at length
    omega
  rw [insert, if_neg some_slot, Option.bind_some]

theorem Holds.insert_stop (holds : s.Holds capacity keys) {key : UInt64} {d : ℕ}
    (stop : StopsAt kEmpty s.slots (home capacity key) key d) (fuel : ℕ) :
    s.insert room fuel key =
      if d < fuel then some (s.outcome key (home capacity key) d) else none := by
  have start : (mixOffset key &&& s.mask).toNat = (home capacity key + 0) % capacity := by
    rw [holds.sized.and_mask, home, Nat.add_zero, Nat.mod_mod]
  rw [holds.insert_eq, holds.sized.insertFrom_stop stop fuel 0 (Nat.zero_le d) _ start,
    Nat.sub_zero]

variable (room) in
/-- A key that is stored is found, and stays the only one. -/
theorem Holds.insert_old (holds : s.Holds capacity keys) {key : UInt64} (mem : key ∈ keys) :
    (∃ fuel, s.insert room fuel key = some (false, s)) ∧
      (∀ fuel out, s.insert room fuel key = some out → out = (false, s)) ∧
        s.Holds capacity (key :: keys) := by
  have proper : key ≠ kEmpty := by
    rintro rfl
    exact holds.stores.proper mem
  obtain ⟨d, stop, found⟩ := holds.probing.found ((holds.stores.mem key proper).2 mem) proper
  have same : s.outcome key (home capacity key) d = (false, s) := by rw [outcome, if_pos found]
  refine ⟨⟨d + 1, ?_⟩, fun fuel out ends => ?_, holds.sized, holds.probing,
    holds.stores.again mem⟩
  · rw [holds.insert_stop stop, if_pos (Nat.lt_succ_self d), same]
  · rw [holds.insert_stop stop, same] at ends
    split at ends
    · exact (Option.some.inj ends).symm
    · cases ends

variable (room) in
/-- A new key takes an empty slot. -/
theorem Holds.insert_new (holds : s.Holds capacity keys) {key : UInt64} (new : key ∉ keys)
    (proper : key ≠ kEmpty) (room_left : keys.toFinset.card < capacity) :
    ∃ s' : QueryDedupSet, (∃ fuel, s.insert room fuel key = some (true, s')) ∧
      (∀ fuel out, s.insert room fuel key = some out → out = (true, s')) ∧
        s'.Holds capacity (key :: keys) := by
  have absent : key ∉ s.slots := fun mem => new ((holds.stores.mem key proper).1 mem)
  have gap_left : kEmpty ∈ s.slots := by
    rw [holds.stores.room_iff holds.probing, holds.sized.length]
    exact room_left
  obtain ⟨d, stop, gap⟩ := exists_gap absent gap_left (home capacity key)
  have same : s.outcome key (home capacity key) d = (true, { s with
      slots := s.slots.set ((home capacity key + d) % s.slots.length) key
      size := s.size + 1 }) := by
    rw [outcome, if_neg]
    rw [gap]
    exact fun eq => proper (Option.some.inj eq).symm
  refine ⟨{ s with
      slots := s.slots.set ((home capacity key + d) % s.slots.length) key
      size := s.size + 1 }, ⟨d + 1, ?_⟩, fun fuel out ends => ?_,
    ⟨?_, holds.sized.power, holds.sized.mask⟩, holds.probing.set absent proper gap stop, holds.stores.set gap proper⟩
  · rw [holds.insert_stop stop, if_pos (Nat.lt_succ_self d), same]
  · rw [holds.insert_stop stop, same] at ends
    split at ends
    · exact (Option.some.inj ends).symm
    · cases ends
  · rw [List.length_set]
    exact holds.sized.length

/-- A new key has no place in a full table, and the probe never ends. -/
theorem Holds.insert_full (holds : s.Holds capacity keys) {key : UInt64} (new : key ∉ keys)
    (proper : key ≠ kEmpty) (full : ¬ keys.toFinset.card < capacity) (fuel : ℕ) :
    s.insert room fuel key = none := by
  rw [holds.insert_eq]
  refine insertFrom_full ?_ ?_ fuel _
  · exact fun mem => new ((holds.stores.mem key proper).1 mem)
  · rw [holds.stores.room_iff holds.probing, holds.sized.length]
    exact full

theorem Holds.clear (holds : s.Holds capacity keys) : s.clear.Holds capacity [] := by
  rw [QueryDedupSet.clear]
  split
  · next none =>
      have length := holds.sized.length
      have positive := holds.sized.positive
      rw [none, List.length_nil] at length
      omega
  · refine ⟨⟨?_, holds.sized.power, holds.sized.mask⟩, .replicate _, .replicate _⟩
    rw [List.length_replicate]
    exact holds.sized.length

theorem reserve_holds {fuel : ℕ} {expected : UInt64}
    (reserved : reserve room fuel expected = some s) : s.Holds (capacityFor expected) [] := by
  obtain ⟨slots, sized⟩ := reserve_some reserved
  refine ⟨sized, ?_, ?_⟩
  · rw [slots]
    exact .replicate _
  · rw [slots]
    exact .replicate _

/-! ## All keys -/

theorem Holds.fits (holds : s.Holds capacity keys) : FitsTable capacity keys := by
  refine ⟨holds.stores.proper, ?_⟩
  rw [← holds.sized.length]
  exact holds.stores.card_le holds.probing

/-- An `Insert` with one way to end, and the right answer there, leaves the keys that follow. -/
theorem insertsExact_insert {seen : List UInt64} {key : UInt64} {out : Bool × QueryDedupSet}
    {es : List DedupEvent} (ends : ∃ fuel, s.insert room fuel key = some out)
    (only : ∀ fuel out', s.insert room fuel key = some out' → out' = out)
    (answer : out.1 = true ↔ key ∉ seen) :
    InsertsExact room (.insert key :: es) s seen ↔ InsertsExact room es out.2 (key :: seen) := by
  rw [InsertsExact]
  constructor
  · rintro ⟨fuel, out', ends', -, rest⟩
    rw [only fuel out' ends'] at rest
    exact rest
  · intro rest
    obtain ⟨fuel, ends⟩ := ends
    exact ⟨fuel, out, ends, answer, rest⟩

theorem fitsTable_perm {keys keys' : List UInt64} (order : keys.Perm keys') :
    FitsTable capacity keys ↔ FitsTable capacity keys' := by
  rw [FitsTable, FitsTable, order.mem_iff, List.toFinset_eq_of_perm _ _ order]

variable (room) in
/-- From a table that holds `seen`, what is still to come must fit beside it. -/
theorem Holds.exact_iff {seen : List UInt64} (holds : s.Holds capacity seen)
    (es : List DedupEvent) :
    InsertsExact room es s seen ↔
      FitsTable capacity ((segments es).1 ++ seen) ∧ ∀ keys ∈ (segments es).2,
        FitsTable capacity keys := by
  induction es generalizing s seen with
  | nil =>
      exact ⟨fun _ => ⟨holds.fits, fun keys mem => absurd mem List.not_mem_nil⟩, fun _ => trivial⟩
  | cons e es ih =>
      cases e with
      | clear =>
          have next := ih holds.clear
          rw [List.append_nil] at next
          rw [InsertsExact, segments, next, List.forall_mem_cons]
          exact (and_iff_right holds.fits).symm
      | insert key =>
          have moved : FitsTable capacity (key :: (segments es).1 ++ seen) ↔
              FitsTable capacity ((segments es).1 ++ key :: seen) :=
            fitsTable_perm List.perm_middle.symm
          rw [segments]
          dsimp only
          rw [moved]
          by_cases proper : key = kEmpty
          · -- the mark of an empty slot is taken for the key
            constructor
            · rintro ⟨fuel, out, ends, exact, -⟩
              rw [holds.insert_eq, proper] at ends
              rw [insertFrom_kEmpty ends, proper] at exact
              cases exact.2 holds.stores.proper
            · rintro ⟨⟨absent, -⟩, -⟩
              exact absurd (by simp [proper]) absent
          · by_cases old : key ∈ seen
            · obtain ⟨ends, only, next⟩ := holds.insert_old room old
              rw [insertsExact_insert ends only (by simpa using old), ih next]
            · by_cases left : seen.toFinset.card < capacity
              · obtain ⟨s', ends, only, next⟩ := holds.insert_new room old proper left
                rw [insertsExact_insert ends only (by simpa using old), ih next]
              · constructor
                · rintro ⟨fuel, out, ends, -⟩
                  rw [holds.insert_full old proper left] at ends
                  cases ends
                · rintro ⟨⟨-, few⟩, -⟩
                  have more : (key :: seen).toFinset.card ≤
                      ((segments es).1 ++ key :: seen).toFinset.card := by
                    refine Finset.card_le_card fun k mem => ?_
                    rw [List.mem_toFinset] at mem ⊢
                    exact List.mem_append_right _ mem
                  rw [List.toFinset_cons, Finset.card_insert_of_notMem (by simpa using old)] at more
                  omega

end QueryDedupSet

open QueryDedupSet

/-- **The dedup set is exact and every `Insert` ends** exactly if no key is `kEmpty` and no more
keys come between two `Clear`s than `Reserve` made slots. -/
theorem inserts_exact_iff (room fuel : ℕ) (expected : UInt64) (s : QueryDedupSet)
    (reserved : reserve room fuel expected = some s) (es : List DedupEvent) :
    InsertsExact room es s [] ↔
      ∀ keys ∈ (segments es).1 :: (segments es).2, FitsTable (capacityFor expected) keys := by
  have table := (reserve_holds reserved).exact_iff room es
  rw [List.append_nil] at table
  rw [table, List.forall_mem_cons]

/-- A table of 16 slots. -/
def sixteenSlots : QueryDedupSet := { slots := List.replicate 16 kEmpty, mask := 15, size := 0 }

theorem reserve_sixteen : reserve 16 5 3 = some sixteenSlots := by decide

theorem capacityFor_three : capacityFor 3 = 16 := by
  have value : (max 16 ((3 : UInt64) * 2)).toNat = 2 ^ 4 := by decide
  calc capacityFor 3 = 2 ^ 4 := by rw [capacityFor, value, Nat.clog_pow 2 4 (by decide)]
    _ = 16 := rfl

/-- A key that comes again after a `Clear`. -/
theorem inserts_exact_again :
    InsertsExact 16 [.insert 5, .insert 5, .clear, .insert 5] sixteenSlots [] := by
  refine (inserts_exact_iff 16 5 3 sixteenSlots reserve_sixteen _).2 ?_
  intro keys mem
  rw [capacityFor_three]
  rcases List.mem_cons.1 mem with rfl | mem
  · exact ⟨by decide, by decide⟩
  · obtain rfl := List.mem_singleton.1 mem
    exact ⟨by decide, by decide⟩

/-- The largest key, and one key more than there are slots. -/
theorem not_inserts_exact :
    ¬ InsertsExact 16 [.insert 0xFFFFFFFFFFFFFFFF] sixteenSlots [] ∧
      ¬ InsertsExact 16 ((List.range 17).map fun i => .insert (UInt64.ofNat i)) sixteenSlots [] := by
  have holds := reserve_holds reserve_sixteen
  rw [capacityFor_three] at holds
  refine ⟨fun exact => ?_, fun exact => ?_⟩
  · exact ((holds.exact_iff _ _).1 exact).1.1 (by decide)
  · exact absurd ((holds.exact_iff _ _).1 exact).1.2 (by decide)

end VecFetch.Query
