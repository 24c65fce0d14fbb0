/-
# Theory.LinearProbing -- open addressing in a list of slots

A key's probe starts at its home and goes through the slots cyclically until it meets the
key or an empty slot.  Nothing is ever taken out, so every stored key is reached from its
home before any empty slot (`Probing`), and a probe for a key that is not stored stops
exactly if there is an empty slot.
-/
import Mathlib.Data.List.Basic
import Mathlib.Data.Finset.Card
import Mathlib.Data.Finset.Dedup
import Mathlib.Data.Nat.Find

namespace VecFetch.Theory

set_option autoImplicit false

variable {α : Type}

/-- The slot a probe from `h` sees in its turn `j`. -/
def probed (slots : List α) (h j : ℕ) : Option α := slots[(h + j) % slots.length]?

variable (empty : α)

/-- The probe stops in turn `d` and not before. -/
structure StopsAt (slots : List α) (h : ℕ) (key : α) (d : ℕ) : Prop where
  stops : probed slots h d = some key ∨ probed slots h d = some empty
  first : ∀ j < d, probed slots h j ≠ some key ∧ probed slots h j ≠ some empty

/-- No key is stored twice, and each is reached from its home. -/
structure Probing [DecidableEq α] (home : α → ℕ) (slots : List α) : Prop where
  distinct : (slots.filter (· ≠ empty)).Nodup
  reached : ∀ k ∈ slots, k ≠ empty → ∃ d < slots.length, probed slots (home k) d = some k ∧
    ∀ j < d, probed slots (home k) j ≠ some empty

/-- The slots hold the keys, and nothing else. -/
structure Stores (slots keys : List α) : Prop where
  mem : ∀ k, k ≠ empty → (k ∈ slots ↔ k ∈ keys)
  proper : empty ∉ keys

variable {empty} {home : α → ℕ} {slots : List α} {key : α}

theorem probed_mem {h j : ℕ} {k : α} (seen : probed slots h j = some k) : k ∈ slots :=
  List.mem_of_getElem? seen

/-- Every slot is seen. -/
theorem exists_probed {k : α} (mem : k ∈ slots) (h : ℕ) :
    ∃ d < slots.length, probed slots h d = some k := by
  obtain ⟨i, bound, rfl⟩ := List.mem_iff_getElem.1 mem
  have nonzero : 0 < slots.length := by omega
  refine ⟨(i + (slots.length - h % slots.length)) % slots.length, Nat.mod_lt _ nonzero, ?_⟩
  have below := Nat.mod_lt h nonzero
  have around : (h + (i + (slots.length - h % slots.length)) % slots.length) % slots.length = i := by
    have turn : h % slots.length + (i + (slots.length - h % slots.length)) = i + slots.length := by
      omega
    rw [Nat.add_mod_mod, ← Nat.mod_add_mod, turn, Nat.add_mod_right, Nat.mod_eq_of_lt bound]
  rw [probed, around, List.getElem?_eq_getElem bound]

variable (empty key) in
/-- What stops somewhere has a first stop. -/
theorem exists_stopsAt {h d : ℕ}
    (stops : probed slots h d = some key ∨ probed slots h d = some empty) :
    ∃ d' ≤ d, StopsAt empty slots h key d' := by
  classical
  have some_stop : ∃ j, probed slots h j = some key ∨ probed slots h j = some empty := ⟨d, stops⟩
  refine ⟨Nat.find some_stop, Nat.find_min' some_stop stops, Nat.find_spec some_stop, ?_⟩
  intro j before
  exact not_or.1 (Nat.find_min some_stop before)

/-- A probe for another key ends at an empty slot, if there is one. -/
theorem exists_gap (absent : key ∉ slots) (room : empty ∈ slots) (h : ℕ) :
    ∃ d, StopsAt empty slots h key d ∧ probed slots h d = some empty := by
  obtain ⟨d, -, gap⟩ := exists_probed room h
  obtain ⟨d', -, stop⟩ := exists_stopsAt empty key (.inr gap)
  exact ⟨d', stop, stop.stops.resolve_left fun here => absent (probed_mem here)⟩

/-- Setting one slot leaves what the others show. -/
theorem probed_set {h j : ℕ} {i : ℕ} {k : α} (seen : probed slots h j = some k)
    (other : (h + j) % slots.length ≠ i) : probed (slots.set i key) h j = some k := by
  rw [probed, List.length_set, List.getElem?_set_ne other.symm]
  exact seen

theorem set_perm {d : ℕ} (gap : probed slots (home key) d = some empty) :
    ∃ rest, slots.Perm (empty :: rest) ∧
      (slots.set ((home key + d) % slots.length) key).Perm (key :: rest) := by
  obtain ⟨bound, here⟩ := List.getElem?_eq_some_iff.1 gap
  refine ⟨slots.eraseIdx ((home key + d) % slots.length), ?_,
    List.set_perm_cons_eraseIdx bound key⟩
  rw [← here]
  exact (List.getElem_cons_eraseIdx_perm bound).symm

theorem Stores.replicate (n : ℕ) : Stores empty (List.replicate n empty) [] := by
  refine ⟨fun k proper => ?_, List.not_mem_nil⟩
  refine ⟨fun mem => absurd (List.eq_of_mem_replicate mem) proper, fun mem => ?_⟩
  cases mem

/-- A key that is stored already. -/
theorem Stores.again {keys : List α} (stores : Stores empty slots keys) (mem : key ∈ keys) :
    Stores empty slots (key :: keys) := by
  refine ⟨fun k proper => ?_, fun bad => ?_⟩
  · rw [stores.mem k proper, List.mem_cons]
    constructor
    · exact .inr
    · rintro (rfl | before)
      · exact mem
      · exact before
  · rcases List.mem_cons.1 bad with rfl | before
    · exact stores.proper mem
    · exact stores.proper before

theorem Stores.set {keys : List α} {d : ℕ} (stores : Stores empty slots keys)
    (gap : probed slots (home key) d = some empty) (proper : key ≠ empty) :
    Stores empty (slots.set ((home key + d) % slots.length) key) (key :: keys) := by
  obtain ⟨rest, old, new⟩ := set_perm gap
  refine ⟨fun k fits => ?_, fun mem => ?_⟩
  · rw [new.mem_iff, List.mem_cons, List.mem_cons, ← stores.mem k fits, old.mem_iff, List.mem_cons,
      or_iff_right fits]
  · rcases List.mem_cons.1 mem with same | before
    · exact proper same.symm
    · exact stores.proper before

variable [DecidableEq α]

/-- A stored key is found. -/
theorem Probing.found (ok : Probing empty home slots) (mem : key ∈ slots) (proper : key ≠ empty) :
    ∃ d, StopsAt empty slots (home key) key d ∧ probed slots (home key) d = some key := by
  obtain ⟨d, -, here, free⟩ := ok.reached key mem proper
  obtain ⟨d', le, stop⟩ := exists_stopsAt empty key (.inl here)
  refine ⟨d', stop, stop.stops.resolve_right fun gap => ?_⟩
  rcases Nat.lt_or_ge d' d with before | after
  · exact free d' before gap
  · obtain rfl : d' = d := Nat.le_antisymm le after
    exact proper (Option.some.inj (here.symm.trans gap))

/-- An empty slot that takes a key. -/
theorem Probing.set {d : ℕ} (ok : Probing empty home slots) (absent : key ∉ slots)
    (proper : key ≠ empty) (gap : probed slots (home key) d = some empty)
    (stop : StopsAt empty slots (home key) key d) :
    Probing empty home (slots.set ((home key + d) % slots.length) key) := by
  obtain ⟨bound, here⟩ := List.getElem?_eq_some_iff.1 gap
  have self {j : ℕ} {h : ℕ} (at_i : (h + j) % slots.length = (home key + d) % slots.length) :
      probed (slots.set ((home key + d) % slots.length) key) h j = some key := by
    rw [probed, List.length_set, at_i, List.getElem?_set_self bound]
  -- a slot that is not empty stays so
  have kept {h j : ℕ} (seen : probed slots h j ≠ some empty) :
      probed (slots.set ((home key + d) % slots.length) key) h j ≠ some empty := by
    by_cases at_i : (h + j) % slots.length = (home key + d) % slots.length
    · rw [self at_i]
      exact fun same => proper (Option.some.inj same)
    · rw [probed, List.length_set, List.getElem?_set_ne (Ne.symm at_i)]
      exact seen
  obtain ⟨rest, old, new⟩ := set_perm gap
  constructor
  · have before := (old.filter (· ≠ empty)).nodup_iff.1 ok.distinct
    rw [List.filter_cons_of_neg (by simp)] at before
    rw [(new.filter (· ≠ empty)).nodup_iff, List.filter_cons_of_pos (by simpa using proper),
      List.nodup_cons]
    refine ⟨fun mem => absent ?_, before⟩
    exact old.mem_iff.2 (List.mem_cons_of_mem _ (List.mem_of_mem_filter mem))
  · intro k mem fits
    rw [List.length_set]
    by_cases same : k = key
    · subst same
      obtain ⟨j, short, seen⟩ := exists_probed (List.mem_of_getElem? gap) (home k)
      have first : d ≤ j := by
        by_contra before
        exact (stop.first j (by omega)).2 seen
      refine ⟨d, by omega, self rfl, fun i before => kept (stop.first i before).2⟩
    · have stored : k ∈ slots := by
        rcases List.mem_cons.1 (new.mem_iff.1 mem) with rfl | inRest
        · exact absurd rfl same
        · exact old.mem_iff.2 (List.mem_cons_of_mem _ inRest)
      obtain ⟨j, short, seen, free⟩ := ok.reached k stored fits
      refine ⟨j, short, probed_set seen fun at_i => fits ?_, fun i before => kept (free i before)⟩
      rw [probed, at_i] at seen
      exact Option.some.inj (seen.symm.trans gap)

/-- As many keys as slots that are not empty. -/
theorem Stores.card {keys : List α} (stores : Stores empty slots keys)
    (ok : Probing empty home slots) :
    keys.toFinset.card = (slots.filter (· ≠ empty)).length := by
  rw [← List.toFinset_card_of_nodup ok.distinct]
  congr 1
  ext k
  rw [List.mem_toFinset, List.mem_toFinset, List.mem_filter]
  constructor
  · intro mem
    have proper : k ≠ empty := by
      rintro rfl
      exact stores.proper mem
    exact ⟨(stores.mem k proper).2 mem, by simpa using proper⟩
  · rintro ⟨mem, proper⟩
    exact (stores.mem k (by simpa using proper)).1 mem

theorem Stores.card_le {keys : List α} (stores : Stores empty slots keys)
    (ok : Probing empty home slots) : keys.toFinset.card ≤ slots.length := by
  rw [stores.card ok]
  exact List.length_filter_le _ _

/-- Fewer keys than slots leave a slot empty. -/
theorem Stores.room_iff {keys : List α} (stores : Stores empty slots keys)
    (ok : Probing empty home slots) : empty ∈ slots ↔ keys.toFinset.card < slots.length := by
  rw [stores.card ok, List.length_filter_lt_length_iff_exists]
  simp

theorem Probing.replicate (n : ℕ) : Probing empty home (List.replicate n empty) := by
  refine ⟨by simp, fun k mem proper => ?_⟩
  exact absurd (List.eq_of_mem_replicate mem) proper

end VecFetch.Theory
