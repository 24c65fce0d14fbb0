/-
# Theory.Arena -- pieces cut from blocks, one behind the other

An arena cuts each piece from its last block, behind what was cut from that block before.
Blocks share no byte, so neither do the pieces (`Arena.Sound`): growing by a block that is
apart from the others, cutting where there is room, and dropping all pieces keep it so.
-/
import Mathlib.Data.List.Basic
import Mathlib.Tactic.Common

namespace VecFetch.Theory

set_option autoImplicit false

/-- `size` bytes from `base` on, the first `used` of them cut. -/
structure Block where
  base : ℕ
  size : ℕ
  used : ℕ

/-- `length` bytes from `start` on, cut from the block of that index. -/
structure Piece where
  start : ℕ
  length : ℕ
  block : ℕ

structure Arena where
  blocks : List Block
  pieces : List Piece

/-- The blocks share no byte. -/
def Block.Apart (b c : Block) : Prop := c.base + c.size ≤ b.base ∨ b.base + b.size ≤ c.base

/-- The pieces share no byte. -/
def Piece.Apart (p q : Piece) : Prop :=
  p.start + p.length ≤ q.start ∨ q.start + q.length ≤ p.start

namespace Arena

/-- A piece of `length` bytes, for which `taken` bytes of the last block are given up. -/
def cut (front : List Block) (block : Block) (pieces : List Piece) (length taken : ℕ) :
    Arena where
  blocks := front ++ [{ block with used := block.used + taken }]
  pieces := pieces ++ [⟨block.base + block.used, length, front.length⟩]

/-- Pieces lie in what is cut from their blocks, and apart from one another. -/
structure Sound (a : Arena) : Prop where
  regions : a.blocks.Pairwise Block.Apart
  filled : ∀ b ∈ a.blocks, b.used ≤ b.size
  placed : ∀ p ∈ a.pieces, ∃ b, a.blocks[p.block]? = some b ∧ b.base ≤ p.start ∧
    p.start + p.length ≤ b.base + b.used
  apart : a.pieces.Pairwise Piece.Apart

theorem sound_empty : Sound ⟨[], []⟩ where
  regions := List.Pairwise.nil
  filled _ held := absurd held List.not_mem_nil
  placed _ held := absurd held List.not_mem_nil
  apart := List.Pairwise.nil

namespace Sound

/-- A piece lies in its block. -/
theorem inside {a : Arena} (sound : Sound a) {p : Piece} (held : p ∈ a.pieces) :
    ∃ b, a.blocks[p.block]? = some b ∧ b.base ≤ p.start ∧
      p.start + p.length ≤ b.base + b.size := by
  obtain ⟨b, at_p, above, below⟩ := sound.placed p held
  have mark := sound.filled b (List.mem_of_getElem? at_p)
  exact ⟨b, at_p, above, by omega⟩

theorem grow {blocks : List Block} {pieces : List Piece} (sound : Sound ⟨blocks, pieces⟩)
    {base size : ℕ} (apart : ∀ b ∈ blocks, b.Apart ⟨base, size, 0⟩) :
    Sound ⟨blocks ++ [⟨base, size, 0⟩], pieces⟩ where
  regions := by
    refine List.pairwise_append.2 ⟨sound.regions, List.pairwise_singleton _ _, ?_⟩
    intro b held new is_new
    obtain rfl := List.mem_singleton.1 is_new
    exact apart b held
  filled b held := by
    rcases List.mem_append.1 held with old | is_new
    · exact sound.filled b old
    · obtain rfl := List.mem_singleton.1 is_new
      exact Nat.zero_le _
  placed p held := by
    obtain ⟨b, at_p, above, below⟩ := sound.placed p held
    obtain ⟨bound, -⟩ := List.getElem?_eq_some_iff.1 at_p
    exact ⟨b, (List.getElem?_append_left bound).trans at_p, above, below⟩
  apart := sound.apart

/-- A block is the last one or one before it. -/
theorem last_or_front {front : List Block} {block b : Block} {i : ℕ}
    (at_i : (front ++ [block])[i]? = some b) :
    front[i]? = some b ∨ i = front.length ∧ b = block := by
  rcases Nat.lt_or_ge i front.length with before | behind
  · exact .inl (by rwa [List.getElem?_append_left before] at at_i)
  · obtain ⟨bound, -⟩ := List.getElem?_eq_some_iff.1 at_i
    rw [List.length_append, List.length_singleton] at bound
    obtain rfl : i = front.length := by omega
    simp only [List.getElem?_concat_length, Option.some.injEq] at at_i
    exact .inr ⟨rfl, at_i.symm⟩

/-- A piece for which there is room lies above those of its block and outside all others. -/
theorem cut {front : List Block} {block : Block} {pieces : List Piece}
    (sound : Sound ⟨front ++ [block], pieces⟩) {length taken : ℕ} (covers : length ≤ taken)
    (room : block.used + taken ≤ block.size) :
    Sound (Arena.cut front block pieces length taken) where
  regions := by
    obtain ⟨old, -, across⟩ := List.pairwise_append.1 sound.regions
    refine List.pairwise_append.2 ⟨old, List.pairwise_singleton _ _, ?_⟩
    intro b held new is_new
    obtain rfl := List.mem_singleton.1 is_new
    exact across b held block (List.mem_singleton_self _)
  filled b held := by
    rcases List.mem_append.1 held with old | is_new
    · exact sound.filled b (List.mem_append_left _ old)
    · obtain rfl := List.mem_singleton.1 is_new
      exact room
  placed p held := by
    rcases List.mem_append.1 held with old | is_new
    · obtain ⟨b, at_p, above, below⟩ := sound.placed p old
      rcases last_or_front at_p with before | ⟨last, rfl⟩
      · obtain ⟨bound, -⟩ := List.getElem?_eq_some_iff.1 before
        exact ⟨b, (List.getElem?_append_left bound).trans before, above, below⟩
      · refine ⟨{ b with used := b.used + taken }, ?_, above, ?_⟩
        · rw [last]
          exact List.getElem?_concat_length
        · dsimp only
          omega
    · obtain rfl := List.mem_singleton.1 is_new
      refine ⟨{ block with used := block.used + taken }, List.getElem?_concat_length,
        Nat.le_add_right _ _, ?_⟩
      dsimp only
      omega
  apart := by
    refine List.pairwise_append.2 ⟨sound.apart, List.pairwise_singleton _ _, ?_⟩
    intro p old new is_new
    obtain rfl := List.mem_singleton.1 is_new
    obtain ⟨b, at_p, above, below⟩ := sound.placed p old
    rw [Piece.Apart]
    dsimp only
    rcases last_or_front at_p with before | ⟨-, rfl⟩
    · -- An earlier block: all of it is apart from the last one.
      have inFront := List.mem_of_getElem? before
      have mark := sound.filled b (List.mem_append_left _ inFront)
      have across := (List.pairwise_append.1 sound.regions).2.2 b inFront block (by simp)
      rw [Block.Apart] at across
      omega
    · omega

/-- Without pieces every block is free again. -/
theorem reset {a : Arena} (sound : Sound a) :
    Sound ⟨a.blocks.map fun b => { b with used := 0 }, []⟩ where
  regions := List.pairwise_map.2 sound.regions
  filled b held := by
    obtain ⟨old, -, rfl⟩ := List.mem_map.1 held
    exact Nat.zero_le _
  placed _ held := absurd held List.not_mem_nil
  apart := List.Pairwise.nil

end Sound

end Arena

end VecFetch.Theory
