import Mathlib.Data.List.Perm.Basic
import Mathlib.Data.List.Range
import RtThread.Lib.Singly

/-!
# An array of items with a free list

Of the items `0 … max - 1` the first `used` have been given out at some time. Each of them is either on the free list,
which is linked through the items, or busy; the others have never been used. An item is taken from the free list
(`Arena.pop`), or from the end (`Arena.grow`), and is put back (`Arena.push`).
-/

namespace Singly

/-- The first `used` items are on the free list from `head` on, or busy, each once. -/
structure Arena (max used : Nat) (next : Nat → Option Nat) (head : Option Nat) (free busy : List Nat) : Prop where
  chain : Chain next head free
  perm : (free ++ busy).Perm (List.range used)
  le : used ≤ max

namespace Arena

variable {max used i : Nat} {next next' : Nat → Option Nat} {head : Option Nat} {free busy busy' : List Nat}

theorem empty (max : Nat) (next : Nat → Option Nat) : Arena max 0 next none [] [] := ⟨rfl, .nil, Nat.zero_le _⟩

section

variable (h : Arena max used next head free busy)

include h

theorem nodup : (free ++ busy).Nodup := h.perm.nodup_iff.2 List.nodup_range

theorem mem_iff : i ∈ free ∨ i ∈ busy ↔ i < used := by
  rw [← List.mem_append, h.perm.mem_iff, List.mem_range]

theorem not_free (hi : i ∈ busy) : i ∉ free :=
  fun hf => (List.nodup_append.1 h.nodup).2.2 i hf i hi rfl

theorem length_eq : free.length + busy.length = used := by
  rw [← List.length_append, h.perm.length_eq, List.length_range]

theorem busy_length_le : busy.length ≤ max := by
  have := h.length_eq
  have := h.le
  omega

/-- The links of the items that are not free do not count. -/
theorem congr (hnext : ∀ j ∈ free, next' j = next j) : Arena max used next' head free busy :=
  ⟨h.chain.congr hnext, h.perm, h.le⟩

theorem perm_busy (hp : busy'.Perm busy) : Arena max used next head free busy' :=
  ⟨h.chain, (hp.append_left free).trans h.perm, h.le⟩

end

/-- The first free item is taken. -/
theorem pop (h : Arena max used next (some i) free busy) :
    ∃ rest, free = i :: rest ∧ Arena max used next (next i) rest (i :: busy) := by
  obtain ⟨hchain, hperm, hle⟩ := h
  cases free with
  | nil => cases hchain
  | cons j rest =>
    obtain ⟨hhead, hrest⟩ := hchain
    cases hhead
    exact ⟨rest, rfl, hrest, List.perm_middle.trans hperm, hle⟩

/-- Nothing is free, and an item is taken that was never used. -/
theorem grow (h : Arena max used next none free busy) (hlt : used < max) :
    free = [] ∧ Arena max (used + 1) next none [] (used :: busy) := by
  obtain ⟨hchain, hperm, hle⟩ := h
  cases free with
  | cons j rest => cases hchain.1
  | nil =>
    refine ⟨rfl, rfl, ?_, hlt⟩
    rw [List.range_succ]
    exact (List.Perm.cons used hperm).trans (List.perm_append_singleton used (List.range used)).symm

/-- Nothing is free, and all items have been used: all are busy. -/
theorem full (h : Arena max used next none free busy) (hge : max ≤ used) : free = [] ∧ busy.length = max := by
  have hlen := h.length_eq
  have hle := h.le
  cases free with
  | cons j rest => cases h.chain.1
  | nil =>
    rw [List.length_nil, Nat.zero_add] at hlen
    exact ⟨rfl, by omega⟩

/-- With an item that can be taken not all are busy. -/
theorem busy_lt (h : Arena max used next head free busy) (hroom : head ≠ none ∨ used < max) : busy.length < max := by
  have hlen := h.length_eq
  have hle := h.le
  rcases hroom with hhead | hlt
  · cases free with
    | nil => exact absurd h.chain hhead
    | cons j rest =>
      rw [List.length_cons] at hlen
      omega
  · omega

/-- A busy item is put back. -/
theorem push (h : Arena max used next head free busy) (hi : i ∈ busy) (hself : next' i = head)
    (hnext : ∀ j ∈ free, next' j = next j) : Arena max used next' (some i) (i :: free) (busy.erase i) := by
  refine ⟨⟨rfl, ?_⟩, ?_, h.le⟩
  · rw [hself]
    exact h.chain.congr hnext
  · have hperm : busy.Perm (i :: busy.erase i) := List.perm_cons_erase hi
    exact (List.perm_middle.symm.trans (hperm.symm.append_left free)).trans h.perm

end Arena

end Singly
