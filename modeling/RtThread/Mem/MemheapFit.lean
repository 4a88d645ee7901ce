import Mathlib.Algebra.GroupWithZero.Nat
import Mathlib.Algebra.Order.BigOperators.Group.List
import Mathlib.Algebra.Order.Group.Nat
import Mathlib.Algebra.Order.Monoid.Canonical.Defs
import RtThread.Mem.MemheapRun

/-!
# When a memheap refuses a request

`rt_memheap_alloc` compares the request with `available_size` before it searches the free list. The counter is the sum
of the free blocks, so the comparison refuses one kind of request that the list could serve: the one that takes exactly
all the free memory, from one block (`complete_iff`).
-/

namespace RtThread

open Tiles Rings

namespace Memheap

variable {c : MemheapConfig} {h : Memheap} {bs : List Block} {fs : List Nat} {size : Nat}

/-- The size that is looked for is `RT_ALIGN` of the size, but at least `RT_MEMHEAP_MINIALLOC`. -/
theorem request_eq (c : MemheapConfig) (size : Nat) : request c size = max (c.rtAlign size) c.minialloc := by
  unfold request
  dsimp only
  split <;> omega

/-- The available bytes are those of the free list. -/
theorem HeapInv.available_eq (I : HeapInv c h bs) (hl : FreeLinks h fs) :
    h.availableSize = (fs.map fun x => h.memitemSize c x).sum ∧ fs.Perm (freeStarts h bs) := by
  obtain ⟨xs, fs', C⟩ := I.consistent
  obtain ⟨gs, hgs, hp⟩ := I.free
  obtain rfl : fs' = fs := Ring.unique C.free hl
  obtain rfl : gs = fs' := Ring.unique hgs hl
  exact ⟨C.available, hp⟩

/-- `rt_memheap_alloc` returns `NULL` if the counter is too small, or else if every free block is. -/
theorem HeapInv.alloc_none_iff (I : HeapInv c h bs) (hl : FreeLinks h fs) :
    (h.rtMemheapAlloc c size).2 = none ↔
      h.availableSize ≤ request c size ∨ ∀ x ∈ fs, h.memitemSize c x < request c size := by
  have hp := (I.available_eq hl).2
  unfold Memheap.rtMemheapAlloc
  dsimp only
  split
  next hlt =>
    rcases @findFit_spec c _ _ (request c size) [] _ _ hl hl.first (I.free_length_lt hp) with
      ⟨x, hx, he, hs⟩ | ⟨he, hall⟩
    · rw [he]
      constructor
      · exact nofun
      · rintro (hle | hall)
        · omega
        · exact absurd (hall x hx) (Nat.not_lt.2 hs)
    · rw [he]
      exact ⟨fun _ => .inr hall, fun _ => rfl⟩
  next hge => exact ⟨fun _ => .inl (Nat.not_lt.1 hge), fun _ => rfl⟩

/-- `rt_memheap_alloc(heap, size)` returns `NULL` only if no block of the free list is large enough. -/
def Complete (c : MemheapConfig) (h : Memheap) (size : Nat) : Prop :=
  (h.rtMemheapAlloc c size).2 = none →
    ∀ fs, FreeLinks h fs → ∀ x ∈ fs, h.memitemSize c x < max (c.rtAlign size) c.minialloc

/-- The request is for all the free memory, and one block of the free list is of its size. -/
def ExactFit (c : MemheapConfig) (h : Memheap) (size : Nat) : Prop :=
  h.availableSize = max (c.rtAlign size) c.minialloc ∧
    ∃ fs, FreeLinks h fs ∧ ∃ x ∈ fs, h.memitemSize c x = max (c.rtAlign size) c.minialloc

theorem HeapInv.complete_iff (I : HeapInv c h bs) (size : Nat) : Complete c h size ↔ ¬ExactFit c h size := by
  unfold Complete ExactFit
  rw [← request_eq]
  constructor
  · rintro hc ⟨ha, fs, hl, x, hx, hs⟩
    have hnone := (I.alloc_none_iff hl).2 (.inl (Nat.le_of_eq ha))
    have hlt := hc hnone fs hl x hx
    omega
  · intro hn hnone fs hl x hx
    rcases (I.alloc_none_iff hl).1 hnone with hle | hall
    · -- A block that is large enough is then all that is available.
      by_contra hge
      have hsum := (I.available_eq hl).1
      have hx' : h.memitemSize c x ≤ (fs.map fun x => h.memitemSize c x).sum :=
        List.le_sum_of_mem (List.mem_map_of_mem hx)
      exact hn ⟨by omega, fs, hl, x, hx, by omega⟩
    · exact hall x hx

end Memheap

namespace MemheapSys

open Memheap

variable {c : MemheapConfig} {s : MemheapSys} {size : Nat}

/-- In every state of a run in which no reallocation expands a block beyond the free one behind it, `rt_memheap_alloc`
returns `NULL` for want of a block, unless the request takes exactly all the free memory from one block. -/
theorem memheap_complete (hr : Reach c s) (size : Nat) : Complete c s.heap size ↔ ¬ExactFit c s.heap size := by
  obtain ⟨bs, I, -⟩ := hr.inv
  exact I.complete_iff size

theorem memheap_complete_calls64 :
    Complete config64 (after64 calls64).heap 100 ↔ ¬ExactFit config64 (after64 calls64).heap 100 :=
  memheap_complete (reach_after64 calls64 (by decide +kernel)) 100

/-- The one free block of a new heap is refused to a request of its size. -/
theorem not_memheap_complete :
    ¬∀ (c : MemheapConfig) (s : MemheapSys) (size : Nat), Reach c s → size + c.alignSize ≤ 2 ^ c.bits →
      Complete c s.heap size := by
  intro h
  have hr := reach_after64 [] (by decide)
  obtain ⟨bs, I, -⟩ := hr.inv
  obtain ⟨fs, hl, -⟩ := I.free
  have hc := h config64 _ (after64 []).heap.availableSize hr (by decide) (by decide) fs hl
  cases fs with
  | nil =>
    have hnext : (after64 []).heap.freeList = ((after64 []).heap.item (after64 []).heap.freeList).nextFree := by
      simpa using hl.first
    exact absurd hnext (by decide)
  | cons x fs =>
    obtain rfl : x = ((after64 []).heap.item (after64 []).heap.freeList).nextFree := by simpa using hl.first
    exact absurd (hc _ List.mem_cons_self) (by decide)

end MemheapSys

end RtThread
