import RtThread.Lib.Runs
import RtThread.Mem.MemheapOps

/-!
# Runs of a memheap

A run starts with `rt_memheap_init` on a pool; its users free and reallocate only blocks that the heap has handed out and
not taken back, and write into them. If no reallocation expands a block beyond the free one behind it, the two lists and
the counters agree in every state reached (`memheap_consistent`), and a block that is returned is good if `RT_ALIGN` of
its size does not wrap (`memheap_safe`).
-/

namespace RtThread

open Tiles Rings

/-- A heap, with the blocks it has handed out and not taken back. -/
structure MemheapSys where
  heap : Memheap
  live : List Nat

/-- A call, or a write of a user. -/
inductive MemheapCall
  | alloc (size : Nat)
  | realloc (ptr : Option Nat) (newsize : Nat)
  | free (ptr : Option Nat)
  | store (ptr k : Nat) (v : UInt8)
  deriving DecidableEq

namespace MemheapSys

variable (c : MemheapConfig)

/-- The blocks but the one that is given up. -/
def without (live : List Nat) : Option Nat → List Nat
  | none => live
  | some ptr => live.erase ptr

/-- A step of users who free, reallocate and write only their own blocks. -/
def step (s : MemheapSys) : MemheapCall → Option (MemheapSys × Option Nat)
  | .alloc size =>
    if size < 2 ^ c.bits then
      let r := s.heap.rtMemheapAlloc c size
      some ({ heap := r.1, live := r.2.toList ++ s.live }, r.2)
    else none
  | .realloc ptr newsize =>
    if newsize < 2 ^ c.bits ∧ ∀ p ∈ ptr, p ∈ s.live then
      (s.heap.rtMemheapRealloc c ptr newsize).map fun r =>
        let live := if r.2.isSome ∨ newsize = 0 then without s.live ptr else s.live
        ({ heap := r.1, live := r.2.toList ++ live }, r.2)
    else none
  | .free ptr =>
    if ∀ p ∈ ptr, p ∈ s.live then
      (s.heap.rtMemheapFree c ptr).map fun h => ({ heap := h, live := without s.live ptr }, none)
    else none
  | .store ptr k v =>
    if ptr ∈ s.live ∧ k < s.heap.memitemSize c (Memheap.memitem c ptr) then
      let mem := { s.heap.mem with byte := Function.update s.heap.mem.byte (ptr + k) v }
      some ({ s with heap := { s.heap with mem := mem } }, none)
    else none

/-- A reallocation expands a block beyond the free one behind it. -/
def Overgrow (s : MemheapSys) : MemheapCall → Prop
  | .realloc (some ptr) newsize => Memheap.Overgrows c s.heap ptr newsize
  | _ => False

instance (s : MemheapSys) (call : MemheapCall) : Decidable (Overgrow c s call) :=
  match call with
  | .realloc (some _) _ => inferInstanceAs (Decidable (_ ∧ _ ∧ _))
  | .realloc none _ | .alloc _ | .free _ | .store _ _ _ => inferInstanceAs (Decidable False)

/-- A pool, its `struct rt_memheap`, and the free list header in that. The pool is within the address space, and holds at
least two items and the smallest block. -/
structure Pool where
  memheap : Nat
  freeHeader : Nat
  startAddr : Nat
  size : Nat
  fits : startAddr + size ≤ 2 ^ c.bits
  size_lt : size < 2 ^ c.bits
  size_ge : 2 * c.memheapSize + c.minialloc ≤ size
  apart : freeHeader + c.memheapSize ≤ startAddr ∨ startAddr + size ≤ freeHeader

/-- The new heap on a pool, whatever the memory holds. -/
def Pool.init {c : MemheapConfig} (p : Pool c) (mem : Store MemheapItem) : MemheapSys :=
  ⟨Memheap.rtMemheapInit c mem p.memheap p.freeHeader p.startAddr p.size, []⟩

/-- The states of runs in which no reallocation expands a block beyond the free one behind it. -/
def Reach (s : MemheapSys) : Prop :=
  ∃ (p : Pool c) (mem : Store MemheapItem) (ls : List (MemheapCall × Option Nat)),
    Runs.Run (fun s l s' => step c s l.1 = some (s', l.2) ∧ ¬Overgrow c s l.1) (p.init mem) ls s

end MemheapSys

namespace Memheap

variable {c : MemheapConfig} {h h' : Memheap} {bs : List Block} {b : Block} {x y n size newsize : Nat}

/-! ## `rt_memheap_init` -/

/-- A new heap is one free block. -/
theorem rtMemheapInit_inv (p : MemheapSys.Pool c) (mem : Store MemheapItem) :
    ∃ n, HeapInv c (p.init mem).heap [⟨n, false⟩] := by
  have hH := c.memheapSize_pos
  have hfits := p.fits
  have hlt := p.size_lt
  have hap := p.apart
  have hle := c.rtAlignDown_le p.size
  have hge : 2 * c.memheapSize + c.minialloc ≤ c.rtAlignDown p.size :=
    Word.le_rtAlignDown (Nat.dvd_add (Nat.dvd_mul_left_of_dvd (c.alignSize_dvd_rtAlign _) 2) (c.alignSize_dvd_rtAlign _))
      p.size_ge
  unfold MemheapSys.Pool.init rtMemheapInit
  dsimp only
  generalize c.rtAlignDown p.size = ps at *
  have hav : c.sub ps (2 * c.memheapSize) = ps - 2 * c.memheapSize := Word.sub_eq (by omega) (by omega)
  have hmax : c.sub ps (ps - 2 * c.memheapSize) = 2 * c.memheapSize := by
    rw [Word.sub_eq (by omega) (by omega)]
    omega
  have htail : c.add (c.add p.startAddr (ps - 2 * c.memheapSize)) c.memheapSize = p.startAddr + (ps - c.memheapSize) := by
    rw [Word.add_eq (a := p.startAddr) (by omega), Word.add_eq (by omega)]
    omega
  rw [hav, hmax, htail]
  generalize hn : ps - c.memheapSize = n at *
  have e1 : p.freeHeader ≠ p.startAddr := by omega
  have e2 : p.freeHeader ≠ p.startAddr + n := by omega
  have e3 : p.startAddr ≠ p.startAddr + n := by omega
  generalize hh : setItem c _ (p.startAddr + n) _ = h
  have hit (y : Nat) : h.item y =
      if y = p.startAddr + n then ⟨memheapMagic ||| memheapUsed, p.memheap, p.startAddr, p.startAddr, 0, 0⟩
      else if y = p.startAddr then
        ⟨memheapMagic ||| memheapFreed, p.memheap, p.startAddr + n, p.startAddr + n, p.freeHeader, p.freeHeader⟩
      else if y = p.freeHeader then ⟨memheapMagic ||| memheapFreed, p.memheap, 0, 0, p.startAddr, p.startAddr⟩
      else mem.item y := by
    subst hh
    simp only [setItem_item, modItem_item, e1, if_true, if_false]
    split_ifs <;> simp_all [item]
  have hf : h.addr = p.memheap ∧ h.startAddr = p.startAddr ∧ h.poolSize = ps ∧ h.freeList = p.freeHeader ∧
      h.blockList = p.startAddr ∧ h.availableSize = ps - 2 * c.memheapSize ∧ h.maxUsedSize = 2 * c.memheapSize := by
    subst hh
    exact ⟨rfl, rfl, rfl, rfl, rfl, rfl, rfl⟩
  obtain ⟨f1, f2, f3, f4, f5, f6, f7⟩ := hf
  have hi1 := hit p.freeHeader
  have hi2 := hit p.startAddr
  have hi3 := hit (p.startAddr + n)
  rw [if_neg e2, if_neg e1, if_pos rfl] at hi1
  rw [if_neg e3, if_pos rfl] at hi2
  have hend : p.startAddr + n + c.memheapSize = p.startAddr + ps := by omega
  refine ⟨n, ⟨⟨⟨?_, ?_, by rw [f5, f2], ?_⟩, ⟨[p.startAddr], ⟨?_, ?_⟩, ?_⟩, ?_⟩, merged_cons.2 ⟨by simp, merged_nil⟩, ?_, ?_, ?_, ?_⟩⟩
  · simp only [f2, f3, extent_cons, extent_nil, Nat.add_zero, List.cons_append, List.nil_append, seg_cons, seg_nil, headers,
      hi2, hi3, f1, MemheapItem.isUsed_used, MemheapItem.isUsed_freed, if_neg e3.symm, if_true, hend, true_and, and_true]
    exact ⟨⟨.inr trivial, by omega⟩, .inl trivial, by omega⟩
  · intro b hb
    obtain rfl := List.mem_singleton.1 hb
    dsimp only
    omega
  · rw [f2, f3]; omega
  · simp [Link, f4, hi1, hi2]
  · simp [f4, e1]
  · simp [freeStarts, freeBlocks, f2]
  · rw [f2, f3, f4]; omega
  · simp [f6]; omega
  · rw [f3, f6, f7]; omega
  · rw [f3, f7]; omega
  · rw [f3]; omega

end Memheap

namespace MemheapSys

open Memheap

variable {c : MemheapConfig} {s s' : MemheapSys} {x : Nat} {b : Block} {bs : List Block} {call : MemheapCall} {r : Option Nat}
  {size : Nat} {ptr : Option Nat}

/-! ## The invariant of runs -/

/-- The data of the used blocks. -/
def data (c : MemheapConfig) (h : Memheap) (bs : List Block) : List Nat :=
  (usedBlocks h.startAddr bs).map fun q => q.1 + c.memheapSize

/-- The used blocks of the heap are the ones its users have. -/
def Inv (c : MemheapConfig) (s : MemheapSys) : Prop := ∃ bs, HeapInv c s.heap bs ∧ s.live.Perm (data c s.heap bs)

/-- The block of a live address. -/
theorem mem_of_live {p : Nat} (hl : s.live.Perm (data c s.heap bs)) (hp : p ∈ s.live) :
    ∃ x b, (x, b) ∈ usedBlocks s.heap.startAddr bs ∧ p = x + c.memheapSize := by
  obtain ⟨⟨x, b⟩, hm, rfl⟩ := List.mem_map.1 (hl.mem_iff.1 hp)
  exact ⟨x, b, hm, rfl⟩

/-- What is left of the live blocks when one is given up. -/
theorem erase_live {us : List (Nat × Block)} (hl : s.live.Perm (data c s.heap bs))
    (hp : (usedBlocks s.heap.startAddr bs).Perm ((x, b) :: us)) :
    (s.live.erase (x + c.memheapSize)).Perm (us.map fun q => q.1 + c.memheapSize) := by
  have h := (hl.trans (hp.map fun q : Nat × Block => q.1 + c.memheapSize)).erase (x + c.memheapSize)
  rwa [List.map_cons, List.erase_cons_head] at h

theorem alloc_inv (hI : HeapInv c s.heap bs) (hl : s.live.Perm (data c s.heap bs)) (size : Nat) :
    Inv c ⟨(s.heap.rtMemheapAlloc c size).1, (s.heap.rtMemheapAlloc c size).2.toList ++ s.live⟩ := by
  rcases hI.rtMemheapAlloc size with he | ⟨h', x, n, bs', he, A, -⟩
  · rw [he]; exact ⟨bs, hI, hl⟩
  · rw [he]
    refine ⟨bs', A.inv, ?_⟩
    have hp := A.blocks
    rw [← A.frame.startAddr] at hp
    refine ((hl.cons (x + c.memheapSize)).trans ?_).trans (hp.map fun q : Nat × Block => q.1 + c.memheapSize).symm
    rw [A.frame.startAddr]
    exact List.Perm.refl _

theorem free_inv {h' : Memheap} (hI : HeapInv c s.heap bs) (hl : s.live.Perm (data c s.heap bs))
    (hptr : ∀ p ∈ ptr, p ∈ s.live) (he : s.heap.rtMemheapFree c ptr = some h') : Inv c ⟨h', without s.live ptr⟩ := by
  cases ptr with
  | none =>
    cases he
    exact ⟨bs, hI, hl⟩
  | some p =>
    obtain ⟨x, b, hm, rfl⟩ := mem_of_live hl (hptr p rfl)
    obtain ⟨h1, bs', hf, I', F, hp⟩ := hI.rtMemheapFree hm
    cases he.symm.trans hf
    refine ⟨bs', I', ?_⟩
    rw [data, F.startAddr]
    exact erase_live hl hp

/-- A step keeps the invariant, unless it expands a block beyond the free one behind it. -/
theorem Inv.step (I : Inv c s) (hk : MemheapSys.step c s call = some (s', r)) (hg : ¬Overgrow c s call) : Inv c s' := by
  obtain ⟨bs, hI, hl⟩ := I
  cases call with
  | alloc size =>
    simp only [MemheapSys.step] at hk
    split at hk
    swap
    · cases hk
    cases hk
    exact alloc_inv hI hl size
  | realloc ptr newsize =>
    simp only [MemheapSys.step] at hk
    split at hk
    swap
    · cases hk
    rename_i hc
    obtain ⟨r1, hr1, he1⟩ := Option.map_eq_some_iff.1 hk
    cases he1
    by_cases h0 : newsize = 0
    · rw [rtMemheapRealloc, if_pos h0] at hr1
      obtain ⟨h', hf, rfl⟩ := Option.map_eq_some_iff.1 hr1
      simpa [h0] using free_inv hI hl hc.2 hf
    · cases ptr with
      | none =>
        rw [rtMemheapRealloc, if_neg h0] at hr1
        cases hr1
        simpa [without] using alloc_inv hI hl (request c newsize)
      | some p =>
        obtain ⟨x, b, hm, rfl⟩ := mem_of_live hl (hc.2 p rfl)
        rcases hI.rtMemheapRealloc hm h0 hg with he | ⟨h', y, n, he, M⟩
        · rw [he] at hr1
          cases hr1
          exact ⟨bs, hI, by simpa [h0] using hl⟩
        · rw [he] at hr1
          cases hr1
          obtain ⟨bs', us, I', hp, hp'⟩ := M.blocks
          refine ⟨bs', I', ?_⟩
          rw [data, M.startAddr]
          exact ((erase_live hl hp).cons _).trans (hp'.map fun q : Nat × Block => q.1 + c.memheapSize).symm
  | free ptr =>
    simp only [MemheapSys.step] at hk
    split at hk
    swap
    · cases hk
    rename_i hc
    obtain ⟨h', hh', he1⟩ := Option.map_eq_some_iff.1 hk
    cases he1
    exact free_inv hI hl hc hh'
  | store p k v =>
    simp only [MemheapSys.step] at hk
    split at hk
    swap
    · cases hk
    cases hk
    exact ⟨bs, ⟨⟨⟨hI.seg, hI.header, hI.blockList, hI.room⟩, hI.free, hI.apart⟩, hI.merged, hI.available, hI.used,
      hI.maxUsed, hI.poolSize_lt⟩, hl⟩

theorem Reach.inv (hr : Reach c s) : Inv c s := by
  obtain ⟨p, mem, ls, hrun⟩ := hr
  obtain ⟨n, hI⟩ := rtMemheapInit_inv p mem
  refine hrun.invariant (I := Inv c) ⟨_, hI, ?_⟩ fun s l s' I hs => I.step hs.1 hs.2
  exact List.Perm.refl _

end MemheapSys

/-! ## The two lists and the counters -/

namespace Memheap

variable {c : MemheapConfig} {h : Memheap} {bs : List Block} {b : Block} {x : Nat}

/-- What the items say: `xs` are those behind `block_list`, and `fs` the ones of the free list. -/
structure Consistent (c : MemheapConfig) (h : Memheap) (xs fs : List Nat) : Prop where
  blocks : Ring (fun x => (h.item x).next) (fun x => (h.item x).prev) h.blockList xs
  ordered : (h.blockList :: xs).Pairwise (· < ·)
  magic : ∀ x ∈ h.blockList :: xs,
    (h.item x).magic = memheapMagic ||| memheapUsed ∨ (h.item x).magic = memheapMagic ||| memheapFreed
  free : Ring (fun x => (h.item x).nextFree) (fun x => (h.item x).prevFree) h.freeList fs
  mem_free : ∀ x, x ∈ fs ↔ x ∈ h.blockList :: xs ∧ (h.item x).magic = memheapMagic ||| memheapFreed
  merged : ∀ x ∈ h.blockList :: xs, (h.item x).isUsed = false → (h.item (h.item x).next).isUsed = true
  available : h.availableSize = (fs.map fun x => h.memitemSize c x).sum
  available_le : h.availableSize ≤ h.poolSize
  used : h.poolSize - h.availableSize ≤ h.maxUsedSize
  maxUsed : h.maxUsedSize ≤ h.poolSize

/-- The blocks of the pool, the tail included. -/
theorem Tiling.of_mem (T : Tiling c h bs) (hm : (x, b) ∈ starts h.startAddr (bs ++ [⟨c.memheapSize, true⟩])) :
    (h.item x).isUsed = b.used ∧
      ((h.item x).magic = memheapMagic ||| memheapUsed ∨ (h.item x).magic = memheapMagic ||| memheapFreed) := by
  obtain ⟨-, hu, hv, -⟩ := T.seg.of_mem_starts hm
  exact ⟨hu, hv⟩

/-- The circle of the block list. -/
theorem Tiling.ring (T : Tiling c h bs) : ∃ xs,
    (starts h.startAddr (bs ++ [⟨c.memheapSize, true⟩])).map Prod.fst = h.blockList :: xs ∧
      Ring (fun x => (h.item x).next) (fun x => (h.item x).prev) h.blockList xs := by
  have hH := c.memheapSize_pos
  have hsort := pairwise_lt_starts (a := h.startAddr) T.pos
  have hc := T.seg.isChain
  have hnodes : (starts h.startAddr (bs ++ [⟨c.memheapSize, true⟩])).map Prod.fst =
      (starts h.startAddr bs).map Prod.fst ++ [h.startAddr + extent bs] := by simp
  obtain ⟨xs, hxs⟩ : ∃ xs, (starts h.startAddr (bs ++ [⟨c.memheapSize, true⟩])).map Prod.fst = h.startAddr :: xs := by
    cases bs <;> simp
  rw [T.blockList]
  refine ⟨xs, hxs, ?_, ?_⟩
  · rw [hxs] at hc hnodes
    refine List.isChain_append.2 ⟨chain_congr hc (fun a ha => ?_) fun a _ => rfl, List.isChain_singleton _,
      fun u hu v hv => ?_⟩
    · -- `next` of the items before the tail.
      rw [hnodes, List.dropLast_concat] at ha
      obtain ⟨⟨a, b⟩, hm, rfl⟩ := List.mem_map.1 ha
      obtain ⟨ds, es, rfl, hds⟩ := mem_starts.1 hm
      have hb := T.header b (by simp)
      have hnext := (T.item_eq hds).1
      simp only [headers]
      rw [if_neg (by omega)]
    · -- The tail and the first item.
      rw [hnodes, List.getLast?_concat] at hu
      cases hu
      obtain rfl : h.startAddr = v := by simpa using hv
      refine ⟨T.tail_item.2, ?_⟩
      have hs := T.seg
      cases bs with
      | nil => exact hs.1
      | cons b bs => exact hs.1
  · rw [hxs] at hsort
    exact hsort.imp fun hlt => Nat.ne_of_lt hlt

theorem HeapInv.consistent (I : HeapInv c h bs) : ∃ xs fs, Consistent c h xs fs := by
  obtain ⟨xs, hxs, hring⟩ := I.toTiling.ring
  obtain ⟨fs, hl, hp⟩ := I.free
  have hext := I.extent_eq
  have hu := I.used
  have hfr := @freeRoom_le bs c.memheapSize
  have hav := I.available
  have hmem (x : Nat) : x ∈ h.blockList :: xs ↔ ∃ b, (x, b) ∈ starts h.startAddr (bs ++ [⟨c.memheapSize, true⟩]) := by
    rw [← hxs]
    exact List.mem_map.trans ⟨fun ⟨⟨_, b⟩, hm, he⟩ => ⟨b, he ▸ hm⟩, fun ⟨b, hm⟩ => ⟨(x, b), hm, rfl⟩⟩
  have hfree {x : Nat} {b : Block} (hm : (x, b) ∈ starts h.startAddr (bs ++ [⟨c.memheapSize, true⟩])) (hb : b.used = false) :
      (x, b) ∈ starts h.startAddr bs := by
    rw [starts_append, List.mem_append] at hm
    refine hm.resolve_right fun h1 => ?_
    simp only [starts_cons, starts_nil, List.mem_singleton] at h1
    rw [(Prod.mk.inj h1).2] at hb
    cases hb
  refine ⟨xs, fs, hring, ?_, fun x hx => ?_, hl, fun x => ?_, fun x hx hux => ?_, ?_, by omega, by omega, I.maxUsed⟩
  · rw [← hxs]
    exact pairwise_lt_starts I.pos
  · obtain ⟨b, hm⟩ := (hmem x).1 hx
    exact (I.of_mem hm).2
  · rw [hp.mem_iff, mem_freeStarts, hmem]
    constructor
    · rintro ⟨b, hm, hb⟩
      have hm' : (x, b) ∈ starts h.startAddr (bs ++ [⟨c.memheapSize, true⟩]) := by
        rw [starts_append]
        exact List.mem_append_left _ hm
      obtain ⟨h1, h2⟩ := I.of_mem hm'
      refine ⟨⟨b, hm'⟩, h2.resolve_left fun h3 => ?_⟩
      rw [MemheapItem.isUsed_used h3, hb] at h1
      cases h1
    · rintro ⟨⟨b, hm⟩, hfreed⟩
      have hb : b.used = false := by rw [← (I.of_mem hm).1, MemheapItem.isUsed_freed hfreed]
      exact ⟨b, hfree hm hb, hb⟩
  · obtain ⟨b, hm⟩ := (hmem x).1 hx
    have hb : b.used = false := by rw [← (I.of_mem hm).1, hux]
    obtain ⟨ds, es, rfl, hds⟩ := mem_starts.1 (hfree hm hb)
    have hes := (merged_cons.1 (merged_append.1 I.merged).2.1).1
    rw [(I.item_eq hds).1, (I.next_item hds).1]
    cases es with
    | nil => rfl
    | cons e es => exact (hes e (by simp)).resolve_left (by simp [hb])
  · rw [(hp.map _).sum_nat, hav, freeRoom_eq (a := h.startAddr), freeStarts, List.map_map]
    congr 1
    refine List.map_congr_left fun q hq => ?_
    obtain ⟨ds, es, rfl, hds⟩ := mem_starts.1 (mem_freeBlocks.1 (show (q.1, q.2) ∈ _ from hq)).1
    exact (I.memitemSize_eq hds).symm

end Memheap

namespace MemheapSys

open Memheap

variable {c : MemheapConfig} {s : MemheapSys} {size : Nat} {call : MemheapCall}

/-- In every state of a run in which no reallocation expands a block beyond the free one behind it: the block list is
circular and ascends, the free list holds the free blocks, no two of which are adjacent, and the counters add them up. -/
theorem memheap_consistent (hr : Reach c s) : ∃ xs fs, Consistent c s.heap xs fs := by
  obtain ⟨bs, I, -⟩ := hr.inv
  exact I.consistent

theorem bits_ge_64 : 32 ≤ 64 := by decide

/-- A 64-bit target with `RT_ALIGN_SIZE` 8. -/
def config64 : MemheapConfig where
  bits := 64
  alignSize := 8
  alignSize_pow := Word.pow_eight
  alignSize_lt := Word.eight_lt
  itemSize := 48
  bestMode := true
  enc _ _ := 0
  bits_ge := bits_ge_64
  itemSize_ge := by decide
  itemSize_lt := by decide

/-- 3 GiB of memory at `0x1000`. -/
def pool64 : Pool config64 where
  memheap := 0x100
  freeHeader := 0x200
  startAddr := 0x1000
  size := 0xC0000000
  fits := by decide
  size_lt := by decide
  size_ge := by decide
  apart := by decide

/-- The new heap on it. -/
def new64 : MemheapSys := pool64.init ⟨fun _ => ⟨0, 0, 0, 0, 0, 0⟩, fun _ => 0⟩

/-- A step that does not expand a block beyond the free one behind it. -/
def calmStep (c : MemheapConfig) (s : MemheapSys) (call : MemheapCall) : Option (MemheapSys × Option Nat) :=
  if Overgrow c s call then none else step c s call

/-- The state after some calls. -/
def after64 (calls : List MemheapCall) : MemheapSys := ((Runs.exec (calmStep config64) new64 calls).map (·.1)).getD new64

theorem reach_after64 (calls : List MemheapCall) (h : (Runs.exec (calmStep config64) new64 calls).isSome) :
    Reach config64 (after64 calls) := by
  obtain ⟨⟨s, ls⟩, he⟩ := Option.isSome_iff_exists.1 h
  have hs : after64 calls = s := by simp [after64, he]
  rw [hs]
  refine ⟨pool64, _, ls, @Runs.Run.of_exec _ _ _ _ _ _ _ (fun _ => True) (fun s call s' r hf _ => ?_) _ _ he fun _ _ => trivial⟩
  unfold calmStep at hf
  split at hf
  · cases hf
  · rename_i hg
    exact ⟨hf, hg⟩

/-- Three blocks are allocated; the first one is freed, the second one is cut, and the third one grows. -/
def calls64 : List MemheapCall :=
  [.alloc 100, .alloc 200, .alloc 100, .free (some 0x1030), .realloc (some 0x10c8) 24, .realloc (some 0x11c0) 300]

theorem reach_calls64 : Reach config64 (after64 calls64) ∧ 0x10c8 ∈ (after64 calls64).live :=
  ⟨reach_after64 calls64 (by decide +kernel), by decide +kernel⟩

theorem memheap_consistent_calls64 : ∃ xs fs, Consistent config64 (after64 calls64).heap xs fs :=
  memheap_consistent reach_calls64.1

/-- A block is expanded beyond the pool: `nextsize` is negative. -/
theorem not_memheap_consistent :
    ¬∀ (c : MemheapConfig) (p : Pool c) (mem : Store MemheapItem) (ls : List (MemheapCall × Option Nat)) (s : MemheapSys),
      Runs.Run (fun s l s' => step c s l.1 = some (s', l.2)) (p.init mem) ls s → ∃ xs fs, Consistent c s.heap xs fs := by
  intro h
  obtain ⟨⟨s, ls⟩, he⟩ := Option.isSome_iff_exists.1
    (show (Runs.exec (step config64) new64 [.alloc 100, .realloc (some 0x1030) 0xD0000000]).isSome by decide)
  obtain ⟨xs, fs, hc⟩ := h config64 pool64 _ ls s
    (@Runs.Run.of_exec _ _ _ _ _ _ _ (fun _ => True) (fun _ _ _ _ hf _ => hf) _ _ he fun _ _ => trivial)
  have hs : s = ((Runs.exec (step config64) new64 [.alloc 100, .realloc (some 0x1030) 0xD0000000]).map (·.1)).getD new64 := by
    rw [he]
    rfl
  have hmax := hc.maxUsed
  rw [hs] at hmax
  exact absurd hmax (by decide)

/-- In every state of such a run, no assertion fails in a call for a live block. -/
theorem memheap_progress (hr : Reach c s)
    (hsize : ∀ n, call = .alloc n ∨ (∃ p, call = .realloc p n) → n < 2 ^ c.bits)
    (hlive : ∀ p, call = .free (some p) ∨ (∃ n, call = .realloc (some p) n) → p ∈ s.live)
    (hstore : ∀ p k v, call = .store p k v → p ∈ s.live ∧ k < s.heap.memitemSize c (memitem c p)) :
    (MemheapSys.step c s call).isSome := by
  obtain ⟨bs, hI, hl⟩ := hr.inv
  have hfree (p : Nat) (hp : p ∈ s.live) : (s.heap.rtMemheapFree c (some p)).isSome := by
    obtain ⟨x, b, hm, rfl⟩ := mem_of_live hl hp
    obtain ⟨h1, -, he, -⟩ := hI.rtMemheapFree hm
    rw [he]
    rfl
  cases call with
  | alloc n => simp [MemheapSys.step, hsize n (.inl rfl)]
  | realloc ptr n =>
    have hn := hsize n (.inr ⟨ptr, rfl⟩)
    simp only [MemheapSys.step]
    rw [if_pos ⟨hn, fun p hp => hlive p (.inr ⟨n, by rw [hp]⟩)⟩, Option.isSome_map]
    by_cases h0 : n = 0
    · rw [rtMemheapRealloc, if_pos h0, Option.isSome_map]
      cases ptr with
      | none => rfl
      | some p => exact hfree p (hlive p (.inr ⟨n, rfl⟩))
    · cases ptr with
      | none => rw [rtMemheapRealloc, if_neg h0]; rfl
      | some p =>
        obtain ⟨x, b, hm, rfl⟩ := mem_of_live hl (hlive p (.inr ⟨n, rfl⟩))
        by_cases hg : Overgrows c s.heap (x + c.memheapSize) n
        · exact hI.rtMemheapRealloc_overgrows hm h0 hg
        · rcases hI.rtMemheapRealloc hm h0 hg with he | ⟨h', y, k, he, -⟩ <;> rw [he] <;> rfl
  | free ptr =>
    simp only [MemheapSys.step]
    rw [if_pos fun p hp => hlive p (.inl (by rw [hp])), Option.isSome_map]
    cases ptr with
    | none => rfl
    | some p => exact hfree p (hlive p (.inl rfl))
  | store p k v => simp [MemheapSys.step, hstore p k v rfl]

theorem memheap_progress_calls64 : (MemheapSys.step config64 (after64 calls64) (.free (some 0x10c8))).isSome := by
  refine memheap_progress reach_calls64.1 (by simp) ?_ (by simp)
  rintro p (h | ⟨n, h⟩) <;> cases h
  exact reach_calls64.2

/-! ## What a returned block promises -/

/-- The block at `p` is inside the pool, large enough, and apart from the other live blocks. -/
structure Good (c : MemheapConfig) (h : Memheap) (others : List Nat) (size p : Nat) : Prop where
  inside : h.startAddr + c.memheapSize ≤ p ∧ p + h.memitemSize c (memitem c p) ≤ h.startAddr + h.poolSize
  size_le : size ≤ h.memitemSize c (memitem c p)
  apart : ∀ q ∈ others, p + h.memitemSize c (memitem c p) ≤ memitem c q ∨
    q + h.memitemSize c (memitem c q) ≤ memitem c p

/-- `rt_memheap_alloc(heap, size)` returns a good block, or `NULL`. -/
def AllocSafe (c : MemheapConfig) (s : MemheapSys) (size : Nat) : Prop :=
  ∀ p, (s.heap.rtMemheapAlloc c size).2 = some p → Good c (s.heap.rtMemheapAlloc c size).1 s.live size p

/-- `rt_memheap_realloc(heap, ptr, size)` returns a good block with the data of the old one, or `NULL`. -/
def ReallocSafe (c : MemheapConfig) (s : MemheapSys) (ptr : Option Nat) (size : Nat) : Prop :=
  ∀ h' p, s.heap.rtMemheapRealloc c ptr size = some (h', some p) → Good c h' (without s.live ptr) size p ∧
    ∀ q ∈ ptr, ∀ k < s.heap.memitemSize c (memitem c q), k < size → h'.mem.byte (p + k) = s.heap.mem.byte (q + k)

/-- A used block of the heap is a good one. -/
theorem good_of_used {h : Memheap} {bs : List Block} {us : List (Nat × Block)} {x n : Nat} (I : HeapInv c h bs)
    (hp : (usedBlocks h.startAddr bs).Perm ((x, ⟨n, true⟩) :: us)) (hn : size + c.memheapSize ≤ n) {others : List Nat}
    (ho : ∀ q ∈ others, ∃ y ∈ us, q = y.1 + c.memheapSize) : Good c h others size (x + c.memheapSize) := by
  have hmem {y : Nat} {b : Block} (hm : (y, b) ∈ usedBlocks h.startAddr bs) :
      memitem c (y + c.memheapSize) = y ∧ h.memitemSize c y = b.size - c.memheapSize ∧ c.memheapSize ≤ b.size ∧
        y + b.size ≤ h.startAddr + h.poolSize := by
    obtain ⟨ds, es, rfl, hds⟩ := mem_starts.1 (mem_usedBlocks.1 hm).1
    have := (I.item_eq hds).2.2.2
    exact ⟨I.memitem_eq hds, I.memitemSize_eq hds, I.header b (by simp), by omega⟩
  have hx : (x, ⟨n, true⟩) ∈ usedBlocks h.startAddr bs := hp.mem_iff.2 (by simp)
  have hge := (le_of_mem_starts (mem_usedBlocks.1 hx).1).1
  obtain ⟨h1, h2, h3, h4⟩ := hmem hx
  dsimp only at h2 h3 h4
  refine ⟨?_, ?_, fun q hq => ?_⟩
  · rw [h1, h2]; omega
  · rw [h1, h2]; omega
  · obtain ⟨⟨y, b⟩, hy, rfl⟩ := ho q hq
    obtain ⟨h5, h6, h7, -⟩ := hmem (hp.mem_iff.2 (List.mem_cons_of_mem _ hy))
    have hap := (List.pairwise_cons.1 (hp.pairwise_iff (fun hab => Std.Symm.symm _ _ hab) |>.1 pairwise_usedBlocks)).1 _ hy
    simp only [Apart] at hap
    dsimp only
    rw [h1, h2, h5, h6]
    omega

/-- The rounded size is at least the size, if it does not wrap. -/
theorem le_request (h : size + c.alignSize ≤ 2 ^ c.bits) : size ≤ request c size := by
  have := (Word.rtAlign_spec h).1
  unfold request
  dsimp only
  split <;> omega

theorem allocSafe (I : Inv c s) (hle : size ≤ request c size) : AllocSafe c s size := by
  obtain ⟨bs, hI, hl⟩ := I
  intro p hp
  rcases hI.rtMemheapAlloc size with he | ⟨h', x, n, bs', he, A, hn⟩
  · rw [he] at hp; cases hp
  · rw [he] at hp ⊢
    cases hp
    have hb := A.blocks
    rw [← A.frame.startAddr] at hb
    refine good_of_used A.inv hb (by omega) fun q hq => ?_
    obtain ⟨y, b, hm, rfl⟩ := mem_of_live hl hq
    rw [A.frame.startAddr]
    exact ⟨(y, b), hm, rfl⟩

/-- In every state of a run in which no reallocation expands a block beyond the free one behind it: what
`rt_memheap_alloc` and `rt_memheap_realloc` return is as it should be, if `RT_ALIGN` of the size does not wrap and the
call expands no block beyond the free one behind it either. -/
theorem memheap_safe {ptr : Option Nat} (hr : Reach c s) (hsize : size + c.alignSize ≤ 2 ^ c.bits)
    (hptr : ∀ p ∈ ptr, p ∈ s.live) (hg : ¬Overgrow c s (.realloc ptr size)) :
    AllocSafe c s size ∧ ReallocSafe c s ptr size := by
  have I := hr.inv
  have hle := le_request hsize
  refine ⟨allocSafe I hle, fun h' p he => ?_⟩
  by_cases h0 : size = 0
  · rw [rtMemheapRealloc, if_pos h0] at he
    obtain ⟨h1, -, h2⟩ := Option.map_eq_some_iff.1 he
    cases h2
  · cases ptr with
    | none =>
      rw [rtMemheapRealloc, if_neg h0] at he
      have hsafe := allocSafe I (Nat.le_of_eq (request_request c size).symm) p
      rw [Option.some.inj he] at hsafe
      have hgood := hsafe rfl
      exact ⟨⟨hgood.inside, Nat.le_trans hle hgood.size_le, hgood.apart⟩, fun q hq => (by cases hq)⟩
    | some q =>
      obtain ⟨bs, hI, hl⟩ := I
      obtain ⟨x, b, hm, rfl⟩ := mem_of_live hl (hptr q rfl)
      rcases hI.rtMemheapRealloc hm h0 hg with he1 | ⟨h1, y, n, he1, M⟩
      · rw [he1] at he; cases he
      · rw [he1] at he
        obtain ⟨rfl, hp⟩ := Prod.mk.inj (Option.some.inj he)
        cases hp
        obtain ⟨bs', us, I', hp1, hp2⟩ := M.blocks
        rw [← M.startAddr] at hp2
        have hn := M.size_le
        refine ⟨good_of_used I' hp2 (by omega) fun q hq => ?_, fun q hq k hk hks => ?_⟩
        · obtain ⟨z, hz, rfl⟩ := List.mem_map.1 ((erase_live hl hp1).mem_iff.1 hq)
          exact ⟨z, hz, rfl⟩
        · cases hq
          obtain ⟨ds, es, rfl, hds⟩ := mem_starts.1 (mem_usedBlocks.1 hm).1
          rw [hI.memitem_eq hds, hI.memitemSize_eq hds] at hk
          exact M.byte k hk (by omega)

theorem memheap_safe_calls64 :
    AllocSafe config64 (after64 calls64) 100 ∧ ReallocSafe config64 (after64 calls64) (some 0x10c8) 100 :=
  memheap_safe reach_calls64.1 (by decide) (by simpa using reach_calls64.2) (by decide +kernel)

/-- A block is expanded beyond the pool. -/
theorem not_memheap_safe :
    ¬∀ (c : MemheapConfig) (p : Pool c) (mem : Store MemheapItem) (ls : List (MemheapCall × Option Nat)) (s : MemheapSys)
      (size : Nat) (ptr : Option Nat), c.bits = 64 → Runs.Run (fun s l s' => step c s l.1 = some (s', l.2)) (p.init mem) ls s →
      size < 2 ^ c.bits → (∀ p ∈ ptr, p ∈ s.live) → AllocSafe c s size ∧ ReallocSafe c s ptr size := by
  intro h
  let r := (after64 [.alloc 100]).heap.rtMemheapRealloc config64 (some 0x1030) 0xD0000000
  obtain ⟨p, mem, ls, hrun⟩ := reach_after64 [.alloc 100] (by decide)
  have hsafe := (h config64 p mem ls _ 0xD0000000 (some 0x1030) rfl (hrun.mono fun _ _ _ hs => hs.1) (by decide)
    (by decide)).2
  have hp : r.map (·.2) = some (some 0x1030) := by decide
  have hend : r.map (fun x => decide (0x1030 + x.1.memitemSize config64 (memitem config64 0x1030) ≤
      x.1.startAddr + x.1.poolSize)) = some false := by decide
  obtain ⟨⟨h', p'⟩, he, rfl⟩ := Option.map_eq_some_iff.1 hp
  rw [he] at hend
  exact of_decide_eq_false (Option.some.inj hend) (hsafe h' 0x1030 he).1.inside.2

end MemheapSys

end RtThread
