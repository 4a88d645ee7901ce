import Mathlib.Data.List.Pairwise
import RtThread.Lib.Runs
import RtThread.Lib.Singly
import RtThread.Mem.Mempool

/-!
# The blocks of a memory pool

A pool is set up as it should be if and only if the region holds a block (`mempool_blocks`); then, whatever callers
allocate, wait for and free, the free list has as many blocks as the pool counts, and every block is on it or belongs to
one caller.
-/

namespace RtThread.MpState

/-- A pointer that may be null. -/
def nullable (a : Nat) : Option Nat := if a = 0 then none else some a

theorem nullable_of_ne {a : Nat} (h : a ≠ 0) : nullable a = some a := if_neg h

/-- The link in the header of a block. -/
def next (w : MpConfig) (s : MpState) (b : Nat) : Option Nat := nullable (s.load w b)

/-- Blocks with a header and `n` bytes, in the region and apart. -/
structure Laid (w : MpConfig) (start size n : Nat) (blocks : List Nat) : Prop where
  inside : ∀ b ∈ blocks, start ≤ b ∧ b + (w.ptrSize + n) ≤ start + size
  apart : blocks.Pairwise fun a b => a + (w.ptrSize + n) ≤ b ∨ b + (w.ptrSize + n) ≤ a

/-- The state after `rt_mp_init`. -/
def initial (w : MpConfig) (mem : Nat → BitVec 8) (addr : Nat) (mp : RtMempool) (writes : List (Nat × Nat)) : MpState where
  mem := writes.foldl (fun m x => Bytes.store m x.1 x.2 w.ptrSize) mem
  addr := addr
  mp := mp
  thread _ := ⟨.idle, .eok⟩
  owned := []

/-- The steps. What callers write, they write to the `n` bytes of their own blocks. -/
def Step (w : MpConfig) (n : Nat) (s : MpState) (x : MpEv × MpRet) (s' : MpState) : Prop :=
  s.step w x.1 = some (s', x.2) ∧
    ∀ mem, x.1 = .write mem →
      ∀ i, (∀ b ∈ s.owned, i < b + w.ptrSize ∨ b + (w.ptrSize + n) ≤ i) → mem i = s.mem i

variable {w : MpConfig} {s s' : MpState} {free blocks xs : List Nat} {a b c t v n start size addr : Nat}
  {time elapsed : BitVec 32} {ret : MpRet} {x : MpEv × MpRet} {who : Option Nat}

/-- The pool and its blocks: `free` on the list, the others with their callers. -/
structure Inv (w : MpConfig) (blocks : List Nat) (s : MpState) (free : List Nat) : Prop where
  addr_lt : s.addr < 2 ^ w.bits
  chain : Singly.Chain (s.next w) (nullable s.mp.blockList) free
  list_lt : s.mp.blockList < 2 ^ w.bits
  count : s.mp.blockFreeCount = free.length
  perm : (free ++ s.owned).Perm blocks
  header : ∀ b ∈ s.owned, s.load w b = s.addr
  waiting : ∀ t ∈ s.mp.suspendThread, ∃ time, (s.thread t).phase = .suspended time
  once : s.mp.suspendThread.Nodup

variable {th : MpThread} {err : RtErr} {stride total i : Nat} {m : Nat → BitVec 8}

@[simp] theorem setThread_self {t : Nat} : (s.setThread t th).thread t = th := Function.update_self ..

theorem setThread_of_ne {t u : Nat} (h : u ≠ t) : (s.setThread t th).thread u = s.thread u :=
  Function.update_of_ne h ..

/-! ## Headers -/

theorem pow_bits (w : MpConfig) : 2 ^ w.bits = 256 ^ w.ptrSize := by
  rw [w.bits_eq, Nat.pow_mul]

theorem ptrSize_pos (w : MpConfig) : 0 < w.ptrSize := by
  by_contra h
  have h1 := w.alignSize_lt
  have h2 := w.alignSize_pos
  rw [pow_bits, show w.ptrSize = 0 by omega] at h1
  omega

theorem load_lt : s.load w b < 2 ^ w.bits := by
  rw [pow_bits]
  exact Bytes.load_lt

theorem load_store_self (hv : v < 2 ^ w.bits) : (s.store w b v).load w b = v := by
  rw [pow_bits] at hv
  exact Bytes.load_store_of_lt hv

section

variable (hl : Laid w start size n blocks)

include hl

/-- Different blocks are apart. -/
theorem Laid.of_ne (ha : a ∈ blocks) (hb : b ∈ blocks) (hne : a ≠ b) :
    a + (w.ptrSize + n) ≤ b ∨ b + (w.ptrSize + n) ≤ a := by
  have hsymm : Std.Symm fun a b => a + (w.ptrSize + n) ≤ b ∨ b + (w.ptrSize + n) ≤ a := ⟨fun _ _ h => h.symm⟩
  exact hl.apart.forall ha hb hne

theorem Laid.load_store_of_ne (ha : a ∈ blocks) (hb : b ∈ blocks) (hne : a ≠ b) :
    (s.store w b v).load w a = s.load w a := by
  refine Bytes.load_store_of_apart ?_
  have h1 := hl.of_ne ha hb hne
  omega

theorem Laid.nodup : blocks.Nodup := by
  refine hl.apart.imp fun {a b} h e => ?_
  have h1 := ptrSize_pos w
  omega

theorem next_store_of_ne (ha : a ∈ blocks) (hb : b ∈ blocks) (hne : a ≠ b) :
    (s.store w b v).next w a = s.next w a := by
  rw [next, next, hl.load_store_of_ne ha hb hne]

/-- The chain of blocks other than the one whose header is written. -/
theorem chain_store (hc : Singly.Chain (s.next w) (nullable c) xs)
    (hxs : ∀ a ∈ xs, a ∈ blocks) (hb : b ∈ blocks) (hbx : b ∉ xs) :
    Singly.Chain ((s.store w b v).next w) (nullable c) xs := by
  apply hc.congr
  intro a ha
  apply next_store_of_ne hl (hxs a ha) hb
  rintro rfl
  exact hbx ha

end

/-! ## The steps -/

section

variable (hi : Inv w blocks s free)

include hi

theorem Inv.free_mem (hb : b ∈ free) : b ∈ blocks :=
  hi.perm.subset (List.mem_append_left _ hb)

theorem Inv.owned_mem (hb : b ∈ s.owned) : b ∈ blocks :=
  hi.perm.subset (List.mem_append_right _ hb)

/-- A block is free or allocated, and only once. -/
theorem Inv.nodup (hl : Laid w start size n blocks) : (free ++ s.owned).Nodup :=
  (List.Perm.nodup_iff hi.perm).2 hl.nodup

/-- Threads that are not suspended change. -/
theorem Inv.setThread {t : Nat} (ht : t ∉ s.mp.suspendThread) :
    Inv w blocks (s.setThread t th) free where
  addr_lt := hi.addr_lt
  chain := hi.chain
  list_lt := hi.list_lt
  count := hi.count
  perm := hi.perm
  header := hi.header
  waiting := by
    intro u hu
    have hne : u ≠ t := by rintro rfl; exact ht hu
    obtain ⟨time, h⟩ := hi.waiting u hu
    exact ⟨time, by rw [setThread_of_ne hne, h]⟩
  once := hi.once

theorem Inv.setPhase {ph : MpPhase} (hc : ∀ t, who = some t → t ∉ s.mp.suspendThread) :
    Inv w blocks (s.setPhase who ph) free := by
  cases who with
  | none => exact hi
  | some t => exact hi.setThread (hc t rfl)

/-- A thread waits. -/
theorem Inv.suspend {t : Nat} (ht : t ∉ s.mp.suspendThread) :
    Inv w blocks { s.setThread t ⟨.suspended time, err⟩ with
      mp := { s.mp with suspendThread := t :: s.mp.suspendThread } } free where
  addr_lt := hi.addr_lt
  chain := hi.chain
  list_lt := hi.list_lt
  count := hi.count
  perm := hi.perm
  header := hi.header
  waiting := by
    intro u hu
    rcases List.mem_cons.1 hu with rfl | hu
    · exact ⟨time, congrArg MpThread.phase setThread_self⟩
    · exact (hi.setThread ht).waiting u hu
  once := List.nodup_cons.2 ⟨ht, hi.once⟩

/-- A thread waits no longer. -/
theorem Inv.wake {t : Nat} : Inv w blocks (s.wake t err time) free where
  addr_lt := hi.addr_lt
  chain := hi.chain
  list_lt := hi.list_lt
  count := hi.count
  perm := hi.perm
  header := hi.header
  waiting := by
    intro u hu
    obtain ⟨hne, hu⟩ := (List.Nodup.mem_erase_iff hi.once).1 hu
    obtain ⟨tm, h⟩ := hi.waiting u hu
    exact ⟨tm, (congrArg MpThread.phase (setThread_of_ne hne)).trans h⟩
  once := hi.once.erase t

end

theorem Inv.first_not_mem (hi : Inv w blocks s (b :: free)) (hl : Laid w start size n blocks) :
    b ∉ free ∧ b ∉ s.owned := by
  have hnd := hi.nodup hl
  rw [List.cons_append, List.nodup_cons, List.mem_append, not_or] at hnd
  exact hnd.1

/-- The first free block is handed out. -/
theorem Inv.take (hi : Inv w blocks s (b :: free)) (hl : Laid w start size n blocks) :
    Inv w blocks ({ s with
      mp := { s.mp with blockFreeCount := s.mp.blockFreeCount - 1, blockList := s.load w b }
      owned := b :: s.owned }.store w b s.addr) free where
  addr_lt := hi.addr_lt
  chain := by
    apply chain_store hl hi.chain.2 (fun a ha => hi.free_mem (by simp [ha])) (hi.free_mem (by simp))
    exact (hi.first_not_mem hl).1
  list_lt := load_lt
  count := by
    show s.mp.blockFreeCount - 1 = _
    rw [hi.count, List.length_cons, Nat.add_sub_cancel]
  perm := List.perm_middle.trans hi.perm
  header := by
    intro a ha
    rcases List.mem_cons.1 ha with rfl | hown
    · exact load_store_self hi.addr_lt
    · rw [hl.load_store_of_ne (hi.owned_mem hown) (hi.free_mem (by simp))]
      · exact hi.header a hown
      · rintro rfl
        exact (hi.first_not_mem hl).2 hown
  waiting := hi.waiting
  once := hi.once

section

variable (hi : Inv w blocks s free)

include hi

/-- An allocated block becomes the first free one. -/
theorem Inv.give (hl : Laid w start size n blocks) (hb : b ∈ s.owned)
    (hlt : ∀ a ∈ blocks, 0 < a ∧ a < 2 ^ w.bits) : Inv w blocks ({ s with
      mp := { s.mp with blockFreeCount := s.mp.blockFreeCount + 1, blockList := b }
      owned := s.owned.erase b }.store w b s.mp.blockList) (b :: free) where
  addr_lt := hi.addr_lt
  chain := by
    have hnd := hi.nodup hl
    have hbf : b ∉ free := fun h => (List.nodup_append.1 hnd).2.2 b h b hb rfl
    refine ⟨nullable_of_ne (hlt b (hi.owned_mem hb)).1.ne', ?_⟩
    rw [next, load_store_self hi.list_lt]
    exact chain_store hl hi.chain (fun a ha => hi.free_mem ha) (hi.owned_mem hb) hbf
  list_lt := (hlt b (hi.owned_mem hb)).2
  count := by
    show s.mp.blockFreeCount + 1 = _
    rw [hi.count, List.length_cons]
  perm := by
    refine List.Perm.trans ?_ hi.perm
    refine List.Perm.trans ?_ ((List.perm_cons_erase hb).symm.append_left free)
    exact List.perm_middle.symm
  header := by
    have hnd := (List.nodup_append.1 (hi.nodup hl)).2.1
    intro a ha
    obtain ⟨hne, ha⟩ := (List.Nodup.mem_erase_iff hnd).1 ha
    rw [hl.load_store_of_ne (hi.owned_mem ha) (hi.owned_mem hb) hne]
    exact hi.header a ha
  waiting := hi.waiting
  once := hi.once

/-- The caller of an allocation is not suspended. -/
theorem Inv.not_mem {t : Nat} (ht : ∀ tm, (s.thread t).phase ≠ .suspended tm) :
    t ∉ s.mp.suspendThread := by
  intro h
  obtain ⟨tm, h⟩ := hi.waiting t h
  exact ht tm h

theorem Inv.allocLoop (hl : Laid w start size n blocks)
    (hc : ∀ t, who = some t → t ∉ s.mp.suspendThread) (h : s.mpAllocLoop w who time = some (s', ret)) :
    ∃ free', Inv w blocks s' free' := by
  unfold mpAllocLoop at h
  split at h
  · split at h
    · cases h
      exact ⟨free, hi.setPhase hc⟩
    · cases who with
      | none => cases h
      | some t =>
        cases h
        exact ⟨free, hi.suspend (hc t rfl)⟩
  · rename_i hcount
    cases free with
    | nil => exact absurd hi.count hcount
    | cons b rest =>
      simp only at h
      obtain ⟨hne, h⟩ := Option.ite_none_left_eq_some.1 h
      have hb : s.mp.blockList = b := by
        have := hi.chain.1
        rw [nullable_of_ne hne] at this
        exact Option.some.inj this
      rw [hb] at h
      cases h
      exact ⟨rest, (hi.take hl).setPhase hc⟩

theorem Inv.free_block (hl : Laid w start size n blocks)
    (hlt : ∀ a ∈ blocks, 0 < a ∧ a < 2 ^ w.bits) (hb : b = 0 ∨ b - w.ptrSize ∈ s.owned) (h : s.rtMpFree w b = some s') :
    ∃ free', Inv w blocks s' free' := by
  unfold rtMpFree at h
  simp only at h
  split at h
  · cases h
    exact ⟨free, hi⟩
  · rename_i hne
    have hown := hb.resolve_left hne
    have hgive := hi.give hl hown hlt
    obtain ⟨-, h⟩ := Option.ite_none_left_eq_some.1 h
    split at h
    · cases h
      exact ⟨_, hgive⟩
    · split at h
      · cases h
        exact ⟨_, hgive.wake⟩
      · cases h

/-- Callers write to their own blocks. -/
theorem Inv.write (hl : Laid w start size n blocks) {mem : Nat → BitVec 8}
    (hm : ∀ i, (∀ b ∈ s.owned, i < b + w.ptrSize ∨ b + (w.ptrSize + n) ≤ i) → mem i = s.mem i) :
    Inv w blocks { s with mem := mem } free := by
  have hload : ∀ a ∈ blocks, load w { s with mem := mem } a = s.load w a := by
    intro a ha
    apply Bytes.load_congr
    intro i h1 h2
    apply hm
    intro b hb
    by_cases hab : a = b
    · subst hab
      exact .inl h2
    · have h3 := hl.of_ne ha (hi.owned_mem hb) hab
      omega
  constructor
  · exact hi.addr_lt
  · apply hi.chain.congr
    intro a ha
    rw [next, next, hload a (hi.free_mem ha)]
  · exact hi.list_lt
  · exact hi.count
  · exact hi.perm
  · intro a ha
    rw [hload a (hi.owned_mem ha)]
    exact hi.header a ha
  · exact hi.waiting
  · exact hi.once

/-- Every step keeps the blocks. -/
theorem Inv.step (hl : Laid w start size n blocks)
    (hlt : ∀ a ∈ blocks, 0 < a ∧ a < 2 ^ w.bits) (h : Step w n s x s') : ∃ free', Inv w blocks s' free' := by
  obtain ⟨e, ret⟩ := x
  obtain ⟨h, hw⟩ := h
  cases e with
  | alloc who time =>
    cases who with
    | none => exact hi.allocLoop hl (by simp) h
    | some t =>
      simp only [MpState.step] at h
      obtain ⟨hidle, h⟩ := Option.ite_none_right_eq_some.1 h
      refine hi.allocLoop hl ?_ h
      rintro u ⟨⟩
      exact hi.not_mem fun tm ht => by rw [hidle] at ht; cases ht
  | timeout t =>
    simp only [MpState.step] at h
    split at h
    · split at h
      · cases h
        exact ⟨free, hi.wake⟩
      · cases h
    · cases h
  | resume t =>
    simp only [MpState.step] at h
    split at h
    · cases h
      exact ⟨free, hi.wake⟩
    · cases h
  | goOn t elapsed =>
    simp only [MpState.step] at h
    split at h
    · rename_i time hwoken
      have ht : t ∉ s.mp.suspendThread := hi.not_mem fun tm ht => by rw [hwoken] at ht; cases ht
      unfold mpAllocGoOn at h
      split at h
      · cases h
        exact ⟨free, hi.setThread ht⟩
      · refine hi.allocLoop hl ?_ h
        rintro u ⟨⟩
        exact ht
    · cases h
  | free block =>
    simp only [MpState.step] at h
    obtain ⟨hb, h⟩ := Option.ite_none_right_eq_some.1 h
    obtain ⟨s1, hs1, heq⟩ := Option.map_eq_some_iff.1 h
    cases heq
    exact hi.free_block hl hlt (hb.imp id And.left) hs1
  | write mem =>
    cases h
    exact ⟨free, hi.write hl (hw mem rfl)⟩

/-! ## The calls return -/

theorem Inv.allocLoop_returns (h : who = none → time = 0) : (s.mpAllocLoop w who time).isSome := by
  unfold mpAllocLoop
  split
  · split
    · rfl
    · rename_i htime
      cases who with
      | none => exact absurd (h rfl) htime
      | some t => rfl
  · rename_i hcount
    have hne : s.mp.blockList ≠ 0 := by
      intro h0
      have hc := hi.chain
      rw [h0] at hc
      cases free with
      | nil => exact hcount hi.count
      | cons b rest => cases hc.1
    simp only [if_neg hne, Option.isSome_some]

theorem Inv.goOn_returns {t : Nat} : (s.mpAllocGoOn w t time elapsed).isSome := by
  unfold mpAllocGoOn
  split
  · rfl
  · exact hi.allocLoop_returns fun h => by cases h

theorem Inv.free_returns (hb : b - w.ptrSize ∈ s.owned) : (s.rtMpFree w b).isSome := by
  unfold rtMpFree
  simp only
  split
  · rfl
  · rw [if_neg (not_not_intro (hi.header _ hb))]
    split
    · rfl
    · rename_i t ts hs
      obtain ⟨tm, h⟩ := hi.waiting t (by
        change s.mp.suspendThread = t :: ts at hs
        simp [hs])
      split
      · rfl
      · rename_i hn
        exact absurd h (hn tm)

end

/-! ## Setting up -/

/-- The blocks of a region. -/
def blocksOf (start stride total : Nat) : List Nat := (List.range total).map fun i => start + i * stride

theorem mem_blocksOf : b ∈ blocksOf start stride total ↔ ∃ i < total, start + i * stride = b := by
  simp [blocksOf]

theorem blocksOf_laid (hs : w.ptrSize + n ≤ stride) (hsize : total * stride ≤ size) :
    Laid w start size n (blocksOf start stride total) := by
  constructor
  · intro b hb
    obtain ⟨i, hi, rfl⟩ := mem_blocksOf.1 hb
    have h1 : (i + 1) * stride ≤ total * stride := Nat.mul_le_mul_right _ hi
    rw [Nat.add_mul] at h1
    omega
  · rw [blocksOf, List.pairwise_map]
    refine List.pairwise_lt_range.imp fun {i j} hij => .inl ?_
    have h1 : (i + 1) * stride ≤ j * stride := Nat.mul_le_mul_right _ hij
    rw [Nat.add_mul] at h1
    omega

/-- The region holds a block, and rounding the size of a block does not wrap. -/
def Roomy (w : MpConfig) (size n : Nat) : Prop :=
  n + w.alignSize ≤ 2 ^ w.bits ∧ w.rtAlign n + w.ptrSize ≤ w.rtAlignDown size

/-- The address of a block, without a wrap. -/
theorem blockAt (hs : w.ptrSize ≤ stride) (hsize : total * stride ≤ size)
    (hend : start + size ≤ 2 ^ w.bits) (hi : i < total) :
    w.add start (w.mul i stride) = start + i * stride ∧ start + i * stride + w.ptrSize ≤ start + size := by
  have hP := ptrSize_pos w
  have h1 : (i + 1) * stride ≤ total * stride := Nat.mul_le_mul_right _ hi
  rw [Nat.add_mul] at h1
  have h2 : w.mul i stride = i * stride := Nat.mod_eq_of_lt (by omega)
  constructor
  · rw [h2]
    exact Word.add_eq (by omega)
  · omega

/-- What `rt_mp_init` writes for `total` blocks. -/
def linkWrites (w : MpConfig) (start stride total : Nat) : List (Nat × Nat) :=
  (List.range total).map (fun offset =>
    (w.add start (w.mul offset stride), w.add start (w.mul (w.add offset 1) stride))) ++
    [(w.add start (w.mul (w.sub total 1) stride), 0)]

theorem mem_linkWrites {y : Nat × Nat} (ht : 0 < total) (hlt : total < 2 ^ w.bits)
    (hs : w.ptrSize ≤ stride) (hsize : total * stride ≤ size) (hend : start + size ≤ 2 ^ w.bits)
    (hy : y ∈ linkWrites w start stride total) : ∃ i < total, y.1 = start + i * stride := by
  rcases List.mem_append.1 hy with hy | hy
  · obtain ⟨i, hi, rfl⟩ := List.mem_map.1 hy
    rw [List.mem_range] at hi
    exact ⟨i, hi, (blockAt hs hsize hend hi).1⟩
  · rw [List.mem_singleton] at hy
    refine ⟨total - 1, by omega, ?_⟩
    rw [hy, Word.sub_eq ht hlt]
    exact (blockAt hs hsize hend (by omega)).1

/-- What `rt_mp_init` writes is what a chain of the blocks has in its headers. -/
theorem load_linkWrites (hlt : total < 2 ^ w.bits)
    (hs : w.ptrSize ≤ stride) (hsize : total * stride ≤ size) (hend : start + size ≤ 2 ^ w.bits) (hi : i < total) :
    Bytes.load ((linkWrites w start stride total).foldl (fun m x => Bytes.store m x.1 x.2 w.ptrSize) m)
      (start + i * stride) w.ptrSize = if i + 1 < total then start + (i + 1) * stride else 0 := by
  have hlast : w.add start (w.mul (w.sub total 1) stride) = start + (total - 1) * stride := by
    rw [Word.sub_eq (by omega) hlt]
    exact (blockAt hs hsize hend (by omega)).1
  have happart : ∀ j k, j < k → start + j * stride + w.ptrSize ≤ start + k * stride := by
    intro j k hjk
    have h1 : (j + 1) * stride ≤ k * stride := Nat.mul_le_mul_right _ hjk
    rw [Nat.add_mul] at h1
    omega
  rw [linkWrites, List.foldl_append, List.foldl_cons, List.foldl_nil, hlast]
  by_cases h1 : i + 1 < total
  · rw [if_pos h1, Bytes.load_store_of_apart (.inl (happart i (total - 1) (by omega)))]
    have hval : w.add start (w.mul (w.add i 1) stride) = start + (i + 1) * stride := by
      have hnext : w.add i 1 = i + 1 := Word.add_eq (by omega)
      rw [hnext]
      exact (blockAt hs hsize hend h1).1
    have hlt' : start + (i + 1) * stride < 256 ^ w.ptrSize := by
      have := (blockAt hs hsize hend h1).2
      have := ptrSize_pos w
      rw [← pow_bits]
      omega
    apply Bytes.load_foldl_store
    · left
      rw [List.mem_map]
      refine ⟨i, List.mem_range.2 hi, ?_⟩
      rw [(blockAt hs hsize hend hi).1, hval]
    · exact hlt'
    · intro y hy
      obtain ⟨j, hj, rfl⟩ := List.mem_map.1 hy
      rw [List.mem_range] at hj
      rcases Nat.lt_trichotomy i j with hij | rfl | hij
      · right; left
        rw [(blockAt hs hsize hend hj).1]
        exact happart i j hij
      · left
        rw [(blockAt hs hsize hend hj).1, hval]
      · right; right
        rw [(blockAt hs hsize hend hj).1]
        exact happart j i hij
  · rw [if_neg h1, show i = total - 1 by omega]
    exact Bytes.load_store_of_lt (Nat.pow_pos (by decide))

/-- The pool of a region with room. -/
theorem rtMpInit_of_roomy (h : Roomy w size n) (hend : start + size ≤ 2 ^ w.bits) (hstart : 0 < start) :
    ∃ stride total, w.ptrSize + n ≤ stride ∧ 0 < total ∧ total < 2 ^ w.bits ∧ total * stride ≤ size ∧
      RtMempool.rtMpInit w start size n = some (⟨start, w.rtAlignDown size, w.rtAlign n, start, total, total, []⟩,
        linkWrites w start stride total) := by
  obtain ⟨h1, h2⟩ := h
  have hP := ptrSize_pos w
  have hdown : w.rtAlignDown size ≤ size := Nat.sub_le _ _
  have hstride : w.add (w.rtAlign n) w.ptrSize = w.rtAlign n + w.ptrSize := Word.add_eq (by omega)
  have hn := (Word.rtAlign_spec h1).1
  have hmul : w.rtAlignDown size / (w.rtAlign n + w.ptrSize) * (w.rtAlign n + w.ptrSize) ≤ w.rtAlignDown size :=
    Nat.div_mul_le_self _ _
  refine ⟨w.rtAlign n + w.ptrSize, w.rtAlignDown size / (w.rtAlign n + w.ptrSize), by omega,
    Nat.div_pos h2 (by omega), ?_, by omega, ?_⟩
  · exact Nat.lt_of_le_of_lt (Nat.div_le_self _ _) (by omega)
  · rw [RtMempool.rtMpInit]
    simp only [hstride]
    rw [if_neg (by omega)]
    rfl

theorem initial_inv {D A : Nat} (ht : 0 < total) (hlt : total < 2 ^ w.bits)
    (hs : w.ptrSize ≤ stride) (hsize : total * stride ≤ size) (hend : start + size ≤ 2 ^ w.bits) (hstart : 0 < start)
    (haddr : addr < 2 ^ w.bits) : Inv w (blocksOf start stride total)
      (initial w m addr ⟨start, D, A, start, total, total, []⟩ (linkWrites w start stride total))
      (blocksOf start stride total) where
  addr_lt := haddr
  chain := by
    have hhead : nullable start = (blocksOf start stride total).head? := by
      rw [nullable_of_ne hstart.ne', blocksOf, List.head?_map, List.head?_range, if_neg ht.ne']
      simp
    show Singly.Chain _ (nullable start) _
    rw [hhead]
    apply Singly.Chain.of_next
    intro i hi
    have hlen : (blocksOf start stride total).length = total := by simp [blocksOf]
    rw [hlen] at hi
    have hload := load_linkWrites (m := m) hlt hs hsize hend hi
    have hat : (blocksOf start stride total)[i] = start + i * stride := by simp [blocksOf]
    rw [hat, next, MpState.load, initial, hload]
    by_cases h1 : i + 1 < total
    · rw [if_pos h1, nullable_of_ne (by omega), List.getElem?_eq_getElem (by rw [hlen]; exact h1)]
      simp [blocksOf]
    · rw [if_neg h1, List.getElem?_eq_none (by rw [hlen]; omega)]
      rfl
  list_lt := by
    have := (blockAt hs hsize hend ht).2
    have := ptrSize_pos w
    show start < _
    omega
  count := by simp [initial, blocksOf]
  perm := by simp [initial]
  header := by simp [initial]
  waiting := by simp [initial]
  once := by simp [initial]

/-! ## The claim of a pool -/

/-- The block that is handed out was free. -/
theorem Inv.allocLoop_fresh (hi : Inv w blocks s free) (hl : Laid w start size n blocks)
    (h : s.mpAllocLoop w who time = some (s', .block b)) :
    b - w.ptrSize ∈ blocks ∧ b - w.ptrSize ∉ s.owned ∧ s'.owned = (b - w.ptrSize) :: s.owned := by
  unfold mpAllocLoop at h
  split at h
  · split at h
    · cases h
    · cases who with
      | none => cases h
      | some t => cases h
  · rename_i hcount
    simp only at h
    obtain ⟨hne, h⟩ := Option.ite_none_left_eq_some.1 h
    have hb := hi.chain.head_eq
    rw [nullable_of_ne hne] at hb
    cases free with
    | nil => cases hb
    | cons a rest =>
      obtain rfl : s.mp.blockList = a := Option.some.inj hb
      obtain ⟨rfl, hret⟩ := Prod.mk.inj (Option.some.inj h)
      obtain rfl := MpRet.block.inj hret
      rw [Nat.add_sub_cancel]
      refine ⟨hi.free_mem (by simp), (hi.first_not_mem hl).2, ?_⟩
      cases who with
      | none => rfl
      | some t => rfl

theorem Inv.step_fresh (hi : Inv w blocks s free) (hl : Laid w start size n blocks) {e : MpEv}
    (h : s.step w e = some (s', .block b)) :
    b - w.ptrSize ∈ blocks ∧ b - w.ptrSize ∉ s.owned ∧ s'.owned = (b - w.ptrSize) :: s.owned := by
  cases e with
  | alloc who time =>
    cases who with
    | none => exact hi.allocLoop_fresh hl h
    | some t =>
      simp only [MpState.step] at h
      split at h
      · exact hi.allocLoop_fresh hl h
      · cases h
  | timeout t =>
    simp only [MpState.step] at h
    split at h
    · split at h <;> cases h
    · cases h
  | resume t =>
    simp only [MpState.step] at h
    split at h <;> cases h
  | goOn t elapsed =>
    simp only [MpState.step] at h
    split at h
    · unfold mpAllocGoOn at h
      split at h
      · cases h
      · exact hi.allocLoop_fresh hl h
    · cases h
  | free block =>
    simp only [MpState.step] at h
    split at h
    · obtain ⟨s1, -, heq⟩ := Option.map_eq_some_iff.1 h
      cases heq
    · cases h
  | write mem => cases h

/-- What holds of a pool in a run: the list is as long as the pool counts, every block is on it or allocated, an allocated
one names the pool, a call hands out a block that nobody has, and the calls return. -/
structure Sound (w : MpConfig) (blocks : List Nat) (s : MpState) : Prop where
  list : ∃ free, Singly.Chain (s.next w) (nullable s.mp.blockList) free ∧ s.mp.blockFreeCount = free.length ∧
    (free ++ s.owned).Perm blocks
  header : ∀ b ∈ s.owned, s.load w b = s.addr
  fresh : ∀ e p s', s.step w e = some (s', .block p) →
    p - w.ptrSize ∈ blocks ∧ p - w.ptrSize ∉ s.owned ∧ s'.owned = (p - w.ptrSize) :: s.owned
  alloc_returns : ∀ t time, (s.thread t).phase = .idle → (s.step w (.alloc (some t) time)).isSome
  goOn_returns : ∀ t time elapsed, (s.thread t).phase = .woken time → (s.step w (.goOn t elapsed)).isSome
  free_returns : ∀ b, b - w.ptrSize ∈ s.owned → w.ptrSize ≤ b → (s.step w (.free b)).isSome

theorem Inv.sound (hi : Inv w blocks s free) (hl : Laid w start size n blocks) : Sound w blocks s where
  list := ⟨free, hi.chain, hi.count, hi.perm⟩
  header := hi.header
  fresh e p s' h := hi.step_fresh hl h
  alloc_returns t time h := by
    simp only [MpState.step, if_pos h]
    exact hi.allocLoop_returns fun h => by cases h
  goOn_returns t time elapsed h := by
    simp only [MpState.step, h]
    exact hi.goOn_returns
  free_returns b h1 h2 := by
    simp only [MpState.step, if_pos (Or.inr (And.intro h1 h2)), Option.isSome_map]
    exact hi.free_returns h1

/-- `rt_mp_init` of a region for blocks of `n` bytes writes to the region only and yields the blocks of the pool, which
are sound after all calls. -/
def PoolWorks (w : MpConfig) (start size n : Nat) : Prop :=
  ∃ mp writes blocks, RtMempool.rtMpInit w start size n = some (mp, writes) ∧
    (∀ y ∈ writes, start ≤ y.1 ∧ y.1 + w.ptrSize ≤ start + size) ∧
    blocks.length = mp.blockTotalCount ∧ blocks.Nodup ∧ Laid w start size n blocks ∧
    ∀ mem addr, addr < 2 ^ w.bits →
      Singly.Chain ((initial w mem addr mp writes).next w) (nullable mp.blockList) blocks ∧
      ∀ ls s, Runs.Run (Step w n) (initial w mem addr mp writes) ls s → Sound w blocks s

theorem poolWorks_of_roomy (h : Roomy w size n) (hend : start + size ≤ 2 ^ w.bits) (hstart : 0 < start) :
    PoolWorks w start size n := by
  obtain ⟨stride, total, hs, ht, hlt, hsize, hinit⟩ := rtMpInit_of_roomy h hend hstart
  have hs' : w.ptrSize ≤ stride := by omega
  have hl : Laid w start size n (blocksOf start stride total) := blocksOf_laid hs hsize
  refine ⟨_, _, blocksOf start stride total, hinit, ?_, by simp [blocksOf], hl.nodup, hl, ?_⟩
  · intro y hy
    obtain ⟨i, hi, hy⟩ := mem_linkWrites ht hlt hs' hsize hend hy
    have := (blockAt hs' hsize hend hi).2
    omega
  · intro mem addr haddr
    have h0 := initial_inv (D := w.rtAlignDown size) (A := w.rtAlign n) (m := mem) ht hlt hs' hsize hend hstart haddr
    refine ⟨h0.chain, fun ls s hr => ?_⟩
    have hpos : ∀ b ∈ blocksOf start stride total, 0 < b ∧ b < 2 ^ w.bits := by
      intro b hb
      have := hl.inside b hb
      have := ptrSize_pos w
      omega
    obtain ⟨free, hi⟩ := hr.invariant (I := fun s => ∃ free, Inv w (blocksOf start stride total) s free) ⟨_, h0⟩
      fun s l s' hi hs => by
        obtain ⟨free, hi⟩ := hi
        exact hi.step hl hpos hs
    exact hi.sound hl

theorem two_mul_ptrSize_le (w : MpConfig) : 2 * w.ptrSize ≤ 2 ^ (w.bits - 1) := by
  have hP := ptrSize_pos w
  calc 2 * w.ptrSize ≤ 2 * 2 ^ w.ptrSize := Nat.mul_le_mul_left 2 (Nat.le_of_lt Nat.lt_two_pow_self)
    _ = 2 ^ (w.ptrSize + 1) := (Nat.pow_succ' ..).symm
    _ ≤ 2 ^ (w.bits - 1) := Nat.pow_le_pow_right (by decide) (by rw [w.bits_eq]; omega)

theorem alignSize_dvd_half (w : MpConfig) : w.alignSize ∣ 2 ^ (w.bits - 1) := by
  obtain ⟨k, hk⟩ := w.alignSize_pow
  have hlt := w.alignSize_lt
  rw [hk] at hlt ⊢
  have := (Nat.pow_lt_pow_iff_right (by decide)).1 hlt
  exact Nat.pow_dvd_pow 2 (by omega)

/-- Where the distance of blocks wraps, there are at least two, and both do not fit. -/
theorem crowded (hl : Laid w start size n blocks) (hsize : size < 2 ^ w.bits)
    (hn : 2 ^ (w.bits - 1) ≤ n) (h0 : 0 < stride) (hs : stride ≤ w.ptrSize) (hne : blocks ≠ [])
    (hlen : blocks.length = w.rtAlignDown size / stride) : False := by
  have hhalf : 2 ^ w.bits = 2 * 2 ^ (w.bits - 1) := by
    rw [← Nat.pow_succ']
    congr 1
    have := w.bits_eq
    omega
  obtain ⟨a, rest, rfl⟩ := List.exists_cons_of_ne_nil hne
  have ha := hl.inside a (by simp)
  have hD : 2 ^ (w.bits - 1) ≤ w.rtAlignDown size := Word.le_rtAlignDown (alignSize_dvd_half w) (by omega)
  have htwo : 2 ≤ w.rtAlignDown size / stride := by
    rw [Nat.le_div_iff_mul_le h0]
    have := two_mul_ptrSize_le w
    omega
  rw [← hlen] at htwo
  cases rest with
  | nil => simp at htwo
  | cons b rest =>
    have hb := hl.inside b (by simp)
    have hab := (List.pairwise_cons.1 hl.apart).1 b (by simp)
    omega

theorem roomy_of_poolWorks (h : PoolWorks w start size n) (hend : start + size ≤ 2 ^ w.bits) (hstart : 0 < start)
    (hn : n < 2 ^ w.bits) : Roomy w size n := by
  obtain ⟨mp, writes, blocks, hinit, -, hlen, -, hl, hrun⟩ := h
  have hpos : 0 < 2 ^ w.bits := Nat.two_pow_pos _
  have hP := ptrSize_pos w
  have hhalf := two_mul_ptrSize_le w
  have hbits : 2 ^ w.bits = 2 * 2 ^ (w.bits - 1) := by
    rw [← Nat.pow_succ']
    congr 1
    have := w.bits_eq
    omega
  simp only [RtMempool.rtMpInit] at hinit
  obtain ⟨hstride, hinit⟩ := Option.ite_none_left_eq_some.1 hinit
  cases hinit
  have hne : blocks ≠ [] := by
    rintro rfl
    have hc : nullable start = none := (hrun (fun _ => 0) 0 hpos).1
    rw [nullable_of_ne hstart.ne'] at hc
    cases hc
  have hwrap : ¬ (2 ^ (w.bits - 1) ≤ n ∧ w.add (w.rtAlign n) w.ptrSize ≤ w.ptrSize) := by
    rintro ⟨h1, h2⟩
    exact crowded hl (by omega) h1 (by omega) h2 hne hlen
  have hround : n + w.alignSize ≤ 2 ^ w.bits := by
    by_contra hgt
    apply hwrap
    have h1 := Nat.le_of_dvd (Nat.two_pow_pos _) (alignSize_dvd_half w)
    refine ⟨by omega, ?_⟩
    rw [Word.rtAlign_wrap hn (by omega), Word.add, Nat.zero_add]
    exact Nat.mod_le _ _
  refine ⟨hround, ?_⟩
  obtain ⟨h1, h2⟩ := Word.rtAlign_spec hround
  have h3 := w.rtAlign_add_le n
  have hsum : w.rtAlign n + w.ptrSize < 2 ^ w.bits := by
    by_contra hge
    apply hwrap
    refine ⟨by omega, ?_⟩
    have e : w.rtAlign n + w.ptrSize = (w.rtAlign n + w.ptrSize - 2 ^ w.bits) + 2 ^ w.bits := by omega
    rw [Word.add, e, Nat.add_mod_right, Nat.mod_eq_of_lt (by omega)]
    omega
  by_contra hlt
  have hzero : w.rtAlignDown size / w.add (w.rtAlign n) w.ptrSize = 0 := by
    rw [Word.add_eq hsum]
    exact Nat.div_eq_of_lt (by omega)
  rw [hzero] at hlen
  exact hne (List.length_eq_zero_iff.1 hlen)

/-- A pool works if and only if its region holds a block, and the sizes do not wrap. -/
theorem mempool_blocks (w : MpConfig) (start size n : Nat) (hn : n < 2 ^ w.bits) (hstart : 0 < start)
    (hend : start + size ≤ 2 ^ w.bits) :
    PoolWorks w start size n ↔
      n + w.alignSize ≤ 2 ^ w.bits ∧ w.rtAlign n + w.ptrSize ≤ w.rtAlignDown size := by
  constructor
  · intro h
    exact roomy_of_poolWorks h hend hstart hn
  · intro h
    exact poolWorks_of_roomy h hend hstart

/-- A 64-bit machine that aligns to 8 bytes. -/
def wide : MpConfig where
  bits := 64
  alignSize := 8
  alignSize_pow := Word.pow_eight
  alignSize_lt := Word.eight_lt
  ptrSize := 8
  bits_eq := rfl

theorem mempool_blocks_four : PoolWorks wide 4096 64 8 :=
  (mempool_blocks wide 4096 64 8 (by decide) (by decide) (by decide)).2 (by decide)

/-- A region that is too small for a block: the list ends before the region. -/
theorem mempool_underrun : ∃ mp, RtMempool.rtMpInit wide 4096 8 1 = some (mp, [(4080, 0)]) ∧ mp.blockTotalCount = 0 ∧
    mp.blockList = 4096 ∧ ¬ PoolWorks wide 4096 8 1 := by
  refine ⟨_, rfl, rfl, rfl, ?_⟩
  rintro ⟨mp, writes, blocks, hinit, hw, -⟩
  cases hinit
  have h := (hw (4080, 0) (by decide)).1
  revert h
  decide

end RtThread.MpState
