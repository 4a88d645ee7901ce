import RtThread.Lib.Runs
import RtThread.Mem.SmallOps

/-!
# Runs of the small memory heap

A run starts with `rt_smem_init` on a memory area, and frees and reallocates only blocks that the heap has handed out and
not taken back. In every state it reaches the items tile the heap (`smem_consistent`). A block that is returned is
large enough and apart from the others, if `RT_ALIGN` of its size does not wrap (`smem_safe_iff`).
-/

namespace RtThread

open Tiles

/-- A heap, with the blocks it has handed out and not taken back. -/
structure Smem where
  heap : SmallMem
  live : List Nat

/-- A call. -/
inductive SmemCall
  | alloc (size : Nat)
  | realloc (rmem : Option Nat) (newsize : Nat)
  | free (rmem : Option Nat)
  deriving DecidableEq

namespace Smem

variable (c : SmemConfig)

/-- The blocks but the one that is given up. -/
def without (live : List Nat) : Option Nat → List Nat
  | none => live
  | some rmem => live.erase rmem

/-- A call by users who free and reallocate only their own blocks. -/
def step (s : Smem) : SmemCall → Option (Smem × Option Nat)
  | .alloc size =>
    if size < 2 ^ c.bits then
      let r := s.heap.rtSmemAlloc c size
      some ({ heap := r.1, live := r.2.toList ++ s.live }, r.2)
    else none
  | .realloc rmem newsize =>
    if newsize < 2 ^ c.bits ∧ ∀ p ∈ rmem, p ∈ s.live then
      (s.heap.rtSmemRealloc c rmem newsize).map fun r =>
        let live := if r.2.isSome ∨ c.rtAlign newsize = 0 then without s.live rmem else s.live
        ({ heap := r.1, live := r.2.toList ++ live }, r.2)
    else none
  | .free rmem =>
    if ∀ p ∈ rmem, p ∈ s.live then
      (s.heap.rtSmemFree c rmem).map fun h => ({ heap := h, live := without s.live rmem }, none)
    else none

/-- A memory area whose first bytes hold the control block, within the address space. -/
structure Area where
  beginAddr : Nat
  size : Nat
  fits : beginAddr + 2 * c.alignSize + c.smallMemSize ≤ 2 ^ c.bits

/-- The states of runs that start with `rt_smem_init`, whatever the memory holds. -/
def Reach (s : Smem) : Prop :=
  ∃ (a : Area c) (mem : Store SmallMemItem) (h : SmallMem) (ls : List (SmemCall × Option Nat)),
    SmallMem.rtSmemInit c mem a.beginAddr a.size = some h ∧
      Runs.Run (fun s l s' => step c s l.1 = some (s', l.2)) ⟨h, []⟩ ls s

end Smem

namespace SmallMem

variable {c : SmemConfig} {h h' : SmallMem} {bs : List Block} {b : Block} {x y n size newsize : Nat}

/-! ## `rt_smem_init` -/

/-- A new heap is one free block. -/
theorem rtSmemInit_inv (a : Smem.Area c) {mem : Store SmallMemItem}
    (he : rtSmemInit c mem a.beginAddr a.size = some h) : HeapInv c h [⟨h.heapEnd, false⟩] := by
  have hfits := a.fits
  have hH := c.sizeofStructMem_pos
  have hsm := c.smallMemSize_pos
  have hHA := c.alignSize_dvd_sizeofStructMem
  obtain ⟨h1, h2⟩ := @Word.rtAlign_spec c.toWord a.beginAddr (by omega)
  have hstart : c.add (c.rtAlign a.beginAddr) c.smallMemSize = c.rtAlign a.beginAddr + c.smallMemSize :=
    Word.add_eq (by omega)
  have hmod : c.add a.beginAddr a.size < 2 ^ c.bits := Nat.mod_lt _ (Nat.two_pow_pos _)
  have hend := c.rtAlignDown_le (c.add a.beginAddr a.size)
  have hendA := c.alignSize_dvd_rtAlignDown (c.add a.beginAddr a.size)
  unfold rtSmemInit at he
  dsimp only at he
  rw [hstart] at he
  obtain ⟨h3, h4⟩ := @Word.rtAlign_spec c.toWord (c.rtAlign a.beginAddr + c.smallMemSize) (by omega)
  have hbeginA := c.alignSize_dvd_rtAlign (c.rtAlign a.beginAddr + c.smallMemSize)
  generalize c.rtAlignDown (c.add a.beginAddr a.size) = endAlign at *
  generalize c.rtAlign (c.rtAlign a.beginAddr + c.smallMemSize) = beginAlign at *
  split at he
  swap
  · cases he
  rename_i hc
  obtain ⟨hc1, hc2⟩ := hc
  rw [Word.sub_eq (by omega) (by omega)] at hc2
  -- Both ends are aligned, so that the heap starts before it ends.
  have hle : beginAlign ≤ endAlign - 2 * c.sizeofStructMem := by
    by_contra hlt
    have hd : c.alignSize ∣ beginAlign - (endAlign - 2 * c.sizeofStructMem) :=
      Nat.dvd_sub hbeginA (Nat.dvd_sub hendA (Nat.dvd_mul_left_of_dvd hHA 2))
    have := Nat.le_of_dvd (by omega) hd
    omega
  have hms : c.sub (c.sub endAlign beginAlign) (2 * c.sizeofStructMem) = endAlign - beginAlign - 2 * c.sizeofStructMem := by
    rw [Word.sub_eq (b := beginAlign) (by omega) (by omega), Word.sub_eq (by omega) (by omega)]
  have hmsA : c.alignSize ∣ endAlign - beginAlign - 2 * c.sizeofStructMem :=
    Nat.dvd_sub (Nat.dvd_sub hendA hbeginA) (Nat.dvd_mul_left_of_dvd hHA 2)
  rw [hms] at he
  generalize hmsize : endAlign - beginAlign - 2 * c.sizeofStructMem = ms at *
  have hheapEnd : c.add ms c.sizeofStructMem = ms + c.sizeofStructMem := Word.add_eq (by omega)
  rw [hheapEnd] at he
  cases he
  have hne : ms + c.sizeofStructMem ≠ 0 := by omega
  refine ⟨⟨⟨?_, ?_, ?_, ?_, ?_⟩, rfl, ?_, ?_, ?_, hbeginA, ?_, ?_⟩, merged_cons.2 ⟨by simp, merged_nil⟩, rfl, rfl⟩
  · simp [headers, Function.update_of_ne hne.symm]
  · simp [headers, Function.update_of_ne hne.symm]
  · simp only [headers, setItem_item, setItem_heapEnd, Function.update_of_ne hne.symm, Function.update_self]
    exact isUsed_memFreed _ ⟨0, _, _⟩
  · simp only [headers, setItem_item, setItem_heapEnd, Function.update_of_ne hne.symm, Function.update_self]
    exact pool_memFreed _ ⟨0, _, _⟩
  · simp
  · intro b hb
    obtain rfl := List.mem_singleton.1 hb
    exact ⟨by simp, Nat.dvd_add hmsA hHA, by simp⟩
  · simp only [setItem_item, setItem_heapEnd, Function.update_self]
    exact isUsed_memUsed _ ⟨0, _, _⟩
  · simp only [setItem_item, setItem_heapEnd, Function.update_self]
    exact pool_memUsed _ ⟨0, _, _⟩
  · simp only [setItem_heapPtr]; omega
  · simp only [setItem_heapPtr, setItem_heapEnd]; omega

end SmallMem

namespace Smem

open SmallMem

variable {c : SmemConfig} {s s' : Smem} {x : Nat} {b : Block} {call : SmemCall} {r : Option Nat}

/-! ## The invariant of runs -/

/-- The used blocks of the heap are the ones its users have. -/
def Inv (c : SmemConfig) (s : Smem) : Prop :=
  ∃ bs, HeapInv c s.heap bs ∧ s.live.Perm ((usedBlocks 0 bs).map fun q => s.heap.dataOf c q.1)

/-- The block of a live address. -/
theorem mem_of_live {bs : List Block} {p : Nat} (hl : s.live.Perm ((usedBlocks 0 bs).map fun q => s.heap.dataOf c q.1))
    (hp : p ∈ s.live) : ∃ x b, (x, b) ∈ usedBlocks 0 bs ∧ p = s.heap.dataOf c x := by
  obtain ⟨⟨x, b⟩, hm, rfl⟩ := List.mem_map.1 (hl.mem_iff.1 hp)
  exact ⟨x, b, hm, rfl⟩

/-- What is left of the live blocks when one is given up. -/
theorem erase_live {bs : List Block} {us : List (Nat × Block)}
    (hl : s.live.Perm ((usedBlocks 0 bs).map fun q => s.heap.dataOf c q.1)) (hp : (usedBlocks 0 bs).Perm ((x, b) :: us)) :
    (s.live.erase (s.heap.dataOf c x)).Perm (us.map fun q => s.heap.dataOf c q.1) := by
  have h := (hl.trans (hp.map fun q => s.heap.dataOf c q.1)).erase (s.heap.dataOf c x)
  rwa [List.map_cons, List.erase_cons_head] at h

theorem map_dataOf {h h' : SmallMem} (hs : Same h h') (us : List (Nat × Block)) :
    (us.map fun q => h'.dataOf c q.1) = us.map fun q => h.dataOf c q.1 := by
  simp only [hs.dataOf]

theorem cons_live {bs bs' : List Block} {h' : SmallMem} {n : Nat}
    (hl : s.live.Perm ((usedBlocks 0 bs).map fun q => s.heap.dataOf c q.1)) (hA : Allocated c s.heap bs x n h' bs') :
    (s.heap.dataOf c x :: s.live).Perm ((usedBlocks 0 bs').map fun q => h'.dataOf c q.1) := by
  rw [map_dataOf hA.same]
  exact (hl.cons _).trans (hA.blocks.map fun q : Nat × Block => s.heap.dataOf c q.1).symm

/-- A call keeps the invariant. -/
theorem Inv.step (I : Inv c s) (hk : Smem.step c s call = some (s', r)) : Inv c s' := by
  obtain ⟨bs, hI, hl⟩ := I
  cases call with
  | alloc size =>
    simp only [Smem.step] at hk
    split at hk
    swap
    · cases hk
    cases hk
    rcases hI.rtSmemAlloc size with ⟨he, -⟩ | ⟨h', x, n, bs', he, hA, -⟩
    · rw [he]; exact ⟨bs, hI, hl⟩
    · rw [he]; exact ⟨bs', hA.inv, cons_live hl hA⟩
  | realloc rmem newsize =>
    simp only [Smem.step] at hk
    split at hk
    swap
    · cases hk
    rename_i hc
    obtain ⟨r1, hr1, he1⟩ := Option.map_eq_some_iff.1 hk
    cases he1
    cases rmem with
    | none =>
      unfold rtSmemRealloc at hr1
      dsimp only at hr1
      split at hr1
      · cases hr1
        exact ⟨bs, hI, by simpa [without] using hl⟩
      · split at hr1
        · obtain ⟨h', hh', rfl⟩ := Option.map_eq_some_iff.1 hr1
          cases hh'
          exact ⟨bs, hI, by simpa [without] using hl⟩
        · cases hr1
          rcases hI.rtSmemAlloc (c.rtAlign newsize) with ⟨he, -⟩ | ⟨h', x, n, bs', he, hA, -⟩
          · rw [he]; exact ⟨bs, hI, by simpa [without] using hl⟩
          · rw [he]; exact ⟨bs', hA.inv, by simpa [without] using cons_live hl hA⟩
    | some p =>
      obtain ⟨x, b, hm, rfl⟩ := mem_of_live hl (hc.2 p rfl)
      rcases hI.rtSmemRealloc hm newsize with ⟨h0, h', hf, he⟩ | ⟨h0, he⟩ | ⟨h', y, n, h0, he, hM, -⟩
      · rw [he] at hr1
        cases hr1
        obtain ⟨h1, bs', hf', I', hs, hp⟩ := hI.rtSmemFree hm
        cases hf.symm.trans hf'
        refine ⟨bs', I', ?_⟩
        simp only [h0, or_true, if_true, without, Option.toList_none, List.nil_append, map_dataOf hs]
        exact erase_live hl hp
      · rw [he] at hr1
        cases hr1
        exact ⟨bs, hI, by simpa [h0] using hl⟩
      · rw [he] at hr1
        cases hr1
        obtain ⟨bs', us, I', hp, hp'⟩ := hM.blocks
        refine ⟨bs', I', ?_⟩
        simp only [Option.isSome_some, true_or, if_true, without, Option.toList_some, map_dataOf hM.same]
        exact ((erase_live hl hp).cons _).trans (hp'.map fun q : Nat × Block => s.heap.dataOf c q.1).symm
  | free rmem =>
    simp only [Smem.step] at hk
    split at hk
    swap
    · cases hk
    rename_i hc
    obtain ⟨h', hh', he1⟩ := Option.map_eq_some_iff.1 hk
    cases he1
    cases rmem with
    | none =>
      cases hh'
      exact ⟨bs, hI, hl⟩
    | some p =>
      obtain ⟨x, b, hm, rfl⟩ := mem_of_live hl (hc p rfl)
      obtain ⟨h1, bs', hf', I', hs, hp⟩ := hI.rtSmemFree hm
      cases hh'.symm.trans hf'
      exact ⟨bs', I', by simpa only [without, map_dataOf hs] using erase_live hl hp⟩

theorem Reach.inv (hr : Reach c s) : Inv c s := by
  obtain ⟨a, mem, h, ls, he, hrun⟩ := hr
  refine hrun.invariant (I := Inv c) ⟨_, rtSmemInit_inv a he, ?_⟩ fun s l s' I hs => I.step hs
  simp [usedBlocks]

end Smem

/-! ## The items tile the heap -/

namespace SmallMem

variable {c : SmemConfig} {h : SmallMem} {bs : List Block} {b : Block} {x : Nat}

/-- Following `next` from the item `x` up to `e` visits the items `xs`. -/
inductive Walk (h : SmallMem) (e : Nat) : Nat → List Nat → Prop
  | nil : Walk h e e []
  | cons {x : Nat} {xs : List Nat} (hne : x ≠ e) (hw : Walk h e (h.item x).next xs) : Walk h e x (x :: xs)

/-- What the items say, when `xs` are those from `heap_ptr` on. -/
structure Consistent (c : SmemConfig) (h : SmallMem) (xs : List Nat) : Prop where
  walk : Walk h h.heapEnd 0 xs
  heapEnd : h.heapEnd = h.memSizeAligned + c.sizeofStructMem
  room : ∀ x ∈ xs, x + c.sizeofStructMem ≤ (h.item x).next
  tile : ∀ o < h.heapEnd, ∃ x ∈ xs, (x ≤ o ∧ o < (h.item x).next) ∧ ∀ y ∈ xs, y ≤ o → o < (h.item y).next → y = x
  prev : ∀ x ∈ xs, (h.item x).next ≠ h.heapEnd → (h.item (h.item x).next).prev = x
  merged : ∀ x ∈ xs, (h.item x).isUsed = false → (h.item (h.item x).next).isUsed = true
  lfree : (h.lfree ∈ xs ∧ (h.item h.lfree).isUsed = false ∧ ∀ y ∈ xs, (h.item y).isUsed = false → h.lfree ≤ y) ∨
    (h.lfree = h.heapEnd ∧ ∀ y ∈ xs, (h.item y).isUsed = true)
  used : h.used = ((xs.filter fun x => (h.item x).isUsed).map fun x => (h.item x).next - x).sum

theorem walk_seg {p a e : Nat} (hs : Seg h.headers p a bs e) (hpos : ∀ b ∈ bs, 0 < b.size) :
    Walk h e a ((starts a bs).map Prod.fst) := by
  induction bs generalizing p a with
  | nil => rw [← seg_nil.1 hs]; exact .nil
  | cons b bs ih =>
    obtain ⟨-, hn, -, -, hs⟩ := hs
    have hb := hpos b (by simp)
    have he := hs.end_eq
    have hw := ih hs fun c hc => hpos c (by simp [hc])
    exact .cons (by omega) (by rw [show (h.item a).next = a + b.size from hn]; exact hw)

/-- The items on the way are determined. -/
theorem Walk.unique {xs ys : List Nat} {e : Nat} (hw : Walk h e x xs) (hw' : Walk h e x ys) : xs = ys := by
  induction hw generalizing ys with
  | nil =>
    cases hw' with
    | nil => rfl
    | cons hne _ => exact absurd rfl hne
  | cons hne hw ih =>
    cases hw' with
    | nil => exact absurd rfl hne
    | cons _ hw' => rw [ih hw']

theorem Tiling.mem_next (T : Tiling c h bs) (hm : (x, b) ∈ starts 0 bs) :
    (h.item x).next = x + b.size ∧ (h.item x).isUsed = b.used ∧ x + b.size ≤ h.heapEnd := by
  obtain ⟨ds, es, rfl, hx⟩ := mem_starts.1 hm
  rw [Nat.zero_add] at hx
  obtain ⟨h1, h2, -, -, h3⟩ := T.item_eq hx
  exact ⟨h1, h2, h3⟩

theorem HeapInv.consistent (I : HeapInv c h bs) : Consistent c h ((starts 0 bs).map Prod.fst) where
  walk := walk_seg I.seg I.pos
  heapEnd := I.heapEnd_eq
  room x hx := by
    obtain ⟨⟨x, b⟩, hm, rfl⟩ := List.mem_map.1 hx
    obtain ⟨ds, es, hbs, -⟩ := mem_starts.1 hm
    have := (I.blocks b (by rw [hbs]; simp)).header
    have := (I.mem_next hm).1
    dsimp only
    omega
  tile o ho := by
    obtain ⟨x, b, hm, h1, h2⟩ := exists_starts (a := 0) (Nat.zero_le o) (by rw [Nat.zero_add, ← I.extent_eq]; exact ho)
    have hn := (I.mem_next hm).1
    refine ⟨x, List.mem_map.2 ⟨_, hm, rfl⟩, ⟨h1, by omega⟩, fun y hy hy1 hy2 => ?_⟩
    obtain ⟨⟨y, d⟩, hm', rfl⟩ := List.mem_map.1 hy
    have hn' := (I.mem_next hm').1
    dsimp only at hy1 hy2 hn' ⊢
    by_contra hne
    have hapart := apart_of_ne hm hm' fun he => hne (Prod.mk.inj he).1.symm
    simp only [Apart] at hapart
    omega
  prev x hx hne := by
    obtain ⟨⟨x, b⟩, hm, rfl⟩ := List.mem_map.1 hx
    exact I.seg.prev_next hm hne
  merged x hx hu := by
    obtain ⟨⟨x, b⟩, hm, rfl⟩ := List.mem_map.1 hx
    obtain ⟨ds, es, rfl, hds⟩ := mem_starts.1 hm
    rw [Nat.zero_add] at hds
    obtain ⟨h1, h2, -, -, h3⟩ := I.item_eq hds
    obtain ⟨h4, -, -⟩ := I.next_item hds
    have hes := (merged_cons.1 (merged_append.1 I.merged).2.1).1
    dsimp only at hu ⊢
    rw [h1, h4]
    cases es with
    | nil => rfl
    | cons d es => exact (hes d (by simp)).resolve_left (by rw [← h2, hu]; simp)
  lfree := by
    obtain ⟨ds, es, rfl, hall, hff, hhead⟩ := @exists_firstFree bs 0
    rw [Nat.zero_add] at hff
    cases es with
    | nil =>
      refine .inr ⟨?_, fun y hy => ?_⟩
      · rw [I.lfree, hff, I.extent_eq]; simp
      · obtain ⟨⟨y, d⟩, hm, rfl⟩ := List.mem_map.1 hy
        obtain ⟨ds', es', he, -⟩ := mem_starts.1 hm
        rw [(I.mem_next hm).2.1]
        exact hall d (by rw [List.append_nil] at he; rw [he]; simp)
    | cons f es =>
      have hm : (extent ds, f) ∈ starts 0 (ds ++ f :: es) := mem_starts.2 ⟨ds, es, rfl, by simp⟩
      have hl : h.lfree = extent ds := I.lfree.trans hff
      refine .inl ⟨List.mem_map.2 ⟨_, hm, hl.symm⟩, ?_, fun y hy hu => ?_⟩
      · rw [hl, (I.mem_next hm).2.1]; exact hhead f (by simp)
      · obtain ⟨⟨y, d⟩, hm', rfl⟩ := List.mem_map.1 hy
        rw [(I.mem_next hm').2.1] at hu
        rw [I.lfree]
        obtain ⟨ds', es', he, hy'⟩ := mem_starts.1 hm'
        rw [he]
        have := firstFree_le_of_free 0 ds' es' hu
        omega
  used := by
    rw [I.used, usedSize_eq (a := 0), usedBlocks]
    have hmap : ∀ q ∈ starts 0 bs, (h.item q.1).next - q.1 = q.2.size ∧ (h.item q.1).isUsed = q.2.used := fun q hq => by
      obtain ⟨h1, h2, -⟩ := I.mem_next (x := q.1) (b := q.2) hq
      exact ⟨by omega, h2⟩
    rw [List.filter_map, List.map_map]
    have hfilter : (starts 0 bs).filter ((fun x => (h.item x).isUsed) ∘ Prod.fst) = (starts 0 bs).filter fun q => q.2.used :=
      List.filter_congr fun q hq => (hmap q hq).2
    rw [hfilter]
    congr 1
    exact List.map_congr_left fun q hq => ((hmap q (List.mem_of_mem_filter hq)).1).symm

end SmallMem

namespace Smem

open SmallMem

variable {c : SmemConfig} {s : Smem} {size : Nat} {rmem : Option Nat} {call : SmemCall}

/-- In every state reached, the items from `heap_ptr` on tile the heap up to `heap_end`, `prev` undoes `next`, no two
free items are adjacent, `lfree` is the first free one, and `used` adds up the used ones. -/
theorem smem_consistent (hr : Reach c s) : ∃ xs, Consistent c s.heap xs := by
  obtain ⟨bs, I, -⟩ := hr.inv
  exact ⟨_, I.consistent⟩

/-- A 64-bit target with `RT_ALIGN_SIZE` 8. -/
def config64 : SmemConfig where
  bits := 64
  alignSize := 8
  alignSize_pow := Word.pow_eight
  alignSize_lt := Word.eight_lt
  smallMemSize := 136
  itemSize := 32
  minSize := 24
  enc _ _ := 0
  smallMemSize_pos := by decide
  minSize_pos := by decide
  minSize_le := by decide
  itemSize_lt := by decide

/-- 1 KiB of memory at `0x1000`. -/
def area64 : Area config64 := ⟨0x1000, 0x400, by decide⟩

/-- The new heap on it. -/
def heap64 : SmallMem :=
  (SmallMem.rtSmemInit config64 ⟨fun _ => ⟨0, 0, 0⟩, fun _ => 0⟩ area64.beginAddr area64.size).get (by decide)

/-- The state after some calls. -/
def after64 (calls : List SmemCall) : Smem := ((Runs.exec (step config64) ⟨heap64, []⟩ calls).map (·.1)).getD ⟨heap64, []⟩

theorem reach_after64 (calls : List SmemCall) (h : (Runs.exec (step config64) ⟨heap64, []⟩ calls).isSome) :
    Reach config64 (after64 calls) := by
  obtain ⟨⟨s, ls⟩, he⟩ := Option.isSome_iff_exists.1 h
  refine ⟨area64, _, heap64, ls, (Option.some_get _).symm, ?_⟩
  have hs : after64 calls = s := by simp [after64, he]
  rw [hs]
  exact Runs.Run.of_exec (fun _ _ _ _ hf (_ : True) => hf) he fun _ _ => trivial

/-- Two blocks are allocated, the first one is freed, and the other one is cut. -/
def calls64 : List SmemCall := [.alloc 100, .alloc 200, .free (some 0x10a8), .realloc (some 0x1130) 24]

theorem smem_consistent_calls64 : ∃ xs, Consistent config64 (after64 calls64).heap xs :=
  smem_consistent (reach_after64 calls64 (by decide))

/-- In every state reached, no assertion fails in a call for a live block. -/
theorem smem_progress (hr : Reach c s) (hsize : ∀ n, call = .alloc n ∨ (∃ p, call = .realloc p n) → n < 2 ^ c.bits)
    (hlive : ∀ p, call = .free (some p) ∨ (∃ n, call = .realloc (some p) n) → p ∈ s.live) :
    (Smem.step c s call).isSome := by
  obtain ⟨bs, hI, hl⟩ := hr.inv
  cases call with
  | alloc n => simp [Smem.step, hsize n (.inl rfl)]
  | realloc rmem n =>
    have hn := hsize n (.inr ⟨rmem, rfl⟩)
    cases rmem with
    | none =>
      simp only [Smem.step, rtSmemRealloc, rtSmemFree]
      split
      · split
        · rfl
        · split <;> rfl
      · rename_i hc; exact absurd ⟨hn, by simp⟩ hc
    | some p =>
      have hp := hlive p (.inr ⟨n, rfl⟩)
      obtain ⟨x, b, hm, rfl⟩ := mem_of_live hl hp
      simp only [Smem.step]
      rw [if_pos ⟨hn, by simpa using hp⟩]
      rcases hI.rtSmemRealloc hm n with ⟨-, h', -, he⟩ | ⟨-, he⟩ | ⟨h', y, k, -, he, -⟩ <;> rw [he] <;> rfl
  | free rmem =>
    cases rmem with
    | none => simp [Smem.step, rtSmemFree]
    | some p =>
      have hp := hlive p (.inl rfl)
      obtain ⟨x, b, hm, rfl⟩ := mem_of_live hl hp
      obtain ⟨h1, -, he, -⟩ := hI.rtSmemFree hm
      simp only [Smem.step]
      rw [if_pos (by simpa using hp), he]
      rfl

theorem smem_progress_calls64 : (Smem.step config64 (after64 calls64) (.free (some 0x1130))).isSome := by
  refine smem_progress (reach_after64 calls64 (by decide)) (by simp) ?_
  rintro p (h | ⟨n, h⟩) <;> cases h
  decide

/-- In every state reached in which all blocks have been given back, the heap is one free item again, and exactly the
requests that fit the new heap are met. -/
theorem smem_drained (hr : Reach c s) (hl : s.live = []) :
    s.heap.used = 0 ∧ s.heap.lfree = 0 ∧ (s.heap.item 0).isUsed = false ∧ (s.heap.item 0).next = s.heap.heapEnd ∧
      ∀ size, size ≠ 0 → ((s.heap.rtSmemAlloc c size).2.isSome ↔ request c size ≤ s.heap.memSizeAligned) := by
  obtain ⟨bs, I, hp⟩ := hr.inv
  have hend := I.heapEnd_eq
  have hext := I.extent_eq
  have hH := c.sizeofStructMem_pos
  obtain ⟨b, rfl, hb, hsize⟩ : ∃ b : Block, bs = [b] ∧ b.used = false ∧ b.size = s.heap.heapEnd := by
    rw [hl] at hp
    refine ⟨_, I.merged.single (a := 0) ?_ (List.map_eq_nil_iff.1 hp.nil_eq.symm), rfl, hext.symm⟩
    rintro rfl
    simp at hext
    omega
  obtain ⟨hnext, hused, -⟩ := I.mem_next (x := 0) (b := b) (by simp)
  refine ⟨I.used.trans (by simp [hb]), I.lfree.trans (by simp [firstFree, hb]), hused.trans hb, by omega, fun size h0 => ?_⟩
  rcases I.rtSmemAlloc size with ⟨he, hno⟩ | ⟨h', x, n, bs', he, -, -, -, d, hd, -, hle⟩
  · have := hno h0 b (by simp) hb
    rw [he]
    exact iff_of_false (by simp) (by omega)
  · obtain rfl := List.mem_singleton.1 hd
    rw [he]
    exact iff_of_true rfl (by omega)

theorem smem_drained_once : ((after64 [.alloc 100, .free (some 0x10a8)]).heap.rtSmemAlloc config64 700).2.isSome := by
  have hr := reach_after64 [.alloc 100, .free (some 0x10a8)] (by decide)
  exact ((smem_drained hr (by decide)).2.2.2.2 700 (by decide)).2 (by decide)

/-! ## What a returned block promises -/

/-- Where the next item after the block starts. -/
def blockEnd (c : SmemConfig) (h : SmallMem) (p : Nat) : Nat := h.heapPtr + (h.item (h.itemOf c p)).next

/-- The block at `p` is aligned, inside the heap, large enough, and apart from the other live blocks. -/
structure Good (c : SmemConfig) (h : SmallMem) (others : List Nat) (size p : Nat) : Prop where
  aligned : p % c.alignSize = 0
  inside : h.heapPtr ≤ p ∧ blockEnd c h p ≤ h.heapPtr + h.heapEnd
  size_le : p + size ≤ blockEnd c h p
  apart : ∀ q ∈ others, blockEnd c h p ≤ q ∨ blockEnd c h q ≤ p

/-- Some free item has a user size of at least `n`. -/
def HasFree (c : SmemConfig) (h : SmallMem) (n : Nat) : Prop :=
  ∃ xs, Walk h h.heapEnd 0 xs ∧ ∃ x ∈ xs, (h.item x).isUsed = false ∧ n ≤ (h.item x).next - x - c.sizeofStructMem

/-- `rt_smem_alloc(m, size)` returns a good block, or `NULL` because no free item is large enough. -/
def AllocSafe (c : SmemConfig) (s : Smem) (size : Nat) : Prop :=
  (∀ p, (s.heap.rtSmemAlloc c size).2 = some p → Good c (s.heap.rtSmemAlloc c size).1 s.live size p) ∧
    ((s.heap.rtSmemAlloc c size).2 = none → size ≠ 0 → ¬HasFree c s.heap (request c size))

/-- `rt_smem_realloc(m, rmem, size)` returns a good block, or `NULL`. -/
def ReallocSafe (c : SmemConfig) (s : Smem) (rmem : Option Nat) (size : Nat) : Prop :=
  ∀ h' p, s.heap.rtSmemRealloc c rmem size = some (h', some p) → Good c h' (without s.live rmem) size p

variable {h : SmallMem} {bs : List Block} {n : Nat}

/-- A free item is a free block of the tiling. -/
theorem hasFree_iff (I : HeapInv c h bs) : HasFree c h n ↔ ∃ b ∈ bs, b.used = false ∧ n ≤ b.size - c.sizeofStructMem := by
  constructor
  · rintro ⟨xs, hw, x, hx, hu, hn⟩
    rw [hw.unique (walk_seg I.seg I.pos)] at hx
    obtain ⟨⟨x, b⟩, hm, rfl⟩ := List.mem_map.1 hx
    obtain ⟨h1, h2, -⟩ := I.mem_next hm
    obtain ⟨ds, es, he, -⟩ := mem_starts.1 hm
    dsimp only at hu hn
    exact ⟨b, by rw [he]; simp, by rw [← h2, hu], by omega⟩
  · rintro ⟨b, hb, hu, hn⟩
    obtain ⟨ds, es, he⟩ := List.append_of_mem hb
    have hm : (extent ds, b) ∈ starts 0 bs := mem_starts.2 ⟨ds, es, he, by simp⟩
    obtain ⟨h1, h2, -⟩ := I.mem_next hm
    exact ⟨_, walk_seg I.seg I.pos, extent ds, List.mem_map.2 ⟨_, hm, rfl⟩, by rw [h2, hu], by omega⟩

/-- A used block of the heap is a good one. -/
theorem good_of_used {us : List (Nat × Block)} {x : Nat} (I : HeapInv c h bs)
    (hp : (usedBlocks 0 bs).Perm ((x, ⟨n, true⟩) :: us)) (hn : size + c.sizeofStructMem ≤ n) {others : List Nat}
    (ho : ∀ q ∈ others, ∃ y ∈ us, q = h.dataOf c y.1) : Good c h others size (h.dataOf c x) := by
  have hmem {y : Nat} {b : Block} (hm : (y, b) ∈ usedBlocks 0 bs) :
      blockEnd c h (h.dataOf c y) = h.heapPtr + (y + b.size) ∧ y + b.size ≤ h.heapEnd := by
    obtain ⟨h1, -, h3⟩ := I.mem_next (mem_usedBlocks.1 hm).1
    obtain ⟨ds, es, he, -⟩ := mem_starts.1 (mem_usedBlocks.1 hm).1
    have := I.pos b (by rw [he]; simp)
    rw [blockEnd, I.itemOf_dataOf (by omega), h1]
    exact ⟨rfl, h3⟩
  have hx : (x, ⟨n, true⟩) ∈ usedBlocks 0 bs := hp.mem_iff.2 (by simp)
  obtain ⟨hend, hle⟩ := hmem hx
  refine ⟨?_, ?_, ?_, fun q hq => ?_⟩
  · obtain ⟨ds, es, he, hds⟩ := mem_starts.1 (mem_usedBlocks.1 hx).1
    rw [Nat.zero_add] at hds
    refine Nat.mod_eq_zero_of_dvd (Nat.dvd_add (Nat.dvd_add I.heapPtr_dvd ?_) c.alignSize_dvd_sizeofStructMem)
    rw [hds]
    exact extent_dvd fun d hd => (I.blocks d (by rw [he]; simp [hd])).dvd
  · rw [hend, dataOf]
    dsimp only at hle ⊢
    omega
  · rw [hend, dataOf]
    dsimp only
    omega
  · obtain ⟨⟨y, b⟩, hy, rfl⟩ := ho q hq
    have hm : (y, b) ∈ usedBlocks 0 bs := hp.mem_iff.2 (List.mem_cons_of_mem _ hy)
    have hap := (List.pairwise_cons.1 (hp.pairwise_iff (fun hab => Std.Symm.symm _ _ hab) |>.1 pairwise_usedBlocks)).1 _ hy
    rw [hend, (hmem hm).1, dataOf, dataOf]
    simp only [Apart] at hap ⊢
    omega

/-- The rounded size is at least the size, if it does not wrap; it is `0` if it does. -/
theorem le_request (h : size + c.alignSize ≤ 2 ^ c.bits) : size ≤ request c size := by
  have := (Word.rtAlign_spec h).1
  unfold request
  dsimp only
  split <;> omega

theorem request_wrap (hlt : size < 2 ^ c.bits) (h : 2 ^ c.bits < size + c.alignSize) :
    request c size = c.minSizeAligned := by
  have := c.minSizeAligned_pos
  rw [request, Word.rtAlign_wrap hlt h, if_pos this]

theorem allocSafe_of (I : Inv c s) (h : size + c.alignSize ≤ 2 ^ c.bits ∨ ¬HasFree c s.heap (request c size)) :
    AllocSafe c s size := by
  obtain ⟨bs, hI, hl⟩ := I
  have hmin := c.minSizeAligned_pos
  have hreq := minSizeAligned_le_request c size
  rcases hI.rtSmemAlloc size with ⟨he, hno⟩ | ⟨h', x, n, bs', he, hA, -, hn, b, hb, hbu, hbn⟩
  · rw [AllocSafe, he]
    refine ⟨fun p hp => (by cases hp), fun _ h0 hf => ?_⟩
    obtain ⟨b, hb, hu, hn⟩ := (hasFree_iff hI).1 hf
    have := hno h0 b hb hu
    omega
  · rw [AllocSafe, he]
    refine ⟨fun p hp => ?_, fun hp => (by cases hp)⟩
    cases hp
    rcases h with h | h
    · rw [← hA.same.dataOf]
      refine good_of_used hA.inv hA.blocks (by have := le_request h; omega) fun q hq => ?_
      obtain ⟨y, b, hm, rfl⟩ := mem_of_live hl hq
      exact ⟨(y, b), hm, (hA.same.dataOf c y).symm⟩
    · exact absurd ((hasFree_iff hI).2 ⟨b, hb, hbu, by omega⟩) h

theorem reallocSafe (I : Inv c s) (hlt : size < 2 ^ c.bits) (hrmem : ∀ p ∈ rmem, p ∈ s.live) : ReallocSafe c s rmem size := by
  have hwrap (h0 : c.rtAlign size ≠ 0) : size ≤ c.rtAlign size := by
    by_cases h : size + c.alignSize ≤ 2 ^ c.bits
    · exact (Word.rtAlign_spec h).1
    · exact absurd (Word.rtAlign_wrap hlt (Nat.lt_of_not_le h)) h0
  obtain ⟨bs, hI, hl⟩ := I
  intro h' p he
  cases rmem with
  | none =>
    unfold rtSmemRealloc at he
    dsimp only at he
    split at he
    · cases he
    · split at he
      · cases he
      · rename_i hms h0
        -- The size passed on is a multiple already.
        have hroom := hI.room
        have hend := hI.heapEnd_eq
        have hA2 : c.alignSize ≤ c.sizeofStructMem := Nat.le_of_dvd c.sizeofStructMem_pos c.alignSize_dvd_sizeofStructMem
        have hsafe := (allocSafe_of (s := s) ⟨bs, hI, hl⟩ (.inl (by omega)) : AllocSafe c s (c.rtAlign size)).1 p
        rw [Option.some.inj he] at hsafe
        have hg := hsafe rfl
        exact ⟨hg.aligned, hg.inside, Nat.le_trans (Nat.add_le_add_left (hwrap h0) p) hg.size_le, hg.apart⟩
  | some q =>
    obtain ⟨x, b, hm, rfl⟩ := mem_of_live hl (hrmem q rfl)
    rcases hI.rtSmemRealloc hm size with ⟨-, h1, -, he1⟩ | ⟨-, he1⟩ | ⟨h1, y, n, h0, he1, hM, hn⟩
    · rw [he1] at he; cases he
    · rw [he1] at he; cases he
    · rw [he1] at he
      obtain ⟨rfl, hp⟩ := Prod.mk.inj (Option.some.inj he)
      cases hp
      obtain ⟨bs', us, I', hp1, hp2⟩ := hM.blocks
      have hy : s.heap.dataOf c y = h1.dataOf c y := (hM.same.dataOf c y).symm
      rw [hy]
      refine good_of_used I' hp2 (by omega) fun q hq => ?_
      obtain ⟨y, hy, rfl⟩ := List.mem_map.1 ((erase_live hl hp1).mem_iff.1 hq)
      exact ⟨y, hy, (hM.same.dataOf c y.1).symm⟩

/-- In every state reached: what `rt_smem_alloc` and `rt_smem_realloc` return is as it should be exactly if `RT_ALIGN` of
the size does not wrap, or no free item is large enough for the smallest block. -/
theorem smem_safe_iff (hr : Reach c s) (hsize : size < 2 ^ c.bits) (hrmem : ∀ p ∈ rmem, p ∈ s.live) :
    (AllocSafe c s size ∧ ReallocSafe c s rmem size) ↔
      size + c.alignSize ≤ 2 ^ c.bits ∨ ¬HasFree c s.heap c.minSizeAligned := by
  have I := hr.inv
  constructor
  · rintro ⟨⟨hgood, hnull⟩, -⟩
    by_contra hno
    obtain ⟨hwrap, hfree⟩ := not_or.1 hno
    have hwrap := Nat.lt_of_not_le hwrap
    have hfree := not_not.1 hfree
    have hA := c.alignSize_lt
    rw [← request_wrap hsize hwrap] at hfree
    cases hp : (s.heap.rtSmemAlloc c size).2 with
    | none => exact hnull hp (by omega) hfree
    | some p =>
      -- No block is as large as that.
      have hg := hgood p hp
      obtain ⟨bs, hI, -⟩ := I
      rcases hI.rtSmemAlloc size with ⟨he, -⟩ | ⟨h', x, n, bs', he, hAl, -⟩
      · rw [he] at hp; cases hp
      · rw [he] at hg
        have hroom := hAl.inv.room
        have hptr := hAl.inv.heapPtr_pos
        have hle := Nat.le_of_dvd hptr hAl.inv.heapPtr_dvd
        have h1 := hg.inside
        have h2 := hg.size_le
        dsimp only at h1 h2
        omega
  · intro h
    refine ⟨allocSafe_of I ?_, reallocSafe I hsize hrmem⟩
    by_cases hw : size + c.alignSize ≤ 2 ^ c.bits
    · exact .inl hw
    · rw [request_wrap hsize (Nat.lt_of_not_le hw)]
      exact .inr (h.resolve_left hw)

theorem smem_safe_iff_calls64 :
    (AllocSafe config64 (after64 calls64) 100 ∧ ReallocSafe config64 (after64 calls64) (some 0x1130) 100) ↔
      100 + 8 ≤ 2 ^ 64 ∨ ¬HasFree config64 (after64 calls64).heap config64.minSizeAligned :=
  smem_safe_iff (reach_after64 calls64 (by decide)) (by decide) (by decide)

/-- The largest size is rounded to the smallest block. -/
theorem not_smem_safe :
    ¬∀ (c : SmemConfig) (s : Smem) (size : Nat) (rmem : Option Nat), Reach c s → size < 2 ^ c.bits →
      (∀ p ∈ rmem, p ∈ s.live) → AllocSafe c s size ∧ ReallocSafe c s rmem size := by
  intro h
  have hsafe := (h config64 (after64 []) (2 ^ 64 - 1) none (reach_after64 [] (by decide)) (by decide)
    (by decide)).1.1 0x10a8 (by decide)
  exact absurd hsafe.size_le (by decide)

end Smem

end RtThread
