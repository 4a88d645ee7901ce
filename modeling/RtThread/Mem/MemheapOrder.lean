import RtThread.Lib.SortedBy
import RtThread.Mem.MemheapFit

/-!
# The order of the free list of a memheap

What the calls do to the order of the free list with `RT_MEMHEAP_BEST_MODE`. `rt_memheap_free` looks for the place of a
block that it inserts, but the rest of a block that is split goes to the head of the list, and a free block that takes
over the one behind it stays where it is. Each call keeps a sorted list sorted exactly if no such rest or joined block is
larger than a block behind it.
-/

namespace RtThread

open Tiles Rings Sorting

namespace Memheap

variable {c : MemheapConfig} {h h' : Memheap} {bs ds es : List Block} {b : Block} {x y n size newsize : Nat}
  {ys zs fs : List Nat}

/-! ## What an edit does to the ends of the blocks -/

/-- The size of a block depends on where the next one is. -/
theorem memitemSize_congr (he : (h'.item y).next = (h.item y).next) : h'.memitemSize c y = h.memitemSize c y := by
  rw [memitemSize, he, memitemSize]

section

variable (c : MemheapConfig) (h : Memheap)

theorem next_removeFree (x y : Nat) : ((h.removeFree c x).item y).next = (h.item y).next := by
  refine (modItem_field MemheapItem.next ?_ y).trans (modItem_field MemheapItem.next ?_ y) <;> exact fun _ => rfl

theorem next_takeFree (x y : Nat) : ((h.takeFree c x).item y).next = (h.item y).next := by
  refine (modItem_field MemheapItem.next ?_ y).trans (next_removeFree c h x y)
  exact fun _ => rfl

theorem next_insertFree (x y : Nat) : ((h.insertFree c x).item y).next = (h.item y).next := by
  refine (modItem_field MemheapItem.next ?_ y).trans ((modItem_field MemheapItem.next ?_ y).trans
    (modItem_field MemheapItem.next ?_ y)) <;> exact fun _ => rfl

theorem next_insertFreeBefore (x n y : Nat) :
    ((h.insertFreeBefore c x n).item y).next = (h.item y).next := by
  refine (modItem_field MemheapItem.next ?_ y).trans ((modItem_field MemheapItem.next ?_ y).trans
    (modItem_field MemheapItem.next ?_ y)) <;> exact fun _ => rfl

theorem next_insertBlock (x n y : Nat) : ((h.insertBlock c x n).item y).next =
    if y = x then n else if y = n then (h.item x).next else (h.item y).next := by
  unfold insertBlock
  rw [modItem_item]
  split
  · rfl
  · refine (modItem_field MemheapItem.next ?_ y).trans ?_
    · exact fun _ => rfl
    · rw [modItem_item]
      split <;> rfl

theorem next_mergeNext (x n y : Nat) :
    ((h.mergeNext c x n).item y).next = if y = x then (h.item n).next else (h.item y).next := by
  unfold mergeNext
  rw [next_removeFree, modItem_item]
  split
  · refine modItem_field MemheapItem.next ?_ n
    exact fun _ => rfl
  · refine modItem_field MemheapItem.next ?_ y
    exact fun _ => rfl

theorem next_removeNextPtr (hn : (h.item n).next ≠ n) (y : Nat) :
    ((h.removeNextPtr c n).item y).next = if y = (h.item n).prev then (h.item n).next else (h.item y).next := by
  have hprev : ((h.removeFree c n).item n).prev = (h.item n).prev := by
    refine (modItem_field MemheapItem.prev ?_ n).trans (modItem_field MemheapItem.prev ?_ n) <;> exact fun _ => rfl
  unfold removeNextPtr
  dsimp only
  rw [next_removeFree, modItem_ne hn.symm, hprev, next_removeFree, modItem_item]
  split
  · rfl
  · rw [modItem_item]
    split
    · rename_i hy
      rw [hy]
      exact next_removeFree c h n _
    · exact next_removeFree c h n y

theorem next_mergeLeft (x y : Nat) :
    ((h.mergeLeft c x).item y).next = if y = (h.item x).prev then (h.item x).next else (h.item y).next := by
  refine (modItem_field MemheapItem.next ?_ y).trans ?_
  · exact fun _ => rfl
  · rw [modItem_item]
    exact apply_ite MemheapItem.next _ _ _

end

/-! ## What an edit does to the free list -/

/-- A block is removed from the free list, wherever it stands. -/
theorem FreeLinks.removeFree_filter (hl : FreeLinks h fs) (hx : x ∈ fs) :
    FreeLinks (h.removeFree c x) (fs.filter (· ≠ x)) := by
  obtain ⟨ys, zs, rfl⟩ := List.append_of_mem hx
  have hnd := (List.nodup_cons.1 hl.nodup).2
  have he : (ys ++ x :: zs).filter (· ≠ x) = ys ++ zs := by
    obtain ⟨h1, h2, h3⟩ := List.nodup_append.1 hnd
    have hys : ys.filter (· ≠ x) = ys := List.filter_eq_self.2 fun y hy => by simpa using h3 y hy x (by simp)
    have hzs : zs.filter (· ≠ x) = zs := List.filter_eq_self.2 fun z hz => by
      have hne : z ≠ x := fun e => (List.nodup_cons.1 h2).1 (e ▸ hz)
      simpa using hne
    rw [List.filter_append, hys, List.filter_cons_of_neg (by simp), hzs]
  rw [he]
  exact hl.removeFree.1

theorem FreeLinks.mergeNext (hl : FreeLinks h fs) (hn : n ∈ fs) (x : Nat) :
    FreeLinks (h.mergeNext c x n) (fs.filter (· ≠ n)) := by
  refine FreeLinks.removeFree_filter (FreeLinks.modItem (hl.modItem _ ?_ ?_) _ ?_ ?_) hn <;> exact fun _ => rfl

theorem FreeLinks.mergeLeft (hl : FreeLinks h fs) (x : Nat) : FreeLinks (h.mergeLeft c x) fs := by
  have hl' : FreeLinks { h with availableSize := c.add h.availableSize c.memheapSize } fs := hl
  refine FreeLinks.modItem (hl'.modItem _ ?_ ?_) _ ?_ ?_ <;> exact fun _ => rfl

theorem FreeLinks.removeNextPtr (hl : FreeLinks h fs) (hn : n ∈ fs) :
    FreeLinks (h.removeNextPtr c n) (fs.filter (· ≠ n)) := by
  refine FreeLinks.modItem ((hl.removeFree_filter hn).modItem _ ?_ ?_) _ ?_ ?_ <;> exact fun _ => rfl

/-- The first block of the list that is large enough. -/
theorem findFit_first {fuel : Nat} (hl : FreeLinks h (ys ++ zs)) (hn : (zs ++ [h.freeList]).head? = some n)
    (hf : h.findFit c size fuel n = some x) (hys : ∀ y ∈ ys, h.memitemSize c y < size) :
    ∃ ys' zs', ys ++ zs = ys' ++ x :: zs' ∧ (∀ y ∈ ys', h.memitemSize c y < size) ∧ size ≤ h.memitemSize c x := by
  induction fuel generalizing ys zs n with
  | zero => cases hf
  | succ fuel ih =>
    rw [findFit] at hf
    cases zs with
    | nil =>
      obtain rfl : h.freeList = n := by simpa using hn
      rw [if_pos rfl] at hf
      cases hf
    | cons z zs =>
      obtain rfl : z = n := by simpa using hn
      split at hf
      · cases hf
      · split at hf
        next hs =>
          cases hf
          exact ⟨ys, zs, rfl, hys, hs⟩
        next hs =>
          have hl' : FreeLinks h ((ys ++ [z]) ++ zs) := by rw [List.append_assoc]; exact hl
          obtain ⟨ys', zs', he, hr⟩ := ih hl' hl.next hf fun y hy => by
            rcases List.mem_append.1 hy with hy | hy
            · exact hys y hy
            · rw [List.mem_singleton.1 hy]
              exact Nat.lt_of_not_le hs
          exact ⟨ys', zs', by rw [← he, List.append_assoc]; rfl, hr⟩

/-- The search for a place ends before the first block that is at least as large. -/
theorem findPlace_first {fuel : Nat} (hl : FreeLinks h (ys ++ zs)) (hn : (zs ++ [h.freeList]).head? = some n)
    (hf : zs.length < fuel) (hys : ∀ y ∈ ys, h.memitemSize c y < size) :
    ∃ ys' zs', ys ++ zs = ys' ++ zs' ∧ (zs' ++ [h.freeList]).head? = some (h.findPlace c size fuel n) ∧
      (∀ y ∈ ys', h.memitemSize c y < size) ∧ ∀ z ∈ zs'.head?, size ≤ h.memitemSize c z := by
  induction fuel generalizing ys zs n with
  | zero => omega
  | succ fuel ih =>
    rw [findPlace]
    cases zs with
    | nil =>
      obtain rfl : h.freeList = n := by simpa using hn
      rw [if_pos rfl]
      exact ⟨ys, [], rfl, rfl, hys, by simp⟩
    | cons z zs =>
      obtain rfl : z = n := by simpa using hn
      have hne : z ≠ h.freeList := by
        rintro rfl
        exact (List.nodup_cons.1 hl.nodup).1 (by simp)
      rw [if_neg hne]
      split
      next hs => exact ⟨ys, z :: zs, rfl, rfl, hys, fun w hw => Option.some.inj hw ▸ hs⟩
      next hs =>
        have hl' : FreeLinks h ((ys ++ [z]) ++ zs) := by rw [List.append_assoc]; exact hl
        obtain ⟨ys', zs', he, hr⟩ := ih hl' hl.next (by simpa using hf) fun y hy => by
          rcases List.mem_append.1 hy with hy | hy
          · exact hys y hy
          · rw [List.mem_singleton.1 hy]
            exact Nat.lt_of_not_le hs
        exact ⟨ys', zs', by rw [← he, List.append_assoc]; rfl, hr⟩

/-! ## `rt_memheap_alloc` -/

/-- The free list is sorted by block size. -/
def Sorted (c : MemheapConfig) (h : Memheap) : Prop := ∃ fs, FreeLinks h fs ∧ SortedBy (h.memitemSize c) fs

theorem sorted_iff (hl : FreeLinks h fs) : Sorted c h ↔ SortedBy (h.memitemSize c) fs := by
  constructor
  · rintro ⟨fs', hl', hs⟩
    obtain rfl : fs = fs' := Ring.unique hl hl'
    exact hs
  · exact fun hs => ⟨fs, hl, hs⟩

/-- The block that is found is split, and the rest of it is larger than a free block before it. -/
def AllocMisplaces (c : MemheapConfig) (h : Memheap) (size : Nat) : Prop :=
  request c size < h.availableSize ∧ ∃ ys x zs, FreeLinks h (ys ++ x :: zs) ∧
    (∀ y ∈ ys, h.memitemSize c y < request c size) ∧
    request c size + c.memheapSize + c.minialloc ≤ h.memitemSize c x ∧
    ∃ y ∈ ys, h.memitemSize c y < h.memitemSize c x - (request c size + c.memheapSize)

/-- A block of the free list is a free block of the pool. -/
theorem HeapInv.exists_free (I : HeapInv c h bs) (hl : FreeLinks h fs) (hx : x ∈ fs) :
    ∃ ds b es, bs = ds ++ b :: es ∧ x = h.startAddr + extent ds ∧ b.used = false := by
  obtain ⟨b, hm, hb⟩ := mem_freeStarts.1 ((I.available_eq hl).2.mem_iff.1 hx)
  obtain ⟨ds, es, rfl, hds⟩ := mem_starts.1 hm
  exact ⟨ds, b, es, rfl, hds, hb⟩

/-- The block at `x` is taken: it leaves the free list, and its rest is the new head. -/
theorem HeapInv.allocAt_links (I : HeapInv c h bs) (hl : FreeLinks h (ys ++ x :: zs)) (hs : size ≤ h.memitemSize c x) :
    (∀ y ∈ ys ++ zs, (h.allocAt c size x).memitemSize c y = h.memitemSize c y) ∧
    (size + c.memheapSize + c.minialloc ≤ h.memitemSize c x ∧
        (∃ n, FreeLinks (h.allocAt c size x) (n :: (ys ++ zs)) ∧
          (h.allocAt c size x).memitemSize c n = h.memitemSize c x - (size + c.memheapSize)) ∨
      h.memitemSize c x < size + c.memheapSize + c.minialloc ∧ FreeLinks (h.allocAt c size x) (ys ++ zs)) := by
  obtain ⟨ds, b, es, rfl, hx, hb⟩ := I.exists_free hl (x := x) (by simp)
  have hH := c.memheapSize_pos
  have hmin := c.minialloc_le
  have hroom := I.room
  have hlt := I.poolSize_lt
  obtain ⟨hnext, -, -, hend⟩ := I.item_eq hx
  have hbs := I.header b (by simp)
  have hsize := I.memitemSize_eq hx
  have hp := (I.available_eq hl).2
  have hnd : x ∉ ys ++ zs := by
    have hnd := (List.perm_middle (a := x)).nodup_iff.1 (List.nodup_cons.1 hl.nodup).2
    exact (List.nodup_cons.1 hnd).1
  unfold Memheap.allocAt
  dsimp only
  rw [hsize] at hs ⊢
  rw [Word.add_eq (a := size) (by omega), Word.add_eq (by omega)]
  split
  next hsplit =>
    have hnew : c.add (c.add x size) c.memheapSize = x + (size + c.memheapSize) := by
      rw [Word.add_eq (a := x) (by omega), Word.add_eq (by omega), Nat.add_assoc]
    rw [hnew]
    have hnot : x + (size + c.memheapSize) ∉ h.freeList :: (ys ++ x :: zs) :=
      I.not_mem hp hx (by omega) (by omega)
    have hnot' : x + (size + c.memheapSize) ∉ h.freeList :: (ys ++ zs) := fun hm => by
      refine hnot (List.cons_subset_cons _ ?_ hm)
      exact (List.Sublist.append_left (List.sublist_cons_self x zs) ys).subset
    have hl1 := (hl.insertBlock (c := c) x (x + (size + c.memheapSize))).takeFree (c := c)
    have hl2 := (hl1.1.insertFree (c := c) (by rw [hl1.2.freeList]; exact hnot')).1
    -- The ends of the blocks, up to the mark.
    have hends (y : Nat) : ((((h.insertBlock c x (x + (size + c.memheapSize))).takeFree c x).insertFree c
        (x + (size + c.memheapSize))).item y).next = if y = x then x + (size + c.memheapSize)
          else if y = x + (size + c.memheapSize) then x + b.size else (h.item y).next := by
      rw [next_insertFree, next_takeFree, next_insertBlock, hnext]
    generalize ((h.insertBlock c x (x + (size + c.memheapSize))).takeFree c x).insertFree c
      (x + (size + c.memheapSize)) = h3 at *
    generalize c.sub (c.sub h3.availableSize size) c.memheapSize = k
    have hends' (y : Nat) : (((h3.setAvailable c k).modItem c x fun i =>
        { i with magic := memheapMagic ||| memheapUsed }).item y).next = (h3.item y).next := by
      refine modItem_field MemheapItem.next ?_ y
      exact fun _ => rfl
    refine ⟨fun y hy => ?_, .inl ⟨hsplit, x + (size + c.memheapSize), ?_, ?_⟩⟩
    · have hyx : y ≠ x := fun e => hnd (e ▸ hy)
      have hyn : y ≠ x + (size + c.memheapSize) := fun e => hnot' (List.mem_cons_of_mem _ (e ▸ hy))
      apply memitemSize_congr
      rw [hends', hends, if_neg hyx, if_neg hyn]
    · have hl3 : FreeLinks (h3.setAvailable c k) ((x + (size + c.memheapSize)) :: (ys ++ zs)) := hl2
      exact hl3.modItem x (fun _ => rfl) fun _ => rfl
    · have h1 : c.sub (x + b.size) (x + (size + c.memheapSize)) = b.size - (size + c.memheapSize) :=
        (Word.sub_eq (by omega) (by omega)).trans (by omega)
      have h2 : c.sub (b.size - (size + c.memheapSize)) c.memheapSize = b.size - c.memheapSize - (size + c.memheapSize) :=
        (Word.sub_eq (by omega) (by omega)).trans (by omega)
      rw [memitemSize, hends', hends, if_neg (by omega), if_pos rfl, h1, h2]
  next hsplit =>
    generalize c.sub h.availableSize (b.size - c.memheapSize) = k
    have hl1 : FreeLinks (h.setAvailable c k) (ys ++ x :: zs) := hl
    refine ⟨fun y hy => ?_, .inr ⟨by omega, (hl1.takeFree (c := c)).1.modItem x (fun _ => rfl) fun _ => rfl⟩⟩
    apply memitemSize_congr
    refine (modItem_field MemheapItem.next ?_ y).trans (next_takeFree c _ x y)
    exact fun _ => rfl

/-- `rt_memheap_alloc` keeps the order unless it puts too large a rest at the head. -/
theorem HeapInv.alloc_sorted_iff (I : HeapInv c h bs) (hs : Sorted c h) (size : Nat) :
    Sorted c (h.rtMemheapAlloc c size).1 ↔ ¬AllocMisplaces c h size := by
  obtain ⟨fs, hl, hso⟩ := hs
  unfold Memheap.rtMemheapAlloc AllocMisplaces
  dsimp only
  split
  swap
  next hav => exact iff_of_true ⟨fs, hl, hso⟩ fun hm => hav hm.1
  next hav =>
    split
    next hf =>
      -- Every block is too small.
      refine iff_of_true ⟨fs, hl, hso⟩ ?_
      rintro ⟨-, ys, x, zs, hl', -, hx, -⟩
      obtain rfl : fs = ys ++ x :: zs := Ring.unique hl hl'
      rcases @findFit_spec c h _ (request c size) [] _ _ hl hl.first (I.free_length_lt (I.available_eq hl).2) with
        ⟨z, -, he, -⟩ | ⟨-, hall⟩
      · rw [hf] at he
        cases he
      · have := hall x (by simp)
        omega
    next x hf =>
      have hl0 : FreeLinks h ([] ++ fs) := hl
      obtain ⟨ys, zs, he, hys, hx⟩ := findFit_first hl0 hl.first hf nofun
      obtain rfl : fs = ys ++ x :: zs := he
      -- Any two blocks that are first and large enough are of one size.
      have hfirst {ys' zs' : List Nat} {x' : Nat} (hl' : FreeLinks h (ys' ++ x' :: zs'))
          (hys' : ∀ y ∈ ys', h.memitemSize c y < request c size) (hx' : request c size ≤ h.memitemSize c x') :
          h.memitemSize c x' = h.memitemSize c x ∧ ∀ y ∈ ys', y ∈ ys ++ zs := by
        have he' : ys ++ x :: zs = ys' ++ x' :: zs' := Ring.unique hl hl'
        have hso' := hso
        rw [he'] at hso'
        have h1 := hso.first_le hys (z := x') (by rw [he']; simp) hx'
        have h2 := hso'.first_le hys' (z := x) (by rw [← he']; simp) hx
        refine ⟨Nat.le_antisymm h2 h1, fun y hy => ?_⟩
        have hm : y ∈ ys ++ x :: zs := by rw [he']; exact List.mem_append_left _ hy
        rcases List.mem_append.1 hm with hm | hm
        · exact List.mem_append_left _ hm
        · rcases List.mem_cons.1 hm with rfl | hm
          · exact absurd (hys' y hy) (Nat.not_lt.2 hx)
          · exact List.mem_append_right _ hm
      obtain ⟨hsame, ⟨hsplit, n, hl1, hn⟩ | ⟨hsplit, hl1⟩⟩ := I.allocAt_links hl hx
      · have hso1 := (SortedBy.congr hsame).2 hso.remove
        rw [sorted_iff hl1, SortedBy.cons_iff hso1, hn]
        constructor
        · rintro hle ⟨-, ys', x', zs', hl', hys', hx', y, hy, hlt⟩
          obtain ⟨hsz, hmem⟩ := hfirst hl' hys' (by omega)
          have := hle y (hmem y hy)
          rw [hsame y (hmem y hy)] at this
          omega
        · intro hn' y hy
          rw [hsame y hy]
          rcases List.mem_append.1 hy with hy | hy
          · by_contra hlt
            exact hn' ⟨hav, ys, x, zs, hl, hys, hsplit, y, hy, Nat.lt_of_not_le hlt⟩
          · have := (List.pairwise_cons.1 (SortedBy.append_iff.1 hso).2.1).1 y hy
            omega
      · refine iff_of_true ⟨_, hl1, (SortedBy.congr hsame).2 hso.remove⟩ ?_
        rintro ⟨-, ys', x', zs', hl', hys', hx', -⟩
        have := (hfirst hl' hys' (by omega)).1
        omega

/-! ## `rt_memheap_free` -/

/-- The end of the block `x`, with the free one behind it. -/
def stop (h : Memheap) (x : Nat) : Nat :=
  let nextPtr := (h.item x).next
  if (h.item nextPtr).isUsed then nextPtr else (h.item nextPtr).next

/-- The block before `x` is free, and with `x` and the free one behind it it is larger than a block behind it on the list. -/
def FreeMisplaces (c : MemheapConfig) (h : Memheap) (x : Nat) : Prop :=
  ∃ ys zs, FreeLinks h (ys ++ (h.item x).prev :: zs) ∧ ∃ y ∈ zs, y ≠ (h.item x).next ∧
    h.memitemSize c y < c.sub (c.sub (h.stop x) (h.item x).prev) c.memheapSize

theorem HeapInv.isUsed_of_mem (I : HeapInv c h bs) (hl : FreeLinks h fs) (hx : x ∈ fs) : (h.item x).isUsed = false := by
  obtain ⟨ds, b, es, rfl, hds, hb⟩ := I.exists_free hl hx
  rw [(I.item_eq hds).2.1, hb]

/-- The free block behind a block is on the free list. -/
theorem HeapInv.next_mem (I : HeapInv c h (ds ++ b :: es)) (hl : FreeLinks h fs) (hx : x = h.startAddr + extent ds) :
    (h.item (h.item x).next).isUsed = false ↔ (h.item x).next ∈ fs := by
  refine ⟨fun hf => ?_, I.isUsed_of_mem hl⟩
  have hused := (I.next_item hx).1
  rw [(I.item_eq hx).1] at hf ⊢
  rw [hf] at hused
  cases es with
  | nil => cases hused
  | cons e es =>
    refine (I.available_eq hl).2.mem_iff.2 (mem_freeStarts.2 ⟨e, mem_starts.2 ⟨ds ++ [b], es, by simp, ?_⟩, hused.symm⟩)
    simp [hx, Nat.add_assoc]

/-- The free block before a block is on the free list. -/
theorem HeapInv.prev_mem (I : HeapInv c h (ds ++ b :: es)) (hl : FreeLinks h fs) (hx : x = h.startAddr + extent ds)
    (hf : (h.item (h.item x).prev).isUsed = false) :
    (h.item x).prev ∈ fs ∧ (h.item (h.item x).prev).next = x ∧ (h.item x).prev + c.memheapSize ≤ x := by
  have hprev := I.prev_item hx
  rcases List.eq_nil_or_concat ds with rfl | ⟨ds, d, rfl⟩
  · rw [hprev] at hf
    exact absurd (I.tail_item.1.symm.trans hf) (by simp)
  · rw [List.concat_eq_append] at *
    have hd : (h.item x).prev = h.startAddr + extent ds := by
      rw [hprev, last_append]
      rfl
    have I' : HeapInv c h (ds ++ d :: b :: es) := by simpa using I
    obtain ⟨hnext, hused, -⟩ := I'.item_eq hd
    have hdu : d.used = false := hused.symm.trans hf
    have hbs := I'.header d (by simp)
    have hxd : (h.item x).prev + d.size = x := by
      rw [hd, hx]
      simp [Nat.add_assoc]
    refine ⟨(I.available_eq hl).2.mem_iff.2 (mem_freeStarts.2 ⟨d, mem_starts.2 ⟨ds, b :: es, ?_, hd⟩, hdu⟩), ?_, by omega⟩
    · simp
    · rw [hnext, hxd]

theorem HeapInv.prev_ne (I : HeapInv c h (ds ++ b :: es)) (hx : x = h.startAddr + extent ds) : (h.item x).prev ≠ x := by
  have hH := c.memheapSize_pos
  rw [I.prev_item hx]
  rcases List.eq_nil_or_concat ds with rfl | ⟨ds, d, rfl⟩
  · have hbs := I.header b (by simp)
    simp only [last, List.nil_append, extent_cons, extent_nil] at hx ⊢
    omega
  · have hds := I.header d (by simp)
    rw [List.concat_eq_append] at *
    rw [last_append, hx]
    simp only [last, extent_append, extent_cons, extent_nil]
    omega

/-- The end of a block is behind it, within the pool. -/
theorem Tiling.stop_spec (T : Tiling c h (ds ++ b :: es)) (hx : x = h.startAddr + extent ds) :
    x + b.size ≤ h.stop x ∧ h.stop x + c.memheapSize ≤ h.startAddr + h.poolSize := by
  obtain ⟨hnext, -, -, hend⟩ := T.item_eq hx
  unfold stop
  dsimp only
  rw [hnext]
  split
  · exact ⟨Nat.le_refl _, hend⟩
  next hf =>
    cases es with
    | nil => exact absurd (T.next_item hx).1 hf
    | cons e es =>
      have T' : Tiling c h ((ds ++ [b]) ++ e :: es) := by simpa using T
      obtain ⟨hn, -, -, he⟩ := T'.item_eq (x := x + b.size) (by simp [hx, Nat.add_assoc])
      omega

/-- The block `x` takes over the one behind it if that is free, which leaves the free list. -/
theorem FreeLinks.joinNext (hl : FreeLinks h fs) (x k : Nat)
    (hn : (h.item (h.item x).next).isUsed = false ↔ (h.item x).next ∈ fs) (hj : h' =
      if (h.item (h.item x).next).isUsed then h else { h with availableSize := k }.mergeNext c x (h.item x).next) :
    FreeLinks h' (fs.filter (· ≠ (h.item x).next)) ∧ (∀ y, (h'.item y).next = if y = x then h.stop x else (h.item y).next) ∧
      h'.freeList = h.freeList ∧ h'.poolSize = h.poolSize := by
  unfold stop
  dsimp only
  subst hj
  split
  next hu =>
    have hnot : (h.item x).next ∉ fs := fun hm => by
      rw [hn.2 hm] at hu
      cases hu
    have he : fs.filter (· ≠ (h.item x).next) = fs := List.filter_eq_self.2 fun y hy => by
      have hne : y ≠ (h.item x).next := fun e => hnot (e ▸ hy)
      simpa using hne
    rw [he]
    refine ⟨hl, fun y => ?_, rfl, rfl⟩
    split
    · rename_i hy
      rw [hy]
    · rfl
  next hu =>
    have hl' : FreeLinks { h with availableSize := k } fs := hl
    have hm : (h.item x).next ∈ fs := hn.1 (by simpa using hu)
    exact ⟨hl'.mergeNext hm x, fun y => next_mergeNext c _ x _ y, rfl, rfl⟩

/-- A heap with the items of another one, up to the mark of the block `x` and the counter. -/
structure Marked (h : Memheap) (x : Nat) (h1 : Memheap) : Prop where
  freeList : h1.freeList = h.freeList
  poolSize : h1.poolSize = h.poolSize
  next : ∀ y, (h1.item y).next = (h.item y).next
  prev : ∀ y, (h1.item y).prev = (h.item y).prev
  nextFree : ∀ y, (h1.item y).nextFree = (h.item y).nextFree
  prevFree : ∀ y, (h1.item y).prevFree = (h.item y).prevFree
  isUsed : ∀ y, y ≠ x → (h1.item y).isUsed = (h.item y).isUsed

theorem marked (c : MemheapConfig) (h : Memheap) (x m n : Nat) :
    Marked h x { h.modItem c x fun i => { i with magic := m } with availableSize := n } := by
  have hne (y : Nat) (hy : y ≠ x) :
      (h.modItem c x fun i => { i with magic := m }).item y = h.item y := modItem_ne hy
  generalize hf : (fun i : MemheapItem => { i with magic := m }) = f at *
  have h1 (i : MemheapItem) : (f i).next = i.next ∧ (f i).prev = i.prev ∧ (f i).nextFree = i.nextFree ∧
      (f i).prevFree = i.prevFree := by
    subst hf
    exact ⟨rfl, rfl, rfl, rfl⟩
  exact ⟨rfl, rfl, modItem_field MemheapItem.next fun i => (h1 i).1, modItem_field MemheapItem.prev fun i => (h1 i).2.1,
    modItem_field MemheapItem.nextFree fun i => (h1 i).2.2.1, modItem_field MemheapItem.prevFree fun i => (h1 i).2.2.2,
    fun y hy => congrArg MemheapItem.isUsed (hne y hy)⟩

/-- `rt_memheap_free` works on the marked heap. -/
theorem freeItem_eq (c : MemheapConfig) (h : Memheap) (x : Nat) : ∃ h1, Marked h x h1 ∧ h.freeItem c x =
    if (h1.item (h1.item x).prev).isUsed then
      let h := if (h1.item (h1.item x).next).isUsed then h1 else h1.mergeRight c x
      h.insertFreeBefore c x (h.place c x)
    else
      let h := h1.mergeLeft c x
      if (h.item (h.item (h1.item x).prev).next).isUsed then h else h.mergeRight c (h1.item x).prev :=
  ⟨_, marked c h x _ _, rfl⟩

theorem Marked.freeLinks {h1 : Memheap} (M : Marked h x h1) (hl : FreeLinks h fs) : FreeLinks h1 fs :=
  hl.congr M.freeList M.nextFree M.prevFree

section

variable (I : HeapInv c h (ds ++ b :: es)) (hx : x = h.startAddr + extent ds)

include I hx

/-- A freed block behind a used one is put at its place. -/
theorem HeapInv.freeItem_of_used (hb : b.used = true)
    (hbest : c.bestMode = true) (hs : Sorted c h) (hp : (h.item (h.item x).prev).isUsed = true) :
    Sorted c (h.freeItem c x) := by
  obtain ⟨fs, hl, hso⟩ := hs
  obtain ⟨h1, M, he⟩ := freeItem_eq c h x
  have hH := c.memheapSize_pos
  have hbs := I.header b (by simp)
  have hnext := (I.item_eq hx).1
  have hlen := I.free_length_lt (I.available_eq hl).2
  have hnot := I.not_mem_used (I.available_eq hl).2 hx hb
  have hnx : (h.item x).next ≠ x := by omega
  have hpx : (h1.item (h1.item x).prev).isUsed = true := by rw [M.prev, M.isUsed _ (I.prev_ne hx), hp]
  rw [he, if_pos hpx]
  generalize hj : (if (h1.item (h1.item x).next).isUsed then h1 else h1.mergeRight c x) = h2
  obtain ⟨hl2, hends, hfree, hpool⟩ := (M.freeLinks hl).joinNext (c := c) x (c.add h1.availableSize c.memheapSize)
    (by rw [M.next, M.isUsed _ hnx]; exact I.next_mem hl hx) hj.symm
  have hsub : (fs.filter (· ≠ (h1.item x).next)).Sublist fs := List.filter_sublist
  have hso2 : SortedBy (h2.memitemSize c) (fs.filter (· ≠ (h1.item x).next)) := by
    refine (SortedBy.congr fun y hy => ?_).2 (hso.sublist hsub)
    have hyx : y ≠ x := fun e => hnot (List.mem_cons_of_mem _ (e ▸ hsub.subset hy))
    apply memitemSize_congr
    rw [hends, if_neg hyx, M.next]
  generalize fs.filter (· ≠ (h1.item x).next) = gs at *
  have hplace : ∃ ys zs, gs = ys ++ zs ∧ (zs ++ [h2.freeList]).head? = some (h2.place c x) ∧
      (∀ y ∈ ys, h2.memitemSize c y < h2.memitemSize c x) ∧ ∀ z ∈ zs.head?, h2.memitemSize c x ≤ h2.memitemSize c z := by
    have hl0 : FreeLinks h2 ([] ++ gs) := hl2
    have hfuel : gs.length < h2.poolSize + 1 := by
      rw [hpool, M.poolSize]
      exact Nat.lt_of_le_of_lt hsub.length_le hlen
    unfold place
    rw [if_pos hbest]
    exact findPlace_first hl0 hl2.first hfuel nofun
  obtain ⟨ys, zs, rfl, hn, hys, hzs⟩ := hplace
  have hnot2 : x ∉ h2.freeList :: (ys ++ zs) := fun hm => by
    rw [hfree, M.freeList] at hm
    exact hnot (List.cons_subset_cons _ hsub.subset hm)
  refine ⟨_, (hl2.insertFreeBefore hnot2 hn).1, ?_⟩
  refine (SortedBy.congr fun y _ => memitemSize_congr (next_insertFreeBefore c h2 x _ y)).2 ?_
  exact hso2.insert (fun y hy => Nat.le_of_lt (hys y hy)) hzs

/-- A freed block behind a free one is taken over by that, which stays where it is on the list. -/
theorem HeapInv.freeItem_of_free (hl : FreeLinks h (ys ++ (h.item x).prev :: zs)) :
    FreeLinks (h.freeItem c x) ((ys ++ (h.item x).prev :: zs).filter (· ≠ (h.item x).next)) ∧
      ∀ y, ((h.freeItem c x).item y).next = if y = (h.item x).prev then h.stop x else (h.item y).next := by
  have hp : (h.item (h.item x).prev).isUsed = false := I.isUsed_of_mem hl (by simp)
  obtain ⟨-, -, hpx⟩ := I.prev_mem hl hx hp
  obtain ⟨h1, M, he⟩ := freeItem_eq c h x
  have hH := c.memheapSize_pos
  have hbs := I.header b (by simp)
  have hnext := (I.item_eq hx).1
  have hnx : (h.item x).next ≠ x := by omega
  have hnp : (h.item x).next ≠ (h.item x).prev := by omega
  have hpx' : ¬(h1.item (h1.item x).prev).isUsed = true := by
    rw [M.prev, M.isUsed _ (I.prev_ne hx), hp]
    exact nofun
  rw [he, if_neg hpx', M.prev]
  have hl2 := (M.freeLinks hl).mergeLeft (c := c) x
  have hends (y : Nat) : ((h1.mergeLeft c x).item y).next =
      if y = (h.item x).prev then (h.item x).next else (h.item y).next := by
    rw [next_mergeLeft, M.prev, M.next, M.next]
  have hused (y : Nat) : ((h1.mergeLeft c x).item y).isUsed = (h1.item y).isUsed := by
    refine (modItem_field MemheapItem.isUsed ?_ y).trans (modItem_field MemheapItem.isUsed ?_ y) <;> exact fun _ => rfl
  generalize h1.mergeLeft c x = h2 at *
  generalize hpe : (h.item x).prev = p at *
  have hn2 : (h2.item p).next = (h.item x).next := by rw [hends, if_pos rfl]
  have hstop : h2.stop p = h.stop x := by
    unfold stop
    dsimp only
    rw [hn2, hused, M.isUsed _ hnx, hends, if_neg hnp]
  generalize hj : (if (h2.item (h2.item p).next).isUsed then h2 else h2.mergeRight c p) = h3
  obtain ⟨hl3, hends3, -⟩ := hl2.joinNext (c := c) p (c.add h2.availableSize c.memheapSize)
    (by rw [hn2, hused, M.isUsed _ hnx]; exact I.next_mem hl hx) hj.symm
  rw [hn2] at hl3
  refine ⟨hl3, fun y => ?_⟩
  rw [hends3, hstop, hends]
  split <;> rfl

/-- `rt_memheap_free` keeps the order unless the block before takes over the freed one and becomes too large. -/
theorem HeapInv.freeItem_sorted_iff
    (hb : b.used = true) (hbest : c.bestMode = true) (hs : Sorted c h) :
    Sorted c (h.freeItem c x) ↔ ¬FreeMisplaces c h x := by
  by_cases hp : (h.item (h.item x).prev).isUsed = true
  · refine iff_of_true (I.freeItem_of_used hx hb hbest hs hp) ?_
    rintro ⟨ys, zs, hl, -⟩
    have hu := I.isUsed_of_mem hl (x := (h.item x).prev) (by simp)
    rw [hp] at hu
    cases hu
  · obtain ⟨fs, hl, hso⟩ := hs
    have hH := c.memheapSize_pos
    have hroom := I.room
    have hstop := I.stop_spec hx
    obtain ⟨hpm, hpn, hpx⟩ := I.prev_mem hl hx (by simpa using hp)
    obtain ⟨ys, zs, rfl⟩ := List.append_of_mem hpm
    obtain ⟨hl', hends⟩ := I.freeItem_of_free hx hl
    generalize h.freeItem c x = h' at *
    unfold FreeMisplaces
    have hnp : (h.item x).next ≠ (h.item x).prev := by
      have := (I.item_eq hx).1
      omega
    generalize (h.item x).prev = p at *
    have hfil : (ys ++ p :: zs).filter (· ≠ (h.item x).next) =
        ys.filter (· ≠ (h.item x).next) ++ p :: zs.filter (· ≠ (h.item x).next) := by
      rw [List.filter_append, List.filter_cons_of_pos (by simpa using hnp.symm)]
    have hso' := hso.sublist (List.filter_sublist (p := (· ≠ (h.item x).next)))
    rw [hfil] at hl' hso'
    have hnd := (List.nodup_cons.1 ((List.perm_middle (a := p)).nodup_iff.1 (List.nodup_cons.1 hl.nodup).2)).1
    have hsize (y : Nat) (hy : y ∈ ys ++ zs) : h'.memitemSize c y = h.memitemSize c y := by
      have hyp : y ≠ p := fun e => hnd (e ▸ hy)
      apply memitemSize_congr
      rw [hends, if_neg hyp]
    have hsize' : h'.memitemSize c p = c.sub (c.sub (h.stop x) p) c.memheapSize := by rw [memitemSize, hends, if_pos rfl]
    have hge : h.memitemSize c p ≤ h'.memitemSize c p := by
      have h1 : c.sub x p = x - p := Word.sub_eq (by omega) (by omega)
      have h2 : c.sub (x - p) c.memheapSize = x - p - c.memheapSize := Word.sub_eq (by omega) (by omega)
      have h3 : c.sub (h.stop x) p = h.stop x - p := Word.sub_eq (by omega) (by omega)
      have h4 : c.sub (h.stop x - p) c.memheapSize = h.stop x - p - c.memheapSize := Word.sub_eq (by omega) (by omega)
      rw [hsize', memitemSize, hpn, h1, h2, h3, h4]
      omega
    have hmem (y : Nat) (hy : y ∈ ys.filter (· ≠ (h.item x).next) ++ zs.filter (· ≠ (h.item x).next)) : y ∈ ys ++ zs := by
      rw [← List.filter_append] at hy
      exact (List.mem_filter.1 hy).1
    rw [sorted_iff hl', SortedBy.raise_iff hso' (fun y hy => hsize y (hmem y hy)) hge, hsize']
    constructor
    · rintro hle ⟨ys', zs', hl2, y, hy, hyn, hlt⟩
      obtain ⟨-, rfl⟩ : ys = ys' ∧ zs = zs' := by
        have he : ys ++ p :: zs = ys' ++ p :: zs' := Ring.unique hl hl2
        have hys : p ∉ ys := fun hm => hnd (List.mem_append_left _ hm)
        have hzs : p ∉ zs := fun hm => hnd (List.mem_append_right _ hm)
        obtain ⟨h1, -, h2⟩ := (List.append_cons_inj_of_notMem hys hzs).1 he
        exact ⟨h1, h2⟩
      have hle' := hle y (List.mem_filter.2 ⟨hy, by simpa using hyn⟩)
      rw [hsize y (List.mem_append_right _ hy)] at hle'
      omega
    · intro hno z hz
      obtain ⟨hz, hzn⟩ := List.mem_filter.1 hz
      rw [hsize z (List.mem_append_right _ hz)]
      by_contra hlt
      exact hno ⟨ys, zs, hl, z, hz, by simpa using hzn, Nat.lt_of_not_le hlt⟩

end

/-- The contents of the blocks do not matter for the order. -/
theorem sorted_congr (hf : h'.freeList = h.freeList) (hi : ∀ y, h'.item y = h.item y) : Sorted c h' ↔ Sorted c h := by
  have hlinks (fs : List Nat) : FreeLinks h' fs ↔ FreeLinks h fs :=
    ⟨fun hl => hl.congr hf.symm (fun y => by rw [hi]) fun y => by rw [hi],
      fun hl => hl.congr hf (fun y => by rw [hi]) fun y => by rw [hi]⟩
  have hsize (y : Nat) : h'.memitemSize c y = h.memitemSize c y := memitemSize_congr (by rw [hi])
  unfold Sorted
  simp only [hlinks, SortedBy.congr fun y _ => hsize y]

theorem freeMisplaces_congr (hf : h'.freeList = h.freeList) (hi : ∀ y, h'.item y = h.item y) :
    FreeMisplaces c h' x ↔ FreeMisplaces c h x := by
  have hlinks (fs : List Nat) : FreeLinks h' fs ↔ FreeLinks h fs :=
    ⟨fun hl => hl.congr hf.symm (fun y => by rw [hi]) fun y => by rw [hi],
      fun hl => hl.congr hf (fun y => by rw [hi]) fun y => by rw [hi]⟩
  unfold FreeMisplaces memitemSize stop
  simp only [hlinks, hi]

/-- `rt_memheap_free` of a used block. -/
theorem HeapInv.free_sorted_iff (I : HeapInv c h bs) (hm : (x, b) ∈ usedBlocks h.startAddr bs) (hbest : c.bestMode = true)
    (hs : Sorted c h) (he : Memheap.rtMemheapFree c h (some (x + c.memheapSize)) = some h') :
    Sorted c h' ↔ ¬FreeMisplaces c h (memitem c (x + c.memheapSize)) := by
  obtain ⟨hms, hb⟩ := mem_usedBlocks.1 hm
  obtain ⟨ds, es, rfl, hx⟩ := mem_starts.1 hms
  unfold Memheap.rtMemheapFree at he
  dsimp only at he
  rw [I.memitem_eq hx] at he ⊢
  split at he
  · cases he
    exact I.freeItem_sorted_iff hx hb hbest hs
  · cases he

/-! ## `rt_memheap_realloc` -/

/-- The block `x` is cut or expanded to `newsize` bytes, and what remains of it and of the free block behind it is larger
than another free block. -/
def RestMisplaces (c : MemheapConfig) (h : Memheap) (x newsize : Nat) : Prop :=
  ∃ fs, FreeLinks h fs ∧ ∃ y ∈ fs, y ≠ (h.item x).next ∧
    h.memitemSize c y < c.sub (c.sub (h.stop x) (x + (newsize + c.memheapSize))) c.memheapSize

/-- The rest of a block is at the head of the free list, and the block behind it is no longer on the list. -/
structure Rest (c : MemheapConfig) (h : Memheap) (x n : Nat) (fs : List Nat) (h' : Memheap) : Prop where
  links : FreeLinks h' (n :: fs.filter (· ≠ (h.item x).next))
  next : (h'.item n).next = h.stop x
  other : ∀ y ∈ fs, (h'.item y).next = (h.item y).next

theorem Rest.sorted_iff (R : Rest c h x (x + (newsize + c.memheapSize)) fs h') (hl : FreeLinks h fs) (hs : Sorted c h) :
    Sorted c h' ↔ ¬RestMisplaces c h x newsize := by
  have hso := (Memheap.sorted_iff hl).1 hs
  have hsize (y : Nat) (hy : y ∈ fs) : h'.memitemSize c y = h.memitemSize c y := memitemSize_congr (R.other y hy)
  have hsub : (fs.filter (· ≠ (h.item x).next)).Sublist fs := List.filter_sublist
  have hso' : SortedBy (h'.memitemSize c) (fs.filter (· ≠ (h.item x).next)) :=
    (SortedBy.congr fun y hy => hsize y (hsub.subset hy)).2 (hso.sublist hsub)
  rw [Memheap.sorted_iff R.links, SortedBy.cons_iff hso', memitemSize, R.next]
  constructor
  · rintro hle ⟨fs', hl', y, hy, hyn, hlt⟩
    obtain rfl : fs = fs' := Ring.unique hl hl'
    have hle' := hle y (List.mem_filter.2 ⟨hy, by simpa using hyn⟩)
    rw [hsize y hy] at hle'
    omega
  · intro hno y hy
    obtain ⟨hy, hyn⟩ := List.mem_filter.1 hy
    rw [hsize y hy]
    by_contra hlt
    exact hno ⟨fs, hl, y, hy, by simpa using hyn, Nat.lt_of_not_le hlt⟩

/-- An address inside a used block is not on the free list, even after the block behind it has left. -/
theorem not_mem_filter {a : Nat} (hnot : n ∉ h.freeList :: fs) : n ∉ h.freeList :: fs.filter (· ≠ a) := fun hm =>
  hnot (List.cons_subset_cons _ List.filter_sublist.subset hm)

theorem HeapInv.shrink_rest (I : HeapInv c h (ds ++ b :: es)) (hx : x = h.startAddr + extent ds) (hb : b.used = true)
    (hle : newsize + c.memheapSize + c.memheapSize ≤ b.size) (hl : FreeLinks h fs) :
    Rest c h x (x + (newsize + c.memheapSize)) fs (h.shrink c x newsize) := by
  have hH := c.memheapSize_pos
  have hroom := I.room
  obtain ⟨hnext, -, -, hend⟩ := I.item_eq hx
  have hp := (I.available_eq hl).2
  have hnew : c.add (c.add x newsize) c.memheapSize = x + (newsize + c.memheapSize) := by
    rw [Word.add_eq (a := x) (by omega), Word.add_eq (by omega), Nat.add_assoc]
  have hnot := I.not_mem hp hx (show x < x + (newsize + c.memheapSize) by omega) (by omega)
  have hxfs : x ∉ fs := fun hm => I.not_mem_used hp hx hb (List.mem_cons_of_mem _ hm)
  unfold Memheap.shrink
  dsimp only
  rw [hnew]
  generalize hn : x + (newsize + c.memheapSize) = n at *
  have hnx : n ≠ x := by omega
  have hl1 := hl.insertBlock (c := c) x n
  have hends := next_insertBlock c h x n
  have hn1 : ((h.insertBlock c x n).item n).next = (h.item x).next := by rw [hends, if_neg hnx, if_pos rfl]
  have hused : ((h.insertBlock c x n).item (h.item x).next).isUsed = (h.item (h.item x).next).isUsed := by
    have h1 : (h.item x).next ≠ n := by omega
    have h2 : (h.item x).next ≠ x := by omega
    unfold Memheap.insertBlock
    dsimp only
    rw [modItem_ne h2]
    refine (modItem_field MemheapItem.isUsed ?_ _).trans ?_
    · exact fun _ => rfl
    · rw [modItem_ne h1]
  have hfree : (h.insertBlock c x n).freeList = h.freeList := rfl
  generalize h.insertBlock c x n = h1 at *
  have hstop : h1.stop n = h.stop x := by
    have h2 : (h.item x).next ≠ n := by omega
    have h3 : (h.item x).next ≠ x := by omega
    unfold stop
    dsimp only
    rw [hn1, hused, hends, if_neg h3, if_neg h2]
  generalize c.sub h1.availableSize (h1.memitemSize c (h1.item n).next) = k
  generalize hj : (if (h1.item (h1.item n).next).isUsed then h1
    else ({ h1 with availableSize := k } : Memheap).mergeNext c n (h1.item n).next) = h2
  obtain ⟨hl2, hends2, hfree2, -⟩ := hl1.joinNext n k (by rw [hn1, hused]; exact I.next_mem hl hx) hj.symm
  rw [hn1] at hl2
  have hnot2 : n ∉ h2.freeList :: fs.filter (· ≠ (h.item x).next) := by
    rw [hfree2, hfree]
    exact not_mem_filter hnot
  refine ⟨(hl2.insertFree hnot2).1, ?_, fun y hy => ?_⟩
  · refine (next_insertFree c h2 n n).trans ?_
    rw [hends2, if_pos rfl, hstop]
  · have hyn : y ≠ n := fun e => hnot (List.mem_cons_of_mem _ (e ▸ hy))
    have hyx : y ≠ x := fun e => hxfs (e ▸ hy)
    refine (next_insertFree c h2 n y).trans ?_
    rw [hends2, if_neg hyn, hends, if_neg hyx, if_neg hyn]

theorem HeapInv.grow_rest {b' : Block} (I : HeapInv c h (ds ++ b :: b' :: es)) (hx : x = h.startAddr + extent ds)
    (hb : b.used = true) (hb' : b'.used = false) (hlt : b.size < newsize + c.memheapSize)
    (hle : newsize + c.memheapSize + c.memheapSize ≤ b.size + b'.size) (hl : FreeLinks h fs) :
    Rest c h x (x + (newsize + c.memheapSize)) fs (h.grow c x (x + c.memheapSize) newsize) := by
  have hH := c.memheapSize_pos
  have hroom := I.room
  obtain ⟨hnext, -, -, -⟩ := I.item_eq hx
  have I' : HeapInv c h ((ds ++ [b]) ++ b' :: es) := by simpa using I
  have hx' : x + b.size = h.startAddr + extent (ds ++ [b]) := by simp [hx, Nat.add_assoc]
  obtain ⟨hnext', hused', -, hend'⟩ := I'.item_eq hx'
  have hprev' := (I.next_item hx).2.2
  have hp := (I.available_eq hl).2
  have hptr : c.add (x + c.memheapSize) newsize = x + (newsize + c.memheapSize) :=
    (Word.add_eq (by omega)).trans (by omega)
  have hxfs : x ∉ fs := fun hm => I.not_mem_used hp hx hb (List.mem_cons_of_mem _ hm)
  have hnot : x + (newsize + c.memheapSize) ∉ h.freeList :: fs :=
    I'.not_mem (by simpa using hp) hx' (by omega) (by omega)
  have hmem : (h.item x).next ∈ fs := (I.next_mem hl hx).1 (by rw [hnext, hused', hb'])
  have hstop : h.stop x = x + b.size + b'.size := by
    unfold stop
    dsimp only
    rw [hnext, hused', hb', if_neg (by simp), hnext']
  unfold Memheap.grow
  dsimp only
  rw [hptr]
  generalize hn : x + (newsize + c.memheapSize) = n at *
  generalize c.sub h.availableSize (c.sub newsize (h.memitemSize c x)) = k
  have hl0 : FreeLinks (h.setAvailable c k) fs := hl
  have hl1 := hl0.removeNextPtr (c := c) hmem
  have hends := next_removeNextPtr (n := (h.item x).next) c (h.setAvailable c k)
    (show (h.item (h.item x).next).next ≠ (h.item x).next by rw [hnext, hnext']; omega)
  have hi (y : Nat) : (h.setAvailable c k).item y = h.item y := rfl
  have hfree : ((h.setAvailable c k).removeNextPtr c (h.item x).next).freeList = h.freeList := rfl
  rw [hi]
  simp only [hi] at hends
  generalize (h.setAvailable c k).removeNextPtr c (h.item x).next = h1 at *
  have hends2 := next_insertBlock c h1 x n
  have hl2 := hl1.insertBlock (c := c) x n
  have hfree2 : (h1.insertBlock c x n).freeList = h1.freeList := rfl
  generalize h1.insertBlock c x n = h2 at *
  have hnot2 : n ∉ h2.freeList :: fs.filter (· ≠ (h.item x).next) := by
    rw [hfree2, hfree]
    exact not_mem_filter hnot
  have hpx : (h.item (h.item x).next).prev = x := by rw [hnext, hprev']
  refine ⟨(hl2.insertFree hnot2).1, ?_, fun y hy => ?_⟩
  · rw [next_insertFree, hends2, if_neg (by omega), if_pos rfl, hends, hpx, if_pos rfl, hnext, hnext', hstop]
  · have hyn : y ≠ n := fun e => hnot (List.mem_cons_of_mem _ (e ▸ hy))
    have hyx : y ≠ x := fun e => hxfs (e ▸ hy)
    rw [next_insertFree, hends2, if_neg hyx, if_neg hyn, hends, hpx, if_neg hyx]

/-- A reallocation that is neither done where the block is nor given up: it gets another block. -/
def Moves (c : MemheapConfig) (h : Memheap) (ptr newsize : Nat) : Prop :=
  newsize ≠ 0 ∧ h.memitemSize c (memitem c ptr) < request c newsize ∧
    h.canGrow c (memitem c ptr) (request c newsize) = false

/-- A reallocation of `ptr` where it is leaves a rest that is larger than another free block. -/
def ReallocMisplaces (c : MemheapConfig) (h : Memheap) (ptr newsize : Nat) : Prop :=
  (h.memitemSize c (memitem c ptr) < request c newsize ∨
    request c newsize + c.memheapSize + c.minialloc < h.memitemSize c (memitem c ptr)) ∧
  RestMisplaces c h (memitem c ptr) (request c newsize)

/-- `rt_memheap_realloc` of a block that stays where it is keeps the order unless the rest is too large. -/
theorem HeapInv.realloc_sorted_iff {r : Memheap × Option Nat} (I : HeapInv c h bs) (hm : (x, b) ∈ usedBlocks h.startAddr bs)
    (h0 : newsize ≠ 0) (hgrow : ¬Overgrows c h (x + c.memheapSize) newsize) (hmove : ¬Moves c h (x + c.memheapSize) newsize)
    (hs : Sorted c h) (hr : h.rtMemheapRealloc c (some (x + c.memheapSize)) newsize = some r) :
    Sorted c r.1 ↔ ¬ReallocMisplaces c h (x + c.memheapSize) newsize := by
  obtain ⟨hms, hb⟩ := mem_usedBlocks.1 hm
  obtain ⟨ds, es, rfl, hx⟩ := mem_starts.1 hms
  obtain ⟨fs, hl, -⟩ := id hs
  have hH := c.memheapSize_pos
  have hmin := c.minialloc_le
  have hps := I.poolSize_lt
  have hbH := I.header b (by simp)
  obtain ⟨hnext, -, -, hend⟩ := I.item_eq hx
  unfold ReallocMisplaces
  unfold Moves at hmove
  unfold Overgrows at hgrow
  unfold Memheap.rtMemheapRealloc at hr
  rw [if_neg h0] at hr
  dsimp only at hr
  rw [I.memitem_eq hx] at hmove hgrow hr ⊢
  rw [I.memitemSize_eq hx] at hmove hr ⊢
  split at hr
  next hold =>
    rw [if_pos (show x < (h.item x).next by omega)] at hr
    split at hr
    next hcan =>
      -- Into the free block behind it.
      cases hr
      have hfree : (h.item (h.item x).next).isUsed = false := by
        unfold canGrow at hcan
        rw [Bool.and_eq_true] at hcan
        simpa using hcan.1
      have hused := (I.next_item hx).1
      rw [← hnext, hfree] at hused
      have hle : request c newsize ≤ b.size - c.memheapSize + h.memitemSize c (h.item x).next := by
        rw [I.memitemSize_eq hx] at hgrow
        by_contra hlt
        exact hgrow ⟨h0, hcan, Nat.lt_of_not_le hlt⟩
      cases es with
      | nil => cases hused
      | cons e es =>
        have T : Tiling c h ((ds ++ [b]) ++ e :: es) := by simpa using I.toTiling
        rw [hnext, T.memitemSize_eq (by simp [hx, Nat.add_assoc])] at hle
        have R := I.grow_rest hx hb hused.symm (show b.size < request c newsize + c.memheapSize by omega) (by omega) hl
        rw [R.sorted_iff hl hs]
        simp [hold]
    next hcan => exact absurd ⟨h0, hold, by simpa using hcan⟩ hmove
  next hold =>
    split at hr
    next hkeep =>
      -- There is too little to give back.
      cases hr
      have h1 : c.add (request c newsize) c.memheapSize = request c newsize + c.memheapSize := Word.add_eq (by omega)
      rw [h1] at hkeep
      have h2 : c.add (request c newsize + c.memheapSize) c.minialloc ≤ request c newsize + c.memheapSize + c.minialloc :=
        Nat.mod_le _ _
      refine iff_of_true hs ?_
      rintro ⟨hlt, -⟩
      omega
    next hkeep =>
      cases hr
      have h1 : c.add (request c newsize) c.memheapSize = request c newsize + c.memheapSize := Word.add_eq (by omega)
      have h2 : c.add (request c newsize + c.memheapSize) c.minialloc = request c newsize + c.memheapSize + c.minialloc :=
        Word.add_eq (by omega)
      rw [h1, h2] at hkeep
      have R := I.shrink_rest hx hb (show request c newsize + c.memheapSize + c.memheapSize ≤ b.size by omega) hl
      rw [R.sorted_iff hl hs]
      simp [Nat.lt_of_not_le hkeep]

/-- A list whose first block is larger than the second one. -/
theorem not_sorted (hx : (h.item h.freeList).nextFree = x) (hxf : x ≠ h.freeList) (hy : (h.item x).nextFree = y)
    (hyf : y ≠ h.freeList) (hlt : h.memitemSize c y < h.memitemSize c x) : ¬Sorted c h := by
  rintro ⟨fs, hl, hso⟩
  have hfirst := hl.first
  rw [hx] at hfirst
  cases fs with
  | nil => exact hxf (by simpa using hfirst.symm)
  | cons a fs =>
    obtain rfl : a = x := by simpa using hfirst
    have hnext := FreeLinks.next (show FreeLinks h ([] ++ a :: fs) from hl)
    rw [hy] at hnext
    cases fs with
    | nil => exact hyf (by simpa using hnext.symm)
    | cons d fs =>
      obtain rfl : d = y := by simpa using hnext
      have hle := (List.pairwise_cons.1 hso).1 d List.mem_cons_self
      omega

/-- The block that `rt_memheap_alloc` takes is a smallest one of those that are large enough. -/
def BestFit (c : MemheapConfig) (h : Memheap) : Prop :=
  ∀ size p, (h.rtMemheapAlloc c size).2 = some p → ∃ fs, FreeLinks h fs ∧ ∃ x ∈ fs, p = c.add x c.memheapSize ∧
    request c size ≤ h.memitemSize c x ∧
    ∀ y ∈ fs, request c size ≤ h.memitemSize c y → h.memitemSize c x ≤ h.memitemSize c y

theorem Sorted.bestFit (hs : Sorted c h) : BestFit c h := by
  obtain ⟨fs, hl, hso⟩ := hs
  intro size p hp
  unfold Memheap.rtMemheapAlloc at hp
  dsimp only at hp
  split at hp
  next hav =>
    split at hp
    next hf => cases hp
    next x hf =>
      cases hp
      have hl0 : FreeLinks h ([] ++ fs) := hl
      obtain ⟨ys, zs, he, hys, hx⟩ := findFit_first hl0 hl.first hf nofun
      obtain rfl : fs = ys ++ x :: zs := he
      exact ⟨_, hl, x, by simp, rfl, hx, fun y hy hle => hso.first_le hys hy hle⟩
  next hav => cases hp

end Memheap

end RtThread
