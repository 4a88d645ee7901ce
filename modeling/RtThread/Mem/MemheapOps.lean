import RtThread.Mem.MemheapInv

/-!
# The operations of a memheap

`rt_memheap_alloc` and `rt_memheap_free` keep the invariant, and so does `rt_memheap_realloc` unless it expands a block
beyond the free one behind it (`Overgrows`). The used blocks change at one place only, and the data of a reallocated
block goes with it (`Moved`).
-/

namespace RtThread

open Tiles Rings

namespace Memheap

variable {c : MemheapConfig} {h h' h1 h2 : Memheap} {bs ds es cs' : List Block} {b b' : Block} {x y n size newsize : Nat}
  {xs ys zs fs : List Nat}

/-! ## `rt_memheap_alloc` -/

theorem FreeLinks.next (hl : FreeLinks h (ys ++ x :: zs)) : (zs ++ [h.freeList]).head? = some (h.item x).nextFree := by
  obtain ⟨u, v, -, hv, -, -⟩ := exists_around h (ys ++ [x]) zs
  have hl' : Ring (fun x => (h.item x).nextFree) (fun x => (h.item x).prevFree) h.freeList ((ys ++ [x]) ++ zs) := by
    rw [List.append_assoc]; exact hl
  have hx : (h.freeList :: (ys ++ [x])).getLast? = some x := by
    rw [← List.cons_append]; exact List.getLast?_concat
  rw [hv, ← (Ring.link hl' hx hv).1]

theorem FreeLinks.first (hl : FreeLinks h fs) : (fs ++ [h.freeList]).head? = some (h.item h.freeList).nextFree := by
  obtain ⟨u, v, hu, hv, -, -⟩ := exists_around h [] fs
  obtain rfl : h.freeList = u := by simpa using hu
  rw [hv, ← (Ring.link (show Ring _ _ _ ([] ++ fs) from hl) hu hv).1]

/-- The search finds the first block of the list that is large enough. -/
theorem findFit_spec {fuel : Nat} (hl : FreeLinks h (ys ++ zs)) (hn : (zs ++ [h.freeList]).head? = some n)
    (hf : zs.length < fuel) :
    (∃ x ∈ zs, h.findFit c size fuel n = some x ∧ size ≤ h.memitemSize c x) ∨
      (h.findFit c size fuel n = none ∧ ∀ x ∈ zs, h.memitemSize c x < size) := by
  induction fuel generalizing ys zs n with
  | zero => omega
  | succ fuel ih =>
    rw [findFit]
    cases zs with
    | nil =>
      obtain rfl : h.freeList = n := by simpa using hn
      exact .inr ⟨if_pos rfl, by simp⟩
    | cons z zs =>
      obtain rfl : z = n := by simpa using hn
      have hne : z ≠ h.freeList := by
        rintro rfl
        exact (List.nodup_cons.1 hl.nodup).1 (by simp)
      rw [if_neg hne]
      by_cases hs : size ≤ h.memitemSize c z
      · rw [if_pos hs]
        exact .inl ⟨z, by simp, rfl, hs⟩
      · rw [if_neg hs]
        have hl' : FreeLinks h ((ys ++ [z]) ++ zs) := by rw [List.append_assoc]; exact hl
        rcases ih hl' hl.next (by simpa using hf) with ⟨x, hx, he, hsx⟩ | ⟨he, hall⟩
        · exact .inl ⟨x, List.mem_cons_of_mem z hx, he, hsx⟩
        · refine .inr ⟨he, fun x hx => ?_⟩
          rcases List.mem_cons.1 hx with rfl | hx
          · exact Nat.lt_of_not_le hs
          · exact hall x hx

theorem setAvailable_maxUsed (hn : n ≤ h.poolSize) (hlt : h.poolSize < 2 ^ c.bits) (hmax : h.maxUsedSize ≤ h.poolSize) :
    (h.setAvailable c n).poolSize ≤ n + (h.setAvailable c n).maxUsedSize ∧
      (h.setAvailable c n).maxUsedSize ≤ (h.setAvailable c n).poolSize := by
  simp only [setAvailable, Word.sub_eq hn hlt]
  split <;> omega

/-- A free block, or a part of it, becomes the used block `(x, n)`. -/
structure Allocated (c : MemheapConfig) (h : Memheap) (bs : List Block) (x n : Nat) (h' : Memheap) (bs' : List Block) :
    Prop where
  inv : HeapInv c h' bs'
  frame : Frame c h h' (places c h bs ++ places c h bs')
  blocks : (usedBlocks h.startAddr bs').Perm ((x, ⟨n, true⟩) :: usedBlocks h.startAddr bs)

/-- The places before and behind the first part of a block that is split. -/
theorem split_subset_places (hx : x = h.startAddr + extent ds) (u v : Bool) :
    [x, x + n, x + b.size] ⊆
      places c h (ds ++ b :: es) ++ places c h (ds ++ ⟨n, u⟩ :: ⟨b.size - n, v⟩ :: es) := by
  intro y hy
  simp only [List.mem_cons, List.not_mem_nil, or_false] at hy
  rcases hy with rfl | rfl | rfl
  · exact List.mem_append_left _ (mem_places ds (b :: es) hx)
  · refine List.mem_append_right _ (mem_places_of (ds ++ [⟨n, u⟩]) (⟨b.size - n, v⟩ :: es) ?_ (by simp))
    simp [hx, Nat.add_assoc]
  · refine List.mem_append_left _ (mem_places_of (ds ++ [b]) es ?_ (by simp))
    simp [hx, Nat.add_assoc]

theorem HeapInv.allocAt (I : HeapInv c h (ds ++ b :: es)) (hx : x = h.startAddr + extent ds) (hb : b.used = false)
    (hs : size + c.memheapSize ≤ b.size) :
    ∃ n bs', size + c.memheapSize ≤ n ∧ Allocated c h (ds ++ b :: es) x n (h.allocAt c size x) bs' := by
  have hH := c.memheapSize_pos
  have hmin := c.minialloc_le
  have hext := I.extent_eq
  have hroom := I.room
  have hlt := I.poolSize_lt
  have hav := I.available
  have hfr := @freeRoom_le (ds ++ b :: es) c.memheapSize
  obtain ⟨-, -, -, hend⟩ := I.item_eq hx
  have hF := @freeStarts_append_cons _ _ es _ _ hx hb
  simp only [freeRoom_append, freeRoom_cons, hb, Bool.false_eq_true, if_false] at hav hfr
  have htake : (freeStarts h (ds ++ b :: es)).Perm (x :: (freeStarts h ds ++ (freeBlocks (x + b.size) es).map Prod.fst)) := by
    rw [hF]; exact List.perm_middle
  unfold Memheap.allocAt
  dsimp only
  rw [I.memitemSize_eq hx, Word.add_eq (a := size) (by omega), Word.add_eq (by omega)]
  split
  · -- The block is split.
    rename_i hsplit
    have hnew : c.add (c.add x size) c.memheapSize = x + (size + c.memheapSize) := by
      rw [Word.add_eq (a := x) (by omega), Word.add_eq (by omega), Nat.add_assoc]
    have hsub : c.sub (c.sub h.availableSize size) c.memheapSize = h.availableSize - (size + c.memheapSize) := by
      rw [Word.sub_eq (b := size) (by omega) (by omega), Word.sub_eq (by omega) (by omega), Nat.sub_sub]
    rw [hnew]
    generalize hn : size + c.memheapSize = n at *
    let bs' := ds ++ ⟨n, true⟩ :: ⟨b.size - n, false⟩ :: es
    have W1 := (I.loose (List.subset_append_left _ (places c h bs'))).insertBlock hx (n := n) (by omega) (by omega)
      (split_subset_places hx true false)
    have W2 := W1.takeFree htake
    have hnot : x + n ∉ h.freeList :: (freeStarts h ds ++ (freeBlocks (x + b.size) es).map Prod.fst) := by
      have hm := I.not_mem (List.Perm.refl _) hx (show x < x + n by omega) (by omega)
      intro hm'
      refine hm ((htake.cons _).mem_iff.2 ?_)
      exact List.cons_subset_cons _ (List.subset_cons_self _ _) hm'
    have W3 := W2.insertFree hnot (split_subset_places hx true false (by simp))
    have hmax := setAvailable_maxUsed (c := c) (n := h.availableSize - n) (by omega) hlt I.maxUsed
    generalize Memheap.insertFree c _ _ = h3 at *
    rw [W3.availableSize, hsub]
    have W4 := (W3.setAvailable (h.availableSize - n)).mark hx (.inl ⟨rfl, rfl⟩)
      (split_subset_places hx true false (by simp))
    refine ⟨n, bs', Nat.le_refl n, ⟨W4.heapInv I ?_ ?_ ?_ hmax.1 hmax.2, W4.frame, ?_⟩⟩
    · rw [freeStarts_append_cons_used hx rfl, freeBlocks_cons_free rfl, List.map_cons]
      rw [show x + n + (b.size - n) = x + b.size by omega]
      exact List.perm_middle.symm
    · exact I.merged.split_free hb _ _
    · simp only [freeRoom_append, freeRoom_cons, Bool.false_eq_true, if_true, if_false]
      omega
    · rw [usedBlocks_middle_used hx rfl, usedBlocks_cons_free rfl, usedBlocks_middle_free hx hb]
      rw [show x + n + (b.size - n) = x + b.size by omega]
      exact List.perm_middle
  · -- The whole block is taken.
    let bs' := ds ++ ⟨b.size, true⟩ :: es
    have hmem : x ∈ places c h (ds ++ b :: es) ++ places c h bs' := List.mem_append_left _ (mem_places ds (b :: es) hx)
    have hsub : c.sub h.availableSize (b.size - c.memheapSize) = h.availableSize - (b.size - c.memheapSize) :=
      Word.sub_eq (by omega) (by omega)
    rw [hsub]
    have W1 := (I.loose (List.subset_append_left _ (places c h bs'))).setAvailable
      (h.availableSize - (b.size - c.memheapSize))
    have W2 := (W1.takeFree htake).mark hx (.inl ⟨rfl, rfl⟩) hmem
    have hmax := setAvailable_maxUsed (c := c) (n := h.availableSize - (b.size - c.memheapSize)) (by omega) hlt I.maxUsed
    refine ⟨b.size, bs', hs, ⟨W2.heapInv I ?_ ?_ ?_ hmax.1 hmax.2, W2.frame, ?_⟩⟩
    · rw [freeStarts_append_cons_used hx rfl]
    · exact I.merged.mark_used _
    · simp only [freeRoom_append, freeRoom_cons, if_true]
      omega
    · rw [usedBlocks_middle_used hx rfl, usedBlocks_middle_free hx hb]
      exact List.perm_middle

theorem minialloc_le_request (c : MemheapConfig) (size : Nat) : c.minialloc ≤ request c size := by
  unfold request
  dsimp only
  split <;> omega

theorem request_request (c : MemheapConfig) (size : Nat) : request c (request c size) = request c size := by
  have h1 := c.rtAlign_rtAlign size
  have h2 : c.rtAlign c.minialloc = c.minialloc := c.rtAlign_rtAlign 12
  simp only [request]
  split <;> simp [*]

/-- The search has enough steps for the free list. -/
theorem HeapInv.free_length_lt {fs : List Nat} (I : HeapInv c h bs) (hp : fs.Perm (freeStarts h bs)) :
    fs.length < h.poolSize + 1 := by
  have h1 := hp.length_eq
  have h2 : (freeBlocks h.startAddr bs).length ≤ bs.length := by
    exact (List.length_filter_le _ _).trans (Nat.le_of_eq length_starts)
  have h3 := @length_le_extent bs fun b hb => Nat.lt_of_lt_of_le c.memheapSize_pos (I.header b hb)
  have h4 := I.extent_eq
  rw [freeStarts, List.length_map] at h1
  omega

/-- `rt_memheap_alloc` makes a part of a free block a used one, or changes nothing. -/
theorem HeapInv.rtMemheapAlloc (I : HeapInv c h bs) (size : Nat) :
    h.rtMemheapAlloc c size = (h, none) ∨
      ∃ h' x n bs', h.rtMemheapAlloc c size = (h', some (x + c.memheapSize)) ∧ Allocated c h bs x n h' bs' ∧
        request c size + c.memheapSize ≤ n := by
  have hH := c.memheapSize_pos
  have hmin := minialloc_le_request c size
  have hpos := c.minialloc_pos
  unfold Memheap.rtMemheapAlloc
  dsimp only
  split
  swap
  · exact .inl rfl
  · obtain ⟨fs, hl, hp⟩ := I.free
    rcases @findFit_spec c _ _ (request c size) [] _ _ hl hl.first (I.free_length_lt hp) with ⟨x, hx, he, hs⟩ | ⟨he, -⟩
    · rw [he]
      obtain ⟨b, hm, hb⟩ := mem_freeStarts.1 (hp.mem_iff.1 hx)
      obtain ⟨ds, es, rfl, hds⟩ := mem_starts.1 hm
      have hend := (I.item_eq hds).2.2.2
      have hroom := I.room
      rw [I.memitemSize_eq hds] at hs
      obtain ⟨n, bs', hn, hA⟩ := I.allocAt hds hb (show request c size + c.memheapSize ≤ b.size by omega)
      have hadd : c.add x c.memheapSize = x + c.memheapSize := Word.add_eq (by omega)
      exact .inr ⟨_, x, n, bs', by rw [← hadd], hA, hn⟩
    · rw [he]
      exact .inl rfl

/-! ## `rt_memheap_free` -/

/-- The search for a place ends at a place of the free list. -/
theorem findPlace_spec {fuel : Nat} (hl : FreeLinks h (ys ++ zs)) (hn : (zs ++ [h.freeList]).head? = some n) :
    ∃ ys' zs', ys ++ zs = ys' ++ zs' ∧ (zs' ++ [h.freeList]).head? = some (h.findPlace c size fuel n) := by
  induction fuel generalizing ys zs n with
  | zero => exact ⟨ys, zs, rfl, hn⟩
  | succ fuel ih =>
    rw [findPlace]
    split
    · exact ⟨ys, zs, rfl, hn⟩
    · rename_i hne
      split
      · exact ⟨ys, zs, rfl, hn⟩
      · cases zs with
        | nil => exact absurd (by simpa using hn.symm) hne
        | cons z zs =>
          obtain rfl : z = n := by simpa using hn
          have hl' : FreeLinks h ((ys ++ [z]) ++ zs) := by rw [List.append_assoc]; exact hl
          obtain ⟨ys', zs', he, hn'⟩ := ih hl' hl.next
          exact ⟨ys', zs', by rw [← he, List.append_assoc]; rfl, hn'⟩

theorem place_spec (hl : FreeLinks h fs) (x : Nat) :
    ∃ ys zs, fs = ys ++ zs ∧ (zs ++ [h.freeList]).head? = some (h.place c x) := by
  unfold place
  split
  · exact @findPlace_spec _ _ _ _ [] _ _ hl hl.first
  · exact ⟨[], fs, rfl, hl.first⟩

namespace Loose

variable {h0 : Memheap} {L L' P : List Nat} {a m : Nat}

/-- Merging the free block at `x` with the one behind it, if that one is free. -/
theorem mergeRight (W : Loose c h0 xs h (ds ++ b :: es) (P ++ (freeBlocks (x + b.size) es).map Prod.fst)
      (freeRoom c.memheapSize (ds ++ b :: es)) m) (hx : x = h0.startAddr + extent ds) (hb : b.used = false)
    (hes : Merged es) (hlt : h.poolSize < 2 ^ c.bits) (hxs : places c h0 (ds ++ b :: es) ⊆ xs) :
    ∃ d fs, Loose c h0 xs (if (h.item (h.item x).next).isUsed then h else h.mergeRight c x) (ds ++ d :: fs)
        (P ++ (freeBlocks (x + d.size) fs).map Prod.fst) (freeRoom c.memheapSize (ds ++ d :: fs)) m ∧ d.used = false ∧
      Merged (d :: fs) ∧ usedBlocks (x + d.size) fs = usedBlocks (x + b.size) es ∧
      freeRoom c.memheapSize (ds ++ b :: es) ≤ freeRoom c.memheapSize (ds ++ d :: fs) := by
  have hx' : x = h.startAddr + extent ds := by rw [W.frame.startAddr]; exact hx
  have hnext := (W.tiling.item_eq hx').1
  have hused := (W.tiling.next_item hx').1
  rw [hnext, hused]
  cases es with
  | nil => exact ⟨b, [], W, hb, merged_cons.2 ⟨by simp, hes⟩, rfl, Nat.le_refl _⟩
  | cons e es =>
    cases he : e.used with
    | true =>
      exact ⟨b, e :: es, by simpa [he] using W, hb, merged_cons.2 ⟨by simp [he], hes⟩, rfl, Nat.le_refl _⟩
    | false =>
      obtain ⟨h1, h2⟩ := merged_cons.1 hes
      obtain ⟨hbs, hds, -⟩ := W.pair hx
      have hext := W.tiling.extent_eq
      have hfr := @freeRoom_le (ds ++ b :: e :: es) c.memheapSize
      have hsum : x + (b.size + e.size) = x + b.size + e.size := by omega
      refine ⟨⟨b.size + e.size, false⟩, es, ?_, rfl, merged_cons.2 ⟨fun f hf => .inr ?_, h2⟩, ?_, ?_⟩
      · simp only [List.head?_cons, Option.map_some, he, Option.getD_some, Bool.false_eq_true, if_false]
        have hroom : c.add h.availableSize c.memheapSize =
            freeRoom c.memheapSize (ds ++ ⟨b.size + e.size, false⟩ :: es) := by
          rw [W.availableSize, Word.add_eq (by simp only [extent_append, extent_cons] at *; omega)]
          simp only [freeRoom_append, freeRoom_cons, hb, he, Bool.false_eq_true, if_false]
          omega
        unfold Memheap.mergeRight
        dsimp only
        rw [hroom]
        have W1 := W.count (freeRoom c.memheapSize (ds ++ ⟨b.size + e.size, false⟩ :: es)) m
        rw [← W.maxUsedSize] at W1
        rw [freeBlocks_cons_free he, List.map_cons] at W1
        have W2 := W1.mergeNext hx List.perm_middle (fun y hy => ?_)
        · rw [hb] at W2
          have hnext' : (item { h with availableSize := freeRoom c.memheapSize (ds ++ ⟨b.size + e.size, false⟩ :: es) }
              x).next = x + b.size := hnext
          rw [hsum, ← W.maxUsedSize, hnext']
          exact W2
        · simp only [List.mem_cons, List.not_mem_nil, or_false] at hy
          rcases hy with rfl | rfl
          · exact hxs (mem_places ds (b :: e :: es) hx)
          · refine hxs (mem_places_of (ds ++ [b, e]) es ?_ (by simp))
            simp [hx, Nat.add_assoc]
      · exact (h1 f hf).resolve_left (by simp [he])
      · rw [usedBlocks_cons_free he]
        rw [hsum]
      · simp only [freeRoom_append, freeRoom_cons, hb, he, Bool.false_eq_true, if_false]
        omega

/-- Merging the free block behind the free one at `x` with that one. -/
theorem mergeLeft (W : Loose c h0 xs h (ds ++ b :: b' :: es) L (freeRoom c.memheapSize (ds ++ b :: b' :: es)) m)
    (hx : x = h0.startAddr + extent ds) (hb : b.used = false) (hb' : b'.used = false) (hlt : h.poolSize < 2 ^ c.bits)
    (hxs : [x, x + b.size + b'.size] ⊆ xs) :
    Loose c h0 xs (h.mergeLeft c (x + b.size)) (ds ++ ⟨b.size + b'.size, false⟩ :: es) L
      (freeRoom c.memheapSize (ds ++ ⟨b.size + b'.size, false⟩ :: es)) m := by
  have hH := c.memheapSize_pos
  obtain ⟨hbs, hbs', -, hnext, hprev⟩ := W.pair hx
  have hext := W.tiling.extent_eq
  have hfr := @freeRoom_le (ds ++ b :: b' :: es) c.memheapSize
  have hroom : c.add h.availableSize c.memheapSize =
      freeRoom c.memheapSize (ds ++ ⟨b.size + b'.size, false⟩ :: es) := by
    rw [W.availableSize, Word.add_eq (by simp only [extent_append, extent_cons] at *; omega)]
    simp only [freeRoom_append, freeRoom_cons, hb, hb', Bool.false_eq_true, if_false]
    omega
  unfold Memheap.mergeLeft
  dsimp only
  rw [hroom]
  have W1 := W.count (freeRoom c.memheapSize (ds ++ ⟨b.size + b'.size, false⟩ :: es)) m
  rw [← W.maxUsedSize] at W1 ⊢
  have hi (y : Nat) : item { h with availableSize := freeRoom c.memheapSize (ds ++ ⟨b.size + b'.size, false⟩ :: es) } y =
      h.item y := rfl
  have W2 := W1.join_left hx hxs
  rw [hb] at W2
  generalize ({ h with availableSize := freeRoom c.memheapSize (ds ++ ⟨b.size + b'.size, false⟩ :: es) } : Memheap) = h1 at *
  simp only [modItem_ne (show x + b.size ≠ x by omega), hi, hprev, hnext]
  exact W2

end Loose

/-- The item before the first one is the tail. -/
theorem Tiling.prev_item (T : Tiling c h (ds ++ b :: es)) (hx : x = h.startAddr + extent ds) :
    (h.item x).prev = last (h.startAddr + extent (ds ++ b :: es)) h.startAddr ds := by
  have hs := T.seg
  rw [List.append_assoc, List.cons_append] at hs
  obtain ⟨-, hp, -⟩ := seg_append.1 hs
  rw [← hx] at hp
  exact hp

theorem places_mark {u : Bool} : places c h (ds ++ ⟨b.size, u⟩ :: es) = places c h (ds ++ b :: es) := by
  simp [places]

theorem places_join_subset (b b' : Block) (u : Bool) :
    places c h (ds ++ ⟨b.size + b'.size, u⟩ :: es) ⊆ places c h (ds ++ b :: b' :: es) := by
  intro y hy
  simp only [places, List.append_assoc, List.cons_append, starts_append, starts_cons, List.map_append, List.map_cons,
    List.mem_cons, List.mem_append, Nat.add_assoc] at hy ⊢
  tauto

/-- A used block becomes free, and is merged with the free ones around it. -/
theorem HeapInv.freeItem (I : HeapInv c h (ds ++ b :: es)) (hx : x = h.startAddr + extent ds) (hb : b.used = true) :
    ∃ bs', HeapInv c (h.freeItem c x) bs' ∧ Frame c h (h.freeItem c x) (places c h (ds ++ b :: es)) ∧
      (usedBlocks h.startAddr (ds ++ b :: es)).Perm ((x, b) :: usedBlocks h.startAddr bs') := by
  have hH := c.memheapSize_pos
  have hlt := I.poolSize_lt
  have hu := I.used
  have hav := I.available
  have hmax := I.maxUsed
  obtain ⟨hm1, hm2, hm3⟩ := merged_append.1 I.merged
  obtain ⟨-, hm5⟩ := merged_cons.1 hm2
  have hxs : x ∈ places c h (ds ++ b :: es) := mem_places ds (b :: es) hx
  -- The block is marked, and counted.
  have W0 := (I.loose (List.Subset.refl _)).mark hx (.inr ⟨rfl, rfl⟩) hxs
  have hfr := @freeRoom_le (ds ++ ⟨b.size, false⟩ :: es) c.memheapSize
  have hext := W0.tiling.extent_eq
  have hps : (h.modItem c x fun i => { i with magic := memheapMagic ||| memheapFreed }).poolSize = h.poolSize := rfl
  have hx0 : memitemSize c (h.modItem c x fun i => { i with magic := memheapMagic ||| memheapFreed }) x =
      b.size - c.memheapSize := W0.tiling.memitemSize_eq hx
  have hroom : c.add h.availableSize (b.size - c.memheapSize) = freeRoom c.memheapSize (ds ++ ⟨b.size, false⟩ :: es) := by
    have e : freeRoom c.memheapSize (ds ++ ⟨b.size, false⟩ :: es) = h.availableSize + (b.size - c.memheapSize) := by
      simp only [hav, freeRoom_append, freeRoom_cons, hb, Bool.false_eq_true, if_true, if_false]
      omega
    rw [e]
    exact Word.add_eq (by omega)
  unfold Memheap.freeItem
  dsimp only
  rw [hx0, W0.availableSize, hroom]
  have W1 := W0.count (freeRoom c.memheapSize (ds ++ ⟨b.size, false⟩ :: es)) h.maxUsedSize
  have hset : ∀ r, ({ h.modItem c x fun i => { i with magic := memheapMagic ||| memheapFreed } with
      availableSize := r, maxUsedSize := h.maxUsedSize } : Memheap) =
      { h.modItem c x fun i => { i with magic := memheapMagic ||| memheapFreed } with availableSize := r } := fun _ => rfl
  rw [hset] at W1
  generalize ({ h.modItem c x fun i => { i with magic := memheapMagic ||| memheapFreed } with
    availableSize := freeRoom c.memheapSize (ds ++ ⟨b.size, false⟩ :: es) } : Memheap) = h1 at *
  have hx1 : x = h1.startAddr + extent ds := by rw [W1.frame.startAddr]; exact hx
  have hlt1 : h1.poolSize < 2 ^ c.bits := by rw [W1.frame.poolSize]; exact hlt
  have hL := @freeStarts_append_cons_used _ _ es _ _ hx hb
  have hr0 : freeRoom c.memheapSize (ds ++ b :: es) ≤ freeRoom c.memheapSize (ds ++ ⟨b.size, false⟩ :: es) := by
    simp only [freeRoom_append, freeRoom_cons, hb, Bool.false_eq_true, if_true, if_false]
    omega
  have hprev := W1.tiling.prev_item hx1
  -- The block before.
  have hlast : ∀ d ∈ ds.getLast?, (h1.item (h1.item x).prev).isUsed = d.used := by
    intro d hd
    obtain ⟨ds, rfl⟩ := List.getLast?_eq_some_iff.1 hd
    have T : Tiling c h1 (ds ++ d :: ⟨b.size, false⟩ :: es) := by simpa using W1.tiling
    rw [hprev, last_append]
    exact (T.item_eq rfl).2.1
  by_cases hused : (h1.item (h1.item x).prev).isUsed = true
  · rw [if_pos hused]
    rw [hL] at W1
    obtain ⟨d, fs, W2, hd, hm, hub, hr⟩ := W1.mergeRight hx rfl hm5 hlt1 fun _ hy => by rwa [places_mark] at hy
    generalize (if (h1.item (h1.item x).next).isUsed then h1 else Memheap.mergeRight c h1 x) = h2 at *
    obtain ⟨gs, hl, hp⟩ := W2.links
    obtain ⟨ys, zs, rfl, hn⟩ := place_spec (c := c) hl x
    have hnot : x ∉ h.freeList :: (freeStarts h ds ++ (freeBlocks (x + d.size) fs).map Prod.fst) := by
      have h3 := I.not_mem_used (List.Perm.refl _) hx hb
      have h4 := W2.tiling.header d (by simp)
      rw [hL] at h3
      simp only [List.mem_cons, List.mem_append, List.mem_map, not_or] at h3 ⊢
      refine ⟨h3.1, h3.2.1, ?_⟩
      rintro ⟨⟨y, e⟩, hy, rfl⟩
      have := (le_of_mem_starts (mem_freeBlocks.1 hy).1).1
      omega
    have W3 := W2.insertFreeBefore hl hp hnot hn hxs
    refine ⟨ds ++ d :: fs, W3.heapInv I ?_ ?_ rfl (by omega) hmax, W3.frame, ?_⟩
    · rw [freeStarts_append_cons hx hd]
      exact List.perm_middle.symm
    · exact merged_append.2 ⟨hm1, hm, fun e he f _ => .inl (by rw [← hlast e he]; exact hused)⟩
    · rw [usedBlocks_middle_used hx hb, usedBlocks_middle_free hx hd, hub]
      exact List.perm_middle
  · rw [if_neg hused]
    rcases List.eq_nil_or_concat ds with rfl | ⟨ds, d, rfl⟩
    · rw [hprev] at hused
      exact absurd W1.tiling.tail_item.1 hused
    rw [List.concat_eq_append] at *
    have hd : d.used = false := by
      rw [← hlast d (by simp)]
      simpa using hused
    have hxd : h.startAddr + extent ds + d.size = x := by simp [hx, Nat.add_assoc]
    have hp : (h1.item x).prev = h.startAddr + extent ds := by
      rw [hprev, last_append, W1.frame.startAddr]
      rfl
    simp only [List.append_assoc, List.cons_append, List.nil_append] at *
    have hsub {y : Nat} (hy : y ∈ places c h (ds ++ ⟨d.size + b.size, false⟩ :: es)) : y ∈ places c h (ds ++ d :: b :: es) :=
      places_join_subset d b false hy
    have W2 := W1.mergeLeft rfl hd rfl hlt1 (fun y hy => by
      simp only [List.mem_cons, List.not_mem_nil, or_false] at hy
      rcases hy with rfl | rfl
      · exact mem_places ds (d :: b :: es) rfl
      · refine mem_places_of (ds ++ [d, b]) es ?_ (by simp)
        simp [Nat.add_assoc])
    rw [hxd] at W2
    rw [hp]
    have hlt2 : (Memheap.mergeLeft c h1 x).poolSize < 2 ^ c.bits := by rw [W2.frame.poolSize]; exact hlt
    generalize Memheap.mergeLeft c h1 x = h2 at *
    have hL2 : freeStarts h (ds ++ d :: b :: es) =
        (freeStarts h ds ++ [h.startAddr + extent ds]) ++
          (freeBlocks (h.startAddr + extent ds + (d.size + b.size)) es).map Prod.fst := by
      rw [freeStarts_append_cons rfl hd, freeBlocks_cons_used hb, List.append_assoc, Nat.add_assoc]
      rfl
    rw [hL2] at W2
    obtain ⟨e, fs, W3, he, hm, hub, hr⟩ := W2.mergeRight rfl rfl hm5 hlt2 fun y hy => hsub hy
    dsimp only at hr hub
    obtain ⟨hm6, -, hm7⟩ := merged_append.1 hm1
    have hr2 : freeRoom c.memheapSize (ds ++ d :: ⟨b.size, false⟩ :: es) ≤
        freeRoom c.memheapSize (ds ++ ⟨d.size + b.size, false⟩ :: es) := by
      simp only [freeRoom_append, freeRoom_cons, hd, Bool.false_eq_true, if_false]
      omega
    refine ⟨ds ++ e :: fs, W3.heapInv I ?_ ?_ rfl (by omega) hmax, W3.frame, ?_⟩
    · rw [freeStarts_append_cons rfl he, List.append_assoc]
      exact List.Perm.refl _
    · exact merged_append.2 ⟨hm6, hm, fun f hf _ _ => .inl ((hm7 f hf d (by simp)).resolve_right (by simp [hd]))⟩
    · rw [usedBlocks_middle_free rfl hd, usedBlocks_middle_free rfl he, usedBlocks_cons_used hb, hub, hxd, ← hxd,
        Nat.add_assoc (h.startAddr + extent ds)]
      exact List.perm_middle

theorem Tiling.memitem_eq (T : Tiling c h (ds ++ b :: es)) (hx : x = h.startAddr + extent ds) :
    memitem c (x + c.memheapSize) = x := by
  have hend := (T.item_eq hx).2.2.2
  have hH := c.memheapSize_pos
  have hb := T.header b (by simp)
  have hroom := T.room
  rw [memitem, Word.sub_eq (Nat.le_add_left _ _) (by omega), Nat.add_sub_cancel]

/-- A used block becomes free. -/
theorem HeapInv.rtMemheapFree (I : HeapInv c h bs) (hm : (x, b) ∈ usedBlocks h.startAddr bs) :
    ∃ h' bs', Memheap.rtMemheapFree c h (some (x + c.memheapSize)) = some h' ∧ HeapInv c h' bs' ∧
      Frame c h h' (places c h bs) ∧ (usedBlocks h.startAddr bs).Perm ((x, b) :: usedBlocks h.startAddr bs') := by
  obtain ⟨hm, hb⟩ := mem_usedBlocks.1 hm
  obtain ⟨ds, es, rfl, hx⟩ := mem_starts.1 hm
  obtain ⟨hnext, hused, ⟨hmagic, hpool, -⟩, -⟩ := I.item_eq hx
  obtain ⟨-, ⟨hmagic', -⟩, -⟩ := I.next_item hx
  obtain ⟨bs', I', hF, hp⟩ := I.freeItem hx hb
  refine ⟨_, bs', ?_, I', hF, hp⟩
  have h1 : (h.item x).magic = memheapMagic ||| memheapUsed := by
    refine hmagic.resolve_right fun hf => ?_
    rw [MemheapItem.isUsed_freed hf, hb] at hused
    cases hused
  have h2 : (h.item (x + b.size)).magic &&& memheapMask = memheapMagic := by
    rcases hmagic' with he | he <;> rw [he] <;> rfl
  unfold Memheap.rtMemheapFree
  dsimp only
  rw [I.memitem_eq hx, hnext, if_pos ⟨h1, h2, hpool⟩]

/-! ## `rt_memheap_realloc` -/

/-- The used block `(x, b)` becomes the used block `(x, n)`. -/
structure Resized (c : MemheapConfig) (h : Memheap) (bs : List Block) (x : Nat) (b : Block) (n : Nat) (h' : Memheap)
    (bs' : List Block) : Prop where
  inv : HeapInv c h' bs'
  frame : Frame c h h' (places c h bs ++ places c h bs')
  blocks : ∃ us, (usedBlocks h.startAddr bs).Perm ((x, b) :: us) ∧
    (usedBlocks h.startAddr bs').Perm ((x, ⟨n, true⟩) :: us)

/-- A block grows into the free block behind it. -/
theorem HeapInv.grow (I : HeapInv c h (ds ++ b :: b' :: es)) (hx : x = h.startAddr + extent ds) (hb : b.used = true)
    (hb' : b'.used = false) (hlt : b.size < newsize + c.memheapSize)
    (hle : newsize + c.memheapSize + c.memheapSize ≤ b.size + b'.size) :
    ∃ bs', Resized c h (ds ++ b :: b' :: es) x b (newsize + c.memheapSize)
      (h.grow c x (x + c.memheapSize) newsize) bs' := by
  have hH := c.memheapSize_pos
  have hext := I.extent_eq
  have hroom := I.room
  have hps := I.poolSize_lt
  have hav := I.available
  have hbs := I.header b (by simp)
  have hfr := @freeRoom_le (ds ++ b :: b' :: es) c.memheapSize
  obtain ⟨hnext, -, -, hend⟩ := I.item_eq hx
  have hend' := (@Tiling.item_eq c _ (ds ++ [b]) es b' (x + b.size) (by simpa using I.toTiling)
    (by simp [hx, Nat.add_assoc])).2.2.2
  simp only [freeRoom_append, freeRoom_cons, hb, hb', Bool.false_eq_true, if_true, if_false] at hav hfr
  generalize hn : newsize + c.memheapSize = n at *
  let bs' := ds ++ ⟨n, true⟩ :: ⟨b.size + b'.size - n, false⟩ :: es
  have hsub : c.sub h.availableSize (c.sub newsize (b.size - c.memheapSize)) = h.availableSize - (n - b.size) := by
    rw [Word.sub_eq (b := b.size - c.memheapSize) (by omega) (by omega), Word.sub_eq (by omega) (by omega)]
    omega
  have hptr : c.add (x + c.memheapSize) newsize = x + n := by
    rw [Word.add_eq (by omega)]
    omega
  have hxs1 : [x, x + b.size + b'.size] ⊆ places c h (ds ++ b :: b' :: es) ++ places c h bs' := by
    intro y hy
    simp only [List.mem_cons, List.not_mem_nil, or_false] at hy
    rcases hy with rfl | rfl
    · exact List.mem_append_left _ (mem_places ds (b :: b' :: es) hx)
    · refine List.mem_append_left _ (mem_places_of (ds ++ [b, b']) es ?_ (by simp))
      simp [hx, Nat.add_assoc]
  have hxn : x + n ∈ places c h (ds ++ b :: b' :: es) ++ places c h bs' := by
    refine List.mem_append_right _ (mem_places_of (ds ++ [⟨n, true⟩]) (⟨b.size + b'.size - n, false⟩ :: es) ?_ (by simp [bs']))
    simp [hx, Nat.add_assoc]
  unfold Memheap.grow
  dsimp only
  rw [I.memitemSize_eq hx, hsub, hptr]
  have hnext' : ((h.setAvailable c (h.availableSize - (n - b.size))).item x).next = x + b.size := hnext
  rw [hnext']
  have hL : (freeStarts h (ds ++ b :: b' :: es)).Perm
      ((x + b.size) :: (freeStarts h ds ++ (freeBlocks (x + b.size + b'.size) es).map Prod.fst)) := by
    rw [freeStarts_append_cons_used hx hb, freeBlocks_cons_free hb', List.map_cons]
    exact List.perm_middle
  have W1 := (I.loose (List.subset_append_left _ (places c h bs'))).setAvailable (h.availableSize - (n - b.size))
  have W2 := W1.removeNextPtr hx hL hxs1
  have W3 := W2.insertBlock hx (n := n) (by omega) (by dsimp only; omega) (fun y hy => by
    simp only [List.mem_cons, List.not_mem_nil, or_false] at hy
    rcases hy with rfl | rfl | rfl
    · exact hxs1 (by simp)
    · exact hxn
    · exact hxs1 (by simp [Nat.add_assoc]))
  have hnot : x + n ∉ h.freeList :: (freeStarts h ds ++ (freeBlocks (x + b.size + b'.size) es).map Prod.fst) := by
    intro hm
    have hm' : x + n ∈ h.freeList :: freeStarts h (ds ++ b :: b' :: es) :=
      (hL.cons _).mem_iff.2 (List.cons_subset_cons _ (List.subset_cons_self _ _) hm)
    rcases Nat.lt_trichotomy n b.size with hlt' | rfl | hlt'
    · omega
    · omega
    · refine @Listed.not_mem c _ (ds ++ [b]) es b' (x + b.size) (x + n) _
        (by simpa using I.toListed) (List.Perm.refl _) (by simp [hx, Nat.add_assoc]) (by omega) (by omega) ?_
      rw [List.append_assoc]
      exact hm'
  have W4 := W3.insertFree hnot hxn
  have hmax := setAvailable_maxUsed (c := c) (h := h) (n := h.availableSize - (n - b.size)) (by omega) hps I.maxUsed
  rw [hb] at W4
  refine ⟨bs', W4.heapInv I ?_ ?_ ?_ hmax.1 hmax.2, W4.frame, usedBlocks h.startAddr ds ++ usedBlocks (x + b.size) (b' :: es), ?_, ?_⟩
  · rw [freeStarts_append_cons_used hx rfl, freeBlocks_cons_free rfl, List.map_cons]
    rw [show x + n + (b.size + b'.size - n) = x + b.size + b'.size by omega]
    exact List.perm_middle.symm
  · obtain ⟨hm1, hm2, -⟩ := merged_append.1 I.merged
    obtain ⟨hm3, hm4⟩ := merged_cons.1 (merged_cons.1 hm2).2
    refine merged_append.2 ⟨hm1, merged_cons.2 ⟨fun _ _ => .inl rfl, merged_cons.2 ⟨fun e he => .inr ?_, hm4⟩⟩, ?_⟩
    · exact (hm3 e he).resolve_left (by simp [hb'])
    · simp
  · simp only [freeRoom_append, freeRoom_cons, Bool.false_eq_true, if_true, if_false]
    omega
  · rw [usedBlocks_middle_used hx hb]
    exact List.perm_middle
  · rw [usedBlocks_middle_used hx rfl, usedBlocks_cons_free rfl, usedBlocks_cons_free hb']
    rw [show x + n + (b.size + b'.size - n) = x + b.size + b'.size by omega]
    exact List.perm_middle

/-- The end of an in-place split: the free rest at `x + n`, of `k` bytes, is inserted into the free list and counted. -/
theorem HeapInv.insertRest {a k : Nat} {gs : List Block} (I : HeapInv c h (ds ++ b :: es)) (hx : x = h.startAddr + extent ds)
    (hb : b.used = true) (hn : c.memheapSize ≤ n) (hnb : n < b.size)
    (W : Loose c h (places c h (ds ++ b :: es) ++ places c h (ds ++ ⟨n, true⟩ :: ⟨k, false⟩ :: gs)) h1
      (ds ++ ⟨n, true⟩ :: ⟨k, false⟩ :: gs) (freeStarts h ds ++ (freeBlocks (x + n + k) gs).map Prod.fst) a h.maxUsedSize)
    (ha : a + (k - c.memheapSize) = freeRoom c.memheapSize (ds ++ ⟨n, true⟩ :: ⟨k, false⟩ :: gs))
    (hle : h.availableSize ≤ a + (k - c.memheapSize))
    (hsub : (freeBlocks (x + n + k) gs).map Prod.fst ⊆ (freeBlocks (x + b.size) es).map Prod.fst)
    (hm : Merged (⟨k, false⟩ :: gs)) (hu : usedBlocks (x + n + k) gs = usedBlocks (x + b.size) es) :
    Resized c h (ds ++ b :: es) x b n
      { h1.insertFree c (x + n) with
        availableSize := c.add (h1.insertFree c (x + n)).availableSize ((h1.insertFree c (x + n)).memitemSize c (x + n)) }
      (ds ++ ⟨n, true⟩ :: ⟨k, false⟩ :: gs) := by
  have hH := c.memheapSize_pos
  have hlt := I.poolSize_lt
  have hu' := I.used
  have hxn : x + n = h.startAddr + extent (ds ++ [⟨n, true⟩]) := by simp [hx, Nat.add_assoc]
  have hmem : x + n ∈ places c h (ds ++ b :: es) ++ places c h (ds ++ ⟨n, true⟩ :: ⟨k, false⟩ :: gs) :=
    List.mem_append_right _ (mem_places_of (ds ++ [⟨n, true⟩]) (⟨k, false⟩ :: gs) hxn (by simp))
  have hL := @freeStarts_append_cons_used _ _ es _ _ hx hb
  have hnot : x + n ∉ h.freeList :: (freeStarts h ds ++ (freeBlocks (x + n + k) gs).map Prod.fst) := fun hm' => by
    refine I.not_mem (List.Perm.refl _) hx (show x < x + n by omega) (by omega) ?_
    rw [hL]
    exact List.cons_subset_cons _ (List.append_subset.2
      ⟨List.subset_append_left _ _, List.Subset.trans hsub (List.subset_append_right _ _)⟩) hm'
  have W1 := W.insertFree hnot hmem
  generalize Memheap.insertFree c h1 (x + n) = h2 at *
  have hsize : h2.memitemSize c (x + n) = k - c.memheapSize := by
    have T : Tiling c h2 ((ds ++ [⟨n, true⟩]) ++ ⟨k, false⟩ :: gs) := by simpa using W1.tiling
    exact T.memitemSize_eq (by rw [W1.frame.startAddr]; exact hxn)
  have hadd : c.add h2.availableSize (h2.memitemSize c (x + n)) = a + (k - c.memheapSize) := by
    have hfr := @freeRoom_le (ds ++ ⟨n, true⟩ :: ⟨k, false⟩ :: gs) c.memheapSize
    have hext := W1.tiling.extent_eq
    have := W1.frame.poolSize
    rw [W1.availableSize, hsize]
    exact Word.add_eq (by omega)
  rw [hadd]
  have W2 := W1.count (a + (k - c.memheapSize)) h.maxUsedSize
  rw [← W1.maxUsedSize] at W2
  obtain ⟨hm1, -, -⟩ := merged_append.1 I.merged
  have hmax := I.maxUsed
  rw [← W1.maxUsedSize] at hmax
  refine ⟨W2.heapInv I ?_ (merged_append.2 ⟨hm1, merged_cons.2 ⟨fun _ _ => .inl rfl, hm⟩, by simp⟩) ha ?_ hmax, W2.frame,
    usedBlocks h.startAddr ds ++ usedBlocks (x + b.size) es, ?_, ?_⟩
  · rw [freeStarts_append_cons_used hx rfl, freeBlocks_cons_free rfl, List.map_cons]
    exact List.perm_middle.symm
  · rw [W1.maxUsedSize]; omega
  · rw [usedBlocks_middle_used hx hb]
    exact List.perm_middle
  · rw [usedBlocks_middle_used hx rfl, usedBlocks_cons_free rfl, hu]
    exact List.perm_middle

/-- A block gives its rest back. -/
theorem HeapInv.shrink (I : HeapInv c h (ds ++ b :: es)) (hx : x = h.startAddr + extent ds) (hb : b.used = true)
    (hle : newsize + c.memheapSize + c.memheapSize ≤ b.size) :
    ∃ bs', Resized c h (ds ++ b :: es) x b (newsize + c.memheapSize) (h.shrink c x newsize) bs' := by
  have hH := c.memheapSize_pos
  have hext := I.extent_eq
  have hroom := I.room
  have hav := I.available
  have hfr := @freeRoom_le (ds ++ b :: es) c.memheapSize
  have hend := (I.item_eq hx).2.2.2
  obtain ⟨-, hm2, -⟩ := merged_append.1 I.merged
  have hm3 := (merged_cons.1 hm2).2
  have hnew : c.add (c.add x newsize) c.memheapSize = x + (newsize + c.memheapSize) := by
    rw [Word.add_eq (a := x) (by omega), Word.add_eq (by omega), Nat.add_assoc]
  have hL := @freeStarts_append_cons_used _ _ es _ _ hx hb
  simp only [freeRoom_append, freeRoom_cons, hb, if_true] at hav
  unfold Memheap.shrink
  dsimp only
  rw [hnew]
  generalize hn : newsize + c.memheapSize = n at *
  have hxn : x + n = h.startAddr + extent (ds ++ [⟨n, true⟩]) := by simp [hx, Nat.add_assoc]
  have hsum : x + n + (b.size - n) = x + b.size := by omega
  by_cases hmerge : ∃ e es', es = e :: es' ∧ e.used = false
  · -- The rest is merged with the free block behind it.
    obtain ⟨e, es, rfl, he⟩ := hmerge
    let bs' := ds ++ ⟨n, true⟩ :: ⟨b.size - n + e.size, false⟩ :: es
    have hxs : [x, x + n, x + b.size] ⊆ places c h (ds ++ b :: e :: es) ++ places c h bs' := by
      intro y hy
      simp only [List.mem_cons, List.not_mem_nil, or_false] at hy
      rcases hy with rfl | rfl | rfl
      · exact List.mem_append_left _ (mem_places ds (b :: e :: es) hx)
      · exact List.mem_append_right _ (mem_places_of (ds ++ [⟨n, true⟩]) (⟨b.size - n + e.size, false⟩ :: es) hxn (by simp [bs']))
      · refine List.mem_append_left _ (mem_places_of (ds ++ [b]) (e :: es) ?_ (by simp))
        simp [hx, Nat.add_assoc]
    have hxe : x + b.size + e.size ∈ places c h (ds ++ b :: e :: es) ++ places c h bs' := by
      refine List.mem_append_left _ (mem_places_of (ds ++ [b, e]) es ?_ (by simp))
      simp [hx, Nat.add_assoc]
    have W1 := (I.loose (List.subset_append_left _ (places c h bs'))).insertBlock hx (n := n) (by omega) (by omega) hxs
    rw [hb, hL, freeBlocks_cons_free he, List.map_cons] at W1
    generalize Memheap.insertBlock c h x (x + n) = h1 at *
    have T1 : Tiling c h1 ((ds ++ [⟨n, true⟩]) ++ ⟨b.size - n, false⟩ :: e :: es) := by simpa using W1.tiling
    have T2 : Tiling c h1 ((ds ++ [⟨n, true⟩, ⟨b.size - n, false⟩]) ++ e :: es) := by simpa using W1.tiling
    have hxn1 : x + n = h1.startAddr + extent (ds ++ [⟨n, true⟩]) := by rw [W1.frame.startAddr]; exact hxn
    have hxe1 : x + b.size = h1.startAddr + extent (ds ++ [⟨n, true⟩, ⟨b.size - n, false⟩]) := by
      rw [← hsum, W1.frame.startAddr, hx]
      simp [Nat.add_assoc]
    have hnext : (h1.item (x + n)).next = x + b.size := by rw [(T1.item_eq hxn1).1, ← hsum]
    have hused : ¬(h1.item (x + b.size)).isUsed = true := by rw [(T2.item_eq hxe1).2.1, he]; simp
    have hcount : c.sub h1.availableSize (h1.memitemSize c (x + b.size)) = h.availableSize - (e.size - c.memheapSize) := by
      rw [T2.memitemSize_eq hxe1, W1.availableSize]
      simp only [freeRoom_cons, he, Bool.false_eq_true, if_false] at hav hfr
      exact Word.sub_eq (by omega) (by have := I.available; omega)
    rw [hnext, if_neg hused, hcount]
    have W2 := W1.count (h.availableSize - (e.size - c.memheapSize)) h.maxUsedSize
    rw [← W1.maxUsedSize] at W2
    generalize ({ h1 with availableSize := h.availableSize - (e.size - c.memheapSize) } : Memheap) = h2 at *
    have hcons (k : Nat) (gs : List Block) :
        ds ++ ⟨n, true⟩ :: ⟨k, false⟩ :: gs = (ds ++ [⟨n, true⟩]) ++ ⟨k, false⟩ :: gs := by simp
    rw [hcons] at W2
    have hsize : x + n + (b.size - n + e.size) = x + b.size + e.size := by omega
    have W3 := W2.mergeNext hxn (by rw [hsum]; exact List.perm_middle) (fun y hy => by
      simp only [List.mem_cons, List.not_mem_nil, or_false] at hy
      rcases hy with rfl | rfl
      · exact hxs (by simp)
      · rw [hsum]
        exact hxe)
    dsimp only at W3
    rw [hsum, ← hcons, ← hsize, W1.maxUsedSize] at W3
    obtain ⟨hm4, hm5⟩ := merged_cons.1 hm3
    refine ⟨bs', I.insertRest hx hb (by omega) (by omega) W3 ?_ (by omega) ?_ ?_ ?_⟩
    · simp only [hav, freeRoom_append, freeRoom_cons, he, Bool.false_eq_true, if_true, if_false]
      omega
    · rw [hsize, freeBlocks_cons_free he, List.map_cons]
      exact List.subset_cons_self _ _
    · exact merged_cons.2 ⟨fun f hf => .inr ((hm4 f hf).resolve_left (by simp [he])), hm5⟩
    · rw [hsize, usedBlocks_cons_free he]
  · let bs' := ds ++ ⟨n, true⟩ :: ⟨b.size - n, false⟩ :: es
    have W1 := (I.loose (List.subset_append_left _ (places c h bs'))).insertBlock hx (n := n) (by omega) (by omega)
      (split_subset_places hx true false)
    rw [hb, hL] at W1
    generalize Memheap.insertBlock c h x (x + n) = h1 at *
    have T1 : Tiling c h1 ((ds ++ [⟨n, true⟩]) ++ ⟨b.size - n, false⟩ :: es) := by simpa using W1.tiling
    have hxn1 : x + n = h1.startAddr + extent (ds ++ [⟨n, true⟩]) := by rw [W1.frame.startAddr]; exact hxn
    have hused : (h1.item (h1.item (x + n)).next).isUsed = true := by
      rw [(T1.item_eq hxn1).1, (T1.next_item hxn1).1]
      cases es with
      | nil => rfl
      | cons e es => simpa using fun he => hmerge ⟨e, es, rfl, he⟩
    rw [if_pos hused]
    rw [← hsum] at W1
    refine ⟨bs', I.insertRest hx hb (by omega) (by omega) W1 ?_ (by omega) ?_ ?_ ?_⟩
    · simp only [freeRoom_append, freeRoom_cons, Bool.false_eq_true, if_true, if_false]
      omega
    · rw [hsum]; exact List.Subset.refl _
    · refine merged_cons.2 ⟨fun e he => .inr ?_, hm3⟩
      obtain ⟨es', rfl⟩ := List.head?_eq_some_iff.1 he
      simpa using fun hf => hmerge ⟨e, es', rfl, hf⟩
    · rw [hsum]

/-- No item stands in the data of a block. -/
theorem Listed.apart_places (L : Listed c h bs) (hm : (x, b) ∈ starts h.startAddr bs) (hy : x + c.memheapSize ≤ y)
    (hyb : y < x + b.size) : ∀ a ∈ places c h bs, y < a ∨ a + c.memheapSize ≤ y := by
  intro a ha
  have hext := L.extent_eq
  have hle := le_of_mem_starts hm
  rcases List.mem_cons.1 ha with rfl | ha
  · have := L.apart
    omega
  · obtain ⟨⟨a, d⟩, hd, rfl⟩ := List.mem_map.1 ha
    have hx : (x, b) ∈ starts h.startAddr (bs ++ [⟨c.memheapSize, true⟩]) := by
      rw [starts_append]
      exact List.mem_append_left _ hm
    by_cases he : (x, b) = (a, d)
    · have := (Prod.mk.inj he).1
      omega
    · have := apart_of_ne hx hd he
      simp only [Apart] at this
      omega

/-- A part of a block that is one before and after: its bytes stay. -/
theorem Frame.data_byte {k : Nat} (L : Listed c h bs) (L' : Listed c h' cs') (hF : Frame c h h' (places c h bs ++ places c h cs'))
    (hm : (x, b) ∈ starts h.startAddr bs) (hm' : (x, b') ∈ starts h.startAddr cs') (hk : k < b.size - c.memheapSize)
    (hk' : k < b'.size - c.memheapSize) :
    h'.mem.byte (x + c.memheapSize + k) = h.mem.byte (x + c.memheapSize + k) := by
  refine hF.byte _ fun a ha => ?_
  rcases List.mem_append.1 ha with ha | ha
  · exact L.apart_places hm (by omega) (by omega) a ha
  · rw [← places_congr hF] at ha
    rw [← hF.startAddr] at hm'
    exact L'.apart_places hm' (by omega) (by omega) a ha

/-- The used block `(x, b)` is given up for the used block `(y, n)`, which has its data. -/
structure Moved (c : MemheapConfig) (h : Memheap) (bs : List Block) (x : Nat) (b : Block) (y n size : Nat) (h' : Memheap) :
    Prop where
  startAddr : h'.startAddr = h.startAddr
  poolSize : h'.poolSize = h.poolSize
  blocks : ∃ bs' us, HeapInv c h' bs' ∧ (usedBlocks h.startAddr bs).Perm ((x, b) :: us) ∧
    (usedBlocks h.startAddr bs').Perm ((y, ⟨n, true⟩) :: us)
  byte : ∀ k < b.size - c.memheapSize, k < size →
    h'.mem.byte (y + c.memheapSize + k) = h.mem.byte (x + c.memheapSize + k)
  size_le : size + c.memheapSize ≤ n

theorem Resized.moved {bs' : List Block} (I : HeapInv c h bs) (R : Resized c h bs x b n h' bs')
    (hs : size + c.memheapSize ≤ n) : Moved c h bs x b x n size h' := by
  obtain ⟨us, hp, hp'⟩ := R.blocks
  refine ⟨R.frame.startAddr, R.frame.poolSize, ⟨bs', us, R.inv, hp, hp'⟩, fun k hk hks => ?_, hs⟩
  refine Frame.data_byte I.toListed R.inv.toListed R.frame ?_ ?_ hk
    (show k < (⟨n, true⟩ : Block).size - c.memheapSize by dsimp only; omega)
  · exact (mem_usedBlocks.1 (hp.mem_iff.2 List.mem_cons_self)).1
  · exact (mem_usedBlocks.1 (hp'.mem_iff.2 List.mem_cons_self)).1

/-- The grow-in-place test of `rt_memheap_realloc` holds, but the free block behind the block is too small. -/
def Overgrows (c : MemheapConfig) (h : Memheap) (ptr newsize : Nat) : Prop :=
  newsize ≠ 0 ∧ h.canGrow c (memitem c ptr) (request c newsize) = true ∧
    h.memitemSize c (memitem c ptr) + h.memitemSize c (h.item (memitem c ptr)).next < request c newsize

/-- The bytes do not matter for the invariant. -/
theorem HeapInv.copy (I : HeapInv c h bs) (dst src n : Nat) : HeapInv c { h with mem := h.mem.copy dst src n } bs :=
  ⟨⟨⟨I.seg, I.header, I.blockList, I.room⟩, I.free, I.apart⟩, I.merged, I.available, I.used, I.maxUsed, I.poolSize_lt⟩

/-- A used block is resized where it is, or is moved, or nothing changes. -/
theorem HeapInv.rtMemheapRealloc (I : HeapInv c h bs) (hm : (x, b) ∈ usedBlocks h.startAddr bs) (h0 : newsize ≠ 0)
    (hgrow : ¬Overgrows c h (x + c.memheapSize) newsize) :
    h.rtMemheapRealloc c (some (x + c.memheapSize)) newsize = some (h, none) ∨
      ∃ h' y n, h.rtMemheapRealloc c (some (x + c.memheapSize)) newsize = some (h', some (y + c.memheapSize)) ∧
        Moved c h bs x b y n (request c newsize) h' := by
  obtain ⟨hms, hb⟩ := mem_usedBlocks.1 hm
  obtain ⟨ds, es, rfl, hx⟩ := mem_starts.1 hms
  have hH := c.memheapSize_pos
  have hmin := c.minialloc_le
  have hbH := I.header b (by simp)
  obtain ⟨hnext, -, -, hend⟩ := I.item_eq hx
  have hp : (usedBlocks h.startAddr (ds ++ b :: es)).Perm
      ((x, b) :: (usedBlocks h.startAddr ds ++ usedBlocks (x + b.size) es)) := by
    rw [usedBlocks_middle_used hx hb]
    exact List.perm_middle
  unfold Memheap.rtMemheapRealloc
  rw [if_neg h0]
  dsimp only
  rw [Overgrows, I.memitem_eq hx, I.memitemSize_eq hx, hnext] at hgrow
  rw [I.memitem_eq hx, I.memitemSize_eq hx, hnext]
  split
  · rename_i hold
    rw [if_pos (show x < x + b.size by omega)]
    split
    · -- Into the free block behind it.
      rename_i hcan
      have hle : h.memitemSize c (x + b.size) + (b.size - c.memheapSize) ≥ request c newsize := by
        by_contra hlt
        exact hgrow ⟨h0, hcan, by omega⟩
      have hfree : (h.item (x + b.size)).isUsed = false := by
        unfold canGrow at hcan
        rw [Bool.and_eq_true, hnext] at hcan
        simpa using hcan.1
      have hused := (I.next_item hx).1
      cases es with
      | nil => rw [hused] at hfree; simp at hfree
      | cons e es =>
        have he : e.used = false := by rw [hused] at hfree; simpa using hfree
        have T : Tiling c h ((ds ++ [b]) ++ e :: es) := by simpa using I.toTiling
        rw [T.memitemSize_eq (by simp [hx, Nat.add_assoc])] at hle
        obtain ⟨bs', R⟩ := I.grow hx hb he (show b.size < request c newsize + c.memheapSize by omega) (by omega)
        exact .inr ⟨_, x, _, rfl, R.moved I (Nat.le_refl _)⟩
    · -- To another block.
      rcases I.rtMemheapAlloc (request c newsize) with he | ⟨h1, y, n, bs1, he, A, hn⟩
      · rw [he]; exact .inl rfl
      · rw [he]
        dsimp only
        have hxm : (x, b) ∈ usedBlocks h1.startAddr bs1 := by
          rw [A.frame.startAddr]
          exact A.blocks.mem_iff.2 (List.mem_cons_of_mem _ hm)
        have hym : (y, ⟨n, true⟩) ∈ usedBlocks h1.startAddr bs1 := by
          rw [A.frame.startAddr]
          exact A.blocks.mem_iff.2 List.mem_cons_self
        rw [request_request] at hn
        have I1 := A.inv.copy (y + c.memheapSize) (x + c.memheapSize) (b.size - c.memheapSize)
        obtain ⟨h2, bs2, hf, I2, F2, hp2⟩ := I1.rtMemheapFree hxm
        rw [hf]
        refine .inr ⟨h2, y, n, rfl, ⟨F2.startAddr.trans A.frame.startAddr, F2.poolSize.trans A.frame.poolSize,
          ⟨bs2, _, I2, hp, ?_⟩, fun k hk hks => ?_, hn⟩⟩
        · have hp3 := (A.blocks.trans (hp.cons _)).trans (List.Perm.swap _ _ _)
          rw [← A.frame.startAddr] at hp3 ⊢
          exact (hp2.symm.trans hp3).cons_inv
        · -- The copied bytes are not touched when the old block is freed.
          have hbyte : h2.mem.byte (y + c.memheapSize + k) =
              (h1.mem.copy (y + c.memheapSize) (x + c.memheapSize) (b.size - c.memheapSize)).byte (y + c.memheapSize + k) :=
            F2.byte _ (I1.apart_places (mem_usedBlocks.1 hym).1 (by omega) (by dsimp only; omega))
          rw [hbyte, Store.copy_byte ⟨by omega, by omega⟩, Nat.add_sub_cancel_left]
          have hxs := (mem_usedBlocks.1 hxm).1
          rw [A.frame.startAddr] at hxs
          exact Frame.data_byte I.toListed A.inv.toListed A.frame hms hxs hk hk
  · split
    · -- There is too little to give back.
      have hbe : (⟨b.size, true⟩ : Block) = b := by rw [← hb]
      exact .inr ⟨h, x, b.size, rfl, ⟨rfl, rfl, ⟨_, _, I, hp, by rw [hbe]; exact hp⟩, fun _ _ _ => rfl, by omega⟩⟩
    · rename_i hsplit
      have hps := I.poolSize_lt
      rw [Word.add_eq (a := request c newsize) (by omega), Word.add_eq (by omega)] at hsplit
      obtain ⟨bs', R⟩ := I.shrink hx hb (show request c newsize + c.memheapSize + c.memheapSize ≤ b.size by omega)
      exact .inr ⟨_, x, _, rfl, R.moved I (Nat.le_refl _)⟩

/-- Nothing is asserted of the free block behind one that grows. -/
theorem HeapInv.rtMemheapRealloc_overgrows (I : HeapInv c h bs) (hm : (x, b) ∈ usedBlocks h.startAddr bs) (h0 : newsize ≠ 0)
    (hgrow : Overgrows c h (x + c.memheapSize) newsize) :
    (h.rtMemheapRealloc c (some (x + c.memheapSize)) newsize).isSome := by
  obtain ⟨hms, hb⟩ := mem_usedBlocks.1 hm
  obtain ⟨ds, es, rfl, hx⟩ := mem_starts.1 hms
  have hH := c.memheapSize_pos
  have hbH := I.header b (by simp)
  obtain ⟨hnext, -, -, -⟩ := I.item_eq hx
  obtain ⟨-, hcan, hlt⟩ := hgrow
  rw [I.memitem_eq hx] at hcan hlt
  rw [Memheap.rtMemheapRealloc, if_neg h0]
  dsimp only
  rw [I.memitem_eq hx, hnext, if_pos (by omega), if_pos (by omega), if_pos hcan]
  rfl

end Memheap

end RtThread
