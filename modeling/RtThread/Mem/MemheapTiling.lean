import RtThread.Lib.Ring
import RtThread.Lib.Tiles
import RtThread.Mem.Memheap

/-!
# The blocks of a memheap tile its pool

`Tiling c h bs`: the block list describes the blocks `bs`, which fill the pool up to the tail. `FreeLinks h fs`: the free
list holds the items `fs`. Either one reads only its own fields of the items, so that an edit of the other list keeps it.
-/

namespace RtThread

open Tiles Rings

namespace MemheapConfig

variable (c : MemheapConfig)

theorem itemSize_le : c.itemSize ≤ c.memheapSize := (Word.rtAlign_spec c.itemSize_lt).1

theorem memheapSize_pos : 0 < c.memheapSize := by
  have := c.itemSize_le
  have := c.itemSize_ge
  omega

theorem minialloc_le : c.minialloc ≤ c.memheapSize := Word.rtAlign_mono c.itemSize_ge c.itemSize_lt

theorem minialloc_pos : 0 < c.minialloc := by
  have := c.itemSize_lt
  have := c.itemSize_ge
  have := (@Word.rtAlign_spec c.toWord 12 (by omega)).1
  unfold minialloc
  omega

end MemheapConfig

namespace MemheapItem

theorem isUsed_used {i : MemheapItem} (h : i.magic = memheapMagic ||| memheapUsed) : i.isUsed = true := by
  rw [isUsed, h]; rfl

theorem isUsed_freed {i : MemheapItem} (h : i.magic = memheapMagic ||| memheapFreed) : i.isUsed = false := by
  rw [isUsed, h]; rfl

end MemheapItem

namespace Memheap

variable {c : MemheapConfig} {h h' : Memheap} {f : MemheapItem → MemheapItem} {bs ds es : List Block} {b b' : Block}
  {x y z n : Nat} {xs ys fs : List Nat}

/-! ## Edits -/

theorem setItem_item {i : MemheapItem} : (h.setItem c x i).item y = if y = x then i else h.item y :=
  Function.update_apply h.item x i y

theorem modItem_item : (h.modItem c x f).item y = if y = x then f (h.item x) else h.item y :=
  Function.update_apply h.item x (f (h.item x)) y

theorem modItem_self : (h.modItem c x f).item x = f (h.item x) := by rw [modItem_item, if_pos rfl]

theorem modItem_ne (hne : y ≠ x) : (h.modItem c x f).item y = h.item y := by rw [modItem_item, if_neg hne]

@[simp] theorem modItem_addr : (h.modItem c x f).addr = h.addr := rfl
@[simp] theorem modItem_startAddr : (h.modItem c x f).startAddr = h.startAddr := rfl
@[simp] theorem modItem_poolSize : (h.modItem c x f).poolSize = h.poolSize := rfl
@[simp] theorem modItem_freeList : (h.modItem c x f).freeList = h.freeList := rfl

/-- A field of the items that `f` keeps. -/
theorem modItem_field {β : Type} (r : MemheapItem → β) (hf : ∀ i, r (f i) = r i) (y : Nat) :
    r ((h.modItem c x f).item y) = r (h.item y) := by
  rw [modItem_item]
  split
  · rename_i he; rw [hf, he]
  · rfl

/-- The items at some addresses may change: the constant fields of the heap stay, and so do the bytes elsewhere. -/
structure Frame (c : MemheapConfig) (h h' : Memheap) (xs : List Nat) : Prop where
  addr : h'.addr = h.addr
  startAddr : h'.startAddr = h.startAddr
  poolSize : h'.poolSize = h.poolSize
  blockList : h'.blockList = h.blockList
  freeList : h'.freeList = h.freeList
  byte : ∀ y, (∀ x ∈ xs, y < x ∨ x + c.memheapSize ≤ y) → h'.mem.byte y = h.mem.byte y

namespace Frame

theorem trans {h1 h2 h3 : Memheap} (h12 : Frame c h1 h2 xs) (h23 : Frame c h2 h3 xs) : Frame c h1 h3 xs :=
  ⟨h23.addr.trans h12.addr, h23.startAddr.trans h12.startAddr, h23.poolSize.trans h12.poolSize,
    h23.blockList.trans h12.blockList, h23.freeList.trans h12.freeList,
    fun y hy => (h23.byte y hy).trans (h12.byte y hy)⟩

theorem mono (he : Frame c h h' xs) (hsub : xs ⊆ ys) : Frame c h h' ys :=
  { he with byte := fun y hy => he.byte y fun x hx => hy x (hsub hx) }

end Frame

/-- An edit of the items at some addresses, which counts nothing. -/
structure Edit (c : MemheapConfig) (h h' : Memheap) (xs : List Nat) : Prop extends Frame c h h' xs where
  availableSize : h'.availableSize = h.availableSize
  maxUsedSize : h'.maxUsedSize = h.maxUsedSize

namespace Edit

theorem trans {h1 h2 h3 : Memheap} (h12 : Edit c h1 h2 xs) (h23 : Edit c h2 h3 xs) : Edit c h1 h3 xs :=
  ⟨h12.toFrame.trans h23.toFrame, h23.availableSize.trans h12.availableSize, h23.maxUsedSize.trans h12.maxUsedSize⟩

theorem modItem (hx : x ∈ xs) (f : MemheapItem → MemheapItem) : Edit c h (h.modItem c x f) xs :=
  ⟨⟨rfl, rfl, rfl, rfl, rfl, fun _ hy => Store.put_byte (hy x hx)⟩, rfl, rfl⟩

end Edit

/-! ## The free list -/

/-- The free list holds the items `fs`. -/
def FreeLinks (h : Memheap) (fs : List Nat) : Prop :=
  Ring (fun x => (h.item x).nextFree) (fun x => (h.item x).prevFree) h.freeList fs

/-- The free list depends on its own fields. -/
theorem FreeLinks.congr (hl : FreeLinks h fs) (hfl : h'.freeList = h.freeList)
    (hn : ∀ y, (h'.item y).nextFree = (h.item y).nextFree) (hp : ∀ y, (h'.item y).prevFree = (h.item y).prevFree) :
    FreeLinks h' fs := by
  rw [FreeLinks, hfl]
  exact Ring.congr hl (fun a _ => hn a) fun a _ => hp a

theorem FreeLinks.modItem (hl : FreeLinks h fs) (x : Nat) (hn : ∀ i, (f i).nextFree = i.nextFree)
    (hp : ∀ i, (f i).prevFree = i.prevFree) : FreeLinks (h.modItem c x f) fs :=
  hl.congr rfl (modItem_field MemheapItem.nextFree hn) (modItem_field MemheapItem.prevFree hp)

theorem FreeLinks.insertBlock (hl : FreeLinks h fs) (x y : Nat) : FreeLinks (h.insertBlock c x y) fs := by
  refine FreeLinks.modItem ?_ _ (fun _ => rfl) fun _ => rfl
  refine FreeLinks.modItem ?_ _ (fun _ => rfl) fun _ => rfl
  exact hl.modItem _ (fun _ => rfl) fun _ => rfl

/-- The nodes around a place of the free list. -/
theorem exists_around (h : Memheap) (ys zs : List Nat) :
    ∃ u v, (h.freeList :: ys).getLast? = some u ∧ (zs ++ [h.freeList]).head? = some v ∧
      u ∈ h.freeList :: ys ∧ v ∈ h.freeList :: zs := by
  obtain ⟨u, hu⟩ := Option.isSome_iff_exists.1 (show ((h.freeList :: ys).getLast?).isSome by simp)
  obtain ⟨v, hv⟩ := Option.isSome_iff_exists.1 (show ((zs ++ [h.freeList]).head?).isSome by cases zs <;> simp)
  refine ⟨u, v, hu, hv, List.mem_of_getLast? hu, ?_⟩
  rcases List.mem_append.1 (List.mem_of_mem_head? hv) with hm | hm
  · exact List.mem_cons_of_mem _ hm
  · rw [List.mem_singleton.1 hm]; exact List.mem_cons_self

theorem FreeLinks.removeFree {zs : List Nat} (hl : FreeLinks h (ys ++ x :: zs)) :
    FreeLinks (h.removeFree c x) (ys ++ zs) ∧ Edit c h (h.removeFree c x) (h.freeList :: (ys ++ x :: zs)) := by
  obtain ⟨u, v, hu, hv, hum, hvm⟩ := exists_around h ys zs
  have hnd := hl.nodup
  have hxv : x ≠ v := by
    rintro rfl
    have : (x :: h.freeList :: zs).Nodup := by
      refine (List.Perm.swap _ _ _).nodup_iff.1 (hnd.sublist ?_)
      exact List.Sublist.cons_cons _ (List.sublist_append_right ys (x :: zs))
    exact (List.nodup_cons.1 this).1 hvm
  have hprev : (h.item x).prevFree = u := (Ring.link hl hu rfl).2
  have hnext : (h.item x).nextFree = v := by
    have hl' : Ring (fun x => (h.item x).nextFree) (fun x => (h.item x).prevFree) h.freeList ((ys ++ [x]) ++ zs) := by
      rw [List.append_assoc]; exact hl
    exact (Ring.link hl' (by rw [← List.cons_append]; exact List.getLast?_concat) hv).1
  have he : h.removeFree c x =
      (h.modItem c v fun i => { i with prevFree := u }).modItem c u fun i => { i with nextFree := v } := by
    rw [Memheap.removeFree, hnext, hprev]
    simp only [modItem_ne hxv, hprev, hnext]
  rw [he]
  refine ⟨Ring.remove hl hu hv ?_ ?_ (fun a hau _ => ?_) fun a hav _ => ?_, ?_⟩
  · simp only [modItem_self]
  · grind [modItem_item]
  · grind [modItem_item]
  · grind [modItem_item]
  · refine (Edit.modItem ?_ _).trans (Edit.modItem ?_ _) <;> simp only [List.mem_cons, List.mem_append] at hum hvm ⊢
    · rcases hvm with hm | hm <;> simp [hm]
    · rcases hum with hm | hm <;> simp [hm]

theorem FreeLinks.insertFree (hl : FreeLinks h fs) (hx : x ∉ h.freeList :: fs) :
    FreeLinks (h.insertFree c x) (x :: fs) ∧ Edit c h (h.insertFree c x) (x :: h.freeList :: fs) := by
  obtain ⟨u, v, hu, hv, -, hvm⟩ := exists_around h [] fs
  obtain rfl : h.freeList = u := by simpa using hu
  have hxh : h.freeList ≠ x := fun e => hx (by simp [e])
  have hnext : (h.item h.freeList).nextFree = v := (Ring.link (show Ring _ _ _ ([] ++ fs) from hl) hu hv).1
  have he : h.insertFree c x =
      ((h.modItem c x fun i => { i with nextFree := v, prevFree := h.freeList }).modItem c v
        fun i => { i with prevFree := x }).modItem c h.freeList fun i => { i with nextFree := x } := by
    rw [Memheap.insertFree, hnext]
    simp only [modItem_freeList, modItem_ne hxh, hnext]
  rw [he]
  refine ⟨Ring.insert (show Ring _ _ _ ([] ++ fs) from hl) hx hu hv ?_ ?_ ?_ ?_ (fun a hau hax => ?_) fun a hav hax => ?_, ?_⟩
  · simp only [modItem_self]
  · grind [modItem_item]
  · grind [modItem_item]
  · grind [modItem_item]
  · grind [modItem_item]
  · grind [modItem_item]
  · refine ((Edit.modItem ?_ _).trans (Edit.modItem ?_ _)).trans (Edit.modItem ?_ _)
    · simp
    · exact List.mem_cons_of_mem _ hvm
    · simp

theorem FreeLinks.insertFreeBefore {zs : List Nat} (hl : FreeLinks h (ys ++ zs)) (hx : x ∉ h.freeList :: (ys ++ zs))
    (hn : (zs ++ [h.freeList]).head? = some n) :
    FreeLinks (h.insertFreeBefore c x n) (ys ++ x :: zs) ∧
      Edit c h (h.insertFreeBefore c x n) (x :: h.freeList :: (ys ++ zs)) := by
  obtain ⟨u, v, hu, hv, hum, hvm⟩ := exists_around h ys zs
  obtain rfl : v = n := Option.some.inj (hv.symm.trans hn)
  have hxv : v ≠ x := by
    rintro rfl
    exact hx (List.cons_subset_cons _ (List.subset_append_right _ _) hvm)
  have hprev : (h.item v).prevFree = u := (Ring.link hl hu hv).2
  have he : h.insertFreeBefore c x v =
      ((h.modItem c x fun i => { i with nextFree := v, prevFree := u }).modItem c u
        fun i => { i with nextFree := x }).modItem c v fun i => { i with prevFree := x } := by
    rw [Memheap.insertFreeBefore, hprev]
    simp only [modItem_ne hxv, hprev]
  rw [he]
  refine ⟨Ring.insert hl hx hu hv ?_ ?_ ?_ ?_ (fun a hau hax => ?_) fun a hav hax => ?_, ?_⟩
  · grind [modItem_item]
  · grind [modItem_item]
  · grind [modItem_item]
  · simp only [modItem_self]
  · grind [modItem_item]
  · grind [modItem_item]
  · refine ((Edit.modItem ?_ _).trans (Edit.modItem ?_ _)).trans (Edit.modItem ?_ _)
    · simp
    · rw [← List.cons_append]; exact List.mem_cons_of_mem _ (List.mem_append_left _ hum)
    · exact List.mem_cons_of_mem _ (List.cons_subset_cons _ (List.subset_append_right _ _) hvm)

/-! ## The block list -/

/-- The headers of the items; the tail ends where the pool does. -/
def headers (h : Memheap) : Headers where
  next x := if (h.item x).next = h.startAddr then h.startAddr + h.poolSize else (h.item x).next
  prev x := (h.item x).prev
  used x := (h.item x).isUsed
  valid x := ((h.item x).magic = memheapMagic ||| memheapUsed ∨ (h.item x).magic = memheapMagic ||| memheapFreed) ∧
    (h.item x).poolPtr = h.addr ∧ (h.item x).next ≠ h.startAddr + h.poolSize

/-- The block list from `block_list` on describes the blocks, and then the tail. -/
structure Tiling (c : MemheapConfig) (h : Memheap) (bs : List Block) : Prop where
  seg : Seg h.headers (h.startAddr + extent bs) h.startAddr (bs ++ [⟨c.memheapSize, true⟩]) (h.startAddr + h.poolSize)
  header : ∀ b ∈ bs, c.memheapSize ≤ b.size
  blockList : h.blockList = h.startAddr
  room : h.startAddr + h.poolSize ≤ 2 ^ c.bits

/-- Two heaps have the same blocks if the fields of the block list agree. -/
theorem Tiling.congr (T : Tiling c h bs) (he : Frame c h h' xs) (hh : h'.headers = h.headers) : Tiling c h' bs where
  seg := by rw [hh, he.startAddr, he.poolSize]; exact T.seg
  header := T.header
  blockList := by rw [he.blockList, he.startAddr, T.blockList]
  room := by rw [he.startAddr, he.poolSize]; exact T.room

theorem headers_modItem (hf : ∀ i, (f i).next = i.next ∧ (f i).prev = i.prev ∧ (f i).magic = i.magic ∧
    (f i).poolPtr = i.poolPtr) : (h.modItem c x f).headers = h.headers := by
  have h1 := modItem_field (c := c) (h := h) (x := x) MemheapItem.next fun i => (hf i).1
  have h2 := modItem_field (c := c) (h := h) (x := x) MemheapItem.prev fun i => (hf i).2.1
  have h3 := modItem_field (c := c) (h := h) (x := x) MemheapItem.magic fun i => (hf i).2.2.1
  have h4 := modItem_field (c := c) (h := h) (x := x) MemheapItem.poolPtr fun i => (hf i).2.2.2
  simp only [headers, MemheapItem.isUsed, h1, h2, h3, h4, modItem_addr, modItem_startAddr, modItem_poolSize]

section

variable (c : MemheapConfig) (h : Memheap)

theorem headers_removeFree (x : Nat) : (h.removeFree c x).headers = h.headers := by
  refine (headers_modItem ?_).trans (headers_modItem ?_) <;> exact fun _ => ⟨rfl, rfl, rfl, rfl⟩

theorem headers_takeFree (x : Nat) : (h.takeFree c x).headers = h.headers := by
  refine (headers_modItem ?_).trans (headers_removeFree c h x)
  exact fun _ => ⟨rfl, rfl, rfl, rfl⟩

theorem headers_insertFree (x : Nat) : (h.insertFree c x).headers = h.headers := by
  refine (headers_modItem ?_).trans ((headers_modItem ?_).trans (headers_modItem ?_)) <;>
    exact fun _ => ⟨rfl, rfl, rfl, rfl⟩

theorem headers_insertFreeBefore (x n : Nat) : (h.insertFreeBefore c x n).headers = h.headers := by
  refine (headers_modItem ?_).trans ((headers_modItem ?_).trans (headers_modItem ?_)) <;>
    exact fun _ => ⟨rfl, rfl, rfl, rfl⟩

end

namespace Tiling

theorem extent_eq (T : Tiling c h bs) : h.poolSize = extent bs + c.memheapSize := by
  have := T.seg.end_eq
  simp only [extent_append, extent_cons, extent_nil] at this
  omega

theorem pos (T : Tiling c h bs) : ∀ b ∈ bs ++ [(⟨c.memheapSize, true⟩ : Block)], 0 < b.size := by
  intro b hb
  have hH := c.memheapSize_pos
  rcases List.mem_append.1 hb with hb | hb
  · exact Nat.lt_of_lt_of_le hH (T.header b hb)
  · rw [List.mem_singleton.1 hb]; exact hH

/-- What the items of a block and of the one behind it say. -/
theorem item_eq (T : Tiling c h (ds ++ b :: es)) (hx : x = h.startAddr + extent ds) :
    (h.item x).next = x + b.size ∧ (h.item x).isUsed = b.used ∧ h.headers.valid x ∧
      x + b.size + c.memheapSize ≤ h.startAddr + h.poolSize := by
  have hext := T.extent_eq
  have hH := c.memheapSize_pos
  have hs := T.seg
  rw [List.append_assoc, List.cons_append] at hs
  obtain ⟨-, -, hn, hu, hv, -⟩ := seg_append.1 hs
  rw [← hx] at hn hu hv
  simp only [extent_append, extent_cons] at hext
  refine ⟨?_, hu, hv, by omega⟩
  simp only [headers] at hn
  split at hn
  · omega
  · exact hn

/-- The block behind is the tail or the next one. -/
theorem next_item (T : Tiling c h (ds ++ b :: es)) (hx : x = h.startAddr + extent ds) :
    (h.item (x + b.size)).isUsed = (es.head?.map Block.used).getD true ∧ h.headers.valid (x + b.size) ∧
      (h.item (x + b.size)).prev = x := by
  have hs := T.seg
  rw [List.append_assoc, List.cons_append] at hs
  obtain ⟨-, -, -, -, -, hs⟩ := seg_append.1 hs
  rw [← hx] at hs
  cases es with
  | nil => exact ⟨hs.2.2.1, hs.2.2.2.1, hs.1⟩
  | cons d es => exact ⟨hs.2.2.1, hs.2.2.2.1, hs.1⟩

/-- The tail. -/
theorem tail_item (T : Tiling c h bs) : (h.item (h.startAddr + extent bs)).isUsed = true ∧
    (h.item (h.startAddr + extent bs)).next = h.startAddr := by
  have hext := T.extent_eq
  obtain ⟨-, -, hn, hu, ⟨-, -, hne⟩, -⟩ := seg_append.1 T.seg
  refine ⟨hu, ?_⟩
  simp only [headers] at hn
  split at hn
  · assumption
  · omega

/-- Items whose fields of the block list agree, up to `prev`. -/
theorem agree (he : Frame c h h' xs) (hn : (h'.item y).next = (h.item y).next) (hm : (h'.item y).magic = (h.item y).magic)
    (hp : (h'.item y).poolPtr = (h.item y).poolPtr) : Agree h.headers h'.headers y where
  next := by simp only [headers, hn, he.startAddr, he.poolSize]
  used := by simp only [headers, MemheapItem.isUsed, hm]
  valid hv := by simpa only [headers, hn, hm, hp, he.startAddr, he.poolSize, he.addr] using hv

/-- A new free block behind the first `n` bytes of the block at `x`. -/
theorem insertBlock (T : Tiling c h (ds ++ b :: es)) (hx : x = h.startAddr + extent ds) (hn : c.memheapSize ≤ n)
    (hnb : n + c.memheapSize ≤ b.size) :
    Tiling c (h.insertBlock c x (x + n)) (ds ++ ⟨n, b.used⟩ :: ⟨b.size - n, false⟩ :: es) ∧
      Edit c h (h.insertBlock c x (x + n)) [x, x + n, x + b.size] := by
  have hH := c.memheapSize_pos
  obtain ⟨hnext, -, -, hend⟩ := T.item_eq hx
  have he : h.insertBlock c x (x + n) =
      ((h.modItem c (x + n) fun i =>
        { i with magic := memheapMagic ||| memheapFreed, poolPtr := h.addr, prev := x, next := x + b.size }).modItem c
          (x + b.size) fun i => { i with prev := x + n }).modItem c x fun i => { i with next := x + n } := by
    rw [Memheap.insertBlock, hnext]
    simp only [modItem_ne (show x ≠ x + n by omega), hnext]
  have hE : Edit c h (h.insertBlock c x (x + n)) [x, x + n, x + b.size] := by
    rw [he]
    exact ((Edit.modItem (by simp) _).trans (Edit.modItem (by simp) _)).trans (Edit.modItem (by simp) _)
  set h' := h.insertBlock c x (x + n)
  have hx1 : h'.item x = { h.item x with next := x + n } := by
    rw [he, modItem_self, modItem_ne (by omega), modItem_ne (by omega)]
  have hx2 : h'.item (x + n) = { h.item (x + n) with
      magic := memheapMagic ||| memheapFreed, poolPtr := h.addr, prev := x, next := x + b.size } := by
    rw [he, modItem_ne (by omega), modItem_ne (by omega), modItem_self]
  have hx3 : h'.item (x + b.size) = { h.item (x + b.size) with prev := x + n } := by
    rw [he, modItem_ne (by omega), modItem_self, modItem_ne (by omega)]
  have hother {y : Nat} (h1 : y ≠ x) (h2 : y ≠ x + n) (h3 : y ≠ x + b.size) : h'.item y = h.item y := by
    rw [he, modItem_ne h1, modItem_ne h3, modItem_ne h2]
  have hs := T.seg
  have hpos := T.pos
  rw [List.append_assoc, List.cons_append] at hs hpos
  refine ⟨⟨?_, fun d hd => ?_, ?_, ?_⟩, hE⟩
  · have hext : extent (ds ++ ⟨n, b.used⟩ :: ⟨b.size - n, false⟩ :: es) = extent (ds ++ b :: es) := by
      simp only [extent_append, extent_cons]
      omega
    rw [hext, hE.startAddr, hE.poolSize, List.append_assoc, List.cons_append, List.cons_append]
    refine hs.split hpos hx (by omega) (by omega) ⟨?_, ?_, fun hv => ?_⟩ ⟨?_, ?_, ?_, ?_⟩ (fun _ => ?_) (fun y h1 h2 => ?_)
      fun y h1 h2 => ?_
    · simp only [headers, hx1, hE.startAddr]
      exact if_neg (by omega)
    · simp only [headers, hx1, MemheapItem.isUsed]
    · simp only [headers, hx1, hE.startAddr, hE.poolSize, hE.addr] at hv ⊢
      exact ⟨hv.1, hv.2.1, by omega⟩
    · simp only [headers, hx2, hE.startAddr]
      exact if_neg (by omega)
    · simp only [headers, hx2]
    · simp only [headers, hx2]
      exact MemheapItem.isUsed_freed rfl
    · simp only [headers, hx2, hE.startAddr, hE.poolSize, hE.addr]
      exact ⟨.inr trivial, trivial, by omega⟩
    · simp only [headers, hx3]
    · by_cases h3 : y = x + b.size
      · rw [h3]
        exact agree hE.toFrame (by rw [hx3]) (by rw [hx3]) (by rw [hx3])
      · exact agree hE.toFrame (by rw [hother h1 h2 h3]) (by rw [hother h1 h2 h3]) (by rw [hother h1 h2 h3])
    · simp only [headers]
      by_cases h3 : y = x
      · rw [h3, hx1]
      · rw [hother h3 h1 h2]
  · simp only [List.mem_append, List.mem_cons] at hd
    rcases hd with hd | rfl | rfl | hd
    · exact T.header d (by simp [hd])
    · exact hn
    · dsimp only; omega
    · exact T.header d (by simp [hd])
  · rw [hE.blockList, hE.startAddr, T.blockList]
  · rw [hE.startAddr, hE.poolSize]; exact T.room

/-- The block at `x` takes over the block behind it. -/
theorem join (T : Tiling c h (ds ++ b :: b' :: es)) (hx : x = h.startAddr + extent ds) (hE : Frame c h h' xs)
    (hx1 : h'.item x = { h.item x with next := x + b.size + b'.size })
    (hx3 : h'.item (x + b.size + b'.size) = { h.item (x + b.size + b'.size) with prev := x })
    (hother : ∀ y, y ≠ x → y ≠ x + b.size + b'.size → (h'.item y).next = (h.item y).next ∧
      (h'.item y).magic = (h.item y).magic ∧ (h'.item y).poolPtr = (h.item y).poolPtr ∧
      (y ≠ x + b.size → (h'.item y).prev = (h.item y).prev)) :
    Tiling c h' (ds ++ ⟨b.size + b'.size, b.used⟩ :: es) := by
  have hH := c.memheapSize_pos
  have hb := T.header b (by simp)
  have hx' : x + b.size = h.startAddr + extent (ds ++ [b]) := by simp [hx, Nat.add_assoc]
  have hend' := (@Tiling.item_eq c _ (ds ++ [b]) es b' _ (by simpa using T) hx').2.2.2
  have hs := T.seg
  have hpos := T.pos
  rw [List.append_assoc, List.cons_append, List.cons_append] at hs hpos
  refine ⟨?_, fun d hd => ?_, ?_, ?_⟩
  · have hext : extent (ds ++ ⟨b.size + b'.size, b.used⟩ :: es) = extent (ds ++ b :: b' :: es) := by
      simp only [extent_append, extent_cons]
      omega
    rw [hext, hE.startAddr, hE.poolSize, List.append_assoc, List.cons_append]
    refine hs.join hpos hx ⟨?_, ?_, fun hv => ?_⟩ (fun _ => ?_) (fun y h1 h2 => ?_) fun y h1 h2 => ?_
    · simp only [headers, hx1, hE.startAddr]
      exact if_neg (by omega)
    · simp only [headers, hx1, MemheapItem.isUsed]
    · simp only [headers, hx1, hE.startAddr, hE.poolSize, hE.addr] at hv ⊢
      exact ⟨hv.1, hv.2.1, by omega⟩
    · simp only [headers, hx3]
    · by_cases h3 : y = x + b.size + b'.size
      · rw [h3]
        exact agree hE (by rw [hx3]) (by rw [hx3]) (by rw [hx3])
      · obtain ⟨h4, h5, h6, -⟩ := hother y h1 h3
        exact agree hE h4 h5 h6
    · simp only [headers]
      by_cases h3 : y = x
      · rw [h3, hx1]
      · exact (hother y h3 h2).2.2.2 h1
  · simp only [List.mem_append, List.mem_cons] at hd
    rcases hd with hd | rfl | hd
    · exact T.header d (by simp [hd])
    · dsimp only; omega
    · exact T.header d (by simp [hd])
  · rw [hE.blockList, hE.startAddr, T.blockList]
  · rw [hE.startAddr, hE.poolSize]; exact T.room

/-- The block at `x` is marked. -/
theorem mark (T : Tiling c h (ds ++ b :: es)) (hx : x = h.startAddr + extent ds) {m : Nat} {u : Bool}
    (hm : m = memheapMagic ||| memheapUsed ∧ u = true ∨ m = memheapMagic ||| memheapFreed ∧ u = false) :
    Tiling c (h.modItem c x fun i => { i with magic := m }) (ds ++ ⟨b.size, u⟩ :: es) := by
  have hE : Edit c h (h.modItem c x fun i => { i with magic := m }) [x] := Edit.modItem (by simp) _
  have hs := T.seg
  have hpos := T.pos
  rw [List.append_assoc, List.cons_append] at hs hpos
  refine ⟨?_, fun d hd => ?_, T.blockList, T.room⟩
  · have hext : extent (ds ++ ⟨b.size, u⟩ :: es) = extent (ds ++ b :: es) := by simp
    rw [hext, List.append_assoc, List.cons_append]
    refine hs.mark hpos hx ?_ (fun y => ?_) ?_ ?_ fun y hy => ?_
    · simp only [headers, modItem_self, modItem_startAddr, modItem_poolSize]
    · refine modItem_field MemheapItem.prev ?_ y
      exact fun _ => rfl
    · simp only [headers, modItem_self]
      rcases hm with ⟨rfl, rfl⟩ | ⟨rfl, rfl⟩
      · exact MemheapItem.isUsed_used rfl
      · exact MemheapItem.isUsed_freed rfl
    · have hv := (T.item_eq hx).2.2.1
      simp only [headers, modItem_self, modItem_startAddr, modItem_poolSize, modItem_addr] at hv ⊢
      exact ⟨hm.imp And.left And.left, hv.2⟩
    · exact agree hE.toFrame (by rw [modItem_ne hy]) (by rw [modItem_ne hy]) (by rw [modItem_ne hy])
  · simp only [List.mem_append, List.mem_cons] at hd
    rcases hd with hd | rfl | hd
    · exact T.header d (by simp [hd])
    · exact T.header b (by simp)
    · exact T.header d (by simp [hd])

end Tiling

end Memheap

end RtThread
