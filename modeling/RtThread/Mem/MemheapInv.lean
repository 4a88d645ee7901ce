import RtThread.Mem.MemheapTiling

/-!
# The invariant of a memheap

`HeapInv c h bs`: the blocks `bs` tile the pool, the free list holds the free ones, no two of which stand next to each
other, and `available_size` adds them up. Inside an operation the two lists may disagree (`Loose`); each edit of one of
them is a step there.
-/

namespace RtThread

open Tiles Rings

namespace Memheap

variable {c : MemheapConfig} {h h' h1 h2 : Memheap} {bs ds es : List Block} {b b' : Block} {x y n size newsize : Nat}
  {xs ys zs fs as cs : List Nat} {cs' : List Block}

/-! ## The invariant -/

/-- The places of the free blocks. -/
def freeStarts (h : Memheap) (bs : List Block) : List Nat := (freeBlocks h.startAddr bs).map Prod.fst

/-- The blocks tile the pool, and the free list holds the free ones. -/
structure Listed (c : MemheapConfig) (h : Memheap) (bs : List Block) : Prop extends Tiling c h bs where
  free : ∃ fs, FreeLinks h fs ∧ fs.Perm (freeStarts h bs)
  apart : h.freeList + c.memheapSize ≤ h.startAddr ∨ h.startAddr + h.poolSize ≤ h.freeList

/-- The invariant of the heap. -/
structure HeapInv (c : MemheapConfig) (h : Memheap) (bs : List Block) : Prop extends Listed c h bs where
  merged : Merged bs
  available : h.availableSize = freeRoom c.memheapSize bs
  used : h.poolSize ≤ h.availableSize + h.maxUsedSize
  maxUsed : h.maxUsedSize ≤ h.poolSize
  poolSize_lt : h.poolSize < 2 ^ c.bits

/-- The places of the items of the heap. -/
def places (c : MemheapConfig) (h : Memheap) (bs : List Block) : List Nat :=
  h.freeList :: (starts h.startAddr (bs ++ [⟨c.memheapSize, true⟩])).map Prod.fst

theorem mem_places (ds es : List Block) (hx : x = h.startAddr + extent ds) : x ∈ places c h (ds ++ es) := by
  refine List.mem_cons_of_mem _ ?_
  rw [List.append_assoc, starts_append, List.map_append, ← hx]
  cases es <;> simp

theorem mem_places_of (ds es : List Block) (hx : x = h.startAddr + extent ds) (hbs : bs = ds ++ es) :
    x ∈ places c h bs := hbs ▸ mem_places ds es hx

theorem places_congr (he : Frame c h h' xs) (bs : List Block) : places c h' bs = places c h bs := by
  rw [places, places, he.freeList, he.startAddr]

theorem freeStarts_congr (he : Frame c h h' xs) (bs : List Block) : freeStarts h' bs = freeStarts h bs := by
  rw [freeStarts, freeStarts, he.startAddr]

theorem freeStarts_append_cons (hx : x = h.startAddr + extent ds) (hb : b.used = false) :
    freeStarts h (ds ++ b :: es) =
      freeStarts h ds ++ x :: (freeBlocks (x + b.size) es).map Prod.fst := by
  rw [freeStarts, freeBlocks_append, freeBlocks_cons_free hb, List.map_append, List.map_cons, ← hx, freeStarts]

theorem freeStarts_append_cons_used (hx : x = h.startAddr + extent ds) (hb : b.used = true) :
    freeStarts h (ds ++ b :: es) = freeStarts h ds ++ (freeBlocks (x + b.size) es).map Prod.fst := by
  rw [freeStarts, freeBlocks_append, freeBlocks_cons_used hb, List.map_append, ← hx, freeStarts]

theorem mem_freeStarts : x ∈ freeStarts h bs ↔ ∃ b, (x, b) ∈ starts h.startAddr bs ∧ b.used = false := by
  simp only [freeStarts, List.mem_map, Prod.exists, mem_freeBlocks]
  constructor
  · rintro ⟨_, b, hm, rfl⟩
    exact ⟨b, hm⟩
  · rintro ⟨b, hm⟩
    exact ⟨x, b, hm, rfl⟩

theorem freeStarts_subset_places (bs : List Block) : freeStarts h bs ⊆ places c h bs := by
  intro x hx
  obtain ⟨b, hm, -⟩ := mem_freeStarts.1 hx
  obtain ⟨ds, es, rfl, hd⟩ := mem_starts.1 hm
  exact mem_places ds (b :: es) hd

theorem subset_places (hp : fs.Perm (freeStarts h bs)) : h.freeList :: fs ⊆ places c h bs := by
  intro x hx
  rcases List.mem_cons.1 hx with rfl | hx
  · exact List.mem_cons_self
  · exact freeStarts_subset_places bs (hp.mem_iff.1 hx)

section

variable (L : Listed c h (ds ++ b :: es)) (hp : fs.Perm (freeStarts h (ds ++ b :: es)))
  (hx : x = h.startAddr + extent ds)

include L hp hx

/-- An address inside a block is not on the free list. -/
theorem Listed.not_mem (hy : x < y) (hyb : y < x + b.size) : y ∉ h.freeList :: fs := by
  have hend := (L.item_eq hx).2.2.2
  have hap := L.apart
  intro hm
  rcases List.mem_cons.1 hm with rfl | hm
  · omega
  · obtain ⟨d, hd, -⟩ := mem_freeStarts.1 (hp.mem_iff.1 hm)
    have hxm : (x, b) ∈ starts h.startAddr (ds ++ b :: es) := mem_starts.2 ⟨ds, es, rfl, hx⟩
    obtain ⟨ds', es', he, -⟩ := mem_starts.1 hd
    have := apart_of_ne hxm hd fun e => by
      have := (Prod.mk.inj e).1
      omega
    simp only [Apart] at this
    omega

/-- A used block is not on the free list. -/
theorem Listed.not_mem_used (hb : b.used = true) : x ∉ h.freeList :: fs := by
  have hend := (L.item_eq hx).2.2.2
  have hH := c.memheapSize_pos
  have hap := L.apart
  have hbs := L.header b (by simp)
  intro hm
  rcases List.mem_cons.1 hm with he | hm
  · omega
  · obtain ⟨d, hd, hdu⟩ := mem_freeStarts.1 (hp.mem_iff.1 hm)
    have hxm : (x, b) ∈ starts h.startAddr (ds ++ b :: es) := mem_starts.2 ⟨ds, es, rfl, hx⟩
    by_cases he : (x, b) = (x, d)
    · rw [← (Prod.mk.inj he).2, hb] at hdu
      cases hdu
    · have := apart_of_ne hxm hd he
      obtain ⟨ds', es', he', -⟩ := mem_starts.1 hd
      have hdpos := L.header d (by rw [he']; simp)
      simp only [Apart] at this
      omega

end

/-- The size of a block without its header, from the item. -/
theorem Tiling.memitemSize_eq (T : Tiling c h (ds ++ b :: es)) (hx : x = h.startAddr + extent ds) :
    h.memitemSize c x = b.size - c.memheapSize := by
  obtain ⟨hnext, -, -, hend⟩ := T.item_eq hx
  have hH := c.memheapSize_pos
  have hb := T.header b (by simp)
  have hroom := T.room
  rw [memitemSize, hnext, Word.sub_eq (Nat.le_add_right _ _) (by omega), Nat.add_sub_cancel_left,
    Word.sub_eq hb (by omega)]

theorem FreeLinks.takeFree (hl : FreeLinks h (ys ++ x :: zs)) :
    FreeLinks (h.takeFree c x) (ys ++ zs) ∧ Edit c h (h.takeFree c x) (h.freeList :: (ys ++ x :: zs)) := by
  obtain ⟨h1, he⟩ := hl.removeFree (c := c)
  have hx : x ∉ h.freeList :: (ys ++ zs) := by
    have hnd : (x :: h.freeList :: (ys ++ zs)).Nodup :=
      ((List.perm_middle.cons _).trans (List.Perm.swap _ _ _)).nodup_iff.1 hl.nodup
    exact (List.nodup_cons.1 hnd).1
  have hne (a : Nat) (ha : a ∈ (h.removeFree c x).freeList :: (ys ++ zs)) : a ≠ x := by
    rintro rfl
    exact hx ha
  refine ⟨?_, he.trans (Edit.modItem (by simp) _)⟩
  unfold Memheap.takeFree
  refine Ring.congr h1 (fun a ha => ?_) fun a ha => ?_ <;> rw [modItem_ne (hne a ha)]

/-! ## Inside an operation -/

/-- Inside an operation that started in `h0` and may change the items `xs`: the blocks tile the pool, and the free list
holds the items `L`, whether they are the free blocks or not. -/
structure Loose (c : MemheapConfig) (h0 : Memheap) (xs : List Nat) (h : Memheap) (bs : List Block) (L : List Nat)
    (available maxUsed : Nat) : Prop where
  tiling : Tiling c h bs
  links : ∃ fs, FreeLinks h fs ∧ fs.Perm L
  frame : Frame c h0 h xs
  nodes : h0.freeList :: L ⊆ xs
  availableSize : h.availableSize = available
  maxUsedSize : h.maxUsedSize = maxUsed

namespace Loose

variable {h0 : Memheap} {L L' : List Nat} {a m k : Nat}

theorem insertBlock (W : Loose c h0 xs h (ds ++ b :: es) L a m) (hx : x = h0.startAddr + extent ds)
    (hn : c.memheapSize ≤ n) (hnb : n + c.memheapSize ≤ b.size) (hxs : [x, x + n, x + b.size] ⊆ xs) :
    Loose c h0 xs (h.insertBlock c x (x + n)) (ds ++ ⟨n, b.used⟩ :: ⟨b.size - n, false⟩ :: es) L a m := by
  have hx' : x = h.startAddr + extent ds := by rw [W.frame.startAddr]; exact hx
  obtain ⟨T, E⟩ := W.tiling.insertBlock hx' hn hnb
  obtain ⟨fs, hl, hp⟩ := W.links
  exact ⟨T, ⟨fs, hl.insertBlock x (x + n), hp⟩, W.frame.trans (E.toFrame.mono hxs), W.nodes,
    E.availableSize.trans W.availableSize, E.maxUsedSize.trans W.maxUsedSize⟩

section

variable (W : Loose c h0 xs h bs L a m)

include W

/-- An edit of the free list that keeps the headers. -/
theorem relink (E : Edit c h h' ys) (hys : ys ⊆ xs) (hh : h'.headers = h.headers)
    (hl : FreeLinks h' fs) (hp : fs.Perm L') (hL : L' ⊆ xs) : Loose c h0 xs h' bs L' a m :=
  ⟨W.tiling.congr E.toFrame hh, ⟨fs, hl, hp⟩, W.frame.trans (E.toFrame.mono hys),
    List.cons_subset.2 ⟨W.nodes List.mem_cons_self, hL⟩, E.availableSize.trans W.availableSize,
    E.maxUsedSize.trans W.maxUsedSize⟩

/-- The places of the free list may be changed. -/
theorem links_subset (hp : fs.Perm L) : h.freeList :: fs ⊆ xs := by
  rw [W.frame.freeList]
  exact List.Subset.trans (List.cons_subset_cons _ hp.subset) W.nodes

theorem exists_split (hL : L.Perm (x :: L')) :
    ∃ ys zs, FreeLinks h (ys ++ x :: zs) ∧ (ys ++ x :: zs).Perm L ∧ (ys ++ zs).Perm L' ∧ L' ⊆ xs := by
  obtain ⟨fs, hl, hp⟩ := W.links
  obtain ⟨ys, zs, rfl⟩ := List.append_of_mem ((hp.trans hL).mem_iff.2 List.mem_cons_self)
  refine ⟨ys, zs, hl, hp, (List.perm_middle.symm.trans (hp.trans hL)).cons_inv, fun y hy => ?_⟩
  exact W.nodes (List.mem_cons_of_mem _ (hL.mem_iff.2 (List.mem_cons_of_mem _ hy)))

theorem removeFree (hL : L.Perm (x :: L')) : Loose c h0 xs (h.removeFree c x) bs L' a m := by
  obtain ⟨ys, zs, hl, hp, hp', hL'⟩ := W.exists_split hL
  obtain ⟨hl', E⟩ := hl.removeFree (c := c)
  exact W.relink E (W.links_subset hp) (headers_removeFree c h x) hl' hp' hL'

theorem takeFree (hL : L.Perm (x :: L')) : Loose c h0 xs (h.takeFree c x) bs L' a m := by
  obtain ⟨ys, zs, hl, hp, hp', hL'⟩ := W.exists_split hL
  obtain ⟨hl', E⟩ := hl.takeFree (c := c)
  exact W.relink E (W.links_subset hp) (headers_takeFree c h x) hl' hp' hL'

theorem insertFree (hx : x ∉ h0.freeList :: L) (hxs : x ∈ xs) :
    Loose c h0 xs (h.insertFree c x) bs (x :: L) a m := by
  obtain ⟨fs, hl, hp⟩ := W.links
  obtain ⟨hl', E⟩ := hl.insertFree (c := c) (x := x) (by
    rw [W.frame.freeList]
    exact fun hm => hx ((hp.cons _).mem_iff.1 hm))
  refine W.relink E (List.cons_subset.2 ⟨hxs, W.links_subset hp⟩) (headers_insertFree c h x) hl' (hp.cons x) ?_
  exact List.cons_subset.2 ⟨hxs, (List.cons_subset.1 W.nodes).2⟩

theorem insertFreeBefore (hl : FreeLinks h (ys ++ zs)) (hp : (ys ++ zs).Perm L)
    (hx : x ∉ h0.freeList :: L) (hn : (zs ++ [h.freeList]).head? = some n) (hxs : x ∈ xs) :
    Loose c h0 xs (h.insertFreeBefore c x n) bs (x :: L) a m := by
  obtain ⟨hl', E⟩ := hl.insertFreeBefore (c := c) (x := x) (by
    rw [W.frame.freeList]
    exact fun hm => hx ((hp.cons _).mem_iff.1 hm)) hn
  refine W.relink E (List.cons_subset.2 ⟨hxs, W.links_subset hp⟩) (headers_insertFreeBefore c h x n) hl'
    (List.perm_middle.trans (hp.cons x)) ?_
  exact List.cons_subset.2 ⟨hxs, (List.cons_subset.1 W.nodes).2⟩

/-- The counters do not matter. -/
theorem count (a' m' : Nat) :
    Loose c h0 xs { h with availableSize := a', maxUsedSize := m' } bs L a' m' :=
  ⟨@Tiling.congr _ _ _ _ [] W.tiling ⟨rfl, rfl, rfl, rfl, rfl, fun _ _ => rfl⟩ rfl, W.links,
    W.frame.trans ⟨rfl, rfl, rfl, rfl, rfl, fun _ _ => rfl⟩, W.nodes, rfl, rfl⟩

end

theorem setAvailable (W : Loose c h0 xs h bs L a h0.maxUsedSize) (n : Nat) :
    Loose c h0 xs (h.setAvailable c n) bs L n (h0.setAvailable c n).maxUsedSize :=
  ⟨@Tiling.congr _ _ _ _ [] W.tiling ⟨rfl, rfl, rfl, rfl, rfl, fun _ _ => rfl⟩ rfl, W.links,
    W.frame.trans ⟨rfl, rfl, rfl, rfl, rfl, fun _ _ => rfl⟩, W.nodes, rfl, by
      simp only [Memheap.setAvailable, W.maxUsedSize, W.frame.poolSize]⟩

theorem mark (W : Loose c h0 xs h (ds ++ b :: es) L a m) (hx : x = h0.startAddr + extent ds) {u : Bool}
    (hk : k = memheapMagic ||| memheapUsed ∧ u = true ∨ k = memheapMagic ||| memheapFreed ∧ u = false) (hxs : x ∈ xs) :
    Loose c h0 xs (h.modItem c x fun i => { i with magic := k }) (ds ++ ⟨b.size, u⟩ :: es) L a m := by
  obtain ⟨fs, hl, hp⟩ := W.links
  have E := Edit.modItem (c := c) (h := h) hxs fun i => { i with magic := k }
  exact ⟨W.tiling.mark (by rw [W.frame.startAddr]; exact hx) hk, ⟨fs, hl.modItem x (fun _ => rfl) fun _ => rfl, hp⟩,
    W.frame.trans E.toFrame, W.nodes, E.availableSize.trans W.availableSize, E.maxUsedSize.trans W.maxUsedSize⟩

section

variable (W : Loose c h0 xs h (ds ++ b :: b' :: es) L a m) (hx : x = h0.startAddr + extent ds)

include W hx

/-- The block at `x` takes over the one behind it, by an edit of the block list. -/
theorem join (E : Edit c h h' ys)
    (hys : ys ⊆ xs) (hx1 : h'.item x = { h.item x with next := x + b.size + b'.size })
    (hx3 : h'.item (x + b.size + b'.size) = { h.item (x + b.size + b'.size) with prev := x })
    (hother : ∀ y, y ≠ x → y ≠ x + b.size + b'.size → h'.item y = h.item y) :
    Loose c h0 xs h' (ds ++ ⟨b.size + b'.size, b.used⟩ :: es) L a m := by
  obtain ⟨fs, hl, hp⟩ := W.links
  have hfree (y : Nat) : (h'.item y).nextFree = (h.item y).nextFree ∧ (h'.item y).prevFree = (h.item y).prevFree := by
    by_cases h1 : y = x
    · rw [h1, hx1]; exact ⟨rfl, rfl⟩
    · by_cases h2 : y = x + b.size + b'.size
      · rw [h2, hx3]; exact ⟨rfl, rfl⟩
      · rw [hother y h1 h2]; exact ⟨rfl, rfl⟩
  have hx' : x = h.startAddr + extent ds := by rw [W.frame.startAddr]; exact hx
  refine ⟨W.tiling.join hx' E.toFrame hx1 hx3 fun y h1 h2 => ?_, ⟨fs, ?_, hp⟩, W.frame.trans (E.toFrame.mono hys),
    W.nodes, E.availableSize.trans W.availableSize, E.maxUsedSize.trans W.maxUsedSize⟩
  · rw [hother y h1 h2]; exact ⟨rfl, rfl, rfl, fun _ => rfl⟩
  · exact hl.congr E.freeList (fun y => (hfree y).1) fun y => (hfree y).2

/-- What the items of two blocks that follow each other say. -/
theorem pair : c.memheapSize ≤ b.size ∧ c.memheapSize ≤ b'.size ∧ (h.item x).next = x + b.size ∧
      (h.item (x + b.size)).next = x + b.size + b'.size ∧ (h.item (x + b.size)).prev = x := by
  have hx' : x = h.startAddr + extent ds := by rw [W.frame.startAddr]; exact hx
  have hxb : x + b.size = h.startAddr + extent (ds ++ [b]) := by simp [hx', Nat.add_assoc]
  have T : Tiling c h ((ds ++ [b]) ++ b' :: es) := by rw [List.append_assoc]; exact W.tiling
  exact ⟨W.tiling.header b (by simp), W.tiling.header b' (by simp), (W.tiling.item_eq hx').1, (T.item_eq hxb).1,
    (W.tiling.next_item hx').2.2⟩

theorem mergeNext (hL : L.Perm ((x + b.size) :: L')) (hxs : [x, x + b.size + b'.size] ⊆ xs) :
    Loose c h0 xs (h.mergeNext c x (x + b.size)) (ds ++ ⟨b.size + b'.size, b.used⟩ :: es) L' a m := by
  have hH := c.memheapSize_pos
  obtain ⟨hb, hb', -, hnext, -⟩ := W.pair hx
  have he : h.mergeNext c x (x + b.size) = ((h.modItem c (x + b.size + b'.size) fun i => { i with prev := x }).modItem c x
      fun i => { i with next := x + b.size + b'.size }).removeFree c (x + b.size) := by
    rw [Memheap.mergeNext, hnext]
    simp only [modItem_ne (show x + b.size ≠ x + b.size + b'.size by omega), hnext]
  rw [he]
  refine (W.join hx ((Edit.modItem (hxs (by simp)) _).trans (Edit.modItem (hxs (by simp)) _)) (List.Subset.refl xs) ?_ ?_
    fun y h1 h2 => ?_).removeFree hL
  · rw [modItem_self, modItem_ne (by omega)]
  · rw [modItem_ne (by omega), modItem_self]
  · rw [modItem_ne h1, modItem_ne h2]

/-- Edits of the two items around the block at `x + b.size`, in the other order. -/
theorem join_left (hxs : [x, x + b.size + b'.size] ⊆ xs) :
    Loose c h0 xs ((h.modItem c x fun i => { i with next := x + b.size + b'.size }).modItem c (x + b.size + b'.size)
      fun i => { i with prev := x }) (ds ++ ⟨b.size + b'.size, b.used⟩ :: es) L a m := by
  have hH := c.memheapSize_pos
  obtain ⟨hb, hb', -⟩ := W.pair hx
  refine W.join hx ((Edit.modItem (hxs (by simp)) _).trans (Edit.modItem (hxs (by simp)) _)) (List.Subset.refl xs) ?_ ?_
    fun y h1 h2 => ?_
  · rw [modItem_ne (by omega), modItem_self]
  · rw [modItem_self, modItem_ne (by omega)]
  · rw [modItem_ne h2, modItem_ne h1]

/-- `_remove_next_ptr`. -/
theorem removeNextPtr (hL : L.Perm ((x + b.size) :: L')) (hxs : [x, x + b.size + b'.size] ⊆ xs) :
    Loose c h0 xs (h.removeNextPtr c (x + b.size)) (ds ++ ⟨b.size + b'.size, b.used⟩ :: es) L' a m := by
  have hH := c.memheapSize_pos
  have W1 := W.removeFree hL
  obtain ⟨hb, hb', -, hnext, hprev⟩ := W1.pair hx
  unfold Memheap.removeNextPtr
  dsimp only
  generalize Memheap.removeFree c h (x + b.size) = h1 at *
  simp only [modItem_ne (show x + b.size ≠ x + b.size + b'.size by omega), hnext, hprev]
  refine W1.join hx ((Edit.modItem (hxs (by simp)) _).trans (Edit.modItem (hxs (by simp)) _)) (List.Subset.refl xs) ?_ ?_
    fun y h1 h2 => ?_
  · rw [modItem_self, modItem_ne (by omega)]
  · rw [modItem_ne (by omega), modItem_self]
  · rw [modItem_ne h1, modItem_ne h2]

end

theorem heapInv (W : Loose c h0 xs h bs L a m) {bs0 : List Block} (I : HeapInv c h0 bs0)
    (hL : L.Perm (freeStarts h0 bs)) (hm : Merged bs) (ha : a = freeRoom c.memheapSize bs) (hu : h0.poolSize ≤ a + m)
    (hmax : m ≤ h0.poolSize) : HeapInv c h bs := by
  obtain ⟨fs, hl, hp⟩ := W.links
  refine ⟨⟨W.tiling, ⟨fs, hl, ?_⟩, ?_⟩, hm, W.availableSize.trans ha, ?_, ?_, ?_⟩
  · rw [freeStarts_congr W.frame]; exact hp.trans hL
  · rw [W.frame.freeList, W.frame.startAddr, W.frame.poolSize]; exact I.apart
  · rw [W.frame.poolSize, W.availableSize, W.maxUsedSize]; exact hu
  · rw [W.frame.poolSize, W.maxUsedSize]; exact hmax
  · rw [W.frame.poolSize]; exact I.poolSize_lt

end Loose

theorem HeapInv.loose (I : HeapInv c h bs) (hxs : places c h bs ⊆ xs) :
    Loose c h xs h bs (freeStarts h bs) h.availableSize h.maxUsedSize :=
  ⟨I.toTiling, I.free, ⟨rfl, rfl, rfl, rfl, rfl, fun _ _ => rfl⟩,
    List.Subset.trans (subset_places (List.Perm.refl _)) hxs, rfl, rfl⟩

end Memheap

end RtThread
