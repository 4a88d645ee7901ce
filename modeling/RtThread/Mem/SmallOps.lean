import RtThread.Mem.SmallTiling

/-!
# The operations of the small memory heap

`HeapInv c h bs`: the heap tiles, no two free blocks stand next to each other, `lfree` is the first free one and `used`
counts the used ones. Each of `rt_smem_alloc`, `rt_smem_free` and `rt_smem_realloc` keeps it, and changes the used blocks
at one place only (`Allocated`).
-/

namespace RtThread

open Tiles

namespace SmallMem

variable {c : SmemConfig} {h h' h1 h2 : SmallMem} {bs ds es : List Block} {b : Block} {x size : Nat}

/-- The invariant of the heap. -/
structure HeapInv (c : SmemConfig) (h : SmallMem) (bs : List Block) : Prop extends Tiling c h bs where
  merged : Merged bs
  lfree : h.lfree = firstFree 0 bs
  used : h.used = usedSize bs

/-! ## `plug_holes` -/

/-- Free blocks are joined, and nothing else changes. -/
structure Plugged (c : SmemConfig) (h : SmallMem) (bs : List Block) (h' : SmallMem) (bs' : List Block) : Prop where
  tiling : Tiling c h' bs'
  same : Same h h'
  lfree : h'.lfree = firstFree 0 bs'
  used : h'.used = h.used
  blocks : usedBlocks 0 bs' = usedBlocks 0 bs

theorem Plugged.trans {bs1 bs2 bs3 : List Block} {h3 : SmallMem} (h12 : Plugged c h1 bs1 h2 bs2)
    (h23 : Plugged c h2 bs2 h3 bs3) : Plugged c h1 bs1 h3 bs3 :=
  ⟨h23.tiling, h12.same.trans h23.same, h23.lfree, h23.used.trans h12.used, h23.blocks.trans h12.blocks⟩

/-- Two free items become one. -/
theorem Tiling.plug {d : Block} (T : Tiling c h (ds ++ b :: d :: es)) (hx : x = extent ds) (hb : b.used = false)
    (hd : d.used = false) (hl : h.lfree = firstFree 0 (ds ++ b :: d :: es)) :
    Plugged c h (ds ++ b :: d :: es) (h.joinItems c x (x + b.size)) (ds ++ ⟨b.size + d.size, false⟩ :: es) := by
  have hle := firstFree_le_of_free 0 ds (d :: es) hb
  have hpos := T.pos b (by simp)
  have hne : h.lfree ≠ x + b.size := by omega
  refine ⟨by have := T.join hx; rwa [hb] at this, same_joinItems _ _ _ _, ?_, ?_, (usedBlocks_join hb hd).symm⟩
  · have e : (h.joinItems c x (x + b.size)).lfree = h.lfree := by simp [joinItems, modItem, hne]
    rw [e, hl]
    exact firstFree_congr hb rfl
  · simp [joinItems, modItem, hne]

section

variable (T : Tiling c h (ds ++ b :: es)) (hx : x = extent ds) (hb : b.used = false)

include T hx hb

theorem Tiling.plugForward (hes : Merged es) (hl : h.lfree = firstFree 0 (ds ++ b :: es)) :
    ∃ d fs, Plugged c h (ds ++ b :: es) (h.plugForward c x) (ds ++ d :: fs) ∧ d.used = false ∧ Merged (d :: fs) := by
  obtain ⟨hnext, -, -, -, hle⟩ := T.item_eq hx
  obtain ⟨hused, -, hend⟩ := T.next_item hx
  have hpos := T.pos b (by simp)
  unfold SmallMem.plugForward
  dsimp only
  rw [hnext, hused]
  cases es with
  | nil =>
    rw [if_neg (by simp)]
    exact ⟨b, [], ⟨T, Same.refl h, hl, rfl, rfl⟩, hb, merged_cons.2 ⟨by simp, hes⟩⟩
  | cons d es =>
    cases hd : d.used with
    | true =>
      rw [if_neg (by simp [hd])]
      exact ⟨b, d :: es, ⟨T, Same.refl h, hl, rfl, rfl⟩, hb, merged_cons.2 ⟨by simp [hd], hes⟩⟩
    | false =>
      rw [if_pos ⟨by omega, by simp [hd], by simp [hend]⟩]
      obtain ⟨h3, h4⟩ := merged_cons.1 hes
      refine ⟨_, es, T.plug hx hb hd hl, rfl, merged_cons.2 ⟨fun e he => .inr ?_, h4⟩⟩
      exact (h3 e he).resolve_left (by simp [hd])

theorem Tiling.plugBackward
    (hds : Merged ds) (hes : Merged (b :: es)) (hl : h.lfree = firstFree 0 (ds ++ b :: es)) :
    ∃ bs', Plugged c h (ds ++ b :: es) (h.plugBackward c x) bs' ∧ Merged bs' := by
  obtain ⟨-, -, hprev, -, -⟩ := T.item_eq hx
  unfold SmallMem.plugBackward
  dsimp only
  rw [hprev]
  rcases List.eq_nil_or_concat ds with rfl | ⟨ds, d, rfl⟩
  · rw [if_neg (by simp [last, hx])]
    exact ⟨_, ⟨T, Same.refl h, hl, rfl, rfl⟩, merged_append.2 ⟨hds, hes, by simp⟩⟩
  · have hlast : last 0 0 (ds.concat d) = extent ds := by simp [List.concat_eq_append, last_append, last]
    have T' : Tiling c h (ds ++ d :: b :: es) := by simpa using T
    obtain ⟨-, hused, -, -, -⟩ := T'.item_eq rfl
    have hpos := T'.pos d (by simp)
    have hxd : x = extent ds + d.size := by rw [hx]; simp
    rw [hlast, hused]
    cases hd : d.used with
    | true =>
      rw [if_neg (by simp)]
      exact ⟨_, ⟨T, Same.refl h, hl, rfl, rfl⟩, merged_append.2 ⟨hds, hes, by simp [hd]⟩⟩
    | false =>
      rw [if_pos ⟨by omega, rfl⟩, hxd]
      rw [List.concat_eq_append, List.append_assoc, List.singleton_append] at hl ⊢
      obtain ⟨h1, -, h3⟩ := merged_append.1 (show Merged (ds ++ [d]) by simpa using hds)
      obtain ⟨h4, h5⟩ := merged_cons.1 hes
      refine ⟨_, T'.plug rfl hd hb hl, merged_append.2 ⟨h1, merged_cons.2 ⟨fun e he => .inr ?_, h5⟩, fun e he f hf => ?_⟩⟩
      · exact (h4 e he).resolve_left (by simp [hb])
      · exact .inl ((h3 e he d (by simp)).resolve_right (by simp [hd]))

/-- `plug_holes` joins a block that has become free with its neighbours. -/
theorem Tiling.plugHoles (hds : Merged ds)
    (hes : Merged es) (hl : h.lfree = firstFree 0 (ds ++ b :: es)) :
    ∃ bs', Plugged c h (ds ++ b :: es) (h.plugHoles c x) bs' ∧ Merged bs' := by
  obtain ⟨d, fs, hp, hd, hm⟩ := T.plugForward hx hb hes hl
  obtain ⟨bs', hp', hm'⟩ := hp.tiling.plugBackward hx hd hds hm hp.lfree
  exact ⟨bs', hp.trans hp', hm'⟩

end

/-! ## `rt_smem_free` -/

/-- The address of the data of a block. -/
def dataOf (c : SmemConfig) (h : SmallMem) (x : Nat) : Nat := h.heapPtr + x + c.sizeofStructMem

theorem Tiling.itemOf_dataOf (T : Tiling c h bs) (hx : x < h.heapEnd) : h.itemOf c (h.dataOf c x) = x := by
  have hroom := T.room
  rw [itemOf, dataOf, Word.sub_eq (Nat.le_add_left _ _) (by omega), Nat.add_sub_cancel,
    Word.sub_eq (Nat.le_add_right _ _) (by omega), Nat.add_sub_cancel_left]

/-- The size of a used block with its header, from the item. -/
theorem Tiling.sub_next (T : Tiling c h (ds ++ b :: es)) (hx : x = extent ds) : c.sub (h.item x).next x = b.size := by
  obtain ⟨hnext, -, -, -, hle⟩ := T.item_eq hx
  have hroom := T.room
  have hpos := T.heapPtr_pos
  rw [hnext, Word.sub_eq (Nat.le_add_right _ _) (by omega), Nat.add_sub_cancel_left]

theorem Plugged.inv {bs' : List Block} (hp : Plugged c h bs h' bs') (hm : Merged bs') (hu : h.used = usedSize bs) :
    HeapInv c h' bs' :=
  ⟨hp.tiling, hm, hp.lfree, by rw [hp.used, hu, usedSize_eq (a := 0), ← hp.blocks, ← usedSize_eq]⟩

/-- A used block becomes free. -/
theorem HeapInv.rtSmemFree (I : HeapInv c h bs) (hm : (x, b) ∈ usedBlocks 0 bs) :
    ∃ h' bs', SmallMem.rtSmemFree c h (some (h.dataOf c x)) = some h' ∧ HeapInv c h' bs' ∧ Same h h' ∧
      (usedBlocks 0 bs).Perm ((x, b) :: usedBlocks 0 bs') := by
  obtain ⟨hm, hb⟩ := mem_usedBlocks.1 hm
  obtain ⟨ds, es, rfl, hx⟩ := mem_starts.1 hm
  rw [Nat.zero_add] at hx
  obtain ⟨hnext, hused, -, hpool, hle⟩ := I.item_eq hx
  obtain ⟨-, hnpool, -⟩ := I.next_item hx
  have hblock := I.blocks b (by simp)
  have hHb := hblock.used hb
  have hroom := I.room
  have hend : c.add h.heapPtr h.heapEnd = h.heapPtr + h.heapEnd :=
    Word.add_eq (by have := c.sizeofStructMem_pos; omega)
  have hdvd : c.alignSize ∣ h.dataOf c x := by
    refine Nat.dvd_add (Nat.dvd_add I.heapPtr_dvd ?_) c.alignSize_dvd_sizeofStructMem
    rw [hx]
    exact extent_dvd fun d hd => (I.blocks d (by simp [hd])).dvd
  unfold SmallMem.rtSmemFree
  dsimp only
  rw [I.itemOf_dataOf (by omega), if_pos]
  swap
  · refine ⟨Nat.mod_eq_zero_of_dvd hdvd, hpool, hused.trans hb, ?_, ?_, ?_⟩
    · rw [dataOf]; omega
    · rw [hend, dataOf]; omega
    · rw [hnext]; exact hnpool
  -- The item is marked, `lfree` is lowered, `used` is decremented.
  set h1 := h.modItem c x fun i => { i with poolPtr := h.memFreed }
  have T1 : Tiling c h1 (ds ++ ⟨b.size, false⟩ :: es) :=
    I.mark hx (fun _ => h.isUsed_memFreed _) (fun _ => h.pool_memFreed _) (by simp)
  have hsub : c.sub (h1.item x).next x = b.size := T1.sub_next hx
  obtain ⟨hm1, hm2, -⟩ := merged_append.1 I.merged
  have hes := (merged_cons.1 hm2).2
  have hl : (if x < h.lfree then x else h.lfree) = firstFree 0 (ds ++ ⟨b.size, false⟩ :: es) := by
    rw [I.lfree, hx, ← firstFree_lower 0 ds (b :: es) es (b := ⟨b.size, false⟩) rfl, Nat.zero_add]
  have hu : c.sub h.used b.size = usedSize (ds ++ ⟨b.size, false⟩ :: es) := by
    have hle' := @usedSize_le (ds ++ b :: es)
    rw [← I.extent_eq] at hle'
    rw [I.used, Word.sub_eq ?_ (by have := c.sizeofStructMem_pos; omega)]
    · simp [hb]; omega
    · simp [hb]; omega
  rw [hsub]
  have hs2 : Same h { h1 with lfree := if x < h.lfree then x else h.lfree, used := c.sub h.used b.size } :=
    ⟨rfl, rfl, rfl, rfl⟩
  have T2 : Tiling c { h1 with lfree := if x < h.lfree then x else h.lfree, used := c.sub h.used b.size }
      (ds ++ ⟨b.size, false⟩ :: es) := T1.congr ⟨rfl, rfl, rfl, rfl⟩ rfl
  obtain ⟨bs', hp, hm'⟩ := T2.plugHoles hx rfl hm1 hes hl
  refine ⟨_, bs', rfl, hp.inv hm' hu, ?_, ?_⟩
  · exact hs2.trans hp.same
  · rw [hp.blocks, usedBlocks_append, usedBlocks_append, usedBlocks_cons_used hb, usedBlocks_cons_free rfl, ← hx,
      Nat.zero_add]
    exact List.perm_middle

/-! ## `rt_smem_alloc` -/

theorem Tiling.userSize_eq (T : Tiling c h (ds ++ b :: es)) (hx : x = extent ds) :
    h.userSize c x = b.size - c.sizeofStructMem := by
  obtain ⟨hnext, -, -, -, hle⟩ := T.item_eq hx
  have hH := (T.blocks b (by simp)).header
  have hroom := T.room
  have hpos := T.heapPtr_pos
  rw [userSize, hnext, Word.add_eq (by omega), Word.sub_eq (by omega) (by omega)]
  omega

/-- The search from a block on finds the first free one that is large enough, or there is none. -/
theorem Tiling.findFit (T : Tiling c h (ds ++ es)) (hsize : size ≤ h.memSizeAligned) {fuel : Nat}
    (hf : es.length < fuel) (hx : x = extent ds) :
    (∀ y, h.findFit c size fuel x = some y → ∃ es1 b es2, es = es1 ++ b :: es2 ∧ y = x + extent es1 ∧ b.used = false ∧
      size + c.sizeofStructMem ≤ b.size) ∧
    (h.findFit c size fuel x = none → ∀ b ∈ es, b.used = false → b.size < size + c.sizeofStructMem) := by
  have hroom := T.room
  have hend := T.heapEnd_eq
  have hext := T.extent_eq
  have hHpos := c.sizeofStructMem_pos
  have hsub : c.sub h.memSizeAligned size = h.memSizeAligned - size := Word.sub_eq hsize (by omega)
  rw [extent_append, ← hx] at hext
  induction es generalizing ds x fuel with
  | nil =>
    obtain ⟨fuel, rfl⟩ := Nat.exists_eq_add_one_of_ne_zero (show fuel ≠ 0 by omega)
    rw [extent_nil] at hext
    rw [SmallMem.findFit, hsub, if_neg (by omega)]
    simp
  | cons b es ih =>
    obtain ⟨fuel, rfl⟩ := Nat.exists_eq_add_one_of_ne_zero (show fuel ≠ 0 by omega)
    obtain ⟨hnext, hused, -, -, hle⟩ := T.item_eq hx
    have husize := T.userSize_eq hx
    have hH := (T.blocks b (by simp)).header
    rw [SmallMem.findFit, hsub, hused, husize, hnext]
    by_cases hbound : x ≤ h.memSizeAligned - size
    · rw [if_pos hbound]
      by_cases hfit : b.used = false ∧ size ≤ b.size - c.sizeofStructMem
      · rw [if_pos hfit]
        refine ⟨fun y hy => ?_, fun hn => by cases hn⟩
        cases hy
        exact ⟨[], b, es, rfl, by simp, hfit.1, by omega⟩
      · rw [if_neg hfit]
        have T' : Tiling c h ((ds ++ [b]) ++ es) := by simpa using T
        obtain ⟨h1, h2⟩ := ih T' (by simpa using hf) (show x + b.size = extent (ds ++ [b]) by simp [hx])
          (by rw [extent_cons] at hext; omega)
        refine ⟨fun y hy => ?_, fun hn d hd hdu => ?_⟩
        · obtain ⟨es1, d, es2, rfl, rfl, hd⟩ := h1 y hy
          exact ⟨b :: es1, d, es2, rfl, by simp [Nat.add_assoc], hd⟩
        · rcases List.mem_cons.1 hd with rfl | hd
          · have := not_and.1 hfit hdu; omega
          · exact h2 hn d hd hdu
    · rw [if_neg hbound]
      refine ⟨fun y hy => (by cases hy), fun _ d hd _ => ?_⟩
      have : d.size ≤ extent (b :: es) := by
        obtain ⟨ds, fs, he⟩ := List.append_of_mem hd
        rw [he, extent_append, extent_cons]; omega
      omega

/-- `lfree` moves on to the next free block. -/
theorem Tiling.advanceLfree (T : Tiling c h (ds ++ es)) {fuel : Nat} (hf : es.length < fuel)
    (hx : h.lfree = extent ds) :
    SmallMem.advanceLfree fuel h = { h with lfree := firstFree (extent ds) es } := by
  induction es generalizing ds h fuel with
  | nil =>
    obtain ⟨fuel, rfl⟩ := Nat.exists_eq_add_one_of_ne_zero (show fuel ≠ 0 by omega)
    have hext := T.extent_eq
    rw [SmallMem.advanceLfree, if_neg (by simp [hx, hext]), firstFree, ← hx]
  | cons b es ih =>
    obtain ⟨fuel, rfl⟩ := Nat.exists_eq_add_one_of_ne_zero (show fuel ≠ 0 by omega)
    obtain ⟨hnext, hused, -, -, hle⟩ := T.item_eq hx
    have hpos := T.pos b (by simp)
    rw [SmallMem.advanceLfree, hused, hnext, firstFree]
    by_cases hb : b.used = true
    · rw [if_pos ⟨hb, by omega⟩, if_pos hb]
      have T' : Tiling c { h with lfree := h.lfree + b.size } ((ds ++ [b]) ++ es) := by
        have T1 : Tiling c { h with lfree := h.lfree + b.size } (ds ++ b :: es) := T.congr ⟨rfl, rfl, rfl, rfl⟩ rfl
        simpa using T1
      rw [ih T' (by simpa using hf) (by simp [hx])]
      simp
    · rw [if_neg fun hh => hb hh.1, if_neg hb, ← hx]

/-- The found item is marked, and `lfree` moves on if it pointed to the item. -/
theorem Tiling.take {b0 : Block} {es0 : List Block} (T : Tiling c h (ds ++ b :: es)) (hx : x = extent ds)
    (hb : b0.used = false) (hH : c.sizeofStructMem < b.size) (hl : h.lfree = firstFree 0 (ds ++ b0 :: es0))
    (h1 : SmallMem) (hh1 : h1 = h.modItem c x fun i => { i with poolPtr := h.memUsed }) :
    Tiling c (if x = h1.lfree then SmallMem.advanceLfree (h1.heapEnd + 1) h1 else h1) (ds ++ ⟨b.size, true⟩ :: es) ∧
      Same h (if x = h1.lfree then SmallMem.advanceLfree (h1.heapEnd + 1) h1 else h1) ∧
      (if x = h1.lfree then SmallMem.advanceLfree (h1.heapEnd + 1) h1 else h1).lfree =
        firstFree 0 (ds ++ ⟨b.size, true⟩ :: es) ∧
      (if x = h1.lfree then SmallMem.advanceLfree (h1.heapEnd + 1) h1 else h1).used = h.used := by
  have T1 : Tiling c h1 (ds ++ ⟨b.size, true⟩ :: es) :=
    hh1 ▸ T.mark hx (fun _ => h.isUsed_memUsed _) (fun _ => h.pool_memUsed _) fun _ => hH
  have hs : Same h h1 := hh1 ▸ ⟨rfl, rfl, rfl, rfl⟩
  have hlfree : h1.lfree = h.lfree := by rw [hh1]; rfl
  have hused : h1.used = h.used := by rw [hh1]; rfl
  by_cases hfree : ∃ d ∈ ds, d.used = false
  · -- An earlier block is free, and stays the first.
    have hlt : firstFree 0 ds < 0 + extent ds := firstFree_lt (fun d hd => T.pos d (by simp [hd])) hfree
    rw [firstFree_append_free hfree] at hl
    rw [if_neg (by omega), firstFree_append_free hfree]
    exact ⟨T1, hs, by rw [hlfree, hl], hused⟩
  · have hall : ∀ d ∈ ds, d.used := fun d hd => by
      by_contra hd'
      exact hfree ⟨d, hd, by simpa using hd'⟩
    rw [firstFree_append_used hall, firstFree, if_neg (by simp [hb]), Nat.zero_add, ← hx] at hl
    have hlen : (⟨b.size, true⟩ :: es : List Block).length < h1.heapEnd + 1 := by
      have := length_le_extent T1.pos
      have := T1.extent_eq
      simp only [List.length_append, List.length_cons] at *
      omega
    rw [if_pos (by omega), T1.advanceLfree hlen (by omega), firstFree_append_used hall, Nat.zero_add]
    exact ⟨T1.congr ⟨rfl, rfl, rfl, rfl⟩ rfl, hs.trans ⟨rfl, rfl, rfl, rfl⟩, rfl, hused⟩

/-- The block of `n` bytes at `x` is now used; the other used blocks are what they were. -/
structure Allocated (c : SmemConfig) (h : SmallMem) (bs : List Block) (x n : Nat) (h' : SmallMem) (bs' : List Block) :
    Prop where
  inv : HeapInv c h' bs'
  same : Same h h'
  blocks : (usedBlocks 0 bs').Perm ((x, ⟨n, true⟩) :: usedBlocks 0 bs)

/-- The found item is split, if the rest is large enough, and taken. -/
theorem HeapInv.allocAt (I : HeapInv c h (ds ++ b :: es)) (hx : x = extent ds) (hb : b.used = false)
    (hsize : size + c.sizeofStructMem ≤ b.size) (hdvd : c.alignSize ∣ size) (hpos : 0 < size) :
    ∃ n bs', Allocated c h (ds ++ b :: es) x n (h.allocAt c size x) bs' ∧ size + c.sizeofStructMem ≤ n := by
  obtain ⟨hnext, -, -, -, hle⟩ := I.item_eq hx
  have hroom := I.room
  have hptr := I.heapPtr_pos
  have hmin := c.minSizeAligned_le
  have hle' := @usedSize_le (ds ++ b :: es)
  have husize := I.userSize_eq hx
  have hold : usedBlocks 0 (ds ++ b :: es) = usedBlocks 0 ds ++ usedBlocks (x + b.size) es := by
    rw [usedBlocks_append, usedBlocks_cons_free hb, hx, Nat.zero_add]
  have hadd : c.add (c.add size c.sizeofStructMem) c.minSizeAligned = size + c.sizeofStructMem + c.minSizeAligned := by
    rw [Word.add_eq (a := size) (by omega), Word.add_eq (by omega)]
  have hptr2 : c.add (c.add x c.sizeofStructMem) size = x + (size + c.sizeofStructMem) := by
    rw [Word.add_eq (a := x) (by omega), Word.add_eq (by omega)]; omega
  have hn : c.add size c.sizeofStructMem = size + c.sizeofStructMem := Word.add_eq (by omega)
  unfold SmallMem.allocAt
  rw [husize, hadd]
  by_cases hsplit : size + c.sizeofStructMem + c.minSizeAligned ≤ b.size - c.sizeofStructMem
  · rw [if_pos hsplit, hptr2, hn]
    have T1 := I.split hx (n := size + c.sizeofStructMem) (by omega) (by omega)
      (Nat.dvd_add hdvd c.alignSize_dvd_sizeofStructMem) (by simp [hb])
    have hs1 := same_splitItem c h x (x + (size + c.sizeofStructMem))
    have hl1 : (h.splitItem c x (x + (size + c.sizeofStructMem))).lfree = h.lfree := by
      unfold splitItem modItem; dsimp only; split <;> rfl
    have hu1 : (h.splitItem c x (x + (size + c.sizeofStructMem))).used = h.used := by
      unfold splitItem modItem; dsimp only; split <;> rfl
    generalize h.splitItem c x (x + (size + c.sizeofStructMem)) = h1 at T1 hs1 hl1 hu1
    have T2 : Tiling c (h1.addUsed c (size + c.sizeofStructMem)) _ := T1.congr ⟨rfl, rfl, rfl, rfl⟩ rfl
    obtain ⟨T3, hs3, hl3, hu3⟩ := T2.take hx hb (by dsimp only; omega) (hl1.trans I.lfree) _ rfl
    refine ⟨_, _, ⟨⟨T3, I.merged.split_free hb _ _, hl3, ?_⟩, ?_, ?_⟩, Nat.le_refl _⟩
    · rw [hu3, addUsed, hu1, I.used]
      rw [Word.add_eq]
      · simp [hb]; omega
      · rw [usedSize_append, usedSize_cons, hb] at *
        simp only [Bool.false_eq_true, if_false] at *
        have h1 := @usedSize_le ds
        have h2 := @usedSize_le es
        have := I.extent_eq
        rw [extent_append, extent_cons] at this
        omega
    · exact hs1.trans ((same_addUsed c h1 _).trans hs3)
    · rw [hold, usedBlocks_append, usedBlocks_cons_used rfl, usedBlocks_cons_free rfl, ← hx, Nat.zero_add]
      rw [show x + (size + c.sizeofStructMem) + (b.size - (size + c.sizeofStructMem)) = x + b.size by omega]
      exact List.perm_middle
  · rw [if_neg hsplit, I.sub_next hx]
    have T2 : Tiling c (h.addUsed c b.size) (ds ++ b :: es) := I.congr ⟨rfl, rfl, rfl, rfl⟩ rfl
    obtain ⟨T3, hs3, hl3, hu3⟩ := T2.take hx hb (by omega) I.lfree _ rfl
    refine ⟨_, _, ⟨⟨T3, I.merged.mark_used _, hl3, ?_⟩, ?_, ?_⟩, hsize⟩
    · rw [hu3, addUsed, I.used]
      rw [Word.add_eq]
      · simp [hb]; omega
      · rw [usedSize_append, usedSize_cons, hb] at *
        simp only [Bool.false_eq_true, if_false] at *
        have h1 := @usedSize_le ds
        have h2 := @usedSize_le es
        have := I.extent_eq
        rw [extent_append, extent_cons] at this
        omega
    · exact (same_addUsed c h _).trans hs3
    · rw [hold, usedBlocks_append, usedBlocks_cons_used rfl, ← hx, Nat.zero_add]
      exact List.perm_middle

theorem alignSize_dvd_request (c : SmemConfig) (size : Nat) : c.alignSize ∣ request c size := by
  unfold request
  dsimp only
  split
  · exact c.alignSize_dvd_minSizeAligned
  · exact c.alignSize_dvd_rtAlign size

theorem minSizeAligned_le_request (c : SmemConfig) (size : Nat) : c.minSizeAligned ≤ request c size := by
  unfold request
  dsimp only
  split <;> omega

/-- `rt_smem_alloc` takes a block that is large enough for the request, or there is no free one. -/
theorem HeapInv.rtSmemAlloc (I : HeapInv c h bs) (size : Nat) :
    (SmallMem.rtSmemAlloc c h size = (h, none) ∧
      (size ≠ 0 → ∀ b ∈ bs, b.used = false → b.size < request c size + c.sizeofStructMem)) ∨
    ∃ h' x n bs', SmallMem.rtSmemAlloc c h size = (h', some (h.dataOf c x)) ∧ Allocated c h bs x n h' bs' ∧
      size ≠ 0 ∧ request c size + c.sizeofStructMem ≤ n ∧
      ∃ b ∈ bs, b.used = false ∧ request c size + c.sizeofStructMem ≤ b.size := by
  have hroom := I.room
  have hend := I.heapEnd_eq
  unfold SmallMem.rtSmemAlloc
  by_cases h0 : size = 0
  · rw [if_pos h0]; exact .inl ⟨rfl, fun h => absurd h0 h⟩
  rw [if_neg h0]
  by_cases hms : h.memSizeAligned < request c size
  · rw [if_pos hms]
    refine .inl ⟨rfl, fun _ b hb _ => ?_⟩
    have hext := I.extent_eq
    obtain ⟨ds, es, rfl⟩ := List.append_of_mem hb
    rw [extent_append, extent_cons] at hext
    omega
  rw [if_neg hms]
  -- The search starts at the first free block.
  obtain ⟨ds, es, rfl, hall, hff, -⟩ := @exists_firstFree bs 0
  have hlen : es.length < h.heapEnd + 1 := by
    have := length_le_extent I.pos
    rw [← I.extent_eq, List.length_append] at this
    omega
  obtain ⟨hsome, hnone⟩ := I.findFit (Nat.le_of_not_lt hms) hlen (I.lfree.trans (by rw [hff, Nat.zero_add]))
  cases hfind : h.findFit c (request c size) (h.heapEnd + 1) h.lfree with
  | none =>
    refine .inl ⟨rfl, fun _ b hb hu => ?_⟩
    rcases List.mem_append.1 hb with hb | hb
    · rw [hall b hb] at hu; cases hu
    · exact hnone hfind b hb hu
  | some x =>
    obtain ⟨es1, b, es2, rfl, rfl, hu, hsize⟩ := hsome x hfind
    have I' : HeapInv c h ((ds ++ es1) ++ b :: es2) := by simpa using I
    have hx : h.lfree + extent es1 = extent (ds ++ es1) := by rw [I.lfree, hff, extent_append, Nat.zero_add]
    have hlt : h.lfree + extent es1 < h.heapEnd := by
      have := (I'.item_eq hx).2.2.2.2
      have := I'.pos b (by simp)
      omega
    obtain ⟨n, bs', hA, hn⟩ := I'.allocAt hx hu hsize (alignSize_dvd_request c size)
      (Nat.lt_of_lt_of_le c.minSizeAligned_pos (minSizeAligned_le_request c size))
    refine .inr ⟨_, _, n, bs', ?_, by simpa using hA, h0, hn, b, by simp, hu, hsize⟩
    dsimp only
    rw [dataOf, Word.add_eq (a := h.heapPtr) (by omega), Word.add_eq (by omega)]

/-! ## `rt_smem_realloc` -/

/-- A used block is cut; what is cut off becomes free. -/
theorem HeapInv.shrink (I : HeapInv c h bs) (hm : (x, b) ∈ usedBlocks 0 bs) {newsize : Nat}
    (hpos : 0 < newsize) (hdvd : c.alignSize ∣ newsize) (hlt : newsize + 2 * c.sizeofStructMem ≤ b.size) :
    ∃ bs', HeapInv c (h.shrink c x newsize (b.size - c.sizeofStructMem)) bs' ∧
      Same h (h.shrink c x newsize (b.size - c.sizeofStructMem)) ∧
      ∃ us, (usedBlocks 0 bs).Perm ((x, b) :: us) ∧
        (usedBlocks 0 bs').Perm ((x, ⟨newsize + c.sizeofStructMem, true⟩) :: us) := by
  obtain ⟨hm, hb⟩ := mem_usedBlocks.1 hm
  obtain ⟨ds, es, rfl, hx⟩ := mem_starts.1 hm
  rw [Nat.zero_add] at hx
  obtain ⟨hnext, -, -, -, hle⟩ := I.item_eq hx
  have hroom := I.room
  have hptr := I.heapPtr_pos
  have hused := I.used
  have hle' := @usedSize_le (ds ++ b :: es)
  rw [← I.extent_eq] at hle'
  rw [usedSize_append, usedSize_cons, hb, if_pos rfl] at hused hle'
  have hptr2 : c.add (c.add x c.sizeofStructMem) newsize = x + (newsize + c.sizeofStructMem) := by
    rw [Word.add_eq (a := x) (by omega), Word.add_eq (by omega)]; omega
  have hsub : c.sub h.used (c.sub (b.size - c.sizeofStructMem) newsize) =
      usedSize ds + (newsize + c.sizeofStructMem) + usedSize es := by
    rw [Word.sub_eq (b := newsize) (by omega) (by omega), Word.sub_eq (by omega) (by omega)]
    omega
  unfold SmallMem.shrink
  dsimp only
  rw [hptr2, hsub]
  set h0 : SmallMem := { h with used := usedSize ds + (newsize + c.sizeofStructMem) + usedSize es }
  have hs0 : Same h h0 := ⟨rfl, rfl, rfl, rfl⟩
  have T0 : Tiling c h0 (ds ++ b :: es) := I.congr hs0 rfl
  have T1 := T0.split hx (n := newsize + c.sizeofStructMem) (by omega) (by omega)
    (Nat.dvd_add hdvd c.alignSize_dvd_sizeofStructMem) fun _ => by omega
  have hs1 : Same h (h0.splitItem c x (x + (newsize + c.sizeofStructMem))) :=
    hs0.trans (same_splitItem c h0 _ _)
  have hl1 : (h0.splitItem c x (x + (newsize + c.sizeofStructMem))).lfree = h.lfree := by
    unfold splitItem modItem; dsimp only; split <;> rfl
  have hu1 : (h0.splitItem c x (x + (newsize + c.sizeofStructMem))).used = h0.used := by
    unfold splitItem modItem; dsimp only; split <;> rfl
  generalize h0.splitItem c x (x + (newsize + c.sizeofStructMem)) = h1 at T1 hs1 hl1 hu1
  set ptr2 := x + (newsize + c.sizeofStructMem) with hp2
  have hs2 : Same h1 { h1 with lfree := if ptr2 < h1.lfree then ptr2 else h1.lfree } := ⟨rfl, rfl, rfl, rfl⟩
  have T2 : Tiling c { h1 with lfree := if ptr2 < h1.lfree then ptr2 else h1.lfree }
      ((ds ++ [⟨newsize + c.sizeofStructMem, true⟩]) ++ ⟨b.size - (newsize + c.sizeofStructMem), false⟩ :: es) := by
    have T2' := T1.congr hs2 rfl
    rw [hb] at T2'
    simpa using T2'
  have hx2 : ptr2 = extent (ds ++ [⟨newsize + c.sizeofStructMem, true⟩]) := by simp [hp2, hx]
  have hl2 : (if ptr2 < h1.lfree then ptr2 else h1.lfree) = firstFree 0
      ((ds ++ [⟨newsize + c.sizeofStructMem, true⟩]) ++ ⟨b.size - (newsize + c.sizeofStructMem), false⟩ :: es) := by
    rw [hl1, I.lfree, firstFree_split_used (n := newsize + c.sizeofStructMem)
      (k := b.size - (newsize + c.sizeofStructMem)) hb (by omega), hx2,
      ← firstFree_lower 0 _ (⟨_, true⟩ :: es) es (b := ⟨b.size - (newsize + c.sizeofStructMem), false⟩) rfl,
      Nat.zero_add]
  obtain ⟨hm1, hm2, hm3⟩ := merged_append.1 I.merged
  have hm : Merged (ds ++ [⟨newsize + c.sizeofStructMem, true⟩]) :=
    merged_append.2 ⟨hm1, merged_cons.2 ⟨by simp, merged_nil⟩, by simp⟩
  obtain ⟨bs', hp, hm'⟩ := T2.plugHoles hx2 rfl hm (merged_cons.1 hm2).2 hl2
  refine ⟨bs', hp.inv hm' ?_, hs1.trans (hs2.trans hp.same), ?_⟩
  · rw [hu1]; simp [h0]; omega
  · refine ⟨usedBlocks 0 ds ++ usedBlocks (x + b.size) es, ?_, ?_⟩
    · rw [usedBlocks_append, usedBlocks_cons_used hb, ← hx, Nat.zero_add]
      exact List.perm_middle
    · rw [hp.blocks, usedBlocks_append, usedBlocks_append, usedBlocks_cons_used rfl, usedBlocks_cons_free rfl]
      simp only [usedBlocks_nil, extent_append, extent_cons, extent_nil, Nat.zero_add, Nat.add_zero, List.append_assoc,
        List.singleton_append]
      rw [← hx, show x + (newsize + c.sizeofStructMem) + (b.size - (newsize + c.sizeofStructMem)) = x + b.size by omega]
      exact List.perm_middle

theorem HeapInv.congr (I : HeapInv c h bs) (hs : Same h h') (hi : h'.item = h.item) (hl : h'.lfree = h.lfree)
    (hu : h'.used = h.used) : HeapInv c h' bs :=
  ⟨I.toTiling.congr hs hi, I.merged, hl.trans I.lfree, hu.trans I.used⟩

theorem Same.dataOf (hs : Same h h') (c : SmemConfig) (x : Nat) : h'.dataOf c x = h.dataOf c x := by
  rw [SmallMem.dataOf, SmallMem.dataOf, hs.heapPtr]

/-- What `rt_smem_realloc` of a used block has done when it returns a block. -/
structure Moved (c : SmemConfig) (h : SmallMem) (bs : List Block) (x : Nat) (b : Block) (h' : SmallMem) (y n : Nat) :
    Prop where
  same : Same h h'
  blocks : ∃ bs' us, HeapInv c h' bs' ∧ (usedBlocks 0 bs).Perm ((x, b) :: us) ∧
    (usedBlocks 0 bs').Perm ((y, ⟨n, true⟩) :: us)

/-- `rt_smem_realloc` of a used block frees it, leaves it, or returns a block that is large enough. -/
theorem HeapInv.rtSmemRealloc (I : HeapInv c h bs) (hm : (x, b) ∈ usedBlocks 0 bs) (newsize : Nat) :
    (c.rtAlign newsize = 0 ∧ ∃ h', SmallMem.rtSmemFree c h (some (h.dataOf c x)) = some h' ∧
      SmallMem.rtSmemRealloc c h (some (h.dataOf c x)) newsize = some (h', none)) ∨
    (c.rtAlign newsize ≠ 0 ∧ SmallMem.rtSmemRealloc c h (some (h.dataOf c x)) newsize = some (h, none)) ∨
    ∃ h' y n, c.rtAlign newsize ≠ 0 ∧
      SmallMem.rtSmemRealloc c h (some (h.dataOf c x)) newsize = some (h', some (h.dataOf c y)) ∧
      Moved c h bs x b h' y n ∧ c.rtAlign newsize + c.sizeofStructMem ≤ n := by
  obtain ⟨hms, hb⟩ := mem_usedBlocks.1 hm
  obtain ⟨ds, es, hbs, hx⟩ := mem_starts.1 hms
  rw [Nat.zero_add] at hx
  obtain ⟨hnext, -, -, -, hle⟩ := (hbs ▸ I : HeapInv c h (ds ++ b :: es)).item_eq hx
  have hsub := (hbs ▸ I : HeapInv c h (ds ++ b :: es)).sub_next hx
  have hroom := I.room
  have hptr := I.heapPtr_pos
  have hend := I.heapEnd_eq
  have hH := c.sizeofStructMem_pos
  have hmin := c.minSize_le_aligned
  have hmin' := c.minSizeAligned_le
  have hblock := I.blocks b (by rw [hbs]; simp)
  have hused := hblock.used hb
  have hdvd := c.alignSize_dvd_rtAlign newsize
  have hsize : c.sub (c.sub (h.item x).next x) c.sizeofStructMem = b.size - c.sizeofStructMem := by
    rw [hsub, Word.sub_eq hblock.header (by omega)]
  have hself : (usedBlocks 0 bs).Perm ((x, b) :: (usedBlocks 0 bs).erase (x, b)) := List.perm_cons_erase hm
  unfold SmallMem.rtSmemRealloc
  dsimp only
  by_cases h1 : h.memSizeAligned < c.rtAlign newsize
  · rw [if_pos h1]; exact .inr (.inl ⟨by omega, rfl⟩)
  rw [if_neg h1]
  by_cases h2 : c.rtAlign newsize = 0
  · rw [if_pos h2]
    obtain ⟨h', -, he, -, -, -⟩ := I.rtSmemFree hm
    exact .inl ⟨h2, h', he, by rw [he]; rfl⟩
  rw [if_neg h2, I.itemOf_dataOf (by omega), hsize, if_pos]
  swap
  · have hmod : c.alignSize ∣ h.dataOf c x := by
      refine Nat.dvd_add (Nat.dvd_add I.heapPtr_dvd ?_) c.alignSize_dvd_sizeofStructMem
      rw [hx]
      exact extent_dvd fun d hd => (I.blocks d (by rw [hbs]; simp [hd])).dvd
    rw [Word.add_eq (by omega), dataOf]
    exact ⟨Nat.mod_eq_zero_of_dvd hmod, by omega, by omega⟩
  by_cases h3 : b.size - c.sizeofStructMem = c.rtAlign newsize
  · rw [if_pos h3]
    refine .inr (.inr ⟨h, x, b.size, h2, rfl, ⟨Same.refl h, bs, _, I, hself, ?_⟩, by omega⟩)
    rw [show (⟨b.size, true⟩ : Block) = b by rw [← hb]]
    exact hself
  rw [if_neg h3, Word.add_eq (a := c.rtAlign newsize) (by omega), Word.add_eq (by omega)]
  by_cases h4 : c.rtAlign newsize + c.sizeofStructMem + c.minSize < b.size - c.sizeofStructMem
  · rw [if_pos h4]
    obtain ⟨bs', hI, hs, us, hp, hp'⟩ := I.shrink hm (Nat.pos_of_ne_zero h2) hdvd (by omega)
    exact .inr (.inr ⟨_, x, _, h2, rfl, ⟨hs, bs', us, hI, hp, hp'⟩, Nat.le_refl _⟩)
  rw [if_neg h4]
  rcases I.rtSmemAlloc (c.rtAlign newsize) with ⟨he, -⟩ | ⟨h1', y, n, bs1, he, hA, -, hn, -⟩
  · rw [he]; exact .inr (.inl ⟨h2, rfl⟩)
  · -- The data is copied to the new block, and the old one is freed.
    rw [he]
    dsimp only
    generalize c.sub (h.dataOf c y) h.heapPtr = dst, c.sub (h.dataOf c x) h.heapPtr = src
    generalize (if b.size - c.sizeofStructMem < c.rtAlign newsize then b.size - c.sizeofStructMem
      else c.rtAlign newsize) = k
    have hs2 : Same h1' { h1' with mem := h1'.mem.copy dst src k } := ⟨rfl, rfl, rfl, rfl⟩
    have I2 := hA.inv.congr hs2 rfl rfl rfl
    have hm2 : (x, b) ∈ usedBlocks 0 bs1 := hA.blocks.mem_iff.2 (List.mem_cons_of_mem _ hm)
    obtain ⟨h3', bs2, he3, I3, hs3, hp3⟩ := I2.rtSmemFree hm2
    rw [(hA.same.trans hs2).dataOf] at he3
    rw [he3]
    refine .inr (.inr ⟨h3', y, n, h2, rfl, ⟨hA.same.trans (hs2.trans hs3), bs2, _, I3, hself, ?_⟩, ?_⟩)
    · have hp := hp3.symm.trans (hA.blocks.trans ((hself.cons _).trans (.swap _ _ _)))
      exact hp.cons_inv
    · have : c.rtAlign newsize ≤ request c (c.rtAlign newsize) := by
        have hal : c.rtAlign (c.rtAlign newsize) = c.rtAlign newsize := by
          have hA2 : c.alignSize ≤ c.sizeofStructMem := Nat.le_of_dvd hH c.alignSize_dvd_sizeofStructMem
          exact Word.rtAlign_of_dvd hdvd (by omega)
        unfold request
        dsimp only
        split <;> omega
      omega

end SmallMem

end RtThread
