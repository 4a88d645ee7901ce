import RtThread.Lib.Tiles
import RtThread.Mem.Small

/-!
# The items of the small memory heap tile it

`Tiling c h bs`: the items of the heap describe the blocks `bs`, which reach from `heap_ptr` to `heap_end`. Marking,
splitting and joining items does the same to the blocks.
-/

namespace RtThread

open Tiles

namespace SmallMem

variable {c : SmemConfig} {h h' : SmallMem} {bs ds es : List Block} {b b' : Block} {x n : Nat}

/-! ## Fields -/

section Fields

variable (h) (x : Nat) (i : SmallMemItem)

@[simp] theorem setItem_item : (h.setItem c x i).item = Function.update h.item x i := rfl
@[simp] theorem setItem_addr : (h.setItem c x i).addr = h.addr := rfl
@[simp] theorem setItem_used : (h.setItem c x i).used = h.used := rfl
@[simp] theorem setItem_heapPtr : (h.setItem c x i).heapPtr = h.heapPtr := rfl
@[simp] theorem setItem_heapEnd : (h.setItem c x i).heapEnd = h.heapEnd := rfl
@[simp] theorem setItem_lfree : (h.setItem c x i).lfree = h.lfree := rfl
@[simp] theorem setItem_memSizeAligned : (h.setItem c x i).memSizeAligned = h.memSizeAligned := rfl
@[simp] theorem setItem_memUsed : (h.setItem c x i).memUsed = h.memUsed := rfl
@[simp] theorem setItem_memFreed : (h.setItem c x i).memFreed = h.memFreed := rfl

end Fields

/-- The parts of the heap that no operation changes. -/
structure Same (h h' : SmallMem) : Prop where
  addr : h'.addr = h.addr
  heapPtr : h'.heapPtr = h.heapPtr
  heapEnd : h'.heapEnd = h.heapEnd
  memSizeAligned : h'.memSizeAligned = h.memSizeAligned

namespace Same

theorem refl (h : SmallMem) : Same h h := ⟨rfl, rfl, rfl, rfl⟩

theorem trans {h1 h2 h3 : SmallMem} (h12 : Same h1 h2) (h23 : Same h2 h3) : Same h1 h3 :=
  ⟨h23.addr.trans h12.addr, h23.heapPtr.trans h12.heapPtr, h23.heapEnd.trans h12.heapEnd,
    h23.memSizeAligned.trans h12.memSizeAligned⟩

theorem memFreed (h12 : Same h h') : h'.memFreed = h.memFreed := by rw [SmallMem.memFreed, h12.addr, SmallMem.memFreed]

end Same

theorem same_splitItem (c : SmemConfig) (h : SmallMem) (mem ptr2 : Nat) : Same h (h.splitItem c mem ptr2) := by
  unfold splitItem modItem
  dsimp only
  split <;> exact ⟨rfl, rfl, rfl, rfl⟩

theorem same_joinItems (c : SmemConfig) (h : SmallMem) (first second : Nat) : Same h (h.joinItems c first second) := by
  unfold joinItems modItem
  split <;> exact ⟨rfl, rfl, rfl, rfl⟩

theorem same_addUsed (c : SmemConfig) (h : SmallMem) (n : Nat) : Same h (h.addUsed c n) := ⟨rfl, rfl, rfl, rfl⟩

section

variable (h : SmallMem) (i : SmallMemItem)

theorem isUsed_memUsed : SmallMemItem.isUsed { i with poolPtr := h.memUsed } = true := by
  have : (h.addr - h.addr % 2 + 1) % 2 = 1 := by omega
  simp [SmallMemItem.isUsed, memUsed, this]

theorem isUsed_memFreed : SmallMemItem.isUsed { i with poolPtr := h.memFreed } = false := by
  have : (h.addr - h.addr % 2) % 2 = 0 := by omega
  simp [SmallMemItem.isUsed, memFreed, this]

theorem pool_memUsed : SmallMemItem.pool { i with poolPtr := h.memUsed } = h.memFreed := by
  simp only [SmallMemItem.pool, memUsed, memFreed]; omega

theorem pool_memFreed : SmallMemItem.pool { i with poolPtr := h.memFreed } = h.memFreed := by
  simp only [SmallMemItem.pool, memFreed]; omega

end

end SmallMem

namespace SmemConfig

variable (c : SmemConfig)

theorem alignSize_dvd_sizeofStructMem : c.alignSize ∣ c.sizeofStructMem := c.alignSize_dvd_rtAlign _

theorem sizeofStructMem_pos : 0 < c.sizeofStructMem :=
  Nat.lt_of_lt_of_le (Nat.lt_of_lt_of_le c.minSize_pos c.minSize_le) (Word.rtAlign_spec c.itemSize_lt).1

theorem minSizeAligned_le : c.minSizeAligned ≤ c.sizeofStructMem := Word.rtAlign_mono c.minSize_le c.itemSize_lt

theorem minSize_le_aligned : c.minSize ≤ c.minSizeAligned := by
  have := c.minSize_le
  have := c.itemSize_lt
  exact (Word.rtAlign_spec (by omega)).1

theorem minSizeAligned_pos : 0 < c.minSizeAligned := Nat.lt_of_lt_of_le c.minSize_pos c.minSize_le_aligned

theorem alignSize_dvd_minSizeAligned : c.alignSize ∣ c.minSizeAligned := c.alignSize_dvd_rtAlign _

end SmemConfig

namespace SmallMem

variable {c : SmemConfig} {h h' : SmallMem} {bs ds es : List Block} {b b' : Block} {x n : Nat}

/-! ## The tiling -/

/-- The headers of the items. -/
def headers (h : SmallMem) : Headers where
  next x := (h.item x).next
  prev x := (h.item x).prev
  used x := (h.item x).isUsed
  valid x := (h.item x).pool = h.memFreed

/-- A block of the heap: whole multiples of `RT_ALIGN_SIZE`, and room for data if it is used. -/
structure BlockOk (c : SmemConfig) (b : Block) : Prop where
  header : c.sizeofStructMem ≤ b.size
  dvd : c.alignSize ∣ b.size
  used : b.used = true → c.sizeofStructMem < b.size

/-- The items from `heap_ptr` to `heap_end` describe the blocks. -/
structure Tiling (c : SmemConfig) (h : SmallMem) (bs : List Block) : Prop where
  seg : Seg h.headers 0 0 bs h.heapEnd
  heapEnd_eq : h.heapEnd = h.memSizeAligned + c.sizeofStructMem
  blocks : ∀ b ∈ bs, BlockOk c b
  end_used : (h.item h.heapEnd).isUsed = true
  end_pool : (h.item h.heapEnd).pool = h.memFreed
  heapPtr_dvd : c.alignSize ∣ h.heapPtr
  heapPtr_pos : 0 < h.heapPtr
  room : h.heapPtr + h.heapEnd + c.sizeofStructMem ≤ 2 ^ c.bits

namespace Tiling

theorem pos (T : Tiling c h bs) : ∀ b ∈ bs, 0 < b.size := fun b hb =>
  Nat.lt_of_lt_of_le c.sizeofStructMem_pos (T.blocks b hb).header

theorem extent_eq (T : Tiling c h bs) : h.heapEnd = extent bs := by
  have := T.seg.end_eq
  rwa [Nat.zero_add] at this

/-- The item of a block. -/
theorem item_eq (T : Tiling c h (ds ++ b :: es)) (hx : x = extent ds) :
    (h.item x).next = x + b.size ∧ (h.item x).isUsed = b.used ∧ (h.item x).prev = last 0 0 ds ∧
      (h.item x).pool = h.memFreed ∧ x + b.size ≤ h.heapEnd := by
  obtain ⟨-, hp, hn, hu, hv, hs⟩ := seg_append.1 T.seg
  have he := hs.end_eq
  rw [Nat.zero_add] at hp hn hu hv he
  rw [hx]
  exact ⟨hn, hu, hp, hv, by omega⟩

/-- The item that follows a block is the one of the next block, or the last one. -/
theorem next_item (T : Tiling c h (ds ++ b :: es)) (hx : x = extent ds) :
    (h.item (x + b.size)).isUsed = (es.head?.map Block.used).getD true ∧ (h.item (x + b.size)).pool = h.memFreed ∧
      (x + b.size = h.heapEnd ↔ es = []) := by
  cases es with
  | nil =>
    have he : x + b.size = h.heapEnd := by rw [T.extent_eq, hx]; simp
    rw [he]
    exact ⟨T.end_used, T.end_pool, by simp⟩
  | cons d es =>
    have hd := T.pos d (by simp)
    have T' : Tiling c h ((ds ++ [b]) ++ d :: es) := by simpa using T
    obtain ⟨-, hu, -, hp, hle⟩ := T'.item_eq (x := x + b.size) (by rw [hx]; simp)
    exact ⟨hu, hp, by simp; omega⟩

/-- What is left to show when items change. -/
theorem of_seg (T : Tiling c h bs) (hs : Same h h') {cs : List Block} (hseg : Seg h'.headers 0 0 cs h.heapEnd)
    (hcs : ∀ b ∈ cs, BlockOk c b) (hu : (h'.item h.heapEnd).isUsed = (h.item h.heapEnd).isUsed)
    (hp : (h'.item h.heapEnd).pool = (h.item h.heapEnd).pool) : Tiling c h' cs where
  seg := by rw [hs.heapEnd]; exact hseg
  heapEnd_eq := by rw [hs.heapEnd, hs.memSizeAligned]; exact T.heapEnd_eq
  blocks := hcs
  end_used := by rw [hs.heapEnd, hu]; exact T.end_used
  end_pool := by rw [hs.heapEnd, hp, hs.memFreed]; exact T.end_pool
  heapPtr_dvd := by rw [hs.heapPtr]; exact T.heapPtr_dvd
  heapPtr_pos := by rw [hs.heapPtr]; exact T.heapPtr_pos
  room := by rw [hs.heapPtr, hs.heapEnd]; exact T.room

theorem agree_of_item (hs : Same h h') (hi : h'.item x = h.item x) : Agree h.headers h'.headers x :=
  ⟨congrArg SmallMemItem.next hi, congrArg SmallMemItem.isUsed hi, fun hv => by
    change (h'.item x).pool = h'.memFreed
    rw [hi, hs.memFreed]
    exact hv⟩

/-- Parts of the heap other than the items may change. -/
theorem congr (T : Tiling c h bs) (hs : Same h h') (hi : h'.item = h.item) : Tiling c h' bs :=
  T.of_seg hs (T.seg.congr T.pos fun x _ _ => ⟨agree_of_item hs (by rw [hi]), by simp [headers, hi]⟩) T.blocks (by rw [hi])
    (by rw [hi])

/-- The item at `x` is marked. -/
theorem mark (T : Tiling c h (ds ++ b :: es)) (hx : x = extent ds) {p : Nat} {u : Bool}
    (hu : ∀ i : SmallMemItem, SmallMemItem.isUsed { i with poolPtr := p } = u)
    (hp : ∀ i : SmallMemItem, SmallMemItem.pool { i with poolPtr := p } = h.memFreed)
    (hsize : u = true → c.sizeofStructMem < b.size) :
    Tiling c (h.modItem c x fun i => { i with poolPtr := p }) (ds ++ ⟨b.size, u⟩ :: es) := by
  obtain ⟨-, -, -, -, hle⟩ := T.item_eq hx
  have hb := T.pos b (by simp)
  have hs : Same h (h.modItem c x fun i => { i with poolPtr := p }) := ⟨rfl, rfl, rfl, rfl⟩
  have hself : (h.modItem c x fun i => { i with poolPtr := p }).item x = { h.item x with poolPtr := p } := by
    simp [modItem]
  have hother {y : Nat} (e : y ≠ x) : (h.modItem c x fun i => { i with poolPtr := p }).item y = h.item y := by
    rw [modItem, setItem_item, Function.update_of_ne e]
  have hend : h.heapEnd ≠ x := by omega
  refine T.of_seg hs (T.seg.mark T.pos (by rw [Nat.zero_add]; exact hx) ?_ (fun y => ?_) ?_ ?_ fun y hy =>
    agree_of_item hs (hother hy)) (fun d hd => ?_) (by rw [hother hend]) (by rw [hother hend])
  · simp [headers, hself]
  · by_cases e : y = x
    · subst e; simp [headers, hself]
    · simp [headers, hother e]
  · simp [headers, hself, hu]
  · exact (congrArg SmallMemItem.pool hself).trans (hp _)
  · rw [List.mem_append, List.mem_cons] at hd
    rcases hd with hd | rfl | hd
    · exact T.blocks d (by simp [hd])
    · have hb := T.blocks b (by simp)
      exact ⟨hb.header, hb.dvd, hsize⟩
    · exact T.blocks d (by simp [hd])

/-- The item at `x` is split. -/
theorem split (T : Tiling c h (ds ++ b :: es)) (hx : x = extent ds) (hn : c.sizeofStructMem ≤ n)
    (hle : n + c.sizeofStructMem ≤ b.size) (hd : c.alignSize ∣ n) (hu : b.used = true → c.sizeofStructMem < n) :
    Tiling c (h.splitItem c x (x + n)) (ds ++ ⟨n, b.used⟩ :: ⟨b.size - n, false⟩ :: es) := by
  have hH := c.sizeofStructMem_pos
  obtain ⟨hnext, -, -, -, hend⟩ := T.item_eq hx
  have hroom := T.room
  have hsum : c.add h.memSizeAligned c.sizeofStructMem = h.heapEnd := by
    rw [T.heapEnd_eq]; exact Word.add_eq (by have := T.heapEnd_eq; omega)
  have hs := same_splitItem c h x (x + n)
  set h' := h.splitItem c x (x + n) with hh'
  have hitem (y : Nat) : h'.item y =
      if y = x then { h.item x with next := x + n }
      else if y = x + n then { poolPtr := h.memFreed, next := x + b.size, prev := x }
      else if y = x + b.size ∧ x + b.size ≠ h.heapEnd then { h.item y with prev := x + n }
      else h.item y := by
    rw [hh', splitItem, hnext]
    simp only [modItem, setItem_memSizeAligned, hsum]
    by_cases hne : x + b.size ≠ h.heapEnd
    · rw [if_pos hne]
      simp only [setItem_item, Function.update_apply]
      split_ifs <;> first | rfl | omega | simp_all
    · rw [if_neg hne]
      simp only [setItem_item, Function.update_apply]
      split_ifs <;> first | rfl | omega
  have hother {y : Nat} (h1 : y ≠ x) (h2 : y ≠ x + n) : (h'.item y).next = (h.item y).next ∧
      (h'.item y).poolPtr = (h.item y).poolPtr := by
    rw [hitem, if_neg h1, if_neg h2]
    split <;> exact ⟨rfl, rfl⟩
  have hagree {y : Nat} (h1 : y ≠ x) (h2 : y ≠ x + n) : Agree h.headers h'.headers y := by
    obtain ⟨hn, hp⟩ := hother h1 h2
    refine ⟨hn, ?_, fun hv => ?_⟩
    · simp only [headers, SmallMemItem.isUsed, hp]
    · change (h'.item y).pool = h'.memFreed
      rw [hs.memFreed, SmallMemItem.pool, hp]
      exact hv
  have hxi : h'.item x = { h.item x with next := x + n } := by rw [hitem, if_pos rfl]
  have hxn : h'.item (x + n) = { poolPtr := h.memFreed, next := x + b.size, prev := x } := by
    rw [hitem, if_neg (by omega), if_pos rfl]
  refine T.of_seg hs (T.seg.split T.pos (by rw [Nat.zero_add]; exact hx) (by omega) (by omega) ⟨?_, ?_, ?_⟩
    ⟨?_, ?_, ?_, ?_⟩ (fun hlt => ?_) (fun y h1 h2 => hagree h1 h2) fun y h1 h2 => ?_) (fun d hd' => ?_) ?_ ?_
  · simp [headers, hxi]
  · simp [headers, hxi, SmallMemItem.isUsed]
  · intro hv
    change (h'.item x).pool = h'.memFreed
    rw [hs.memFreed, hxi]
    exact hv
  · simp [headers, hxn]
  · simp [headers, hxn]
  · simp only [headers, hxn]; exact h.isUsed_memFreed ⟨0, _, _⟩
  · change (h'.item (x + n)).pool = h'.memFreed
    rw [hs.memFreed, hxn]
    exact h.pool_memFreed ⟨0, _, _⟩
  · have hi := hitem (x + b.size)
    rw [if_neg (by omega), if_neg (by omega), if_pos ⟨rfl, by omega⟩] at hi
    simp [headers, hi]
  · simp only [headers, hitem]
    split_ifs with e1 e2
    · rw [e1]
    · exact absurd e2.1 h2
    · rfl
  · rw [List.mem_append, List.mem_cons, List.mem_cons] at hd'
    have hb := T.blocks b (by simp)
    rcases hd' with hd' | rfl | rfl | hd'
    · exact T.blocks d (by simp [hd'])
    · exact ⟨hn, hd, hu⟩
    · exact ⟨by dsimp only; omega, Nat.dvd_sub hb.dvd hd, fun h => by cases h⟩
    · exact T.blocks d (by simp [hd'])
  · rw [SmallMemItem.isUsed, SmallMemItem.isUsed, (hother (by omega) (by omega)).2]
  · rw [SmallMemItem.pool, SmallMemItem.pool, (hother (by omega) (by omega)).2]

/-- The item at `x` and the unused one after it become one. -/
theorem join {d : Block} (T : Tiling c h (ds ++ b :: d :: es)) (hx : x = extent ds) :
    Tiling c (h.joinItems c x (x + b.size)) (ds ++ ⟨b.size + d.size, b.used⟩ :: es) := by
  have hb := T.blocks b (by simp)
  have hd := T.blocks d (by simp)
  have hH := c.sizeofStructMem_pos
  have hbH := hb.header
  have hdH := hd.header
  have T' : Tiling c h ((ds ++ [b]) ++ d :: es) := by simpa using T
  obtain ⟨hnext, -, -, -, hend⟩ := T'.item_eq (x := x + b.size) (by rw [hx]; simp)
  have hs := same_joinItems c h x (x + b.size)
  set h' := h.joinItems c x (x + b.size) with hh'
  have hitem (y : Nat) : h'.item y =
      if y = x then { h.item x with next := x + b.size + d.size }
      else if y = x + b.size then { h.item y with poolPtr := 0 }
      else if y = x + b.size + d.size then { h.item y with prev := x }
      else h.item y := by
    have hlf (h1 : SmallMem) (l : Nat) : (if h1.lfree = l then { h1 with lfree := x } else h1).item = h1.item := by
      split <;> rfl
    rw [hh', joinItems]
    simp only [modItem, setItem_item, hlf, Function.update_apply, if_true]
    rw [if_neg (show x + b.size ≠ x by omega), hnext]
    split_ifs <;> first | rfl | omega | simp_all
  have hother {y : Nat} (h1 : y ≠ x) (h2 : y ≠ x + b.size) : (h'.item y).next = (h.item y).next ∧
      (h'.item y).poolPtr = (h.item y).poolPtr := by
    rw [hitem, if_neg h1, if_neg h2]
    split <;> exact ⟨rfl, rfl⟩
  have hagree {y : Nat} (h1 : y ≠ x) (h2 : y ≠ x + b.size) : Agree h.headers h'.headers y := by
    obtain ⟨hn, hp⟩ := hother h1 h2
    refine ⟨hn, ?_, fun hv => ?_⟩
    · simp only [headers, SmallMemItem.isUsed, hp]
    · change (h'.item y).pool = h'.memFreed
      rw [hs.memFreed, SmallMemItem.pool, hp]
      exact hv
  have hxi : h'.item x = { h.item x with next := x + b.size + d.size } := by rw [hitem, if_pos rfl]
  refine T.of_seg hs (T.seg.join T.pos (by rw [Nat.zero_add]; exact hx) ⟨?_, ?_, ?_⟩ (fun hlt => ?_)
    (fun y h1 h2 => hagree h1 h2) fun y h1 h2 => ?_) (fun e he => ?_) ?_ ?_
  · simp [headers, hxi]
  · simp [headers, hxi, SmallMemItem.isUsed]
  · intro hv
    change (h'.item x).pool = h'.memFreed
    rw [hs.memFreed, hxi]
    exact hv
  · have hi := hitem (x + b.size + d.size)
    rw [if_neg (by omega), if_neg (by omega), if_pos rfl] at hi
    simp [headers, hi]
  · simp only [headers, hitem]
    split_ifs with e1
    · rw [e1]
    · rfl
  · rw [List.mem_append, List.mem_cons] at he
    rcases he with he | rfl | he
    · exact T.blocks e (by simp [he])
    · exact ⟨by dsimp only; omega, Nat.dvd_add hb.dvd hd.dvd, fun hu => by have := hb.used hu; dsimp only; omega⟩
    · exact T.blocks e (by simp [he])
  · rw [SmallMemItem.isUsed, SmallMemItem.isUsed, (hother (by omega) (by omega)).2]
  · rw [SmallMemItem.pool, SmallMemItem.pool, (hother (by omega) (by omega)).2]

end Tiling

end SmallMem

end RtThread
