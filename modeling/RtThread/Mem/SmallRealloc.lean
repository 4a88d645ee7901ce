import RtThread.Mem.SmallHeap

/-!
# What `rt_smem_realloc` does to the data

The headers that an operation writes start where a block of a tiling starts or ends, so that the data of the blocks of
that tiling stays (`setItem_keeps`, and from it `HeapInv.rtSmemFree_keeps`, `HeapInv.rtSmemAlloc_keeps`,
`HeapInv.shrink_keeps`). So `rt_smem_realloc` keeps its contract, but for the sizes whose alignment wraps to `0`
(`realloc_contract_iff`).
-/

namespace RtThread

open Tiles

namespace SmallMem

variable {c : SmemConfig} {h h' h1 h2 h3 : SmallMem} {bs ds es : List Block} {b d : Block} {us vs : List (Nat × Block)}
  {x n : Nat}

/-- The data of the blocks is the same. -/
def Keeps (c : SmemConfig) (h h' : SmallMem) (us : List (Nat × Block)) : Prop :=
  ∀ q ∈ us, ∀ y, q.1 + c.sizeofStructMem ≤ y → y < q.1 + q.2.size → h'.mem.byte y = h.mem.byte y

namespace Keeps

theorem of_byte (hb : h'.mem.byte = h.mem.byte) : Keeps c h h' us := fun _ _ y _ _ => congrFun hb y

theorem trans (h12 : Keeps c h1 h2 us) (h23 : Keeps c h2 h3 us) : Keeps c h1 h3 us := fun q hq y hy hy' =>
  (h23 q hq y hy hy').trans (h12 q hq y hy hy')

theorem mono (hk : Keeps c h h' vs) (hs : ∀ q ∈ us, q ∈ vs) : Keeps c h h' us := fun q hq => hk q (hs q hq)

theorem used (hk : Keeps c h h' (starts 0 bs)) : Keeps c h h' (usedBlocks 0 bs) := hk.mono fun _ hq =>
  (mem_usedBlocks.1 hq).1

end Keeps

/-! ## Headers -/

theorem setItem_keeps (hx : Boundary bs x) (i : SmallMemItem) : Keeps c h (h.setItem c x i) (starts 0 bs) := by
  intro q hq y hy hy'
  apply Store.put_byte
  rcases hx.apart (b := q.2) hq with hle | hle
  · right; omega
  · left; omega

theorem modItem_keeps (hx : Boundary bs x) (f : SmallMemItem → SmallMemItem) :
    Keeps c h (h.modItem c x f) (starts 0 bs) :=
  setItem_keeps hx _

theorem splitItem_keeps {mem ptr2 : Nat} (h1 : Boundary bs mem) (h2 : Boundary bs ptr2)
    (h3 : Boundary bs (h.item mem).next) : Keeps c h (h.splitItem c mem ptr2) (starts 0 bs) := by
  unfold splitItem
  dsimp only
  split
  · exact ((setItem_keeps h2 _).trans (modItem_keeps h1 _)).trans (modItem_keeps h3 _)
  · exact (setItem_keeps h2 _).trans (modItem_keeps h1 _)

theorem joinItems_keeps {first second : Nat} (hne : second ≠ first) (h1 : Boundary bs first) (h2 : Boundary bs second)
    (h3 : Boundary bs (h.item second).next) : Keeps c h (h.joinItems c first second) (starts 0 bs) := by
  have hitem : (if h.lfree = second then { h with lfree := first } else h).item = h.item := by split <;> rfl
  have hbyte : (if h.lfree = second then { h with lfree := first } else h).mem.byte = h.mem.byte := by split <;> rfl
  refine (((Keeps.of_byte hbyte).trans (modItem_keeps h2 _)).trans (modItem_keeps h1 _)).trans (modItem_keeps ?_ _)
  simpa [modItem, Function.update_of_ne hne, hitem] using h3

/-- What is cut off from a block is no part of what is left of it. -/
theorem Tiling.split_keeps (T : Tiling c h (ds ++ b :: es)) (hx : x = extent ds) (hle : n ≤ b.size) (u : Bool) :
    Keeps c h (h.splitItem c x (x + n)) (starts 0 (ds ++ ⟨n, u⟩ :: ⟨b.size - n, false⟩ :: es)) := by
  obtain ⟨hnext, -⟩ := T.item_eq hx
  refine splitItem_keeps ⟨ds, _, rfl, hx⟩ ⟨ds ++ [⟨n, u⟩], ⟨b.size - n, false⟩ :: es, by simp, by simp [hx]⟩ ?_
  rw [hnext]
  exact ⟨ds ++ [⟨n, u⟩, ⟨b.size - n, false⟩], es, by simp, by simp [hx]; omega⟩

theorem Tiling.join_keeps (T : Tiling c h (ds ++ b :: d :: es)) (hx : x = extent ds) :
    Keeps c h (h.joinItems c x (x + b.size)) (starts 0 (ds ++ b :: d :: es)) := by
  have T' : Tiling c h ((ds ++ [b]) ++ d :: es) := by simpa using T
  obtain ⟨hnext, -⟩ := T'.item_eq (x := x + b.size) (by rw [hx]; simp)
  have hb := T.pos b (by simp)
  refine joinItems_keeps (by omega) ⟨ds, _, rfl, hx⟩ ⟨ds ++ [b], d :: es, by simp, by simp [hx]⟩ ?_
  rw [hnext]
  exact ⟨ds ++ [b, d], es, by simp, by simp [hx]; omega⟩

/-! ## `plug_holes` -/

section

variable (T : Tiling c h (ds ++ b :: es)) (hx : x = extent ds)

include T hx

theorem Tiling.plugForward_keeps (hb : b.used = false) :
    Keeps c h (h.plugForward c x) (usedBlocks 0 (ds ++ b :: es)) ∧
      ∃ e fs, Tiling c (h.plugForward c x) (ds ++ e :: fs) ∧
        usedBlocks 0 (ds ++ e :: fs) = usedBlocks 0 (ds ++ b :: es) := by
  obtain ⟨hnext, -, -, -, hle⟩ := T.item_eq hx
  obtain ⟨hused, -, hend⟩ := T.next_item hx
  unfold SmallMem.plugForward
  dsimp only
  rw [hnext, hused]
  split
  · rename_i hc
    cases es with
    | nil => exact absurd (hend.2 rfl) hc.2.2
    | cons d es =>
      have hd : d.used = false := hc.2.1
      have hj := T.join hx
      rw [hb] at hj
      exact ⟨(T.join_keeps hx).used, _, es, hj, (usedBlocks_join hb hd).symm⟩
  · exact ⟨.of_byte rfl, b, es, T, rfl⟩

theorem Tiling.plugBackward_keeps : Keeps c h (h.plugBackward c x) (usedBlocks 0 (ds ++ b :: es)) := by
  obtain ⟨-, -, hprev, -, -⟩ := T.item_eq hx
  unfold SmallMem.plugBackward
  dsimp only
  rw [hprev]
  split
  · rename_i hc
    rcases List.eq_nil_or_concat ds with rfl | ⟨ds, d, rfl⟩
    · exact absurd hx.symm (by simpa [last] using hc.1)
    · rw [List.concat_eq_append] at *
      have T' : Tiling c h (ds ++ d :: b :: es) := by simpa using T
      have hlast : last 0 0 (ds ++ [d]) = extent ds := by simp [last_append, last]
      have hxd : x = extent ds + d.size := by rw [hx]; simp
      rw [hlast, hxd]
      simpa using (T'.join_keeps rfl).used
  · exact .of_byte rfl

theorem Tiling.plugHoles_keeps (hb : b.used = false) :
    Keeps c h (h.plugHoles c x) (usedBlocks 0 (ds ++ b :: es)) := by
  obtain ⟨hk, e, fs, T', he⟩ := T.plugForward_keeps hx hb
  have hk' := T'.plugBackward_keeps hx
  rw [he] at hk'
  exact hk.trans hk'

end

/-! ## The calls -/

/-- `rt_smem_free` keeps the data of the other blocks. -/
theorem HeapInv.rtSmemFree_keeps (I : HeapInv c h bs) (hp : (usedBlocks 0 bs).Perm ((x, b) :: us))
    (he : SmallMem.rtSmemFree c h (some (h.dataOf c x)) = some h') : Keeps c h h' us := by
  obtain ⟨ds, es, rfl, hx, -, hus⟩ := exists_of_perm hp
  obtain ⟨-, -, -, -, hle⟩ := I.item_eq hx
  have hpos := I.pos b (by simp)
  unfold SmallMem.rtSmemFree at he
  dsimp only at he
  rw [I.itemOf_dataOf (by omega)] at he
  split at he
  swap
  · cases he
  cases he
  -- The item is marked, and joined with its neighbours.
  have T1 := I.mark hx (fun _ => h.isUsed_memFreed _) (fun _ => h.pool_memFreed _) (by simp)
  have hk1 : Keeps c h (h.modItem c x fun i => { i with poolPtr := h.memFreed })
      (usedBlocks 0 (ds ++ ⟨b.size, false⟩ :: es)) := (modItem_keeps ⟨ds, _, rfl, hx⟩ _).used
  have T2 : Tiling c { h.modItem c x fun i => { i with poolPtr := h.memFreed } with
      lfree := if x < h.lfree then x else h.lfree
      used := c.sub h.used (c.sub ((h.modItem c x fun i => { i with poolPtr := h.memFreed }).item x).next x) } _ :=
    T1.congr ⟨rfl, rfl, rfl, rfl⟩ rfl
  have hk2 := T2.plugHoles_keeps hx rfl
  refine ((hk1.trans (.of_byte rfl)).trans hk2).mono fun q hq => ?_
  rw [usedBlocks_append, usedBlocks_cons_free rfl, Nat.zero_add, ← hx]
  exact hus.mem_iff.1 hq

theorem advanceLfree_mem (fuel : Nat) (h : SmallMem) : (advanceLfree fuel h).mem = h.mem := by
  induction fuel generalizing h with
  | zero => rfl
  | succ fuel ih =>
    rw [advanceLfree]
    split
    · exact ih _
    · rfl

variable {size p newsize y : Nat}

theorem HeapInv.allocAt_keeps (I : HeapInv c h (ds ++ b :: es)) (hx : x = extent ds) (hb : b.used = false)
    (hsize : size + c.sizeofStructMem ≤ b.size) : Keeps c h (h.allocAt c size x) (usedBlocks 0 (ds ++ b :: es)) := by
  obtain ⟨-, -, -, -, hle⟩ := I.item_eq hx
  have hroom := I.room
  have hH := c.sizeofStructMem_pos
  have hptr2 : c.add (c.add x c.sizeofStructMem) size = x + (size + c.sizeofStructMem) := by
    rw [Word.add_eq (a := x) (by omega), Word.add_eq (by omega)]; omega
  -- Marking the item and moving `lfree` on.
  have htake (h1 : SmallMem) (p : Nat) : Keeps c h1
      (if x = (h1.modItem c x fun i => { i with poolPtr := p }).lfree then
        advanceLfree ((h1.modItem c x fun i => { i with poolPtr := p }).heapEnd + 1)
          (h1.modItem c x fun i => { i with poolPtr := p })
      else h1.modItem c x fun i => { i with poolPtr := p }) (usedBlocks 0 (ds ++ b :: es)) := by
    have hk := (modItem_keeps (c := c) (h := h1) ⟨ds, b :: es, rfl, hx⟩ fun i => { i with poolPtr := p }).used
    split
    · exact hk.trans (.of_byte (congrArg Store.byte (advanceLfree_mem _ _)))
    · exact hk
  refine Keeps.trans ?_ (htake _ _)
  split
  · rw [hptr2]
    have hk := (I.split_keeps hx (n := size + c.sizeofStructMem) hsize false).used
    rw [usedBlocks_append, usedBlocks_cons_free rfl, usedBlocks_cons_free rfl] at hk
    rw [usedBlocks_append, usedBlocks_cons_free hb]
    rw [Nat.add_assoc (0 + extent ds), Nat.add_sub_cancel' hsize] at hk
    exact hk.trans (.of_byte rfl)
  · exact .of_byte rfl

/-- `rt_smem_alloc` keeps the data of all blocks. -/
theorem HeapInv.rtSmemAlloc_keeps (I : HeapInv c h bs)
    (he : SmallMem.rtSmemAlloc c h size = (h', some p)) : Keeps c h h' (usedBlocks 0 bs) := by
  unfold SmallMem.rtSmemAlloc at he
  split at he
  · cases he
  dsimp only at he
  split at he
  · cases he
  rename_i hms
  obtain ⟨ds, es, rfl, -, hff, -⟩ := @exists_firstFree bs 0
  have hlen : es.length < h.heapEnd + 1 := by
    have := length_le_extent I.pos
    rw [← I.extent_eq, List.length_append] at this
    omega
  obtain ⟨hsome, -⟩ := I.findFit (Nat.le_of_not_lt hms) hlen (I.lfree.trans (by rw [hff, Nat.zero_add]))
  cases hfind : h.findFit c (request c size) (h.heapEnd + 1) h.lfree with
  | none => rw [hfind] at he; cases he
  | some x =>
    rw [hfind] at he
    obtain ⟨es1, b, es2, rfl, rfl, hu, hsize⟩ := hsome x hfind
    have I' : HeapInv c h ((ds ++ es1) ++ b :: es2) := by simpa using I
    cases he
    have hx : h.lfree + extent es1 = extent (ds ++ es1) := by rw [I.lfree, hff, extent_append, Nat.zero_add]
    have hk := I'.allocAt_keeps hx hu hsize
    simpa using hk

/-- The cut block keeps the data in front of the cut. -/
theorem HeapInv.shrink_keeps (I : HeapInv c h bs) (hp : (usedBlocks 0 bs).Perm ((x, b) :: us))
    (hpos : 0 < newsize) (hdvd : c.alignSize ∣ newsize) (hlt : newsize + 2 * c.sizeofStructMem ≤ b.size) :
    Keeps c h (h.shrink c x newsize (b.size - c.sizeofStructMem)) ((x, ⟨newsize + c.sizeofStructMem, true⟩) :: us) := by
  obtain ⟨ds, es, rfl, hx, hb, hus⟩ := exists_of_perm hp
  obtain ⟨-, -, -, -, hle⟩ := I.item_eq hx
  have hroom := I.room
  have hH := c.sizeofStructMem_pos
  have hptr2 : c.add (c.add x c.sizeofStructMem) newsize = x + (newsize + c.sizeofStructMem) := by
    rw [Word.add_eq (a := x) (by omega), Word.add_eq (by omega)]; omega
  unfold SmallMem.shrink
  dsimp only
  rw [hptr2]
  generalize c.sub h.used (c.sub (b.size - c.sizeofStructMem) newsize) = used
  have T0 : Tiling c { h with used := used } (ds ++ b :: es) := I.toTiling.congr ⟨rfl, rfl, rfl, rfl⟩ rfl
  have hk1 := (T0.split_keeps hx (n := newsize + c.sizeofStructMem) (by omega) true).used
  have T1 := T0.split hx (n := newsize + c.sizeofStructMem) (by omega) (by omega)
    (Nat.dvd_add hdvd c.alignSize_dvd_sizeofStructMem) fun _ => by omega
  rw [hb] at T1
  generalize SmallMem.splitItem c { h with used := used } x (x + (newsize + c.sizeofStructMem)) = h1 at T1 hk1
  generalize (if x + (newsize + c.sizeofStructMem) < h1.lfree then x + (newsize + c.sizeofStructMem) else h1.lfree) = l
  have T2 : Tiling c { h1 with lfree := l } ((ds ++ [⟨newsize + c.sizeofStructMem, true⟩]) ++
      ⟨b.size - (newsize + c.sizeofStructMem), false⟩ :: es) := by
    have T2' : Tiling c { h1 with lfree := l } _ := T1.congr ⟨rfl, rfl, rfl, rfl⟩ rfl
    simpa using T2'
  have hk2 := T2.plugHoles_keeps (x := x + (newsize + c.sizeofStructMem)) (by simp [hx]) rfl
  rw [List.append_assoc, List.singleton_append] at hk2
  have hk : Keeps c h _ _ := ((Keeps.of_byte rfl).trans hk1).trans ((Keeps.of_byte rfl).trans hk2)
  refine hk.mono fun q hq => ?_
  rw [usedBlocks_append, usedBlocks_cons_used rfl, usedBlocks_cons_free rfl, Nat.zero_add, ← hx]
  dsimp only
  rw [Nat.add_assoc x, Nat.add_sub_cancel' (by omega)]
  exact List.perm_middle.mem_iff.2 ((hus.cons _).mem_iff.1 hq)

/-- The address of the data of a block, in the memory of the heap. -/
theorem Tiling.sub_dataOf (T : Tiling c h bs) (hx : x < h.heapEnd) : c.sub (h.dataOf c x) h.heapPtr = x + c.sizeofStructMem := by
  have hroom := T.room
  rw [dataOf, Word.sub_eq (by omega) (by omega)]
  omega

/-- A copy into one block keeps the data of the blocks that stand apart from it. -/
theorem copy_keeps {dst src k : Nat} (hd : dst = y + c.sizeofStructMem) (hk : k + c.sizeofStructMem ≤ n)
    (hap : ∀ q ∈ us, Apart (y, ⟨n, true⟩) q) : Keeps c h { h with mem := h.mem.copy dst src k } us := by
  intro q hq z hz hz'
  have := hap q hq
  simp only [Apart] at this
  apply Store.copy_byte_of_ne
  omega

/-- The block that `rt_smem_realloc` returns has the data of the old one, and the other blocks have theirs. -/
theorem HeapInv.rtSmemRealloc_keeps (I : HeapInv c h bs) (hp : (usedBlocks 0 bs).Perm ((x, b) :: us)) {q : Nat}
    (he : SmallMem.rtSmemRealloc c h (some (h.dataOf c x)) newsize = some (h', some q)) :
    Keeps c h h' us ∧ ∃ y, q = h.dataOf c y ∧ ∀ k < min (b.size - c.sizeofStructMem) (c.rtAlign newsize),
      h'.mem.byte (y + c.sizeofStructMem + k) = h.mem.byte (x + c.sizeofStructMem + k) := by
  obtain ⟨ds, es, hbs, hx, hb, -⟩ := exists_of_perm hp
  obtain ⟨-, -, -, -, hle⟩ := (hbs ▸ I : HeapInv c h (ds ++ b :: es)).item_eq hx
  have hsub := (hbs ▸ I : HeapInv c h (ds ++ b :: es)).sub_next hx
  have hroom := I.room
  have hptr := I.heapPtr_pos
  have hend := I.heapEnd_eq
  have hH := c.sizeofStructMem_pos
  have hmin := c.minSize_le_aligned
  have hmin' := c.minSizeAligned_le
  have hblock := (I.blocks b (by rw [hbs]; simp)).header
  have hsize : c.sub (c.sub (h.item x).next x) c.sizeofStructMem = b.size - c.sizeofStructMem := by
    rw [hsub, Word.sub_eq hblock (by omega)]
  unfold SmallMem.rtSmemRealloc at he
  dsimp only at he
  by_cases h1 : h.memSizeAligned < c.rtAlign newsize
  · rw [if_pos h1] at he; cases he
  rw [if_neg h1] at he
  by_cases h2 : c.rtAlign newsize = 0
  · rw [if_pos h2] at he
    obtain ⟨h0, -, he⟩ := Option.map_eq_some_iff.1 he
    cases he
  rw [if_neg h2, I.itemOf_dataOf (by omega), hsize] at he
  split at he
  swap
  · cases he
  by_cases h3 : b.size - c.sizeofStructMem = c.rtAlign newsize
  · rw [if_pos h3] at he
    obtain ⟨rfl, hq⟩ := Prod.mk.inj (Option.some.inj he)
    exact ⟨.of_byte rfl, x, (Option.some.inj hq).symm, fun _ _ => rfl⟩
  rw [if_neg h3, Word.add_eq (a := c.rtAlign newsize) (by omega), Word.add_eq (by omega)] at he
  by_cases h4 : c.rtAlign newsize + c.sizeofStructMem + c.minSize < b.size - c.sizeofStructMem
  · rw [if_pos h4] at he
    obtain ⟨rfl, hq⟩ := Prod.mk.inj (Option.some.inj he)
    have hk := I.shrink_keeps hp (Nat.pos_of_ne_zero h2) (c.alignSize_dvd_rtAlign newsize) (by omega)
    refine ⟨hk.mono fun _ => List.mem_cons_of_mem _, x, (Option.some.inj hq).symm, fun k hlt => ?_⟩
    exact hk _ List.mem_cons_self _ (by dsimp only; omega) (by dsimp only; omega)
  rw [if_neg h4] at he
  rcases I.rtSmemAlloc (c.rtAlign newsize) with ⟨hnone, -⟩ | ⟨h1', y, n, bs1, hsome, hA, -, hn, -⟩
  · rw [hnone] at he; cases he
  have hk1 := I.rtSmemAlloc_keeps hsome
  rw [hsome] at he
  obtain ⟨h3', hfree, heq⟩ := Option.map_eq_some_iff.1 he
  obtain ⟨rfl, hq⟩ := Prod.mk.inj heq
  obtain ⟨hyms, -⟩ := mem_usedBlocks.1 (hA.blocks.mem_iff.2 List.mem_cons_self)
  have hyend := (hA.inv.mem_next hyms).2.2
  rw [hA.same.heapEnd] at hyend
  dsimp only at hyend
  rw [I.sub_dataOf (by omega), I.sub_dataOf (by omega)] at hfree
  -- The old block, the new one and the others.
  have hp1 : (usedBlocks 0 bs1).Perm ((x, b) :: (y, ⟨n, true⟩) :: us) :=
    hA.blocks.trans ((hp.cons _).trans (.swap _ _ _))
  have hap := hp1.pairwise_iff (fun hab => Std.Symm.symm _ _ hab) |>.1 pairwise_usedBlocks
  have hreq : c.rtAlign newsize ≤ request c (c.rtAlign newsize) := by
    have := Word.rtAlign_rtAlign c.toWord newsize
    unfold request
    dsimp only
    split <;> omega
  have hle' : (if b.size - c.sizeofStructMem < c.rtAlign newsize then b.size - c.sizeofStructMem else c.rtAlign newsize) =
      min (b.size - c.sizeofStructMem) (c.rtAlign newsize) := by
    split <;> omega
  rw [hle'] at hfree
  set m := min (b.size - c.sizeofStructMem) (c.rtAlign newsize) with hm
  have hk2 : Keeps c h1' { h1' with mem := h1'.mem.copy (y + c.sizeofStructMem) (x + c.sizeofStructMem) m } us :=
    copy_keeps rfl (by omega) (List.pairwise_cons.1 (List.pairwise_cons.1 hap).2).1
  have I2 : HeapInv c { h1' with mem := h1'.mem.copy (y + c.sizeofStructMem) (x + c.sizeofStructMem) m } _ :=
    hA.inv.congr ⟨rfl, rfl, rfl, rfl⟩ rfl rfl rfl
  have hk3 := I2.rtSmemFree_keeps hp1 ((hA.same.dataOf c x).symm ▸ hfree)
  refine ⟨((hk1.mono fun q hq => hp.mem_iff.2 (List.mem_cons_of_mem _ hq)).trans hk2).trans
    (hk3.mono fun _ => List.mem_cons_of_mem _), y, (Option.some.inj hq).symm, fun k hlt => ?_⟩
  rw [hk3 _ List.mem_cons_self _ (by dsimp only; omega) (by dsimp only; omega)]
  rw [Store.copy_byte (by omega), Nat.add_sub_cancel_left]
  exact hk1 (x, b) (hp.mem_iff.2 List.mem_cons_self) _ (by dsimp only; omega) (by dsimp only; omega)

/-! ## The contract -/

/-- The user size of the block at `p`. -/
def sizeAt (c : SmemConfig) (h : SmallMem) (p : Nat) : Nat := h.userSize c (h.itemOf c p)

/-- The byte at an address of the heap. -/
def byteAt (h : SmallMem) (a : Nat) : UInt8 := h.mem.byte (a - h.heapPtr)

/-- A user stores a byte. -/
def storeByte (h : SmallMem) (a : Nat) (v : UInt8) : SmallMem :=
  { h with mem := { h.mem with byte := Function.update h.mem.byte (a - h.heapPtr) v } }

/-- `p` is the data of an item of the heap that is marked as used. -/
def IsLive (c : SmemConfig) (h : SmallMem) (p : Nat) : Prop :=
  ∃ xs, Walk h h.heapEnd 0 xs ∧ ∃ x ∈ xs, (h.item x).isUsed = true ∧ p = h.dataOf c x

/-- `NULL` is returned. -/
structure Refused (c : SmemConfig) (h h' : SmallMem) (p : Nat) : Prop where
  heap : h' = h
  live : IsLive c h' p

/-- The block `q` is returned for the block `p`. -/
structure Resized (c : SmemConfig) (h h' : SmallMem) (p q newsize : Nat) : Prop where
  bytes : ∀ k < min (h.sizeAt c p) newsize, h'.byteAt (q + k) = h.byteAt (p + k)
  live : ∀ o, IsLive c h' o ↔ o = q ∨ o ≠ p ∧ IsLive c h o
  size : ∀ o, IsLive c h o → o ≠ p → h'.sizeAt c o = h.sizeAt c o
  others : ∀ o, IsLive c h o → o ≠ p → ∀ k < h.sizeAt c o, h'.byteAt (o + k) = h.byteAt (o + k)

/-- What `rt_smem_realloc(m, p, newsize)` promises for a block `p`. -/
def ReallocContract (c : SmemConfig) (h : SmallMem) (p newsize : Nat) : Prop :=
  ∃ h' r, h.rtSmemRealloc c (some p) newsize = some (h', r) ∧
    match r with
    | none => Refused c h h' p
    | some q => Resized c h h' p q newsize

theorem HeapInv.isLive_iff (I : HeapInv c h bs) : IsLive c h p ↔ ∃ x b, (x, b) ∈ usedBlocks 0 bs ∧ p = h.dataOf c x := by
  constructor
  · rintro ⟨xs, hw, x, hx, hu, rfl⟩
    rw [hw.unique (walk_seg I.seg I.pos)] at hx
    obtain ⟨⟨x, b⟩, hm, rfl⟩ := List.mem_map.1 hx
    exact ⟨x, b, mem_usedBlocks.2 ⟨hm, (I.mem_next hm).2.1.symm.trans hu⟩, rfl⟩
  · rintro ⟨x, b, hm, rfl⟩
    obtain ⟨hm, hb⟩ := mem_usedBlocks.1 hm
    exact ⟨_, walk_seg I.seg I.pos, x, List.mem_map.2 ⟨_, hm, rfl⟩, (I.mem_next hm).2.1.trans hb, rfl⟩

theorem HeapInv.sizeAt_eq (I : HeapInv c h bs) (hm : (x, b) ∈ usedBlocks 0 bs) :
    h.sizeAt c (h.dataOf c x) = b.size - c.sizeofStructMem := by
  obtain ⟨ds, es, rfl, hx⟩ := mem_starts.1 (mem_usedBlocks.1 hm).1
  rw [Nat.zero_add] at hx
  have hle := (I.item_eq hx).2.2.2.2
  have hb := I.pos b (by simp)
  rw [sizeAt, I.itemOf_dataOf (by omega)]
  exact I.userSize_eq hx

theorem byteAt_dataOf (h : SmallMem) (x k : Nat) :
    h.byteAt (h.dataOf c x + k) = h.mem.byte (x + c.sizeofStructMem + k) := by
  rw [byteAt, dataOf]
  congr 1
  omega

/-- From the blocks to the addresses. -/
theorem HeapInv.resized (I : HeapInv c h bs) {bs' : List Block} (I' : HeapInv c h' bs') (hs : Same h h')
    (hp : (usedBlocks 0 bs).Perm ((x, b) :: us)) (hp' : (usedBlocks 0 bs').Perm ((y, ⟨n, true⟩) :: us))
    (hk : Keeps c h h' us) (hb : ∀ k < min (b.size - c.sizeofStructMem) newsize,
      h'.mem.byte (y + c.sizeofStructMem + k) = h.mem.byte (x + c.sizeofStructMem + k)) :
    Resized c h h' (h.dataOf c x) (h.dataOf c y) newsize := by
  have hx : (x, b) ∈ usedBlocks 0 bs := hp.mem_iff.2 List.mem_cons_self
  have hother {o : Nat} (hl : IsLive c h o) (hne : o ≠ h.dataOf c x) : ∃ z e, (z, e) ∈ us ∧ o = h.dataOf c z := by
    obtain ⟨z, e, hz, rfl⟩ := I.isLive_iff.1 hl
    rcases List.mem_cons.1 (hp.mem_iff.1 hz) with heq | hz
    · cases heq
      exact absurd rfl hne
    · exact ⟨z, e, hz, rfl⟩
  have hmem {z : Nat} {e : Block} (hz : (z, e) ∈ us) : (z, e) ∈ usedBlocks 0 bs ∧ (z, e) ∈ usedBlocks 0 bs' :=
    ⟨hp.mem_iff.2 (List.mem_cons_of_mem _ hz), hp'.mem_iff.2 (List.mem_cons_of_mem _ hz)⟩
  constructor
  · intro k hlt
    rw [I.sizeAt_eq hx] at hlt
    rw [← hs.dataOf, byteAt_dataOf, byteAt_dataOf]
    exact hb k hlt
  · intro o
    rw [I'.isLive_iff]
    constructor
    · rintro ⟨z, e, hz, rfl⟩
      rw [hs.dataOf]
      rcases List.mem_cons.1 (hp'.mem_iff.1 hz) with heq | hz
      · exact .inl (by rw [(Prod.mk.inj heq).1])
      · refine .inr ⟨fun heq => ?_, I.isLive_iff.2 ⟨z, e, (hmem hz).1, rfl⟩⟩
        -- The old block stands apart from the others.
        have hap := (List.pairwise_cons.1 (hp.pairwise_iff (fun hab => Std.Symm.symm _ _ hab) |>.1
          pairwise_usedBlocks)).1 _ hz
        obtain ⟨ds, es, hbs, -⟩ := mem_starts.1 (mem_usedBlocks.1 (hmem hz).1).1
        obtain ⟨ds', es', hbs', -⟩ := mem_starts.1 (mem_usedBlocks.1 hx).1
        have h1 := I.pos e (by rw [hbs]; simp)
        have h2 := I.pos b (by rw [hbs']; simp)
        simp only [Apart, SmallMem.dataOf] at hap heq
        omega
    · rintro (rfl | ⟨hne, hl⟩)
      · exact ⟨y, _, hp'.mem_iff.2 List.mem_cons_self, (hs.dataOf c y).symm⟩
      · obtain ⟨z, e, hz, rfl⟩ := hother hl hne
        exact ⟨z, e, (hmem hz).2, (hs.dataOf c z).symm⟩
  · intro o hl hne
    obtain ⟨z, e, hz, rfl⟩ := hother hl hne
    rw [I.sizeAt_eq (hmem hz).1, ← hs.dataOf]
    exact I'.sizeAt_eq (hmem hz).2
  · intro o hl hne k hlt
    obtain ⟨z, e, hz, rfl⟩ := hother hl hne
    rw [I.sizeAt_eq (hmem hz).1] at hlt
    rw [byteAt_dataOf, ← hs.dataOf, byteAt_dataOf]
    exact hk _ hz _ (by dsimp only; omega) (by dsimp only; omega)

/-- A block is freed if the alignment of the new size wraps, and the contract is kept otherwise. -/
theorem HeapInv.reallocContract_iff (I : HeapInv c h bs) (hm : (x, b) ∈ usedBlocks 0 bs)
    (hpos : 0 < newsize) (hlt : newsize < 2 ^ c.bits) :
    ReallocContract c h (h.dataOf c x) newsize ↔ newsize + c.alignSize ≤ 2 ^ c.bits := by
  have hp : (usedBlocks 0 bs).Perm ((x, b) :: (usedBlocks 0 bs).erase (x, b)) := List.perm_cons_erase hm
  constructor
  · intro hc
    by_contra hwrap
    have h0 := Word.rtAlign_wrap hlt (Nat.lt_of_not_le hwrap)
    rcases I.rtSmemRealloc hm newsize with ⟨-, h', hf, he⟩ | ⟨hne, -⟩ | ⟨-, -, -, hne, -⟩
    · obtain ⟨h1, r, he1, hr⟩ := hc
      cases he.symm.trans he1
      obtain ⟨h2, bs', hf', I', -, hp'⟩ := I.rtSmemFree hm
      cases hf.symm.trans hf'
      -- The count of the used bytes tells the heaps apart.
      have hu := I'.used
      rw [Refused.heap hr, I.used, usedSize_eq (a := 0), usedSize_eq (a := 0), (hp'.map _).sum_nat] at hu
      obtain ⟨ds, es, hbs, -⟩ := exists_of_perm hp
      have := I.pos b (by rw [hbs]; simp)
      simp at hu
      omega
    · exact hne h0
    · exact hne h0
  · intro hle
    obtain ⟨hge, -⟩ := Word.rtAlign_spec hle
    rcases I.rtSmemRealloc hm newsize with ⟨h0, -⟩ | ⟨-, he⟩ | ⟨h', y, n, -, he, hM, -⟩
    · omega
    · exact ⟨h, none, he, rfl, I.isLive_iff.2 ⟨x, b, hm, rfl⟩⟩
    · obtain ⟨bs', us, I', hp1, hp2⟩ := hM.blocks
      obtain ⟨hk, y', hy, hb⟩ := I.rtSmemRealloc_keeps hp1 he
      have hyy : y' = y := by simp only [dataOf] at hy; omega
      subst hyy
      exact ⟨h', _, he, I.resized I' hM.same hp1 hp2 hk fun k hlt => hb k (by omega)⟩

end SmallMem

namespace Smem

open SmallMem

variable {c : SmemConfig} {s s' : Smem} {p newsize : Nat} {r : Option Nat}

/-! ## Runs in which users store data -/

/-- A call, or a store of a user to a block of its own. -/
inductive Event
  | call (call : SmemCall)
  | store (p k : Nat) (v : UInt8)
  deriving DecidableEq

def stepEvent (c : SmemConfig) (s : Smem) : Event → Option (Smem × Option Nat)
  | .call call => step c s call
  | .store p k v =>
    if p ∈ s.live ∧ k < s.heap.sizeAt c p then some ({ s with heap := s.heap.storeByte (p + k) v }, none) else none

/-- The states of runs that start with `rt_smem_init`, whatever the memory holds. -/
def ReachStores (c : SmemConfig) (s : Smem) : Prop :=
  ∃ (a : Area c) (mem : Store SmallMemItem) (h : SmallMem) (ls : List (Event × Option Nat)),
    SmallMem.rtSmemInit c mem a.beginAddr a.size = some h ∧
      Runs.Run (fun s l s' => stepEvent c s l.1 = some (s', l.2)) ⟨h, []⟩ ls s

/-- A store leaves the items. -/
theorem Inv.stepEvent {e : Event} (I : Inv c s) (hk : Smem.stepEvent c s e = some (s', r)) : Inv c s' := by
  cases e with
  | call call => exact I.step hk
  | store p k v =>
    simp only [Smem.stepEvent] at hk
    split at hk
    swap
    · cases hk
    cases hk
    obtain ⟨bs, hI, hl⟩ := I
    exact ⟨bs, hI.congr ⟨rfl, rfl, rfl, rfl⟩ rfl rfl rfl, hl⟩

theorem ReachStores.inv (hr : ReachStores c s) : Inv c s := by
  obtain ⟨a, mem, h, ls, he, hrun⟩ := hr
  refine hrun.invariant (I := Inv c) ⟨_, rtSmemInit_inv a he, ?_⟩ fun s l s' I hs => I.stepEvent hs
  simp [usedBlocks]

/-- The blocks that the users have are those that the heap has in use. -/
theorem Inv.mem_live_iff (I : Inv c s) : p ∈ s.live ↔ IsLive c s.heap p := by
  obtain ⟨bs, hI, hl⟩ := I
  rw [hI.isLive_iff]
  constructor
  · exact mem_of_live hl
  · rintro ⟨x, b, hm, rfl⟩
    exact hl.mem_iff.2 (List.mem_map.2 ⟨_, hm, rfl⟩)

/-- In every state reached, for every live block and every new size: the contract of `rt_smem_realloc` is kept exactly if
the alignment of the size does not wrap. -/
theorem realloc_contract_iff (hr : ReachStores c s) (hp : IsLive c s.heap p) (hpos : 0 < newsize)
    (hlt : newsize < 2 ^ c.bits) : ReallocContract c s.heap p newsize ↔ newsize + c.alignSize ≤ 2 ^ c.bits := by
  obtain ⟨bs, hI, -⟩ := hr.inv
  obtain ⟨x, b, hm, rfl⟩ := hI.isLive_iff.1 hp
  exact hI.reallocContract_iff hm hpos hlt

/-- A block with data that is moved to grow, because another one follows it. -/
def events64 : List (Event × Option Nat) :=
  [(.call (.alloc 100), some 0x10a8), (.store 0x10a8 99 7, none), (.call (.alloc 200), some 0x1130)]

/-- A run that is computed. -/
theorem reach_events64 (es : List (Event × Option Nat)) {P : Smem → Prop} [DecidablePred P]
    (h : (Runs.exec (stepEvent config64) ⟨heap64, []⟩ (es.map Prod.fst)).any (fun y => decide (y.2 = es ∧ P y.1)) = true) :
    ∃ s, ReachStores config64 s ∧ P s := by
  obtain ⟨s, hrun, hP⟩ := Runs.Run.of_computed es h
  exact ⟨s, ⟨area64, _, heap64, es, (Option.some_get _).symm, hrun⟩, hP⟩

theorem realloc_contract_iff_events64 : ∃ s : Smem, s.live = [0x1130, 0x10a8] ∧ s.heap.byteAt 0x110b = 7 ∧
    (ReallocContract config64 s.heap 0x10a8 300 ↔ 300 + 8 ≤ 2 ^ 64) := by
  obtain ⟨s, hr, hlive, hbyte⟩ :=
    reach_events64 (P := fun s : Smem => s.live = [0x1130, 0x10a8] ∧ s.heap.byteAt 0x110b = 7) events64 (by decide)
  have hp : IsLive config64 s.heap 0x10a8 := hr.inv.mem_live_iff.1 (by rw [hlive]; decide)
  exact ⟨s, hlive, hbyte, realloc_contract_iff hr hp (by decide) (by decide)⟩

/-- The largest size is rounded to `0`, and the block is freed. -/
theorem not_realloc_contract :
    ¬∀ (c : SmemConfig) (s : Smem) (p newsize : Nat), ReachStores c s → IsLive c s.heap p → 0 < newsize →
      newsize < 2 ^ c.bits → ReallocContract c s.heap p newsize := by
  intro hall
  obtain ⟨s, hr, hlive, hnull⟩ := reach_events64 (P := fun s : Smem => s.live = [0x10a8] ∧
    (s.heap.rtSmemRealloc config64 (some 0x10a8) (2 ^ 64 - 1)).map (fun r => (r.1.used, r.2, s.heap.used)) =
      some (0, none, 136)) [(.call (.alloc 100), some 0x10a8)] (by decide)
  have hp : IsLive config64 s.heap 0x10a8 := hr.inv.mem_live_iff.1 (by rw [hlive]; decide)
  obtain ⟨h', r, he, hc⟩ := hall config64 s 0x10a8 (2 ^ 64 - 1) hr hp (by decide) (by decide)
  rw [he] at hnull
  simp only [Option.map_some, Option.some.injEq, Prod.mk.injEq] at hnull
  obtain ⟨h0, rfl, h136⟩ := hnull
  rw [Refused.heap hc] at h0
  omega

end Smem

end RtThread
