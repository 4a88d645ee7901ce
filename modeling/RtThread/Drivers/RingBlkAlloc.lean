import RtThread.Drivers.RingBlkRun

/-!
# Allocation from a ring block buffer

An allocation, of any size below the limit, does what it should if there is no free descriptor, or room for the block. If
there is no room it loses a descriptor, or, when no block is live, hands out a block that is larger than the buffer. As
long as all allocations have been of the first kind, freeing the live blocks gives back all that the buffer had at the
start.
-/

namespace RtThread

namespace RtRbb

variable {rbb rbb' a b : RtRbb} {live free lost : List Nat} {bits lo hi n : Nat} {xs : List Arc.Seg}

/-! ## Room -/

/-- The segments lie in `[lo, hi)`. -/
def Inside (lo hi : Nat) (xs : List Arc.Seg) : Prop := ∀ x ∈ xs, lo ≤ x.1 ∧ x.1 + x.2 ≤ hi

/-- Room for `n` bytes in `[lo, hi)`: after the last segment, up to the first where that comes next, or before the first.
Between empty blocks the last segment may end behind the start of the first while it starts before it. -/
def RoomFor (lo hi n : Nat) (xs : List Arc.Seg) : Prop :=
  match xs.head?, xs.getLast? with
  | some x, some y =>
    if x.1 ≤ y.1 then y.1 + y.2 + n ≤ hi ∨ lo + n ≤ x.1
    else y.1 + y.2 + n ≤ if y.1 + y.2 ≤ x.1 then x.1 else hi
  | _, _ => lo + n ≤ hi

/-- There is room if and only if a block is placed, and inside. -/
theorem placeFor_iff (bits : Nat) (hin : Inside lo hi xs) (hhi : hi < lo + 2 ^ bits) :
    (∃ buf, placeFor bits lo hi n xs = some buf ∧ lo ≤ buf ∧ buf + n ≤ hi) ↔ RoomFor lo hi n xs := by
  rcases List.eq_nil_or_concat xs with rfl | ⟨ys, y, hy⟩
  · constructor
    · rintro ⟨buf, hb, -, hle⟩
      cases hb
      exact hle
    · intro hr
      exact ⟨lo, rfl, Nat.le_refl lo, hr⟩
  · rw [List.concat_eq_append] at hy
    have hlast : xs.getLast? = some y := by rw [hy, List.getLast?_concat]
    cases xs with
    | nil => simp at hy
    | cons x xs =>
      have hx := hin x (by simp)
      have hend := hin y (List.mem_of_getLast? hlast)
      unfold placeFor RoomFor
      rw [hlast, List.head?_cons]
      dsimp only
      have hstop : y.1 ≤ y.1 + y.2 := Nat.le_add_right y.1 y.2
      generalize y.1 + y.2 = stop at hend hstop ⊢
      rw [ptrDiff_of_le hend.2, ptrDiff_of_le hx.1]
      by_cases hle : x.1 ≤ y.1
      · rw [if_pos hle, if_pos hle]
        by_cases h1 : hi - stop ≥ n
        · rw [if_pos h1]
          exact ⟨fun _ => Or.inl (by omega), fun _ => ⟨stop, rfl, by omega, by omega⟩⟩
        · rw [if_neg h1]
          by_cases h2 : x.1 - lo ≥ n
          · rw [if_pos h2]
            exact ⟨fun _ => Or.inr (by omega), fun _ => ⟨lo, rfl, Nat.le_refl lo, by omega⟩⟩
          · rw [if_neg h2]
            exact ⟨nofun, by omega⟩
      · rw [if_neg hle, if_neg hle]
        unfold ptrDiff
        by_cases h1 : stop ≤ x.1
        · rw [if_pos h1, if_pos h1]
          by_cases h2 : x.1 - stop ≥ n
          · rw [if_pos h2]
            exact ⟨fun _ => by omega, fun _ => ⟨stop, rfl, by omega, by omega⟩⟩
          · rw [if_neg h2]
            exact ⟨nofun, by omega⟩
        · -- the difference is negative, and passes as a large size
          rw [if_neg h1, if_neg h1]
          by_cases h2 : 2 ^ bits - (stop - x.1) ≥ n
          · rw [if_pos h2]
            constructor
            · rintro ⟨buf, hb, -, hle⟩
              cases hb
              exact hle
            · intro hr
              exact ⟨stop, rfl, by omega, hr⟩
          · rw [if_neg h2]
            exact ⟨nofun, by omega⟩

/-! ## One allocation -/

/-- A failed allocation changes nothing, and a block that is returned has its bytes in the buffer. -/
def CleanAlloc (bits : Nat) (rbb : RtRbb) (n : Nat) : Prop :=
  ∃ r rbb', rtRbbBlkAlloc bits rbb n = some (r, rbb') ∧ match r with
    | none => rbb' = rbb
    | some i => (rbb'.blkSet i).size = n ∧ rbb.buf ≤ (rbb'.blkSet i).buf ∧
        (rbb'.blkSet i).buf + n ≤ rbb.buf + rbb.bufSize

/-- No descriptor is free, or there is room for the block. -/
def CanServe (rbb : RtRbb) (n : Nat) : Prop :=
  rbb.next .freeList = none ∨
    ∃ live, rbb.Linked .blkList live ∧ RoomFor rbb.buf (rbb.buf + rbb.bufSize) n (live.map rbb.seg)

/-- The invariant while all allocations can be served. -/
structure Whole (rbb : RtRbb) (live free : List Nat) : Prop extends Books rbb live free [] where
  inside : Inside rbb.buf (rbb.buf + rbb.bufSize) (live.map rbb.seg)

theorem geometry_eq (h : rbb'.geometry = rbb.geometry) :
    rbb'.buf = rbb.buf ∧ rbb'.bufSize = rbb.bufSize ∧ rbb'.blkMaxNum = rbb.blkMaxNum := by
  simpa [geometry] using h

namespace Whole

theorem roomFor_iff (h : rbb.Whole live free) :
    (∃ live', rbb.Linked .blkList live' ∧ RoomFor rbb.buf (rbb.buf + rbb.bufSize) n (live'.map rbb.seg)) ↔
      RoomFor rbb.buf (rbb.buf + rbb.bufSize) n (live.map rbb.seg) := by
  constructor
  · rintro ⟨live', hl, hr⟩
    rwa [h.live_linked.eq hl]
  · intro hr
    exact ⟨live, h.live_linked, hr⟩

theorem cleanAlloc_iff (h : rbb.Whole live free) (hsize : rbb.bufSize < 2 ^ bits) (hn : n < 2 ^ 24) :
    CleanAlloc bits rbb n ↔ rbb.CanServe n := by
  unfold CanServe
  rw [h.roomFor_iff]
  cases free with
  | nil =>
    have hnone : rbb.next .freeList = none := h.free_linked.2
    exact ⟨fun _ => Or.inl hnone, fun _ => ⟨none, rbb, h.alloc_nil hn, rfl⟩⟩
  | cons i free =>
    have hsome : rbb.next .freeList ≠ none := by
      rw [h.free_linked.2.1]
      simp
    obtain ⟨rbb1, h1, hg, -, halloc⟩ := h.alloc_cons bits hn
    rw [or_iff_right hsome, ← placeFor_iff bits h.inside (by omega), ← h.newBuf_eq n]
    unfold CleanAlloc
    rw [halloc]
    cases rbbNewBuf bits rbb n with
    | none =>
      have hne : rbb1 ≠ rbb := by
        rintro rfl
        exact List.cons_ne_self i free (h.free_linked.eq h1.free_linked)
      constructor
      · rintro ⟨r, rbb', he, hr⟩
        cases he
        exact absurd hr hne
      · rintro ⟨buf, hb, -⟩
        cases hb
    | some buf =>
      have hblk : (rbbPlace rbb1 i buf n).blkSet i = ⟨.inited, n, buf⟩ := Function.update_self _ _ _
      constructor
      · rintro ⟨r, rbb', he, hr⟩
        cases he
        dsimp only at hr
        rw [hblk] at hr
        exact ⟨buf, rfl, hr.2⟩
      · rintro ⟨buf', hb, hr⟩
        cases hb
        refine ⟨some i, _, rfl, ?_⟩
        dsimp only
        rw [hblk]
        exact ⟨rfl, hr⟩

/-- An allocation that can be served keeps the invariant. -/
theorem alloc {r : Option Nat} (h : rbb.Whole live free) (hsize : rbb.bufSize < 2 ^ bits) (hc : rbb.CanServe n)
    (hr : rtRbbBlkAlloc bits rbb n = some (r, rbb')) :
    rbb'.geometry = rbb.geometry ∧ ∃ live' free', rbb'.Whole live' free' := by
  have hn := lt_of_alloc hr
  unfold CanServe at hc
  rw [h.roomFor_iff] at hc
  cases free with
  | nil =>
    rw [h.alloc_nil hn] at hr
    cases hr
    exact ⟨rfl, live, [], h⟩
  | cons i free =>
    have hsome : rbb.next .freeList ≠ none := by
      rw [h.free_linked.2.1]
      simp
    obtain ⟨rbb1, h1, hg, hseg, halloc⟩ := h.alloc_cons bits hn
    obtain ⟨hbuf, hsz, -⟩ := geometry_eq hg
    obtain ⟨buf, hb, hlo, hhi⟩ := (placeFor_iff bits h.inside (by omega)).2 (hc.resolve_left hsome)
    rw [← h.newBuf_eq n] at hb
    rw [halloc, hb] at hr
    cases hr
    obtain ⟨h2, hseg2⟩ := h1.place buf n
    refine ⟨hg, live ++ [i], free, h2, ?_⟩
    change Inside rbb1.buf (rbb1.buf + rbb1.bufSize) _
    rw [hseg2, hseg, hbuf, hsz]
    intro x hx
    rcases List.mem_append.1 hx with hx | hx
    · exact h.inside x hx
    · obtain rfl := List.mem_singleton.1 hx
      exact ⟨hlo, hhi⟩

/-- A call that moves no block keeps the invariant. -/
theorem of_keeps (h : rbb.Whole live free) (hk : rbb.Keeps live [] rbb') :
    rbb'.geometry = rbb.geometry ∧ ∃ live' free', rbb'.Whole live' free' := by
  obtain ⟨hg, hs, live', free', h', hsub⟩ := hk
  obtain ⟨hbuf, hsz, -⟩ := geometry_eq hg
  refine ⟨hg, live', free', h', ?_⟩
  rw [hs, hbuf, hsz]
  intro x hx
  exact h.inside x ((hsub.map rbb.seg).subset hx)

end Whole

/-! ## Buffers that serve alike -/

/-- Which of the allocations of the sizes `ns`, one after another, get a block. -/
def served (bits : Nat) : RtRbb → List Nat → List Bool
  | _, [] => []
  | rbb, n :: ns =>
    match rtRbbBlkAlloc bits rbb n with
    | some (r, rbb') => r.isSome :: served bits rbb' ns
    | none => []

/-- Blocks in the same places, and as many free descriptors. -/
def Alike (a b : RtRbb) : Prop :=
  a.geometry = b.geometry ∧ ∃ la fa oa lb fb ob, a.Books la fa oa ∧ b.Books lb fb ob ∧
    la.map a.seg = lb.map b.seg ∧ fa.length = fb.length

/-- An allocation from two buffers that are alike. -/
theorem Alike.alloc (bits : Nat) (h : Alike a b) (hn : n < 2 ^ 24) :
    ∃ ra a' rb b', rtRbbBlkAlloc bits a n = some (ra, a') ∧ rtRbbBlkAlloc bits b n = some (rb, b') ∧
      ra.isSome = rb.isSome ∧ Alike a' b' := by
  obtain ⟨hg, la, fa, oa, lb, fb, ob, ha, hb, hseg, hlen⟩ := h
  cases fa with
  | nil =>
    obtain rfl : fb = [] := List.length_eq_zero_iff.1 hlen.symm
    exact ⟨_, _, _, _, ha.alloc_nil hn, hb.alloc_nil hn, rfl, hg, la, [], oa, lb, [], ob, ha, hb, hseg, rfl⟩
  | cons i fa =>
    cases fb with
    | nil => cases hlen
    | cons j fb =>
      have hlen' : fa.length = fb.length := Nat.succ.inj hlen
      obtain ⟨a1, ha1, hga, hsa, hra⟩ := ha.alloc_cons bits hn
      obtain ⟨b1, hb1, hgb, hsb, hrb⟩ := hb.alloc_cons bits hn
      obtain ⟨hbuf, hsz, -⟩ := geometry_eq hg
      have hg1 : a1.geometry = b1.geometry := hga.trans (hg.trans hgb.symm)
      have hseg1 : la.map a1.seg = lb.map b1.seg := by rw [hsa, hsb, hseg]
      have hnew : rbbNewBuf bits b n = rbbNewBuf bits a n := by
        rw [ha.newBuf_eq, hb.newBuf_eq, hbuf, hsz, hseg]
      rw [hra, hrb, hnew]
      cases rbbNewBuf bits a n with
      | none => exact ⟨_, _, _, _, rfl, rfl, rfl, hg1, la, fa, i :: oa, lb, fb, j :: ob, ha1, hb1, hseg1, hlen'⟩
      | some buf =>
        obtain ⟨ha2, hsa2⟩ := ha1.place buf n
        obtain ⟨hb2, hsb2⟩ := hb1.place buf n
        refine ⟨_, _, _, _, rfl, rfl, rfl, hg1, la ++ [i], fa, oa, lb ++ [j], fb, ob, ha2, hb2, ?_, hlen'⟩
        rw [hsa2, hsb2, hseg1]

theorem Alike.served_eq (h : Alike a b) (ns : List Nat) : served bits a ns = served bits b ns := by
  induction ns generalizing a b with
  | nil => rfl
  | cons n ns ih =>
    unfold served
    by_cases hn : n < 2 ^ 24
    · obtain ⟨ra, a', rb, b', ha, hb, hs, h'⟩ := h.alloc bits hn
      rw [ha, hb]
      dsimp only
      rw [hs, ih h']
    · unfold rtRbbBlkAlloc
      rw [if_neg hn, if_neg hn]

/-- Freeing the live blocks, in any order. -/
theorem Whole.freeAll {xs : List Nat} (h : rbb.Whole live free) (hxs : xs.Perm live) :
    ∃ rbb' free', xs.foldlM rtRbbBlkFree rbb = some rbb' ∧ rbb'.Whole [] free' ∧ rbb'.geometry = rbb.geometry := by
  induction xs generalizing rbb live free with
  | nil =>
    obtain rfl := hxs.symm.eq_nil
    exact ⟨rbb, free, rfl, h, rfl⟩
  | cons i xs ih =>
    obtain ⟨as, bs, rfl⟩ := List.append_of_mem (hxs.mem_iff.1 List.mem_cons_self)
    obtain ⟨rbb1, hr, h1, hg, hseg⟩ := h.free_blk
    obtain ⟨hbuf, hsz, -⟩ := geometry_eq hg
    have h1' : rbb1.Whole (as ++ bs) (i :: free) := by
      refine ⟨h1, ?_⟩
      rw [hseg, hbuf, hsz]
      intro x hx
      exact h.inside x ((((List.sublist_cons_self i bs).append_left as).map rbb.seg).subset hx)
    obtain ⟨rbb', free', hr', h', hg'⟩ := ih h1' ((hxs.trans List.perm_middle).cons_inv)
    refine ⟨rbb', free', ?_, h', hg'.trans hg⟩
    rw [List.foldlM_cons, hr]
    exact hr'

/-- After the live blocks are freed, in any order, the buffer serves as `rbb0` does. -/
def Recovers (bits : Nat) (rbb rbb0 : RtRbb) : Prop :=
  ∃ live, rbb.Linked .blkList live ∧ ∀ xs : List Nat, xs.Perm live → ∃ rbb',
    xs.foldlM rtRbbBlkFree rbb = some rbb' ∧ ∀ ns, served bits rbb' ns = served bits rbb0 ns

/-! ## Runs -/

/-- One call, with a block of any size. -/
def Move (bits : Nat) (rbb : RtRbb) (x : Call × RtRbb × Ret) (rbb' : RtRbb) : Prop :=
  x.2.1 = rbb ∧ rbb.InRange x.1 ∧ rbb.call bits x.1 = some (x.2.2, rbb')

theorem Step.move {x : Call × RtRbb × Ret} (h : Step bits rbb x rbb') : Move bits rbb x rbb' :=
  ⟨h.1, Inv.inRange_of_ok h.2.1, h.2.2⟩

/-- An allocation of the run could be served. -/
def Serves (x : Call × RtRbb × Ret) : Prop := ∀ n, x.1 = .alloc n → x.2.1.CanServe n

/-- In a run whose allocations could all be served, an allocation is clean if and only if it can be served; and the
buffer recovers. -/
theorem alloc_clean_iff {buf bufSize k : Nat} {blockSet : Nat → RtRbbBlk} {next : SlistNode → Option SlistNode}
    {ls : List (Call × RtRbb × Ret)} (hsize : bufSize < 2 ^ bits)
    (hr : Runs.Run (Move bits) (rtRbbInit buf bufSize blockSet next k) ls rbb) (hls : ∀ x ∈ ls, Serves x) :
    (∀ n < 2 ^ 24, CleanAlloc bits rbb n ↔ rbb.CanServe n) ∧
      Recovers bits rbb (rtRbbInit buf bufSize blockSet next k) := by
  obtain ⟨h0, hg0⟩ := inv_init buf bufSize k blockSet next
  generalize rtRbbInit buf bufSize blockSet next k = rbb0 at h0 hg0 hr ⊢
  have hsize0 : rbb0.bufSize < 2 ^ bits := by
    rw [show rbb0.bufSize = bufSize from congrArg (fun g => g.2.1) hg0]
    exact hsize
  have hinv : (∀ x ∈ ls, Serves x) → rbb.geometry = rbb0.geometry ∧ ∃ live free, rbb.Whole live free := by
    refine hr.history (I := fun ls rbb => (∀ x ∈ ls, Serves x) →
      rbb.geometry = rbb0.geometry ∧ ∃ live free, rbb.Whole live free) ?_ ?_
    · intro _
      exact ⟨rfl, [], _, h0.toBooks, nofun⟩
    · rintro ls s ⟨c, s1, r⟩ s' ih ⟨rfl, hok, hcall⟩ hserves
      obtain ⟨hg, live, free, h⟩ := ih fun x hx => hserves x (by simp [hx])
      have hc : Serves (c, s1, r) := hserves _ (by simp)
      by_cases halloc : ∃ n, c = .alloc n
      · obtain ⟨n, rfl⟩ := halloc
        obtain ⟨x, hx, he⟩ := Option.map_eq_some_iff.1 hcall
        cases he
        have hs1 : s1.bufSize < 2 ^ bits := by
          rw [(geometry_eq hg).2.1]
          exact hsize0
        obtain ⟨hg', h'⟩ := h.alloc hs1 (hc n rfl) hx
        exact ⟨hg'.trans hg, h'⟩
      · rw [not_exists] at halloc
        obtain ⟨hg', h'⟩ := h.of_keeps (h.keeps_of_call halloc hok hcall)
        exact ⟨hg'.trans hg, h'⟩
  obtain ⟨hg, live, free, h⟩ := hinv hls
  have hbits : rbb.bufSize < 2 ^ bits := by
    rw [(geometry_eq hg).2.1]
    exact hsize0
  refine ⟨fun n hn => h.cleanAlloc_iff hbits hn, live, h.live_linked, fun xs hxs => ?_⟩
  obtain ⟨rbb', free', hfree, h', hg'⟩ := h.freeAll hxs
  refine ⟨rbb', hfree, fun ns => Alike.served_eq ?_ ns⟩
  refine ⟨hg'.trans hg, [], free', [], [], _, [], h'.toBooks, h0.toBooks, rfl, ?_⟩
  have hmax : rbb'.blkMaxNum = rbb0.blkMaxNum := (geometry_eq (hg'.trans hg)).2.2
  have hlen := h'.perm.length_eq.trans (hmax ▸ h0.perm.length_eq.symm)
  simpa using hlen

/-- Eight bytes, with a block of four handed out. -/
theorem alloc_clean_small :
    (∀ n < 2 ^ 24, CleanAlloc 32 (smallAfter [.alloc 4]) n ↔ (smallAfter [.alloc 4]).CanServe n) ∧
      Recovers 32 (smallAfter [.alloc 4]) small := by
  refine alloc_clean_iff (by decide) ((run_small [.alloc 4] (by decide)).mono fun s x s' => Step.move) ?_
  rintro x hx n hn
  obtain rfl : x = (.alloc 4, small, .block (some 1)) := List.mem_singleton.1 hx
  obtain rfl : 4 = n := Call.alloc.inj hn
  have hnone : small.next .blkList = none := by decide
  exact Or.inr ⟨[], ⟨rfl, hnone⟩, show 0 + 4 ≤ 0 + 8 by decide⟩

/-- A block of nine bytes is handed out from a buffer of eight. After one of eight, an allocation fails and takes a
descriptor with it: freed again, the buffer has one block to hand out where it had two. -/
theorem alloc_unclean :
    ¬CleanAlloc 32 small 9 ∧ ∃ ls ls', Runs.Run (Move 32) small ls (smallAfter [.alloc 8]) ∧
      ¬CleanAlloc 32 (smallAfter [.alloc 8]) 1 ∧
      Runs.Run (Move 32) small ls' (smallAfter [.alloc 8, .alloc 1]) ∧
      ¬Recovers 32 (smallAfter [.alloc 8, .alloc 1]) small := by
  refine ⟨?_, _, _, (run_small [.alloc 8] (by decide)).mono fun s x s' => Step.move, ?_,
    (run_small [.alloc 8, .alloc 1] (by decide)).mono fun s x s' => Step.move, ?_⟩
  · rintro ⟨r, rbb', hr, h⟩
    have hret : (rtRbbBlkAlloc 32 small 9).map (fun x => (x.1, (x.2.blkSet 1).buf)) = some (some 1, 0) := by
      decide
    rw [hr] at hret
    obtain ⟨rfl, hbuf⟩ := Prod.mk.inj (Option.some.inj hret)
    have hle : (rbb'.blkSet 1).buf + 9 ≤ 0 + 8 := h.2.2
    omega
  · rintro ⟨r, rbb', hr, h⟩
    have hret : (rtRbbBlkAlloc 32 (smallAfter [.alloc 8]) 1).map (fun x => (x.1, x.2.next .freeList)) =
        some (none, none) := by
      decide
    have hfree : (smallAfter [.alloc 8]).next .freeList = some (.blk 0) := by decide
    rw [hr] at hret
    obtain ⟨rfl, hnext⟩ := Prod.mk.inj (Option.some.inj hret)
    have hsame : rbb' = smallAfter [.alloc 8] := h
    rw [hsame, hfree] at hnext
    cases hnext
  · rintro ⟨live, hl, hall⟩
    have h1 : (smallAfter [.alloc 8, .alloc 1]).next .blkList = some (.blk 1) := by decide
    have h2 : (smallAfter [.alloc 8, .alloc 1]).next (.blk 1) = none := by decide
    have hlive : (smallAfter [.alloc 8, .alloc 1]).Linked .blkList [1] := ⟨rfl, h1, h2⟩
    obtain ⟨rbb', hfree, hserved⟩ := hall [1] (by rw [hl.eq hlive])
    have hnow : ([1].foldlM rtRbbBlkFree (smallAfter [.alloc 8, .alloc 1])).map (fun s => served 32 s [1, 1]) =
        some [true, false] := by
      decide
    have hthen : served 32 small [1, 1] = [true, true] := by decide
    rw [hfree, Option.map_some, hserved, hthen] at hnow
    cases hnow

end RtRbb

end RtThread
