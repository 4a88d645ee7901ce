import RtThread.Drivers.RingBlkLists
import RtThread.Lib.Runs

/-!
# The blocks of a ring block buffer

The live blocks are disjoint segments of the buffer, in circular order along `blk_list`. An allocation that finds a
descriptor but no room takes it off `free_list` and puts it nowhere: the descriptors are on one list each until that
happens, and never again after.
-/

namespace RtThread

namespace RtRbb

variable {rbb rbb' : RtRbb} {live free lost as bs : List Nat} {i j : Nat} {bits : Nat}

/-! ## The invariant -/

/-- The lists, and the live blocks in circular order. -/
structure Inv (rbb : RtRbb) (live free lost : List Nat) : Prop extends Books rbb live free lost where
  arc : Arc.Circular rbb.buf (rbb.buf + rbb.bufSize) (live.map rbb.seg)

/-- Room for `blkSize` bytes after the last block, or at the start of the buffer if no block has been carried there. -/
def HasRoom (rbb : RtRbb) (blkSize : Nat) : Prop :=
  ∀ h t, rbb.next .blkList = some (.blk h) → rbb.tail = .blk t →
    (rbb.blkSet t).buf + (rbb.blkSet t).size + blkSize ≤
        (if (rbb.blkSet h).buf ≤ (rbb.blkSet t).buf then rbb.buf + rbb.bufSize else (rbb.blkSet h).buf) ∨
      (rbb.blkSet h).buf ≤ (rbb.blkSet t).buf ∧ rbb.buf + blkSize ≤ (rbb.blkSet h).buf

/-- An allocation finds no free descriptor, or room for the block. -/
def Fits (rbb : RtRbb) : Call → Prop
  | .alloc blkSize => rbb.next .freeList = none ∨ rbb.HasRoom blkSize
  | _ => True

/-- What a call does: the invariant holds after it, and no descriptor is lost unless an allocation found no room. -/
def Steps (rbb : RtRbb) (lost : List Nat) (c : Call) (rbb' : RtRbb) : Prop :=
  rbb'.geometry = rbb.geometry ∧
    ∃ live' free' lost', rbb'.Inv live' free' lost' ∧ (lost' = [] ↔ lost = [] ∧ rbb.Fits c)

namespace Inv

/-- There is space for a block if and only if there is room, and then the blocks stay on the circle. -/
theorem newBuf {blkSize : Nat} (h : rbb.Inv live free lost) (hsize : 0 < blkSize ∧ blkSize ≤ rbb.bufSize) :
    (∃ buf, rbbNewBuf bits rbb blkSize = some buf ∧ rbb.HasRoom blkSize ∧
      Arc.Circular rbb.buf (rbb.buf + rbb.bufSize) (live.map rbb.seg ++ [(buf, blkSize)])) ∨
    (rbbNewBuf bits rbb blkSize = none ∧ ¬rbb.HasRoom blkSize) := by
  rw [h.newBuf_eq]
  rcases List.eq_nil_or_concat live with rfl | ⟨ys, t, ht⟩
  · refine Or.inl ⟨_, rfl, fun x y hx => ?_, Arc.circular_single hsize.1 (Nat.add_le_add_left hsize.2 _)⟩
    rw [show rbb.next .blkList = none from h.live_linked.2] at hx
    cases hx
  · rw [List.concat_eq_append] at ht
    have htail := (ht ▸ h).tail_live
    have hlast : (live.map rbb.seg).getLast? = some (rbb.seg t) := by
      rw [ht, List.map_append, List.map_singleton, List.getLast?_concat]
    cases live with
    | nil => simp at ht
    | cons x xs =>
      have hx := h.head_live
      have hhead : ((x :: xs).map rbb.seg).head? = some (rbb.seg x) := rfl
      have hroom : rbb.HasRoom blkSize ↔
          (rbb.seg t).1 + (rbb.seg t).2 + blkSize ≤
              (if (rbb.seg x).1 ≤ (rbb.seg t).1 then rbb.buf + rbb.bufSize else (rbb.seg x).1) ∨
            (rbb.seg x).1 ≤ (rbb.seg t).1 ∧ rbb.buf + blkSize ≤ (rbb.seg x).1 := by
        constructor
        · intro hr
          exact hr x t hx htail
        · intro hr a b ha hb
          rw [hx] at ha
          rw [htail] at hb
          obtain rfl := SlistNode.blk.inj (Option.some.inj ha)
          obtain rfl := SlistNode.blk.inj hb
          exact hr
      have hb := h.arc.bounds (List.mem_of_getLast? hlast)
      have hb' := h.arc.bounds (List.mem_of_head? hhead)
      have harc := h.arc
      rw [hroom]
      unfold placeFor
      rw [hlast, hhead]
      dsimp only
      rw [ptrDiff_of_le hb.2.2, ptrDiff_of_le hb'.1]
      by_cases hle : (rbb.seg x).1 ≤ (rbb.seg t).1
      · rw [if_pos hle, if_pos hle]
        by_cases h1 : rbb.buf + rbb.bufSize - ((rbb.seg t).1 + (rbb.seg t).2) ≥ blkSize
        · rw [if_pos h1]
          have hr : (rbb.seg t).1 + (rbb.seg t).2 + blkSize ≤ rbb.buf + rbb.bufSize := by omega
          exact Or.inl ⟨_, rfl, Or.inl hr, harc.push_end hhead hlast hle hsize.1 hr⟩
        rw [if_neg h1]
        by_cases h2 : (rbb.seg x).1 - rbb.buf ≥ blkSize
        · rw [if_pos h2]
          have hr : rbb.buf + blkSize ≤ (rbb.seg x).1 := by omega
          exact Or.inl ⟨_, rfl, Or.inr ⟨hle, hr⟩, harc.push_start hhead hlast hle hsize.1 hr⟩
        · rw [if_neg h2]
          exact Or.inr ⟨rfl, by omega⟩
      · obtain ⟨-, -, -, -, -, hend⟩ := harc.carried hhead hlast (by omega)
        rw [if_neg hle, if_neg hle, ptrDiff_of_le hend]
        by_cases h1 : (rbb.seg x).1 - ((rbb.seg t).1 + (rbb.seg t).2) ≥ blkSize
        · rw [if_pos h1]
          have hr : (rbb.seg t).1 + (rbb.seg t).2 + blkSize ≤ (rbb.seg x).1 := by omega
          exact Or.inl ⟨_, rfl, Or.inl hr, harc.push_between hhead hlast (by omega) hsize.1 hr⟩
        · rw [if_neg h1]
          exact Or.inr ⟨rfl, by omega⟩

theorem steps (h : rbb'.Inv live free lost) (hg : rbb'.geometry = rbb.geometry) {c : Call} (hc : rbb.Fits c) :
    rbb.Steps lost c rbb' :=
  ⟨hg, live, free, lost, h, by simp [hc]⟩

theorem alloc {blkSize : Nat} (bits : Nat) (h : rbb.Inv live free lost) (hsize : 0 < blkSize ∧ blkSize ≤ rbb.bufSize)
    (hlt : blkSize < 2 ^ 24) :
    ∃ i rbb', rtRbbBlkAlloc bits rbb blkSize = some (i, rbb') ∧ rbb.Steps lost (.alloc blkSize) rbb' := by
  cases free with
  | nil => exact ⟨_, _, h.alloc_nil hlt, steps h rfl (Or.inl h.free_linked.2)⟩
  | cons i free =>
    have hsome : rbb.next .freeList ≠ none := by
      rw [h.free_linked.2.1]
      simp
    obtain ⟨rbb1, h1, hg, hseg, halloc⟩ := h.alloc_cons bits hlt
    obtain ⟨hbuf, hsz⟩ : rbb1.buf = rbb.buf ∧ rbb1.bufSize = rbb.bufSize := by
      unfold geometry at hg
      simp only [Prod.mk.injEq] at hg
      exact ⟨hg.1, hg.2.1⟩
    rw [halloc]
    rcases h.newBuf hsize with ⟨buf, hb, hr, ha⟩ | ⟨hb, hr⟩
    · rw [hb]
      obtain ⟨h2, hseg2⟩ := h1.place buf blkSize
      refine ⟨_, _, rfl, steps ⟨h2, ?_⟩ hg (Or.inr hr)⟩
      change Arc.Circular rbb1.buf (rbb1.buf + rbb1.bufSize) _
      rw [hseg2, hseg, hbuf, hsz]
      exact ha
    · rw [hb]
      refine ⟨_, _, rfl, hg, _, _, _, ⟨h1, ?_⟩, ?_⟩
      · rw [hseg, hbuf, hsz]
        exact h.arc
      · unfold Fits
        simp [hsome, hr]

/-- After a call that moves no block, the blocks that are left are in circular order. -/
theorem of_keeps (h : rbb.Inv live free lost) {c : Call} (hk : rbb.Keeps live lost rbb') (hc : rbb.Fits c) :
    rbb.Steps lost c rbb' := by
  obtain ⟨hg, hs, live', free', h', hsub⟩ := hk
  obtain ⟨hbuf, hsize⟩ : rbb'.buf = rbb.buf ∧ rbb'.bufSize = rbb.bufSize := by
    unfold geometry at hg
    simp only [Prod.mk.injEq] at hg
    exact ⟨hg.1, hg.2.1⟩
  refine steps ⟨h', ?_⟩ hg hc
  rw [hs, hbuf, hsize]
  exact h.arc.sublist (hsub.map rbb.seg)

end Inv

/-! ## Runs -/

/-- The arguments are in range: a size for the buffer, descriptors of `blk_set`. -/
def Ok (rbb : RtRbb) : Call → Prop
  | .alloc blkSize => 0 < blkSize ∧ blkSize ≤ rbb.bufSize
  | .put i => i < rbb.blkMaxNum
  | .free i => i < rbb.blkMaxNum
  | .queueFree queue => ∀ i ∈ queue.blocks, i < rbb.blkMaxNum
  | _ => True

instance (rbb : RtRbb) (c : Call) : Decidable (rbb.Ok c) := by
  cases c <;> unfold Ok <;> infer_instance

/-- What the assertions of a call check; the blocks of a queue that is freed are live, one after another. -/
def Asserted (rbb : RtRbb) : Call → Prop
  | .alloc blkSize => blkSize < 2 ^ 24
  | .put i => (rbb.blkSet i).status = .inited
  | .free i => (rbb.blkSet i).status ≠ .unused
  | .queueFree queue => ∃ us as vs, rbb.Linked .blkList (us ++ (as ++ vs)) ∧ as.length = queue.blkNum ∧
      (as = [] ∨ queue.blocks = as.head?)
  | _ => True

/-- One call, with the state it is made in and what it returns. -/
def Step (bits : Nat) (rbb : RtRbb) (x : Call × RtRbb × Ret) (rbb' : RtRbb) : Prop :=
  x.2.1 = rbb ∧ rbb.Ok x.1 ∧ rbb.call bits x.1 = some (x.2.2, rbb')

/-- The step as a function. -/
def run (bits : Nat) (rbb : RtRbb) (c : Call) : Option (RtRbb × RtRbb × Ret) :=
  if rbb.Ok c then (rbb.call bits c).map fun x => (x.2, rbb, x.1) else none

namespace Inv

/-- A call whose assertions hold returns. -/
theorem call_isSome (h : rbb.Inv live free lost) {c : Call} (hok : rbb.Ok c) (ha : rbb.Asserted c) :
    (rbb.call bits c).isSome := by
  cases c with
  | alloc blkSize =>
    obtain ⟨r, rbb', hr, -⟩ := h.alloc bits hok ha
    simp [call, hr]
  | put i =>
    obtain ⟨rbb', hr, -⟩ := h.put hok ha
    simp [call, hr]
  | get =>
    obtain ⟨r, rbb', hr, -⟩ := h.get
    simp [call, hr]
  | free i =>
    obtain ⟨rbb', hr, -⟩ := h.free_step hok ha
    simp [call, hr]
  | queueGet len queue =>
    obtain ⟨r, rbb', past, hr, -⟩ := h.queueGet bits len queue
    simp [call, hr]
  | queueFree queue =>
    obtain ⟨us, as, vs, hl, hlen, hb⟩ := ha
    obtain rfl : live = us ++ (as ++ vs) := h.live_linked.eq hl
    obtain ⟨rbb', free', hr, -⟩ := h.queueFreeLoop
    have hloop : rtRbbBlkQueueFree rbb queue = some rbb' := by
      unfold rtRbbBlkQueueFree
      rw [← hlen]
      cases as with
      | nil =>
        cases hr
        rfl
      | cons i as =>
        rw [hb.resolve_left (List.cons_ne_nil i as)]
        exact hr
    simp [call, hloop]

theorem inRange_of_ok {c : Call} (hok : rbb.Ok c) : rbb.InRange c := by
  cases c with
  | alloc blkSize => trivial
  | _ => exact hok

/-- A call keeps the invariant. -/
theorem step (h : rbb.Inv live free lost) {c : Call} {r : Ret} (hok : rbb.Ok c)
    (hr : rbb.call bits c = some (r, rbb')) : rbb.Steps lost c rbb' := by
  by_cases hc : ∃ n, c = .alloc n
  · obtain ⟨blkSize, rfl⟩ := hc
    obtain ⟨x, hx, he⟩ := Option.map_eq_some_iff.1 hr
    cases he
    obtain ⟨i, rbb1, h1, hs⟩ := h.alloc bits hok (lt_of_alloc hx)
    rw [Option.some.inj (hx.symm.trans h1)]
    exact hs
  · rw [not_exists] at hc
    have hfits : rbb.Fits c := by
      cases c with
      | alloc blkSize => exact absurd rfl (hc blkSize)
      | _ => trivial
    exact h.of_keeps (h.keeps_of_call hc (inRange_of_ok hok) hr) hfits

end Inv

/-! ## The buffer at the start -/

section Init

variable {buf bufSize k : Nat} {blockSet : Nat → RtRbbBlk} {next : SlistNode → Option SlistNode}

theorem inv_initLoop (rbb : RtRbb) (h0 : rbb.Linked .blkList []) (h1 : rbb.Linked .freeList []) (ht : rbb.tail = .blkList) :
    ((List.range k).foldl rbbInitBlk rbb).Linked .blkList [] ∧
      ((List.range k).foldl rbbInitBlk rbb).Linked .freeList (List.range k).reverse ∧
      ((List.range k).foldl rbbInitBlk rbb).tail = .blkList ∧
      (∀ i < k, (((List.range k).foldl rbbInitBlk rbb).blkSet i).status = .unused) ∧
      ((List.range k).foldl rbbInitBlk rbb).geometry = rbb.geometry := by
  induction k with
  | zero => exact ⟨h0, h1, ht, fun i hi => absurd hi (Nat.not_lt_zero i), rfl⟩
  | succ k ih =>
    obtain ⟨hb, hf, htail, hst, hg⟩ := ih
    rw [List.range_succ, List.foldl_append, List.foldl_cons, List.foldl_nil, List.reverse_append]
    generalize (List.range k).foldl rbbInitBlk rbb = s at hb hf htail hst hg
    have hk : SlistNode.blk k ∉ SlistNode.freeList :: (List.range k).reverse.map SlistNode.blk := by simp
    have hf' : ((s.setStatus k .unused).setNext (.blk k) none).Linked .freeList (List.range k).reverse :=
      (show (s.setStatus k .unused).Linked .freeList _ from hf).setNext hk
    refine ⟨?_, hf'.insert (fun j => by simp) (by simp), htail, fun i hi => ?_, hg⟩
    · apply Singly.Chain.update
      · apply Singly.Chain.update
        · exact (show (s.setStatus k .unused).Linked .blkList [] from hb).setNext (by simp)
        · simp
      · simp
    · change ((s.setStatus k .unused).blkSet i).status = _
      by_cases e : i = k
      · rw [e, setStatus_status_self]
      · rw [setStatus_status_of_ne e]
        exact hst i (by omega)

variable (buf bufSize k blockSet next) in
theorem inv_init :
    (rtRbbInit buf bufSize blockSet next k).Inv [] (List.range k).reverse [] ∧
      (rtRbbInit buf bufSize blockSet next k).geometry = (buf, bufSize, k) := by
  unfold rtRbbInit
  obtain ⟨hb, hf, ht, hst, hg⟩ := inv_initLoop (k := k)
    (rtSlistInit (rtSlistInit
      { buf := buf, bufSize := bufSize, blkSet := blockSet, blkMaxNum := k, tail := .blkList, next := next } .blkList)
      .freeList) ⟨rfl, rfl⟩ ⟨rfl, rfl⟩ rfl
  dsimp only at hb hf ht hst hg ⊢
  generalize (List.range k).foldl rbbInitBlk _ = s at hb hf ht hst hg ⊢
  refine ⟨⟨⟨hb, hf, ?_, ?_, by simp, ?_⟩, ?_⟩, hg⟩
  · rw [ht]; rfl
  · have hmax : s.blkMaxNum = k := congrArg (fun g => g.2.2) hg
    rw [hmax, List.append_nil]
    exact List.reverse_perm _
  · intro i hi
    apply hst
    simpa using hi
  · exact (show Arc.Ascending _ _ [] from Nat.le_add_right _ _).circular

end Init

/-! ## The result -/

/-- The live blocks: disjoint parts of the buffer, in circular order, the last one at `tail`. -/
structure Laid (rbb : RtRbb) (buf bufSize : Nat) (live : List Nat) : Prop where
  mem : ∀ i < rbb.blkMaxNum, i ∈ live ↔ (rbb.blkSet i).status ≠ .unused
  inside : ∀ i ∈ live, buf ≤ (rbb.blkSet i).buf ∧ 0 < (rbb.blkSet i).size ∧
    (rbb.blkSet i).buf + (rbb.blkSet i).size ≤ buf + bufSize
  disjoint : live.Pairwise fun i j => Arc.Apart (rbb.seg i) (rbb.seg j)
  circular : Arc.Circular buf (buf + bufSize) (live.map rbb.seg)
  tail : (SlistNode.blkList :: live.map SlistNode.blk).getLast? = some rbb.tail

theorem Inv.laid (h : rbb.Inv live free lost) : rbb.Laid rbb.buf rbb.bufSize live where
  mem := fun _ hi => h.mem_live hi
  inside := fun _ hi => h.arc.bounds (List.mem_map_of_mem hi)
  disjoint := List.pairwise_map.1 h.arc.pairwise
  circular := h.arc
  tail := h.tail

/-- Every descriptor is on one of the two lists, once. -/
theorem Inv.perm_iff (h : rbb.Inv live free lost) : (live ++ free).Perm (List.range rbb.blkMaxNum) ↔ lost = [] := by
  have hperm := h.perm
  constructor
  · intro hp
    have hlen := (hp.trans hperm.symm).length_eq
    simp only [List.length_append] at hlen
    exact List.length_eq_zero_iff.1 (by omega)
  · rintro rfl
    rw [List.append_nil] at hperm
    exact hperm

/-- After any calls on a ring block buffer the live blocks are laid out as they should be, and calls return. The
descriptors are on one list each if and only if no allocation found a descriptor but no room. -/
theorem rbb_blocks {buf bufSize k : Nat} {blockSet : Nat → RtRbbBlk} {next : SlistNode → Option SlistNode}
    {ls : List (Call × RtRbb × Ret)} (hr : Runs.Run (Step bits) (rtRbbInit buf bufSize blockSet next k) ls rbb) :
    ∃ live free, rbb.Linked .blkList live ∧ rbb.Linked .freeList free ∧ rbb.Laid buf bufSize live ∧
      (∀ c, rbb.Ok c → rbb.Asserted c → (rbb.call bits c).isSome) ∧
      ((live ++ free).Perm (List.range k) ↔ ∀ x ∈ ls, x.2.1.Fits x.1) := by
  have h0 := inv_init buf bufSize k blockSet next
  have hinv : rbb.geometry = (buf, bufSize, k) ∧ ∃ live free lost, rbb.Inv live free lost ∧
      (lost = [] ↔ ∀ x ∈ ls, x.2.1.Fits x.1) := by
    refine hr.history (I := fun ls rbb => rbb.geometry = (buf, bufSize, k) ∧ ∃ live free lost, rbb.Inv live free lost ∧
      (lost = [] ↔ ∀ x ∈ ls, x.2.1.Fits x.1)) ⟨h0.2, _, _, _, h0.1, by simp⟩ ?_
    rintro ls s ⟨c, s1, r⟩ s' ⟨hg, live, free, lost, h, hlost⟩ ⟨rfl, hok, hcall⟩
    obtain ⟨hg', live', free', lost', h', hlost'⟩ := h.step hok hcall
    refine ⟨hg'.trans hg, live', free', lost', h', ?_⟩
    rw [hlost', hlost]
    simp [or_imp, forall_and]
  obtain ⟨hg, live, free, lost, h, hlost⟩ := hinv
  obtain ⟨hbuf, hsize, hmax⟩ : rbb.buf = buf ∧ rbb.bufSize = bufSize ∧ rbb.blkMaxNum = k := by
    simpa [geometry] using hg
  have hlaid := h.laid
  rw [hbuf, hsize] at hlaid
  refine ⟨live, free, h.live_linked, h.free_linked, hlaid, fun c => h.call_isSome, ?_⟩
  rw [← hlost, ← hmax]
  exact h.perm_iff

theorem step_of_run {c : Call} {r : RtRbb × Ret} (h : rbb.run bits c = some (rbb', r)) : Step bits rbb (c, r) rbb' := by
  unfold run at h
  split_ifs at h with hok
  obtain ⟨x, hx, he⟩ := Option.map_eq_some_iff.1 h
  cases he
  exact ⟨rfl, hok, hx⟩

/-- Two descriptors and eight bytes. -/
def small : RtRbb := rtRbbInit 0 8 (fun _ => ⟨.get, 0, 0⟩) (fun _ => none) 2

def smallLabels (cs : List Call) : List (Call × RtRbb × Ret) := ((Runs.exec (run 32) small cs).map Prod.snd).getD []

def smallAfter (cs : List Call) : RtRbb := ((Runs.exec (run 32) small cs).map Prod.fst).getD small

theorem run_small (cs : List Call) (h : (Runs.exec (run 32) small cs).isSome) :
    Runs.Run (Step 32) small (smallLabels cs) (smallAfter cs) := by
  obtain ⟨⟨s, ls⟩, hx⟩ := Option.isSome_iff_exists.1 h
  unfold smallLabels smallAfter
  rw [hx]
  exact Runs.Run.of_exec (fun s c s' r hr (_ : True) => step_of_run hr) hx fun _ _ => trivial

/-- The second allocation finds no room, and its descriptor is on neither list. -/
theorem alloc_loses_descriptor :
    ∃ ls, Runs.Run (Step 32) small ls (smallAfter [.alloc 8, .alloc 1]) ∧
      ∀ live free, (smallAfter [.alloc 8, .alloc 1]).Linked .blkList live →
        (smallAfter [.alloc 8, .alloc 1]).Linked .freeList free → 0 ∉ live ∧ 0 ∉ free := by
  refine ⟨_, run_small [.alloc 8, .alloc 1] (by decide), fun live free hl hf => ?_⟩
  have h1 : (smallAfter [.alloc 8, .alloc 1]).next .blkList = some (.blk 1) := by decide
  have h2 : (smallAfter [.alloc 8, .alloc 1]).next (.blk 1) = none := by decide
  have h3 : (smallAfter [.alloc 8, .alloc 1]).next .freeList = none := by decide
  have hlive : (smallAfter [.alloc 8, .alloc 1]).Linked .blkList [1] := ⟨rfl, h1, h2⟩
  have hfree : (smallAfter [.alloc 8, .alloc 1]).Linked .freeList [] := ⟨rfl, h3⟩
  rw [hl.eq hlive, hf.eq hfree]
  decide

/-- A block that is allocated, put and got, and the next one that finds no descriptor. -/
theorem rbb_blocks_small :
    ∃ live free, (smallAfter [.alloc 4, .put 1, .get, .alloc 4, .alloc 1]).Linked .blkList live ∧
      (smallAfter [.alloc 4, .put 1, .get, .alloc 4, .alloc 1]).Linked .freeList free ∧
      (smallAfter [.alloc 4, .put 1, .get, .alloc 4, .alloc 1]).Laid 0 8 live := by
  obtain ⟨live, free, hl, hf, hlaid, -⟩ := rbb_blocks (run_small [.alloc 4, .put 1, .get, .alloc 4, .alloc 1] (by decide))
  exact ⟨live, free, hl, hf, hlaid⟩

end RtRbb

end RtThread
