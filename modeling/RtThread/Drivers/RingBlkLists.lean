import RtThread.Drivers.RingBlk
import RtThread.Lib.Arc
import RtThread.Lib.Singly

/-!
# The lists of a ring block buffer

The live blocks are on `blk_list`, with `tail` on the last of them, and the free descriptors on `free_list`; a descriptor
may be on neither. That is kept by every call, with any block sizes; a call other than an allocation moves no block.
-/

namespace RtThread

namespace RtRbb

variable {rbb rbb' : RtRbb} {live free lost as bs : List Nat} {i j : Nat} {st : RbbStatus} {l n p : SlistNode}
  {v : Option SlistNode} {bits : Nat} {ts : List Nat}

/-! ## The lists -/

/-- The descriptors on the list with head `l`, in order. -/
def Linked (rbb : RtRbb) (l : SlistNode) (xs : List Nat) : Prop :=
  Singly.Chain rbb.next (some l) (l :: xs.map SlistNode.blk)

/-- What no call changes. -/
def geometry (rbb : RtRbb) : Nat × Nat × Nat := (rbb.buf, rbb.bufSize, rbb.blkMaxNum)

/-- The buffer of a block. -/
def seg (rbb : RtRbb) (i : Nat) : Arc.Seg := ((rbb.blkSet i).buf, (rbb.blkSet i).size)

@[simp] theorem setNext_next : (rbb.setNext n v).next = Function.update rbb.next n v := rfl

@[simp] theorem setStatus_status_self : ((rbb.setStatus i st).blkSet i).status = st := by
  simp [setStatus, setBlk]

theorem setStatus_status_of_ne (h : j ≠ i) : ((rbb.setStatus i st).blkSet j).status = (rbb.blkSet j).status := by
  simp [setStatus, setBlk, h]

@[simp] theorem setStatus_seg : (rbb.setStatus i st).seg = rbb.seg := by
  funext j
  by_cases h : j = i
  · subst h
    simp [seg, setStatus, setBlk]
  · simp [seg, setStatus, setBlk, h]

theorem setStatus_geometry : (rbb.setStatus i st).geometry = rbb.geometry := rfl

theorem mem_blks : SlistNode.blk i ∈ live.map SlistNode.blk ↔ i ∈ live := by simp

theorem nodup_blks (h : live.Nodup) : (live.map SlistNode.blk).Nodup :=
  h.map fun _ _ e => SlistNode.blk.inj e

/-- The loop stops at the node before `n`. -/
theorem slistBefore_eq {next : SlistNode → Option SlistNode} {ys zs : List SlistNode} {fuel : Nat}
    (hc : Singly.Chain next (some l) (ys ++ p :: n :: zs)) (hnd : (ys ++ p :: n :: zs).Nodup) (hf : ys.length < fuel) :
    slistBefore next n fuel l = some p := by
  induction ys generalizing l fuel with
  | nil =>
    obtain ⟨hl, hn, -⟩ := hc
    cases hl
    cases fuel with
    | zero => cases hf
    | succ fuel =>
      unfold slistBefore
      rw [hn]
      exact if_pos rfl
  | cons y ys ih =>
    obtain ⟨hl, hrest⟩ := hc
    cases hl
    obtain ⟨hy, hnd'⟩ := List.nodup_cons.1 hnd
    cases fuel with
    | zero => cases hf
    | succ fuel =>
      unfold slistBefore
      cases ys with
      | nil =>
        have hp := hrest.1
        have hne : p ≠ n := by
          rintro rfl
          simp at hnd'
        rw [hp]
        dsimp only
        rw [if_neg hne]
        exact ih (hp ▸ hrest) hnd' (Nat.lt_of_succ_lt_succ hf)
      | cons w ws =>
        have hw := hrest.1
        have hne : w ≠ n := by
          rintro rfl
          simp at hnd'
        rw [hw]
        dsimp only
        rw [if_neg hne]
        exact ih (hw ▸ hrest) hnd' (Nat.lt_of_succ_lt_succ hf)

/-- The node before a descriptor of a list. -/
theorem exists_before (l : SlistNode) (as bs : List Nat) (i : Nat) :
    ∃ ys p, l :: (as ++ i :: bs).map SlistNode.blk = ys ++ p :: .blk i :: bs.map SlistNode.blk ∧
      l :: as.map SlistNode.blk = ys ++ [p] ∧ ys.length = as.length := by
  rcases List.eq_nil_or_concat (l :: as.map SlistNode.blk) with h | ⟨ys, p, h⟩
  · cases h
  · rw [List.concat_eq_append] at h
    refine ⟨ys, p, ?_, h, ?_⟩
    · rw [List.map_append, List.map_cons, ← List.cons_append, h, List.append_assoc]
      rfl
    · have hlen := congrArg List.length h
      simpa using hlen.symm

/-- The node before a descriptor of a list is found. -/
theorem Linked.before (h : rbb.Linked l (as ++ i :: bs)) (hl : ∀ j, l ≠ .blk j) (hnd : (as ++ i :: bs).Nodup)
    (hlen : (as ++ i :: bs).length ≤ rbb.blkMaxNum) :
    ∃ p, slistBefore rbb.next (.blk i) rbb.turns l = some p ∧ rbb.next p = some (.blk i) ∧
      (l :: as.map SlistNode.blk).getLast? = some p ∧
      Singly.Chain (Function.update rbb.next p (rbb.next (.blk i))) (some l) (l :: (as ++ bs).map SlistNode.blk) := by
  obtain ⟨ys, p, he, hp, hys⟩ := exists_before l as bs i
  have hnd' : (l :: (as ++ i :: bs).map SlistNode.blk).Nodup := by
    refine List.nodup_cons.2 ⟨?_, nodup_blks hnd⟩
    intro hmem
    obtain ⟨j, -, hj⟩ := List.mem_map.1 hmem
    exact hl j hj.symm
  unfold Linked at h
  rw [he] at h hnd'
  refine ⟨p, slistBefore_eq h hnd' ?_, h.next_eq, ?_, ?_⟩
  · rw [List.length_append, List.length_cons] at hlen
    unfold turns
    omega
  · rw [hp, List.getLast?_append_of_ne_nil _ (List.cons_ne_nil p []), List.getLast?_singleton]
  · have hu := h.unlink hnd'
    rw [List.append_cons, ← hp] at hu
    rw [List.map_append]
    exact hu

theorem Linked.eq (h : rbb.Linked l as) (h' : rbb.Linked l bs) : as = bs :=
  List.map_injective_iff.2 (fun _ _ => SlistNode.blk.inj) (List.cons.inj (Singly.Chain.unique h h')).2

/-- Links of nodes that are not on the list do not count. -/
theorem Linked.setNext (h : rbb.Linked l as) (hn : n ∉ l :: as.map SlistNode.blk) : (rbb.setNext n v).Linked l as :=
  h.update hn v

/-- A descriptor is put at the front of a list. -/
theorem Linked.insert (h : rbb.Linked l as) (hl : ∀ j, l ≠ .blk j) (hi : i ∉ as) :
    (rtSlistInsert rbb l (.blk i)).Linked l (i :: as) := by
  apply Singly.Chain.insert h
  · intro hmem
    obtain ⟨j, -, hj⟩ := List.mem_map.1 hmem
    exact hl j hj.symm
  · rw [List.mem_cons, mem_blks]
    rintro (e | hmem)
    · exact hl i e.symm
    · exact hi hmem

/-! ## Live, free and lost descriptors -/

/-- The lists of live and of free descriptors, and the descriptors that are on neither. -/
structure Books (rbb : RtRbb) (live free lost : List Nat) : Prop where
  live_linked : rbb.Linked .blkList live
  free_linked : rbb.Linked .freeList free
  tail : (SlistNode.blkList :: live.map SlistNode.blk).getLast? = some rbb.tail
  perm : (live ++ (free ++ lost)).Perm (List.range rbb.blkMaxNum)
  used : ∀ i ∈ live, (rbb.blkSet i).status ≠ .unused
  unused : ∀ i ∈ free ++ lost, (rbb.blkSet i).status = .unused

namespace Books

section

variable (h : rbb.Books live free lost)

include h

theorem nodup : (live ++ (free ++ lost)).Nodup := h.perm.nodup_iff.2 List.nodup_range

theorem lt (hi : i ∈ live ++ (free ++ lost)) : i < rbb.blkMaxNum :=
  List.mem_range.1 (h.perm.mem_iff.1 hi)

theorem length_le : live.length ≤ rbb.blkMaxNum ∧ free.length ≤ rbb.blkMaxNum := by
  have hlen := h.perm.length_eq
  rw [List.length_append, List.length_append, List.length_range] at hlen
  omega

/-- The assertions on `status` hold of the live descriptors only. -/
theorem mem_live (hi : i < rbb.blkMaxNum) : i ∈ live ↔ (rbb.blkSet i).status ≠ .unused := by
  constructor
  · exact h.used i
  · intro hne
    have hmem := h.perm.mem_iff.2 (List.mem_range.2 hi)
    rcases List.mem_append.1 hmem with hl | hf
    · exact hl
    · exact absurd (h.unused i hf) hne

/-- A call that changes the status of live blocks only. -/
theorem relabel (hi : i ∈ live) (hst : st ≠ .unused) : (rbb.setStatus i st).Books live free lost := by
  have hout : ∀ j ∈ free ++ lost, j ≠ i := by
    rintro j hj rfl
    exact (List.nodup_append.1 h.nodup).2.2 j hi j hj rfl
  refine ⟨h.live_linked, h.free_linked, h.tail, h.perm, fun j hj => ?_, fun j hj => ?_⟩
  · by_cases e : j = i
    · rw [e, setStatus_status_self]
      exact hst
    · rw [setStatus_status_of_ne e]
      exact h.used j hj
  · rw [setStatus_status_of_ne (hout j hj)]
    exact h.unused j hj

theorem notMem_free (hi : i ∈ live) : i ∉ free := by
  intro hf
  exact (List.nodup_append.1 h.nodup).2.2 i hi i (List.mem_append_left _ hf) rfl

end

/-- `list_remove` takes a block off `blk_list`. -/
theorem listRemove (h : rbb.Books (as ++ i :: bs) free lost) :
    ∃ rbb1, listRemove rbb (.blk i) = some rbb1 ∧ rbb1.Linked .blkList (as ++ bs) ∧ rbb1.Linked .freeList free ∧
      (SlistNode.blkList :: (as ++ bs).map SlistNode.blk).getLast? = some rbb1.tail ∧ rbb1.blkSet = rbb.blkSet ∧
      rbb1.blkMaxNum = rbb.blkMaxNum ∧ rbb1.buf = rbb.buf ∧ rbb1.bufSize = rbb.bufSize := by
  have hnd := (List.nodup_append.1 h.nodup).1
  obtain ⟨p, hbefore, hnext, hlast, hchain⟩ := h.live_linked.before (fun j => by simp) hnd h.length_le.1
  have hi : i ∉ as ++ bs := (List.nodup_cons.1 (List.perm_middle.nodup_iff.1 hnd)).1
  have hp : p ∈ SlistNode.blkList :: as.map SlistNode.blk := List.mem_of_getLast? hlast
  have hpfree : p ∉ SlistNode.freeList :: free.map SlistNode.blk := by
    rcases List.mem_cons.1 hp with rfl | hp
    · simp
    · obtain ⟨j, hj, rfl⟩ := List.mem_map.1 hp
      rw [List.mem_cons, mem_blks, not_or]
      exact ⟨by simp, h.notMem_free (List.mem_append_left _ hj)⟩
  have hifree : SlistNode.blk i ∉ SlistNode.freeList :: free.map SlistNode.blk := by
    rw [List.mem_cons, mem_blks, not_or]
    exact ⟨by simp, h.notMem_free (by simp)⟩
  have hilive : SlistNode.blk i ∉ SlistNode.blkList :: (as ++ bs).map SlistNode.blk := by
    rw [List.mem_cons, mem_blks, not_or]
    exact ⟨by simp, hi⟩
  have hlive : ((rbb.setNext p (rbb.next (.blk i))).setNext (.blk i) none).Linked .blkList (as ++ bs) :=
    hchain.update hilive none
  have hfree : ((rbb.setNext p (rbb.next (.blk i))).setNext (.blk i) none).Linked .freeList free :=
    (h.free_linked.setNext hpfree).setNext hifree
  have hsame : ∃ rbb0, rbb0 = (rbb.setNext p (rbb.next (.blk i))).setNext (.blk i) none ∧ rbb0.tail = rbb.tail ∧
      rbb0.blkSet = rbb.blkSet ∧ rbb0.blkMaxNum = rbb.blkMaxNum ∧ rbb0.buf = rbb.buf ∧ rbb0.bufSize = rbb.bufSize :=
    ⟨_, rfl, rfl, rfl, rfl, rfl, rfl⟩
  obtain ⟨rbb0, hrbb0, htail0, hset, hmax, hbuf, hsize⟩ := hsame
  unfold RtThread.listRemove
  rw [hbefore]
  dsimp only
  rw [hnext]
  dsimp only
  rw [← hrbb0] at hlive hfree ⊢
  refine ⟨_, rfl, ?_⟩
  have htail := h.tail
  cases bs with
  | nil =>
    have he : rbb0.tail = .blk i := by
      rw [List.map_append, List.map_cons, List.map_nil, ← List.cons_append, List.getLast?_concat] at htail
      exact htail0.trans (Option.some.inj htail).symm
    rw [if_pos he]
    rw [List.append_nil] at hlive ⊢
    exact ⟨hlive, hfree, hlast, hset, hmax, hbuf, hsize⟩
  | cons b bs =>
    have hkeep : ∀ cs : List Nat, (SlistNode.blkList :: (cs ++ b :: bs).map SlistNode.blk).getLast? =
        ((b :: bs).map SlistNode.blk).getLast? := by
      intro cs
      rw [List.map_append, ← List.cons_append, List.getLast?_append_of_ne_nil _ (by simp)]
    have hsplit : as ++ i :: b :: bs = (as ++ [i]) ++ b :: bs := by simp
    rw [hsplit, hkeep, ← htail0] at htail
    have hne : rbb0.tail ≠ .blk i := by
      intro e
      rw [e] at htail
      have hmem := List.mem_of_getLast? htail
      rw [mem_blks] at hmem
      exact hi (List.mem_append_right _ hmem)
    rw [if_neg hne]
    refine ⟨hlive, hfree, ?_, hset, hmax, hbuf, hsize⟩
    rw [hkeep]
    exact htail

/-- A live block is freed. -/
theorem free_blk (h : rbb.Books (as ++ i :: bs) free lost) :
    ∃ rbb', rtRbbBlkFree rbb i = some rbb' ∧ rbb'.Books (as ++ bs) (i :: free) lost ∧ rbb'.geometry = rbb.geometry ∧
      rbb'.seg = rbb.seg := by
  have hi : i ∈ as ++ i :: bs := by simp
  have hperm : (as ++ i :: bs).Perm (i :: (as ++ bs)) := List.perm_middle
  have hnd := (List.nodup_append.1 h.nodup).1
  have hout : i ∉ as ++ bs := (List.nodup_cons.1 (hperm.nodup_iff.1 hnd)).1
  obtain ⟨rbb1, hr, hlive, hfree, htail, hset, hmax, hbuf, hsize⟩ := h.listRemove
  unfold rtRbbBlkFree
  rw [if_pos (h.used i hi), hr]
  refine ⟨_, rfl, ?_, ?_, ?_⟩
  rotate_left
  · change (rbb1.buf, rbb1.bufSize, rbb1.blkMaxNum) = _
    rw [hbuf, hsize, hmax]
    rfl
  · change (rbb1.setStatus i .unused).seg = _
    rw [setStatus_seg]
    unfold seg
    rw [hset]
  have hstatus : ∀ j, ((rbb1.setStatus i .unused).blkSet j).status =
      if j = i then .unused else (rbb.blkSet j).status := by
    intro j
    split_ifs with e
    · rw [e, setStatus_status_self]
    · rw [setStatus_status_of_ne e, hset]
  constructor
  · apply Singly.Chain.update
    · apply Singly.Chain.update hlive
      rw [List.mem_cons, mem_blks, not_or]
      exact ⟨by simp, hout⟩
    · simp
  · exact Linked.insert hfree (fun j => by simp) (h.notMem_free hi)
  · exact htail
  · change (as ++ bs ++ (i :: free ++ lost)).Perm (List.range rbb1.blkMaxNum)
    rw [hmax]
    exact List.perm_middle.trans ((hperm.symm.append_right (free ++ lost)).trans h.perm)
  · intro j hj
    change ((rbb1.setStatus i .unused).blkSet j).status ≠ _
    have hne : j ≠ i := by rintro rfl; exact hout hj
    rw [hstatus, if_neg hne]
    exact h.used j (hperm.mem_iff.2 (List.mem_cons_of_mem _ hj))
  · intro j hj
    change ((rbb1.setStatus i .unused).blkSet j).status = _
    rw [hstatus]
    split_ifs with e
    · rfl
    · apply h.unused
      rcases List.mem_cons.1 hj with rfl | hj
      · exact absurd rfl e
      · exact hj

/-- The first free descriptor is taken off its list. -/
theorem findEmpty (h : rbb.Books live (i :: free) lost) :
    ∃ rbb1, findEmptyBlkInSet rbb = some (some i, rbb1) ∧ rbb1.Books live free (i :: lost) ∧
      rbb1.blkMaxNum = rbb.blkMaxNum ∧ rbb1.buf = rbb.buf ∧ rbb1.bufSize = rbb.bufSize ∧
      rbb1.next .blkList = rbb.next .blkList ∧ rbb1.tail = rbb.tail ∧ rbb1.blkSet = rbb.blkSet := by
  have hnd := (List.nodup_append.1 (List.nodup_append.1 h.nodup).2.1).1
  have hfirst : rbb.next .freeList = some (.blk i) := h.free_linked.2.1
  obtain ⟨p, hbefore, hnext, hlast, hchain⟩ :=
    Linked.before (show rbb.Linked .freeList ([] ++ i :: free) from h.free_linked) (fun j => by simp) hnd h.length_le.2
  obtain rfl : SlistNode.freeList = p := by simpa using hlast
  have hremove : rtSlistRemove rbb .freeList (.blk i) = some (rbb.setNext .freeList (rbb.next (.blk i))) := by
    unfold rtSlistRemove slistUnlink
    rw [hbefore, Option.map_some, hnext]
  have hunused : (rbb.blkSet i).status = .unused := h.unused i (by simp)
  refine ⟨rbb.setNext .freeList (rbb.next (.blk i)), ?_, ?_, rfl, rfl, rfl, by simp, rfl, rfl⟩
  · unfold findEmptyBlkInSet rtSlistFirst
    rw [hfirst]
    unfold rtSlistEntry
    dsimp only
    rw [hremove]
    exact if_pos hunused
  · refine ⟨h.live_linked.setNext (by simp), hchain, h.tail, ?_, h.used, ?_⟩
    · exact (List.perm_middle.append_left live).trans h.perm
    · intro j hj
      apply h.unused
      exact List.perm_middle.mem_iff.1 hj

/-- A descriptor that was taken is appended to the live ones. -/
theorem place (h : rbb.Books live free (i :: lost)) (buf size : Nat) :
    (rbbPlace rbb i buf size).Books (live ++ [i]) free lost ∧
      (live ++ [i]).map (rbbPlace rbb i buf size).seg = live.map rbb.seg ++ [(buf, size)] := by
  have hperm : (live ++ (free ++ i :: lost)).Perm (i :: (live ++ (free ++ lost))) :=
    (List.perm_middle.append_left live).trans List.perm_middle
  have hout : i ∉ live ++ (free ++ lost) := (List.nodup_cons.1 (hperm.nodup_iff.1 h.nodup)).1
  rw [List.mem_append, List.mem_append, not_or, not_or] at hout
  obtain ⟨hlive, hfree, hlost⟩ := hout
  have hmem : rbb.tail ∈ SlistNode.blkList :: live.map SlistNode.blk := List.mem_of_getLast? h.tail
  have hilive : SlistNode.blk i ∉ SlistNode.blkList :: live.map SlistNode.blk := by
    rw [List.mem_cons, mem_blks, not_or]
    exact ⟨by simp, hlive⟩
  have hifree : SlistNode.blk i ∉ SlistNode.freeList :: free.map SlistNode.blk := by
    rw [List.mem_cons, mem_blks, not_or]
    exact ⟨by simp, hfree⟩
  have htfree : rbb.tail ∉ SlistNode.freeList :: free.map SlistNode.blk := by
    rcases List.mem_cons.1 hmem with e | hmem
    · rw [e]
      simp
    · obtain ⟨j, hj, e⟩ := List.mem_map.1 hmem
      rw [← e, List.mem_cons, mem_blks, not_or]
      exact ⟨by simp, h.notMem_free hj⟩
  have hne : rbb.tail ≠ .blk i := by
    intro e
    rw [e] at hmem
    exact hilive hmem
  have hset : ∀ j, (rbbPlace rbb i buf size).blkSet j =
      if j = i then { status := .inited, size := size, buf := buf } else rbb.blkSet j := by
    intro j
    exact Function.update_apply _ _ _ _
  have hold : ∀ j, j ≠ i → (rbbPlace rbb i buf size).blkSet j = rbb.blkSet j := fun j hj => (hset j).trans (if_neg hj)
  refine ⟨?_, ?_⟩
  · constructor
    · change Singly.Chain (Function.update (Function.update rbb.next rbb.tail (some (.blk i))) (.blk i) none)
        (some .blkList) (.blkList :: (live ++ [i]).map SlistNode.blk)
      rw [Function.update_comm hne, List.map_append, ← List.cons_append]
      apply Singly.Chain.snoc (h.live_linked.update hilive none)
      · refine List.nodup_cons.2 ⟨by simp, nodup_blks (List.nodup_append.1 h.nodup).1⟩
      · exact h.tail
      · exact hilive
      · exact Function.update_self _ _ _
    · exact (h.free_linked.setNext htfree).setNext hifree
    · rw [List.map_append, ← List.cons_append]
      exact List.getLast?_concat
    · rw [List.append_assoc]
      exact (List.perm_middle.trans hperm.symm).trans h.perm
    · intro j hj
      by_cases e : j = i
      · rw [hset, if_pos e]
        simp
      · rw [hold j e]
        apply h.used
        simpa [e] using hj
    · intro j hj
      have e : j ≠ i := by
        rintro rfl
        exact (List.mem_append.1 hj).elim hfree hlost
      rw [hold j e]
      apply h.unused
      exact List.perm_middle.mem_iff.2 (List.mem_cons_of_mem _ hj)
  · have hmap : live.map (rbbPlace rbb i buf size).seg = live.map rbb.seg := by
      apply List.map_congr_left
      intro j hj
      have e : j ≠ i := by
        rintro rfl
        exact hlive hj
      unfold seg
      rw [hold j e]
    have hlast : (rbbPlace rbb i buf size).seg i = (buf, size) := by
      unfold seg
      rw [hset, if_pos rfl]
    rw [List.map_append, hmap, List.map_singleton, hlast]

theorem head_live (h : rbb.Books (i :: live) free lost) : rbb.next .blkList = some (.blk i) := h.live_linked.2.1

theorem tail_live (h : rbb.Books (live ++ [i]) free lost) : rbb.tail = .blk i := by
  have ht := h.tail
  rw [List.map_append, List.map_singleton, ← List.cons_append, List.getLast?_concat] at ht
  exact (Option.some.inj ht).symm

end Books

/-! ## The place of a new block -/

/-- Where a block of `n` bytes goes in `[lo, hi)`, by the first and the last of the segments there. -/
def placeFor (bits lo hi n : Nat) (xs : List Arc.Seg) : Option Nat :=
  match xs.head?, xs.getLast? with
  | some x, some y =>
    if x.1 ≤ y.1 then
      if ptrDiff bits hi (y.1 + y.2) ≥ n then some (y.1 + y.2)
      else if ptrDiff bits x.1 lo ≥ n then some lo
      else none
    else if ptrDiff bits x.1 (y.1 + y.2) ≥ n then some (y.1 + y.2)
    else none
  | _, _ => some lo

theorem Books.newBuf_eq (h : rbb.Books live free lost) (n : Nat) :
    rbbNewBuf bits rbb n = placeFor bits rbb.buf (rbb.buf + rbb.bufSize) n (live.map rbb.seg) := by
  rcases List.eq_nil_or_concat live with rfl | ⟨ys, y, hy⟩
  · have hnone : rbb.next .blkList = none := h.live_linked.2
    unfold rbbNewBuf rtSlistFirst
    rw [hnone]
    rfl
  · rw [List.concat_eq_append] at hy
    have htail : rbb.tail = .blk y := (hy ▸ h).tail_live
    have hlast : (live.map rbb.seg).getLast? = some (rbb.seg y) := by
      rw [hy, List.map_append, List.map_singleton, List.getLast?_concat]
    cases live with
    | nil => simp at hy
    | cons x xs =>
      have hhead : rbb.next .blkList = some (.blk x) := h.head_live
      unfold rbbNewBuf rtSlistFirst placeFor
      rw [hhead, htail, hlast]
      rfl

theorem ptrDiff_of_le {a b : Nat} (h : b ≤ a) : ptrDiff bits a b = a - b := if_pos h

/-! ## A queue of blocks -/

/-- The blocks before the first of a queue. -/
def skips (rbb : RtRbb) (i : Nat) : Bool := decide ((rbb.blkSet i).status ≠ .put)

/-- The blocks of `xs` that are taken after the block `last`, with `total` bytes before. -/
def takeRun (bits len : Nat) (rbb : RtRbb) : Nat → Nat → List Nat → List Nat
  | _, _, [] => []
  | last, total, x :: xs =>
    if (rbb.blkSet x).status ≠ .put ∨ (rbb.blkSet last).buf > (rbb.blkSet x).buf ∨
        (total + (rbb.blkSet x).size) % 2 ^ bits > len then []
    else x :: takeRun bits len rbb x ((total + (rbb.blkSet x).size) % 2 ^ bits) xs

/-- The sizes of blocks, added to `total`. -/
def sizeSum (bits : Nat) (rbb : RtRbb) (total : Nat) (ts : List Nat) : Nat :=
  ts.foldl (fun n i => (n + (rbb.blkSet i).size) % 2 ^ bits) total

def markGet (rbb : RtRbb) (ts : List Nat) : RtRbb := ts.foldl (fun s i => s.setStatus i .get) rbb

section Queue

variable {len fuel total last : Nat} {node : Option SlistNode} {queue : RtRbbBlkQueue} {xs ts : List Nat}

theorem takeRun_initial (bits len : Nat) (rbb : RtRbb) (last total : Nat) (xs : List Nat) :
    rbb.takeRun bits len last total xs <+: xs := by
  induction xs generalizing last total with
  | nil => exact List.prefix_rfl
  | cons x xs ih =>
    unfold takeRun
    split_ifs with hstop
    · exact List.nil_prefix
    · exact (List.prefix_cons_inj x).2 (ih ..)

/-- Marking a block that is not looked at. -/
theorem takeRun_setStatus (hx : i ∉ xs) :
    (rbb.setStatus i st).takeRun bits len last total xs = rbb.takeRun bits len last total xs := by
  have hbuf : ∀ j, ((rbb.setStatus i st).blkSet j).buf = (rbb.blkSet j).buf := fun j =>
    congrArg (fun f => (f j).1) (setStatus_seg : (rbb.setStatus i st).seg = rbb.seg)
  have hsize : ∀ j, ((rbb.setStatus i st).blkSet j).size = (rbb.blkSet j).size := fun j =>
    congrArg (fun f => (f j).2) (setStatus_seg : (rbb.setStatus i st).seg = rbb.seg)
  induction xs generalizing last total with
  | nil => rfl
  | cons x xs ih =>
    rw [List.mem_cons, not_or] at hx
    unfold takeRun
    rw [hbuf, hbuf, hsize, setStatus_status_of_ne (fun e => hx.1 e.symm), ih hx.2]

theorem sizeSum_setStatus : (rbb.setStatus i st).sizeSum bits total ts = rbb.sizeSum bits total ts := by
  have hsize : ∀ j, ((rbb.setStatus i st).blkSet j).size = (rbb.blkSet j).size := fun j =>
    congrArg (fun f => (f j).2) (setStatus_seg : (rbb.setStatus i st).seg = rbb.seg)
  unfold sizeSum
  simp only [hsize]

/-- The loop after the first block of the queue. -/
theorem queueGetLoop_some (hc : Singly.Chain rbb.next node (xs.map SlistNode.blk)) (hnd : xs.Nodup)
    (hf : xs.length ≤ fuel) :
    rbbQueueGetLoop bits len fuel rbb node (some last) total queue =
      some (rbb.sizeSum bits total (rbb.takeRun bits len last total xs),
        { queue with blkNum := queue.blkNum + (rbb.takeRun bits len last total xs).length },
        rbb.markGet (rbb.takeRun bits len last total xs),
        decide ((rbb.takeRun bits len last total xs).length = xs.length)) := by
  induction xs generalizing rbb fuel node last total queue with
  | nil =>
    obtain rfl : node = none := hc
    unfold rbbQueueGetLoop
    rfl
  | cons x xs ih =>
    obtain ⟨rfl, hrest⟩ := hc
    obtain ⟨hx, hnd'⟩ := List.nodup_cons.1 hnd
    cases fuel with
    | zero => cases hf
    | succ fuel =>
      unfold rbbQueueGetLoop rtSlistEntry takeRun
      dsimp only
      split_ifs with hstop
      · simp [sizeSum, markGet]
      · refine Eq.trans (ih ?_ hnd' (Nat.le_of_succ_le_succ hf)) ?_
        · exact hrest
        rw [takeRun_setStatus hx, sizeSum_setStatus]
        simp [sizeSum, markGet, Nat.add_assoc, Nat.add_comm 1]

/-- The loop up to the first block that was put. -/
theorem queueGetLoop_none (hc : Singly.Chain rbb.next node (xs.map SlistNode.blk)) (hnd : xs.Nodup)
    (hf : xs.length ≤ fuel) :
    rbbQueueGetLoop bits len fuel rbb node none 0 queue = some (match xs.dropWhile rbb.skips with
      | [] => (0, queue, rbb, true)
      | b :: ys =>
        let ts := rbb.takeRun bits len b (rbb.sizeSum bits 0 [b]) ys
        (rbb.sizeSum bits 0 (b :: ts), ⟨some b, ts.length + 1⟩, rbb.markGet (b :: ts), decide (ts.length = ys.length))) := by
  induction xs generalizing fuel node with
  | nil =>
    obtain rfl : node = none := hc
    unfold rbbQueueGetLoop
    rfl
  | cons x xs ih =>
    obtain ⟨rfl, hrest⟩ := hc
    obtain ⟨hx, hnd'⟩ := List.nodup_cons.1 hnd
    cases fuel with
    | zero => cases hf
    | succ fuel =>
      unfold rbbQueueGetLoop rtSlistEntry
      dsimp only
      by_cases hput : (rbb.blkSet x).status = .put
      · have hskip : ¬rbb.skips x = true := by simp [skips, hput]
        rw [if_pos hput, List.dropWhile_cons_of_neg hskip]
        refine Eq.trans (queueGetLoop_some ?_ hnd' (Nat.le_of_succ_le_succ hf)) ?_
        · exact hrest
        rw [takeRun_setStatus hx, sizeSum_setStatus]
        dsimp only
        rw [Nat.add_comm 1]
        rfl
      · have hskip : rbb.skips x = true := by simp [skips, hput]
        rw [if_neg hput, List.dropWhile_cons_of_pos hskip]
        exact ih hrest hnd' (Nat.le_of_succ_le_succ hf)

end Queue

/-! ## The calls -/

/-- After a call that is not an allocation: blocks may have been freed, and none is moved. -/
def Keeps (rbb : RtRbb) (live lost : List Nat) (rbb' : RtRbb) : Prop :=
  rbb'.geometry = rbb.geometry ∧ rbb'.seg = rbb.seg ∧ ∃ live' free', rbb'.Books live' free' lost ∧ live'.Sublist live

namespace Books

theorem keeps (h : rbb'.Books live free lost) (hg : rbb'.geometry = rbb.geometry) (hs : rbb'.seg = rbb.seg) :
    rbb.Keeps live lost rbb' :=
  ⟨hg, hs, live, free, h, List.Sublist.refl live⟩

/-- No free descriptor: the allocation fails, and changes nothing. -/
theorem alloc_nil {blkSize : Nat} (h : rbb.Books live [] lost) (hlt : blkSize < 2 ^ 24) :
    rtRbbBlkAlloc bits rbb blkSize = some (none, rbb) := by
  have hnone : rbb.next .freeList = none := h.free_linked.2
  unfold rtRbbBlkAlloc findEmptyBlkInSet rtSlistFirst
  rw [if_pos hlt, hnone]

/-- A free descriptor is taken, before it is known whether there is space. -/
theorem alloc_cons {blkSize : Nat} (bits : Nat) (h : rbb.Books live (i :: free) lost) (hlt : blkSize < 2 ^ 24) :
    ∃ rbb1, rbb1.Books live free (i :: lost) ∧ rbb1.geometry = rbb.geometry ∧ rbb1.seg = rbb.seg ∧
      rtRbbBlkAlloc bits rbb blkSize = some (match rbbNewBuf bits rbb blkSize with
        | some buf => (some i, rbbPlace rbb1 i buf blkSize)
        | none => (none, rbb1)) := by
  obtain ⟨rbb1, hfind, h1, hmax, hbuf, hsz, hnext, htail, hset⟩ := h.findEmpty
  have hnew : rbbNewBuf bits rbb1 blkSize = rbbNewBuf bits rbb blkSize := by
    unfold rbbNewBuf rtSlistFirst
    rw [hbuf, hsz, hnext, htail, hset]
  refine ⟨rbb1, h1, ?_, ?_, ?_⟩
  · unfold geometry
    rw [hmax, hbuf, hsz]
  · unfold seg
    rw [hset]
  · unfold rtRbbBlkAlloc
    rw [if_pos hlt, hfind]
    dsimp only
    rw [hnew]
    cases rbbNewBuf bits rbb blkSize <;> rfl

theorem put (h : rbb.Books live free lost) (hi : i < rbb.blkMaxNum) (hs : (rbb.blkSet i).status = .inited) :
    ∃ rbb', rtRbbBlkPut rbb i = some rbb' ∧ rbb.Keeps live lost rbb' := by
  have hlive : i ∈ live := by
    rw [h.mem_live hi, hs]
    simp
  have h1 : (rbb.setStatus i .put).Books live free lost := h.relabel hlive (by simp)
  exact ⟨_, if_pos hs, h1.keeps setStatus_geometry setStatus_seg⟩

theorem getLoop {fuel : Nat} {node : Option SlistNode} {xs : List Nat} (h : rbb.Books live free lost)
    (hc : Singly.Chain rbb.next node (xs.map SlistNode.blk)) (hxs : ∀ i ∈ xs, i ∈ live) (hf : xs.length ≤ fuel) :
    ∃ i rbb', rbbGetLoop rbb fuel node = some (i, rbb') ∧ rbb.Keeps live lost rbb' := by
  induction xs generalizing fuel node with
  | nil =>
    obtain rfl : node = none := hc
    unfold rbbGetLoop
    exact ⟨_, _, rfl, h.keeps rfl rfl⟩
  | cons x xs ih =>
    obtain ⟨rfl, hrest⟩ := hc
    cases fuel with
    | zero => cases hf
    | succ fuel =>
      unfold rbbGetLoop rtSlistEntry
      dsimp only
      split_ifs with hput
      · have h1 : (rbb.setStatus x .get).Books live free lost := h.relabel (hxs x (by simp)) (by simp)
        exact ⟨_, _, rfl, h1.keeps setStatus_geometry setStatus_seg⟩
      · exact ih hrest (fun i hi => hxs i (by simp [hi])) (Nat.le_of_succ_le_succ hf)

theorem get (h : rbb.Books live free lost) :
    ∃ i rbb', rtRbbBlkGet rbb = some (i, rbb') ∧ rbb.Keeps live lost rbb' := by
  unfold rtRbbBlkGet
  split_ifs with hempty
  · exact ⟨_, _, rfl, h.keeps rfl rfl⟩
  · apply h.getLoop h.live_linked.2 (fun _ hi => hi)
    have hle := h.length_le.1
    unfold turns
    omega

theorem free_step (h : rbb.Books live free lost) (hi : i < rbb.blkMaxNum) (hs : (rbb.blkSet i).status ≠ .unused) :
    ∃ rbb', rtRbbBlkFree rbb i = some rbb' ∧ rbb.Keeps live lost rbb' := by
  obtain ⟨as, bs, rfl⟩ := List.append_of_mem ((h.mem_live hi).2 hs)
  obtain ⟨rbb', hr, h1, hg, hs⟩ := h.free_blk
  exact ⟨rbb', hr, hg, hs, _, _, h1, (List.sublist_cons_self i bs).append_left as⟩

/-- The blocks of a queue are marked. -/
theorem markGet (h : rbb.Books live free lost) (hts : ∀ i ∈ ts, i ∈ live) :
    (rbb.markGet ts).Books live free lost ∧ (rbb.markGet ts).geometry = rbb.geometry ∧ (rbb.markGet ts).seg = rbb.seg := by
  induction ts generalizing rbb with
  | nil => exact ⟨h, rfl, rfl⟩
  | cons i ts ih =>
    have h1 : (rbb.setStatus i .get).Books live free lost := h.relabel (hts i (by simp)) (by simp)
    obtain ⟨h2, hg, hs⟩ := ih h1 (fun j hj => hts j (by simp [hj]))
    exact ⟨h2, hg, hs.trans setStatus_seg⟩

/-- What `rt_rbb_blk_queue_get` does. -/
theorem queueGet_eq (len : Nat) (queue : RtRbbBlkQueue) (h : rbb.Books live free lost) :
    rtRbbBlkQueueGet bits rbb len queue = some (match live.dropWhile rbb.skips with
      | [] => (0, queue, rbb, decide (live ≠ []))
      | b :: xs =>
        let ts := rbb.takeRun bits len b (rbb.sizeSum bits 0 [b]) xs
        (rbb.sizeSum bits 0 (b :: ts), ⟨some b, ts.length + 1⟩, rbb.markGet (b :: ts), decide (ts.length = xs.length))) := by
  unfold rtRbbBlkQueueGet rtSlistIsempty
  cases live with
  | nil =>
    have hnone : rbb.next .blkList = none := h.live_linked.2
    rw [hnone]
    rfl
  | cons x xs =>
    have hnd := (List.nodup_append.1 h.nodup).1
    have hx : rbb.next .blkList = some (.blk x) := h.head_live
    have hf : (x :: xs).length ≤ rbb.turns := h.length_le.1.trans (Nat.le_succ _)
    rw [if_neg (by simp [hx])]
    have hloop : rbbQueueGetLoop bits len rbb.turns rbb (rbb.next .blkList) none 0 queue = _ :=
      queueGetLoop_none h.live_linked.2 hnd hf
    unfold rtSlistFirst
    rw [hloop]
    cases (x :: xs).dropWhile rbb.skips with
    | nil => rfl
    | cons b ys => rfl

theorem queueGet (bits len : Nat) (queue : RtRbbBlkQueue) (h : rbb.Books live free lost) :
    ∃ (r : Nat × RtRbbBlkQueue) (rbb' : RtRbb) (past : Bool),
      rtRbbBlkQueueGet bits rbb len queue = some (r.1, r.2, rbb', past) ∧ rbb.Keeps live lost rbb' := by
  rw [h.queueGet_eq]
  cases hd : live.dropWhile rbb.skips with
  | nil => exact ⟨(_, _), _, _, rfl, h.keeps rfl rfl⟩
  | cons b xs =>
    have hsub : (b :: xs).Sublist live := hd ▸ List.dropWhile_sublist rbb.skips
    have hmem : ∀ i ∈ b :: rbb.takeRun bits len b (rbb.sizeSum bits 0 [b]) xs, i ∈ live := by
      intro i hi
      exact hsub.subset (((takeRun_initial ..).sublist.cons_cons b).subset hi)
    obtain ⟨h1, hg, hs⟩ := h.markGet hmem
    exact ⟨(_, _), _, _, rfl, h1.keeps hg hs⟩

/-- A queue of live blocks is freed: the blocks `as` that follow one another on the list. -/
theorem queueFreeLoop {us vs : List Nat} (h : rbb.Books (us ++ (as ++ vs)) free lost) :
    ∃ rbb' free', rbbQueueFreeLoop as.length rbb (as ++ vs).head? = some rbb' ∧ rbb'.Books (us ++ vs) free' lost ∧
      rbb'.geometry = rbb.geometry ∧ rbb'.seg = rbb.seg := by
  induction as generalizing rbb free with
  | nil =>
    exact ⟨rbb, free, rfl, h, rfl, rfl⟩
  | cons i as ih =>
    have hnext : (rbb.next (.blk i)).bind rtSlistEntry = (as ++ vs).head? := by
      have hc := h.live_linked
      unfold Linked at hc
      rw [List.cons_append, List.map_append, List.map_cons, ← List.cons_append] at hc
      rw [hc.next_eq]
      cases as ++ vs <;> rfl
    obtain ⟨rbb1, hr, h1, hg, hs⟩ := h.free_blk
    obtain ⟨rbb', free', hr', h', hg', hs'⟩ := ih h1
    refine ⟨rbb', free', ?_, h', hg'.trans hg, hs'.trans hs⟩
    rw [List.length_cons, List.cons_append, List.head?_cons, rbbQueueFreeLoop, hr, hnext]
    exact hr'

/-- Any queue whose blocks pass the assertions as they are freed. -/
theorem queueFree_steps {k : Nat} {b : Option Nat} (h : rbb.Books live free lost) (hb : ∀ i, b = some i → i < rbb.blkMaxNum)
    (hr : rbbQueueFreeLoop k rbb b = some rbb') :
    rbb.Keeps live lost rbb' := by
  induction k generalizing rbb b live free with
  | zero =>
    cases hr
    exact h.keeps rfl rfl
  | succ k ih =>
    cases b with
    | none => cases hr
    | some i =>
      unfold rbbQueueFreeLoop at hr
      by_cases hs : (rbb.blkSet i).status = .unused
      · unfold rtRbbBlkFree at hr
        rw [if_neg (by simpa using hs)] at hr
        cases hr
      · obtain ⟨as, bs, rfl⟩ := List.append_of_mem ((h.mem_live (hb i rfl)).2 hs)
        obtain ⟨rbb1, hfree, h1, hg, hseg⟩ := h.free_blk
        rw [hfree] at hr
        have hmax : rbb1.blkMaxNum = rbb.blkMaxNum := congrArg (fun g => g.2.2) hg
        have hnext : ∀ j, (rbb.next (.blk i)).bind rtSlistEntry = some j → j < rbb1.blkMaxNum := by
          intro j hj
          have hc := h.live_linked
          unfold Linked at hc
          rw [List.map_append, List.map_cons, ← List.cons_append] at hc
          rw [hc.next_eq] at hj
          rw [hmax]
          cases bs with
          | nil => cases hj
          | cons c cs =>
            cases hj
            exact h.lt (by simp)
        obtain ⟨hg', hseg', live', free', h', hsub⟩ := ih h1 hnext hr
        exact ⟨hg'.trans hg, hseg'.trans hseg, live', free', h',
          hsub.trans ((List.sublist_cons_self i bs).append_left as)⟩

end Books

/-- The descriptors among the arguments are ones of `blk_set`. -/
def InRange (rbb : RtRbb) : Call → Prop
  | .put i => i < rbb.blkMaxNum
  | .free i => i < rbb.blkMaxNum
  | .queueFree queue => ∀ i ∈ queue.blocks, i < rbb.blkMaxNum
  | _ => True

/-- An allocation that returns got a size below the limit it asserts. -/
theorem lt_of_alloc {blkSize : Nat} {x : Option Nat × RtRbb} (hx : rtRbbBlkAlloc bits rbb blkSize = some x) :
    blkSize < 2 ^ 24 := by
  by_contra hge
  unfold rtRbbBlkAlloc at hx
  rw [if_neg hge] at hx
  cases hx

namespace Books

/-- A call other than an allocation. -/
theorem keeps_of_call (h : rbb.Books live free lost) {c : Call} {r : Ret} (hne : ∀ n, c ≠ .alloc n) (hok : rbb.InRange c)
    (hr : rbb.call bits c = some (r, rbb')) : rbb.Keeps live lost rbb' := by
  cases c with
  | alloc blkSize => exact absurd rfl (hne blkSize)
  | put i =>
    obtain ⟨x, hx, he⟩ := Option.map_eq_some_iff.1 hr
    cases he
    have hi : (rbb.blkSet i).status = .inited := by
      by_contra hne
      unfold rtRbbBlkPut at hx
      rw [if_neg hne] at hx
      cases hx
    obtain ⟨rbb1, h1, hs⟩ := h.put hok hi
    rw [Option.some.inj (hx.symm.trans h1)]
    exact hs
  | get =>
    obtain ⟨x, hx, he⟩ := Option.map_eq_some_iff.1 hr
    cases he
    obtain ⟨i, rbb1, h1, hs⟩ := h.get
    rw [Option.some.inj (hx.symm.trans h1)]
    exact hs
  | free i =>
    obtain ⟨x, hx, he⟩ := Option.map_eq_some_iff.1 hr
    cases he
    have hi : (rbb.blkSet i).status ≠ .unused := by
      intro hu
      unfold rtRbbBlkFree at hx
      rw [if_neg (by simpa using hu)] at hx
      cases hx
    obtain ⟨rbb1, h1, hs⟩ := h.free_step hok hi
    rw [Option.some.inj (hx.symm.trans h1)]
    exact hs
  | queueGet len queue =>
    obtain ⟨x, hx, he⟩ := Option.map_eq_some_iff.1 hr
    cases he
    obtain ⟨y, rbb1, past, h1, hs⟩ := h.queueGet bits len queue
    rw [Option.some.inj (hx.symm.trans h1)]
    exact hs
  | queueFree queue =>
    obtain ⟨x, hx, he⟩ := Option.map_eq_some_iff.1 hr
    cases he
    exact h.queueFree_steps hok hx

end Books

end RtRbb

end RtThread
