import RtThread.Mem.MemheapOrder

/-!
# Best-fit mode of a memheap

With `RT_MEMHEAP_BEST_MODE` the search for a block takes the first one that is large enough, which is a smallest one as
long as the free list is sorted by size. In a run the list stays sorted exactly as long as no turn puts or enlarges a
block on it in front of a smaller one (`best_sorted_iff`). The lock of the heap is not held over a whole
`rt_memheap_realloc` that moves a block: it is a turn that allocates the new block, and later one that copies and frees.
-/

namespace RtThread

open Tiles Sorting

/-! ## Runs -/

/-- The block that a call is given. -/
def MemheapCall.ptr : MemheapCall → Option Nat
  | .alloc _ => none
  | .realloc ptr _ => ptr
  | .free ptr => ptr
  | .store ptr _ _ => some ptr

/-- A heap, with the reallocations that have got a new block and have not freed the old one: the old blocks and the new
ones. -/
structure MemheapTurns where
  sys : MemheapSys
  moving : List (Nat × Nat)

/-- What a thread does with the lock of the heap: a call, or the allocation of a new block for a reallocated one, or the
copy to the new block, with `rt_memheap_free` of the old one. -/
inductive MemheapTurn
  | call (call : MemheapCall)
  | moveAlloc (ptr newsize : Nat)
  | moveFree (ptr newPtr : Nat)
  deriving DecidableEq

namespace MemheapTurns

open Memheap MemheapSys

variable (c : MemheapConfig)

/-- A block that a reallocation is moving. -/
def Moving (s : MemheapTurns) (ptr : Nat) : Prop := ∃ q ∈ s.moving, ptr = q.1 ∨ ptr = q.2

instance (s : MemheapTurns) (ptr : Nat) : Decidable (s.Moving ptr) := inferInstanceAs (Decidable (∃ q ∈ s.moving, _))

/-- The call is a reallocation that moves its block, which is more than one turn. -/
def Parted (s : MemheapTurns) : MemheapCall → Prop
  | .realloc (some ptr) newsize => Moves c s.sys.heap ptr newsize
  | _ => False

instance (s : MemheapTurns) (call : MemheapCall) : Decidable (s.Parted c call) :=
  match call with
  | .realloc (some _) _ => inferInstanceAs (Decidable (_ ∧ _ ∧ _))
  | .realloc none _ | .alloc _ | .free _ | .store _ _ _ => inferInstanceAs (Decidable False)

/-- A turn of a thread. -/
def turn (s : MemheapTurns) : MemheapTurn → Option (MemheapTurns × Option Nat)
  | .call call =>
    if (∀ p ∈ call.ptr, ¬s.Moving p) ∧ ¬s.Parted c call then
      (step c s.sys call).map fun r => ({ s with sys := r.1 }, r.2)
    else none
  | .moveAlloc ptr newsize =>
    if ptr ∈ s.sys.live ∧ ¬s.Moving ptr ∧ newsize ≠ 0 ∧ newsize < 2 ^ c.bits ∧
        s.sys.heap.memitemSize c (memitem c ptr) < request c newsize then
      let r := s.sys.heap.rtMemheapAlloc c (request c newsize)
      some (⟨⟨r.1, r.2.toList ++ s.sys.live⟩, (r.2.map fun p => (ptr, p)).toList ++ s.moving⟩, r.2)
    else none
  | .moveFree ptr newPtr =>
    if (ptr, newPtr) ∈ s.moving then
      -- The old block is the smaller one.
      let n := s.sys.heap.memitemSize c (memitem c ptr)
      (rtMemheapFree c { s.sys.heap with mem := s.sys.heap.mem.copy newPtr ptr n } (some ptr)).map fun h =>
        (⟨⟨h, s.sys.live.erase ptr⟩, s.moving.erase (ptr, newPtr)⟩, some newPtr)
    else none

/-- A turn that expands no block beyond the free one behind it. -/
def Step (s : MemheapTurns) (l : MemheapTurn × Option Nat) (s' : MemheapTurns) : Prop :=
  turn c s l.1 = some (s', l.2) ∧ ∀ call, l.1 = .call call → ¬Overgrow c s.sys call

/-- The turn puts a block into the free list, or makes one larger, in front of a smaller one. -/
def Misplaces (s : MemheapTurns) : MemheapTurn → Prop
  | .call (.alloc size) => AllocMisplaces c s.sys.heap size
  | .call (.realloc none newsize) => newsize ≠ 0 ∧ AllocMisplaces c s.sys.heap (request c newsize)
  | .call (.realloc (some ptr) newsize) =>
    if newsize = 0 then FreeMisplaces c s.sys.heap (memitem c ptr) else ReallocMisplaces c s.sys.heap ptr newsize
  | .call (.free (some ptr)) => FreeMisplaces c s.sys.heap (memitem c ptr)
  | .call (.free none) | .call (.store _ _ _) => False
  | .moveAlloc _ newsize => AllocMisplaces c s.sys.heap (request c newsize)
  | .moveFree ptr _ => FreeMisplaces c s.sys.heap (memitem c ptr)

/-- The free list is sorted, and the block that is found on it is a smallest one. -/
def Good (s : MemheapTurns) : Prop := Sorted c s.sys.heap ∧ BestFit c s.sys.heap

/-- No turn of a heap on the pool has been made. -/
def start {c : MemheapConfig} (p : Pool c) (mem : Store MemheapItem) : MemheapTurns := ⟨p.init mem, []⟩

/-- The used blocks are the ones of the users, and the old blocks of the reallocations are among them. -/
structure TurnInv (s : MemheapTurns) : Prop where
  inv : Inv c s.sys
  nodup : (s.moving.map Prod.fst).Nodup
  live : ∀ q ∈ s.moving, q.1 ∈ s.sys.live

variable {c} {s s' : MemheapTurns} {t : MemheapTurn} {l : MemheapTurn × Option Nat} {call : MemheapCall} {r : Option Nat}

/-- A block that a call is not given stays in use. -/
theorem live_of_step {u u' : MemheapSys} {p : Nat} (hk : step c u call = some (u', r)) (hp : p ∈ u.live)
    (hne : ∀ q ∈ call.ptr, q ≠ p) : p ∈ u'.live := by
  have hwithout (ptr : Option Nat) (h : ∀ q ∈ ptr, q ≠ p) : p ∈ without u.live ptr := by
    cases ptr with
    | none => exact hp
    | some q => exact (List.mem_erase_of_ne (h q rfl).symm).2 hp
  cases call with
  | alloc size =>
    simp only [step] at hk
    split at hk
    · cases hk
      exact List.mem_append_right _ hp
    · cases hk
  | realloc ptr newsize =>
    simp only [step] at hk
    split at hk
    · obtain ⟨r1, -, he⟩ := Option.map_eq_some_iff.1 hk
      cases he
      apply List.mem_append_right
      split
      · exact hwithout ptr hne
      · exact hp
    · cases hk
  | free ptr =>
    simp only [step] at hk
    split at hk
    · obtain ⟨h1, -, he⟩ := Option.map_eq_some_iff.1 hk
      cases he
      exact hwithout ptr hne
    · cases hk
  | store ptr k v =>
    simp only [step] at hk
    split at hk
    · cases hk
      exact hp
    · cases hk

theorem start_inv (p : Pool c) (mem : Store MemheapItem) : TurnInv c (start p mem) := by
  obtain ⟨n, hI⟩ := rtMemheapInit_inv p mem
  refine ⟨⟨_, hI, ?_⟩, List.nodup_nil, nofun⟩
  exact List.Perm.refl _

/-- A turn keeps the invariant. -/
theorem TurnInv.step (I : TurnInv c s) (hk : Step c s l s') : TurnInv c s' := by
  obtain ⟨ht, hg⟩ := hk
  obtain ⟨t, r⟩ := l
  cases t with
  | call call =>
    simp only [turn] at ht
    obtain ⟨hc, ht⟩ := Option.ite_none_right_eq_some.1 ht
    obtain ⟨⟨u, r1⟩, hu, he⟩ := Option.map_eq_some_iff.1 ht
    cases he
    refine ⟨I.inv.step hu (hg call rfl), I.nodup, fun q hq => live_of_step hu (I.live q hq) ?_⟩
    rintro p hp rfl
    exact hc.1 q.1 hp ⟨q, hq, .inl rfl⟩
  | moveAlloc ptr newsize =>
    simp only [turn] at ht
    obtain ⟨hc, ht⟩ := Option.ite_none_right_eq_some.1 ht
    cases ht
    obtain ⟨bs, hI, hl⟩ := I.inv
    refine ⟨alloc_inv hI hl _, ?_, fun q hq => ?_⟩
    · rcases (s.sys.heap.rtMemheapAlloc c (request c newsize)).2 with _ | p
      · exact I.nodup
      · refine List.nodup_cons.2 ⟨fun hm => ?_, I.nodup⟩
        obtain ⟨q, hq, he⟩ := List.mem_map.1 hm
        exact hc.2.1 ⟨q, hq, .inl he.symm⟩
    · rcases List.mem_append.1 hq with hq | hq
      · obtain ⟨p, -, rfl⟩ := Option.mem_map.1 (Option.mem_toList.1 hq)
        exact List.mem_append_right _ hc.1
      · exact List.mem_append_right _ (I.live q hq)
  | moveFree ptr newPtr =>
    simp only [turn] at ht
    obtain ⟨hc, ht⟩ := Option.ite_none_right_eq_some.1 ht
    obtain ⟨h', hf, he⟩ := Option.map_eq_some_iff.1 ht
    cases he
    obtain ⟨bs, hI, hl⟩ := I.inv
    have hlive : ∀ p ∈ some ptr, p ∈ s.sys.live := by
      intro p hp
      cases hp
      exact I.live _ hc
    have hI1 := hI.copy newPtr ptr (s.sys.heap.memitemSize c (memitem c ptr))
    have hl1 : s.sys.live.Perm (data c { s.sys.heap with
      mem := s.sys.heap.mem.copy newPtr ptr (s.sys.heap.memitemSize c (memitem c ptr)) } bs) := hl
    generalize ({ s.sys.heap with
      mem := s.sys.heap.mem.copy newPtr ptr (s.sys.heap.memitemSize c (memitem c ptr)) } : Memheap) = h1 at *
    have hfree : Inv c ⟨h', without s.sys.live (some ptr)⟩ :=
      free_inv (s := ⟨h1, s.sys.live⟩) hI1 hl1 hlive hf
    refine ⟨hfree, ?_, fun q hq => ?_⟩
    · exact I.nodup.sublist (List.erase_sublist.map _)
    · have hm := List.mem_of_mem_erase hq
      have hne : q.1 ≠ ptr := by
        intro he
        have hq2 : (ptr, newPtr) = q := List.inj_on_of_nodup_map I.nodup hc hm he.symm
        have hnd : s.moving.Nodup := I.nodup.of_map
        exact (List.Nodup.mem_erase_iff hnd).1 hq |>.1 hq2.symm
      exact (List.mem_erase_of_ne hne).2 (I.live q hm)

/-- A turn keeps the list sorted unless it misplaces a block. -/
theorem TurnInv.sorted_iff (I : TurnInv c s) (hbest : c.bestMode = true) (hs : Sorted c s.sys.heap) (hk : Step c s l s') :
    Sorted c s'.sys.heap ↔ ¬Misplaces c s l.1 := by
  obtain ⟨bs, hI, hl⟩ := I.inv
  obtain ⟨ht, hg⟩ := hk
  obtain ⟨t, r⟩ := l
  cases t with
  | call call =>
    simp only [turn] at ht
    split at ht
    swap
    · cases ht
    next hc =>
    obtain ⟨⟨u, r1⟩, hu, he⟩ := Option.map_eq_some_iff.1 ht
    cases he
    cases call with
    | alloc size =>
      simp only [MemheapSys.step] at hu
      split at hu
      · cases hu
        exact hI.alloc_sorted_iff hs size
      · cases hu
    | realloc ptr newsize =>
      simp only [MemheapSys.step] at hu
      split at hu
      swap
      · cases hu
      next hlive =>
      obtain ⟨r2, hr, he2⟩ := Option.map_eq_some_iff.1 hu
      cases he2
      cases ptr with
      | none =>
        simp only [Misplaces]
        by_cases h0 : newsize = 0
        · rw [rtMemheapRealloc, if_pos h0] at hr
          obtain ⟨h1, hf, rfl⟩ := Option.map_eq_some_iff.1 hr
          cases hf
          exact iff_of_true hs fun hm => hm.1 h0
        · rw [rtMemheapRealloc, if_neg h0] at hr
          cases hr
          rw [and_iff_right h0]
          exact hI.alloc_sorted_iff hs _
      | some p =>
        obtain ⟨x, b, hm, rfl⟩ := mem_of_live hl (hlive.2 p rfl)
        simp only [Misplaces]
        split
        next h0 =>
          rw [rtMemheapRealloc, if_pos h0] at hr
          obtain ⟨h1, hf, rfl⟩ := Option.map_eq_some_iff.1 hr
          exact hI.free_sorted_iff hm hbest hs hf
        next h0 => exact hI.realloc_sorted_iff hm h0 (hg _ rfl) hc.2 hs hr
    | free ptr =>
      simp only [MemheapSys.step] at hu
      split at hu
      swap
      · cases hu
      next hlive =>
      obtain ⟨h1, hf, he2⟩ := Option.map_eq_some_iff.1 hu
      cases he2
      cases ptr with
      | none =>
        cases hf
        exact iff_of_true hs fun hm => hm
      | some p =>
        obtain ⟨x, b, hm, rfl⟩ := mem_of_live hl (hlive p rfl)
        exact hI.free_sorted_iff hm hbest hs hf
    | store p k v =>
      simp only [MemheapSys.step] at hu
      split at hu
      · cases hu
        refine iff_of_true ((sorted_congr rfl fun _ => ?_).2 hs) fun hm => hm
        rfl
      · cases hu
  | moveAlloc ptr newsize =>
    simp only [turn] at ht
    split at ht
    · cases ht
      exact hI.alloc_sorted_iff hs _
    · cases ht
  | moveFree ptr newPtr =>
    simp only [turn] at ht
    split at ht
    swap
    · cases ht
    next hc =>
    obtain ⟨h', hf, he⟩ := Option.map_eq_some_iff.1 ht
    cases he
    obtain ⟨x, b, hm, hp⟩ := mem_of_live hl (I.live _ hc)
    have hI1 := hI.copy newPtr ptr (s.sys.heap.memitemSize c (memitem c ptr))
    have hm1 : (x, b) ∈ usedBlocks ({ s.sys.heap with
      mem := s.sys.heap.mem.copy newPtr ptr (s.sys.heap.memitemSize c (memitem c ptr)) } : Memheap).startAddr bs := hm
    have hfree : ({ s.sys.heap with
      mem := s.sys.heap.mem.copy newPtr ptr (s.sys.heap.memitemSize c (memitem c ptr)) } : Memheap).freeList =
        s.sys.heap.freeList := rfl
    have hitem (y : Nat) : ({ s.sys.heap with
      mem := s.sys.heap.mem.copy newPtr ptr (s.sys.heap.memitemSize c (memitem c ptr)) } : Memheap).item y =
        s.sys.heap.item y := rfl
    generalize ({ s.sys.heap with
      mem := s.sys.heap.mem.copy newPtr ptr (s.sys.heap.memitemSize c (memitem c ptr)) } : Memheap) = h1 at *
    dsimp only at hp
    rw [hp] at hf
    simp only [Misplaces]
    rw [hp, ← freeMisplaces_congr hfree hitem]
    exact hI1.free_sorted_iff hm1 hbest ((sorted_congr hfree hitem).2 hs) hf

/-- With `RT_MEMHEAP_BEST_MODE`, in the runs of a heap in which no reallocation expands a block beyond the free one behind
it: the free list is sorted in every state, so that `rt_memheap_alloc` takes a smallest block, exactly if no turn puts or
enlarges a block on the list in front of a smaller one. -/
theorem best_sorted_iff (hbest : c.bestMode = true) (p : Pool c) (mem : Store MemheapItem)
    (ls : List (MemheapTurn × Option Nat)) (s : MemheapTurns) :
    Runs.RunWith (Step c) (fun _ s => Good c s) (start p mem) ls s ↔
      Runs.Run (fun s l s' => Step c s l s' ∧ ¬Misplaces c s l.1) (start p mem) ls s := by
  have h0 : Sorted c (start p mem).sys.heap := by
    obtain ⟨n, hI⟩ := rtMemheapInit_inv p mem
    obtain ⟨fs, hl, hp⟩ := hI.free
    obtain ⟨x, rfl⟩ : ∃ x, fs = [x] := by
      exact ⟨_, List.perm_singleton.1 hp⟩
    exact ⟨_, hl, SortedBy.singleton x⟩
  refine Runs.RunWith.iff_run (I := fun _ s => TurnInv c s ∧ Sorted c s.sys.heap) ⟨start_inv p mem, h0⟩
    ⟨h0, h0.bestFit⟩ ?_ ?_
  · rintro ls s l s' ⟨I, hs⟩ ⟨hk, hm⟩
    exact ⟨I.step hk, (I.sorted_iff hbest hs hk).2 hm⟩
  · rintro ls s l s' ⟨I, hs⟩
    constructor
    · rintro ⟨hk, hgood⟩
      exact ⟨hk, (I.sorted_iff hbest hs hk).1 hgood.1⟩
    · rintro ⟨hk, hm⟩
      have hs' := (I.sorted_iff hbest hs hk).2 hm
      exact ⟨hk, hs', hs'.bestFit⟩

/-- A turn that is computed, unless it expands a block beyond the free one behind it. -/
def calmTurn (c : MemheapConfig) (s : MemheapTurns) : MemheapTurn → Option (MemheapTurns × Option Nat)
  | .call call => if Overgrow c s.sys call then none else turn c s (.call call)
  | .moveAlloc ptr newsize => turn c s (.moveAlloc ptr newsize)
  | .moveFree ptr newPtr => turn c s (.moveFree ptr newPtr)

theorem step_of_calmTurn (h : calmTurn c s l.1 = some (s', l.2)) : Step c s l s' := by
  obtain ⟨t, r⟩ := l
  cases t with
  | call call =>
    simp only [calmTurn] at h
    obtain ⟨hg, h⟩ := Option.ite_none_left_eq_some.1 h
    refine ⟨h, fun call' he => ?_⟩
    obtain rfl : call = call' := by injection he
    exact hg
  | moveAlloc ptr newsize => exact ⟨h, nofun⟩
  | moveFree ptr newPtr => exact ⟨h, nofun⟩

/-- The new heap on 3 GiB. -/
def start64 : MemheapTurns := start pool64 ⟨fun _ => ⟨0, 0, 0, 0, 0, 0⟩, fun _ => 0⟩

/-- The block in the middle is moved, and freed. -/
def turns64 : List (MemheapTurn × Option Nat) :=
  [(.call (.alloc 100), some 0x1030), (.call (.alloc 100), some 0x10c8), (.moveAlloc 0x1030 200, some 0x1160),
    (.moveFree 0x1030 0x1160, some 0x1160), (.call (.alloc 24), some 0x1030)]

theorem best_sorted_iff_turns64 : ∃ s, Runs.Run (Step config64) start64 turns64 s ∧
    (Runs.RunWith (Step config64) (fun _ s => Good config64 s) start64 turns64 s ↔
      Runs.Run (fun s l s' => Step config64 s l s' ∧ ¬Misplaces config64 s l.1) start64 turns64 s) := by
  obtain ⟨s, hr, -⟩ := Runs.Run.of_computed (f := calmTurn config64) (s := start64) (P := fun _ => True) turns64
    (by decide +kernel)
  exact ⟨s, hr.mono fun _ _ _ h => step_of_calmTurn h, best_sorted_iff rfl pool64 _ turns64 s⟩

/-- The rest of a large block goes before a smaller block that was freed. -/
theorem not_best_sorted :
    ¬∀ (c : MemheapConfig) (p : Pool c) (mem : Store MemheapItem) (ls : List (MemheapTurn × Option Nat))
      (s : MemheapTurns), c.bestMode = true → Runs.Run (Step c) (start p mem) ls s → Good c s := by
  intro h
  obtain ⟨s, hr, h1, h2, h3⟩ := Runs.Run.of_computed (f := calmTurn config64) (s := start64)
    (P := fun s : MemheapTurns =>
      (s.sys.heap.item s.sys.heap.freeList).nextFree ≠ s.sys.heap.freeList ∧
      (s.sys.heap.item (s.sys.heap.item s.sys.heap.freeList).nextFree).nextFree ≠ s.sys.heap.freeList ∧
      s.sys.heap.memitemSize config64 (s.sys.heap.item (s.sys.heap.item s.sys.heap.freeList).nextFree).nextFree <
        s.sys.heap.memitemSize config64 (s.sys.heap.item s.sys.heap.freeList).nextFree)
    [(.call (.alloc 100), some 0x1030), (.call (.alloc 100), some 0x10c8), (.call (.free (some 0x1030)), none),
      (.call (.alloc 1000), some 0x1160)] (by decide +kernel)
  have hgood := h config64 pool64 _ _ s rfl (hr.mono fun _ _ _ h => step_of_calmTurn h)
  exact not_sorted rfl h1 rfl h2 h3 hgood.1

end MemheapTurns

end RtThread
