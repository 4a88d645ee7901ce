import RtThread.Mm.AspacePlace
import RtThread.Lib.Runs

/-!
# Runs of an address space

The calls keep the vareas apart, inside of the address space and in the tree, if no place is looked for that rounding moves
too far (`aspace_vareas`). Then a call that fails leaves them as they were, and `rt_aspace_unmap` removes the varea that
holds an address; where there is none it dereferences `NULL` (`aspace_atomic`).
-/

namespace RtThread.RtAspace

open HeightTree Runs
open UtilAvl (Linked At Search Forest InOrder inOrder_of_linked)

/-- The tree has exactly the vareas that have been mapped and not unmapped; they are apart, and inside of the space. -/
structure WellPlaced (s : RtAspace) : Prop where
  listed : ∃ ks, InOrder s.tree s.tree.rootNode ks ∧ ks.Perm s.mapped
  nodup : s.mapped.Nodup
  disjoint : ∀ v ∈ s.mapped, ∀ w ∈ s.mapped, v ≠ w →
    finish (s.varea v) ≤ (s.varea w).start ∨ finish (s.varea w) ≤ (s.varea v).start
  inside : ∀ v ∈ s.mapped, s.start ≤ (s.varea v).start ∧ finish (s.varea v) ≤ s.start + s.size

/-- The same vareas are in the tree, in the same order. -/
structure Unchanged (s s' : RtAspace) : Prop where
  mapped : s'.mapped = s.mapped
  varea : ∀ v ∈ s.mapped, s'.varea v = s.varea v
  tree : ∃ ks, InOrder s.tree s.tree.rootNode ks ∧ InOrder s'.tree s'.tree.rootNode ks

/-- `rt_aspace_unmap` removes the one varea that holds the address, or there is none and it returns without a change. -/
def UnmapAtomic (c : AspaceConfig) (fuel : Nat) (s : RtAspace) (addr : Nat) : Prop :=
  ∃ s' r, s.rtAspaceUnmap c fuel addr = some (s', r) ∧
    ((∃ v ∈ s.mapped, Holds s v addr ∧ (∀ w ∈ s.mapped, Holds s w addr → w = v) ∧ s'.mapped = s.mapped.erase v ∧
        (∀ w ∈ s'.mapped, s'.varea w = s.varea w) ∧ ∃ ks, InOrder s.tree s.tree.rootNode ks ∧
          InOrder s'.tree s'.tree.rootNode (ks.erase v)) ∨
      (∀ v ∈ s.mapped, ¬ Holds s v addr) ∧ s' = s)

/-! ## Calls -/

/-- The hint of `_mm_aspace_map`. -/
def mapHint (s : RtAspace) (addr length flags : Nat) (mem : RtMemObj) : RtMmVaHint :=
  let hint : RtMmVaHint :=
    { limitStart := s.start, limitRangeSize := s.size, prefer := addr, mapSize := length, flags := flags }
  match mem.hintFree with
  | some hintFree => hintFree hint
  | none => hint

/-- The checks of `rt_aspace_map` let the call pass. -/
def Accepts (c : AspaceConfig) (s : RtAspace) (addr length flags : Nat) : Prop :=
  length ≠ 0 ∧ notInRange c addr length s.start s.size = false ∧ MmFlag.notSupport flags = false

/-- A place is looked for where rounding does not move it too far, and a mem object keeps the hint in the space. -/
def MapCareful (c : AspaceConfig) (s : RtAspace) (addr length flags : Nat) (mem : RtMemObj) : Prop :=
  FreeFine c s (s.mapHint addr length flags mem) ∧
    (mem.hintFree ≠ none → HintIn s (s.mapHint addr length flags mem) ∧ (s.mapHint addr length flags mem).mapSize = length)

def Careful (c : AspaceConfig) (s : RtAspace) : Call → Prop
  | .map (some addr) length _ flags (some mem) _ _ => Accepts c s addr length flags → MapCareful c s addr length flags mem
  | .mapStatic _ (some addr) length _ flags (some mem) _ => Accepts c s addr length flags →
      MapCareful c s addr length (flags ||| MmFlag.staticAlloc) mem
  | .mapPhy (some hint) _ _ _ => FreeFine c s hint
  | _ => True

/-- The arguments are words, and a new varea is not one that is mapped. -/
def Typed (c : AspaceConfig) (s : RtAspace) : Call → Prop
  | .map addr length _ _ _ _ v => (∀ a, addr = some a → a < 2 ^ c.bits) ∧ length < 2 ^ c.bits ∧ ∀ i, v = some i → i ∉ s.mapped
  | .mapStatic v addr length _ _ _ _ => (∀ a, addr = some a → a < 2 ^ c.bits) ∧ length < 2 ^ c.bits ∧
      ∀ i, v = some i → i ∉ s.mapped
  | .mapPhy hint _ _ v => (∀ h, hint = some h → h.prefer < 2 ^ c.bits ∧ h.mapSize < 2 ^ c.bits ∧ h.limitStart < 2 ^ c.bits ∧
      h.limitRangeSize < 2 ^ c.bits) ∧ ∀ i, v = some i → i ∉ s.mapped
  | .unmap addr => addr < 2 ^ c.bits

/-- A call with what the port of the MMU answers and what is returned, given enough fuel for the loops over the tree. -/
def Step (c : AspaceConfig) (s : RtAspace) (x : (Mmu × Call) × Result) (s' : RtAspace) : Prop :=
  ∃ fuel, s.mapped.length < fuel ∧ Typed c s x.1.2 ∧ s.call c fuel x.1.1 x.1.2 = some (s', x.2)

def CarefulStep (c : AspaceConfig) (s : RtAspace) (x : (Mmu × Call) × Result) (s' : RtAspace) : Prop :=
  Step c s x s' ∧ Careful c s x.1.2

variable {c : AspaceConfig} {s s' : RtAspace} {t t' : HeightTree Nat} {hint : RtMmVaHint} {fuel v w addr length : Nat}
  {mmu : Mmu} {mem : RtMemObj} {err : MmErr} {r : Result}

/-! ## The invariant -/

theorem Spaced.wellPlaced (h : Spaced c s t) : WellPlaced s where
  listed := by
    have hroot : s.tree.rootNode = t.root := h.forest.tree.above
    rw [hroot]
    exact ⟨t.keys, inOrder_of_linked h.forest.tree.below, h.forest.live⟩
  nodup := h.forest.live.nodup_iff.1 h.nodup
  disjoint v hv w hw hne := h.lined.ordered (h.mem_iff.1 hv) (h.mem_iff.1 hw) hne
  inside v hv := h.inside v (h.mem_iff.1 hv)

/-- All is the same but the varea `v`. -/
structure SameBut (v : Nat) (s s' : RtAspace) : Prop where
  start : s'.start = s.start
  size : s'.size = s.size
  mapped : s'.mapped = s.mapped
  varea : ∀ w, w ≠ v → s'.varea w = s.varea w

theorem SameBut.refl : SameBut v s s := ⟨rfl, rfl, rfl, fun _ _ => rfl⟩

theorem SameBut.trans {s'' : RtAspace} (h : SameBut v s s') (h' : SameBut v s' s'') : SameBut v s s'' where
  start := h'.start.trans h.start
  size := h'.size.trans h.size
  mapped := h'.mapped.trans h.mapped
  varea w hw := (h'.varea w hw).trans (h.varea w hw)

variable {x : RtVarea} {va attr flags offset start size : Nat} {e : Call} {ls : List ((Mmu × Call) × Result)}

theorem sameBut_setVarea : SameBut v s (s.setVarea v x) :=
  ⟨rfl, rfl, rfl, fun _ hw => Function.update_of_ne hw ..⟩

theorem SameBut.eq_of_mem (h : SameBut v s s') (hv : v ∉ s.mapped) (hw : w ∈ s.mapped) : s'.varea w = s.varea w :=
  h.varea w fun he => hv (he ▸ hw)

/-- The starts and sizes of the vareas are the same. -/
theorem Spaced.congr (h : Spaced c s t) (htree : s'.tree = s.tree) (hmapped : s'.mapped = s.mapped)
    (hstart : s'.start = s.start) (hsize : s'.size = s.size)
    (hvarea : ∀ w ∈ t.keys, (s'.varea w).start = (s.varea w).start ∧ (s'.varea w).size = (s.varea w).size) :
    Spaced c s' t where
  forest := by
    refine ⟨?_, h.forest.balanced, ?_, ?_⟩
    · dsimp only
      rw [htree]
      exact h.forest.tree
    · dsimp only
      rw [hmapped]
      exact h.forest.live
    · refine h.forest.sorted.imp_of_mem fun {i j} hi hj hij => ?_
      dsimp only
      rw [(hvarea i hi).1, (hvarea j hj).1]
      exact hij
  apart := by
    refine h.apart.imp_of_mem fun {i j} hi hj hij => ?_
    rw [finish, (hvarea i hi).1, (hvarea i hi).2, (hvarea j hj).1]
    exact hij
  start_pos v hv := by
    rw [(hvarea v hv).1]
    exact h.start_pos v hv
  size_pos v hv := by
    rw [(hvarea v hv).2]
    exact h.size_pos v hv
  inside v hv := by
    rw [finish, (hvarea v hv).1, (hvarea v hv).2, hstart, hsize]
    exact h.inside v hv
  fits := by
    rw [hstart, hsize]
    exact h.fits

theorem Spaced.sameBut (h : Spaced c s t) (hs : SameBut v s s') (htree : s'.tree = s.tree) (hv : v ∉ s.mapped) :
    Spaced c s' t := by
  refine h.congr htree hs.mapped hs.start hs.size fun w hw => ?_
  rw [hs.eq_of_mem hv (h.mem_iff.2 hw)]
  exact ⟨rfl, rfl⟩

/-- What is looked for does not depend on a varea that is not mapped. -/
theorem FreeFine.sameBut (h : FreeFine c s hint) (hs : SameBut v s s') (hv : v ∉ s.mapped) : FreeFine c s' hint := by
  have heq : ∀ w ∈ s.mapped, s'.varea w = s.varea w := fun w hw => hs.eq_of_mem hv hw
  have htaken : Taken c s' hint ↔ Taken c s hint := by
    rw [Taken, Taken, hs.mapped]
    refine exists_congr fun w => and_congr_right fun hw => ?_
    rw [heq w hw]
  have hsearches : Searches c s' hint → Searches c s hint := by
    rintro (hzero | ⟨hfixed, htake⟩)
    · exact .inl hzero
    · exact .inr ⟨hfixed, htaken.1 htake⟩
  constructor
  · rw [htaken, hs.start, hs.size]
    exact h.prefer
  · intro hsearch u hu w hw
    rw [hs.mapped] at hu hw
    rw [heq u hu, heq w hw]
    exact h.next (hsearches hsearch) u hu w hw
  · intro hsearch
    obtain ⟨hnear, habove, hreach, hroom⟩ := h.head (hsearches hsearch)
    have hbelow : (∀ w ∈ s'.mapped, (s'.varea w).start < hint.limitStart) →
        ∀ w ∈ s.mapped, (s.varea w).start < hint.limitStart := by
      intro hlt w hw
      rw [← heq w hw]
      exact hlt w (by rw [hs.mapped]; exact hw)
    constructor
    · intro w hw
      rw [hs.mapped] at hw
      rw [heq w hw]
      exact hnear w hw
    · intro w hw
      rw [hs.mapped] at hw
      rw [heq w hw]
      exact habove w hw
    · intro hlt w hw
      rw [hs.mapped] at hw
      rw [heq w hw]
      exact hreach (hbelow hlt) w hw
    · intro hlt
      rw [htaken]
      exact hroom (hbelow hlt)

/-! ## Install and uninstall -/

/-- Vareas that are apart are in the order of their starts. -/
theorem spaced_of_sorted (hforest : Forest.Inv ⟨s.tree, fun i => (s.varea i).start, s.mapped⟩ t)
    (hpos : ∀ v ∈ s.mapped, 0 < (s.varea v).start ∧ 0 < (s.varea v).size)
    (hdisjoint : ∀ v ∈ s.mapped, ∀ w ∈ s.mapped, v ≠ w →
      finish (s.varea v) ≤ (s.varea w).start ∨ finish (s.varea w) ≤ (s.varea v).start)
    (hinside : ∀ v ∈ s.mapped, s.start ≤ (s.varea v).start ∧ finish (s.varea v) ≤ s.start + s.size)
    (hfits : s.start + s.size ≤ 2 ^ c.bits) : Spaced c s t where
  forest := hforest
  apart := by
    refine hforest.sorted.imp_of_mem fun {i j} hi hj hij => ?_
    have hi' := hforest.live.mem_iff.1 hi
    have hj' := hforest.live.mem_iff.1 hj
    rcases hdisjoint i hi' j hj' (fun he => by subst he; exact Nat.lt_irrefl _ hij) with hle | hge
    · exact hle
    · rw [finish] at hge
      dsimp only at hij
      omega
  start_pos v hv := (hpos v (hforest.live.mem_iff.1 hv)).1
  size_pos v hv := (hpos v (hforest.live.mem_iff.1 hv)).2
  inside v hv := hinside v (hforest.live.mem_iff.1 hv)
  fits := hfits

section

variable (h : Spaced c s t) (hfuel : s.mapped.length ≤ fuel)

include h hfuel

/-- The varea `v` is put into the tree at a vacant address. -/
theorem Spaced.insert (hv : v ∉ s.mapped)
    (hvacant : Vacant s va (s.varea v).size) (hva : va ≠ 0) (hsize : 0 < (s.varea v).size) :
    ∃ tree t', (s.setVarea v { s.varea v with start := va }).bstInsert fuel v =
        some { s.setVarea v { s.varea v with start := va } with tree := tree } ∧
      Spaced c { s.setVarea v { s.varea v with start := va } with tree := tree, mapped := v :: s.mapped } t' := by
  generalize hs1 : s.setVarea v { s.varea v with start := va } = s1
  have hsame : SameBut v s s1 := by
    rw [← hs1]
    exact sameBut_setVarea
  have htree : s1.tree = s.tree := by
    rw [← hs1]
    rfl
  have hget : s1.varea v = { s.varea v with start := va } := by
    rw [← hs1]
    exact Function.update_self ..
  have h1 := h.sameBut hsame htree hv
  have hmapped := hsame.mapped
  have heq : ∀ w ∈ s.mapped, s1.varea w = s.varea w := fun w hw => hsame.eq_of_mem hv hw
  have hroot : s1.tree.get .rootNode = t.root := h1.forest.tree.above
  -- no varea starts there
  have hne : ∀ i ∈ t.keys, (s1.varea i).start ≠ va := by
    intro i hi heq'
    have hi' := h.mem_iff.2 hi
    rw [heq i hi'] at heq'
    have hlt := h.lined.start_lt hi
    rcases hvacant.apart i hi' with hle | hge <;> omega
  obtain ⟨next, current, hplace, hsearch, hleaf⟩ := insertPlace_at (k := va) (n := fuel) h1.forest.tree.below hroot
    (h1.length_le (by rw [hmapped]; exact hfuel)) hne .root
  have hnew : v ∉ s1.mapped := by rwa [hmapped]
  obtain ⟨tree, t', hlink, hinv⟩ := h1.forest.link (n := fuel) (by dsimp only; rwa [hmapped]) hnew hsearch hleaf
  refine ⟨tree, t', ?_, ?_⟩
  · have hstart : (s1.varea v).start = va := by rw [hget]
    simp only [bstInsert, hstart, hplace, Option.bind_eq_bind, Option.bind_some, hlink]
  · have hkey : Function.update (fun i => (s1.varea i).start) v va = fun i => (s1.varea i).start := by
      rw [Function.update_eq_self_iff, hget]
    rw [hkey, hmapped] at hinv
    refine spaced_of_sorted hinv ?_ ?_ ?_ ?_
    · intro w hw
      rcases List.mem_cons.1 hw with rfl | hw
      · dsimp only
        rw [hget]
        exact ⟨Nat.pos_of_ne_zero hva, hsize⟩
      · dsimp only
        rw [heq w hw]
        exact ⟨h.start_pos w (h.mem_iff.1 hw), h.size_pos w (h.mem_iff.1 hw)⟩
    · intro u hu w hw huw
      rcases List.mem_cons.1 hu with rfl | hu' <;> rcases List.mem_cons.1 hw with rfl | hw'
      · exact absurd rfl huw
      · rw [hget, heq w hw']
        exact (hvacant.apart w hw').symm
      · rw [hget, heq u hu']
        exact hvacant.apart u hu'
      · rw [heq u hu', heq w hw']
        exact h.lined.ordered (h.mem_iff.1 hu') (h.mem_iff.1 hw') huw
    · intro w hw
      rw [hsame.start, hsame.size]
      rcases List.mem_cons.1 hw with rfl | hw
      · rw [hget]
        exact ⟨hvacant.above, hvacant.below⟩
      · rw [heq w hw]
        exact h.inside w (h.mem_iff.1 hw)
    · dsimp only
      rw [hsame.start, hsame.size]
      exact h.fits

/-- A varea is taken out of the tree. -/
theorem Spaced.remove (hv : v ∈ s.mapped) :
    ∃ tree t', UtilAvl.utilAvlRemove fuel s.tree v = some tree ∧ t'.keys = t.keys.erase v ∧
      Spaced c { s with tree := tree, mapped := s.mapped.erase v } t' := by
  obtain ⟨tree, t', hremove, hat, hbalanced, hkeys, -⟩ := UtilAvl.remove_balanced h.forest.tree h.forest.balanced
    (h.mem_iff.1 hv) (h.length_le hfuel)
  have hinv : Forest.Inv ⟨tree, fun i => (s.varea i).start, s.mapped.erase v⟩ t' := by
    refine ⟨hat, hbalanced, ?_, ?_⟩
    · rw [hkeys]
      exact h.forest.live.erase v
    · rw [hkeys]
      exact h.forest.sorted.sublist List.erase_sublist
  refine ⟨tree, t', hremove, hkeys, ?_⟩
  · have hmem : ∀ w ∈ s.mapped.erase v, w ∈ t.keys := fun w hw => h.mem_iff.1 (List.mem_of_mem_erase hw)
    refine spaced_of_sorted hinv ?_ ?_ ?_ h.fits
    · exact fun w hw => ⟨h.start_pos w (hmem w hw), h.size_pos w (hmem w hw)⟩
    · exact fun u hu w hw huw => h.lined.ordered (hmem u hu) (hmem w hw) huw
    · exact fun w hw => h.inside w (hmem w hw)

/-- `_varea_install` puts the varea where there is room for it, or changes nothing. -/
theorem vareaInstall_spec (hin : HintIn s hint) (hfine : FreeFine c s hint)
    (hv : v ∉ s.mapped) (hsize : (s.varea v).size = hint.mapSize) (hs : s.vareaInstall c fuel v hint = some (s', err)) :
    err = .enospc ∧ s' = s ∨
      err = .eok ∧ SameBut v s s' ∧ ∃ t', Spaced c { s' with mapped := v :: s'.mapped } t' := by
  obtain ⟨va, hfree, hs⟩ := Option.bind_eq_some_iff.1 hs
  split at hs
  · rename_i hva
    have hvacant := findFree_spec h hfuel hin hfine hfree hva
    rw [← hsize] at hvacant
    obtain ⟨tree, t', hinsert, hspaced⟩ := h.insert hfuel hv hvacant hva (by rw [hsize]; exact hin.size_pos)
    rw [hinsert] at hs
    cases hs
    refine .inr ⟨rfl, ⟨rfl, rfl, rfl, ?_⟩, t', hspaced⟩
    intro w hw
    exact Function.update_of_ne hw ..
  · cases hs
    exact .inl ⟨rfl, rfl⟩

end

/-! ## The calls -/

/-- The vareas of a call that fails: in the same order, with the same places. -/
structure Restored (c : AspaceConfig) (s : RtAspace) (t : HeightTree Nat) (s' : RtAspace) : Prop where
  mapped : s'.mapped = s.mapped
  varea : ∀ w ∈ s.mapped, s'.varea w = s.varea w
  tree : ∃ t', t'.keys = t.keys ∧ Spaced c s' t'

/-- The varea `v` has been mapped, or nothing has changed but itself. -/
def Outcome (c : AspaceConfig) (v : Nat) (s : RtAspace) (t : HeightTree Nat) (s' : RtAspace) (err : MmErr) : Prop :=
  SameBut v s s' ∧ (err = .eok ∧ (∃ t', Spaced c { s' with mapped := v :: s'.mapped } t') ∨
    err ≠ .eok ∧ ∃ t', t'.keys = t.keys ∧ Spaced c s' t')

/-- Two trees of the same vareas have them in the same order. -/
theorem Spaced.keys_eq (h : Spaced c s t) (h' : Spaced c s' t') (hmapped : s'.mapped = s.mapped)
    (hvarea : ∀ w ∈ s.mapped, s'.varea w = s.varea w) : t'.keys = t.keys := by
  have hperm : t'.keys.Perm t.keys := by
    refine h'.forest.live.trans ?_
    rw [hmapped]
    exact h.forest.live.symm
  have hsort : t'.keys.Pairwise fun i j => (s.varea i).start < (s.varea j).start := by
    refine h'.forest.sorted.imp_of_mem fun {i j} hi hj hij => ?_
    dsimp only at hij
    rwa [hvarea i (h.mem_iff.2 (hperm.mem_iff.1 hi)), hvarea j (h.mem_iff.2 (hperm.mem_iff.1 hj))] at hij
  exact hperm.eq_of_pairwise (fun i j _ _ hij hji => absurd hij (Nat.lt_asymm hji)) hsort h.forest.sorted

/-- The varea that has just been put into the tree is taken out again. -/
theorem Spaced.undo (h : Spaced c s t) (hsame : SameBut v s s') (hv : v ∉ s.mapped)
    (h' : Spaced c { s' with mapped := v :: s'.mapped } t') (hfuel : s.mapped.length < fuel) :
    ∃ s'' t'', s'.vareaUninstall fuel v = some s'' ∧ SameBut v s s'' ∧ t''.keys = t.keys ∧ Spaced c s'' t'' := by
  obtain ⟨tree, t'', hremove, -, hspaced⟩ := h'.remove (v := v)
    (show s'.mapped.length + 1 ≤ fuel by rw [hsame.mapped]; exact hfuel) List.mem_cons_self
  rw [List.erase_cons_head] at hspaced
  have hsame' : SameBut v s { s' with tree := tree } := ⟨hsame.start, hsame.size, hsame.mapped, hsame.varea⟩
  refine ⟨{ s' with tree := tree }, t'', ?_, hsame', ?_, hspaced⟩
  · dsimp only at hremove
    simp only [vareaUninstall, bstRemove, hremove, Option.bind_eq_bind, Option.bind_some]
  · exact h.keys_eq hspaced hsame.mapped fun w hw => hsame.eq_of_mem hv hw

/-- The data of a varea that `_varea_post_install` writes. -/
theorem Spaced.postInstall (h : Spaced c { s with mapped := v :: s.mapped } t) (attr flags offset : Nat) :
    Spaced c { s.vareaPostInstall v attr flags offset with mapped := v :: (s.vareaPostInstall v attr flags offset).mapped } t := by
  refine h.congr rfl rfl rfl rfl fun w _ => ?_
  change (Function.update s.varea v _ w).start = _ ∧ (Function.update s.varea v _ w).size = _
  by_cases hw : w = v
  · subst hw
    rw [Function.update_self]
    exact ⟨rfl, rfl⟩
  · rw [Function.update_of_ne hw]
    exact ⟨rfl, rfl⟩

theorem sameBut_postInstall (attr flags offset : Nat) : SameBut v s (s.vareaPostInstall v attr flags offset) :=
  ⟨rfl, rfl, rfl, fun _ hw => Function.update_of_ne hw ..⟩

/-- `_mm_aspace_map`: what has been put into the tree is taken out again if a page cannot be populated. -/
theorem mmAspaceMap_spec (h : Spaced c s t) (hfuel : s.mapped.length < fuel) (hv : v ∉ s.mapped)
    (hin : HintIn s (s.mapHint (s.varea v).start (s.varea v).size flags mem))
    (hfine : FreeFine c s (s.mapHint (s.varea v).start (s.varea v).size flags mem))
    (hsize : (s.varea v).size = (s.mapHint (s.varea v).start (s.varea v).size flags mem).mapSize)
    (hs : s.mmAspaceMap c fuel mmu v attr flags mem offset = some (s', err)) : Outcome c v s t s' err := by
  obtain ⟨⟨s1, e⟩, hinstall, hrest⟩ := Option.bind_eq_some_iff.1 hs
  dsimp only at hrest
  rcases vareaInstall_spec h (Nat.le_of_lt hfuel) hin hfine hv hsize hinstall with ⟨rfl, rfl⟩ | ⟨rfl, hsame, t', hspaced⟩
  · cases hrest
    exact ⟨.refl, .inr ⟨by decide, t, rfl, h⟩⟩
  · rw [if_pos rfl] at hrest
    have hpost := hspaced.postInstall attr flags offset
    have hsame' := hsame.trans (sameBut_postInstall attr flags offset)
    generalize s1.vareaPostInstall v attr flags offset = s2 at hrest hpost hsame'
    split at hrest
    · obtain ⟨e, -, hrest⟩ := Option.bind_eq_some_iff.1 hrest
      split at hrest
      · rename_i hne
        obtain ⟨s3, t'', hundo, hsame'', hkeys, hspaced''⟩ := h.undo hsame' hv hpost hfuel
        rw [hundo] at hrest
        cases hrest
        exact ⟨hsame'', .inr ⟨hne, t'', hkeys, hspaced''⟩⟩
      · cases hrest
        exact ⟨hsame', .inl ⟨rfl, t', hpost⟩⟩
    · cases hrest
      exact ⟨hsame', .inl ⟨rfl, t', hpost⟩⟩

/-- What a call leaves: vareas that are apart, and those that there were if it fails. -/
structure Answer (c : AspaceConfig) (s : RtAspace) (t : HeightTree Nat) (s' : RtAspace) (r : Result) : Prop where
  spaced : ∃ t', Spaced c s' t'
  start : s'.start = s.start
  size : s'.size = s.size
  failed : r.err ≠ .eok → Restored c s t s'

theorem Answer.refl (h : Spaced c s t) : Answer c s t s r := ⟨⟨t, h⟩, rfl, rfl, fun _ => ⟨rfl, fun _ _ => rfl, t, rfl, h⟩⟩

/-- The call has been made with the varea `v` set, which is not mapped. -/
theorem Answer.sameBut {s0 : RtAspace} (h : Answer c s0 t s' r) (hs : SameBut v s s0) (hv : v ∉ s.mapped) : Answer c s t s' r where
  spaced := h.spaced
  start := h.start.trans hs.start
  size := h.size.trans hs.size
  failed hne := by
    obtain ⟨hmapped, hvarea, htree⟩ := h.failed hne
    refine ⟨hmapped.trans hs.mapped, ?_, htree⟩
    intro w hw
    rw [hvarea w (by rw [hs.mapped]; exact hw), hs.eq_of_mem hv hw]

/-- A call that maps the varea `v` records it. -/
theorem Outcome.answer (h : Outcome c v s t s' err) (hv : v ∉ s.mapped) : Answer c s t (s'.record v err) ⟨err, va⟩ := by
  obtain ⟨hsame, ⟨rfl, t', hspaced⟩ | ⟨hne, t', hkeys, hspaced⟩⟩ := h
  · exact ⟨⟨t', hspaced⟩, hsame.start, hsame.size, fun habs => absurd rfl habs⟩
  · rw [record, if_neg hne]
    exact ⟨⟨t', hspaced⟩, hsame.start, hsame.size, fun _ => ⟨hsame.mapped, fun w hw => hsame.eq_of_mem hv hw, t', hkeys, hspaced⟩⟩

/-- The checks of the range, for an address space that does not start at zero. -/
theorem in_of_notInRange (hpos : 0 < start) (haddr : addr < 2 ^ c.bits)
    (h : notInRange c addr length start size = false) :
    addr = 0 ∧ length ≤ size ∨ start ≤ addr ∧ addr + length ≤ start + size := by
  rw [notInRange] at h
  split at h
  · rename_i hne
    simp only [Bool.or_eq_false_iff, decide_eq_false_iff_not, Nat.not_lt, gt_iff_lt] at h
    obtain ⟨⟨hover, hlow⟩, hhigh⟩ := h
    rw [Nat.mod_eq_of_lt (by omega)] at hover
    rw [sub_eq hlow haddr, Nat.mod_eq_of_lt (by omega)] at hhigh
    exact .inr ⟨hlow, by omega⟩
  · rename_i hzero
    simp only [decide_eq_false_iff_not, Nat.not_lt, gt_iff_lt] at h
    exact .inl ⟨by simpa using hzero, h⟩

/-- `rt_aspace_map` and `rt_aspace_map_static`, once the checks let them pass. -/
theorem map_spec (h : Spaced c s t) (hpos : 0 < s.start) (hfuel : s.mapped.length < fuel)
    (hv : v ∉ s.mapped) (haddr : addr < 2 ^ c.bits) (hlength : length ≠ 0)
    (hrange : notInRange c addr length s.start s.size = false) (hcare : MapCareful c s addr length flags mem)
    (hx : x.start = addr ∧ x.size = length)
    (hs : (s.setVarea v x).mmAspaceMap c fuel mmu v attr flags mem offset = some (s', err)) :
    Answer c s t (s'.record v err) ⟨err, va⟩ := by
  have hsame : SameBut v s (s.setVarea v x) := sameBut_setVarea
  have hget : (s.setVarea v x).varea v = x := Function.update_self ..
  have hhint : (s.setVarea v x).mapHint ((s.setVarea v x).varea v).start ((s.setVarea v x).varea v).size flags mem =
      s.mapHint addr length flags mem := by
    rw [hget, hx.1, hx.2]
    rfl
  obtain ⟨hin, hsize⟩ : HintIn s (s.mapHint addr length flags mem) ∧ (s.mapHint addr length flags mem).mapSize = length := by
    cases hfree : mem.hintFree with
    | some f => exact hcare.2 (by rw [hfree]; exact Option.some_ne_none f)
    | none =>
      simp only [mapHint, hfree, and_true]
      have hcases := in_of_notInRange hpos haddr hrange
      refine ⟨Nat.pos_of_ne_zero hlength, ?_, .inr (Nat.le_refl _), ?_, Nat.le_refl _⟩
      · rcases hcases with ⟨hzero, -⟩ | ⟨hlow, hhigh⟩
        · exact .inl hzero
        · exact .inr ⟨hlow, by dsimp only; omega⟩
      · dsimp only
        omega
  have hin' : HintIn (s.setVarea v x) (s.mapHint addr length flags mem) :=
    ⟨hin.size_pos, hin.prefer, hin.limit, hin.range_pos, hin.range⟩
  have hspaced := h.sameBut hsame rfl hv
  refine Answer.sameBut (Outcome.answer (mmAspaceMap_spec hspaced hfuel hv ?_ ?_ ?_ hs) hv) hsame hv
  · rw [hhint]
    exact hin'
  · rw [hhint]
    exact hcare.1.sameBut hsame hv
  · rw [hhint, hget, hx.2, hsize]

/-- `rt_aspace_map_phy`, with a varea. -/
theorem mapPhy_spec {paOff : Nat} (h : Spaced c s t) (hpos : 0 < s.start) (hfuel : s.mapped.length < fuel)
    (hv : v ∉ s.mapped) (hprefer : hint.prefer < 2 ^ c.bits) (hlimit : hint.limitStart < 2 ^ c.bits)
    (hfine : FreeFine c s hint) (hx : x.size = hint.mapSize)
    (hs : (s.setVarea v x).mmAspaceMapPhy c fuel mmu v hint attr paOff = some (s', r)) : Answer c s t s' r := by
  have hsame : SameBut v s (s.setVarea v x) := sameBut_setVarea
  have hspaced := h.sameBut hsame rfl hv
  have hget : (s.setVarea v x).varea v = x := Function.update_self ..
  refine Answer.sameBut ?_ hsame hv
  have hrefused {e : MmErr} (hret : some (s.setVarea v x, (⟨e, 0⟩ : Result)) = some (s', r)) :
      Answer c (s.setVarea v x) t s' r := by
    cases hret
    exact .refl hspaced
  simp only [mmAspaceMapPhy] at hs
  split at hs
  · exact hrefused hs
  rename_i hne
  obtain ⟨hrange0, hsize0⟩ := not_or.1 hne
  split at hs
  · exact hrefused hs
  split at hs
  · exact hrefused hs
  rename_i hrange
  rw [Bool.or_eq_true, not_or, Bool.not_eq_true, Bool.not_eq_true] at hrange
  obtain ⟨hlimitRange, hpreferRange⟩ := hrange
  have hin : HintIn (s.setVarea v x) hint := by
    have hl : hint.limitStart = 0 ∧ hint.limitRangeSize ≤ s.size ∨
        s.start ≤ hint.limitStart ∧ hint.limitStart + hint.limitRangeSize ≤ s.start + s.size :=
      in_of_notInRange hpos hlimit hlimitRange
    have hp : hint.prefer = 0 ∧ hint.mapSize ≤ s.size ∨
        s.start ≤ hint.prefer ∧ hint.prefer + hint.mapSize ≤ s.start + s.size := in_of_notInRange hpos hprefer hpreferRange
    refine ⟨Nat.pos_of_ne_zero hsize0, ?_, ?_, Nat.pos_of_ne_zero hrange0, ?_⟩
    · rcases hp with ⟨hzero, -⟩ | ⟨hlow, hhigh⟩
      · exact .inl hzero
      · exact .inr ⟨hlow, by change hint.prefer < s.start + s.size; omega⟩
    · rcases hl with ⟨hzero, -⟩ | ⟨hlow, -⟩
      · exact .inl hzero
      · exact .inr hlow
    · change hint.limitStart + hint.limitRangeSize ≤ s.start + s.size
      omega
  obtain ⟨⟨s1, e⟩, hinstall, hrest⟩ := Option.bind_eq_some_iff.1 hs
  dsimp only at hrest
  rcases vareaInstall_spec hspaced (Nat.le_of_lt hfuel) hin (hfine.sameBut hsame hv) hv (by rw [hget, hx]) hinstall with
    ⟨rfl, rfl⟩ | ⟨rfl, hsame', t', hspaced'⟩
  · exact hrefused hrest
  · rw [if_pos rfl] at hrest
    have hpost := hspaced'.postInstall attr hint.flags paOff
    have hsame'' := hsame'.trans (sameBut_postInstall attr hint.flags paOff)
    generalize s1.vareaPostInstall v attr hint.flags paOff = s2 at hrest hpost hsame''
    split at hrest
    · obtain ⟨s3, t'', hundo, hsame3, hkeys, hspaced3⟩ := hspaced.undo hsame'' hv hpost hfuel
      rw [hundo] at hrest
      cases hrest
      refine ⟨⟨t'', hspaced3⟩, hsame3.start, hsame3.size, fun _ => ⟨hsame3.mapped, ?_, t'', hkeys, hspaced3⟩⟩
      exact fun w hw => hsame3.eq_of_mem hv hw
    · cases hrest
      exact Outcome.answer ⟨hsame'', .inl ⟨rfl, t', hpost⟩⟩ hv

/-! ## Unmapping -/

section

variable (h : Spaced c s t)

include h

/-- Two vareas that hold an address are one. -/
theorem Spaced.holds_unique (hv : v ∈ s.mapped) (hw : w ∈ s.mapped) (hva : Holds s v addr)
    (hwa : Holds s w addr) : w = v :=
  h.lined.holds_unique (h.mem_iff.1 hv) (h.mem_iff.1 hw) hva hwa

/-- `rt_aspace_unmap` refuses an address, removes the varea that holds it, or dereferences `NULL`. -/
theorem rtAspaceUnmap_spec (hfuel : s.mapped.length ≤ fuel) (addr : Nat) :
    notInRange c addr 1 s.start s.size = true ∧ s.rtAspaceUnmap c fuel addr = some (s, ⟨.einval, 0⟩) ∨
    notInRange c addr 1 s.start s.size = false ∧
      ((∃ v ∈ s.mapped, Holds s v addr ∧ ∃ tree t', t'.keys = t.keys.erase v ∧
          Spaced c { s with tree := tree, mapped := s.mapped.erase v } t' ∧
          s.rtAspaceUnmap c fuel addr = some ({ s with tree := tree, mapped := s.mapped.erase v }, ⟨.eok, 0⟩)) ∨
        (∀ v ∈ s.mapped, ¬ Holds s v addr) ∧ s.rtAspaceUnmap c fuel addr = none) := by
  rw [rtAspaceUnmap]
  cases hrange : notInRange c addr 1 s.start s.size with
  | true =>
    left
    exact ⟨rfl, if_pos rfl⟩
  | false =>
    right
    refine ⟨rfl, ?_⟩
    rw [if_neg Bool.false_ne_true, aspaceUnmap, bstSearch]
    rcases h.lined.overlap (h.length_le hfuel) ⟨addr, addr⟩ with ⟨v, hv, hsome, hcmp⟩ | ⟨hnone, hother⟩
    · left
      have hv' := h.mem_iff.2 hv
      obtain ⟨tree, t', hremove, hkeys, hspaced⟩ := h.remove hfuel hv'
      refine ⟨v, hv', (h.lined.compareOverlap_self hv addr).1 hcmp, tree, t', hkeys, hspaced, ?_⟩
      rw [hsome]
      simp only [vareaUninstall, bstRemove, hremove, Option.bind_eq_bind, Option.bind_some]
    · right
      refine ⟨?_, ?_⟩
      · intro v hv hholds
        have hk := h.mem_iff.1 hv
        exact hother v hk ((h.lined.compareOverlap_self hk addr).2 hholds)
      · rw [hnone]
        rfl

/-- An address that is refused is in no varea. -/
theorem Spaced.not_holds (hpos : 0 < s.start) (haddr : addr < 2 ^ c.bits)
    (hrange : notInRange c addr 1 s.start s.size = true) (hv : v ∈ s.mapped) : ¬ Holds s v addr := by
  rintro ⟨hlow, hhigh⟩
  have hk := h.mem_iff.1 hv
  obtain ⟨hin, hin'⟩ := h.inside v hk
  rw [notInRange, if_pos (by omega)] at hrange
  simp only [Bool.or_eq_true, decide_eq_true_eq, gt_iff_lt] at hrange
  rw [Nat.mod_eq_of_lt (by omega), sub_eq (by omega) haddr, Nat.mod_eq_of_lt (by omega)] at hrange
  omega

/-- The address is refused, or it is in a varea. -/
theorem unmapAtomic_iff (hpos : 0 < s.start) (hfuel : s.mapped.length ≤ fuel) (haddr : addr < 2 ^ c.bits) :
    UnmapAtomic c fuel s addr ↔ notInRange c addr 1 s.start s.size = true ∨ ∃ v ∈ s.mapped, Holds s v addr := by
  rcases rtAspaceUnmap_spec h hfuel addr with ⟨hrange, heq⟩ |
    ⟨hrange, ⟨v, hv, hholds, tree, t', hkeys, hspaced, heq⟩ | ⟨hnot, heq⟩⟩
  · constructor
    · intro _
      exact .inl hrange
    · intro _
      exact ⟨s, _, heq, .inr ⟨fun v hv => h.not_holds hpos haddr hrange hv, rfl⟩⟩
  · constructor
    · intro _
      exact .inr ⟨v, hv, hholds⟩
    · intro _
      have hroot : s.tree.rootNode = t.root := h.forest.tree.above
      have hroot' : tree.rootNode = t'.root := hspaced.forest.tree.above
      refine ⟨_, _, heq, .inl ⟨v, hv, hholds, fun w hw hwa => h.holds_unique hv hw hholds hwa, rfl, fun _ _ => rfl, t.keys, ?_, ?_⟩⟩
      · rw [hroot]
        exact inOrder_of_linked h.forest.tree.below
      · dsimp only
        rw [hroot', ← hkeys]
        exact inOrder_of_linked hspaced.forest.tree.below
  · constructor
    · rintro ⟨s', r, hsome, -⟩
      rw [heq] at hsome
      cases hsome
    · rintro (htrue | ⟨v, hv, hholds⟩)
      · rw [hrange] at htrue
        cases htrue
      · exact absurd hholds (hnot v hv)

/-! ## Runs -/

theorem call_spec (hpos : 0 < s.start) (hfuel : s.mapped.length < fuel) (htyped : Typed c s e)
    (hcare : Careful c s e) (hs : s.call c fuel mmu e = some (s', r)) : Answer c s t s' r := by
  have hrefused {x : Result} (hret : some (s, x) = some (s', r)) : Answer c s t s' r := by
    cases hret
    exact .refl h
  cases e with
  | map addr length attr flags mem offset v =>
    obtain ⟨haddr, -, hnew⟩ := htyped
    cases addr with
    | none => cases hs
    | some addr =>
      cases mem with
      | none => exact hrefused hs
      | some mem =>
        simp only [call, rtAspaceMap] at hs
        split at hs
        · exact hrefused hs
        rename_i hlength
        split at hs
        · exact hrefused hs
        rename_i hrange
        split at hs
        · exact hrefused hs
        rename_i hflags
        rw [Bool.not_eq_true] at hrange hflags
        cases v with
        | none => exact hrefused hs
        | some v =>
          obtain ⟨⟨s1, err⟩, hmap, hrest⟩ := Option.bind_eq_some_iff.1 hs
          cases hrest
          exact map_spec h hpos hfuel (hnew v rfl) (haddr addr rfl) hlength hrange (hcare ⟨hlength, hrange, hflags⟩) ⟨rfl, rfl⟩ hmap
  | mapStatic v addr length attr flags mem offset =>
    obtain ⟨haddr, -, hnew⟩ := htyped
    cases addr with
    | none => cases hs
    | some addr =>
      cases v with
      | none => exact hrefused hs
      | some v =>
        cases mem with
        | none => exact hrefused hs
        | some mem =>
          simp only [call, rtAspaceMapStatic] at hs
          split at hs
          · exact hrefused hs
          rename_i hrange
          split at hs
          · exact hrefused hs
          rename_i hflags
          obtain ⟨hlength, hrange⟩ := not_or.1 hrange
          rw [Bool.not_eq_true] at hrange hflags
          obtain ⟨⟨s1, err⟩, hmap, hrest⟩ := Option.bind_eq_some_iff.1 hs
          cases hrest
          exact map_spec h hpos hfuel (hnew v rfl) (haddr addr rfl) hlength hrange (hcare ⟨hlength, hrange, hflags⟩) ⟨rfl, rfl⟩ hmap
  | mapPhy hint attr paOff v =>
    obtain ⟨hwords, hnew⟩ := htyped
    cases hint with
    | none => exact hrefused hs
    | some hint =>
      cases v with
      | none => exact hrefused hs
      | some v =>
        obtain ⟨hprefer, -, hlimit, -⟩ := hwords hint rfl
        exact mapPhy_spec h hpos hfuel (hnew v rfl) hprefer hlimit hcare rfl hs
  | unmap addr =>
    change s.rtAspaceUnmap c fuel addr = _ at hs
    rcases rtAspaceUnmap_spec h (Nat.le_of_lt hfuel) addr with ⟨-, heq⟩ |
      ⟨-, ⟨v, -, -, tree, t', -, hspaced, heq⟩ | ⟨-, heq⟩⟩
    · rw [heq] at hs
      exact hrefused hs
    · rw [heq] at hs
      cases hs
      exact ⟨⟨t', hspaced⟩, rfl, rfl, fun habs => absurd rfl habs⟩
    · rw [heq] at hs
      cases hs

end

/-- The address space keeps its range, and its vareas apart. -/
theorem spaced_run (hpos : 0 < start) (hfits : start + size ≤ 2 ^ c.bits)
    (hr : Run (CarefulStep c) (create start size) ls s) : s.start = start ∧ s.size = size ∧ ∃ t, Spaced c s t := by
  refine hr.invariant (I := fun s => s.start = start ∧ s.size = size ∧ ∃ t, Spaced c s t) ⟨rfl, rfl, .nil, ?_⟩ ?_
  · refine spaced_of_sorted ⟨⟨trivial, rfl, List.nodup_nil⟩, trivial, .nil, .nil⟩ ?_ ?_ ?_ hfits
    · intro v hv
      cases hv
    · intro v hv
      cases hv
    · intro v hv
      cases hv
  · rintro s x s' ⟨hstart, hsize, t, h⟩ ⟨⟨fuel, hfuel, htyped, hs⟩, hcare⟩
    have hanswer := call_spec h (by rw [hstart]; exact hpos) hfuel htyped hcare hs
    exact ⟨hanswer.start.trans hstart, hanswer.size.trans hsize, hanswer.spaced⟩

/-- In every run of calls that round no address too far, the vareas are apart, in the space, and those of the tree. -/
theorem aspace_vareas {start size : Nat} {ls : List ((Mmu × Call) × Result)} (hpos : 0 < start)
    (hfits : start + size ≤ 2 ^ c.bits) (hr : Run (CarefulStep c) (create start size) ls s) : WellPlaced s := by
  obtain ⟨-, -, t, h⟩ := spaced_run hpos hfits hr
  exact h.wellPlaced

/-- Then `rt_aspace_unmap` is atomic exactly for the addresses that are refused or mapped, and a call that fails changes
nothing. -/
theorem aspace_atomic {start size : Nat} {ls : List ((Mmu × Call) × Result)} (hpos : 0 < start)
    (hfits : start + size ≤ 2 ^ c.bits) (hr : Run (CarefulStep c) (create start size) ls s) :
    (∀ fuel addr, s.mapped.length ≤ fuel → addr < 2 ^ c.bits →
      (UnmapAtomic c fuel s addr ↔ notInRange c addr 1 s.start s.size = true ∨ ∃ v ∈ s.mapped, Holds s v addr)) ∧
    ∀ x s', CarefulStep c s x s' → x.2.err ≠ .eok → Unchanged s s' := by
  obtain ⟨hstart, -, t, h⟩ := spaced_run hpos hfits hr
  have hstart : 0 < s.start := by rw [hstart]; exact hpos
  constructor
  · intro fuel addr hfuel haddr
    exact unmapAtomic_iff h hstart hfuel haddr
  · rintro x s' ⟨⟨fuel, hfuel, htyped, hs⟩, hcare⟩ hne
    obtain ⟨hmapped, hvarea, t', hkeys, h'⟩ := (call_spec h hstart hfuel htyped hcare hs).failed hne
    refine ⟨hmapped, hvarea, t.keys, ?_, ?_⟩
    · have hroot : s.tree.rootNode = t.root := h.forest.tree.above
      rw [hroot]
      exact inOrder_of_linked h.forest.tree.below
    · have hroot : s'.tree.rootNode = t'.root := h'.forest.tree.above
      rw [hroot, ← hkeys]
      exact inOrder_of_linked h'.forest.tree.below

/-! ## Calls without an alignment -/

/-- Nothing is rounded without an alignment: a call passes if no varea is too far above the start of the space. -/
theorem Spaced.fine_of_unaligned (h : Spaced c s t) (hflags : MmFlag.test flags MmFlag.requestAlign = false)
    (hmem : mem.hintFree = none) (hnear : ∀ w ∈ s.mapped, (s.varea w).start < s.start + (2 ^ (c.bits - 1) - 1))
    (hsize : 0 < s.size) (hlength : 0 < length) (haddr : addr = 0 ∨ s.start ≤ addr ∧ addr + length ≤ s.start + s.size) :
    MapCareful c s addr length flags mem := by
  have hfits := h.fits
  have hhint : s.mapHint addr length flags mem = ⟨s.start, s.size, addr, length, flags⟩ := by
    rw [mapHint, hmem]
  have hone : alignOf flags = 1 := by
    rw [alignOf, MmFlag.alignSize, hflags]
    rfl
  have hstart : align c s.start (alignOf flags) = s.start := by
    rw [hone, align_one (by omega)]
  have habove : ∀ w ∈ s.mapped, s.start ≤ (s.varea w).start := fun w hw => (h.inside w (h.mem_iff.1 hw)).1
  refine ⟨?_, fun hne => absurd hmem hne⟩
  rw [hhint]
  constructor
  · intro hprefer _
    right
    obtain ⟨hlow, hhigh⟩ := haddr.resolve_left hprefer
    change align c addr (alignOf flags) + length ≤ _
    rw [hone, align_one (by omega)]
    exact hhigh
  · intro _ v hv w hw hlt
    have hv' := h.mem_iff.1 hv
    have hw' := h.mem_iff.1 hw
    have hwlt := h.lined.start_lt hw'
    rw [hone]
    rcases nextOf_cases (h.finish_le hv') with ⟨heq, hlt'⟩ | ⟨heq, -⟩
    · rw [heq, align_one hlt']
      rcases h.lined.ordered hv' hw' (by rintro rfl; omega) with hle | hle <;> omega
    · rw [heq, align_one (Nat.two_pow_pos _)]
      exact Nat.zero_le _
  · intro _
    refine ⟨hnear, ?_, ?_, ?_⟩
    · intro w hw _
      rw [hstart]
      exact habove w hw
    · intro hbelow w hw
      exact absurd (habove w hw) (Nat.not_le.2 (hbelow w hw))
    · intro hbelow
      rw [hstart]
      refine ⟨Nat.le_add_right _ _, ?_⟩
      rintro ⟨w, hw, -⟩
      exact absurd (habove w hw) (Nat.not_le.2 (hbelow w hw))

/-- A map call without an alignment and without a hint of its own, or `rt_aspace_unmap`. -/
def Unaligned : Call → Prop
  | .map _ _ _ flags mem _ _ => MmFlag.test flags MmFlag.requestAlign = false ∧ ∀ m ∈ mem, m.hintFree = none
  | .unmap _ => True
  | _ => False

/-- In a space of less than half of the addresses nothing is too far away. -/
theorem Spaced.careful (h : Spaced c s t) (hpos : 0 < s.start) (hhalf : s.size < 2 ^ (c.bits - 1))
    (htyped : Typed c s e) (he : Unaligned e) : Careful c s e := by
  cases e with
  | map addr length attr flags mem offset v =>
    cases addr with
    | none => trivial
    | some addr =>
      cases mem with
      | none => trivial
      | some mem =>
        rintro ⟨hlength, hrange, -⟩
        have hin := in_of_notInRange hpos (htyped.1 addr rfl) hrange
        refine h.fine_of_unaligned he.1 (he.2 mem rfl) ?_ (by omega) (Nat.pos_of_ne_zero hlength) ?_
        · intro w hw
          have hw' := h.mem_iff.1 hw
          have hlt := h.lined.start_lt hw'
          have hle := (h.inside w hw').2
          omega
        · rcases hin with ⟨hzero, -⟩ | hin
          · exact .inl hzero
          · exact .inr hin
  | mapStatic => exact he.elim
  | mapPhy => exact he.elim
  | unmap => trivial

/-- Every run of such calls is careful. -/
theorem careful_run (hpos : 0 < start) (hfits : start + size ≤ 2 ^ c.bits)
    (hhalf : size < 2 ^ (c.bits - 1)) (hr : Run (fun s x s' => Step c s x s' ∧ Unaligned x.1.2) (create start size) ls s) :
    Run (CarefulStep c) (create start size) ls s := by
  induction hr with
  | nil => exact .nil
  | snoc _ hs ih =>
    obtain ⟨hstart, hsize, t, h⟩ := spaced_run hpos hfits ih
    obtain ⟨⟨fuel, hfuel, htyped, hcall⟩, hun⟩ := hs
    have hcare := h.careful (by rw [hstart]; exact hpos) (by rw [hsize]; exact hhalf) htyped hun
    exact .snoc ih ⟨⟨fuel, hfuel, htyped, hcall⟩, hcare⟩

/-! ## Runs of some calls -/

instance {e : Call} : Decidable (Typed c s e) :=
  match e with
  | .map addr length _ _ _ _ v => inferInstanceAs (Decidable ((∀ a ∈ addr, a < 2 ^ c.bits) ∧ length < 2 ^ c.bits ∧ ∀ i ∈ v, i ∉ s.mapped))
  | .mapStatic v addr length _ _ _ _ => inferInstanceAs (Decidable ((∀ a ∈ addr, a < 2 ^ c.bits) ∧ length < 2 ^ c.bits ∧ ∀ i ∈ v, i ∉ s.mapped))
  | .mapPhy hint _ _ v => inferInstanceAs (Decidable ((∀ h ∈ hint, h.prefer < 2 ^ c.bits ∧ h.mapSize < 2 ^ c.bits ∧
      h.limitStart < 2 ^ c.bits ∧ h.limitRangeSize < 2 ^ c.bits) ∧ ∀ i ∈ v, i ∉ s.mapped))
  | .unmap addr => inferInstanceAs (Decidable (addr < 2 ^ c.bits))

/-- A call, with fuel for 20 vareas. -/
def callTyped (c : AspaceConfig) (s : RtAspace) (x : Mmu × Call) : Option (RtAspace × Result) :=
  if s.mapped.length < 20 ∧ Typed c s x.2 then s.call c 20 x.1 x.2 else none

theorem step_of_callTyped {x : Mmu × Call} (h : callTyped c s x = some (s', r)) : Step c s (x, r) s' := by
  rw [callTyped] at h
  split at h
  · rename_i hcheck
    exact ⟨20, hcheck.1, hcheck.2, h⟩
  · cases h

def testAspace : AspaceConfig := ⟨32, 12, by decide⟩

def testMmu : Mmu := ⟨fun _ _ _ _ => true, fun _ => true, 0⟩

/-- Every page is given. -/
def testMem : RtMemObj := ⟨none, fun _ vaddr => ⟨vaddr, 4096, .ok⟩⟩

def mapCall (addr length flags v : Nat) : Mmu × Call := (testMmu, .map (some addr) length 0 flags (some testMem) 0 (some v))

/-- Two vareas are mapped, and one is unmapped. -/
def threeCalls : List (Mmu × Call) := [mapCall 0 0x1000 0 1, mapCall 0x5000 0x2000 MmFlag.mapFixed 2, (testMmu, .unmap 0x1000)]

theorem threeCalls_run : ∃ ls s, Run (CarefulStep testAspace) (create 0x1000 0x20000) ls s ∧ s.mapped = [2] := by
  have hexec : (exec (callTyped testAspace) (create 0x1000 0x20000) threeCalls).any (fun y => decide (y.1.mapped = [2])) = true := by
    decide
  obtain ⟨⟨s, ls⟩, hs, hmapped⟩ := (Option.any_eq_true _ _).1 hexec
  have hunaligned : ∀ x ∈ threeCalls, Unaligned x.2 := by
    simp [threeCalls, mapCall, Unaligned, testMem, MmFlag.test, MmFlag.mapFixed, MmFlag.requestAlign]
  have hr : Run (fun s x s' => Step testAspace s x s' ∧ Unaligned x.1.2) (create 0x1000 0x20000) ls s :=
    .of_exec (fun s e s' r h (he : Unaligned e.2) => ⟨step_of_callTyped h, he⟩) hs hunaligned
  exact ⟨ls, s, careful_run (by decide) (by decide) (by decide) hr, of_decide_eq_true hmapped⟩

theorem aspace_vareas_three : ∃ s, WellPlaced s ∧ s.mapped = [2] := by
  obtain ⟨ls, s, hr, hs⟩ := threeCalls_run
  exact ⟨s, aspace_vareas (by decide) (by decide) hr, hs⟩

theorem aspace_atomic_three : ∃ s, s.mapped = [2] ∧ (UnmapAtomic testAspace 1 s 0x5000 ↔
    notInRange testAspace 0x5000 1 s.start s.size = true ∨ ∃ v ∈ s.mapped, Holds s v 0x5000) ∧
    ∀ x s', CarefulStep testAspace s x s' → x.2.err ≠ .eok → Unchanged s s' := by
  obtain ⟨ls, s, hr, hs⟩ := threeCalls_run
  obtain ⟨hunmap, hfailed⟩ := aspace_atomic (by decide) (by decide) hr
  exact ⟨s, hs, hunmap 1 0x5000 (by rw [hs]; decide) (by decide), hfailed⟩

/-- The end of a varea is rounded up to the start of another one, behind the one after it. -/
def roundedCalls : List (Mmu × Call) := [mapCall 0x1000 0x1000 MmFlag.mapFixed 1, mapCall 0x10000 0x1000 MmFlag.mapFixed 2,
  mapCall 0 0x1000 (MmFlag.requestAlign + 16) 3]

theorem aspace_overlap : ∃ ls s, Run (Step testAspace) (create 0x1000 0x20000) ls s ∧ ¬ WellPlaced s := by
  have hexec : (exec (callTyped testAspace) (create 0x1000 0x20000) roundedCalls).any (fun y => decide (y.1.mapped = [3, 2, 1] ∧
      (y.1.varea 2).start = 0x10000 ∧ (y.1.varea 3).start = 0x10000 ∧ 0 < (y.1.varea 2).size ∧ 0 < (y.1.varea 3).size)) =
      true := by
    decide
  obtain ⟨⟨s, ls⟩, hs, hdec⟩ := (Option.any_eq_true _ _).1 hexec
  obtain ⟨hmapped, h2, h3, h2', h3'⟩ := of_decide_eq_true hdec
  refine ⟨ls, s, .of_exec (fun _ _ _ _ h (_ : True) => step_of_callTyped h) hs fun _ _ => trivial, ?_⟩
  intro h
  dsimp only at hmapped h2 h3 h2' h3'
  have hdisjoint := h.disjoint 2 (by rw [hmapped]; decide) 3 (by rw [hmapped]; decide) (by decide)
  rw [finish, finish] at hdisjoint
  omega

/-- An address that is not mapped: `NULL` is dereferenced. -/
theorem unmap_missing : (create 0x1000 0x20000).rtAspaceUnmap testAspace 20 0x2000 = none ∧
    ¬ UnmapAtomic testAspace 20 (create 0x1000 0x20000) 0x2000 := by
  have hnone : (create 0x1000 0x20000).rtAspaceUnmap testAspace 20 0x2000 = none := by
    decide
  refine ⟨hnone, ?_⟩
  rintro ⟨s', r, hsome, -⟩
  rw [hnone] at hsome
  cases hsome

end RtThread.RtAspace
