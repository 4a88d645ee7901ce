import RtThread.Lib.Runs
import RtThread.Lwp.ShmRegistry

/-!
# Runs on the registry of shared memory

- what each call does to the registry (`get_spec`, `rm_spec`, `at_spec`, `dt_spec`);
- every run keeps it (`lwp_shm_run`).
-/

namespace RtThread.LwpShm

open LwpAvl (Tree Apart SameEntry insert_pair remove_pair)

variable {c : ShmConfig} {s s' : LwpShm} {tk tp : HeightTree Nat} {free : List Nat} {fuel i m key size : Nat} {id : Int}
  {create : Bool} {pageAddr nodeKey : Option Nat}

/-- The items of the segments. -/
def live (s : LwpShm) : List Nat := s.blocks.map s.slot

/-- What the allocators give, if they do: a block of pages, and one of nodes, that are not in use. -/
structure Fresh (c : ShmConfig) (s : LwpShm) (size : Nat) (pageAddr nodeKey : Option Nat) : Prop where
  page : ∀ addr ∈ pageAddr, PageBlock c (addr, rtPageBits c size) ∧ ∀ b ∈ s.pages, Disjoint c (addr, rtPageBits c size) b
  node : ∀ m ∈ nodeKey, Apart (m :: s.blocks)

namespace Inv

/-! ## Get -/

variable {free' : List Nat} {head : Int} {used : Nat}

/-- A slot that has been taken and written is put back. -/
theorem undo (h : Inv c s tk tp free) (ary : Nat → LwpShmStruct)
    (halloc : (s.shmIdAlloc c).1 = i) (hary : ∀ j, j ≠ i → ary j = s.shmAry j)
    (hslots : Slots c { s with shmFreeList := head, shmIdUsed := used } free' (i :: s.live)) :
    Unseen c s (shmIdFree c { s with shmFreeList := head, shmIdUsed := used, shmAry := ary } i) ∧
      Inv c (shmIdFree c { s with shmFreeList := head, shmIdUsed := used, shmAry := ary } i) tk tp (i :: free') := by
  have hi : i ∉ s.live := (List.nodup_cons.1 (List.nodup_append.1 hslots.arena.nodup).2.1).1
  have hslots' : Slots c { s with shmFreeList := head, shmIdUsed := used, shmAry := ary } free' (i :: s.live) := by
    refine hslots.congr rfl rfl fun j hj => ?_
    have hne : j ≠ i := fun e => hslots.arena.not_free List.mem_cons_self (e ▸ hj)
    exact congrArg LwpShmStruct.addr (hary j hne)
  have hrelease := hslots'.release List.mem_cons_self
  rw [List.erase_cons_head] at hrelease
  have hunseen : Unseen c s (shmIdFree c { s with shmFreeList := head, shmIdUsed := used, shmAry := ary } i) := by
    refine ⟨rfl, rfl, rfl, rfl, rfl, rfl, fun j hj => ?_, ?_⟩
    · have hne : j ≠ i := fun e => hi (e ▸ hj)
      simpa [shmIdFree, setItem, hne] using hary j hne
    · have hpos : (i : Int) ≠ -1 := by omega
      rw [halloc, shmIdAlloc]
      simp [shmIdFree, hpos]
  exact ⟨hunseen, h.of_unseen hunseen hrelease⟩

/-- What a call of `lwp_shmget` that creates a segment leaves. -/
structure Created (c : ShmConfig) (s s' : LwpShm) (i key size addr : Nat) : Prop where
  new : i ∉ s.live
  live : s'.live = i :: s.live
  item : s'.shmAry i = ⟨addr, 2 ^ (rtPageBits c size + c.pageShift), 0, key⟩
  other : ∀ j, j ≠ i → s'.shmAry j = s.shmAry j
  pages : s'.pages = (addr, rtPageBits c size) :: s.pages
  vareas : s'.vareas = s.vareas

/-- The nodes of the new segment are inserted. -/
theorem create_spec (h : Inv c s tk tp free) {addr : Nat}
    (hslots : Slots c { s with shmFreeList := head, shmIdUsed := used } free' (i :: s.live))
    (hkey : ∀ j ∈ s.live, (s.shmAry j).key ≠ key) (hpage : PageBlock c (addr, rtPageBits c size))
    (hdisj : ∀ b ∈ s.pages, Disjoint c (addr, rtPageBits c size) b) (hapart : Apart (m :: s.blocks)) :
    (∃ avl avl', (((⟨s.shmTreeKey, s.node⟩ : LwpAvl).setKey m key).setData m i).lwpAvlInsert m = some avl ∧
      (((⟨s.shmTreePa, avl.node⟩ : LwpAvl).setKey (m + 1) addr).setData (m + 1) i).lwpAvlInsert (m + 1) = some avl' ∧
      ∃ s' tk' tp', s' = ⟨avl'.node, avl.ptree, avl'.ptree, head, used, Function.update s.shmAry i
          ⟨addr, 1 <<< (rtPageBits c size + c.pageShift) % 2 ^ c.sizeBits, 0, key⟩,
          (addr, rtPageBits c size) :: s.pages, m :: s.blocks, s.vareas⟩ ∧
        Created c s s' i key size addr ∧ Inv c s' tk' tp' free') ∨
    2 ^ 20 ≤ s.blocks.length ∧ ((((⟨s.shmTreeKey, s.node⟩ : LwpAvl).setKey m key).setData m i).lwpAvlInsert m = none ∨
      ∃ avl, (((⟨s.shmTreeKey, s.node⟩ : LwpAvl).setKey m key).setData m i).lwpAvlInsert m = some avl ∧
        (((⟨s.shmTreePa, avl.node⟩ : LwpAvl).setKey (m + 1) addr).setData (m + 1) i).lwpAvlInsert (m + 1) = none) := by
  have hi : i ∉ s.live := (List.nodup_cons.1 (List.nodup_append.1 hslots.arena.nodup).2.1).1
  have hm : m ∉ s.blocks := (List.nodup_cons.1 (List.nodup_append.1 hapart).1).1
  have hmem : ∀ b ∈ s.blocks, s.slot b ∈ s.live := fun b hb => List.mem_map_of_mem hb
  have hpagemem : ∀ b ∈ s.blocks, s.pagesOf c (s.slot b) ∈ s.pages := fun b hb =>
    h.pages.mem_iff.2 (List.mem_map_of_mem (f := fun m => s.pagesOf c (s.slot m)) hb)
  have hk : ∀ b ∈ s.blocks, (s.node b).avlKey ≠ key := by
    intro b hb
    rw [(h.entry b hb).key]
    exact hkey _ (hmem b hb)
  have ha : ∀ b ∈ s.blocks, (s.node (b + 1)).avlKey ≠ addr := by
    intro b hb
    rw [(h.entry b hb).addr]
    exact (hdisj _ (hpagemem b hb)).symm.ne
  rcases insert_pair h.treeKey h.treePa hapart hk ha (some i) with
    ⟨avl, avl', tk', tp', hr, hr', hkt, hpt, hnew, hnewPa, hsame⟩ | hfull
  · refine .inl ⟨avl, avl', hr, hr', _, tk', tp', rfl, ?_⟩
    have hsize : 1 <<< (rtPageBits c size + c.pageShift) % 2 ^ c.sizeBits = 2 ^ (rtPageBits c size + c.pageShift) := by
      rw [Nat.shiftLeft_eq, Nat.one_mul]
      refine Nat.mod_eq_of_lt ?_
      have hpos := hpage.pos
      have hle := hpage.le
      dsimp only at hpos hle
      omega
    rw [hsize]
    let s' : LwpShm := ⟨avl'.node, avl.ptree, avl'.ptree, head, used, Function.update s.shmAry i
      ⟨addr, 2 ^ (rtPageBits c size + c.pageShift), 0, key⟩, (addr, rtPageBits c size) :: s.pages, m :: s.blocks, s.vareas⟩
    have hother : ∀ j, j ≠ i → s'.shmAry j = s.shmAry j := fun j hj => Function.update_of_ne hj _ _
    have hself : s'.shmAry i = ⟨addr, 2 ^ (rtPageBits c size + c.pageShift), 0, key⟩ := Function.update_self _ _ _
    have hslot : s'.slot m = i := by
      show ((avl'.node m).data).getD 0 = i
      rw [hnew.2]
      rfl
    -- a node of another segment is neither of the new ones
    have hentry : ∀ b ∈ s.blocks, SameEntry (s.node b) (avl'.node b) ∧ SameEntry (s.node (b + 1)) (avl'.node (b + 1)) := by
      intro b hb
      have hb' : b ∈ m :: s.blocks := List.mem_cons_of_mem _ hb
      have hbm : b ≠ m := ne_of_mem_of_not_mem hb hm
      exact ⟨hsame b hbm (hapart.ne hb' List.mem_cons_self),
        hsame (b + 1) (hapart.ne List.mem_cons_self hb').symm fun e => hbm (Nat.succ.inj e)⟩
    have hslotb : ∀ b ∈ s.blocks, s'.slot b = s.slot b := by
      intro b hb
      show ((avl'.node b).data).getD 0 = _
      rw [(hentry b hb).1.data]
      rfl
    have hne : ∀ b ∈ s.blocks, s.slot b ≠ i := fun b hb => ne_of_mem_of_not_mem (hmem b hb) hi
    have hlive : s'.live = i :: s.live := by
      show (m :: s.blocks).map s'.slot = _
      rw [List.map_cons, hslot, List.map_congr_left hslotb]
      rfl
    have hslots' : Slots c s' free' (i :: s.live) := by
      refine hslots.congr rfl rfl fun j hj => ?_
      exact congrArg LwpShmStruct.addr (hother j fun e => hslots.arena.not_free List.mem_cons_self (e ▸ hj))
    have hpagesOf : s'.pagesOf c i = (addr, rtPageBits c size) := by
      rw [pagesOf, hself, rtPageBits_two_pow]
    refine ⟨⟨hi, hlive, hself, hother, rfl, rfl⟩, hkt, hpt, hapart, ?_, ?_, ?_, ?_, ?_, ?_⟩
    · show Slots c s' free' s'.live
      rw [hlive]
      exact hslots'
    · intro b hb
      rcases List.mem_cons.1 hb with rfl | hb
      · refine ⟨?_, ?_, ?_, ?_, ?_, ?_⟩
        · rw [hslot]
          exact hnew.2
        · rw [hslot]
          exact hnewPa.2
        · rw [hslot, hself]
          exact hnew.1
        · rw [hslot, hself]
          exact hnewPa.1
        · rw [hslot, hself]
          exact ⟨_, rfl⟩
        · have hcount : s'.vareas.count i = 0 := List.count_eq_zero.2 fun hmem => hi (h.vareas i hmem)
          rw [hslot, hself, hcount]
          rfl
      · obtain ⟨h1, h2⟩ := hentry b hb
        have he := h.entry b hb
        refine ⟨?_, ?_, ?_, ?_, ?_, ?_⟩
        · rw [hslotb b hb]
          exact h1.data.trans he.data
        · rw [hslotb b hb]
          exact h2.data.trans he.dataPa
        · rw [hslotb b hb, hother _ (hne b hb)]
          exact h1.key.trans he.key
        · rw [hslotb b hb, hother _ (hne b hb)]
          exact h2.key.trans he.addr
        · rw [hslotb b hb, hother _ (hne b hb)]
          exact he.size
        · rw [hslotb b hb, hother _ (hne b hb)]
          exact he.ref
    · have hmap : s.blocks.map (fun b => s'.pagesOf c (s'.slot b)) = s.blocks.map fun b => s.pagesOf c (s.slot b) := by
        refine List.map_congr_left fun b hb => ?_
        rw [hslotb b hb, pagesOf, pagesOf, hother _ (hne b hb)]
      rw [List.map_cons, hslot, hpagesOf, hmap]
      exact .cons _ h.pages
    · intro b hb
      rcases List.mem_cons.1 hb with rfl | hb
      · exact hpage
      · exact h.block b hb
    · exact List.pairwise_cons.2 ⟨hdisj, h.disjoint⟩
    · intro j hj
      have hmem' : j ∈ s'.live := by
        rw [hlive]
        exact List.mem_cons_of_mem _ (h.vareas j hj)
      exact hmem'
  · exact .inr hfull

/-- `lwp_shmget` finds the segment with the key; or it makes one; or it fails and nothing can be seen of it. -/
theorem get_spec (h : Inv c s tk tp free) (hfuel : c.maxNr ≤ fuel) (key : Nat) (create : Bool)
    (hfresh : Fresh c s size pageAddr nodeKey) :
    (∃ i ∈ s.live, (s.shmAry i).key = key ∧ lwpShmget c fuel s key size create pageAddr nodeKey = some ((i : Int), s)) ∨
    (∀ j ∈ s.live, (s.shmAry j).key ≠ key) ∧
      ((∃ s' free', lwpShmget c fuel s key size create pageAddr nodeKey = some (-1, s') ∧ Unseen c s s' ∧
          (create = false ∨ size = 0 ∨ s.live.length = c.maxNr ∨ pageAddr = none ∨ nodeKey = none) ∧
          Inv c s' tk tp free') ∨
        (∃ (i : Nat) (s' : LwpShm) (addr : Nat) (tk' tp' : HeightTree Nat) (free' : List Nat),
          lwpShmget c fuel s key size create pageAddr nodeKey = some ((i : Int), s') ∧
          create = true ∧ size ≠ 0 ∧ pageAddr = some addr ∧ nodeKey ≠ none ∧ Created c s s' i key size addr ∧
          Inv c s' tk' tp' free') ∨
        2 ^ 20 ≤ s.blocks.length ∧ lwpShmget c fuel s key size create pageAddr nodeKey = none) := by
  unfold lwpShmget
  have hfind := h.treeKey.find_cases (h.length_le hfuel) key
  rw [show s.keyTree.ptree = s.shmTreeKey from rfl] at hfind
  rcases hfind with ⟨m, hm, hfind, hkey⟩ | ⟨hfind, hne⟩
  · rw [hfind]
    have he := h.entry m hm
    refine .inl ⟨s.slot m, List.mem_map_of_mem hm, he.key.symm.trans hkey, ?_⟩
    dsimp only
    rw [he.data]
    rfl
  · rw [hfind]
    have hkey : ∀ j ∈ s.live, (s.shmAry j).key ≠ key := by
      intro j hj
      obtain ⟨m, hm, rfl⟩ := List.mem_map.1 hj
      rw [← (h.entry m hm).key]
      exact hne m hm
    refine .inr ⟨hkey, ?_⟩
    have hnothing : s.getErr c (-1) none 0 = some (-1, s) := rfl
    cases create with
    | false => exact .inl ⟨s, free, rfl, .refl, .inl rfl, h⟩
    | true =>
      dsimp only
      rw [if_neg (show ¬ (!true) = true by decide)]
      by_cases hsize : size = 0
      · rw [if_pos hsize]
        exact .inl ⟨s, free, hnothing, .refl, .inr (.inl hsize), h⟩
      · rw [if_neg hsize]
        rcases h.slots.alloc with ⟨halloc, hfull⟩ | ⟨i, head, used, free', halloc, -, hslots⟩
        · rw [halloc]
          exact .inl ⟨s, free, hnothing, .refl, .inr (.inr (.inl hfull)), h⟩
        · rw [halloc]
          dsimp only
          have hpos : (i : Int) ≠ -1 := by omega
          have hfst : (s.shmIdAlloc c).1 = i := by rw [halloc]
          rw [if_neg hpos]
          cases pageAddr with
          | none =>
            obtain ⟨hunseen, hinv⟩ := h.undo s.shmAry hfst (fun _ _ => rfl) hslots
            refine .inl ⟨_, _, ?_, hunseen, .inr (.inr (.inr (.inl rfl))), hinv⟩
            rw [getErr, if_pos hpos, Int.toNat_natCast]
          | some addr =>
            obtain ⟨hpage, hdisj⟩ := hfresh.page addr rfl
            rw [Int.toNat_natCast]
            cases nodeKey with
            | none =>
              obtain ⟨hunseen, hinv⟩ := h.undo (Function.update s.shmAry i
                ⟨addr, 1 <<< (rtPageBits c size + c.pageShift) % 2 ^ c.sizeBits, 0, key⟩) hfst
                (fun j hj => Function.update_of_ne hj _ _) hslots
              refine .inl ⟨_, _, ?_, hunseen, .inr (.inr (.inr (.inr rfl))), hinv⟩
              dsimp only
              rw [getErr, if_pos hpos, Int.toNat_natCast]
              simp [rtPagesFree, shmIdFree, setItem]
            | some m =>
              right
              have hself : Function.update s.shmAry i
                  ⟨addr, 1 <<< (rtPageBits c size + c.pageShift) % 2 ^ c.sizeBits, 0, key⟩ i =
                  ⟨addr, 1 <<< (rtPageBits c size + c.pageShift) % 2 ^ c.sizeBits, 0, key⟩ := Function.update_self _ _ _
              dsimp only [setItem, keyTree, paTree, withKeyTree, withPaTree]
              rw [hself]
              rcases h.create_spec hslots hkey hpage hdisj (hfresh.node m rfl) with
                ⟨avl, avl', hr, hr', s', tk', tp', hs', hcreated, hinv⟩ | ⟨hlen, hnone⟩
              · left
                refine ⟨i, s', addr, tk', tp', free', ?_, rfl, hsize, rfl, Option.some_ne_none m, hcreated, hinv⟩
                rw [hr]
                dsimp only
                rw [hr', hs']
              · right
                refine ⟨hlen, ?_⟩
                rcases hnone with hnone | ⟨avl, hr, hnone⟩
                · rw [hnone]
                · rw [hr]
                  dsimp only
                  rw [hnone]

/-! ## Remove -/

/-- What a call of `lwp_shmrm` that removes a segment leaves. -/
structure Dropped (c : ShmConfig) (s s' : LwpShm) (i : Nat) : Prop where
  mem : i ∈ s.live
  live : s'.live.Perm (s.live.erase i)
  other : ∀ j, j ≠ i → s'.shmAry j = s.shmAry j
  pages : s'.pages = s.pages.erase (s.pagesOf c i)
  vareas : s'.vareas = s.vareas

theorem map_erase_perm {α : Type} [BEq α] [LawfulBEq α] (f : Nat → α) {xs : List Nat} (hm : m ∈ xs) :
    ((xs.erase m).map f).Perm ((xs.map f).erase (f m)) := by
  have hperm := ((List.perm_cons_erase hm).map f).erase (f m)
  rw [List.map_cons, List.erase_cons_head] at hperm
  exact hperm.symm

section

variable (h : Inv c s tk tp free)

include h

/-- The nodes of a segment without areas are removed, and its pages and its item are given back. -/
theorem drop_spec (hm : m ∈ s.blocks) (href : (s.shmAry (s.slot m)).ref = 0) :
    (∃ avl avl', (⟨s.shmTreeKey, s.node⟩ : LwpAvl).lwpAvlRemove m = some avl ∧
      (⟨s.shmTreePa, avl.node⟩ : LwpAvl).lwpAvlRemove (m + 1) = some avl' ∧
      ∃ s' tk' tp', s' = shmIdFree c ⟨avl'.node, avl.ptree, avl'.ptree, s.shmFreeList, s.shmIdUsed, s.shmAry,
          s.pages.erase (s.pagesOf c (s.slot m)), s.blocks.erase m, s.vareas⟩ (s.slot m) ∧
        Dropped c s s' (s.slot m) ∧ Inv c s' tk' tp' (s.slot m :: free)) ∨
    2 ^ 20 ≤ s.blocks.length ∧ ((⟨s.shmTreeKey, s.node⟩ : LwpAvl).lwpAvlRemove m = none ∨
      ∃ avl, (⟨s.shmTreeKey, s.node⟩ : LwpAvl).lwpAvlRemove m = some avl ∧
        (⟨s.shmTreePa, avl.node⟩ : LwpAvl).lwpAvlRemove (m + 1) = none) := by
  have hmem : s.slot m ∈ s.live := List.mem_map_of_mem hm
  have hnd : s.blocks.Nodup := (List.nodup_append.1 h.apart).1
  rcases remove_pair h.treeKey h.treePa h.apart hm with ⟨avl, avl', tk', tp', hr, hr', hkt, hpt, hsame⟩ | hfull
  · refine .inl ⟨avl, avl', hr, hr', _, tk', tp', rfl, ?_⟩
    let s' : LwpShm := shmIdFree c ⟨avl'.node, avl.ptree, avl'.ptree, s.shmFreeList, s.shmIdUsed, s.shmAry,
      s.pages.erase (s.pagesOf c (s.slot m)), s.blocks.erase m, s.vareas⟩ (s.slot m)
    have hslot : s'.slot = s.slot := by
      funext b
      show ((avl'.node b).data).getD 0 = _
      rw [(hsame b).data]
      rfl
    have hother : ∀ j, j ≠ s.slot m → s'.shmAry j = s.shmAry j := fun j hj => Function.update_of_ne hj _ _
    have hlive : s'.live.Perm (s.live.erase (s.slot m)) := by
      show ((s.blocks.erase m).map s'.slot).Perm _
      rw [hslot]
      exact map_erase_perm s.slot hm
    have hslots : Slots c s' (s.slot m :: free) (s.live.erase (s.slot m)) :=
      (h.slots.release hmem).congr rfl rfl fun _ _ => rfl
    have hne : ∀ b ∈ s.blocks.erase m, s.slot b ≠ s.slot m := fun b hb heq =>
      (hnd.mem_erase_iff.1 hb).1 (h.slot_inj (List.mem_of_mem_erase hb) hm heq)
    refine ⟨⟨hmem, hlive, hother, rfl, rfl⟩, hkt, hpt, ?_, hslots.perm hlive, ?_, ?_, ?_, ?_, ?_⟩
    · exact h.apart.sublist (List.erase_sublist.append (List.erase_sublist.map _))
    · intro b hb
      have he := h.entry b (List.mem_of_mem_erase hb)
      have hitem := hother _ (hne b hb)
      refine ⟨?_, ?_, ?_, ?_, ?_, ?_⟩
      · rw [hslot]
        exact (hsame b).data.trans he.data
      · rw [hslot]
        exact (hsame (b + 1)).data.trans he.dataPa
      · rw [hslot, hitem]
        exact (hsame b).key.trans he.key
      · rw [hslot, hitem]
        exact (hsame (b + 1)).key.trans he.addr
      · rw [hslot, hitem]
        exact he.size
      · rw [hslot, hitem]
        exact he.ref
    · have hmap : (s.blocks.erase m).map (fun b => s'.pagesOf c (s'.slot b)) =
          (s.blocks.erase m).map fun b => s.pagesOf c (s.slot b) := by
        refine List.map_congr_left fun b hb => ?_
        rw [hslot, pagesOf, pagesOf, hother _ (hne b hb)]
      show (s.pages.erase _).Perm ((s.blocks.erase m).map fun b => s'.pagesOf c (s'.slot b))
      rw [hmap]
      exact (h.pages.erase _).trans (map_erase_perm (fun b => s.pagesOf c (s.slot b)) hm).symm
    · exact fun b hb => h.block b (List.mem_of_mem_erase hb)
    · exact h.disjoint.sublist List.erase_sublist
    · intro j hj
      have hnone : s.slot m ∉ s.vareas := by
        have hcount := (h.entry m hm).ref
        rw [href] at hcount
        exact List.count_eq_zero.1 (Int.ofNat_inj.1 hcount.symm)
      have hjm : j ≠ s.slot m := ne_of_mem_of_not_mem hj hnone
      exact hlive.mem_iff.2 ((List.mem_erase_of_ne hjm).2 (h.vareas j hj))
  · exact .inr hfull

/-- `lwp_shmrm` refuses an identifier that is not live, leaves a segment that has areas, and removes one that has none. -/
theorem rm_spec (hfuel : c.maxNr ≤ fuel) (id : Int) :
    (lwpShmrm c fuel s id = some (-1, s) ∧ ∀ i ∈ s.live, id ≠ i) ∨
      ∃ i ∈ s.live, id = i ∧ ((s.shmAry i).ref ≠ 0 ∧ lwpShmrm c fuel s id = some (0, s) ∨
        (s.shmAry i).ref = 0 ∧ ((∃ s' tk' tp', lwpShmrm c fuel s id = some (0, s') ∧ Dropped c s s' i ∧
            Inv c s' tk' tp' (i :: free)) ∨
          2 ^ 20 ≤ s.blocks.length ∧ lwpShmrm c fuel s id = none)) := by
  unfold lwpShmrm
  rcases h.shmIdToNode_spec hfuel id with ⟨m, hm, rfl, hfind⟩ | ⟨hne, hfind⟩
  · rw [hfind]
    refine .inr ⟨s.slot m, List.mem_map_of_mem hm, rfl, ?_⟩
    dsimp only
    rw [(h.entry m hm).data]
    dsimp only
    by_cases href : (s.shmAry (s.slot m)).ref = 0
    · right
      refine ⟨href, ?_⟩
      have hpage : ((s.shmAry (s.slot m)).addr, rtPageBits c (s.shmAry (s.slot m)).size) ∈ s.pages :=
        h.pages.mem_iff.2 (List.mem_map_of_mem (f := fun m => s.pagesOf c (s.slot m)) hm)
      rw [if_neg (not_not_intro href), rtPagesFree, if_pos hpage]
      dsimp only [keyTree, paTree, withKeyTree, withPaTree]
      rcases h.drop_spec hm href with ⟨avl, avl', hr, hr', s', tk', tp', hs', hdropped, hinv⟩ | ⟨hlen, hnone⟩
      · left
        refine ⟨s', tk', tp', ?_, hdropped, hinv⟩
        rw [hr]
        dsimp only
        rw [hr']
        dsimp only
        rw [rtFree, if_pos hm, hs']
        rfl
      · right
        refine ⟨hlen, ?_⟩
        rcases hnone with hnone | ⟨avl, hr, hnone⟩
        · rw [hnone]
        · rw [hr]
          dsimp only
          rw [hnone]
    · rw [if_pos href]
      exact .inl ⟨href, rfl⟩
  · rw [hfind]
    refine .inl ⟨rfl, fun i hi => ?_⟩
    obtain ⟨m, hm, rfl⟩ := List.mem_map.1 hi
    exact hne m hm

/-! ## Attach and detach -/

/-- The areas and the count of an item change together. -/
theorem setRef {r : Int} {vs : List Nat} (hi : i ∈ s.live) (hr : r = vs.count i)
    (hother : ∀ j, j ≠ i → vs.count j = s.vareas.count j) :
    Inv c { s.setItem i { s.shmAry i with ref := r } with vareas := vs } tk tp free := by
  let s' : LwpShm := { s.setItem i { s.shmAry i with ref := r } with vareas := vs }
  have hitem : ∀ j, (s'.shmAry j).addr = (s.shmAry j).addr ∧ (s'.shmAry j).size = (s.shmAry j).size ∧
      (s'.shmAry j).key = (s.shmAry j).key ∧ ((s.shmAry j).ref = s.vareas.count j → (s'.shmAry j).ref = vs.count j) := by
    intro j
    by_cases hj : j = i
    · subst hj
      have hself : s'.shmAry j = { s.shmAry j with ref := r } := Function.update_self _ _ _
      rw [hself]
      exact ⟨rfl, rfl, rfl, fun _ => hr⟩
    · have hsame : s'.shmAry j = s.shmAry j := Function.update_of_ne hj _ _
      rw [hsame, hother j hj]
      exact ⟨rfl, rfl, rfl, id⟩
  refine ⟨h.treeKey, h.treePa, h.apart, h.slots.congr rfl rfl fun j _ => (hitem j).1, ?_, ?_, h.block, h.disjoint, ?_⟩
  · intro b hb
    have he := h.entry b hb
    obtain ⟨h1, h2, h3, h4⟩ := hitem (s.slot b)
    refine ⟨he.data, he.dataPa, he.key.trans h3.symm, he.addr.trans h1.symm, ?_, h4 he.ref⟩
    show ∃ bit, (s'.shmAry (s.slot b)).size = _
    rw [h2]
    exact he.size
  · have hmap : s.blocks.map (fun b => s'.pagesOf c (s'.slot b)) = s.blocks.map fun b => s.pagesOf c (s.slot b) := by
      refine List.map_congr_left fun b _ => ?_
      obtain ⟨h1, h2, -⟩ := hitem (s.slot b)
      show (((s'.shmAry (s.slot b)).addr), rtPageBits c (s'.shmAry (s.slot b)).size) = _
      rw [h1, h2]
      rfl
    show s.pages.Perm (s.blocks.map fun b => s'.pagesOf c (s'.slot b))
    rw [hmap]
    exact h.pages
  · intro j hj
    by_cases hji : j = i
    · subst hji
      exact hi
    · have hpos : 0 < s.vareas.count j := by
        rw [← hother j hji]
        exact List.count_pos_iff.2 hj
      exact h.vareas j (List.count_pos_iff.1 hpos)

/-- `lwp_shmat` attaches an area to a live item, or changes nothing. -/
theorem at_spec (hfuel : c.maxNr ≤ fuel) (id : Int) (shmVaddr : Nat) (lwpSelf installed : Bool)
    (va : Option Nat) :
    ∃ ret s', lwpShmat c fuel s id shmVaddr lwpSelf installed va = some (ret, s') ∧ Inv c s' tk tp free ∧
      (s' = s ∨ ∃ i ∈ s.live, id = i ∧ s'.vareas = i :: s.vareas ∧ s'.live = s.live) := by
  unfold lwpShmat
  by_cases halign : shmVaddr % 2 ^ c.pageShift ≠ 0
  · rw [if_pos halign]
    exact ⟨none, s, rfl, h, .inl rfl⟩
  · rw [if_neg halign]
    rcases h.shmIdToNode_spec hfuel id with ⟨m, hm, rfl, hfind⟩ | ⟨-, hfind⟩
    · rw [hfind]
      dsimp only
      rw [(h.entry m hm).data]
      have hmem : s.slot m ∈ s.live := List.mem_map_of_mem hm
      cases lwpSelf with
      | false => exact ⟨none, s, rfl, h, .inl rfl⟩
      | true =>
        cases installed with
        | false => exact ⟨va, s, rfl, h, .inl rfl⟩
        | true =>
          refine ⟨va, _, rfl, h.setRef hmem ?_ fun j hj => List.count_cons_of_ne hj.symm, .inr ⟨_, hmem, rfl, rfl, rfl⟩⟩
          rw [(h.entry m hm).ref, List.count_cons_self, Int.natCast_succ]
    · rw [hfind]
      exact ⟨none, s, rfl, h, .inl rfl⟩

/-- `lwp_shmdt` detaches the area that was removed. -/
theorem dt_spec {removed : Option Nat} (lwpSelf : Bool) (hmem : ∀ i ∈ removed, i ∈ s.vareas)
    (ok : Bool) : Inv c (lwpShmdt s lwpSelf removed ok).2 tk tp free := by
  cases lwpSelf with
  | false => exact h
  | true =>
    cases removed with
    | none => exact h
    | some i =>
      have hi := hmem i rfl
      have hlive : i ∈ s.live := h.vareas i hi
      refine h.setRef hlive ?_ fun j hj => List.count_erase_of_ne hj
      obtain ⟨m, hm, rfl⟩ := List.mem_map.1 hlive
      have hpos := List.count_pos_iff.2 hi
      rw [(h.entry m hm).ref, List.count_erase_self]
      omega

end

end Inv

/-! ## Runs -/

/-- No segment; the array is zero. -/
def init : LwpShm := ⟨fun _ => ⟨none, none, 0, 0, none⟩, none, none, -1, 0, fun _ => ⟨0, 0, 0, 0⟩, [], [], []⟩

inductive ShmOp
  | get (key size : Nat) (create : Bool) (ret : Int)
  | rm (id ret : Int)
  | attach (id : Int) (ret : Option Nat)
  | detach (ret : Int)

/-- The calls, where `lwp_shmdt` removes an area that is attached, or none of shared memory. -/
inductive Step (c : ShmConfig) (fuel : Nat) : LwpShm → ShmOp → LwpShm → Prop
  | get {s s' : LwpShm} {key size : Nat} {create : Bool} {pageAddr nodeKey : Option Nat} {ret : Int}
      (hfresh : Fresh c s size pageAddr nodeKey)
      (hr : lwpShmget c fuel s key size create pageAddr nodeKey = some (ret, s')) :
      Step c fuel s (.get key size create ret) s'
  | rm {s s' : LwpShm} {id ret : Int} (hr : lwpShmrm c fuel s id = some (ret, s')) : Step c fuel s (.rm id ret) s'
  | attach {s s' : LwpShm} {id : Int} {shmVaddr : Nat} {lwpSelf installed : Bool} {va ret : Option Nat}
      (hr : lwpShmat c fuel s id shmVaddr lwpSelf installed va = some (ret, s')) : Step c fuel s (.attach id ret) s'
  | detach {s s' : LwpShm} {lwpSelf ok : Bool} {removed : Option Nat} {ret : Int} (hmem : ∀ i ∈ removed, i ∈ s.vareas)
      (hr : lwpShmdt s lwpSelf removed ok = (ret, s')) : Step c fuel s (.detach ret) s'

theorem step_inv {op : ShmOp} (hfuel : c.maxNr ≤ fuel) (h : Inv c s tk tp free) (hs : Step c fuel s op s') :
    ∃ tk' tp' free', Inv c s' tk' tp' free' := by
  cases hs with
  | @get _ key size create pageAddr nodeKey ret hfresh hr =>
    rcases h.get_spec hfuel key create hfresh with ⟨i, -, -, hr'⟩ | ⟨-, ⟨s1, free', hr', -, -, hinv⟩ |
      ⟨i, s1, addr, tk', tp', free', hr', -, -, -, -, -, hinv⟩ | ⟨-, hr'⟩⟩
    · cases hr.symm.trans hr'
      exact ⟨tk, tp, free, h⟩
    · cases hr.symm.trans hr'
      exact ⟨tk, tp, free', hinv⟩
    · cases hr.symm.trans hr'
      exact ⟨tk', tp', free', hinv⟩
    · exact absurd (hr.symm.trans hr') (by simp)
  | @rm _ id ret hr =>
    rcases h.rm_spec hfuel id with ⟨hr', -⟩ | ⟨i, -, -, ⟨-, hr'⟩ | ⟨-, ⟨s1, tk', tp', hr', -, hinv⟩ | ⟨-, hr'⟩⟩⟩
    · cases hr.symm.trans hr'
      exact ⟨tk, tp, free, h⟩
    · cases hr.symm.trans hr'
      exact ⟨tk, tp, free, h⟩
    · cases hr.symm.trans hr'
      exact ⟨tk', tp', i :: free, hinv⟩
    · exact absurd (hr.symm.trans hr') (by simp)
  | @attach _ id shmVaddr lwpSelf installed va ret hr =>
    obtain ⟨ret', s1, hr', hinv, -⟩ := h.at_spec hfuel id shmVaddr lwpSelf installed va
    cases hr.symm.trans hr'
    exact ⟨tk, tp, free, hinv⟩
  | @detach _ lwpSelf ok removed ret hmem hr =>
    have hinv := h.dt_spec lwpSelf hmem ok
    rw [hr] at hinv
    exact ⟨tk, tp, free, hinv⟩

/-- The slots are partitioned into the free list and the live ones, and those are exactly what is in both trees, with
pages of their own and a count of the areas. -/
structure Registry (c : ShmConfig) (s : LwpShm) (free : List Nat) : Prop where
  slots : Singly.Arena c.maxNr s.shmIdUsed (fun i => link (toInt (s.shmAry i).addr)) (link s.shmFreeList) free s.live
  byKey : LwpAvl.Avl ⟨s.keyTree, s.blocks⟩
  byPa : LwpAvl.Avl ⟨s.paTree, s.blocks.map (· + 1)⟩
  entry : ∀ m ∈ s.blocks, Entry c s m
  distinct : s.live.Pairwise fun i j => (s.shmAry i).key ≠ (s.shmAry j).key
  pages : s.pages.Perm (s.live.map (s.pagesOf c))
  disjoint : s.live.Pairwise fun i j => Disjoint c (s.pagesOf c i) (s.pagesOf c j)
  ref : ∀ i ∈ s.live, (s.shmAry i).ref = s.vareas.count i
  attached : ∀ i ∈ s.vareas, i ∈ s.live

/-- What the calls do. They return, with fewer than 2^20 segments. -/
structure Calls (c : ShmConfig) (fuel : Nat) (s : LwpShm) : Prop where
  get : ∀ key size create pageAddr nodeKey, Fresh c s size pageAddr nodeKey →
    (∃ i ∈ s.live, (s.shmAry i).key = key ∧ lwpShmget c fuel s key size create pageAddr nodeKey = some ((i : Int), s)) ∨
    (∀ j ∈ s.live, (s.shmAry j).key ≠ key) ∧
      ((∃ s', lwpShmget c fuel s key size create pageAddr nodeKey = some (-1, s') ∧ Unseen c s s' ∧
          (create = false ∨ size = 0 ∨ s.live.length = c.maxNr ∨ pageAddr = none ∨ nodeKey = none)) ∨
        (∃ (i : Nat) (s' : LwpShm) (addr : Nat),
          lwpShmget c fuel s key size create pageAddr nodeKey = some ((i : Int), s') ∧ create = true ∧
          Inv.Created c s s' i key size addr) ∨
        2 ^ 20 ≤ s.live.length ∧ lwpShmget c fuel s key size create pageAddr nodeKey = none)
  rm : ∀ id, (lwpShmrm c fuel s id = some (-1, s) ∧ ∀ i ∈ s.live, id ≠ i) ∨
    ∃ i ∈ s.live, id = i ∧ ((s.shmAry i).ref ≠ 0 ∧ lwpShmrm c fuel s id = some (0, s) ∨
      (s.shmAry i).ref = 0 ∧ ((∃ s', lwpShmrm c fuel s id = some (0, s') ∧ Inv.Dropped c s s' i) ∨
        2 ^ 20 ≤ s.live.length ∧ lwpShmrm c fuel s id = none))
  attach : ∀ id shmVaddr lwpSelf installed va,
    ∃ ret s', lwpShmat c fuel s id shmVaddr lwpSelf installed va = some (ret, s') ∧
      (s' = s ∨ ∃ i ∈ s.live, id = i ∧ s'.vareas = i :: s.vareas ∧ s'.live = s.live)

namespace Inv

theorem registry (h : Inv c s tk tp free) : Registry c s free where
  slots := h.slots.arena
  byKey := h.treeKey.avl
  byPa := h.treePa.avl
  entry := h.entry
  distinct := by
    refine List.pairwise_map.2 (h.treeKey.keys_ne.imp_of_mem fun {a b} ha hb hne => ?_)
    rw [← (h.entry a ha).key, ← (h.entry b hb).key]
    exact hne
  pages := by
    rw [live, List.map_map]
    exact h.pages
  disjoint := by
    have hpair := (h.pages.pairwise_iff Disjoint.symm).1 h.disjoint
    exact List.pairwise_map.2 (List.pairwise_map.1 hpair)
  ref i hi := by
    obtain ⟨m, hm, rfl⟩ := List.mem_map.1 hi
    exact (h.entry m hm).ref
  attached := h.vareas

theorem calls (h : Inv c s tk tp free) (hfuel : c.maxNr ≤ fuel) : Calls c fuel s where
  get key size create pageAddr nodeKey hfresh := by
    rcases h.get_spec hfuel key create hfresh with hfound | ⟨hkey, ⟨s1, -, hr, hu, hwhy, -⟩ |
      ⟨i, s1, addr, -, -, -, hr, hcreate, -, -, -, hcreated, -⟩ | ⟨hlen, hr⟩⟩
    · exact .inl hfound
    · exact .inr ⟨hkey, .inl ⟨s1, hr, hu, hwhy⟩⟩
    · exact .inr ⟨hkey, .inr (.inl ⟨i, s1, addr, hr, hcreate, hcreated⟩)⟩
    · exact .inr ⟨hkey, .inr (.inr ⟨by rwa [live, List.length_map], hr⟩)⟩
  rm id := by
    rcases h.rm_spec hfuel id with hbad | ⟨i, hi, hid, hbusy | ⟨href, ⟨s1, -, -, hr, hdropped, -⟩ | ⟨hlen, hr⟩⟩⟩
    · exact .inl hbad
    · exact .inr ⟨i, hi, hid, .inl hbusy⟩
    · exact .inr ⟨i, hi, hid, .inr ⟨href, .inl ⟨s1, hr, hdropped⟩⟩⟩
    · exact .inr ⟨i, hi, hid, .inr ⟨href, .inr ⟨by rwa [live, List.length_map], hr⟩⟩⟩
  attach id shmVaddr lwpSelf installed va := by
    obtain ⟨ret, s1, hr, -, hs⟩ := h.at_spec hfuel id shmVaddr lwpSelf installed va
    exact ⟨ret, s1, hr, hs⟩

end Inv

theorem lwp_shm_run {ops : List ShmOp} (hfuel : c.maxNr ≤ fuel) (hr : Runs.Run (Step c fuel) init ops s) :
    (∃ free, Registry c s free) ∧ Calls c fuel s := by
  have hinv : ∃ tk tp free, Inv c s tk tp free := by
    refine hr.invariant (I := fun s => ∃ tk tp free, Inv c s tk tp free) ?_ ?_
    · have htree : ∀ live : List Nat, live = [] → Tree ⟨none, fun _ => ⟨none, none, 0, 0, none⟩⟩ live .nil := by
        rintro _ rfl
        exact ⟨⟨trivial, rfl, List.nodup_nil⟩, trivial, .nil, .nil⟩
      refine ⟨.nil, .nil, [], htree _ rfl, htree _ rfl, List.nodup_nil, ⟨.empty _ _, by decide, ?_⟩, ?_, .nil, ?_, .nil, ?_⟩
      · exact fun i hi => absurd hi List.not_mem_nil
      · exact fun i hi => absurd hi List.not_mem_nil
      · exact fun b hb => absurd hb List.not_mem_nil
      · exact fun i hi => absurd hi List.not_mem_nil
    · rintro s op s' ⟨tk, tp, free, h⟩ hs
      exact step_inv hfuel h hs
  obtain ⟨tk, tp, free, h⟩ := hinv
  exact ⟨⟨free, h.registry⟩, h.calls hfuel⟩

theorem eq_some_of_fst {α : Type} {x : Option (α × LwpShm)} {a : α} (h : x.map Prod.fst = some a) (d : LwpShm) :
    x = some (a, (x.getD (a, d)).2) := by
  obtain ⟨⟨a', s⟩, rfl, rfl⟩ := Option.map_eq_some_iff.1 h
  rfl

/-- Two slots: a segment is made, attached, detached and removed, after a call that got pages but no nodes. -/
theorem lwp_shm_run_two :
    ∃ s, Runs.Run (Step ⟨2, 64, 12, by decide, by decide⟩ 2) init
        ([] ++ [.get 5 8000 true (-1)] ++ [.get 5 8000 true 0] ++ [.attach 0 (some 12288)] ++ [.rm 0 0] ++ [.detach 0] ++
          [.rm 0 0]) s ∧ s.pages = [] ∧ s.shmFreeList = 0 ∧
      (∃ free, Registry ⟨2, 64, 12, by decide, by decide⟩ s free) ∧ Calls ⟨2, 64, 12, by decide, by decide⟩ 2 s := by
  let c : ShmConfig := ⟨2, 64, 12, by decide, by decide⟩
  have hpage : PageBlock c (65536, rtPageBits c 8000) := ⟨by decide, by decide⟩
  have hfresh : ∀ s nodeKey, s.pages = [] → s.blocks = [] → Fresh c s 8000 (some 65536) nodeKey := by
    intro s nodeKey hpages hblocks
    refine ⟨?_, fun m _ => ?_⟩
    · rintro addr ⟨⟩
      exact ⟨hpage, by simp [hpages]⟩
    · simp [Apart, hblocks]
  have hr1 := eq_some_of_fst (x := lwpShmget c 2 init 5 8000 true (some 65536) none) (a := -1) (by decide) init
  generalize hs1 : (((lwpShmget c 2 init 5 8000 true (some 65536) none).getD (-1, init)).2) = s1 at hr1
  have hr2 := eq_some_of_fst (x := lwpShmget c 2 s1 5 8000 true (some 65536) (some 0)) (a := 0)
    (by subst hs1; decide) init
  generalize hs2 : (((lwpShmget c 2 s1 5 8000 true (some 65536) (some 0)).getD (0, init)).2) = s2 at hr2
  have hr3 := eq_some_of_fst (x := lwpShmat c 2 s2 0 12288 true true (some 12288)) (a := some 12288)
    (by subst hs2 hs1; decide) init
  generalize hs3 : (((lwpShmat c 2 s2 0 12288 true true (some 12288)).getD (some 12288, init)).2) = s3 at hr3
  -- an attached segment stays
  have hr4 := eq_some_of_fst (x := lwpShmrm c 2 s3 0) (a := 0) (by subst hs3 hs2 hs1; decide) init
  generalize hs4 : (((lwpShmrm c 2 s3 0).getD (0, init)).2) = s4 at hr4
  have hr5 : lwpShmdt s4 true (some 0) true = (0, (lwpShmdt s4 true (some 0) true).2) := rfl
  generalize hs5 : (lwpShmdt s4 true (some 0) true).2 = s5 at hr5
  have hr6 := eq_some_of_fst (x := lwpShmrm c 2 s5 0) (a := 0) (by subst hs5 hs4 hs3 hs2 hs1; decide) init
  generalize hs6 : (((lwpShmrm c 2 s5 0).getD (0, init)).2) = s6 at hr6
  have h1 : Runs.Run (Step c 2) init ([] ++ [.get 5 8000 true (-1)]) s1 := .snoc .nil (.get (hfresh _ _ rfl rfl) hr1)
  have h2 : Runs.Run (Step c 2) init (_ ++ [.get 5 8000 true 0]) s2 :=
    h1.snoc (.get (hfresh _ _ (by subst hs1; decide) (by subst hs1; decide)) hr2)
  have h3 : Runs.Run (Step c 2) init (_ ++ [.attach 0 (some 12288)]) s3 := h2.snoc (.attach hr3)
  have h4 : Runs.Run (Step c 2) init (_ ++ [.rm 0 0]) s4 := h3.snoc (.rm hr4)
  have h5 : Runs.Run (Step c 2) init (_ ++ [.detach 0]) s5 :=
    h4.snoc (.detach (by subst hs4 hs3 hs2 hs1; decide) hr5)
  have h6 : Runs.Run (Step c 2) init (_ ++ [.rm 0 0]) s6 := h5.snoc (.rm hr6)
  obtain ⟨hreg, hcalls⟩ := lwp_shm_run (Nat.le_refl 2) h6
  refine ⟨s6, h6, ?_, ?_, hreg, hcalls⟩
  · subst hs6 hs5 hs4 hs3 hs2 hs1
    decide
  · subst hs6 hs5 hs4 hs3 hs2 hs1
    decide

end RtThread.LwpShm
