import RtThread.Lwp.Shm

/-!
# The registry of shared memory

- the slots and their free list through `addr` (`Slots`);
- a segment has a node in both trees, which are in one block of memory (`insert_pair`, `remove_pair`);
- the invariant of the registry (`LwpShm.Inv`).
-/

namespace RtThread

namespace LwpAvl

variable {node : Nat → LwpAvlStruct} {rk rp : Option Nat} {tk tp : HeightTree Nat} {blocks : List Nat}
  {m key addr n : Nat} {data : Option Nat}

/-- What two inserts or removals leave of a node. -/
structure SameEntry (x y : LwpAvlStruct) : Prop where
  key : y.avlKey = x.avlKey
  data : y.data = x.data

/-- The nodes of one tree are not those of the other. -/
def Apart (blocks : List Nat) : Prop := (blocks ++ blocks.map (· + 1)).Nodup

theorem Apart.ne (h : Apart blocks) {a b : Nat} (ha : a ∈ blocks) (hb : b ∈ blocks) : a ≠ b + 1 :=
  (List.nodup_append.1 h).2.2 a ha _ (List.mem_map_of_mem hb)

theorem set_of_ne {s : LwpAvl} {j : Nat} (hj : j ≠ m) : ((s.setKey m key).setData m data).node j = s.node j := by
  simp [setKey, setData, hj]

theorem set_self {s : LwpAvl} : (((s.setKey m key).setData m data).node m).avlKey = key ∧
    (((s.setKey m key).setData m data).node m).data = data := by
  simp [setKey, setData]

/-- A node of its own gets a key and data, and is inserted. -/
theorem Tree.insert_new {s : LwpAvl} {t : HeightTree Nat} {live : List Nat} (h : Tree s live t) (data : Option Nat)
    (hm : m ∉ live) (hkey : ∀ i ∈ live, (s.node i).avlKey ≠ key) :
    (∃ s' t', ((s.setKey m key).setData m data).lwpAvlInsert m = some s' ∧ Tree s' (m :: live) t' ∧
      (s'.node m).avlKey = key ∧ (s'.node m).data = data ∧ (∀ j, j ≠ m → SameEntry (s.node j) (s'.node j)) ∧
      ∀ j, j ∉ m :: live → s'.node j = s.node j) ∨
    2 ^ 20 ≤ live.length ∧ ((s.setKey m key).setData m data).lwpAvlInsert m = none := by
  have hset : Tree ((s.setKey m key).setData m data) live t := (h.setKey hm).setData m data
  have hother : ∀ i ∈ live, ((s.setKey m key).setData m data).node i = s.node i := fun i hi =>
    set_of_ne (ne_of_mem_of_not_mem hi hm)
  rcases hset.insert hm (fun i hi => by rw [hother i hi, set_self.1]; exact hkey i hi) with
    ⟨s', t', hr, htree, hkeep⟩ | ⟨hhigh, hr⟩
  · refine .inl ⟨s', t', hr, htree, (hkeep.key m).trans set_self.1, (hkeep.data m).trans set_self.2, ?_, ?_⟩
    · intro j hj
      refine ⟨(hkeep.key j).trans ?_, (hkeep.data j).trans ?_⟩
      · rw [set_of_ne hj]
      · rw [set_of_ne hj]
    · intro j hj
      rw [hkeep.node j hj, set_of_ne (show j ≠ m from fun e => hj (e ▸ List.mem_cons_self))]
  · refine .inr ⟨?_, hr⟩
    by_contra hlt
    exact Nat.not_lt.2 (ht_le_maxheight h.balanced (by rw [h.live.length_eq]; omega)) hhigh

/-- The two nodes of a block are inserted, each in its tree. -/
theorem insert_pair (hk : Tree ⟨rk, node⟩ blocks tk) (hp : Tree ⟨rp, node⟩ (blocks.map (· + 1)) tp)
    (hapart : Apart (m :: blocks)) (hkey : ∀ b ∈ blocks, (node b).avlKey ≠ key)
    (haddr : ∀ b ∈ blocks, (node (b + 1)).avlKey ≠ addr) (data : Option Nat) :
    (∃ avl avl' tk' tp', (((⟨rk, node⟩ : LwpAvl).setKey m key).setData m data).lwpAvlInsert m = some avl ∧
      (((⟨rp, avl.node⟩ : LwpAvl).setKey (m + 1) addr).setData (m + 1) data).lwpAvlInsert (m + 1) = some avl' ∧
      Tree ⟨avl.ptree, avl'.node⟩ (m :: blocks) tk' ∧ Tree avl' ((m :: blocks).map (· + 1)) tp' ∧
      ((avl'.node m).avlKey = key ∧ (avl'.node m).data = data) ∧
      ((avl'.node (m + 1)).avlKey = addr ∧ (avl'.node (m + 1)).data = data) ∧
      ∀ j, j ≠ m → j ≠ m + 1 → SameEntry (node j) (avl'.node j)) ∨
    2 ^ 20 ≤ blocks.length ∧ ((((⟨rk, node⟩ : LwpAvl).setKey m key).setData m data).lwpAvlInsert m = none ∨
      ∃ avl, (((⟨rk, node⟩ : LwpAvl).setKey m key).setData m data).lwpAvlInsert m = some avl ∧
        (((⟨rp, avl.node⟩ : LwpAvl).setKey (m + 1) addr).setData (m + 1) data).lwpAvlInsert (m + 1) = none) := by
  have hself : m ∈ m :: blocks := List.mem_cons_self
  have hm : m ∉ blocks := (List.nodup_cons.1 (List.nodup_append.1 hapart).1).1
  have hm' : m + 1 ∉ blocks.map (· + 1) := by
    intro hmem
    obtain ⟨b, hb, heq⟩ := List.mem_map.1 hmem
    exact hm (Nat.succ.inj heq ▸ hb)
  have hcross : ∀ j ∈ blocks.map (· + 1), j ∉ m :: blocks := by
    intro j hj hmem
    obtain ⟨b, hb, rfl⟩ := List.mem_map.1 hj
    exact hapart.ne hmem (List.mem_cons_of_mem _ hb) rfl
  have hne : m ≠ m + 1 := Nat.ne_of_lt (Nat.lt_succ_self m)
  rcases hk.insert_new data hm hkey with ⟨avl, tk', hr, htree, hmkey, hmdata, hsame, hnode⟩ | ⟨hlen, hr⟩
  · have hp1 : Tree ⟨rp, avl.node⟩ (blocks.map (· + 1)) tp := hp.congr rfl fun j hj => hnode j (hcross j hj)
    have haddr' : ∀ i ∈ blocks.map (· + 1), (avl.node i).avlKey ≠ addr := by
      intro i hi
      rw [hnode i (hcross i hi)]
      obtain ⟨b, hb, rfl⟩ := List.mem_map.1 hi
      exact haddr b hb
    rcases hp1.insert_new data hm' haddr' with ⟨avl', tp', hr', htree', hpkey, hpdata, hsame', hnode'⟩ | ⟨hlen, hr'⟩
    · refine .inl ⟨avl, avl', tk', tp', hr, hr', ?_, htree', ?_, ⟨hpkey, hpdata⟩, ?_⟩
      · refine htree.congr rfl fun j hj => hnode' j ?_
        intro hmem
        rcases List.mem_cons.1 hmem with rfl | hmem
        · exact hapart.ne hj hself rfl
        · exact hcross j hmem hj
      · exact ⟨(hsame' m hne).key.trans hmkey, (hsame' m hne).data.trans hmdata⟩
      · intro j hj hj'
        exact ⟨(hsame' j hj').key.trans (hsame j hj).key, (hsame' j hj').data.trans (hsame j hj).data⟩
    · rw [List.length_map] at hlen
      exact .inr ⟨hlen, .inr ⟨avl, hr, hr'⟩⟩
  · exact .inr ⟨hlen, .inl hr⟩

/-- The two nodes of a block are removed, each from its tree. -/
theorem remove_pair (hk : Tree ⟨rk, node⟩ blocks tk) (hp : Tree ⟨rp, node⟩ (blocks.map (· + 1)) tp) (hapart : Apart blocks)
    (hm : m ∈ blocks) :
    (∃ avl avl' tk' tp', (⟨rk, node⟩ : LwpAvl).lwpAvlRemove m = some avl ∧
      (⟨rp, avl.node⟩ : LwpAvl).lwpAvlRemove (m + 1) = some avl' ∧
      Tree ⟨avl.ptree, avl'.node⟩ (blocks.erase m) tk' ∧ Tree avl' ((blocks.erase m).map (· + 1)) tp' ∧
      ∀ j, SameEntry (node j) (avl'.node j)) ∨
    2 ^ 20 ≤ blocks.length ∧ ((⟨rk, node⟩ : LwpAvl).lwpAvlRemove m = none ∨
      ∃ avl, (⟨rk, node⟩ : LwpAvl).lwpAvlRemove m = some avl ∧ (⟨rp, avl.node⟩ : LwpAvl).lwpAvlRemove (m + 1) = none) := by
  have hcross : ∀ j ∈ blocks.map (· + 1), j ∉ blocks := by
    intro j hj hmem
    obtain ⟨b, hb, rfl⟩ := List.mem_map.1 hj
    exact hapart.ne hmem hb rfl
  have hhigh : ∀ {t : HeightTree Nat}, t.Balanced → t.keys.length = blocks.length → avlMaxheight < t.ht →
      2 ^ 20 ≤ blocks.length := by
    intro t hb hlen hlt
    by_contra hsmall
    exact Nat.not_lt.2 (ht_le_maxheight hb (by omega)) hlt
  rcases Tree.remove hk hm with ⟨avl, tk', hr, htree, hkeep⟩ | ⟨hlt, hr⟩
  · have hp1 : Tree ⟨rp, avl.node⟩ (blocks.map (· + 1)) tp := hp.congr rfl fun j hj => hkeep.node j (hcross j hj)
    rcases Tree.remove hp1 (List.mem_map_of_mem hm) with ⟨avl', tp', hr', htree', hkeep'⟩ | ⟨hlt, hr'⟩
    · refine .inl ⟨avl, avl', tk', tp', hr, hr', ?_, ?_, fun j => ⟨?_, ?_⟩⟩
      · exact htree.congr rfl fun j hj => hkeep'.node j fun hmem => hcross j hmem (List.mem_of_mem_erase hj)
      · rwa [List.map_erase Nat.succ_injective]
      · exact (hkeep'.key j).trans (hkeep.key j)
      · exact (hkeep'.data j).trans (hkeep.data j)
    · exact .inr ⟨hhigh hp.balanced (by rw [hp.live.length_eq, List.length_map]) hlt, .inr ⟨avl, hr, hr'⟩⟩
  · exact .inr ⟨hhigh hk.balanced hk.live.length_eq hlt, .inl hr⟩

end LwpAvl

namespace LwpShm

open LwpAvl (Tree Apart SameEntry)

variable {c : ShmConfig} {s s' : LwpShm} {tk tp : HeightTree Nat} {live free : List Nat} {fuel i m key size bit addr : Nat}
  {l : Int}

/-! ## Links in `addr` -/

theorem toInt_toSize (hlo : -1 ≤ l) (hhi : l < 2 ^ 31) : toInt (toSize c l) = l := by
  have hdvd : (2 ^ 32 : Nat) ∣ 2 ^ c.sizeBits := Nat.pow_dvd_pow 2 c.bits
  have hpos : (0 : Int) < 2 ^ c.sizeBits := by exact_mod_cast Nat.two_pow_pos c.sizeBits
  have hmod : toSize c l % 2 ^ 32 = (l % 2 ^ 32).toNat := by
    apply Int.ofNat_inj.1
    rw [toSize, Int.natCast_mod, Int.toNat_of_nonneg (Int.emod_nonneg _ (by omega)),
      Int.toNat_of_nonneg (Int.emod_nonneg _ (by omega))]
    exact Int.emod_emod_of_dvd l (by exact_mod_cast hdvd)
  rw [toInt, hmod]
  omega

/-- The item that a link leads to. -/
def link (l : Int) : Option Nat := if 0 ≤ l then some l.toNat else none

/-- The slots: the free ones are linked through `addr`. -/
structure Slots (c : ShmConfig) (s : LwpShm) (free live : List Nat) : Prop where
  arena : Singly.Arena c.maxNr s.shmIdUsed (fun i => link (toInt (s.shmAry i).addr)) (link s.shmFreeList) free live
  head : -1 ≤ s.shmFreeList
  next : ∀ i ∈ free, -1 ≤ toInt (s.shmAry i).addr

namespace Slots

section

variable (h : Slots c s free live)

include h

theorem congr (hhead : s'.shmFreeList = s.shmFreeList) (hused : s'.shmIdUsed = s.shmIdUsed)
    (hary : ∀ i ∈ free, (s'.shmAry i).addr = (s.shmAry i).addr) : Slots c s' free live := by
  refine ⟨?_, by rw [hhead]; exact h.head, fun i hi => by rw [hary i hi]; exact h.next i hi⟩
  rw [hhead, hused]
  exact h.arena.congr fun j hj => by rw [hary j hj]

theorem perm {live' : List Nat} (hp : live'.Perm live) : Slots c s free live' :=
  ⟨h.arena.perm_busy hp, h.head, h.next⟩

theorem head_lt : s.shmFreeList < 2 ^ 31 := by
  have harena := h.arena
  by_cases hneg : 0 ≤ s.shmFreeList
  · rw [link, if_pos hneg] at harena
    cases free with
    | nil => cases harena.chain
    | cons j rest =>
      have hj := Option.some.inj harena.chain.1
      have hlt := h.arena.mem_iff.1 (.inl (show j ∈ j :: rest by simp))
      have hle := h.arena.le
      have hmax := c.lt_int
      omega
  · omega

/-- `_shm_id_alloc` gives a slot that is not live, or all are. -/
theorem alloc : (s.shmIdAlloc c = (-1, s) ∧ live.length = c.maxNr) ∨
      ∃ (i : Nat) (head : Int) (used : Nat) (free' : List Nat),
        s.shmIdAlloc c = ((i : Int), { s with shmFreeList := head, shmIdUsed := used }) ∧ live.length < c.maxNr ∧
        Slots c { s with shmFreeList := head, shmIdUsed := used } free' (i :: live) := by
  have harena := h.arena
  have hhead := h.head
  unfold shmIdAlloc
  by_cases hfree : s.shmFreeList = -1
  · rw [link, if_neg (by omega)] at harena
    by_cases hlt : s.shmIdUsed < c.maxNr
    · obtain ⟨rfl, hgrow⟩ := harena.grow hlt
      refine .inr ⟨s.shmIdUsed, s.shmFreeList, s.shmIdUsed + 1, [], ?_, harena.busy_lt (.inr hlt), ?_, hhead, ?_⟩
      · rw [if_neg (not_not_intro hfree), if_pos hlt]
      · dsimp only
        rw [link, if_neg (by omega)]
        exact hgrow
      · exact fun i hi => absurd hi List.not_mem_nil
    · rw [if_neg (not_not_intro hfree), if_neg hlt]
      exact .inl ⟨rfl, (harena.full (Nat.le_of_not_lt hlt)).2⟩
  · rw [link, if_pos (by omega)] at harena
    obtain ⟨free', rfl, hpop⟩ := harena.pop
    refine .inr ⟨s.shmFreeList.toNat, toInt (s.shmAry s.shmFreeList.toNat).addr, s.shmIdUsed, free', ?_,
      harena.busy_lt (.inl (by simp)), hpop, h.next _ (by simp), fun i hi => h.next i (List.mem_cons_of_mem _ hi)⟩
    rw [if_pos hfree, Int.toNat_of_nonneg (by omega)]

/-- A slot is put on the free list. -/
theorem release (hi : i ∈ live) : Slots c (s.shmIdFree c i) (i :: free) (live.erase i) := by
  have hback : toInt (toSize c s.shmFreeList) = s.shmFreeList := toInt_toSize h.head h.head_lt
  have hother : ∀ j ∈ free, ((s.shmIdFree c i).shmAry j).addr = (s.shmAry j).addr := by
    intro j hj
    have hne : j ≠ i := fun e => h.arena.not_free hi (e ▸ hj)
    simp [shmIdFree, setItem, hne]
  have hself : ((s.shmIdFree c i).shmAry i).addr = toSize c s.shmFreeList := by simp [shmIdFree, setItem]
  refine ⟨?_, ?_, ?_⟩
  · have hlink : link (s.shmIdFree c i).shmFreeList = some i := by simp [shmIdFree, link]
    rw [hlink]
    refine h.arena.push hi ?_ fun j hj => ?_
    · rw [hself, hback]
    · rw [hother j hj]
  · show (-1 : Int) ≤ (i : Int)
    omega
  · intro j hj
    rcases List.mem_cons.1 hj with rfl | hj
    · rw [hself, hback]
      exact h.head
    · rw [hother j hj]
      exact h.next j hj

end

end Slots

/-! ## Page blocks -/

theorem rtPageBits_two_pow (c : ShmConfig) (bit : Nat) : rtPageBits c (2 ^ (bit + c.pageShift)) = bit := by
  have hone : 1 <<< (bit + c.pageShift) = 2 ^ (bit + c.pageShift) := by rw [Nat.shiftLeft_eq, Nat.one_mul]
  rw [rtPageBits, Nat.log2_two_pow, hone, Nat.xor_self]
  simp

/-- A block of pages is in the address space, and not at its start. -/
structure PageBlock (c : ShmConfig) (b : Nat × Nat) : Prop where
  pos : 0 < b.1
  le : b.1 + 2 ^ (b.2 + c.pageShift) ≤ 2 ^ c.sizeBits

/-- Two blocks of pages have no address in common. -/
def Disjoint (c : ShmConfig) (b b' : Nat × Nat) : Prop :=
  b.1 + 2 ^ (b.2 + c.pageShift) ≤ b'.1 ∨ b'.1 + 2 ^ (b'.2 + c.pageShift) ≤ b.1

theorem Disjoint.symm {b b' : Nat × Nat} (h : Disjoint c b b') : Disjoint c b' b := Or.symm h

theorem Disjoint.ne {b b' : Nat × Nat} (h : Disjoint c b b') : b.1 ≠ b'.1 := by
  have h1 := Nat.two_pow_pos (b.2 + c.pageShift)
  have h2 := Nat.two_pow_pos (b'.2 + c.pageShift)
  rcases h with h | h
  · omega
  · omega

/-! ## The invariant -/

/-- The item that a block of nodes belongs to. -/
def slot (s : LwpShm) (m : Nat) : Nat := ((s.node m).data).getD 0

/-- The pages of an item. -/
def pagesOf (c : ShmConfig) (s : LwpShm) (i : Nat) : Nat × Nat := ((s.shmAry i).addr, rtPageBits c (s.shmAry i).size)

/-- The two nodes of a segment, and its item. -/
structure Entry (c : ShmConfig) (s : LwpShm) (m : Nat) : Prop where
  data : (s.node m).data = some (s.slot m)
  dataPa : (s.node (m + 1)).data = some (s.slot m)
  key : (s.node m).avlKey = (s.shmAry (s.slot m)).key
  addr : (s.node (m + 1)).avlKey = (s.shmAry (s.slot m)).addr
  size : ∃ bit, (s.shmAry (s.slot m)).size = 2 ^ (bit + c.pageShift)
  ref : (s.shmAry (s.slot m)).ref = s.vareas.count (s.slot m)

structure Inv (c : ShmConfig) (s : LwpShm) (tk tp : HeightTree Nat) (free : List Nat) : Prop where
  treeKey : Tree s.keyTree s.blocks tk
  treePa : Tree s.paTree (s.blocks.map (· + 1)) tp
  apart : Apart s.blocks
  slots : Slots c s free (s.blocks.map s.slot)
  entry : ∀ m ∈ s.blocks, Entry c s m
  pages : s.pages.Perm (s.blocks.map fun m => s.pagesOf c (s.slot m))
  block : ∀ b ∈ s.pages, PageBlock c b
  disjoint : s.pages.Pairwise (Disjoint c)
  vareas : ∀ i ∈ s.vareas, i ∈ s.blocks.map s.slot

/-- Nothing that a caller can see has changed: only the free slots may differ, and the next one to be used is the same. -/
structure Unseen (c : ShmConfig) (s s' : LwpShm) : Prop where
  node : s'.node = s.node
  treeKey : s'.shmTreeKey = s.shmTreeKey
  treePa : s'.shmTreePa = s.shmTreePa
  pages : s'.pages = s.pages
  blocks : s'.blocks = s.blocks
  vareas : s'.vareas = s.vareas
  item : ∀ i ∈ s.blocks.map s.slot, s'.shmAry i = s.shmAry i
  next : (s'.shmIdAlloc c).1 = (s.shmIdAlloc c).1

theorem Unseen.refl : Unseen c s s := ⟨rfl, rfl, rfl, rfl, rfl, rfl, fun _ _ => rfl, rfl⟩

namespace Inv

theorem slot_inj (h : Inv c s tk tp free) {m' : Nat} (hm : m ∈ s.blocks) (hm' : m' ∈ s.blocks) (heq : s.slot m = s.slot m') :
    m = m' :=
  List.inj_on_of_nodup_map (List.nodup_append.1 h.slots.arena.nodup).2.1 hm hm' heq

theorem length_le (h : Inv c s tk tp free) (hfuel : c.maxNr ≤ fuel) : s.blocks.length ≤ fuel := by
  have hle := h.slots.arena.busy_length_le
  rw [List.length_map] at hle
  exact Nat.le_trans hle hfuel

theorem of_unseen (h : Inv c s tk tp free) (hu : Unseen c s s') {free' : List Nat}
    (hslots : Slots c s' free' (s.blocks.map s.slot)) : Inv c s' tk tp free' := by
  have hslot : s'.slot = s.slot := by
    funext m
    rw [slot, slot, hu.node]
  have hkey : s'.keyTree = s.keyTree := by rw [keyTree, keyTree, hu.treeKey, hu.node]
  have hpa : s'.paTree = s.paTree := by rw [paTree, paTree, hu.treePa, hu.node]
  have hitem : ∀ m ∈ s.blocks, s'.shmAry (s.slot m) = s.shmAry (s.slot m) := fun m hm =>
    hu.item _ (List.mem_map_of_mem hm)
  refine ⟨?_, ?_, ?_, ?_, ?_, ?_, ?_, ?_, ?_⟩
  · rw [hkey, hu.blocks]
    exact h.treeKey
  · rw [hpa, hu.blocks]
    exact h.treePa
  · rw [hu.blocks]
    exact h.apart
  · rw [hslot, hu.blocks]
    exact hslots
  · intro m hm
    rw [hu.blocks] at hm
    have he := h.entry m hm
    refine ⟨?_, ?_, ?_, ?_, ?_, ?_⟩
    · rw [hslot, hu.node]
      exact he.data
    · rw [hslot, hu.node]
      exact he.dataPa
    · rw [hslot, hu.node, hitem m hm]
      exact he.key
    · rw [hslot, hu.node, hitem m hm]
      exact he.addr
    · rw [hslot, hitem m hm]
      exact he.size
    · rw [hslot, hitem m hm, hu.vareas]
      exact he.ref
  · have hpages : s.blocks.map (fun m => s'.pagesOf c (s.slot m)) = s.blocks.map fun m => s.pagesOf c (s.slot m) := by
      refine List.map_congr_left fun m hm => ?_
      rw [pagesOf, pagesOf, hitem m hm]
    rw [hslot, hu.pages, hu.blocks, hpages]
    exact h.pages
  · rw [hu.pages]
    exact h.block
  · rw [hu.pages]
    exact h.disjoint
  · rw [hu.vareas, hu.blocks, hslot]
    exact h.vareas

/-! ## The identifier -/

/-- An identifier is checked: it is the one of a live item, or there is no node. -/
theorem shmIdToNode_spec (h : Inv c s tk tp free) (hfuel : c.maxNr ≤ fuel) (id : Int) :
    (∃ m ∈ s.blocks, id = s.slot m ∧ s.shmIdToNode c fuel id = some (some m)) ∨
      (∀ m ∈ s.blocks, id ≠ s.slot m) ∧ s.shmIdToNode c fuel id = some none := by
  unfold shmIdToNode
  by_cases hrange : id < 0 ∨ id ≥ c.maxNr
  · rw [if_pos hrange]
    refine .inr ⟨?_, rfl⟩
    rintro m hm rfl
    have hlt := h.slots.arena.mem_iff.1 (.inr (List.mem_map_of_mem (f := s.slot) hm))
    have hle := h.slots.arena.le
    omega
  · rw [if_neg hrange]
    obtain ⟨i, rfl⟩ := Int.eq_ofNat_of_zero_le (show 0 ≤ id by omega)
    rw [Int.toNat_natCast]
    have hfind := h.treeKey.find_cases (h.length_le hfuel) (s.shmAry i).key
    rw [show s.keyTree.ptree = s.shmTreeKey from rfl] at hfind
    rcases hfind with ⟨m, hm, hfind, hkey⟩ | ⟨hfind, hne⟩
    · rw [hfind]
      dsimp only
      rw [(h.entry m hm).data]
      by_cases hslot : s.slot m = i
      · subst hslot
        rw [if_neg (not_not_intro rfl)]
        exact .inl ⟨m, hm, rfl, rfl⟩
      · rw [if_pos (fun e => hslot (Option.some.inj e))]
        refine .inr ⟨?_, rfl⟩
        intro m' hm' heq
        obtain rfl : i = s.slot m' := Int.ofNat_inj.1 heq
        -- the key of the item is in the tree with its own node
        have hmm : m ≠ m' := fun e => hslot (by rw [e])
        exact h.treeKey.key_ne hm hm' hmm (hkey.trans (h.entry m' hm').key.symm)
    · rw [hfind]
      refine .inr ⟨?_, rfl⟩
      intro m hm heq
      obtain rfl : i = s.slot m := Int.ofNat_inj.1 heq
      exact hne m hm (h.entry m hm).key

end Inv

end LwpShm

end RtThread
