import RtThread.Lwp.AvlTree

/-!
# Runs on the AVL tree of the processes

- `lwp_avl_find`, `lwp_avl_traversal` and `lwp_map_find_first` on a balanced search tree (`find_at`, `traversal_at`,
  `findFirst_at`);
- every run of insertions of nodes with new keys and removals of linked nodes keeps a balanced search tree of the nodes
  inserted and not removed (`step_tree`, `lwp_avl_run`);
- a tree of fewer than 2^20 nodes is not higher than the array of the stack (`ht_le_maxheight`).
-/

namespace RtThread.LwpAvl

open HeightTree

variable {s s' : LwpAvl} {t t' l r : HeightTree Nat} {a k n : Nat} {ids : List Nat}

/-! ## Searching and visiting -/

/-- The nodes below a link in the order of a traversal. -/
inductive InOrder (s : LwpAvl) : Option Nat → List Nat → Prop
  | none : InOrder s none []
  | some {i : Nat} {xs ys : List Nat} (hl : InOrder s (s.node i).avlLeft xs) (hr : InOrder s (s.node i).avlRight ys) :
      InOrder s (some i) (xs ++ i :: ys)

theorem inOrder_of_linked (ht : Linked s.node t) : InOrder s t.root t.keys := by
  induction t with
  | nil => exact .none
  | node h l a r ihl ihr =>
    obtain ⟨ha, hl, hr⟩ := ht
    have hxs := ihl hl
    have hys := ihr hr
    rw [← ha.1] at hxs
    rw [← ha.2.1] at hys
    exact .some hxs hys

theorem find_at (ht : Linked s.node t) (hsort : Sorted s t.keys) (hn : t.keys.length ≤ n) :
    (∀ i ∈ t.keys, s.lwpAvlFind (s.node i).avlKey n t.root = some (some i)) ∧
      ∀ k, (∀ i ∈ t.keys, (s.node i).avlKey ≠ k) → s.lwpAvlFind k n t.root = some none := by
  induction t generalizing n with
  | nil =>
    refine ⟨fun i hi => (by cases hi), fun k _ => ?_⟩
    cases n <;> rfl
  | node h l a r ihl ihr =>
    obtain ⟨ha, hl, hr⟩ := ht
    obtain ⟨hsl, hsr, hlt, hgt⟩ := hsort.node
    rw [keys, List.length_append, List.length_cons] at hn
    obtain ⟨n, rfl⟩ := Nat.exists_eq_succ_of_ne_zero (Nat.ne_of_gt (Nat.lt_of_lt_of_le (Nat.succ_pos _) hn))
    obtain ⟨hfindl, hnonel⟩ := ihl (n := n) hl hsl (by omega)
    obtain ⟨hfindr, hnoner⟩ := ihr (n := n) hr hsr (by omega)
    constructor
    · intro i hi
      rw [root_node, lwpAvlFind, ha.1, ha.2.1]
      rcases List.mem_append.1 hi with hi | hi
      · have hkey := hlt i hi
        rw [if_neg (Nat.ne_of_lt hkey), if_pos hkey]
        exact hfindl i hi
      · rcases List.mem_cons.1 hi with rfl | hi
        · rw [if_pos rfl]
        · have hkey := hgt i hi
          rw [if_neg (Nat.ne_of_gt hkey), if_neg (Nat.lt_asymm hkey)]
          exact hfindr i hi
    · intro k hk
      rw [root_node, lwpAvlFind, ha.1, ha.2.1, if_neg (hk a (by simp)).symm]
      split
      · exact hnonel k fun i hi => hk i (by simp [hi])
      · exact hnoner k fun i hi => hk i (by simp [hi])

/-- The nodes are visited one after the other, up to the first result that is not zero. -/
def visit {σ : Type} (f : Nat → σ → Int × σ) : List Nat → σ → Int × σ
  | [], arg => (0, arg)
  | i :: is, arg => if (f i arg).1 ≠ 0 then f i arg else visit f is (f i arg).2

theorem visit_append {σ : Type} (f : Nat → σ → Int × σ) (xs ys : List Nat) (arg : σ) :
    visit f (xs ++ ys) arg = if (visit f xs arg).1 ≠ 0 then visit f xs arg else visit f ys (visit f xs arg).2 := by
  induction xs generalizing arg with
  | nil => simp [visit]
  | cons i xs ih =>
    rw [List.cons_append, visit, visit, ih]
    by_cases hret : (f i arg).1 = 0
    · rw [if_neg (not_not_intro hret), if_neg (not_not_intro hret)]
    · simp only [if_pos hret]

theorem traversal_at {σ : Type} (f : Nat → σ → Int × σ) (ht : Linked s.node t) (hn : t.keys.length ≤ n) (arg : σ) :
    s.lwpAvlTraversal f n t.root arg = some (visit f t.keys arg) := by
  induction t generalizing n arg with
  | nil => cases n <;> rfl
  | node h l a r ihl ihr =>
    obtain ⟨ha, hl, hr⟩ := ht
    rw [keys, List.length_append, List.length_cons] at hn
    obtain ⟨n, rfl⟩ := Nat.exists_eq_succ_of_ne_zero (Nat.ne_of_gt (Nat.lt_of_lt_of_le (Nat.succ_pos _) hn))
    -- a link that is null is not followed, and nothing would be visited there
    have hchild : ∀ (t' : HeightTree Nat) (x : σ), s.lwpAvlTraversal f n t'.root x = some (visit f t'.keys x) →
        t'.root.elim (some (0, x)) (fun _ => s.lwpAvlTraversal f n t'.root x) = some (visit f t'.keys x) := by
      intro t' x h
      cases t' with
      | nil => rfl
      | node => exact h
    rw [root_node, lwpAvlTraversal, ha.1, ha.2.1, hchild l arg (ihl hl (by omega) arg), keys, visit_append]
    dsimp only
    by_cases hret : (visit f l.keys arg).1 = 0
    · rw [if_neg (not_not_intro hret), if_neg (not_not_intro hret), visit]
      by_cases hret' : (f a (visit f l.keys arg).2).1 = 0
      · rw [if_neg (not_not_intro hret'), if_neg (not_not_intro hret'), hret']
        exact hchild r _ (ihr hr (by omega) _)
      · rw [if_pos hret', if_pos hret']
    · rw [if_pos hret, if_pos hret]

theorem findFirst_at (ht : Linked s.node t) (hn : t.keys.length ≤ n) :
    s.lwpMapFindFirst n t.root = some t.keys.head? := by
  induction t generalizing n with
  | nil => cases n <;> rfl
  | node h l a r ihl ihr =>
    obtain ⟨ha, hl, hr⟩ := ht
    rw [keys, List.length_append, List.length_cons] at hn
    obtain ⟨n, rfl⟩ := Nat.exists_eq_succ_of_ne_zero (Nat.ne_of_gt (Nat.lt_of_lt_of_le (Nat.succ_pos _) hn))
    rw [root_node, lwpMapFindFirst, ha.1]
    cases l with
    | nil => rfl
    | node hl' ll b lr =>
      have hfirst := ihl (n := n) hl (by omega)
      rw [root_node] at hfirst ⊢
      dsimp only
      rw [hfirst]
      simp [List.head?_append]

/-! ## Runs -/

/-- A tree of fewer than 2^20 nodes is lower than the array of the stack. -/
theorem ht_le_maxheight (hb : t.Balanced) (hn : t.keys.length < 2 ^ 20) : t.ht ≤ avlMaxheight := by
  by_contra hlt
  have hfib := hb.fib_le
  have hmono : Nat.fib 35 ≤ Nat.fib (t.ht + 2) := Nat.fib_mono (by rw [avlMaxheight] at hlt; omega)
  have hval : 2 ^ 20 < Nat.fib 35 := by decide
  omega

/-- The heap of one tree, and the nodes that have been inserted and not removed. -/
structure Nodes where
  heap : LwpAvl
  live : List Nat

inductive AvlOp
  | insert (node key : Nat)
  | remove (node : Nat)

/-- A node with a new key is inserted, or a linked one removed. -/
inductive Step : Nodes → AvlOp → Nodes → Prop
  | insert {s s' : LwpAvl} {live : List Nat} {node key : Nat} (hnew : node ∉ live)
      (hkey : ∀ i ∈ live, (s.node i).avlKey ≠ key) (hr : (s.setKey node key).lwpAvlInsert node = some s') :
      Step ⟨s, live⟩ (.insert node key) ⟨s', node :: live⟩
  | remove {s s' : LwpAvl} {live : List Nat} {node : Nat} (hlive : node ∈ live) (hr : s.lwpAvlRemove node = some s') :
      Step ⟨s, live⟩ (.remove node) ⟨s', live.erase node⟩

/-- The live nodes are those of a balanced tree, in the order of their keys. -/
structure Tree (s : LwpAvl) (live : List Nat) (t : HeightTree Nat) : Prop where
  tree : At s [] t
  balanced : t.Balanced
  live : t.keys.Perm live
  sorted : Sorted s t.keys

namespace Tree

variable {live : List Nat}

section

variable (h : Tree s live t)

include h

theorem mem_iff {i : Nat} : i ∈ t.keys ↔ i ∈ live := h.live.mem_iff

theorem root : s.ptree = t.root := h.tree.above

/-- A write to nodes that are not in the tree. -/
theorem congr (hroot : s'.ptree = s.ptree) (hnode : ∀ i ∈ live, s'.node i = s.node i) :
    Tree s' live t where
  tree := h.tree.congr hroot fun i hi => hnode i (h.mem_iff.1 (by simpa [outside] using hi))
  balanced := h.balanced
  live := h.live
  sorted := h.sorted.congr fun i hi => by rw [hnode i (h.mem_iff.1 hi)]

theorem insert (ha : a ∉ live) (hk : ∀ i ∈ live, (s.node i).avlKey ≠ (s.node a).avlKey) :
    (∃ s' t', s.lwpAvlInsert a = some s' ∧ Tree s' (a :: live) t' ∧ Keeps s s' (a :: live)) ∨
      avlMaxheight < t.ht ∧ s.lwpAvlInsert a = none := by
  rcases insert_at h.tree h.balanced h.sorted (fun hmem => ha (h.mem_iff.1 hmem)) (fun i hi => hk i (h.mem_iff.1 hi)) with
    ⟨s', t', xs, ys, hr, hs', hb, hkeys, hkeys', hsort, hkeep⟩ | hfull
  · left
    refine ⟨s', t', hr, ⟨hs', hb, ?_, hsort⟩, hkeep.mono fun i hi => ?_⟩
    · rw [hkeys']
      refine List.perm_middle.trans (.cons a ?_)
      rw [← hkeys]
      exact h.live
    · exact List.mem_cons.2 ((List.mem_cons.1 hi).imp_right h.mem_iff.1)
  · exact .inr hfull

theorem remove (ha : a ∈ live) :
    (∃ s' t', s.lwpAvlRemove a = some s' ∧ Tree s' (live.erase a) t' ∧ Keeps s s' live) ∨
      avlMaxheight < t.ht ∧ s.lwpAvlRemove a = none := by
  rcases remove_at h.tree h.balanced h.sorted (h.mem_iff.2 ha) with ⟨s', t', hr, hs', hb, hkeys, hkeep⟩ | hfull
  · left
    refine ⟨s', t', hr, ⟨hs', hb, ?_, ?_⟩, hkeep.mono fun i hi => h.mem_iff.1 hi⟩
    · rw [hkeys]
      exact h.live.erase a
    · rw [hkeys]
      have hsort : Sorted s (t.keys.erase a) := h.sorted.sublist List.erase_sublist
      exact hsort.congr fun i _ => hkeep.key i
  · exact .inr hfull

/-- A heap with the same links, heights and keys. -/
theorem of_links (hroot : s'.ptree = s.ptree)
    (hnode : ∀ i, (s'.node i).avlLeft = (s.node i).avlLeft ∧ (s'.node i).avlRight = (s.node i).avlRight ∧
      (s'.node i).avlHeight = (s.node i).avlHeight ∧ (s'.node i).avlKey = (s.node i).avlKey) : Tree s' live t where
  tree :=
    ⟨h.tree.below.of_links fun i => ⟨(hnode i).1, (hnode i).2.1, (hnode i).2.2.1⟩, hroot.trans h.tree.above, h.tree.nodup⟩
  balanced := h.balanced
  live := h.live
  sorted := h.sorted.congr fun i _ => (hnode i).2.2.2

theorem setData (i : Nat) (x : Option Nat) : Tree (s.setData i x) live t := by
  refine h.of_links rfl fun j => ?_
  by_cases hj : j = i
  · subst hj
    simp [LwpAvl.setData]
  · simp [LwpAvl.setData, hj]

/-- `lwp_avl_find` from the root. -/
theorem find (hn : live.length ≤ n) :
    (∀ i ∈ live, s.lwpAvlFind (s.node i).avlKey n s.ptree = some (some i)) ∧
      ∀ k, (∀ i ∈ live, (s.node i).avlKey ≠ k) → s.lwpAvlFind k n s.ptree = some none := by
  have hlen : t.keys.length ≤ n := Nat.le_trans (Nat.le_of_eq h.live.length_eq) hn
  obtain ⟨h1, h2⟩ := find_at h.tree.below h.sorted hlen
  rw [h.root]
  exact ⟨fun i hi => h1 i (h.mem_iff.2 hi), fun k hk => h2 k fun i hi => hk i (h.mem_iff.1 hi)⟩

theorem find_cases (hn : live.length ≤ n) (k : Nat) :
    (∃ i ∈ live, s.lwpAvlFind k n s.ptree = some (some i) ∧ (s.node i).avlKey = k) ∨
      s.lwpAvlFind k n s.ptree = some none ∧ ∀ i ∈ live, (s.node i).avlKey ≠ k := by
  obtain ⟨h1, h2⟩ := h.find hn
  by_cases hex : ∃ i ∈ live, (s.node i).avlKey = k
  · obtain ⟨i, hi, rfl⟩ := hex
    exact .inl ⟨i, hi, h1 i hi, rfl⟩
  · have hall : ∀ i ∈ live, (s.node i).avlKey ≠ k := fun i hi heq => hex ⟨i, hi, heq⟩
    exact .inr ⟨h2 k hall, hall⟩

theorem keys_ne : live.Pairwise fun i j => (s.node i).avlKey ≠ (s.node j).avlKey := by
  have hpair : t.keys.Pairwise fun i j => (s.node i).avlKey ≠ (s.node j).avlKey := List.Pairwise.imp Nat.ne_of_lt h.sorted
  exact (h.live.pairwise_iff fun hne => hne.symm).1 hpair

theorem key_ne {i j : Nat} (hi : i ∈ live) (hj : j ∈ live) (hne : i ≠ j) :
    (s.node i).avlKey ≠ (s.node j).avlKey := by
  have hsymm : Std.Symm fun i j => (s.node i).avlKey ≠ (s.node j).avlKey := ⟨fun _ _ hxy => hxy.symm⟩
  exact h.keys_ne.forall hi hj hne

end

end Tree

variable {q q' : Nodes} {op : AvlOp} {ops : List AvlOp}

theorem Tree.setKey {live : List Nat} {node key : Nat} (h : Tree s live t) (hnew : node ∉ live) :
    Tree (s.setKey node key) live t :=
  h.congr rfl fun _ hi => Function.update_of_ne (ne_of_mem_of_not_mem hi hnew) _ _

theorem step_tree (h : Tree q.heap q.live t) (hs : Step q op q') : ∃ t', Tree q'.heap q'.live t' := by
  cases hs with
  | @insert s s' live node key hnew hkey hr =>
    have hother : ∀ i ∈ live, (s.setKey node key).node i = s.node i := fun i hi =>
      Function.update_of_ne (ne_of_mem_of_not_mem hi hnew) _ _
    have hself : ((s.setKey node key).node node).avlKey = key := by simp [setKey]
    rcases (h.setKey hnew).insert hnew (fun i hi => by rw [hother i hi, hself]; exact hkey i hi) with
      ⟨s1, t', hr', htree, -⟩ | ⟨-, hfull⟩
    · cases hr.symm.trans hr'
      exact ⟨t', htree⟩
    · exact absurd (hr.symm.trans hfull) (by simp)
  | @remove s s' live node hlive hr =>
    rcases Tree.remove h hlive with ⟨s1, t', hr', htree, -⟩ | ⟨-, hfull⟩
    · cases hr.symm.trans hr'
      exact ⟨t', htree⟩
    · exact absurd (hr.symm.trans hfull) (by simp)

/-- The links, heights and order of a balanced search tree of the live nodes, and what the functions find in it. -/
structure Avl (q : Nodes) : Prop where
  height : ∀ i ∈ q.live, (q.heap.node i).avlHeight =
    1 + max (q.heap.heightof (q.heap.node i).avlLeft) (q.heap.heightof (q.heap.node i).avlRight)
  balance : ∀ i ∈ q.live,
    q.heap.heightof (q.heap.node i).avlLeft ≤ q.heap.heightof (q.heap.node i).avlRight + 1 ∧
      q.heap.heightof (q.heap.node i).avlRight ≤ q.heap.heightof (q.heap.node i).avlLeft + 1
  order : ∃ ids, InOrder q.heap q.heap.ptree ids ∧ ids.Perm q.live ∧ Sorted q.heap ids ∧
    ∀ n ≥ q.live.length, q.heap.lwpMapFindFirst n q.heap.ptree = some ids.head? ∧
      ∀ {σ : Type} (f : Nat → σ → Int × σ) (arg : σ),
        q.heap.lwpAvlTraversal f n q.heap.ptree arg = some (visit f ids arg)
  find : ∀ n ≥ q.live.length, (∀ i ∈ q.live, q.heap.lwpAvlFind (q.heap.node i).avlKey n q.heap.ptree = some (some i)) ∧
    ∀ k, (∀ i ∈ q.live, (q.heap.node i).avlKey ≠ k) → q.heap.lwpAvlFind k n q.heap.ptree = some none

theorem Tree.avl (h : Tree q.heap q.live t) : Avl q := by
  have hpos : ∀ i ∈ q.live, ∃ c h l r, At q.heap c (.node h l i r) ∧ (HeightTree.node h l i r).Balanced := by
    intro i hi
    obtain ⟨c, h', l, r, rfl⟩ := exists_plug_of_mem (h.mem_iff.2 hi)
    exact ⟨c, h', l, r, at_plug_iff.1 h.tree, ((balanced_plug _ _).1 h.balanced).1⟩
  refine ⟨?_, ?_, ⟨t.keys, ?_, h.live, h.sorted, ?_⟩, fun n hn => h.find hn⟩
  · intro i hi
    obtain ⟨c, h', l, r, hat, hb⟩ := hpos i hi
    rw [hat.below.1.1, hat.below.1.2.1, hat.below.1.2.2, heightof_root hat.below.2.1, heightof_root hat.below.2.2,
      hb.2.2.1, Nat.add_comm]
  · intro i hi
    obtain ⟨c, h', l, r, hat, hb⟩ := hpos i hi
    rw [hat.below.1.1, hat.below.1.2.1, heightof_root hat.below.2.1, heightof_root hat.below.2.2]
    exact hb.2.2.2
  · rw [h.root]
    exact inOrder_of_linked h.tree.below
  · intro n hn
    have hlen : t.keys.length ≤ n := Nat.le_trans (Nat.le_of_eq h.live.length_eq) hn
    rw [h.root]
    exact ⟨findFirst_at h.tree.below hlen, fun f arg => traversal_at f h.tree.below hlen arg⟩

/-- In every run from the empty tree the heap holds a balanced search tree of the nodes inserted and not removed, in
which the functions find what they should; and with fewer than 2^20 nodes every further call stays in its stack. -/
theorem lwp_avl_run {node : Nat → LwpAvlStruct} (hr : Runs.Run Step ⟨⟨none, node⟩, []⟩ ops q) :
    Avl q ∧ (q.live.length < 2 ^ 20 →
      (∀ i key, i ∉ q.live → (∀ j ∈ q.live, (q.heap.node j).avlKey ≠ key) → ∃ q', Step q (.insert i key) q') ∧
      ∀ i ∈ q.live, ∃ q', Step q (.remove i) q') := by
  have hinv : ∃ t, Tree q.heap q.live t := by
    refine hr.invariant (I := fun q => ∃ t, Tree q.heap q.live t) ?_ ?_
    · exact ⟨.nil, ⟨trivial, rfl, List.nodup_nil⟩, trivial, .nil, .nil⟩
    · rintro q op q' ⟨t, ht⟩ hs
      exact step_tree ht hs
  obtain ⟨t, ht⟩ := hinv
  refine ⟨ht.avl, fun hlen => ?_⟩
  have hheight := ht_le_maxheight ht.balanced (by rwa [ht.live.length_eq])
  obtain ⟨heap, live⟩ := q
  constructor
  · intro i key hnew hkey
    have hother : ∀ j ∈ live, (heap.setKey i key).node j = heap.node j := fun j hj =>
      Function.update_of_ne (ne_of_mem_of_not_mem hj hnew) _ _
    have hself : ((heap.setKey i key).node i).avlKey = key := by simp [setKey]
    rcases (ht.setKey hnew).insert hnew (fun j hj => by rw [hother j hj, hself]; exact hkey j hj) with
      ⟨s1, t', hr', -⟩ | ⟨hhigh, -⟩
    · exact ⟨_, .insert hnew hkey hr'⟩
    · exact absurd hhigh (Nat.not_lt.2 hheight)
  · intro i hi
    rcases Tree.remove ht hi with ⟨s1, t', hr', -⟩ | ⟨hhigh, -⟩
    · exact ⟨_, .remove hi hr'⟩
    · exact absurd hhigh (Nat.not_lt.2 hheight)

/-- Three nodes in increasing order, which takes a rotation, and the root is removed. -/
theorem lwp_avl_run_three :
    ∃ q, Runs.Run Step ⟨⟨none, fun _ => ⟨none, none, 0, 0, none⟩⟩, []⟩
        ([] ++ [.insert 0 1] ++ [.insert 1 2] ++ [.insert 2 3] ++ [.remove 1]) q ∧
      q.live = [2, 0] ∧ q.heap.ptree = some 0 ∧ Avl q ∧ ∃ q', Step q (.insert 1 2) q' := by
  have h1 : Runs.Run Step ⟨⟨none, fun _ => ⟨none, none, 0, 0, none⟩⟩, []⟩ ([] ++ [.insert 0 1]) _ :=
    .snoc .nil (.insert (by decide) (by decide) rfl)
  have h2 : Runs.Run Step _ (_ ++ [.insert 1 2]) _ := h1.snoc (.insert (by decide) (by decide) rfl)
  have h3 : Runs.Run Step _ (_ ++ [.insert 2 3]) _ := h2.snoc (.insert (by decide) (by decide) rfl)
  have h4 : Runs.Run Step _ (_ ++ [.remove 1]) _ := h3.snoc (.remove (by decide) rfl)
  have hrun := lwp_avl_run h4
  exact ⟨_, h4, rfl, rfl, hrun.1, (hrun.2 (by decide)).1 1 2 (by decide) (by decide)⟩

end RtThread.LwpAvl
