import Mathlib.Data.List.Perm.Basic
import Mathlib.Order.Lattice
import RtThread.Lib.Runs
import RtThread.Mm.AvlRemove

/-!
# AVL trees in all runs

Nodes are linked at the leaf position for their key, and removed, in any order. In every state reached the links are
consistent, the heights are right, no two children differ by more than one, and the nodes in order are those linked and
not removed, in the order of their keys; `util_avl_first` and `util_avl_next` go through them (`avl_run`).
-/

namespace RtThread.UtilAvl

open HeightTree

variable {s s' : UtilAvl} {c : List (Limb Nat)} {t l r : HeightTree Nat} {x : Option Nat} {a b h n : Nat}
  {xs ys ids live live' : List Nat}

/-- The nodes below a link, in order. -/
inductive InOrder (s : UtilAvl) : Option Nat → List Nat → Prop
  | null : InOrder s none []
  | node {i : Nat} {xs ys : List Nat} (hl : InOrder s (s.node i).avlLeft xs) (hr : InOrder s (s.node i).avlRight ys) :
      InOrder s (some i) (xs ++ i :: ys)

theorem inOrder_of_linked (ht : Linked s.node x t) : InOrder s t.root t.keys := by
  induction t generalizing x with
  | nil => exact .null
  | node h l a r ihl ihr =>
    obtain ⟨ha, hl, hr⟩ := ht
    refine .node ?_ ?_
    · rw [ha]
      exact ihl hl
    · rw [ha]
      exact ihr hr

/-! ## First and next -/

theorem leftmost_at (ht : Linked s.node x (.node h l a r)) (hn : l.keys.length < n) :
    ∃ d, leftmost n s a = some d ∧ (HeightTree.node h l a r).keys.head? = some d := by
  induction l generalizing x h a r n with
  | nil =>
    obtain ⟨n, rfl⟩ := Nat.exists_eq_succ_of_ne_zero (Nat.ne_of_gt (Nat.zero_lt_of_lt hn))
    refine ⟨a, ?_, rfl⟩
    rw [leftmost, ht.1]
    rfl
  | node h' l' b r' ihl _ =>
    obtain ⟨n, rfl⟩ := Nat.exists_eq_succ_of_ne_zero (Nat.ne_of_gt (Nat.zero_lt_of_lt hn))
    have hlt : l'.keys.length < n := by
      rw [keys, List.length_append, List.length_cons] at hn
      omega
    obtain ⟨d, h1, h2⟩ := ihl ht.2.1 hlt
    refine ⟨d, ?_, ?_⟩
    · rw [leftmost, ht.1]
      exact h1
    · rw [keys, List.head?_append, h2]
      rfl

theorem first_at (hs : At s [] t) (hn : t.keys.length ≤ n) : utilAvlFirst n s = some t.keys.head? := by
  have hroot : s.rootNode = t.root := hs.above
  unfold utilAvlFirst
  rw [hroot]
  cases t with
  | nil => rfl
  | node h l a r =>
    have hlt : l.keys.length < n := by
      rw [keys, List.length_append, List.length_cons] at hn
      omega
    obtain ⟨d, h1, h2⟩ := leftmost_at hs.below hlt
    rw [root_node]
    dsimp only
    rw [h1, h2]
    rfl

/-- Going up from a node without a right child comes to the first node after the position. -/
theorem nextUp_at (hs : At s c t) (ha : t.root = some a) (hn : c.length < n) :
    nextUp n s a = some (after c).head? := by
  induction c generalizing t a n with
  | nil =>
    obtain ⟨n, rfl⟩ := Nat.exists_eq_succ_of_ne_zero (Nat.ne_of_gt hn)
    rw [nextUp, hs.root_parent ha]
    rfl
  | cons f c ih =>
    obtain ⟨n, rfl⟩ := Nat.exists_eq_succ_of_ne_zero (Nat.ne_of_gt (Nat.zero_lt_of_lt hn))
    have hf : s.node f.key = cell t.root (owner c) f := hs.above.1
    rw [nextUp, hs.root_parent ha]
    dsimp only [owner]
    rw [hf, ha]
    cases f with
    | left h b r =>
      have hne : r.root ≠ some a := by
        intro e
        refine (List.nodup_append.1 hs.nodup).2.2 a (root_mem ha) a ?_ rfl
        exact List.mem_cons_of_mem _ (List.mem_append_left _ (root_mem e))
      exact if_neg hne
    | right h l b =>
      have hup : At s c (.node h l b t) := At.up (f := .right h l b) hs
      refine (if_pos rfl).trans (ih hup rfl ?_)
      rw [List.length_cons] at hn
      omega

theorem next_at (hs : At s c (.node h l a r)) (hn : (plug c (.node h l a r)).keys.length ≤ n) :
    utilAvlNext n s a = some (r.keys ++ after c).head? := by
  have hc := length_lt_keys c h l r a
  unfold utilAvlNext
  rw [hs.below.1]
  cases r with
  | nil => exact nextUp_at hs rfl (hc.trans_le hn)
  | node hr rl b rr =>
    have hlt : rl.keys.length < n := by
      rw [keys_plug] at hn
      simp only [keys, List.length_append, List.length_cons] at hn
      omega
    obtain ⟨d, h1, h2⟩ := leftmost_at hs.below.2.2 hlt
    dsimp only [root_node]
    rw [h1, List.head?_append, h2]
    rfl

/-- `util_avl_next` of a node of the tree. -/
theorem next_of_keys (hs : At s [] t) (ht : t.keys = xs ++ a :: ys) (hn : t.keys.length ≤ n) :
    utilAvlNext n s a = some ys.head? := by
  obtain ⟨c, h, l, r, rfl⟩ := exists_plug_of_mem (t := t) (a := a) (by rw [ht]; simp)
  have hs := at_plug_iff.1 hs
  rw [next_at hs hn]
  have hnd := (keys_plug_perm c (.node h l a r)).nodup_iff.2 hs.nodup
  have hkeys : (plug c (.node h l a r)).keys = (before c ++ l.keys) ++ a :: (r.keys ++ after c) := by
    rw [keys_plug]
    simp
  have hbefore : a ∉ before c ++ l.keys := by
    rw [hkeys] at hnd
    exact fun hmem => (List.nodup_append.1 hnd).2.2 a hmem a List.mem_cons_self rfl
  have hafter : a ∉ r.keys ++ after c := by
    rw [hkeys] at hnd
    exact (List.nodup_cons.1 (List.nodup_append.1 hnd).2.1).1
  rw [hkeys] at ht
  rw [((List.append_cons_inj_of_notMem hbefore hafter).1 ht).2.2]

/-- The first node has no left child, and no node before it. -/
theorem exists_first (hs : At s [] t) (ht : t.keys = a :: ys) :
    ∃ c h r, t = plug c (.node h .nil a r) ∧ before c = [] := by
  obtain ⟨c, h, l, r, rfl⟩ := exists_plug_of_mem (t := t) (a := a) (by rw [ht]; simp)
  have hnd := (keys_plug_perm c (.node h l a r)).nodup_iff.2 (at_plug_iff.1 hs).nodup
  have hkeys : (plug c (.node h l a r)).keys = (before c ++ l.keys) ++ a :: (r.keys ++ after c) := by
    rw [keys_plug]
    simp
  rw [hkeys] at ht hnd
  cases hfirst : before c ++ l.keys with
  | cons b zs =>
    rw [hfirst] at ht hnd
    obtain rfl := (List.cons.inj ht).1
    exact absurd (by simp) (List.nodup_cons.1 hnd).1
  | nil =>
    obtain ⟨hbefore, hl⟩ := List.append_eq_nil_iff.1 hfirst
    cases l with
    | nil => exact ⟨c, h, r, rfl, hbefore⟩
    | node _ _ _ _ => simp at hl

/-- After the first node was removed, its own links lead to the node after it. -/
theorem next_of_removed_first (hs : At s [] t) (hb : t.Balanced) (ht : t.keys = a :: ys) (hs' : At s' [] t')
    (ht' : t'.keys = ys) (hkept : s'.node a = s.node a) (hn : t.keys.length ≤ n) :
    utilAvlNext n s' a = some ys.head? := by
  obtain ⟨c, h, r, rfl, hbefore⟩ := exists_first hs ht
  have hat := at_plug_iff.1 hs
  have hlen : 0 < n := by
    rw [ht] at hn
    exact Nat.lt_of_lt_of_le (Nat.zero_lt_succ _) hn
  have hys : ys = r.keys ++ after c := by
    rw [keys_plug, hbefore] at ht
    simpa using (List.cons.inj ht).2.symm
  have hnot : a ∉ ys := by
    have hnd := (keys_plug_perm c (.node h .nil a r)).nodup_iff.2 hat.nodup
    rw [ht] at hnd
    exact (List.nodup_cons.1 hnd).1
  unfold utilAvlNext
  rw [hkept, hat.below.1]
  obtain ⟨n, rfl⟩ := Nat.exists_eq_succ_of_ne_zero (Nat.ne_of_gt hlen)
  cases r with
  | nil =>
    -- the node above is next, and its right child is another node
    dsimp only [root_nil]
    rw [nextUp, hkept, hat.below.1]
    cases c with
    | nil =>
      rw [hys]
      rfl
    | cons f c =>
      cases f with
      | right k l b => simp [Limb.before] at hbefore
      | left k b r =>
        have hmem : b ∈ t'.keys := by
          rw [ht', hys]
          simp [Limb.after]
        have hne : (s'.node b).avlRight ≠ some a := by
          intro he
          exact hnot (ht' ▸ hs'.closed.right b hmem a he)
        dsimp only [owner, Limb.key]
        rw [if_neg hne, hys]
        rfl
  | node k r1 b r2 =>
    -- the balance leaves room for one node to the right, which is then the first
    obtain ⟨-, ⟨hb1, -, hk, -⟩, -, -, hht⟩ := ((balanced_plug _ _).1 hb).1
    rw [ht_node, ht_nil] at hht
    obtain rfl := hb1.eq_nil (by omega)
    have hkeys : t'.keys = b :: (r2.keys ++ after c) := by rw [ht', hys]; rfl
    obtain ⟨c', h', r', rfl, -⟩ := exists_first hs' hkeys
    obtain ⟨d, h1, h2⟩ := leftmost_at (n := n + 1) (at_plug_iff.1 hs').below (Nat.zero_lt_succ n)
    dsimp only [root_node]
    rw [h1, hys]
    exact congrArg some h2.symm

/-! ## Fuel -/

theorem utilAvlRebalance_succ (hr : utilAvlRebalance n s x = some s') : utilAvlRebalance (n + 1) s x = some s' := by
  induction n generalizing s x with
  | zero =>
    cases x with
    | none => exact hr
    | some a => cases hr
  | succ n ih =>
    cases x with
    | none => exact hr
    | some a =>
      rw [utilAvlRebalance] at hr ⊢
      split at hr
      · cases hr
      · exact hr
      · exact ih hr

theorem successorLoop_succ {p i : Nat} {q : Nat × Nat} (hr : successorLoop n s p i = some q) :
    successorLoop (n + 1) s p i = some q := by
  induction n generalizing p i with
  | zero => cases hr
  | succ n ih =>
    rw [successorLoop] at hr ⊢
    split at hr
    · exact hr
    · exact ih hr

theorem utilAvlRemove_succ (hr : utilAvlRemove n s a = some s') : utilAvlRemove (n + 1) s a = some s' := by
  unfold utilAvlRemove at hr ⊢
  split_ifs at hr ⊢ with hroot
  · exact hr
  · dsimp only at hr ⊢
    split at hr
    · exact utilAvlRebalance_succ hr
    · split at hr
      · split at hr
        · cases hr
        · rename_i h1
          rw [utilAvlRebalance_succ h1]
          exact utilAvlRebalance_succ hr
      · split at hr
        · cases hr
        · rename_i h1
          rw [successorLoop_succ h1]
          dsimp only
          split at hr
          · cases hr
          · split at hr
            · cases hr
            · rename_i h2
              rw [utilAvlRebalance_succ h2]
              exact utilAvlRebalance_succ hr

/-- A computation that more n does not change has one result. -/
theorem result_unique {f : Nat → Option UtilAvl} (hf : ∀ n s, f n = some s → f (n + 1) = some s) {m n : Nat}
    (h1 : f m = some s) (h2 : f n = some s') : s = s' := by
  have hmono : ∀ k n s, f n = some s → f (n + k) = some s := by
    intro k
    induction k with
    | zero => exact fun n s h => h
    | succ k ih => exact fun n s h => hf _ _ (ih n s h)
  have h3 := hmono n m s h1
  rw [Nat.add_comm, hmono m n s' h2] at h3
  exact (Option.some.inj h3).symm

/-! ## Runs -/

section Run

variable {K : Type} [LinearOrder K] {key : Nat → K} {k : K}

variable {nodeplace : NodePlace} {parent : Option Nat} {node : Nat}

/-- The search for a key comes to a position with the smaller keys before it and the larger ones after it. -/
theorem Search.position (h : Search s key k nodeplace parent) (hs : At s [] t)
    (hsort : t.keys.Pairwise fun i j => key i < key j) :
    ∃ c t', t = plug c t' ∧ nodeplace = place c ∧ parent = owner c ∧ (∀ i ∈ before c, key i < k) ∧
      ∀ i ∈ after c, k < key i := by
  induction h with
  | root => exact ⟨[], t, rfl, rfl, rfl, by simp, by simp⟩
  | @left place' above current _ hget hk ih =>
    obtain ⟨c, t', rfl, rfl, rfl, hbefore, hafter⟩ := ih
    have hat := at_plug_iff.1 hs
    rw [hat.above.get_place] at hget
    cases t' with
    | nil => cases hget
    | node h l a r =>
      obtain rfl := Option.some.inj hget
      refine ⟨.left h a r :: c, l, rfl, rfl, rfl, ?_, ?_⟩
      · intro i hi
        exact hbefore i (by simpa [Limb.before] using hi)
      · intro i hi
        rw [keys_plug, keys, List.append_assoc, List.append_assoc] at hsort
        have h1 := (List.pairwise_append.1 (List.pairwise_append.1 hsort).2.1).2.1
        rw [List.cons_append, List.pairwise_cons] at h1
        rcases List.mem_append.1 hi with hi | hi
        · rcases List.mem_cons.1 hi with rfl | hi
          · exact hk
          · exact hk.trans (h1.1 i (List.mem_append_left _ hi))
        · exact hafter i hi
  | @right place' above current _ hget hk ih =>
    obtain ⟨c, t', rfl, rfl, rfl, hbefore, hafter⟩ := ih
    have hat := at_plug_iff.1 hs
    rw [hat.above.get_place] at hget
    cases t' with
    | nil => cases hget
    | node h l a r =>
      obtain rfl := Option.some.inj hget
      refine ⟨.right h l a :: c, r, rfl, rfl, rfl, ?_, ?_⟩
      · intro i hi
        rcases List.mem_append.1 hi with hi | hi
        · exact hbefore i hi
        · rw [keys_plug, keys, List.append_assoc, List.append_assoc] at hsort
          have h1 := (List.pairwise_append.1 (List.pairwise_append.1 hsort).2.1).2.2
          rcases List.mem_append.1 hi with hi | hi
          · exact (h1 i hi a List.mem_cons_self).trans hk
          · obtain rfl := List.mem_singleton.1 hi
            exact hk
      · intro i hi
        exact hafter i (by simpa [Limb.after] using hi)

/-- A heap, the keys of the nodes, and the nodes that have been linked and not removed. -/
structure Forest (K : Type) where
  heap : UtilAvl
  key : Nat → K
  live : List Nat

inductive AvlOp (K : Type)
  | link (node : Nat) (k : K) (parent : Option Nat) (nodeplace : NodePlace)
  | remove (node : Nat)

/-- A node is linked at the leaf position for its key, and the tree rebalanced from the parent; or a node is removed. -/
inductive Step : Forest K → AvlOp K → Forest K → Prop
  | link {s s' : UtilAvl} {key : Nat → K} {live : List Nat} {node : Nat} {k : K} {parent : Option Nat}
      {nodeplace : NodePlace} {n : Nat} (hnew : node ∉ live) (hsearch : Search s key k nodeplace parent)
      (hleaf : s.get nodeplace = none)
      (hr : utilAvlRebalance n (s.utilAvlLink node parent nodeplace) parent = some s') :
      Step ⟨s, key, live⟩ (.link node k parent nodeplace) ⟨s', Function.update key node k, node :: live⟩
  | remove {s s' : UtilAvl} {key : Nat → K} {live : List Nat} {node n : Nat} (hlive : node ∈ live)
      (hr : utilAvlRemove n s node = some s') : Step ⟨s, key, live⟩ (.remove node) ⟨s', key, live.erase node⟩

/-- The nodes of the heap that are live are those of a balanced tree, in the order of their keys. -/
structure Forest.Inv (s : Forest K) (t : HeightTree Nat) : Prop where
  tree : At s.heap [] t
  balanced : t.Balanced
  live : t.keys.Perm s.live
  sorted : t.keys.Pairwise fun i j => s.key i < s.key j

variable {s s' : Forest K} {t t' : HeightTree Nat} {op : AvlOp K} {ops : List (AvlOp K)}

/-- Linking at a leaf position: the rebalancing ends, and the nodes are in order again. -/
theorem Forest.Inv.link {k : K} (hs : s.Inv t)
    (hn : s.live.length ≤ n) (hnew : node ∉ s.live) (hsearch : Search s.heap s.key k nodeplace parent)
    (hleaf : s.heap.get nodeplace = none) :
    ∃ heap t', utilAvlRebalance n (s.heap.utilAvlLink node parent nodeplace) parent = some heap ∧
      Forest.Inv ⟨heap, Function.update s.key node k, node :: s.live⟩ t' := by
  obtain ⟨c, t0, rfl, rfl, rfl, hbefore, hafter⟩ := hsearch.position hs.tree hs.sorted
  have hat := at_plug_iff.1 hs.tree
  rw [hat.above.get_place] at hleaf
  cases t0 with
  | node h l a r => cases hleaf
  | nil =>
    have hmem : node ∉ (plug c .nil).keys := fun h => hnew (hs.live.mem_iff.1 h)
    obtain ⟨heap, t', h1, h2, h3, h4⟩ := link_balanced hat hs.balanced hmem (hs.live.length_eq.trans_le hn)
    refine ⟨heap, t', h1, h2, h3, ?_, ?_⟩
    · rw [h4]
      refine List.perm_middle.trans (.cons node ?_)
      have h5 := hs.live
      rw [keys_plug, keys, List.append_nil] at h5
      exact h5
    · have hsort := hs.sorted
      rw [keys_plug, keys, List.append_nil] at hsort hmem
      have hkey : ∀ i ∈ before c ++ after c, Function.update s.key node k i = s.key i := by
        rintro i hi
        refine Function.update_of_ne ?_ _ _
        rintro rfl
        exact hmem hi
      have hsort : (before c ++ after c).Pairwise fun i j =>
          Function.update s.key node k i < Function.update s.key node k j := by
        refine hsort.imp_of_mem fun {i j} hi hj hij => ?_
        rwa [hkey i hi, hkey j hj]
      obtain ⟨h5, h6, h7⟩ := List.pairwise_append.1 hsort
      rw [h4]
      refine List.pairwise_append.2 ⟨h5, List.pairwise_cons.2 ⟨?_, h6⟩, ?_⟩
      · intro i hi
        dsimp only
        rw [Function.update_self, hkey i (List.mem_append_right _ hi)]
        exact hafter i hi
      · intro i hi j hj
        rcases List.mem_cons.1 hj with rfl | hj
        · dsimp only
          rw [Function.update_self, hkey i (List.mem_append_left _ hi)]
          exact hbefore i hi
        · exact h7 i hi j hj

/-- Removing a node: the rebalancing ends, and the other nodes are in order. -/
theorem Forest.Inv.remove (hs : s.Inv t) (hn : s.live.length ≤ n) (hlive : node ∈ s.live) :
    ∃ heap t', utilAvlRemove n s.heap node = some heap ∧ Forest.Inv ⟨heap, s.key, s.live.erase node⟩ t' := by
  obtain ⟨heap, t', h1, h2, h3, h4, -⟩ :=
    remove_balanced hs.tree hs.balanced (hs.live.mem_iff.2 hlive) (hs.live.length_eq.trans_le hn)
  refine ⟨heap, t', h1, h2, h3, ?_, ?_⟩
  · rw [h4]
    exact hs.live.erase node
  · rw [h4]
    exact hs.sorted.sublist List.erase_sublist

theorem Forest.Inv.step (hs : s.Inv t) (h : Step s op s') : ∃ t', s'.Inv t' := by
  cases h with
  | link hnew hsearch hleaf hr =>
    obtain ⟨heap, t', h1, h2⟩ := hs.link (Nat.le_refl _) hnew hsearch hleaf
    rw [result_unique (f := fun n => utilAvlRebalance n _ _) (fun n s hn => utilAvlRebalance_succ hn) hr h1]
    exact ⟨t', h2⟩
  | remove hlive hr =>
    obtain ⟨heap, t', h1, h2⟩ := hs.remove (Nat.le_refl _) hlive
    rw [result_unique (f := fun n => utilAvlRemove n _ _) (fun n s hn => utilAvlRemove_succ hn) hr h1]
    exact ⟨t', h2⟩

/-- The links, heights and order of a balanced search tree of the live nodes. -/
structure Forest.Avl (s : Forest K) : Prop where
  child : ∀ i ∈ s.live, ∀ j, (s.heap.node i).avlLeft = some j ∨ (s.heap.node i).avlRight = some j →
    j ∈ s.live ∧ (s.heap.node j).parent = some i
  parent : ∀ i ∈ s.live, ∀ p, (s.heap.node i).parent = some p →
    p ∈ s.live ∧ ((s.heap.node p).avlLeft = some i ∨ (s.heap.node p).avlRight = some i)
  root : ∀ i ∈ s.live, (s.heap.node i).parent = none ↔ s.heap.rootNode = some i
  height : ∀ i ∈ s.live, (s.heap.node i).height =
    1 + max (s.heap.heightOf (s.heap.node i).avlLeft) (s.heap.heightOf (s.heap.node i).avlRight)
  balance : ∀ i ∈ s.live,
    s.heap.heightOf (s.heap.node i).avlLeft ≤ s.heap.heightOf (s.heap.node i).avlRight + 1 ∧
      s.heap.heightOf (s.heap.node i).avlRight ≤ s.heap.heightOf (s.heap.node i).avlLeft + 1
  order : ∃ ids, InOrder s.heap s.heap.rootNode ids ∧ ids.Perm s.live ∧
    (ids.Pairwise fun i j => s.key i < s.key j) ∧
    ∀ n ≥ s.live.length, utilAvlFirst n s.heap = some ids.head? ∧
      ∀ xs i ys, ids = xs ++ i :: ys → utilAvlNext n s.heap i = some ys.head?

theorem Forest.Inv.avl (hs : s.Inv t) : s.Avl := by
  have hpos : ∀ i ∈ s.live, ∃ c h l r, t = plug c (.node h l i r) ∧ At s.heap c (.node h l i r) ∧
      (HeightTree.node h l i r).Balanced := by
    intro i hi
    obtain ⟨c, h, l, r, rfl⟩ := exists_plug_of_mem (hs.live.mem_iff.2 hi)
    exact ⟨c, h, l, r, rfl, at_plug_iff.1 hs.tree, ((balanced_plug _ _).1 hs.balanced).1⟩
  refine ⟨?_, ?_, ?_, ?_, ?_, ?_⟩
  · intro i hi j hj
    obtain ⟨c, h, l, r, rfl, hat, -⟩ := hpos i hi
    rw [hat.below.1] at hj
    rcases hj with hj | hj
    · have hdown : At s.heap (.left h i r :: c) l := At.down (f := .left h i r) hat
      refine ⟨hs.live.mem_iff.1 ?_, hdown.root_parent hj⟩
      rw [keys_plug]
      simp [root_mem hj]
    · have hdown : At s.heap (.right h l i :: c) r := At.down (f := .right h l i) hat
      refine ⟨hs.live.mem_iff.1 ?_, hdown.root_parent hj⟩
      rw [keys_plug]
      simp [root_mem hj]
  · intro i hi p hp
    obtain ⟨c, h, l, r, rfl, hat, -⟩ := hpos i hi
    rw [hat.root_parent rfl] at hp
    refine ⟨hs.live.mem_iff.1 ((keys_plug_perm c _).mem_iff.2 (List.mem_append_right _ (owner_mem hp))), ?_⟩
    cases c with
    | nil => cases hp
    | cons f c =>
      cases hp
      have hf : s.heap.node f.key = cell (some i) (owner c) f := hat.above.1
      rw [hf]
      cases f with
      | left h' a' r' => exact .inl rfl
      | right h' l' a' => exact .inr rfl
  · intro i hi
    obtain ⟨c, h, l, r, rfl, hat, -⟩ := hpos i hi
    rw [hat.root_parent rfl]
    cases c with
    | nil => exact ⟨fun _ => hat.above, fun _ => rfl⟩
    | cons f c =>
      constructor
      · intro e
        cases e
      · intro e
        have htop := hs.tree.above
        rw [show s.heap.rootNode = _ from htop] at e
        have hup : ∃ b, (plug c (f.fill (.node h l i r))).root = some b ∧ (b = f.key ∨ b ∈ outside c) := by
          cases f with
          | left h' a' r' => exact exists_root_plug c _ _ _ _
          | right h' l' a' => exact exists_root_plug c _ _ _ _
        obtain ⟨b, hb, hmem⟩ := hup
        obtain rfl : b = i := Option.some.inj (hb.symm.trans e)
        refine absurd rfl ((List.nodup_append.1 hat.nodup).2.2 b (root_mem rfl) b ?_)
        rw [outside_cons, List.mem_cons, List.mem_append]
        exact hmem.imp_right .inr
  · intro i hi
    obtain ⟨c, h, l, r, rfl, hat, hb⟩ := hpos i hi
    obtain ⟨-, -, h1, -, -⟩ := hb
    rw [hat.below.1]
    rw [heightOf_root hat.below.2.1, heightOf_root hat.below.2.2, h1, Nat.add_comm]
  · intro i hi
    obtain ⟨c, h, l, r, rfl, hat, hb⟩ := hpos i hi
    obtain ⟨-, -, -, h1, h2⟩ := hb
    rw [hat.below.1]
    rw [heightOf_root hat.below.2.1, heightOf_root hat.below.2.2]
    exact ⟨h1, h2⟩
  · have hroot : s.heap.rootNode = t.root := hs.tree.above
    refine ⟨t.keys, ?_, hs.live, hs.sorted, ?_⟩
    · rw [hroot]
      exact inOrder_of_linked hs.tree.below
    · intro n hn
      have hlen : t.keys.length ≤ n := Nat.le_trans (Nat.le_of_eq hs.live.length_eq) hn
      exact ⟨first_at hs.tree hlen, fun xs i ys h => next_of_keys hs.tree h hlen⟩

/-- In every run from an empty tree, whatever nodes are linked at the leaf positions for their keys and removed, the heap
holds a balanced search tree of the nodes linked and not removed; and every further call returns. -/
theorem avl_run {node : Nat → UtilAvlStruct} {key : Nat → K} (hr : Runs.Run Step ⟨⟨none, node⟩, key, []⟩ ops s) :
    s.Avl ∧
      (∀ i k parent nodeplace, i ∉ s.live → Search s.heap s.key k nodeplace parent → s.heap.get nodeplace = none →
        ∃ s', Step s (.link i k parent nodeplace) s') ∧
      ∀ i ∈ s.live, ∃ s', Step s (.remove i) s' := by
  have hinv : ∃ t, s.Inv t := by
    induction hr with
    | nil => exact ⟨.nil, ⟨trivial, rfl, List.nodup_nil⟩, trivial, .nil, .nil⟩
    | snoc _ hs ih =>
      obtain ⟨t, ht⟩ := ih
      exact ht.step hs
  obtain ⟨t, ht⟩ := hinv
  refine ⟨ht.avl, ?_, ?_⟩
  · intro i k parent nodeplace hnew hsearch hleaf
    obtain ⟨heap, t', h1, -⟩ := ht.link (Nat.le_refl _) hnew hsearch hleaf
    exact ⟨_, .link hnew hsearch hleaf h1⟩
  · intro i hi
    obtain ⟨heap, t', h1, -⟩ := ht.remove (Nat.le_refl _) hi
    exact ⟨_, .remove hi h1⟩

end Run

/-- Two nodes are linked, and the first, which is the root, is removed. -/
theorem avl_run_two :
    ∃ ops, ∃ s : Forest Nat, Runs.Run Step ⟨⟨none, fun _ => ⟨none, none, none, 0⟩⟩, fun _ => 0, []⟩ ops s ∧
      s.live = [1] ∧ s.Avl := by
  let s0 : UtilAvl := ⟨none, fun _ => ⟨none, none, none, 0⟩⟩
  let s1 := s0.utilAvlLink 0 none .rootNode
  let s2 := (s1.utilAvlLink 1 (some 0) (.avlRight 0)).setHeight 0 2
  let key1 : Nat → Nat := Function.update (fun _ => 0) 0 5
  let key2 : Nat → Nat := Function.update key1 1 7
  have h1 : Step ⟨s0, fun _ => 0, []⟩ (.link 0 5 none .rootNode) ⟨s1, key1, [0]⟩ :=
    .link (n := 9) (by simp) .root rfl rfl
  have h2 : Step ⟨s1, key1, [0]⟩ (.link 1 7 (some 0) (.avlRight 0)) ⟨s2, key2, [1, 0]⟩ :=
    .link (n := 9) (by simp) (.right .root rfl (by decide)) rfl rfl
  have h3 : ∃ s3, Step ⟨s2, key2, [1, 0]⟩ (.remove 0) ⟨s3, key2, [1, 0].erase 0⟩ :=
    ⟨(utilAvlRemove 9 s2 0).getD s2, .remove (n := 9) (by simp) rfl⟩
  obtain ⟨s3, h3⟩ := h3
  exact ⟨_, _, .snoc (.snoc (.snoc .nil h1) h2) h3, rfl, (avl_run (.snoc (.snoc (.snoc .nil h1) h2) h3)).1⟩

end RtThread.UtilAvl
