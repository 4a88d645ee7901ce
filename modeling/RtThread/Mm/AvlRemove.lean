import RtThread.Mm.AvlFrame

/-!
# Linking and removing nodes

What `util_avl_link` and `util_avl_remove` do to a balanced tree: the node goes in at its position, or out of its
position, and what the rebalancing leaves is balanced (`link_balanced`, `remove_balanced`).
-/

namespace RtThread.UtilAvl

open HeightTree

variable {s s' : UtilAvl} {c c1 : List (Limb Nat)} {f : Limb Nat} {t t' l r ll lr rl rr sr : HeightTree Nat}
  {x y : Option Nat} {a b d p i j k h hl hr hs : Nat} {n : Nat}

/-! ## Positions -/

theorem At.congr (ha : At s c t) (hr : s'.rootNode = s.rootNode)
    (hn : ∀ i, i ∈ t.keys ∨ i ∈ outside c → s'.node i = s.node i) : At s' c t :=
  ⟨ha.below.congr fun i hi => hn i (.inl hi), ha.above.congr hr fun i hi => hn i (.inr hi), ha.nodup⟩

theorem Above.get_place (ha : Above s c x) : s.get (place c) = x := by
  cases c with
  | nil => exact ha
  | cons f c =>
    cases f with
    | left h a r =>
      show (s.node a).avlLeft = x
      rw [show s.node a = _ from ha.1]
      rfl
    | right h l a =>
      show (s.node a).avlRight = x
      rw [show s.node a = _ from ha.1]
      rfl

theorem length_le_outside (c : List (Limb Nat)) : c.length ≤ (outside c).length := by
  induction c with
  | nil => exact Nat.le_refl 0
  | cons f c ih =>
    rw [outside_cons, List.length_cons, List.length_cons, List.length_append]
    omega

/-- There is less above a position than there are nodes. -/
theorem length_lt_keys (c : List (Limb Nat)) (h : Nat) (l r : HeightTree Nat) (a : Nat) :
    c.length < (plug c (.node h l a r)).keys.length := by
  have h1 := length_le_outside c
  rw [(keys_plug_perm c _).length_eq, List.length_append, keys, List.length_append, List.length_cons]
  omega

theorem length_le_keys (c : List (Limb Nat)) (t : HeightTree Nat) : c.length ≤ (plug c t).keys.length := by
  have h1 := length_le_outside c
  rw [(keys_plug_perm c _).length_eq, List.length_append]
  omega

/-- A balanced tree is left as it is. -/
theorem rebalance_of_balanced (hs : At s [] t) (hb : t.Balanced) (hx : ∀ a, x = some a → a ∈ t.keys)
    (hn : t.keys.length ≤ n) : ∃ s', utilAvlRebalance n s x = some s' ∧ At s' [] t := by
  cases x with
  | none =>
    refine ⟨s, ?_, hs⟩
    cases n <;> rfl
  | some a =>
    obtain ⟨c, h, l, r, rfl⟩ := exists_plug_of_mem (hx a rfl)
    have hlt := length_lt_keys c h l r a
    obtain ⟨s', h1, h2⟩ := rebalance_at (at_plug_iff.1 hs) rfl (Nat.lt_of_lt_of_le hlt hn)
    rw [climb_of_balanced ((balanced_plug _ _).1 hb).1] at h2
    exact ⟨s', h1, h2⟩

/-! ## Link -/

/-- A new node at a position that is empty. -/
theorem utilAvlLink_at (hs : At s c .nil) (ha : a ∉ outside c) :
    At (s.utilAvlLink a (owner c) (place c)) c (.node 1 .nil a .nil) := by
  obtain ⟨-, habove, hnd⟩ := hs
  unfold utilAvlLink
  dsimp only
  generalize h1 : (((s.setLeft a none).setRight a none).setParent a (owner c)).setHeight a 1 = s1
  have hnode : s1.node a = ⟨none, none, owner c, 1⟩ := by
    rw [← h1]
    simp
  have hrest : ∀ i ∈ outside c, s1.node i = s.node i := by
    rintro i hi
    have hne : i ≠ a := by
      rintro rfl
      exact ha hi
    rw [← h1, setHeight_of_ne hne, setParent_of_ne hne, setRight_of_ne hne, setLeft_of_ne hne]
  refine ⟨⟨?_, trivial, trivial⟩, ?_, ?_⟩
  · rw [put_of_notMem ha, hnode]
    rfl
  · refine (habove.congr ?_ hrest).put hnd
    rw [← h1]
    rfl
  · exact List.nodup_cons.2 ⟨ha, hnd⟩

theorem link_balanced (hs : At s c .nil) (hb : (plug c .nil).Balanced) (ha : a ∉ (plug c .nil).keys)
    (hn : (plug c .nil).keys.length ≤ n) :
    ∃ s' t', utilAvlRebalance n (s.utilAvlLink a (owner c) (place c)) (owner c) = some s' ∧ At s' [] t' ∧
      t'.Balanced ∧ t'.keys = before c ++ a :: after c := by
  have hout : a ∉ outside c := by
    intro h
    exact ha ((keys_plug_perm c _).mem_iff.2 h)
  obtain ⟨s', h1, h2⟩ := rebalance_owner_at (utilAvlLink_at hs hout) ((length_le_keys c _).trans hn)
  refine ⟨s', _, h1, h2, ?_, ?_⟩
  · refine climbTo_balanced ?_ ((balanced_plug c _).1 hb).2 ?_ ?_
    · exact ⟨trivial, trivial, rfl, by decide, by decide⟩
    · exact Nat.zero_le _
    · exact Nat.le_refl _
  · rw [climbTo_keys, keys_plug]
    simp

/-! ## Remove -/

/-- A subtree takes the place of the node above it. -/
theorem replace_at (ht : Linked s.node x t) (ha : Above s c y) (hnd : (t.keys ++ outside c).Nodup) :
    At ((s.put (place c) t.root).setParentOf t.root (owner c)) c t := by
  obtain ⟨hndt, hndc, hdis⟩ := List.nodup_append.1 hnd
  refine ⟨?_, ?_, hnd⟩
  · exact Linked.reparent (ht.congr fun i hi => put_of_notMem fun hc => hdis i hi i hc rfl) hndt
  · refine (ha.put hndc).congr setParentOf_rootNode fun i hi => setParentOf_of_notMem fun hc => ?_
    exact hdis i hc i hi rfl

/-- Writes to different nodes can be exchanged. -/
theorem setParentOf_comm (g : UtilAvlStruct → UtilAvlStruct) (hne : x ≠ some i) :
    ({ s with node := Function.update s.node i (g (s.node i)) } : UtilAvl).setParentOf x y =
      { s.setParentOf x y with
        node := Function.update (s.setParentOf x y).node i (g ((s.setParentOf x y).node i)) } := by
  cases x with
  | none => rfl
  | some j =>
    have hij : i ≠ j := by
      rintro rfl
      exact hne rfl
    simp only [setParentOf, setParent]
    rw [Function.update_of_ne hij, Function.update_of_ne hij.symm, Function.update_comm hij]

variable {z : Option Nat}

theorem setParentOf_setLeft (hne : x ≠ some i) : (s.setLeft i z).setParentOf x y = (s.setParentOf x y).setLeft i z :=
  setParentOf_comm (fun n => { n with avlLeft := z }) hne

theorem setParentOf_setRight (hne : x ≠ some i) : (s.setRight i z).setParentOf x y = (s.setParentOf x y).setRight i z :=
  setParentOf_comm (fun n => { n with avlRight := z }) hne

theorem setParentOf_setParent (hne : x ≠ some i) :
    (s.setParent i z).setParentOf x y = (s.setParentOf x y).setParent i z :=
  setParentOf_comm (fun n => { n with parent := z }) hne

theorem setParentOf_setParentOf {w : Option Nat} (hne : ∀ i, w = some i → x ≠ some i) :
    (s.setParentOf w z).setParentOf x y = (s.setParentOf x y).setParentOf w z := by
  cases w with
  | none => rfl
  | some i => exact setParentOf_setParent (hne i rfl)

/-- A change below a position that keeps the root there. -/
theorem Linked.replace {m m' : Nat → UtilAvlStruct} (hl : Linked m x (plug c t)) (hn : ∀ i ∈ outside c, m' i = m i)
    (hroot : t'.root = t.root) (ht : ∀ y, Linked m y t → Linked m' y t') : Linked m' x (plug c t') := by
  induction c generalizing t t' with
  | nil => exact ht x hl
  | cons f c ih =>
    refine ih hl (fun i hi => hn i (List.mem_cons_of_mem _ (List.mem_append_right _ hi))) ?_ ?_
    · rw [f.root_fill, f.root_fill]
    · intro y hy
      have hkey := hn f.key List.mem_cons_self
      have hsib : ∀ i ∈ f.sibling.keys, m' i = m i :=
        fun i hi => hn i (List.mem_cons_of_mem _ (List.mem_append_left _ hi))
      cases f with
      | left h a r =>
        obtain ⟨h1, h2, h3⟩ := hy
        exact ⟨by rw [hroot]; exact hkey.trans h1, ht _ h2, h3.congr hsib⟩
      | right h l a =>
        obtain ⟨h1, h2, h3⟩ := hy
        exact ⟨by rw [hroot]; exact hkey.trans h1, h2.congr hsib, ht _ h3⟩

/-- The writes that put the successor, which is the right child, in the place of the node. -/
theorem succeed_at (hs : At s c (.node h l a (.node hr .nil b rr))) :
    At ((((s.put (place c) (some b)).setLeft b l.root).setParentOf l.root (some b)).setParent b (owner c)) c
      (.node hr l b rr) := by
  obtain ⟨⟨ha, hl, hb, -, hrr⟩, habove, hnd⟩ := hs
  have hnd' : ((HeightTree.node hr l b rr).keys ++ outside c).Nodup := by
    refine List.Nodup.sublist ?_ hnd
    simp
  have hbl : b ∉ l.keys := by grind [keys]
  have hbc : b ∉ outside c := by grind [keys]
  have hlc : ∀ i ∈ l.keys, i ≠ b ∧ i ∉ outside c := by grind [keys]
  have hrc : ∀ i ∈ rr.keys, i ≠ b ∧ i ∉ outside c ∧ i ∉ l.keys := by grind [keys]
  have hcc : ∀ i ∈ outside c, i ≠ b ∧ i ∉ l.keys := by grind [keys]
  have hlnd : l.keys.Nodup := by grind [keys]
  have hcnd : (outside c).Nodup := by grind [keys]
  refine ⟨⟨?_, ?_, ?_⟩, ?_, hnd'⟩
  · rw [setParent_self, setParentOf_of_notMem hbl, setLeft_self, put_of_notMem hbc, hb]
  · refine (Linked.reparent (hl.congr fun i hi => ?_) hlnd).congr fun i hi => setParent_of_ne (hlc i hi).1
    rw [setLeft_of_ne (hlc i hi).1, put_of_notMem (hlc i hi).2]
  · refine hrr.congr fun i hi => ?_
    obtain ⟨h1, h2, h3⟩ := hrc i hi
    rw [setParent_of_ne h1, setParentOf_of_notMem h3, setLeft_of_ne h1, put_of_notMem h2]
  · refine (habove.put (y := some b) hcnd).congr ?_ fun i hi => ?_
    · simp
    · obtain ⟨h1, h2⟩ := hcc i hi
      rw [setParent_of_ne h1, setParentOf_of_notMem h2, setLeft_of_ne h1]

/-- The writes that put a node, with two subtrees, in a place. -/
theorem mount_at {m : UtilAvl} (hl : Linked m.node x l) (hr : Linked m.node y r) (ha : Above m c (some d))
    (hd : (m.node d).height = h) (hb : r.root = some b) (hnd : ((HeightTree.node h l d r).keys ++ outside c).Nodup) :
    At (((((m.setLeft d l.root).setRight d (some b)).setParentOf l.root (some d)).setParent b (some d)).setParent d
      (owner c)) c (.node h l d r) := by
  have hdl : d ∉ l.keys := by grind [keys]
  have hdr : d ∉ r.keys := by grind [keys]
  have hdc : d ∉ outside c := by grind [keys]
  have hlr : ∀ i ∈ l.keys, i ∉ r.keys ∧ i ≠ d ∧ i ∉ outside c := by grind [keys]
  have hrl : ∀ i ∈ r.keys, i ∉ l.keys ∧ i ≠ d ∧ i ∉ outside c := by grind [keys]
  have hlnd : l.keys.Nodup := by grind [keys]
  have hrnd : r.keys.Nodup := by grind [keys]
  have hset : ∀ m : UtilAvl, m.setParent b (some d) = m.setParentOf r.root (some d) := by
    intro m
    rw [hb]
    rfl
  rw [hset]
  refine ⟨⟨?_, ?_, ?_⟩, ?_, hnd⟩
  · rw [setParent_self, setParentOf_of_notMem hdr, setParentOf_of_notMem hdl, setRight_self, setLeft_self, hb]
    dsimp only
    rw [hd]
  · refine (Linked.reparent (s := (m.setLeft d l.root).setRight d (some b)) (hl.congr fun i hi => ?_) hlnd).congr
      fun i hi => ?_
    · rw [setRight_of_ne (hlr i hi).2.1, setLeft_of_ne (hlr i hi).2.1]
    · rw [setParent_of_ne (hlr i hi).2.1, setParentOf_of_notMem (hlr i hi).1]
  · refine (Linked.reparent (hr.congr fun i hi => ?_) hrnd).congr fun i hi => setParent_of_ne (hrl i hi).2.1
    rw [setParentOf_of_notMem (hrl i hi).1, setRight_of_ne (hrl i hi).2.1, setLeft_of_ne (hrl i hi).2.1]
  · refine ha.congr (by simp) fun i hi => ?_
    have h1 : i ≠ d := by
      rintro rfl
      exact hdc hi
    rw [setParent_of_ne h1, setParentOf_of_notMem fun hir => (hrl i hir).2.2 hi,
      setParentOf_of_notMem fun hil => (hlr i hil).2.2 hi, setRight_of_ne h1, setLeft_of_ne h1]

/-- The loop that looks for the successor comes to the leftmost node of a right subtree. -/
theorem successorLoop_at (hs : At s c (.node h l a r)) (ho : owner c = some p) (hn : l.keys.length < n) :
    ∃ c1 j d sr q, successorLoop n s p a = some (q, d) ∧ plug c1 (.node j .nil d sr) = .node h l a r ∧
      before c1 = [] ∧ owner (c1 ++ c) = some q := by
  induction l generalizing c h a r p n with
  | nil =>
    obtain ⟨n, rfl⟩ := Nat.exists_eq_succ_of_ne_zero (Nat.ne_of_gt (Nat.zero_lt_of_lt hn))
    refine ⟨[], h, a, r, p, ?_, rfl, rfl, ho⟩
    rw [successorLoop, hs.below.1]
    rfl
  | node h' l' a' r' ihl _ =>
    obtain ⟨n, rfl⟩ := Nat.exists_eq_succ_of_ne_zero (Nat.ne_of_gt (Nat.zero_lt_of_lt hn))
    have hdown : At s (.left h a r :: c) (.node h' l' a' r') := At.down (f := .left h a r) hs
    have hlt : l'.keys.length < n := by
      rw [keys, List.length_append, List.length_cons] at hn
      omega
    obtain ⟨c1, j, d, sr, q, h1, h2, h3, h4⟩ := ihl hdown rfl hlt
    refine ⟨c1 ++ [.left h a r], j, d, sr, q, ?_, ?_, ?_, ?_⟩
    · rw [successorLoop, hs.below.1]
      exact h1
    · rw [plug_append, h2]
      rfl
    · rw [before_append, h3]
      rfl
    · rw [List.append_assoc]
      exact h4

theorem setParent_avlLeft : ((s.setParent i x).node j).avlLeft = (s.node j).avlLeft :=
  setParentOf_avlLeft (y := some i)

theorem rootNode_ne_none (hs : At s c (.node h l a r)) : s.rootNode ≠ none := by
  obtain ⟨b, hb, -⟩ := exists_root_plug c h l a r
  have htop := (at_plug_iff.2 hs).above
  rw [hb] at htop
  intro e
  cases e.symm.trans htop

/-- A position in a subtree is a position. -/
theorem at_append_iff : At s (c1 ++ c) t ↔ At s c (plug c1 t) := by
  rw [← at_plug_iff, plug_append, at_plug_iff]

/-- The node `a`, the leftmost node `d` of its right subtree, and the node `q` above that. -/
structure Deep (s : UtilAvl) (c c1 : List (Limb Nat)) (h hp j : Nat) (l sr pr : HeightTree Nat) (a q d b : Nat) : Prop where
  tree : At s c (.node h l a (plug c1 (.node hp (.node j .nil d sr) q pr)))
  root : (plug c1 (.node hp (.node j .nil d sr) q pr)).root = some b

namespace Deep

variable {q hp : Nat} {pr : HeightTree Nat}

/-- The nodes are all different. -/
theorem nodup (hd : Deep s c c1 h hp j l sr pr a q d b) :
    (a :: d :: q :: (sr.keys ++ (l.keys ++ (pr.keys ++ (outside c1 ++ outside c))))).Nodup := by
  refine (List.Perm.nodup_iff (List.perm_iff_count.2 fun x => ?_)).1 hd.tree.nodup
  have h1 := (keys_plug_perm c1 (.node hp (.node j .nil d sr) q pr)).count_eq x
  simp only [keys, List.count_append, List.count_cons, List.count_nil] at h1 ⊢
  omega

/-- The successor is unlinked, and its place in the place of the node. -/
def unlinked (s : UtilAvl) (c : List (Limb Nat)) (q d : Nat) (sr : HeightTree Nat) : UtilAvl :=
  ((s.put (place c) (some d)).setLeft q sr.root).setParentOf sr.root (some q)

theorem unlinked_of_ne (h1 : i ∉ outside c) (h2 : i ≠ q) (h3 : i ∉ sr.keys) :
    (unlinked s c q d sr).node i = s.node i := by
  unfold unlinked
  rw [setParentOf_of_notMem h3, setLeft_of_ne h2, put_of_notMem h1]

section

variable (hd : Deep s c c1 h hp j l sr pr a q d b)

include hd

theorem root_eq : (plug c1 (.node hp sr q pr)).root = some b := by
  rw [← hd.root]
  exact root_plug_congr c1 rfl

theorem mounted :
    At ((((((unlinked s c q d sr).setLeft d l.root).setRight d (some b)).setParentOf l.root (some d)).setParent b
      (some d)).setParent d (owner c)) c (.node j l d (plug c1 (.node hp sr q pr))) := by
  have hnd := hd.nodup
  obtain ⟨⟨-, hl, hr⟩, habove, -⟩ := hd.tree
  obtain ⟨hq, ⟨hdn, -, hsr⟩, hpr⟩ := (at_append_iff.2 (At.down (f := .right h l a) hd.tree)).below
  rw [List.nodup_cons, List.nodup_cons, List.nodup_cons] at hnd
  obtain ⟨ha, hd', hq', hlists⟩ := hnd
  simp only [List.mem_cons, List.mem_append, not_or] at ha hd' hq'
  obtain ⟨hdq, hd1, hd2, hd3, hd4, hd5⟩ := hd'
  obtain ⟨hq1, hq2, hq3, hq4, hq5⟩ := hq'
  have hl' : ∀ i ∈ l.keys, i ∉ outside c ∧ i ≠ q ∧ i ∉ sr.keys := by grind
  have hc1' : ∀ i ∈ outside c1, i ∉ outside c ∧ i ≠ q ∧ i ∉ sr.keys := by grind
  have hpr' : ∀ i ∈ pr.keys, i ∉ outside c ∧ i ≠ q ∧ i ∉ sr.keys := by grind
  have hsr' : ∀ i ∈ sr.keys, i ∉ outside c ∧ i ≠ q := by grind
  have hc' : ∀ i ∈ outside c, i ≠ q ∧ i ∉ sr.keys := by grind
  refine mount_at (x := some a) (y := some a) (m := unlinked s c q d sr) ?_ ?_ ?_ ?_ hd.root_eq ?_
  · refine hl.congr fun i hi => ?_
    obtain ⟨h1, h2, h3⟩ := hl' i hi
    exact unlinked_of_ne h1 h2 h3
  · refine hr.replace (fun i hi => ?_) rfl fun y hy => ?_
    · obtain ⟨h1, h2, h3⟩ := hc1' i hi
      exact unlinked_of_ne h1 h2 h3
    · obtain ⟨h1, ⟨-, -, h2⟩, h3⟩ := hy
      refine ⟨?_, Linked.reparent (h2.congr fun i hi => ?_) ?_, h3.congr fun i hi => ?_⟩
      · unfold unlinked
        rw [setParentOf_of_notMem hq1, setLeft_self, put_of_notMem hq5, h1]
      · rw [setLeft_of_ne (hsr' i hi).2, put_of_notMem (hsr' i hi).1]
      · exact (List.nodup_append.1 hlists).1
      · obtain ⟨h1, h2, h3⟩ := hpr' i hi
        exact unlinked_of_ne h1 h2 h3
  · have hcnd : (outside c).Nodup := by grind
    refine (habove.put (y := some d) hcnd).congr ?_ fun i hi => ?_
    · unfold unlinked
      simp
    · unfold unlinked
      rw [setParentOf_of_notMem (hc' i hi).2, setLeft_of_ne (hc' i hi).1]
  · rw [unlinked_of_ne hd5 hdq hd1, hdn]
  · refine (List.Perm.nodup_iff (List.perm_iff_count.2 fun x => ?_)).1 (List.nodup_cons.1 hd.nodup).2
    have h1 := (keys_plug_perm c1 (.node hp sr q pr)).count_eq x
    simp only [keys, List.count_append, List.count_cons] at h1 ⊢
    omega

/-- The right child of the node is another node. -/
theorem node_ne : a ≠ b := by
  obtain ⟨b', hb', hbmem⟩ := exists_root_plug c1 hp (.node j .nil d sr) q pr
  cases hd.root.symm.trans hb'
  have ha := (List.nodup_cons.1 hd.nodup).1
  simp only [List.mem_cons, List.mem_append, not_or] at ha
  obtain ⟨-, haq, -, -, -, ha4, -⟩ := ha
  rintro rfl
  exact hbmem.elim haq ha4

/-- The fields of the node are as they were. -/
theorem node_kept :
    ((((((unlinked s c q d sr).setLeft d l.root).setRight d (some b)).setParentOf l.root (some d)).setParent b
      (some d)).setParent d (owner c)).node a = s.node a := by
  have ha := (List.nodup_cons.1 hd.nodup).1
  simp only [List.mem_cons, List.mem_append, not_or] at ha
  obtain ⟨had, haq, ha1, ha2, -, -, ha5⟩ := ha
  rw [setParent_of_ne had, setParent_of_ne hd.node_ne, setParentOf_of_notMem ha2, setRight_of_ne had,
    setLeft_of_ne had, unlinked_of_ne ha5 haq ha1]

end

/-- The writes of `util_avl_remove`, in their order. -/
theorem remove_eq (hd : Deep s c c1 h hp j l sr pr a q d b) {left : Nat} (hleft : (s.node b).avlLeft = some left)
    (hloop : successorLoop n s b left = some (q, d)) :
    utilAvlRemove n s a =
      match utilAvlRebalance n ((((((unlinked s c q d sr).setLeft d l.root).setRight d (some b)).setParentOf l.root
        (some d)).setParent b (some d)).setParent d (owner c)) (some q) with
      | none => none
      | some s => utilAvlRebalance n s (some d) := by
  have hnd := hd.nodup
  obtain ⟨⟨han, hl, hr⟩, habove, -⟩ := hd.tree
  obtain ⟨hqn, ⟨hdn, -, hsr⟩, hpr⟩ := (at_append_iff.2 (At.down (f := .right h l a) hd.tree)).below
  rw [List.nodup_cons, List.nodup_cons, List.nodup_cons] at hnd
  obtain ⟨ha, hd', hq', hlists⟩ := hnd
  simp only [List.mem_cons, List.mem_append, not_or] at ha hd' hq'
  obtain ⟨had, haq, ha1, ha2, ha3, ha4, ha5⟩ := ha
  obtain ⟨hdq, hd1, hd2, hd3, hd4, hd5⟩ := hd'
  obtain ⟨hq1, hq2, hq3, hq4, hq5⟩ := hq'
  have hplace := hd.tree.nodePlace rfl
  have hroot := rootNode_ne_none hd.tree
  obtain ⟨b', hb', hbmem⟩ := exists_root_plug c1 hp (.node j .nil d sr) q pr
  cases hd.root.symm.trans hb'
  have hab : a ≠ b := hd.node_ne
  have hsrb : b ∉ sr.keys := by
    rcases hbmem with rfl | hmem
    · exact hq1
    · intro hb
      have := (List.nodup_append.1 hlists).2.2 b hb b (by simp [hmem])
      exact this rfl
  rw [hd.root] at han
  unfold utilAvlRemove
  rw [if_neg hroot, hplace]
  rw [han]
  dsimp only
  rw [hleft]
  dsimp only
  rw [hloop]
  dsimp only
  have r1 : ((s.put (place c) (some d)).node d).avlRight = sr.root := by
    rw [put_of_notMem hd5, hdn]
  rw [r1]
  have r2 : (((s.put (place c) (some d)).setLeft q sr.root).node a).avlLeft = l.root := by
    rw [setLeft_of_ne haq, put_of_notMem ha5, han]
  rw [r2]
  have r3 : ((((s.put (place c) (some d)).setLeft q sr.root).setLeft d l.root).node a).avlRight = some b := by
    rw [setLeft_of_ne had, setLeft_of_ne haq, put_of_notMem ha5, han]
  rw [r3, setRight_self, setLeft_self]
  rw [setParentOf_avlRight, setRight_self]
  dsimp only
  have r4 : (((((((s.put (place c) (some d)).setLeft q sr.root).setLeft d l.root).setRight d (some b)).setParentOf l.root
      (some d)).setParent b (some d)).node q).avlLeft = sr.root := by
    have hqd : q ≠ d := fun e => hdq e.symm
    rw [setParent_avlLeft, setParentOf_avlLeft, setRight_of_ne hqd, setLeft_of_ne hqd, setLeft_self]
  have r5 : ((((((((s.put (place c) (some d)).setLeft q sr.root).setLeft d l.root).setRight d (some b)).setParentOf l.root
      (some d)).setParent b (some d)).setParentOf sr.root (some q)).node a).parent = owner c := by
    rw [setParentOf_of_notMem ha1, setParent_of_ne hab, setParentOf_of_notMem ha2, setRight_of_ne had, setLeft_of_ne had,
      setLeft_of_ne haq, put_of_notMem ha5, han]
  rw [r4, r5]
  -- the parent of the successor's subtree is written last, but it is not one of the nodes written before
  have hroot' : ∀ i, i ∉ sr.keys → sr.root ≠ some i := fun i hi e => hi (root_mem e)
  have hlsr : ∀ i, l.root = some i → sr.root ≠ some i := fun i hi =>
    hroot' i fun hmem => (List.nodup_append.1 hlists).2.2 i hmem i (List.mem_append_left _ (root_mem hi)) rfl
  rw [setParentOf_setParent (hroot' b hsrb), setParentOf_setParentOf hlsr, setParentOf_setRight (hroot' d hd1),
    setParentOf_setLeft (hroot' d hd1)]
  rfl

end Deep

/-- The node has no right child. -/
theorem remove_none (hs : At s c (.node h l a .nil)) (hb : (plug c (.node h l a .nil)).Balanced)
    (hn : (plug c (.node h l a .nil)).keys.length ≤ n) :
    ∃ s' t', utilAvlRemove n s a = some s' ∧ At s' [] t' ∧ t'.Balanced ∧
      t'.keys = before c ++ l.keys ++ after c ∧ s'.node a = s.node a := by
  have hplace := hs.nodePlace rfl
  have hroot := rootNode_ne_none hs
  obtain ⟨⟨han, hl, -⟩, habove, hnd⟩ := hs
  obtain ⟨hbt, hc⟩ := (balanced_plug _ _).1 hb
  obtain ⟨hbl, -, h1, h2, h3⟩ := hbt
  have hac : a ∉ outside c := by grind [keys]
  have hat := replace_at hl habove (List.Nodup.sublist (by simp) hnd)
  obtain ⟨s', h4, h5⟩ := rebalance_owner_at (n := n) hat ((length_le_keys c _).trans hn)
  have hsame : ((s.put (place c) l.root).setParentOf l.root (owner c)).node a = s.node a := by
    rw [setParentOf_of_notMem (by grind [keys]), put_of_notMem hac]
  refine ⟨s', _, ?_, h5, climbTo_balanced hbl hc ?_ ?_, ?_, ?_⟩
  · unfold utilAvlRemove
    rw [if_neg hroot, hplace]
    dsimp only [root_nil]
    rw [put_of_notMem hac, han]
    rw [setParentOf_of_notMem (by grind [keys]), put_of_notMem hac, han]
    exact h4
  · rw [ht_node, h1, ht_nil]
    omega
  · rw [ht_node, h1, ht_nil]
    omega
  · rw [climbTo_keys, keys_plug]
  · refine ((hat.within.rebalance (owner_among c l) h4).frame a ?_).trans hsame
    rw [mem_plug]
    grind [keys]

/-- Its right child has no left child, and comes up. -/
theorem remove_direct (hs : At s c (.node h l a (.node hr .nil b rr)))
    (hb : (plug c (.node h l a (.node hr .nil b rr))).Balanced)
    (hn : (plug c (.node h l a (.node hr .nil b rr))).keys.length ≤ n) :
    ∃ s' t', utilAvlRemove n s a = some s' ∧ At s' [] t' ∧ t'.Balanced ∧
      t'.keys = before c ++ (l.keys ++ b :: rr.keys) ++ after c ∧ s'.node a = s.node a := by
  have hplace := hs.nodePlace rfl
  have hroot := rootNode_ne_none hs
  have hat := succeed_at hs
  obtain ⟨⟨han, hl, hbn, -, hrr⟩, habove, hnd⟩ := hs
  obtain ⟨hbt, hc⟩ := (balanced_plug _ _).1 hb
  obtain ⟨hbl, ⟨-, hbrr, h6, h7, h8⟩, h1, h2, h3⟩ := hbt
  rw [ht_node] at h1 h2 h3
  rw [ht_nil] at h6 h7 h8
  have hlen : (plug c (.node hr l b rr)).keys.length < n := by
    refine Nat.lt_of_lt_of_le ?_ hn
    rw [(keys_plug_perm c _).length_eq, (keys_plug_perm c _).length_eq]
    simp [keys]
  obtain ⟨s1, h4, h5⟩ := rebalance_at (n := n) hat rfl ((length_lt_keys c _ _ _ _).trans hlen)
  have hac : a ∉ outside c := by grind [keys]
  have hab : a ≠ b := by grind [keys]
  have hal : a ∉ l.keys := by grind [keys]
  have hw := hat.within.rebalance (among_some (mem_plug.2 (.inl (by simp)))) h4
  have hsame : ∀ s2, utilAvlRebalance n s1 (s1.node b).parent = some s2 → s2.node a = s.node a := by
    intro s2 h9
    rw [(hw.rebalance (hw.closed.parent b (mem_plug.2 (.inl (by simp)))) h9).frame a, setParent_of_ne hab,
      setParentOf_of_notMem hal, setLeft_of_ne hab, put_of_notMem hac]
    rw [mem_plug]
    grind [keys]
  have heq : utilAvlRemove n s a = utilAvlRebalance n s1 (s1.node b).parent := by
    unfold utilAvlRemove
    rw [if_neg hroot, hplace]
    rw [han]
    dsimp only [root_node]
    rw [hbn]
    dsimp only [root_nil]
    rw [put_of_notMem hac, han, setLeft_self]
    rw [setParentOf_of_notMem hal, setLeft_of_ne hab, put_of_notMem hac, han]
    simp only [h4]
  rw [heq]
  cases hf : fix (.node hr l b rr) with
  | none =>
    have hbal := balanced_of_fix hbl hbrr (by omega) (by omega) hf
    rw [climb_of_none hf] at h5
    have h5 := at_plug_iff.1 h5
    rw [h5.root_parent rfl]
    obtain ⟨s2, h9, h10⟩ := rebalance_owner_at (n := n) h5 ((length_le_keys c _).trans hlen.le)
    refine ⟨s2, _, h9, h10, climbTo_balanced hbal hc ?_ ?_, ?_, hsame s2 (by rwa [h5.root_parent rfl])⟩
    · rw [ht_node, ht_node]
      have h11 := hbal.2.2.1
      omega
    · rw [ht_node, ht_node]
      omega
    · rw [climbTo_keys, keys_plug]
      rfl
  | some t1 =>
    obtain ⟨hb1, h9, h10, h11⟩ := fix_balanced hbl hbrr (by omega) (by omega) hf
    have hbt : (climb c (.node hr l b rr)).Balanced := by
      rw [climb_of_some hf]
      refine climbTo_balanced hb1 hc ?_ ?_ <;> rw [ht_node] <;> omega
    have hkeys : (climb c (.node hr l b rr)).keys = before c ++ (l.keys ++ b :: rr.keys) ++ after c := by
      rw [climb_keys, keys_plug]
      rfl
    obtain ⟨s2, h12, h13⟩ := rebalance_of_balanced (n := n) (x := (s1.node b).parent) h5 hbt
      (h5.closed.parent b (by rw [hkeys]; simp)) (by rw [climb_keys]; exact hlen.le)
    exact ⟨s2, _, h12, h13, hbt, hkeys, hsame s2 h12⟩

/-- The leftmost node of its right subtree comes up, from below the right child. -/
theorem remove_deep {q hp : Nat} {pr : HeightTree Nat} (hd : Deep s c c1 h hp j l sr pr a q d b)
    (hb : (plug c (.node h l a (plug c1 (.node hp (.node j .nil d sr) q pr)))).Balanced)
    (hn : (plug c (.node h l a (plug c1 (.node hp (.node j .nil d sr) q pr)))).keys.length ≤ n) {left : Nat}
    (hleft : (s.node b).avlLeft = some left) (hloop : successorLoop n s b left = some (q, d)) :
    ∃ s' t', utilAvlRemove n s a = some s' ∧ At s' [] t' ∧ t'.Balanced ∧
      t'.keys = before c ++ (l.keys ++ d :: (plug c1 (.node hp sr q pr)).keys) ++ after c ∧ s'.node a = s.node a := by
  rw [hd.remove_eq hleft hloop]
  have hb' : (plug (.right h l a :: c) (plug (.left hp q pr :: c1) (.node j .nil d sr))).Balanced := hb
  obtain ⟨hbr, hc⟩ := (balanced_plug _ _).1 hb'
  obtain ⟨hbd, hc1⟩ := (balanced_plug _ _).1 hbr
  obtain ⟨-, hbsr, h1, -, -⟩ := hbd
  have hbl : l.Balanced := hc.1
  have htop := hc1.le_top
  rw [ht_node] at hc1 htop
  rw [ht_plug, ht_node] at hc
  rw [List.length_cons] at htop
  rw [ht_nil] at h1
  have hlen : ∀ T : HeightTree Nat, T.keys = before c ++ (l.keys ++ d :: (plug c1 (.node hp sr q pr)).keys) ++ after c →
      T.keys.length ≤ n := by
    intro T hT
    have h2 := (keys_plug_perm c1 (.node hp sr q pr)).length_eq
    have h3 := (keys_plug_perm c1 (.node hp (.node j .nil d sr) q pr)).length_eq
    rw [keys_plug] at hn
    simp only [keys, List.length_append, List.length_cons] at hn h2 h3
    rw [hT]
    simp only [List.length_append, List.length_cons]
    omega
  have hkeys : (plug (.right j l d :: c) (plug (.left hp q pr :: c1) sr)).keys =
      before c ++ (l.keys ++ d :: (plug c1 (.node hp sr q pr)).keys) ++ after c := by
    rw [plug, keys_plug]
    rfl
  have hdown : At _ (.right j l d :: c) (plug (.left hp q pr :: c1) sr) := At.down (f := .right j l d) hd.mounted
  have hat := at_append_iff.2 hdown
  obtain ⟨s1, h2, h3⟩ := rebalance_owner_at (n := n) hat (by
    refine (length_le_keys _ sr).trans ?_
    rw [plug_append]
    exact hlen _ hkeys)
  have hw := hat.within.rebalance (owner_among _ sr) h2
  have hwd : d ∈ (plug (.left hp q pr :: c1 ++ .right j l d :: c) sr).keys := mem_plug.2 (.inr (by simp [outside]))
  have hsame : ∀ s2, utilAvlRebalance n s1 (some d) = some s2 → s2.node a = s.node a := by
    intro s2 h9
    rw [(hw.rebalance (among_some hwd) h9).frame a, hd.node_kept]
    have ha := (List.nodup_cons.1 hd.nodup).1
    simp [mem_plug, outside_append]
    grind
  rw [show utilAvlRebalance n _ (some q) = some s1 from h2]
  obtain ⟨t1, hb1, hk1, h4⟩ := climbTo_append (.right j l d :: c) hbsr hc1 (by omega) (by omega)
  have hk1' : (climb c (.node j l d t1)).keys =
      before c ++ (l.keys ++ d :: (plug c1 (.node hp sr q pr)).keys) ++ after c := by
    rw [climb_keys, keys_plug, keys, hk1]
    rfl
  rcases h4 with ⟨h4, h5, h6⟩ | ⟨h4, h5⟩
  · have hbal : (climb c (.node j l d t1)).Balanced := climb_replaced hbl hc hb1 h5 h6 (by omega)
    rw [h4] at h3
    have h3 : At s1 [] (climb c (.node j l d t1)) := h3
    have hmem : ∀ i, some d = some i → i ∈ (climb c (.node j l d t1)).keys := by
      intro i hi
      cases hi
      rw [hk1']
      simp
    obtain ⟨s2, h7, h8⟩ := rebalance_of_balanced (n := n) h3 hbal hmem (hlen _ hk1')
    exact ⟨s2, _, h7, h8, hbal, hk1', hsame s2 h7⟩
  · have hbal : (climb c (.node j l d t1)).Balanced := climb_replaced hbl hc hb1 (by omega) (by omega) (by omega)
    rw [h4] at h3
    have h3 : At s1 c (.node j l d t1) := at_plug_iff.1 h3
    obtain ⟨s2, h7, h8⟩ := rebalance_at (n := n) h3 rfl (by
      refine Nat.lt_of_lt_of_le (length_lt_keys c j l t1 d) (hlen _ ?_)
      rw [keys_plug, keys, hk1]
      rfl)
    exact ⟨s2, _, h7, h8, hbal, hk1', hsame s2 h7⟩

/-- A node of a balanced tree is removed, and the tree stays balanced; the node keeps its links. -/
theorem remove_balanced (hs : At s [] t) (hb : t.Balanced) (ha : a ∈ t.keys) (hn : t.keys.length ≤ n) :
    ∃ s' t', utilAvlRemove n s a = some s' ∧ At s' [] t' ∧ t'.Balanced ∧ t'.keys = t.keys.erase a ∧
      s'.node a = s.node a := by
  obtain ⟨c, h, l, r, rfl⟩ := exists_plug_of_mem ha
  have hs := at_plug_iff.1 hs
  have herase : (plug c (.node h l a r)).keys.erase a = before c ++ (l.keys ++ r.keys) ++ after c := by
    have hnd := (keys_plug_perm c (.node h l a r)).nodup_iff.2 hs.nodup
    rw [keys_plug, keys] at hnd ⊢
    rw [List.append_assoc, List.append_assoc] at hnd ⊢
    have hx : a ∉ before c := by grind
    have hy : a ∉ l.keys := by grind
    rw [List.erase_append_right _ hx, List.erase_append_right _ hy, List.cons_append, List.erase_cons_head]
    simp
  rw [herase]
  cases r with
  | nil =>
    obtain ⟨s', t', h1, h2, h3, h4, h5⟩ := remove_none hs hb hn
    refine ⟨s', t', h1, h2, h3, ?_, h5⟩
    rw [h4, keys, List.append_nil]
  | node hr rl b rr =>
    cases rl with
    | nil =>
      obtain ⟨s', t', h1, h2, h3, h4, h5⟩ := remove_direct hs hb hn
      refine ⟨s', t', h1, h2, h3, ?_, h5⟩
      rw [h4, keys, keys]
      rfl
    | node hx x1 x x2 =>
      have hdown : At s (.left hr b rr :: .right h l a :: c) (.node hx x1 x x2) :=
        At.down (f := .left hr b rr) (At.down (f := .right h l a) hs)
      have hlt : x1.keys.length < n := by
        refine Nat.lt_of_lt_of_le ?_ hn
        rw [keys_plug]
        simp only [keys, List.length_append, List.length_cons]
        omega
      obtain ⟨c1, j, d, sr, q, hloop, hplug, hbefore, howner⟩ := successorLoop_at hdown rfl hlt
      -- the limb of the node above the successor
      obtain ⟨f, c2, hf⟩ := List.exists_cons_of_ne_nil (l := c1 ++ [.left hr b rr]) (by simp)
      have hR : HeightTree.node hr (.node hx x1 x x2) b rr = plug c2 (f.fill (.node j .nil d sr)) := by
        rw [← plug, ← hf, plug_append, hplug]
        rfl
      have hb2 : before c2 = [] ∧ f.before = [] := by
        have h1 : before (f :: c2) = [] := by
          rw [← hf, before_append, hbefore]
          rfl
        exact List.append_eq_nil_iff.1 h1
      have hq : f.key = q := by
        have h1 : c1 ++ (.left hr b rr :: .right h l a :: c) = f :: (c2 ++ (.right h l a :: c)) := by
          rw [← List.cons_append, ← hf]
          simp
        rw [h1] at howner
        exact Option.some.inj howner
      cases f with
      | right hp pl p => simp [Limb.before] at hb2
      | left hp p pr =>
        obtain rfl : p = q := hq
        have hdeep : Deep s c c2 h hp j l sr pr a p d b := by
          constructor
          · rw [Limb.fill_left] at hR
            rw [← hR]
            exact hs
          · rw [Limb.fill_left] at hR
            rw [← hR]
            rfl
        rw [hR] at hb hn
        have hleft : (s.node b).avlLeft = some x := by
          have h1 : At s (.right h l a :: c) (.node hr (.node hx x1 x x2) b rr) := At.down (f := .right h l a) hs
          rw [h1.below.1]
          rfl
        obtain ⟨s', t', h1, h2, h3, h4, h5⟩ := remove_deep hdeep hb hn hleft hloop
        refine ⟨s', t', h1, h2, h3, ?_, h5⟩
        rw [h4, hR, keys_plug, keys_plug, hb2.1]
        simp

end RtThread.UtilAvl
