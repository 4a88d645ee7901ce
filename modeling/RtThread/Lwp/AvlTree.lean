import RtThread.Lib.Runs
import RtThread.Lwp.AvlLinks

/-!
# Inserting and removing in the AVL tree of the processes

- the searches down the tree, with the stack that they leave (`insertSearch_at`, `removeSearch_at`,
  `predecessorLoop_at`): they leave the array only in a tree that is higher than it;
- what `lwp_avl_insert` and `lwp_avl_remove` make of a balanced search tree (`insert_at`, `remove_at`).
-/

namespace RtThread.LwpAvl

open HeightTree

variable {s s' : LwpAvl} {c c1 : List (Limb Nat)} {f : Limb Nat} {t t' l r : HeightTree Nat}
  {a b k n p h hp room : Nat} {ids : List Nat}

/-- Nodes in the order of their keys. -/
def Sorted (s : LwpAvl) (ids : List Nat) : Prop := ids.Pairwise fun i j => (s.node i).avlKey < (s.node j).avlKey

theorem Sorted.congr (h : Sorted s ids) (hkey : ∀ i ∈ ids, (s'.node i).avlKey = (s.node i).avlKey) : Sorted s' ids := by
  refine List.Pairwise.imp_of_mem (fun {i j} hi hj hij => ?_) h
  rwa [hkey i hi, hkey j hj]

/-- The order around a node. -/
theorem Sorted.node (hsort : Sorted s (HeightTree.node h l a r).keys) : Sorted s l.keys ∧ Sorted s r.keys ∧
    (∀ i ∈ l.keys, (s.node i).avlKey < (s.node a).avlKey) ∧ ∀ i ∈ r.keys, (s.node a).avlKey < (s.node i).avlKey := by
  obtain ⟨h1, h2, h3⟩ := List.pairwise_append.1 hsort
  obtain ⟨h4, h5⟩ := List.pairwise_cons.1 h2
  exact ⟨h1, h5, fun i hi => h3 i hi a List.mem_cons_self, h4⟩

/-! ## Searching down -/

/-- The stack above a position, in the order of the array. -/
def stackOf (c : List (Limb Nat)) : List NodePlace := (places c).tail.reverse

theorem stackOf_cons (f : Limb Nat) (c : List (Limb Nat)) : stackOf (f :: c) = stackOf c ++ [place c] := by
  cases c <;> simp [stackOf, places, place]

theorem length_stackOf (c : List (Limb Nat)) : (stackOf c).length = c.length := by
  induction c with
  | nil => rfl
  | cons f c ih => rw [stackOf_cons, List.length_append, ih, List.length_singleton, List.length_cons]

/-- The search for the place of a key: it goes down the limbs around the place, and needs an entry for each. -/
theorem insertSearch_at (hs : At s c t) (hb : t.Balanced) (hsort : Sorted s t.keys)
    (hk : ∀ i ∈ t.keys, (s.node i).avlKey ≠ k) :
    ∃ c1, plug c1 .nil = t ∧ c1.length ≤ t.ht ∧ (∀ i ∈ before c1, (s.node i).avlKey < k) ∧
      (∀ i ∈ after c1, k < (s.node i).avlKey) ∧
      ∀ room, s.insertSearch k room (place c) (stackOf c) =
        if c1.length ≤ room then some (place (c1 ++ c), stackOf (c1 ++ c)) else none := by
  induction t generalizing c with
  | nil =>
    refine ⟨[], rfl, Nat.le_refl _, by simp, by simp, fun room => ?_⟩
    rw [List.length_nil, if_pos (Nat.zero_le _), insertSearch.eq_def, hs.above.get]
    rfl
  | node h l a r ihl ihr =>
    obtain ⟨hbl, hbr, hh, -⟩ := hb
    obtain ⟨hsl, hsr, hlt, hgt⟩ := hsort.node
    by_cases hlt' : k < (s.node a).avlKey
    · have hdown : At s (.left h a r :: c) l := At.down (f := .left h a r) hs
      obtain ⟨c1, hplug, hlen, hbefore, hafter, hsearch⟩ := ihl hdown hbl hsl fun i hi => hk i (by simp [hi])
      refine ⟨c1 ++ [.left h a r], ?_, ?_, ?_, ?_, fun room => ?_⟩
      · rw [plug_append, hplug]
        rfl
      · rw [List.length_append, List.length_singleton, ht_node]
        omega
      · intro i hi
        rw [before_append] at hi
        exact hbefore i (by simpa [Limb.before] using hi)
      · intro i hi
        rw [after_append, List.mem_append] at hi
        rcases hi with hi | hi
        · exact hafter i hi
        · simp only [after, Limb.after, List.append_nil, List.mem_cons] at hi
          rcases hi with rfl | hi
          · exact hlt'
          · exact hlt'.trans (hgt i hi)
      · rw [insertSearch.eq_def, hs.above.get, root_node]
        rw [List.append_assoc, List.length_append, List.length_singleton]
        cases room with
        | zero => rw [if_neg (by omega)]
        | succ room =>
          dsimp only
          rw [if_pos hlt', ← stackOf_cons (.left h a r) c, show NodePlace.avlLeft a = place (.left h a r :: c) from rfl,
            hsearch room]
          simp only [Nat.succ_le_succ_iff, List.singleton_append]
    · have hne := hk a (by simp)
      have hgt' : (s.node a).avlKey < k := by omega
      have hdown : At s (.right h l a :: c) r := At.down (f := .right h l a) hs
      obtain ⟨c1, hplug, hlen, hbefore, hafter, hsearch⟩ := ihr hdown hbr hsr fun i hi => hk i (by simp [hi])
      refine ⟨c1 ++ [.right h l a], ?_, ?_, ?_, ?_, fun room => ?_⟩
      · rw [plug_append, hplug]
        rfl
      · rw [List.length_append, List.length_singleton, ht_node]
        omega
      · intro i hi
        rw [before_append, List.mem_append] at hi
        rcases hi with hi | hi
        · simp only [before, Limb.before, List.nil_append, List.mem_append, List.mem_singleton] at hi
          rcases hi with hi | rfl
          · exact (hlt i hi).trans hgt'
          · exact hgt'
        · exact hbefore i hi
      · intro i hi
        rw [after_append] at hi
        exact hafter i (by simpa [Limb.after] using hi)
      · rw [insertSearch.eq_def, hs.above.get, root_node]
        rw [List.append_assoc, List.length_append, List.length_singleton]
        cases room with
        | zero => rw [if_neg (by omega)]
        | succ room =>
          dsimp only
          rw [if_neg hlt', ← stackOf_cons (.right h l a) c,
            show NodePlace.avlRight a = place (.right h l a :: c) from rfl, hsearch room]
          simp only [Nat.succ_le_succ_iff, List.singleton_append]

/-- The search for a node of the tree: it needs an entry for the node, too. -/
theorem removeSearch_at (hs : At s c t) (hb : t.Balanced) (hsort : Sorted s t.keys) (ha : a ∈ t.keys) :
    ∃ c1 h l r, plug c1 (.node h l a r) = t ∧ c1.length + (HeightTree.node h l a r).ht ≤ t.ht ∧
      ∀ room, s.removeSearch (s.node a).avlKey room (place c) (stackOf c) =
        if c1.length < room then some (some (stackOf (c1 ++ c) ++ [place (c1 ++ c)], place (c1 ++ c))) else none := by
  induction t generalizing c with
  | nil => cases ha
  | node h l b r ihl ihr =>
    obtain ⟨hbl, hbr, hh, -⟩ := hb
    obtain ⟨hsl, hsr, hlt, hgt⟩ := hsort.node
    rcases List.mem_append.1 ha with ha' | ha'
    · have hdown : At s (.left h b r :: c) l := At.down (f := .left h b r) hs
      obtain ⟨c1, h1, l1, r1, hplug, hlen, hsearch⟩ := ihl hdown hbl hsl ha'
      refine ⟨c1 ++ [.left h b r], h1, l1, r1, ?_, ?_, fun room => ?_⟩
      · rw [plug_append, hplug]
        rfl
      · rw [List.length_append, List.length_singleton, ht_node, ht_node]
        rw [ht_node] at hlen
        omega
      · rw [removeSearch.eq_def, hs.above.get, root_node]
        rw [List.append_assoc, List.length_append, List.length_singleton]
        have hkey := hlt a ha'
        cases room with
        | zero => rw [if_neg (by omega)]
        | succ room =>
          dsimp only
          rw [if_neg (Nat.ne_of_lt hkey), if_pos hkey, ← stackOf_cons (.left h b r) c,
            show NodePlace.avlLeft b = place (.left h b r :: c) from rfl, hsearch room]
          simp only [Nat.succ_lt_succ_iff, List.singleton_append]
    · rcases List.mem_cons.1 ha' with rfl | ha'
      · refine ⟨[], h, l, r, rfl, by rw [List.length_nil, Nat.zero_add], fun room => ?_⟩
        rw [removeSearch.eq_def, hs.above.get, root_node]
        cases room with
        | zero => rw [if_neg (Nat.not_lt_zero _)]
        | succ room =>
          dsimp only
          rw [if_pos rfl]
          rfl
      · have hdown : At s (.right h l b :: c) r := At.down (f := .right h l b) hs
        obtain ⟨c1, h1, l1, r1, hplug, hlen, hsearch⟩ := ihr hdown hbr hsr ha'
        refine ⟨c1 ++ [.right h l b], h1, l1, r1, ?_, ?_, fun room => ?_⟩
        · rw [plug_append, hplug]
          rfl
        · rw [List.length_append, List.length_singleton, ht_node, ht_node]
          rw [ht_node] at hlen
          omega
        · rw [removeSearch.eq_def, hs.above.get, root_node]
          rw [List.append_assoc, List.length_append, List.length_singleton]
          have hkey := hgt a ha'
          cases room with
          | zero => rw [if_neg (by omega)]
          | succ room =>
            dsimp only
            rw [if_neg (Nat.ne_of_gt hkey), if_neg (Nat.lt_asymm hkey), ← stackOf_cons (.right h l b) c,
              show NodePlace.avlRight b = place (.right h l b :: c) from rfl, hsearch room]
            simp only [Nat.succ_lt_succ_iff, List.singleton_append]

/-- The last node of a tree: it has no right child, and nothing comes after it. -/
theorem predecessorLoop_at (hs : At s c (.node h l a r)) (hb : (HeightTree.node h l a r).Balanced) :
    ∃ c1 hp pl p, plug c1 (.node hp pl p .nil) = .node h l a r ∧ c1.length < h ∧ after c1 = [] ∧
      ∀ room, s.predecessorLoop room (place c) (stackOf c) =
        if c1.length ≤ room then some (p, place (c1 ++ c), stackOf (c1 ++ c)) else none := by
  induction r generalizing c h l a with
  | nil =>
    refine ⟨[], h, l, a, rfl, ?_, rfl, fun room => ?_⟩
    · rw [List.length_nil, hb.2.2.1]
      exact Nat.zero_lt_succ _
    · rw [List.length_nil, if_pos (Nat.zero_le _), predecessorLoop.eq_def, hs.above.get, root_node]
      dsimp only
      rw [hs.below.1.2.1]
      rfl
  | node h' l' a' r' _ ih =>
    obtain ⟨-, hbr, hh, -⟩ := hb
    have hdown : At s (.right h l a :: c) (.node h' l' a' r') := At.down (f := .right h l a) hs
    obtain ⟨c1, hp, pl, p, hplug, hlen, hafter, hloop⟩ := ih hdown hbr
    refine ⟨c1 ++ [.right h l a], hp, pl, p, ?_, ?_, ?_, fun room => ?_⟩
    · rw [plug_append, hplug]
      rfl
    · rw [List.length_append, List.length_singleton]
      rw [ht_node] at hh
      omega
    · rw [after_append, hafter]
      rfl
    · rw [predecessorLoop.eq_def, hs.above.get, root_node]
      dsimp only
      rw [hs.below.1.2.1, root_node]
      rw [List.append_assoc, List.length_append, List.length_singleton]
      cases room with
      | zero => rw [if_neg (by omega)]
      | succ room =>
        dsimp only
        rw [← stackOf_cons (.right h l a) c, show NodePlace.avlRight a = place (.right h l a :: c) from rfl, hloop room]
        simp only [Nat.succ_le_succ_iff, List.singleton_append]

/-! ## Insert -/

/-- A node of its own is put into a balanced search tree, in the order of the keys; or the tree is higher than the
array. -/
theorem insert_at (hs : At s [] t) (hb : t.Balanced) (hsort : Sorted s t.keys) (ha : a ∉ t.keys)
    (hk : ∀ i ∈ t.keys, (s.node i).avlKey ≠ (s.node a).avlKey) :
    (∃ s' t' xs ys, s.lwpAvlInsert a = some s' ∧ At s' [] t' ∧ t'.Balanced ∧ t.keys = xs ++ ys ∧
      t'.keys = xs ++ a :: ys ∧ Sorted s' t'.keys ∧ Keeps s s' (a :: t.keys)) ∨
    avlMaxheight < t.ht ∧ s.lwpAvlInsert a = none := by
  obtain ⟨c, rfl, hlen, hbefore, hafter, hsearch⟩ := insertSearch_at hs hb hsort hk
  rw [List.append_nil] at hsearch
  have hsearch := hsearch avlMaxheight
  rw [show place [] = .rootNode from rfl, show stackOf [] = [] from rfl] at hsearch
  by_cases hroom : c.length ≤ avlMaxheight
  · left
    rw [if_pos hroom] at hsearch
    have hat := at_plug_iff.1 hs
    rw [keys_plug] at ha hsort
    rw [balanced_plug] at hb
    have hout : a ∉ outside c := by
      intro hmem
      have hmem' := (keys_plug_perm c .nil).mem_iff.2 (List.mem_append_right _ hmem)
      rw [keys_plug] at hmem'
      exact ha hmem'
    let s1 := ((s.setLeft a none).setRight a none).setHeight a 1
    have hother : ∀ j ∈ outside c, s1.node j = s.node j := by
      intro j hj
      have hja := ne_of_mem_of_not_mem hj hout
      rw [show s1 = ((s.setLeft a none).setRight a none).setHeight a 1 from rfl, setHeight_of_ne hja,
        setRight_of_ne hja, setLeft_of_ne hja]
    have hleaf : Linked s1.node (.node 1 .nil a .nil) := by
      refine ⟨?_, trivial, trivial⟩
      rw [show s1 = ((s.setLeft a none).setRight a none).setHeight a 1 from rfl, setHeight_self, setRight_self,
        setLeft_self]
      exact ⟨rfl, rfl, rfl⟩
    have hput := hat.above.relink (.node 1 .nil a .nil) hleaf rfl hother (by simpa using ⟨hout, hat.nodup⟩)
    have hids : ∀ i, i ∈ (HeightTree.node 1 .nil a .nil).keys ∨ i ∈ outside c → i ∈ a :: (plug c .nil).keys := by
      rintro i (hi | hi)
      · simpa using .inl (by simpa using hi)
      · exact List.mem_cons_of_mem _ ((keys_plug_perm c .nil).mem_iff.2 (List.mem_append_right _ hi))
    obtain ⟨s', hr, hs', hkeep⟩ := rebalance_above_at hput hids
    have hself : a ∈ a :: (plug c .nil).keys := List.mem_cons_self
    have hkeep1 : Keeps s s1 (a :: (plug c .nil).keys) :=
      ((keeps_setLeft hself).trans (keeps_setRight hself)).trans (keeps_setHeight hself)
    have hkeep' : Keeps s s' (a :: (plug c .nil).keys) :=
      (hkeep1.trans (keeps_put fun i hi => hids i (.inr hi))).trans hkeep
    have hkeys : (climbTo c (.node 1 .nil a .nil)).keys = before c ++ a :: after c := by
      rw [climbTo_keys, keys_plug]
      simp
    refine ⟨s', climbTo c (.node 1 .nil a .nil), before c, after c, ?_, hs', ?_, ?_, hkeys, ?_, hkeep'⟩
    · unfold lwpAvlInsert
      rw [hsearch]
      dsimp only
      rw [stackOf, List.reverse_reverse]
      exact hr
    · exact climbTo_balanced (k := 0) ⟨trivial, trivial, rfl, Nat.zero_le _, Nat.zero_le _⟩ hb.2 (Nat.zero_le _)
        (Nat.le_refl _)
    · rw [keys_plug]
      simp
    · rw [hkeys]
      rw [keys, List.append_nil] at hsort
      have hsorted : Sorted s (before c ++ a :: after c) := by
        obtain ⟨h5, h6, h7⟩ := List.pairwise_append.1 hsort
        refine List.pairwise_append.2 ⟨h5, List.pairwise_cons.2 ⟨hafter, h6⟩, ?_⟩
        intro i hi j hj
        rcases List.mem_cons.1 hj with rfl | hj
        · exact hbefore i hi
        · exact h7 i hi j hj
      exact hsorted.congr fun i _ => hkeep'.key i
  · right
    rw [if_neg hroom] at hsearch
    refine ⟨by omega, ?_⟩
    unfold lwpAvlInsert
    rw [hsearch]

/-! ## Remove -/

theorem At.at_append (h : At s (c1 ++ c) t) : At s c (plug c1 t) := by
  induction c1 generalizing t with
  | nil => exact h
  | cons f c1 ih => exact ih h.up

theorem At.append (h : At s c (plug c1 t)) : At s (c1 ++ c) t := by
  induction c1 generalizing t with
  | nil => exact h
  | cons f c1 ih => exact (ih h).down

/-- A subtree without a right child is replaced by the left child of its root. -/
theorem drop_at (hs : At s c (.node hp l p .nil)) : At (s.put (place c) l.root) c l := by
  have hnd : (l.keys ++ outside c).Nodup := hs.nodup.sublist (by simp)
  exact hs.above.relink l hs.below.2.1 rfl (fun _ _ => rfl) hnd

/-- A node takes the place of another one, with its links and height. -/
theorem replace_at (hs : At s c (.node h l a r)) (hp : p ∉ l.keys ++ r.keys ++ outside c) :
    At ((((s.setLeft p l.root).setRight p r.root).setHeight p h).put (place c) (some p)) c (.node h l p r) := by
  simp only [List.mem_append, not_or] at hp
  have hother : ∀ j, j ≠ p → (((s.setLeft p l.root).setRight p r.root).setHeight p h).node j = s.node j := by
    intro j hj
    rw [setHeight_of_ne hj, setRight_of_ne hj, setLeft_of_ne hj]
  have hnd := hs.nodup
  refine hs.above.relink (.node h l p r) ⟨?_, hs.below.2.1.congr ?_, hs.below.2.2.congr ?_⟩ rfl ?_ ?_
  · rw [setHeight_self, setRight_self, setLeft_self]
    exact ⟨rfl, rfl, rfl⟩
  · exact fun j hj => hother j (ne_of_mem_of_not_mem hj hp.1.1)
  · exact fun j hj => hother j (ne_of_mem_of_not_mem hj hp.1.2)
  · exact fun j hj => hother j (ne_of_mem_of_not_mem hj hp.2)
  · simp only [keys, List.append_assoc, List.cons_append, List.nodup_middle, List.nodup_cons, List.mem_append] at hnd ⊢
    exact ⟨by simp [hp], hnd.2⟩

/-- The entry behind the place of the deleted node is patched, if it is on the stack. -/
theorem set_stack (c1 c : List (Limb Nat)) (h a p : Nat) (r : HeightTree Nat) :
    (stackOf (c1 ++ .left h a r :: c)).set (c.length + 1) (.avlLeft p) = stackOf (c1 ++ .left h p r :: c) := by
  induction c1 with
  | nil =>
    rw [List.nil_append, List.nil_append, stackOf_cons, stackOf_cons]
    refine List.set_eq_of_length_le ?_
    rw [List.length_append, length_stackOf, List.length_singleton]
  | cons g c1 ih =>
    rw [List.cons_append, List.cons_append, stackOf_cons, stackOf_cons, List.set_append, length_stackOf,
      List.length_append, List.length_cons]
    cases c1 with
    | nil =>
      rw [List.length_nil, Nat.zero_add, if_neg (Nat.lt_irrefl _), Nat.sub_self]
      rfl
    | cons g' c1 =>
      rw [if_pos (by rw [List.length_cons]; omega), ih]
      rfl

/-- What the limbs are balanced around does not depend on the keys. -/
theorem fits_key (c1 c : List (Limb Nat)) (h a p : Nat) (r : HeightTree Nat) (hc : Fits (c1 ++ .left h a r :: c) k) :
    Fits (c1 ++ .left h p r :: c) k := by
  induction c1 generalizing k with
  | nil => exact hc
  | cons g c1 ih => exact ⟨hc.1, hc.2.1, hc.2.2.1, hc.2.2.2.1, ih hc.2.2.2.2⟩

theorem erase_middle {xs ys : List Nat} (hnd : (xs ++ a :: ys).Nodup) : (xs ++ a :: ys).erase a = xs ++ ys := by
  have ha : a ∉ xs := fun h => (List.nodup_append.1 hnd).2.2 a h a List.mem_cons_self rfl
  rw [List.erase_append_right _ ha, List.erase_cons_head]

/-- What is left after a removal. -/
structure Removed (s s' : LwpAvl) (t t' : HeightTree Nat) (a : Nat) : Prop where
  tree : At s' [] t'
  balanced : t'.Balanced
  keys : t'.keys = t.keys.erase a
  keeps : Keeps s s' t.keys

/-- A node without a left child: its right child takes its place. -/
theorem remove_noLeft (hs : At s c (.node h .nil a r)) (hb : (plug c (.node h .nil a r)).Balanced) :
    ∃ s', lwpAvlRebalance (stackOf c ++ [place c]).dropLast.reverse (s.put (place c) (s.node a).avlRight) = some s' ∧
      Removed s s' (plug c (.node h .nil a r)) (climbTo c r) a := by
  have hnd : (r.keys ++ outside c).Nodup := hs.nodup.sublist (by simp)
  have hput := hs.above.relink r hs.below.2.2 rfl (fun _ _ => rfl) hnd
  have hids : ∀ i, i ∈ r.keys ∨ i ∈ outside c → i ∈ (plug c (.node h .nil a r)).keys := by
    intro i hi
    refine (keys_plug_perm c _).mem_iff.2 (List.mem_append.2 (hi.imp_left fun hi => ?_))
    simp [hi]
  obtain ⟨s', hr, hs', hkeep⟩ := rebalance_above_at hput hids
  rw [balanced_plug] at hb
  obtain ⟨⟨-, hbr, hh, -⟩, hfits⟩ := hb
  refine ⟨s', ?_, hs', ?_, ?_, (keeps_put fun i hi => hids i (.inr hi)).trans hkeep⟩
  · rw [hs.below.1.2.1, List.dropLast_concat, stackOf, List.reverse_reverse]
    exact hr
  · rw [ht_node, hh] at hfits
    exact climbTo_balanced hbr hfits (Nat.le_refl _) (Nat.le_add_right _ 2)
  · have hnd' : (before c ++ a :: (r.keys ++ after c)).Nodup := by
      have hnd := (keys_plug_perm c (.node h .nil a r)).nodup_iff.2 hs.nodup
      rw [keys_plug] at hnd
      simpa using hnd
    rw [climbTo_keys, keys_plug, keys_plug, List.append_assoc]
    have herase := erase_middle hnd'
    simpa using herase.symm

/-- A node with a left child: its predecessor takes its place, and the left child of that one is put where the
predecessor was. -/
theorem remove_left {c1 : List (Limb Nat)} {hp p : Nat} {pl : HeightTree Nat}
    (hs : At s c (.node h (plug c1 (.node hp pl p .nil)) a r))
    (hb : (plug c (.node h (plug c1 (.node hp pl p .nil)) a r)).Balanced) (hlast : after c1 = []) :
    ∃ s', (let s := s.put (place (c1 ++ .left h a r :: c)) (s.node p).avlLeft
        let s := s.setLeft p (s.node a).avlLeft
        let s := s.setRight p (s.node a).avlRight
        let s := s.setHeight p (s.node a).avlHeight
        let s := s.put (place c) (some p)
        lwpAvlRebalance ((stackOf (c1 ++ .left h a r :: c)).set (c.length + 1) (.avlLeft p)).reverse s) = some s' ∧
      Removed s s' (plug c (.node h (plug c1 (.node hp pl p .nil)) a r)) (climbTo (c1 ++ .left h p r :: c) pl) a := by
  have hdown : At s (.left h a r :: c) (plug c1 (.node hp pl p .nil)) := At.down (f := .left h a r) hs
  have hpos : At s (c1 ++ .left h a r :: c) (.node hp pl p .nil) := hdown.append
  have hdrop := drop_at hpos
  have hup : At _ c (.node h (plug c1 pl) a r) := (At.at_append hdrop).up
  have hids : ∀ i, i ∈ pl.keys ∨ i ∈ outside (c1 ++ .left h p r :: c) →
      i ∈ (plug c (.node h (plug c1 (.node hp pl p .nil)) a r)).keys := by
    intro i hi
    refine (keys_plug_perm c _).mem_iff.2 ?_
    rw [outside_append, outside_cons] at hi
    simp only [keys, List.mem_append, List.mem_cons, (keys_plug_perm c1 _).mem_iff] at hi ⊢
    tauto
  -- the predecessor is neither in the tree that is left nor the node that is deleted
  have hnd := hpos.nodup
  rw [keys, keys, outside_append, outside_cons, List.append_assoc, List.singleton_append, List.nodup_middle,
    List.nodup_cons] at hnd
  have hpn := hnd.1
  simp only [List.mem_append, List.mem_cons, not_or, Limb.key_left, Limb.sibling_left] at hpn
  have hpl : p ∉ (plug c1 pl).keys := by
    rw [(keys_plug_perm c1 pl).mem_iff, List.mem_append, not_or]
    exact ⟨hpn.1, hpn.2.1⟩
  have hpa : a ≠ p := fun e => hpn.2.2.1 e.symm
  have hreplace := replace_at (p := p) hup (by
    simp only [List.mem_append, not_or]
    exact ⟨⟨hpl, hpn.2.2.2.1⟩, hpn.2.2.2.2⟩)
  have hfinal : At _ (c1 ++ .left h p r :: c) pl :=
    (At.down (f := .left h p r) hreplace).append
  obtain ⟨s', hr, hs', hkeep⟩ := rebalance_above_at hfinal hids
  have hwhole : plug c (.node h (plug c1 (.node hp pl p .nil)) a r) =
      plug (c1 ++ .left h a r :: c) (.node hp pl p .nil) := by rw [plug_append]; rfl
  have hpid : p ∈ (plug c (.node h (plug c1 (.node hp pl p .nil)) a r)).keys := by
    rw [hwhole, (keys_plug_perm _ _).mem_iff]
    simp
  have hout : ∀ i ∈ outside (c1 ++ .left h a r :: c), i ∈ (plug c (.node h (plug c1 (.node hp pl p .nil)) a r)).keys := by
    intro i hi
    rw [hwhole, (keys_plug_perm _ _).mem_iff]
    exact List.mem_append_right _ hi
  have hkeep' := ((((keeps_put (s := s) (x := pl.root) hout).trans (keeps_setLeft (x := (plug c1 pl).root) hpid)).trans
    (keeps_setRight (x := r.root) hpid)).trans (keeps_setHeight (h := h) hpid)).trans
    (keeps_put (c := c) (x := some p) fun i hi => hout i (by rw [outside_append, outside_cons]; simp [hi]))
  refine ⟨s', ?_, hs', ?_, ?_, hkeep'.trans hkeep⟩
  · dsimp only
    rw [hpos.below.1.1, hup.below.1.1, setLeft_of_ne hpa, hup.below.1.2.1, setRight_of_ne hpa, setLeft_of_ne hpa,
      hup.below.1.2.2, set_stack, stackOf, List.reverse_reverse]
    exact hr
  · rw [hwhole, balanced_plug] at hb
    obtain ⟨⟨hbl, -, hh, -⟩, hfits⟩ := hb
    rw [ht_nil, Nat.max_eq_left (Nat.zero_le _)] at hh
    rw [ht_node, hh] at hfits
    exact climbTo_balanced hbl (fits_key c1 c h a p r hfits) (Nat.le_refl _) (Nat.le_add_right _ 2)
  · have hkeys : (plug c (.node h (plug c1 (.node hp pl p .nil)) a r)).keys =
        (before c ++ before c1 ++ pl.keys ++ [p]) ++ a :: (r.keys ++ after c) := by
      rw [keys_plug, keys, keys_plug, keys, hlast]
      simp
    have hnd' : ((before c ++ before c1 ++ pl.keys ++ [p]) ++ a :: (r.keys ++ after c)).Nodup := by
      rw [← hkeys, (keys_plug_perm _ _).nodup_iff]
      exact hs.nodup
    rw [hkeys, erase_middle hnd', climbTo_keys, keys_plug, before_append, after_append, hlast]
    simp [Limb.before, Limb.after]

/-- A node is taken out of a balanced search tree; or the tree is higher than the array. -/
theorem remove_at (hs : At s [] t) (hb : t.Balanced) (hsort : Sorted s t.keys) (ha : a ∈ t.keys) :
    (∃ s' t', s.lwpAvlRemove a = some s' ∧ Removed s s' t t' a) ∨
      avlMaxheight < t.ht ∧ s.lwpAvlRemove a = none := by
  obtain ⟨c, h, l, r, rfl, hlen, hsearch⟩ := removeSearch_at hs hb hsort ha
  rw [List.append_nil] at hsearch
  have hsearch := hsearch avlMaxheight
  rw [show place [] = .rootNode from rfl, show stackOf [] = [] from rfl] at hsearch
  have hat := at_plug_iff.1 hs
  have hbnode := ((balanced_plug c _).1 hb).1
  have hpos : 0 < h := by
    rw [hbnode.2.2.1]
    exact Nat.zero_lt_succ _
  rw [ht_node] at hlen
  unfold lwpAvlRemove
  by_cases hroom : c.length < avlMaxheight
  · rw [if_pos hroom] at hsearch
    rw [hsearch, hat.below.1.1]
    cases l with
    | nil =>
      left
      obtain ⟨s', hr, hremoved⟩ := remove_noLeft hat hb
      exact ⟨s', _, hr, hremoved⟩
    | node hl ll b lr =>
      have hdown : At s (.left h a r :: c) (.node hl ll b lr) := At.down (f := .left h a r) hat
      obtain ⟨c1, hp, pl, p, hplug, hdepth, hlast, hloop⟩ := predecessorLoop_at hdown hbnode.1
      have hloop := hloop (avlMaxheight - (stackOf c ++ [place c]).length)
      rw [stackOf_cons, show place (.left h a r :: c) = .avlLeft a from rfl] at hloop
      have hh := hbnode.2.2.1
      rw [ht_node] at hh
      rw [root_node]
      dsimp only
      rw [hloop]
      rw [List.length_append, length_stackOf, List.length_singleton]
      by_cases hroom' : c1.length ≤ avlMaxheight - (c.length + 1)
      · rw [if_pos hroom']
        dsimp only
        by_cases hpatch : c.length + 1 < avlMaxheight
        · left
          rw [← hplug] at hat hb ⊢
          obtain ⟨s', hr, hremoved⟩ := remove_left hat hb hlast
          rw [if_pos hpatch]
          exact ⟨s', _, hr, hremoved⟩
        · right
          rw [if_neg hpatch]
          exact ⟨by omega, rfl⟩
      · right
        rw [if_neg hroom']
        exact ⟨by omega, rfl⟩
  · right
    rw [if_neg hroom] at hsearch
    rw [hsearch]
    exact ⟨by omega, rfl⟩

end RtThread.LwpAvl
